import Burrow.Memory.Runs

/-!
# Deleting containers

`delete_queues` and `delete_accounts` do not delete containers: they scan each
queue in their window, and the containers that this empties go. A scan passes
over hidden messages, so a queue with a message that is hidden and has not
expired stays, and with it its account. `container_deletion` says exactly that,
down to the destroy function, which drops the list of accounts whatever is still
in it.
-/

set_option autoImplicit false

namespace Burrow.Memory

open KeyedList

/-! ## Plans -/

/-- The queue a sweep goes over. -/
def Sweep.place (sweep : Sweep) : String × String := (sweep.account, sweep.queue)

theorem map_place_queueSweeps (scan : Nat → ScanInputs) (account : String) (names : List String)
    (i : Nat) :
    (queueSweeps scan account names i).map Sweep.place =
      names.map fun queue => (account, queue) := by
  induction names generalizing i with
  | nil => rfl
  | cons queue rest ih => rw [queueSweeps, List.map_cons, List.map_cons, ih]; rfl

theorem map_place_accountSweeps (deleteQueues : Nat → DeleteQueuesInputs)
    (names : String → List String) (accounts : List String) (i : Nat) :
    (accountSweeps deleteQueues names accounts i).map Sweep.place =
      accounts.flatMap fun account => (names account).map fun queue => (account, queue) := by
  induction accounts generalizing i with
  | nil => rfl
  | cons account rest ih =>
      rw [accountSweeps, List.map_append, map_place_queueSweeps, ih, List.flatMap_cons]

theorem nodup_queueSweeps (scan : Nat → ScanInputs) (account : String) {names : List String}
    (h : names.Nodup) (i : Nat) : ((queueSweeps scan account names i).map Sweep.place).Nodup := by
  rw [map_place_queueSweeps]
  exact h.map fun _ _ heq => (Prod.mk.inj heq).2

theorem nodup_accountSweeps (deleteQueues : Nat → DeleteQueuesInputs)
    {names : String → List String} (hnames : ∀ account, (names account).Nodup)
    {accounts : List String} (h : accounts.Nodup) (i : Nat) :
    ((accountSweeps deleteQueues names accounts i).map Sweep.place).Nodup := by
  rw [map_place_accountSweeps, List.nodup_flatMap]
  refine ⟨fun account _ => (hnames account).map fun _ _ heq => (Prod.mk.inj heq).2, ?_⟩
  refine h.imp fun {a a'} hne place ha ha' => ?_
  obtain ⟨_, -, rfl⟩ := List.mem_map.1 ha
  obtain ⟨_, -, heq⟩ := List.mem_map.1 ha'
  exact hne (Prod.mk.inj heq).1.symm

/-! ## What sweeps leave -/

/-- A plan goes over a queue, and this over the queues of a plan. -/
def Covers (plan : List Sweep) (account queue : String) : Prop :=
  (account, queue) ∈ plan.map Sweep.place

/-- No message in the way of the plan is hidden and unexpired when its queue is
swept. -/
def Unhindered (s : AccountsSt) (plan : List Sweep) : Prop :=
  ∀ sweep ∈ plan, ∀ m ∈ queueMessages s sweep.account sweep.queue,
    m.Expired sweep.time ∨ ¬ m.Hidden sweep.time

theorem not_survives_iff {now : UInt32} {m : BurrowMessage} :
    ¬ m.Survives now ↔ m.Expired now ∨ ¬ m.Hidden now := by
  rw [BurrowMessage.Survives, not_and_or, not_not]

theorem Broker.outer_sweeps_sublist (b : Broker) (plan : List Sweep) :
    (b.sweeps plan).outer.Sublist b.outer := by
  induction plan generalizing b with
  | nil => exact List.Sublist.refl _
  | cons sweep rest ih =>
      exact (ih (b.sweep sweep)).trans (Directory.outer_modifyRows_sublist _ _ _ _)

theorem Broker.inner_sweeps_sublist (b : Broker) (plan : List Sweep) (account : String) :
    ((b.sweeps plan).inner account).Sublist (b.inner account) := by
  induction plan generalizing b with
  | nil => exact List.Sublist.refl _
  | cons sweep rest ih =>
      exact (ih (b.sweep sweep)).trans (Directory.inner_modifyRows_sublist _ _ _ _ _)

/-- One round over a plan leaves of a queue what survives its sweep. -/
theorem Broker.rows_sweeps_of_mem {plan : List Sweep} (h : (plan.map Sweep.place).Nodup)
    {sweep : Sweep} (hmem : sweep ∈ plan) (b : Broker) :
    (b.sweeps plan).rows sweep.account sweep.queue =
      (b.rows sweep.account sweep.queue).filter fun m => m.Survives sweep.time := by
  induction plan generalizing b with
  | nil => exact absurd hmem List.not_mem_nil
  | cons first rest ih =>
      rw [List.map_cons, List.nodup_cons] at h
      show ((b.sweep first).sweeps rest).rows sweep.account sweep.queue = _
      have hne : ∀ x ∈ rest, x.place ≠ first.place := fun x hx heq =>
        h.1 (heq ▸ List.mem_map_of_mem hx)
      rcases List.mem_cons.1 hmem with rfl | hmem
      · rw [Broker.rows_sweeps_of_ne fun x hx => ?_]
        · exact Directory.rows_modifyRows_self _ _ _ rfl
        · refine not_and_or.1 fun heq => hne x hx ?_
          rw [Sweep.place, Sweep.place, heq.1, heq.2]
      · rw [ih h.2 hmem]
        congr 1
        refine Directory.rows_modifyRows_of_ne _ _ _ (not_and_or.1 fun heq => hne sweep hmem ?_)
        rw [Sweep.place, Sweep.place, heq.1, heq.2]

/-- The queues of a plan are emptied exactly when nothing is in the way. -/
theorem unhindered_iff {s : AccountsSt} {plan : List Sweep} (h : (plan.map Sweep.place).Nodup) :
    Unhindered s plan ↔
      ∀ account queue, Covers plan account queue →
        ((view s).sweeps plan).rows account queue = [] := by
  constructor
  · intro hun account queue hcovers
    obtain ⟨sweep, hmem, heq⟩ := List.mem_map.1 hcovers
    obtain ⟨rfl, rfl⟩ := Prod.mk.inj heq
    rw [Broker.rows_sweeps_of_mem h hmem, List.filter_eq_nil_iff]
    intro m hm
    rw [decide_eq_true_iff, not_survives_iff]
    exact hun sweep hmem m hm
  · intro hrows sweep hmem m hm
    have hnil := hrows sweep.account sweep.queue (List.mem_map.2 ⟨sweep, hmem, rfl⟩)
    rw [Broker.rows_sweeps_of_mem h hmem, List.filter_eq_nil_iff] at hnil
    have hno := hnil m hm
    rwa [decide_eq_true_iff, not_survives_iff] at hno

/-- Two stores without holes, the second one after the sweeps of a plan. -/
structure AfterSweeps (s : AccountsSt) (plan : List Sweep) (s' : AccountsSt) : Prop where
  ok : StoreOk False s
  ok' : StoreOk False s'
  nodup : (plan.map Sweep.place).Nodup
  view_eq : view s' = (view s).sweeps plan

namespace AfterSweeps

variable {s s' : AccountsSt} {plan : List Sweep} (h : AfterSweeps s plan s')
include h

theorem unhindered_iff' :
    Unhindered s plan ↔
      ∀ account queue, Covers plan account queue → queueMessages s' account queue = [] := by
  rw [unhindered_iff h.nodup, ← h.view_eq]
  rfl

theorem messages_of_not_covers {account queue : String} (hno : ¬ Covers plan account queue) :
    queueMessages s' account queue = queueMessages s account queue := by
  show (view s').rows account queue = _
  rw [h.view_eq]
  refine Broker.rows_sweeps_of_ne (fun sweep hsweep => ?_) (view s)
  refine not_and_or.1 fun heq => hno (List.mem_map.2 ⟨sweep, hsweep, ?_⟩)
  rw [Sweep.place, heq.1, heq.2]

/-- The queues that still hold a message stay, in their order. -/
theorem queueNames_eq_filter (account : String) :
    queueNames s' account =
      (queueNames s account).filter fun queue => !(queueMessages s' account queue).isEmpty := by
  refine eq_filter_of_sublist ?_ ((tidy_view h.ok).inner_nodup account) fun queue _ => ?_
  · show ((view s').inner account).Sublist _
    rw [h.view_eq]
    exact Broker.inner_sweeps_sublist _ _ _
  · rw [Bool.not_eq_true', List.isEmpty_eq_false_iff]
    exact (tidy_view h.ok').mem_inner account queue

/-- The accounts that still have a queue stay, in their order. -/
theorem keys_eq_filter :
    s'.keys = s.keys.filter fun account => !(queueNames s' account).isEmpty := by
  refine eq_filter_of_sublist ?_ (tidy_view h.ok).outer_nodup fun account _ => ?_
  · show (view s').outer.Sublist _
    rw [h.view_eq]
    exact Broker.outer_sweeps_sublist _ _
  · rw [Bool.not_eq_true', List.isEmpty_eq_false_iff]
    exact (tidy_view h.ok').mem_outer account

theorem queueNames_of_not_covers {account : String}
    (hno : ∀ queue, ¬ Covers plan account queue) :
    queueNames s' account = queueNames s account := by
  rw [h.queueNames_eq_filter, List.filter_eq_self]
  intro queue hqueue
  rw [h.messages_of_not_covers (hno queue), Bool.not_eq_true', List.isEmpty_eq_false_iff]
  exact ((tidy_view h.ok).mem_inner account queue).1 hqueue

/-- A queue that is gone holds nothing. -/
theorem messages_eq_nil_of_not_mem {account queue : String} (hno : queue ∉ queueNames s' account) :
    queueMessages s' account queue = [] := by
  by_contra hne
  exact hno (((tidy_view h.ok').mem_inner account queue).2 hne)

end AfterSweeps

/-! ## Deleting queues -/

/-- The queues of the window are gone from the account, and the account with its
last queue; all else is as it was. -/
structure QueuesDeleted (s s' : AccountsSt) (account : String) (queues : List String) : Prop where
  names : queueNames s' account = (queueNames s account).filter fun queue => queue ∉ queues
  accounts : s'.keys = if queueNames s' account = [] then s.keys.erase account else s.keys
  other_names : ∀ a, a ≠ account → queueNames s' a = queueNames s a
  other_messages : ∀ a queue, a ≠ account ∨ queue ∉ queues →
    queueMessages s' a queue = queueMessages s a queue

theorem covers_queueSweeps {scan : Nat → ScanInputs} {account : String} {names : List String}
    {i : Nat} {a queue : String} :
    Covers (queueSweeps scan account names i) a queue ↔ a = account ∧ queue ∈ names := by
  rw [Covers, map_place_queueSweeps, List.mem_map]
  constructor
  · rintro ⟨_, hqueue, heq⟩
    obtain ⟨rfl, rfl⟩ := Prod.mk.inj heq
    exact ⟨rfl, hqueue⟩
  · rintro ⟨rfl, hqueue⟩
    exact ⟨queue, hqueue, rfl⟩

theorem queuesDeleted_iff {s s' : AccountsSt} {scan : Nat → ScanInputs} {account : String}
    {queues : List String} (h : AfterSweeps s (queueSweeps scan account queues 0) s') :
    QueuesDeleted s s' account queues ↔ Unhindered s (queueSweeps scan account queues 0) := by
  rw [h.unhindered_iff']
  constructor
  · intro hdeleted a queue hcovers
    obtain ⟨rfl, hqueue⟩ := covers_queueSweeps.1 hcovers
    refine h.messages_eq_nil_of_not_mem fun hmem => ?_
    rw [hdeleted.names, List.mem_filter] at hmem
    exact absurd hqueue (by simpa using hmem.2)
  -- the sweeps reach the named queues of this account only
  · intro hempty
    have hothers : ∀ a, a ≠ account → queueNames s' a = queueNames s a := fun a hne =>
      h.queueNames_of_not_covers fun queue hcovers => hne (covers_queueSweeps.1 hcovers).1
    have hmessages : ∀ a queue, a ≠ account ∨ queue ∉ queues →
        queueMessages s' a queue = queueMessages s a queue := fun a queue hor =>
      h.messages_of_not_covers fun hcovers =>
        hor.elim (fun hne => hne (covers_queueSweeps.1 hcovers).1) fun hno =>
          hno (covers_queueSweeps.1 hcovers).2
    refine ⟨?_, ?_, hothers, hmessages⟩
    · rw [h.queueNames_eq_filter]
      refine List.filter_congr fun queue hqueue => ?_
      by_cases hmem : queue ∈ queues
      · rw [hempty account queue (covers_queueSweeps.2 ⟨rfl, hmem⟩)]
        simp [hmem]
      · rw [hmessages account queue (Or.inr hmem)]
        have hne : queueMessages s account queue ≠ [] :=
          ((tidy_view h.ok).mem_inner account queue).1 hqueue
        simpa [hmem] using hne
    · have hkeep : ∀ a ∈ s.keys, a ≠ account → (queueNames s' a).isEmpty = false := by
        intro a ha hne
        rw [hothers a hne, List.isEmpty_eq_false_iff]
        exact ((tidy_view h.ok).mem_outer a).1 ha
      -- the account goes with its last queue
      rw [h.keys_eq_filter]
      split
      · next hnil =>
          have hnodup : s.keys.Nodup := (tidy_view h.ok).outer_nodup
          rw [hnodup.erase_eq_filter]
          refine List.filter_congr fun a ha => ?_
          by_cases hne : a = account
          · simp [hne, hnil]
          · simp [hne, hkeep a ha hne]
      · next hne =>
          refine List.filter_eq_self.2 fun a ha => ?_
          by_cases heq : a = account
          · simpa [heq] using hne
          · simp [hkeep a ha heq]

/-! ## Deleting accounts -/

/-- The accounts of the window are gone with all they hold; all else is as it
was. -/
structure AccountsDeleted (s s' : AccountsSt) (accounts : List String) : Prop where
  keys : s'.keys = s.keys.filter fun account => account ∉ accounts
  names : ∀ account,
    queueNames s' account = if account ∈ accounts then [] else queueNames s account
  messages : ∀ account queue, queueMessages s' account queue =
    if account ∈ accounts then [] else queueMessages s account queue

theorem covers_accountSweeps {deleteQueues : Nat → DeleteQueuesInputs}
    {names : String → List String} {accounts : List String} {i : Nat} {account queue : String} :
    Covers (accountSweeps deleteQueues names accounts i) account queue ↔
      account ∈ accounts ∧ queue ∈ names account := by
  rw [Covers, map_place_accountSweeps, List.mem_flatMap]
  constructor
  · rintro ⟨_, haccount, hmem⟩
    obtain ⟨_, hqueue, heq⟩ := List.mem_map.1 hmem
    obtain ⟨rfl, rfl⟩ := Prod.mk.inj heq
    exact ⟨haccount, hqueue⟩
  · rintro ⟨haccount, hqueue⟩
    exact ⟨account, haccount, List.mem_map.2 ⟨queue, hqueue, rfl⟩⟩

section Accounts

variable {s s' : AccountsSt} {deleteQueues : Nat → DeleteQueuesInputs} {accounts : List String}

theorem accountsDeleted_iff
    (h : AfterSweeps s (accountSweeps deleteQueues (queueNames s) accounts 0) s') :
    AccountsDeleted s s' accounts ↔
      Unhindered s (accountSweeps deleteQueues (queueNames s) accounts 0) := by
  rw [h.unhindered_iff']
  constructor
  · intro hdeleted account queue hcovers
    rw [hdeleted.messages, if_pos (covers_accountSweeps.1 hcovers).1]
  · intro hempty
    have hgone : ∀ account ∈ accounts, queueNames s' account = [] := by
      intro account haccount
      rw [h.queueNames_eq_filter, List.filter_eq_nil_iff]
      intro queue hqueue
      rw [hempty account queue (covers_accountSweeps.2 ⟨haccount, hqueue⟩)]
      simp
    have hothers : ∀ account, account ∉ accounts →
        queueNames s' account = queueNames s account := fun account hno =>
      h.queueNames_of_not_covers fun queue hcovers => hno (covers_accountSweeps.1 hcovers).1
    refine ⟨?_, fun account => ?_, fun account queue => ?_⟩
    -- an account that was not named keeps a queue, as it had one before
    · rw [h.keys_eq_filter]
      refine List.filter_congr fun account haccount => ?_
      by_cases hmem : account ∈ accounts
      · simp [hmem, hgone account hmem]
      · have hne : queueNames s account ≠ [] := ((tidy_view h.ok).mem_outer account).1 haccount
        simpa [hmem, hothers account hmem] using hne
    · split
      · next hmem => exact hgone account hmem
      · next hno => exact hothers account hno
    · split
      · next hmem =>
          refine h.messages_eq_nil_of_not_mem ?_
          rw [hgone account hmem]
          exact List.not_mem_nil
      · next hno =>
          exact h.messages_of_not_covers fun hcovers => hno (covers_accountSweeps.1 hcovers).1

/-- Deleting all accounts leaves the empty store exactly when nothing is in the way. -/
theorem eq_create_iff
    (h : AfterSweeps s (accountSweeps deleteQueues (queueNames s) s.keys 0) s') :
    s' = burrowBackendMemoryCreate ↔
      Unhindered s (accountSweeps deleteQueues (queueNames s) s.keys 0) := by
  rw [← accountsDeleted_iff h]
  constructor
  · intro heq
    rw [accountsDeleted_iff h, h.unhindered_iff', heq]
    exact fun _ _ _ => rfl
  · intro hdeleted
    have hnil : s'.keys = [] := by
      rw [hdeleted.keys, List.filter_eq_nil_iff]
      exact fun account haccount => by simpa using haccount
    rw [Dictionary.keys_eq_nil_iff] at hnil
    rw [Dictionary.WellFormed.eq_ofNodes h.ok', hnil]
    rfl

end Accounts

/-! ## The commands -/

section Commands

variable {s : AccountsSt}

theorem Swept.afterSweeps {s' : AccountsSt} {plan : List Sweep} {failed : Prop}
    {callbacks : List Callback} (hswept : Swept False s plan failed s' callbacks)
    (hmem : ¬ failed) (h : StoreOk False s) (hnodup : (plan.map Sweep.place).Nodup) :
    AfterSweeps s plan s' := by
  obtain ⟨hok, -, ran, -, hview, hall⟩ := hswept
  rw [hall hmem] at hview
  exact ⟨h, hok, hnodup, hview⟩

theorem deleteQueues_afterSweeps (h : StoreOk False s) {inputs : DeleteQueuesInputs}
    (hmem : inputs.AllocationsSucceed) {cmd : BackendCommand} (hlive : ArgLive cmd.filters) :
    ∃ o, burrowBackendMemoryDeleteQueues inputs cmd s = .ok o ∧ o.callbacks = [] ∧
      AfterSweeps s (queueSweeps inputs.scan cmd.account
        (nameWindow cmd (queueNames s cmd.account)) 0) o.accounts := by
  obtain ⟨o, hrun⟩ := (deleteQueues_reads h).ok fun _ _ => hlive
  obtain ⟨hswept, -⟩ := deleteQueues_spec h hrun
  refine ⟨o, hrun, hswept.2.1, hswept.afterSweeps (fun hno => hno hmem) h ?_⟩
  exact nodup_queueSweeps _ _ (nodup_nameWindow cmd ((tidy_view h).inner_nodup _)) 0

theorem deleteAccounts_afterSweeps (h : StoreOk False s) {inputs : DeleteAccountsInputs}
    (hmem : inputs.AllocationsSucceed) {cmd : BackendCommand} (hlive : ArgLive cmd.filters) :
    ∃ o, burrowBackendMemoryDeleteAccounts inputs cmd s = .ok o ∧ o.callbacks = [] ∧
      AfterSweeps s (accountSweeps inputs.deleteQueues (queueNames s)
        (nameWindow cmd s.keys) 0) o.accounts := by
  obtain ⟨o, hrun⟩ := (deleteAccounts_reads h).ok fun _ => hlive
  obtain ⟨hswept, -⟩ := deleteAccounts_spec h hrun
  refine ⟨o, hrun, hswept.2.1, hswept.afterSweeps (fun hno => hno hmem) h ?_⟩
  exact nodup_accountSweeps _ (tidy_view h).inner_nodup (nodup_nameWindow cmd h.nodup) 0

/-- The allocations of the destroy function succeed. -/
def FreeInputs.AllocationsSucceed (inputs : FreeInputs) : Prop :=
  inputs.eraseCmd ≠ none ∧ inputs.eraseFilters ≠ none ∧ inputs.deleteAccounts.AllocationsSucceed

/-- The destroy function deletes all accounts. -/
theorem free_afterSweeps (h : StoreOk False s) {inputs : FreeInputs}
    (hmem : inputs.AllocationsSucceed) :
    ∃ s', burrowBackendMemoryFree inputs s = .ok (s', []) ∧
      AfterSweeps s (accountSweeps inputs.deleteAccounts.deleteQueues (queueNames s) s.keys 0)
        s' := by
  obtain ⟨hcmd, hfilters, haccounts⟩ := hmem
  obtain ⟨block, hblock⟩ := Option.ne_none_iff_exists'.1 hcmd
  obtain ⟨filters, hprocess, hf⟩ := processFilter_none hfilters
  obtain ⟨o, hrun, hcallbacks, hafter⟩ := @deleteAccounts_afterSweeps _ h _ haccounts
    { block with filters := some (.live filters) } (by simp)
  obtain ⟨hmarker, hlimit, -⟩ := @erase_args { block with filters := some (.live filters) } _ hf rfl
  rw [nameWindow, hmarker, hlimit, window_none_zero] at hafter
  refine ⟨o.accounts, ?_, hafter⟩
  rw [burrowBackendMemoryFree, hblock, hprocess]
  simp only [hrun, hcallbacks]

end Commands

/-- **When deleting containers deletes them.** The queues and accounts in the
window are deleted, and nothing else changes, exactly when none of their messages
is hidden and unexpired as its queue is swept; `delete_accounts` without filters
and the destroy function leave the empty store exactly when that holds of every
message. In no case is there a callback. -/
theorem container_deletion {s : AccountsSt} (hs : ReachableWithMemory s) {inputs : Inputs}
    (hmem : inputs.AllocationsSucceed) {free : FreeInputs} (hfree : free.AllocationsSucceed)
    {cmd : BackendCommand} (hlive : cmd.IsLive) :
    (∃ o, execute inputs .deleteQueues cmd s = .ok o ∧ o.callbacks = [] ∧
      (QueuesDeleted s o.accounts cmd.account (nameWindow cmd (queueNames s cmd.account)) ↔
        Unhindered s (queueSweeps inputs.deleteQueues.scan cmd.account
          (nameWindow cmd (queueNames s cmd.account)) 0))) ∧
    (∃ o, execute inputs .deleteAccounts cmd s = .ok o ∧ o.callbacks = [] ∧
      (AccountsDeleted s o.accounts (nameWindow cmd s.keys) ↔
        Unhindered s (accountSweeps inputs.deleteAccounts.deleteQueues (queueNames s)
          (nameWindow cmd s.keys) 0)) ∧
      (cmd.filters = none → (o.accounts = burrowBackendMemoryCreate ↔
        Unhindered s (accountSweeps inputs.deleteAccounts.deleteQueues (queueNames s)
          s.keys 0)))) ∧
    ∃ s', burrowBackendMemoryFree free s = .ok (s', []) ∧
      (s' = burrowBackendMemoryCreate ↔
        Unhindered s (accountSweeps free.deleteAccounts.deleteQueues (queueNames s) s.keys 0)) := by
  have h := hs.storeOk
  refine ⟨?_, ?_, ?_⟩
  · obtain ⟨o, hrun, hcallbacks, hafter⟩ := deleteQueues_afterSweeps h hmem.deleteQueues hlive.1
    exact ⟨o, hrun, hcallbacks, queuesDeleted_iff hafter⟩
  · obtain ⟨o, hrun, hcallbacks, hafter⟩ := deleteAccounts_afterSweeps h hmem.deleteAccounts hlive.1
    refine ⟨o, hrun, hcallbacks, accountsDeleted_iff hafter, fun hnone => eq_create_iff ?_⟩
    have hwindow : nameWindow cmd s.keys = s.keys := by
      have hfilters : cmd.filters? = none := by rw [BackendCommand.filters?, hnone]; rfl
      rw [nameWindow, BackendCommand.marker, BackendCommand.limit, hfilters]
      rfl
    rw [hwindow] at hafter
    exact hafter
  · obtain ⟨s', hrun, hafter⟩ := free_afterSweeps h hfree
    exact ⟨s', hrun, eq_create_iff hafter⟩

/-- The destroy function with memory for everything. -/
def ampleFree (now : UInt32) : FreeInputs :=
  { eraseCmd := some default
    eraseFilters := some default
    deleteAccounts := (ampleInputs now).deleteAccounts }

/-- A visible message is deleted with its queue and its account. -/
theorem container_deletion_visible :
    (∃ o, execute (ampleInputs 20) .deleteQueues (plainCommand "a" "" "" [])
        (singleStore "a" "q" (createdMessage 10 (plainCommand "a" "q" "m" []))) = .ok o ∧
      queueNames o.accounts "a" = []) ∧
    ∃ s', burrowBackendMemoryFree (ampleFree 20)
        (singleStore "a" "q" (createdMessage 10 (plainCommand "a" "q" "m" []))) = .ok (s', []) ∧
      s' = burrowBackendMemoryCreate := by
  have hs : ReachableWithMemory
      (singleStore "a" "q" (createdMessage 10 (plainCommand "a" "q" "m" []))) :=
    reachableWithMemory_of_create 10 (plainCommand "a" "q" "m" []) rfl
  have hfree : (ampleFree 20).AllocationsSucceed :=
    ⟨by simp [ampleFree], by simp [ampleFree], (ampleInputs_allocationsSucceed 20).deleteAccounts⟩
  obtain ⟨⟨o, hrun, -, hqueues⟩, -, s', hrunFree, hempty⟩ := container_deletion hs
    (ampleInputs_allocationsSucceed 20) hfree (plainCommand_isLive "a" "" "" [])
  refine ⟨⟨o, hrun, (hqueues.2 ?_).names⟩, s', hrunFree, hempty.2 ?_⟩
  · intro sweep hsweep m hm
    rw [List.mem_singleton.1 hsweep] at hm ⊢
    rw [List.mem_singleton.1 hm]
    exact Or.inr (by decide)
  · intro sweep hsweep m hm
    rw [List.mem_singleton.1 hsweep] at hm ⊢
    rw [List.mem_singleton.1 hm]
    exact Or.inr (by decide)

/-- A message that is hidden keeps its queue from being deleted. -/
theorem hidden_message_keeps_queue :
    ¬ ∀ (s : AccountsSt) (inputs : Inputs) (cmd : BackendCommand) (o : Outcome),
      ReachableWithMemory s → inputs.AllocationsSucceed → cmd.IsLive →
      execute inputs .deleteQueues cmd s = .ok o →
      ∀ queue ∈ nameWindow cmd (queueNames s cmd.account),
        queue ∉ queueNames o.accounts cmd.account := by
  intro h
  have hs : ReachableWithMemory
      (singleStore "a" "q" (createdMessage 10 (hidingCommand "a" "q" "m" 100))) :=
    reachableWithMemory_of_create 10 (hidingCommand "a" "q" "m" 100) rfl
  exact h _ (ampleInputs 20) (plainCommand "a" "" "" [])
    ⟨singleStore "a" "q" (createdMessage 10 (hidingCommand "a" "q" "m" 100)), [], 0⟩ hs
    (ampleInputs_allocationsSucceed 20) (plainCommand_isLive _ _ _ _) rfl "q"
    (by decide) (by decide)

end Burrow.Memory
