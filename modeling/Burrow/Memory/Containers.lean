import Burrow.Memory.Scan

/-!
# The commands on queues and accounts

The listings report a window of names. Deleting containers is a sequence of
sweeps, one for each queue: a sweep drops the messages of a queue that are not
both unexpired and hidden at its time, and a container goes when it is empty.
`delete_queues` sweeps the queues of its window in order, `delete_accounts` all
queues of each account of its window; where allocations fail, some of the sweeps
do not take place.
-/

set_option autoImplicit false

namespace Burrow.Memory

open KeyedList

/-! ## Listings -/

/-- The allocations of a listing succeed. -/
def ListInputs.AllocationsSucceed (inputs : ListInputs) : Prop :=
  inputs.outFilters ≠ none ∧ inputs.iter.Succeeds

/-- The names a command on containers looks at. -/
def nameWindow (cmd : BackendCommand) (names : List String) : List String :=
  window id cmd.marker cmd.limit names

/-- What `get_accounts` is for. -/
def Broker.getAccounts (b : Broker) (cmd : BackendCommand) : Answer :=
  ⟨b, (nameWindow cmd b.outer).map .account, 0⟩

/-- What `get_queues` is for. -/
def Broker.getQueues (b : Broker) (cmd : BackendCommand) : Answer :=
  ⟨b, (nameWindow cmd (b.inner cmd.account)).map .queue, 0⟩

theorem map_report_listKeys {α : Type} (iterator : Dictionary α) (callback : String → Callback) :
    (listKeys iterator callback).map Callback.report =
      ((iterator.nodes.take iterator.length).map DictionaryNode.key).map
        fun key => (callback key).report := by
  rw [listKeys, List.map_map, List.map_map]
  rfl

section Listings

variable {holes : Prop} {s : AccountsSt} {inputs : ListInputs} {cmd : BackendCommand} {o : Outcome}

/-- A listing reports the window of the names, or nothing for want of memory. -/
theorem listCommand_spec {α : Type} {P : DictionaryNode α → Prop} {d : Dictionary α}
    (hd : d.WellFormed P) {callback : String → Callback}
    (hrun : listCommand inputs cmd d callback s = .ok o) :
    o.accounts = s ∧ o.result = 0 ∧
      (o.callbacks.map Callback.report =
          (nameWindow cmd d.keys).map (fun key => (callback key).report) ∨
        ¬ inputs.AllocationsSucceed ∧ o.callbacks.map Callback.report = []) := by
  unfold listCommand at hrun
  split at hrun
  · exact absurd hrun (by simp)
  · next hfilters =>
      cases hrun
      rcases processFilter_ok hfilters with ⟨hblock, -⟩ | ⟨_, -, hsome, -⟩
      · exact ⟨rfl, rfl, Or.inr ⟨fun hs => hs.1 hblock, rfl⟩⟩
      · exact absurd hsome (by simp)
  · next filters hfilters =>
      rcases processFilter_ok hfilters with ⟨-, hnone⟩ | ⟨_, -, hsome, hm, hl, -⟩
      · exact absurd hnone (by simp)
      · cases hsome
        rw [hm, hl] at hrun
        split at hrun
        · next hiter =>
            cases hrun
            have hfail := dictionaryIter_eq_none hd hiter
            exact ⟨rfl, rfl, Or.inr ⟨fun hs => hfail hs.2, rfl⟩⟩
        · next iterator hiter =>
            cases hrun
            refine ⟨rfl, rfl, ?_⟩
            rw [map_report_listKeys]
            rcases dictionaryIter_keys hd hiter with hkeys | ⟨hfail, hkeys⟩
            · rw [hkeys]
              exact Or.inl rfl
            · rw [hkeys]
              exact Or.inr ⟨fun hs => hfail hs.2, rfl⟩

/-- A listing makes one callback for each name, and no other. -/
theorem listCommand_callbacks {α : Type} {d : Dictionary α} {callback : String → Callback}
    {P : Callback → Prop} (hcallback : ∀ key, P (callback key))
    (hrun : listCommand inputs cmd d callback s = .ok o) : ∀ c ∈ o.callbacks, P c := by
  unfold listCommand at hrun
  split at hrun
  · exact absurd hrun (by simp)
  · cases hrun
    exact fun c hc => absurd hc List.not_mem_nil
  · split at hrun
    · cases hrun
      exact fun c hc => absurd hc List.not_mem_nil
    · cases hrun
      intro c hc
      obtain ⟨item, -, rfl⟩ := List.mem_map.1 hc
      exact hcallback _

theorem listCommand_reads {α : Type} {d : Dictionary α} {callback : String → Callback} :
    Reads (inputs.outFilters ≠ none → ArgLive cmd.filters)
      (listCommand inputs cmd d callback s) := by
  have hreads := processFilter_reads inputs.outFilters cmd.filters
  refine ⟨fun hlive => ?_, fun hno => ?_⟩
  · obtain ⟨out, hout⟩ := hreads.ok hlive
    rw [listCommand, hout]
    cases out with
    | none => exact ⟨_, rfl⟩
    | some filters =>
        simp only
        split <;> exact ⟨_, rfl⟩
  · rw [listCommand, hreads.error hno]

/-- The search for the account: its queues, or nothing to do. -/
theorem withQueues_cases (h : StoreOk holes s) (cmd : BackendCommand)
    (body : QueuesSt → Except Fault Outcome) :
    s.data? cmd.account = none ∧ withQueues cmd s body = .ok ⟨s, [], 0⟩ ∨
      ∃ queues, s.data? cmd.account = some queues ∧ queues.WellFormed (QueueNodeOk holes) ∧
        queueNames s cmd.account = queues.keys ∧ withQueues cmd s body = body queues := by
  unfold withQueues
  cases hacc : dictionaryGet (some s) (some cmd.account) with
  | none =>
      exact Or.inl ⟨Dictionary.data?_of_get_none hacc, rfl⟩
  | some account =>
      have ha := Dictionary.data?_of_get hacc
      cases hdata : account.data with
      | none =>
          exact Or.inl ⟨ha.trans hdata, by simp only [hdata]⟩
      | some queues =>
          rw [hdata] at ha
          rcases (Dictionary.WellFormed.data?_eq_some h ha).2 with ⟨hnone, -⟩ | ⟨_, hq, hwf, -⟩
          · exact absurd hnone (by simp)
          · cases hq
            exact Or.inr ⟨queues, ha, hwf, queueNames_eq ha, by simp only [hdata]⟩

theorem getAccounts_spec (h : StoreOk holes s)
    (hrun : burrowBackendMemoryGetAccounts inputs cmd s = .ok o) :
    o.accounts = s ∧
      (o.answer = (view s).getAccounts cmd ∨
        ¬ inputs.AllocationsSucceed ∧ o.answer = ⟨view s, [], 0⟩) := by
  obtain ⟨haccounts, hresult, hreports⟩ := listCommand_spec h hrun
  refine ⟨haccounts, ?_⟩
  rw [Outcome.answer, haccounts, hresult]
  rcases hreports with hreports | ⟨hfail, hreports⟩
  · rw [hreports]
    exact Or.inl rfl
  · rw [hreports]
    exact Or.inr ⟨hfail, rfl⟩

theorem getQueues_spec (h : StoreOk holes s)
    (hrun : burrowBackendMemoryGetQueues inputs cmd s = .ok o) :
    o.accounts = s ∧
      (o.answer = (view s).getQueues cmd ∨
        ¬ inputs.AllocationsSucceed ∧ o.answer = ⟨view s, [], 0⟩) := by
  rcases withQueues_cases h cmd fun queues => listCommand inputs cmd queues .queue s with
    ⟨hnone, heq⟩ | ⟨queues, -, hwf, hnames, heq⟩
  · rw [burrowBackendMemoryGetQueues, heq] at hrun
    cases hrun
    -- an account that is not there lists nothing, which is what the empty list of its
    -- queues lists
    refine ⟨rfl, Or.inl ?_⟩
    rw [Broker.getQueues, show (view s).inner cmd.account = [] from queueNames_eq_nil hnone,
      nameWindow, window_nil]
    rfl
  · rw [burrowBackendMemoryGetQueues, heq] at hrun
    obtain ⟨haccounts, hresult, hreports⟩ := listCommand_spec hwf hrun
    refine ⟨haccounts, ?_⟩
    rw [Outcome.answer, haccounts, hresult]
    rcases hreports with hreports | ⟨hfail, hreports⟩
    · rw [hreports, ← hnames]
      exact Or.inl rfl
    · rw [hreports]
      exact Or.inr ⟨hfail, rfl⟩

theorem getQueues_callbacks (h : StoreOk holes s) {P : Callback → Prop}
    (hcallback : ∀ key, P (.queue key))
    (hrun : burrowBackendMemoryGetQueues inputs cmd s = .ok o) : ∀ c ∈ o.callbacks, P c := by
  rcases withQueues_cases h cmd fun queues => listCommand inputs cmd queues .queue s with
    ⟨-, heq⟩ | ⟨queues, -, -, -, heq⟩
  · cases heq.symm.trans hrun
    exact fun c hc => absurd hc List.not_mem_nil
  · exact listCommand_callbacks hcallback (heq.symm.trans hrun)

theorem getQueues_reads (h : StoreOk holes s) :
    Reads (s.data? cmd.account ≠ none → inputs.outFilters ≠ none → ArgLive cmd.filters)
      (burrowBackendMemoryGetQueues inputs cmd s) := by
  unfold burrowBackendMemoryGetQueues
  rcases withQueues_cases h cmd _ with ⟨hnone, heq⟩ | ⟨queues, hsome, -, -, heq⟩
  · rw [heq]
    exact .of_ok rfl fun hne => absurd hnone hne
  · rw [heq]
    exact listCommand_reads.congr (by simp [hsome])

end Listings

/-! ## Sweeps -/

/-- One scan of a queue that deletes without reporting. -/
structure Sweep where
  account : String
  queue : String
  time : UInt32

/-- The messages a sweep leaves. -/
def BurrowMessage.Survives (now : UInt32) (m : BurrowMessage) : Prop :=
  ¬ m.Expired now ∧ m.Hidden now

instance (now : UInt32) (m : BurrowMessage) : Decidable (m.Survives now) :=
  inferInstanceAs (Decidable (_ ∧ _))

def Broker.sweep (b : Broker) (sweep : Sweep) : Broker :=
  b.modifyRows sweep.account sweep.queue (List.filter fun m => m.Survives sweep.time)

def Broker.sweeps (b : Broker) (l : List Sweep) : Broker := l.foldl Broker.sweep b

/-- The sweeps of `delete_queues`, from the `i`-th scan on. -/
def queueSweeps (scan : Nat → ScanInputs) (account : String) : List String → Nat → List Sweep
  | [], _ => []
  | queue :: rest, i =>
      { account := account, queue := queue, time := (scan i).time } ::
        queueSweeps scan account rest (i + 1)

/-- The sweeps of `delete_accounts`, from the `i`-th account on; `names` are the
queues of an account. -/
def accountSweeps (deleteQueues : Nat → DeleteQueuesInputs) (names : String → List String) :
    List String → Nat → List Sweep
  | [], _ => []
  | account :: rest, i =>
      queueSweeps (deleteQueues i).scan account (names account) 0 ++
        accountSweeps deleteQueues names rest (i + 1)

theorem Broker.sweeps_append (b : Broker) (l l' : List Sweep) :
    b.sweeps (l ++ l') = (b.sweeps l).sweeps l' :=
  List.foldl_append

/-- Sweeping an account leaves the queues of the others. -/
theorem Broker.inner_sweeps_of_ne {account : String} {l : List Sweep}
    (hl : ∀ sweep ∈ l, sweep.account ≠ account) (b : Broker) :
    (b.sweeps l).inner account = b.inner account := by
  induction l generalizing b with
  | nil => rfl
  | cons sweep rest ih =>
      show ((b.sweep sweep).sweeps rest).inner account = _
      rw [ih fun x hx => hl x (List.mem_cons_of_mem _ hx)]
      exact Directory.inner_modifyRows_of_ne _ _ _ (hl sweep List.mem_cons_self).symm

/-- Sweeping other queues leaves the messages of a queue. -/
theorem Broker.rows_sweeps_of_ne {account queue : String} {l : List Sweep}
    (hl : ∀ sweep ∈ l, account ≠ sweep.account ∨ queue ≠ sweep.queue) (b : Broker) :
    (b.sweeps l).rows account queue = b.rows account queue := by
  induction l generalizing b with
  | nil => rfl
  | cons sweep rest ih =>
      show ((b.sweep sweep).sweeps rest).rows account queue = _
      rw [ih fun x hx => hl x (List.mem_cons_of_mem _ hx)]
      exact Directory.rows_modifyRows_of_ne _ _ _ (hl sweep List.mem_cons_self)

theorem account_of_mem_queueSweeps {scan : Nat → ScanInputs} {account : String}
    {names : List String} {i : Nat} {sweep : Sweep} (h : sweep ∈ queueSweeps scan account names i) :
    sweep.account = account := by
  induction names generalizing i with
  | nil => exact absurd h List.not_mem_nil
  | cons name rest ih =>
      rcases List.mem_cons.1 h with rfl | h
      · rfl
      · exact ih h

/-! ## The erase command -/

/-- The filters of an erase command. -/
def EraseFilters (filters : BurrowFilters) : Prop :=
  filters.marker = none ∧ filters.limit = 0 ∧ filters.matchHidden = false

theorem processFilter_none {block : Option BurrowFilters} (h : block ≠ none) :
    ∃ filters, processFilter block none = .ok (some filters) ∧ EraseFilters filters := by
  obtain ⟨value, rfl⟩ := Option.ne_none_iff_exists'.1 h
  exact ⟨_, rfl, rfl, rfl, rfl⟩

theorem eraseFilters_of_processFilter {block : Option BurrowFilters} {filters : BurrowFilters}
    (h : processFilter block none = .ok (some filters)) : EraseFilters filters := by
  cases block with
  | none => exact absurd h (by simp [processFilter])
  | some value =>
      cases h
      exact ⟨rfl, rfl, rfl⟩

section Erase

variable {cmd : BackendCommand} {filters : BurrowFilters}

theorem erase_args (hf : EraseFilters filters) (hcmd : cmd.filters = some (.live filters)) :
    cmd.marker = none ∧ cmd.limit = 0 ∧ cmd.matchHidden = false := by
  obtain ⟨hmarker, hlimit, hmatch⟩ := hf
  have hfilters : cmd.filters? = some filters := by
    rw [BackendCommand.filters?, hcmd]
    rfl
  refine ⟨?_, ?_, ?_⟩
  · rw [BackendCommand.marker, hfilters, Option.bind_some, hmarker]
  · rw [BackendCommand.limit, hfilters]
    simp [hlimit]
  · rw [BackendCommand.matchHidden, hfilters]
    simp [hmatch]

/-- A scan for an erase command is a sweep that nobody hears of. -/
theorem scan_erase (hf : EraseFilters filters) (hcmd : cmd.filters = some (.live filters))
    (b : Broker) (now : UInt32) :
    b.scan cmd (scanLocals cmd .delete .ignore now) =
        b.sweep { account := cmd.account, queue := cmd.queue, time := now } ∧
      b.scanned cmd (scanLocals cmd .delete .ignore now) = [] := by
  obtain ⟨hmarker, hlimit, hmatch⟩ := erase_args hf hcmd
  constructor
  · have heffect : scanEffect (scanLocals cmd .delete .ignore now) =
        Option.guard fun m => decide (m.Survives now) := by
      funext m
      by_cases he : m.Expired now
      -- the filters of the erasing scan have neither marker nor limit and match no
      -- hidden message
      · rw [scanEffect_of_expired he]
        simp [Option.guard, BurrowMessage.Survives, he]
      · by_cases hh : m.Hidden now
        · rw [scanEffect_of_not_selected he]
          · simp [Option.guard, BurrowMessage.Survives, he, hh]
          · exact fun hs => absurd (hs.2 hh) (by simp [scanLocals, hmatch])
        · have hs : m.Selected now cmd.matchHidden := ⟨he, fun h => absurd h hh⟩
          rw [scanEffect_of_selected hs]
          simp [Option.guard, BurrowMessage.Survives, hh, scanLocals]
    rw [Broker.scan, Broker.sweep, hmarker, hlimit, heffect]
    congr 1
    funext l
    rw [mapWindow_none_zero, List.filterMap_eq_filter]
  · rw [Broker.scanned]
    apply List.filterMap_eq_nil_iff.2
    intro m _
    unfold scanReport
    split <;> rfl

end Erase

/-! ## Deleting queues -/

/-- The allocations of a walk that deletes succeed. -/
def EraseInputs.AllocationsSucceed (inputs : EraseInputs) : Prop :=
  inputs.toListInputs.AllocationsSucceed ∧ inputs.eraseCmd ≠ none ∧ inputs.eraseFilters ≠ none

def DeleteQueuesInputs.AllocationsSucceed (inputs : DeleteQueuesInputs) : Prop :=
  inputs.toEraseInputs.AllocationsSucceed ∧ ∀ i, (inputs.scan i).AllocationsSucceed

def DeleteAccountsInputs.AllocationsSucceed (inputs : DeleteAccountsInputs) : Prop :=
  inputs.toEraseInputs.AllocationsSucceed ∧ ∀ i, (inputs.deleteQueues i).AllocationsSucceed

/-- What a deleting walk did: the sweeps of `plan`, or some of them where
something `failed`. -/
def Swept (holes : Prop) (s : AccountsSt) (plan : List Sweep) (failed : Prop) (s' : AccountsSt)
    (callbacks : List Callback) : Prop :=
  StoreOk holes s' ∧ callbacks = [] ∧
    ∃ ran : List Sweep, ran.Sublist plan ∧ view s' = (view s).sweeps ran ∧ (¬ failed → ran = plan)

section Delete

variable {holes : Prop} {s s' : AccountsSt} {filters : BurrowFilters}

theorem swept_nothing (h : StoreOk holes s) (plan : List Sweep) {failed : Prop}
    (hfailed : failed ∨ plan = []) : Swept holes s plan failed s [] := by
  refine ⟨h, rfl, [], List.nil_sublist _, rfl, fun hno => ?_⟩
  rcases hfailed with hfailed | hnil
  · exact absurd hfailed hno
  · exact hnil.symm

theorem Swept.mono {plan : List Sweep} {failed failed' : Prop} {callbacks : List Callback}
    (himp : failed → failed') (h : Swept holes s plan failed s' callbacks) :
    Swept holes s plan failed' s' callbacks := by
  obtain ⟨hok, hcallbacks, ran, hsub, hview, hall⟩ := h
  exact ⟨hok, hcallbacks, ran, hsub, hview, fun hno => hall fun hf => hno (himp hf)⟩

/-- One round of the loop of `delete_queues`. -/
theorem scanQueue_erase_spec (h : StoreOk holes s) (hf : EraseFilters filters)
    (eraseCmd : BackendCommand) (hfilters : eraseCmd.filters = some (.live filters))
    (hattr : eraseCmd.attributes = none) (inputs : ScanInputs) :
    ∃ s', scanQueue inputs eraseCmd .delete .ignore s = .ok (s', []) ∧
      Swept holes s
        [{ account := eraseCmd.account, queue := eraseCmd.queue, time := inputs.time }]
        (¬ inputs.AllocationsSucceed) s' [] := by
  obtain ⟨⟨s', callbacks⟩, hrun⟩ : ∃ r, scanQueue inputs eraseCmd .delete .ignore s = .ok r := by
    refine (scanQueue_reads h).ok fun _ => ?_
    rw [hattr, hfilters]
    exact ⟨argLive_none, fun _ => by simp⟩
  obtain ⟨hok, hstep⟩ := scanQueue_spec h hrun
  obtain ⟨hscan, hscanned⟩ := scan_erase hf hfilters (view s) inputs.time
  rw [Broker.ScanStep, hscan, hscanned, List.map_eq_nil_iff] at hstep
  refine ⟨s', ?_, hok, rfl, ?_⟩
  · rcases hstep with ⟨-, rfl⟩ | ⟨-, -, rfl⟩ <;> exact hrun
  · rcases hstep with ⟨hview, -⟩ | ⟨hfail, hview, -⟩
    · exact ⟨_, List.Sublist.refl _, hview, fun _ => rfl⟩
    · exact ⟨[], List.nil_sublist _, hview, fun hno => absurd hfail hno⟩

/-- The loop of `delete_queues` does its sweeps. -/
theorem deleteQueuesLoop_spec (h : StoreOk holes s) (hf : EraseFilters filters)
    (eraseCmd : BackendCommand) (hfilters : eraseCmd.filters = some (.live filters))
    (hattr : eraseCmd.attributes = none) (scan : Nat → ScanInputs) (names : List String) (i : Nat) :
    ∃ s', deleteQueuesLoop scan eraseCmd names i s = .ok (s', []) ∧
      Swept holes s (queueSweeps scan eraseCmd.account names i)
        (¬ ∀ j, (scan j).AllocationsSucceed) s' [] := by
  induction names generalizing s i with
  | nil => exact ⟨s, rfl, swept_nothing h _ (Or.inr rfl)⟩
  | cons name rest ih =>
      obtain ⟨s₁, hscan, hok₁, -, ran₁, hsub₁, hview₁, hall₁⟩ :=
        scanQueue_erase_spec h hf { eraseCmd with queue := name } hfilters hattr (scan i)
      obtain ⟨s₂, hloop, hok₂, -, ran₂, hsub₂, hview₂, hall₂⟩ := ih hok₁ (i + 1)
      refine ⟨s₂, ?_, hok₂, rfl, ran₁ ++ ran₂, hsub₁.append hsub₂, ?_, fun hno => ?_⟩
      · rw [deleteQueuesLoop, hscan]
        simp only [hloop]
        rfl
      · rw [hview₂, hview₁, Broker.sweeps_append]
      · rw [hall₁ fun hfail => hno fun hall => hfail (hall i), hall₂ hno]
        rfl

/-- The frame of the two deleting commands: `walk` over the window of the names. -/
theorem eraseCommand_spec {α : Type} {P : DictionaryNode α → Prop} {d : Dictionary α}
    (hd : d.WellFormed P) (h : StoreOk holes s) {inputs : EraseInputs} {cmd : BackendCommand}
    {walk : BackendCommand → List String → AccountsSt → Except Fault (AccountsSt × List Callback)}
    (plan : List String → List Sweep) (hplan : plan [] = []) {failed : Prop}
    (hwalk : ∀ filters eraseCmd, EraseFilters filters → eraseCmd.filters = some (.live filters) →
      ∀ names, (names = nameWindow cmd d.keys ∨ names = []) →
      ∃ s', walk eraseCmd names s = .ok (s', []) ∧ Swept holes s (plan names) failed s' [])
    {o : Outcome} (hrun : eraseCommand inputs cmd d walk s = .ok o) :
    Swept holes s (plan (nameWindow cmd d.keys)) (¬ inputs.AllocationsSucceed ∨ failed)
      o.accounts o.callbacks ∧ o.result = 0 := by
  unfold eraseCommand at hrun
  split at hrun
  · exact absurd hrun (by simp)
  · next hfilters =>
      cases hrun
      rcases processFilter_ok hfilters with ⟨hblock, -⟩ | ⟨_, -, hsome, -⟩
      · exact ⟨swept_nothing h _ (Or.inl (Or.inl fun hs => hs.1.1 hblock)), rfl⟩
      · exact absurd hsome (by simp)
  · next refFilters hfilters =>
      rcases processFilter_ok hfilters with ⟨-, hnone⟩ | ⟨_, -, hsome, hm, hl, -⟩
      · exact absurd hnone (by simp)
      · cases hsome
        rw [hm, hl] at hrun
        split at hrun
        · next iterator block filters hiter _ heraseFilters =>
            have hf := eraseFilters_of_processFilter heraseFilters
            rcases dictionaryIter_keys hd hiter with hkeys | ⟨hfail, hkeys⟩
            · rw [hkeys] at hrun
              obtain ⟨s', hloop, hswept⟩ := hwalk filters
                { block with filters := some (.live filters) } hf rfl _ (Or.inl rfl)
              rw [nameWindow] at hloop
              rw [hloop] at hrun
              cases hrun
              exact ⟨hswept.mono Or.inr, rfl⟩
            · -- an allocation failed, and the iterator is empty
              rw [hkeys] at hrun
              obtain ⟨s', hloop, hok, hcallbacks, ran, hsub, hview, -⟩ := hwalk filters
                { block with filters := some (.live filters) } hf rfl _ (Or.inr rfl)
              rw [hloop] at hrun
              cases hrun
              rw [hplan, List.sublist_nil] at hsub
              subst hsub
              exact ⟨⟨hok, rfl, [], List.nil_sublist _, hview,
                fun hno => absurd (Or.inl fun hs => hfail hs.1.2) hno⟩, rfl⟩
        · next hnone =>
            cases hrun
            refine ⟨swept_nothing h _ (Or.inl (Or.inl ?_)), rfl⟩
            rintro ⟨⟨-, hiter⟩, hcmd, herase⟩
            obtain ⟨block, hblock⟩ := Option.ne_none_iff_exists'.1 hcmd
            obtain ⟨filters, hprocess, -⟩ := processFilter_none herase
            cases hi : dictionaryIter inputs.iter (some d) cmd.marker cmd.limit with
            | none => exact dictionaryIter_eq_none hd hi hiter
            | some iterator => exact hnone iterator block filters hi hblock hprocess

/-- With a walk that never fails only the command's own filters are read. -/
theorem eraseCommand_reads {α : Type} {d : Dictionary α} {inputs : EraseInputs}
    {cmd : BackendCommand}
    {walk : BackendCommand → List String → AccountsSt → Except Fault (AccountsSt × List Callback)}
    (hwalk : ∀ iterator, dictionaryIter inputs.iter (some d) cmd.marker cmd.limit = some iterator →
      ∀ filters eraseCmd, EraseFilters filters → eraseCmd.filters = some (.live filters) →
      ∃ r, walk eraseCmd ((iterator.nodes.take iterator.length).map DictionaryNode.key) s = .ok r) :
    Reads (inputs.outFilters ≠ none → ArgLive cmd.filters) (eraseCommand inputs cmd d walk s) := by
  have hreads := processFilter_reads inputs.outFilters cmd.filters
  refine ⟨fun hlive => ?_, fun hno => ?_⟩
  · obtain ⟨out, hfilters⟩ := hreads.ok hlive
    rw [eraseCommand, hfilters]
    rcases processFilter_ok hfilters with ⟨-, rfl⟩ | ⟨refFilters, -, rfl, hm, hl, -⟩
    · exact ⟨_, rfl⟩
    · simp only [hm, hl]
      split
      · next iterator block filters hiter _ heraseFilters =>
          obtain ⟨r, hr⟩ := hwalk iterator hiter filters
            { block with filters := some (.live filters) }
            (eraseFilters_of_processFilter heraseFilters) rfl
          simp only [hr]
          exact ⟨_, rfl⟩
      · exact ⟨_, rfl⟩
  · rw [eraseCommand, hreads.error hno]

theorem deleteQueues_reads (h : StoreOk holes s) {inputs : DeleteQueuesInputs}
    {cmd : BackendCommand} :
    Reads (s.data? cmd.account ≠ none → inputs.outFilters ≠ none → ArgLive cmd.filters)
      (burrowBackendMemoryDeleteQueues inputs cmd s) := by
  unfold burrowBackendMemoryDeleteQueues
  rcases withQueues_cases h cmd _ with ⟨hnone, heq⟩ | ⟨queues, hsome, hwf, hnames, heq⟩
  · rw [heq]
    exact .of_ok rfl fun hne => absurd hnone hne
  · rw [heq]
    refine (eraseCommand_reads fun iterator _ filters eraseCmd hf hfilters => ?_).congr
      (by simp [hsome])
    obtain ⟨s', hloop, -⟩ := deleteQueuesLoop_spec h hf
      { eraseCmd with attributes := none, account := cmd.account } hfilters rfl inputs.scan
      ((iterator.nodes.take iterator.length).map DictionaryNode.key) 0
    exact ⟨_, hloop⟩

theorem deleteQueues_spec (h : StoreOk holes s) {inputs : DeleteQueuesInputs}
    {cmd : BackendCommand} {o : Outcome}
    (hrun : burrowBackendMemoryDeleteQueues inputs cmd s = .ok o) :
    Swept holes s
        (queueSweeps inputs.scan cmd.account (nameWindow cmd (queueNames s cmd.account)) 0)
        (¬ inputs.AllocationsSucceed) o.accounts o.callbacks ∧ o.result = 0 := by
  unfold burrowBackendMemoryDeleteQueues at hrun
  rcases withQueues_cases h cmd _ with ⟨hnone, heq⟩ | ⟨queues, -, hwf, hnames, heq⟩
  · rw [heq] at hrun
    cases hrun
    refine ⟨swept_nothing h _ (Or.inr ?_), rfl⟩
    rw [queueNames_eq_nil hnone, nameWindow, window_nil]
    rfl
  · rw [heq] at hrun
    obtain ⟨hswept, hresult⟩ := eraseCommand_spec hwf h
      (fun names => queueSweeps inputs.scan cmd.account names 0) rfl
      (fun filters eraseCmd hf hfilters names _ => deleteQueuesLoop_spec h hf
        { eraseCmd with attributes := none, account := cmd.account } hfilters rfl inputs.scan
        names 0) hrun
    rw [hnames]
    exact ⟨hswept.mono fun hor hs => hor.elim (fun hno => hno hs.1) fun hno => hno hs.2, hresult⟩

/-! ## Deleting accounts -/

/-- One round of the loop of `delete_accounts`: all queues of an account. -/
theorem deleteQueues_erase_spec (h : StoreOk holes s) (hf : EraseFilters filters)
    (eraseCmd : BackendCommand) (hfilters : eraseCmd.filters = some (.live filters))
    (inputs : DeleteQueuesInputs) :
    ∃ o, burrowBackendMemoryDeleteQueues inputs eraseCmd s = .ok o ∧
      Swept holes s
        (queueSweeps inputs.scan eraseCmd.account (queueNames s eraseCmd.account) 0)
        (¬ inputs.AllocationsSucceed) o.accounts o.callbacks := by
  obtain ⟨o, hrun⟩ : ∃ o, burrowBackendMemoryDeleteQueues inputs eraseCmd s = .ok o :=
    (deleteQueues_reads h).ok fun _ _ => by simp [hfilters]
  obtain ⟨hmarker, hlimit, -⟩ := erase_args hf hfilters
  obtain ⟨hswept, -⟩ := deleteQueues_spec h hrun
  rw [nameWindow, hmarker, hlimit, window_none_zero] at hswept
  exact ⟨o, hrun, hswept⟩

/-- The loop of `delete_accounts` does its sweeps. The queues of an account are
still those it had at the start when its turn comes, since the accounts before
it are others. -/
theorem deleteAccountsLoop_spec (h : StoreOk holes s) (hf : EraseFilters filters)
    (eraseCmd : BackendCommand) (hfilters : eraseCmd.filters = some (.live filters))
    (deleteQueues : Nat → DeleteQueuesInputs) (names : String → List String)
    (accounts : List String) (hnodup : accounts.Nodup)
    (hnames : ∀ a ∈ accounts, queueNames s a = names a) (i : Nat) :
    ∃ s', deleteAccountsLoop deleteQueues eraseCmd accounts i s = .ok (s', []) ∧
      Swept holes s (accountSweeps deleteQueues names accounts i)
        (¬ ∀ j, (deleteQueues j).AllocationsSucceed) s' [] := by
  induction accounts generalizing s i with
  | nil => exact ⟨s, rfl, swept_nothing h _ (Or.inr rfl)⟩
  | cons account rest ih =>
      obtain ⟨hnew, hrest⟩ := List.nodup_cons.1 hnodup
      obtain ⟨o, hrun, hok₁, hcallbacks₁, ran₁, hsub₁, hview₁, hall₁⟩ :=
        deleteQueues_erase_spec h hf { eraseCmd with account := account } hfilters (deleteQueues i)
      rw [hnames account List.mem_cons_self] at hsub₁ hall₁
      -- the sweeps of this account leave the queues of the others alone
      have hothers : ∀ a ∈ rest, queueNames o.accounts a = names a := by
        intro a ha
        have hne : a ≠ account := fun heq => hnew (heq ▸ ha)
        rw [← hnames a (List.mem_cons_of_mem _ ha)]
        show (view o.accounts).inner a = _
        rw [hview₁]
        refine Broker.inner_sweeps_of_ne (fun sweep hsweep => ?_) (view s)
        rw [account_of_mem_queueSweeps (hsub₁.subset hsweep)]
        exact hne.symm
      obtain ⟨s₂, hloop, hok₂, -, ran₂, hsub₂, hview₂, hall₂⟩ := ih hok₁ hrest hothers (i + 1)
      refine ⟨s₂, ?_, hok₂, rfl, ran₁ ++ ran₂, hsub₁.append hsub₂, ?_, fun hno => ?_⟩
      · rw [deleteAccountsLoop, hrun]
        simp only [hloop, hcallbacks₁]
        rfl
      · rw [hview₂, hview₁, Broker.sweeps_append]
      · rw [hall₁ fun hfail => hno fun hall => hfail (hall i), hall₂ hno]
        rfl

/-- The window of a list without repetitions has none. -/
theorem nodup_nameWindow (cmd : BackendCommand) {names : List String} (h : names.Nodup) :
    (nameWindow cmd names).Nodup :=
  h.sublist (window_sublist id cmd.marker cmd.limit names)

theorem deleteAccountsWalk_spec (h : StoreOk holes s) (hf : EraseFilters filters)
    (eraseCmd : BackendCommand) (hfilters : eraseCmd.filters = some (.live filters))
    (deleteQueues : Nat → DeleteQueuesInputs) {accounts : List String} (hnodup : accounts.Nodup) :
    ∃ s', deleteAccountsLoop deleteQueues eraseCmd accounts 0 s = .ok (s', []) ∧
      Swept holes s (accountSweeps deleteQueues (queueNames s) accounts 0)
        (¬ ∀ j, (deleteQueues j).AllocationsSucceed) s' [] :=
  deleteAccountsLoop_spec h hf eraseCmd hfilters deleteQueues (queueNames s) accounts hnodup
    (fun _ _ => rfl) 0

theorem deleteAccounts_spec (h : StoreOk holes s) {inputs : DeleteAccountsInputs}
    {cmd : BackendCommand} {o : Outcome}
    (hrun : burrowBackendMemoryDeleteAccounts inputs cmd s = .ok o) :
    Swept holes s (accountSweeps inputs.deleteQueues (queueNames s) (nameWindow cmd s.keys) 0)
        (¬ inputs.AllocationsSucceed) o.accounts o.callbacks ∧ o.result = 0 := by
  obtain ⟨hswept, hresult⟩ := eraseCommand_spec h h
    (fun accounts => accountSweeps inputs.deleteQueues (queueNames s) accounts 0) rfl
    (fun filters eraseCmd hf hfilters accounts haccounts => by
      refine deleteAccountsWalk_spec h hf eraseCmd hfilters inputs.deleteQueues ?_
      rcases haccounts with rfl | rfl
      · exact nodup_nameWindow cmd h.nodup
      · exact List.nodup_nil) hrun
  exact ⟨hswept.mono fun hor hs => hor.elim (fun hno => hno hs.1) fun hno => hno hs.2, hresult⟩

theorem deleteAccounts_reads (h : StoreOk holes s) {inputs : DeleteAccountsInputs}
    {cmd : BackendCommand} :
    Reads (inputs.outFilters ≠ none → ArgLive cmd.filters)
      (burrowBackendMemoryDeleteAccounts inputs cmd s) := by
  refine eraseCommand_reads fun iterator hiter filters eraseCmd hf hfilters => ?_
  have hnodup : ((iterator.nodes.take iterator.length).map DictionaryNode.key).Nodup := by
    rcases dictionaryIter_keys h hiter with hkeys | ⟨-, hkeys⟩
    · rw [hkeys]
      exact nodup_nameWindow cmd h.nodup
    · rw [hkeys]
      exact List.nodup_nil
  obtain ⟨s', hloop, -⟩ := deleteAccountsWalk_spec h hf eraseCmd hfilters inputs.deleteQueues hnodup
  exact ⟨_, hloop⟩

end Delete

end Burrow.Memory
