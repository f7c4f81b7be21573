import Burrow.Memory.Runs
import Mathlib.Algebra.Ring.Nat

/-!
# No message is lost or altered

A message that was created stays under its triple of account, queue and id,
unaltered, until it has expired or a command that may touch it is executed.
`leaves_execute` is the step: a command that spares the triple leaves its message
or removes it expired. The induction over a run carries that the message is there
as it was created, or gone with its time over.
-/

set_option autoImplicit false

namespace Burrow.Memory

open KeyedList

/-! ## Requests that spare a message -/

/-- The request neither creates, updates nor deletes the message under the
triple, alone or together with others. -/
def Request.Spares (r : Request) (account queue messageId : String) : Prop :=
  match r.name with
  | .getAccounts | .getQueues | .getMessages | .getMessage => True
  | .deleteAccounts => False
  | .deleteQueues => r.cmd.account ≠ account
  | .updateMessages | .deleteMessages => ¬ (r.cmd.account = account ∧ r.cmd.queue = queue)
  | .createMessage | .updateMessage | .deleteMessage =>
      ¬ (r.cmd.account = account ∧ r.cmd.queue = queue ∧ r.cmd.messageId = messageId)

/-! ## The commands of the broker on one message -/

/-- The message under the triple is left, or removed because it has expired. -/
def Broker.Leaves (b b' : Broker) (account queue messageId : String) (now : UInt32) : Prop :=
  b'.lookup account queue messageId = b.lookup account queue messageId ∨
    ∃ m, b.lookup account queue messageId = some m ∧ m.Expired now ∧
      b'.lookup account queue messageId = none

section Lookup

variable {b : Broker} {account queue messageId : String} {now : UInt32}

theorem leaves_of_rows_eq {b' : Broker} (h : b'.rows account queue = b.rows account queue) :
    b.Leaves b' account queue messageId now := by
  left
  rw [Broker.lookup, Broker.lookup, h]

/-- Changing another queue leaves the message. -/
theorem leaves_modifyRows_of_ne {account' queue' : String}
    {f : List BurrowMessage → List BurrowMessage}
    (h : ¬ (account' = account ∧ queue' = queue)) :
    b.Leaves (b.modifyRows account' queue' f) account queue messageId now := by
  refine leaves_of_rows_eq (Directory.rows_modifyRows_of_ne b account' queue' ?_)
  by_cases ha : account' = account
  · exact Or.inr fun hq => h ⟨ha, hq.symm⟩
  · exact Or.inl fun hacc => ha hacc.symm

/-- Changing the other messages of a queue leaves the message. -/
theorem leaves_modifyRows {f : List BurrowMessage → List BurrowMessage} (hnil : f [] = [])
    (h : (f (b.rows account queue)).find? (hasKey BurrowMessage.messageId messageId) =
      b.lookup account queue messageId) :
    b.Leaves (b.modifyRows account queue f) account queue messageId now := by
  left
  rw [Broker.lookup, Directory.rows_modifyRows_self _ _ _ hnil, h]

/-- Removing the message once it has expired. -/
theorem leaves_modifyRows_of_expired {f : List BurrowMessage → List BurrowMessage}
    (hnil : f [] = []) {m : BurrowMessage} (hm : b.lookup account queue messageId = some m)
    (he : m.Expired now)
    (h : (f (b.rows account queue)).find? (hasKey BurrowMessage.messageId messageId) = none) :
    b.Leaves (b.modifyRows account queue f) account queue messageId now := by
  refine Or.inr ⟨m, hm, he, ?_⟩
  rw [Broker.lookup, Directory.rows_modifyRows_self _ _ _ hnil, h]

/-- A scan that only reads leaves the message. -/
theorem leaves_scan_get (hnodup : ((b.rows account queue).map BurrowMessage.messageId).Nodup)
    (cmd : BackendCommand) :
    b.Leaves (b.scan cmd (scanLocals cmd .get .report now)) account queue messageId now := by
  by_cases hq : cmd.account = account ∧ cmd.queue = queue
  · obtain ⟨rfl, rfl⟩ := hq
    have hnil := mapWindow_nil BurrowMessage.messageId cmd.marker cmd.limit
      (scanEffect (scanLocals cmd .get .report now))
    have hkeys : ∀ m m', scanEffect (scanLocals cmd .get .report now) m = some m' →
        m'.messageId = m.messageId := fun _ _ => messageId_scanEffect
    have hwindow := find?_mapWindow BurrowMessage.messageId hkeys cmd.marker cmd.limit messageId
      hnodup
    split at hwindow
    · cases hfind : b.lookup cmd.account cmd.queue messageId with
      | none =>
          refine leaves_modifyRows hnil ?_
          rw [hwindow, hfind]
          rw [Broker.lookup] at hfind
          rw [hfind, Option.bind_none]
      | some m =>
          have hfind' := hfind
          rw [Broker.lookup] at hfind'
          rw [hfind', Option.bind_some] at hwindow
          by_cases he : m.Expired now
          · rw [scanEffect_of_expired he] at hwindow
            exact leaves_modifyRows_of_expired hnil hfind he hwindow
          · refine leaves_modifyRows hnil ?_
            rw [hwindow, hfind]
            by_cases hs : m.Selected now cmd.matchHidden
            · rw [scanEffect_of_selected hs]
              rfl
            · rw [scanEffect_of_not_selected he hs]
    · exact leaves_modifyRows hnil hwindow
  · exact leaves_modifyRows_of_ne hq

/-- A command that removes a message leaves the others. -/
theorem leaves_remove {cmd : BackendCommand}
    (h : ¬ (cmd.account = account ∧ cmd.queue = queue ∧ cmd.messageId = messageId)) :
    b.Leaves (b.remove cmd) account queue messageId now := by
  by_cases hq : cmd.account = account ∧ cmd.queue = queue
  · obtain ⟨rfl, rfl⟩ := hq
    refine leaves_modifyRows rfl (find?_eraseP_of_ne _ ?_ _)
    exact fun hid => h ⟨rfl, rfl, hid.symm⟩
  · exact leaves_modifyRows_of_ne hq

/-- Removing the message itself once it has expired. -/
theorem leaves_remove_of_expired
    (hnodup : ((b.rows account queue).map BurrowMessage.messageId).Nodup) {cmd : BackendCommand}
    {m : BurrowMessage} (hm : b.find cmd = some m) (he : m.Expired now) :
    b.Leaves (b.remove cmd) account queue messageId now := by
  by_cases h : cmd.account = account ∧ cmd.queue = queue ∧ cmd.messageId = messageId
  · obtain ⟨rfl, rfl, rfl⟩ := h
    exact leaves_modifyRows_of_expired rfl hm he (find?_eraseP_self _ hnodup _)
  · exact leaves_remove h

/-- Writing another message leaves the message. -/
theorem leaves_rewrite {account' queue' : String} {m : BurrowMessage}
    (h : ¬ (account' = account ∧ queue' = queue ∧ m.messageId = messageId)) :
    b.Leaves (b.rewrite account' queue' m) account queue messageId now := by
  by_cases hq : account' = account ∧ queue' = queue
  · obtain ⟨rfl, rfl⟩ := hq
    refine leaves_modifyRows rfl (find?_modify_of_ne _ (fun _ _ => rfl) ?_ _)
    exact fun hid => h ⟨rfl, rfl, hid.symm⟩
  · exact leaves_modifyRows_of_ne hq

/-- A message put under another id is found where it was before. -/
theorem find?_putMessage_of_ne {m : BurrowMessage} (h : m.messageId ≠ messageId)
    (l : List BurrowMessage) :
    (putMessage m l).find? (hasKey BurrowMessage.messageId messageId) =
      l.find? (hasKey BurrowMessage.messageId messageId) := by
  unfold putMessage
  split
  · exact find?_modify_of_ne _ (fun _ _ => rfl) h.symm l
  · have hno : ¬ hasKey BurrowMessage.messageId messageId m = true := by simpa using h
    rw [List.find?_append, List.find?_cons_of_neg hno, List.find?_nil, Option.or_none]

theorem find?_putMessage_self (m : BurrowMessage) (l : List BurrowMessage) :
    (putMessage m l).find? (hasKey BurrowMessage.messageId m.messageId) = some m := by
  unfold putMessage
  split
  · next hmem =>
      rw [find?_modify_self _ fun _ _ => rfl]
      cases hfind : l.find? (hasKey BurrowMessage.messageId m.messageId) with
      | none => exact absurd hmem ((find?_hasKey_eq_none_iff _ _ _).1 hfind)
      | some x => rfl
  · next hno =>
      rw [List.find?_append, (find?_hasKey_eq_none_iff _ _ _).2 hno, Option.none_or,
        List.find?_cons_of_pos (by simp)]

/-- Putting another message leaves the message. -/
theorem leaves_put {account' queue' : String} {m : BurrowMessage}
    (h : ¬ (account' = account ∧ queue' = queue ∧ m.messageId = messageId)) :
    b.Leaves (b.put account' queue' m) account queue messageId now := by
  by_cases hq : account' = account ∧ queue' = queue
  · obtain ⟨rfl, rfl⟩ := hq
    left
    rw [Broker.lookup, Broker.put, Directory.rows_putRows_self, find?_putMessage_of_ne]
    · rfl
    · exact fun hid => h ⟨rfl, rfl, hid⟩
  · refine leaves_of_rows_eq (Directory.rows_putRows_of_ne _ _ _ _ ?_)
    by_cases ha : account' = account
    · exact Or.inr fun hq' => hq ⟨ha, hq'.symm⟩
    · exact Or.inl fun hacc => ha hacc.symm

theorem Broker.Leaves.mono {b' : Broker} {hi : UInt32} (hle : now ≤ hi)
    (h : b.Leaves b' account queue messageId now) : b.Leaves b' account queue messageId hi := by
  rcases h with hsame | ⟨m, hm, he, hnone⟩
  · exact Or.inl hsame
  · exact Or.inr ⟨m, hm, UInt32.le_trans he hle, hnone⟩

end Lookup

/-- A command on one message leaves the others, and a message that is only read. -/
theorem leaves_oneMessage {b : Broker} {account queue messageId : String}
    (hnodup : ((b.rows account queue).map BurrowMessage.messageId).Nodup) {t hi : UInt32}
    {cmd : BackendCommand} {name : CommandName} {x : Answer} (hone : OneMessage b t cmd name x)
    (hread : t ≤ hi) (hspares : name ≠ .getMessage →
      ¬ (cmd.account = account ∧ cmd.queue = queue ∧ cmd.messageId = messageId)) :
    b.Leaves x.broker account queue messageId hi := by
  cases hone with
  | missing _ _ | got _ _ => exact leaves_of_rows_eq rfl
  | expired hfind hexpired => exact (leaves_remove_of_expired hnodup hfind hexpired).mono hread
  | updated hfind _ =>
      refine leaves_rewrite fun hsame => hspares (by decide) ⟨hsame.1, hsame.2.1, ?_⟩
      rw [← messageId_of_find hfind]
      exact hsame.2.2
  | deleted _ _ => exact leaves_remove (hspares (by decide))

/-- **One step.** A command that spares a triple leaves its message, or removes
it at a time when it has expired. -/
theorem leaves_execute {b : Broker} {account queue messageId : String}
    (hnodup : ((b.rows account queue).map BurrowMessage.messageId).Nodup) {r : Request}
    (hspares : r.Spares account queue messageId) {hi : UInt32}
    (hclock : ∀ t, r.ReadsClock t → t ≤ hi) :
    b.Leaves (b.execute r.inputs r.name r.cmd).broker account queue messageId hi := by
  obtain ⟨inputs, name, cmd⟩ := r
  cases name with
  | getAccounts => exact leaves_of_rows_eq rfl
  | getQueues => exact leaves_of_rows_eq rfl
  | deleteAccounts => exact hspares.elim
  | deleteQueues =>
      refine leaves_of_rows_eq (Broker.rows_sweeps_of_ne (fun sweep hsweep => Or.inl ?_) b)
      rw [account_of_mem_queueSweeps hsweep]
      exact fun heq => hspares heq.symm
  | getMessages => exact (leaves_scan_get hnodup cmd).mono (hclock _ rfl)
  | updateMessages => exact leaves_modifyRows_of_ne hspares
  | deleteMessages => exact leaves_modifyRows_of_ne hspares
  | createMessage => exact leaves_put hspares
  | getMessage =>
      have hread := hclock _ rfl
      refine leaves_oneMessage hnodup oneMessage_getMessage hread ?_
      exact fun hname => absurd rfl hname
  | updateMessage =>
      have hread := hclock _ rfl
      exact leaves_oneMessage hnodup oneMessage_updateMessage hread fun _ => hspares
  | deleteMessage =>
      have hread := hclock _ rfl
      exact leaves_oneMessage hnodup oneMessage_deleteMessage hread fun _ => hspares

/-! ## Runs -/

/-- The message `m` is stored under the triple, or its time is over. -/
def Kept (m : BurrowMessage) (account queue : String) (now : UInt32) (s : AccountsSt) : Prop :=
  (view s).lookup account queue m.messageId = some m ∨
    (view s).lookup account queue m.messageId = none ∧ m.Expired now

/-- A request that spares a message keeps it. -/
theorem step_kept {s s' : AccountsSt} (h : StoreOk True s) {r : Request}
    (hmem : r.inputs.AllocationsSucceed) {m : BurrowMessage} {account queue : String}
    (hspares : r.Spares account queue m.messageId) {now : UInt32}
    (hclock : ∀ t, r.ReadsClock t → t ≤ now) (hkept : Kept m account queue now s)
    (hstep : step r s = .ok s') : StoreOk True s' ∧ Kept m account queue now s' := by
  obtain ⟨o, hrun, rfl⟩ := step_ok hstep
  obtain ⟨hok, hanswer⟩ := execute_refines h hmem hrun
  refine ⟨hok, ?_⟩
  have hview : view o.accounts = ((view s).execute r.inputs r.name r.cmd).broker :=
    congrArg Answer.broker hanswer
  have hnodup := nodup_queueMessages h account queue
  have hleaves : (view s).Leaves (view o.accounts) account queue m.messageId now :=
    hview ▸ leaves_execute hnodup hspares hclock
  unfold Kept at hkept ⊢
  rcases hleaves with hsame | ⟨m', hm', he, hnone⟩
  · rw [hsame]
    exact hkept
  · rcases hkept with hm | ⟨hno, -⟩
    · rw [hm, Option.some.injEq] at hm'
      subst hm'
      exact Or.inr ⟨hnone, he⟩
    · rw [hno] at hm'
      exact absurd hm' (by simp)

/-- A run of requests that spare a message keeps it. -/
theorem run_kept {s s' : AccountsSt} (h : StoreOk True s) {ls : List Request}
    {m : BurrowMessage} {account queue : String} {now : UInt32}
    (hls : ∀ r ∈ ls, r.inputs.AllocationsSucceed ∧ r.Spares account queue m.messageId ∧
      ∀ t, r.ReadsClock t → t ≤ now)
    (hkept : Kept m account queue now s) (hrun : Machine.run step ls s = .ok s') :
    StoreOk True s' ∧ Kept m account queue now s' :=
  Machine.run_invariant step
    (fun _ _ _ hC hI hstep => step_kept hI.1 hC.1 hC.2.1 hC.2.2 hI.2 hstep)
    (Machine.along_of_forall step (fun r hr _ => hls r hr) s) ⟨h, hkept⟩ hrun

/-- A `get_message` that returns on a message that is kept reports it until its time is over. -/
theorem getMessage_of_kept {s : AccountsSt} (h : StoreOk True s) {m : BurrowMessage}
    {cmd : BackendCommand} (hid : cmd.messageId = m.messageId) {inputs : MessageInputs}
    (hkept : Kept m cmd.account cmd.queue inputs.time s) {o : Outcome}
    (hrun : burrowBackendMemoryGetMessage inputs cmd s = .ok o) :
    (¬ m.Expired inputs.time →
        o.callbacks = [messageCallback m (remainingTimes inputs.time m inputs.attributes)]) ∧
      (m.Expired inputs.time → o.callbacks = []) := by
  unfold burrowBackendMemoryGetMessage at hrun
  rw [Kept, ← hid] at hkept
  rcases findMessage_cases h cmd with ⟨hnone, hfind⟩ | ⟨queues, messages, m', hsome, p, hfind⟩
  · rw [hnone] at hrun
    cases hrun
    rcases hkept with hm | ⟨-, he⟩
    · rw [Broker.find, hm] at hfind
      exact absurd hfind (by simp)
    · exact ⟨fun hne => absurd he hne, fun _ => rfl⟩
  · rw [hsome] at hrun
    rcases hkept with hm | ⟨hno, -⟩
    · rw [Broker.find, hm, Option.some.injEq] at hfind
      subst hfind
      by_cases he : m.ttl ≤ inputs.time
      · simp only [if_pos he] at hrun
        exact absurd hrun (by simp)
      · simp only [if_neg he] at hrun
        cases hrun
        exact ⟨fun _ => rfl, fun hexp => absurd hexp he⟩
    · rw [Broker.find, hno] at hfind
      exact absurd hfind (by simp)

/-! ## Delivery -/

/-- The deadline of a duration that does not reach past the end of time. -/
theorem toNat_add_of_lt {t d : UInt32} (h : t.toNat + d.toNat < 2 ^ 32) :
    (t + d).toNat = t.toNat + d.toNat := by
  rw [UInt32.toNat_add, Nat.mod_eq_of_lt h]

/-- A new message reports the rest of its times. -/
theorem remainingTimes_createdMessage {cmd : BackendCommand} {t now : UInt32}
    (httl : t.toNat + (cmd.ttl?.getD 300).toNat < 2 ^ 32)
    (hhide : t.toNat + (cmd.hide?.getD 0).toNat < 2 ^ 32) (hle : t ≤ now)
    (halive : now.toNat < t.toNat + (cmd.ttl?.getD 300).toNat) (attributes : BurrowAttributes) :
    (burrowAttributesGetTtl (remainingTimes now (createdMessage t cmd) attributes)).toNat =
        t.toNat + (cmd.ttl?.getD 300).toNat - now.toNat ∧
      (burrowAttributesGetHide (remainingTimes now (createdMessage t cmd) attributes)).toNat =
        t.toNat + (cmd.hide?.getD 0).toNat - now.toNat := by
  have hle' : t.toNat ≤ now.toNat := UInt32.le_iff_toNat_le.1 hle
  constructor
  · show (t + cmd.ttl?.getD 300 - now).toNat = _
    rw [UInt32.toNat_sub_of_le, toNat_add_of_lt httl]
    rw [UInt32.le_iff_toNat_le, toNat_add_of_lt httl]
    exact Nat.le_of_lt halive
  · show (if (createdMessage t cmd).hide > now then (createdMessage t cmd).hide - now else 0).toNat
      = _
    -- `createMessage` writes the deadline for a hide that is not zero, and zero
    -- otherwise
    have hstored : (createdMessage t cmd).hide.toNat - now.toNat =
        t.toNat + (cmd.hide?.getD 0).toNat - now.toNat := by
      cases hcmd : cmd.hide? with
      | none =>
          simp only [createdMessage, hcmd, Option.getD_none, UInt32.toNat_zero]
          omega
      | some hide =>
          rw [hcmd, Option.getD_some] at hhide
          by_cases hzero : hide = 0
          · simp only [createdMessage, hcmd, hzero, ne_eq, not_true_eq_false, if_false,
              Option.getD_some, UInt32.toNat_zero]
            omega
          · simp only [createdMessage, hcmd, hzero, ne_eq, not_false_eq_true, if_true,
              Option.getD_some, toNat_add_of_lt hhide]
    rw [← hstored]
    split
    · next hgt => exact UInt32.toNat_sub_of_le _ _ (UInt32.le_of_lt hgt)
    · next hgt =>
        have hle := UInt32.le_iff_toNat_le.1 (UInt32.not_lt.1 hgt)
        rw [UInt32.toNat_zero]
        omega

/-- What `get_message` tells of a message that was created: the message with what is left of
its times, or nothing once its time is over. -/
structure Delivered (create get : Request) (o : Outcome) : Prop where
  alive : get.inputs.message.time.toNat <
      create.inputs.create.time.toNat + (create.cmd.ttl?.getD 300).toNat →
    ∃ attributes, o.callbacks =
        [.message create.cmd.messageId (create.cmd.body.take create.cmd.bodySize)
          create.cmd.bodySize attributes] ∧
      (burrowAttributesGetTtl attributes).toNat =
        create.inputs.create.time.toNat + (create.cmd.ttl?.getD 300).toNat -
          get.inputs.message.time.toNat ∧
      (burrowAttributesGetHide attributes).toNat =
        create.inputs.create.time.toNat + (create.cmd.hide?.getD 0).toNat -
          get.inputs.message.time.toNat
  expired : create.inputs.create.time.toNat + (create.cmd.ttl?.getD 300).toNat ≤
      get.inputs.message.time.toNat → o.callbacks = []

/-- A message is created, commands that spare its triple are executed, and it is asked for. -/
structure CreateThenGet (create : Request) (ls : List Request) (get : Request) : Prop where
  create_name : create.name = .createMessage
  create_memory : create.inputs.AllocationsSucceed
  ttl : create.inputs.create.time.toNat + (create.cmd.ttl?.getD 300).toNat < 2 ^ 32
  hide : create.inputs.create.time.toNat + (create.cmd.hide?.getD 0).toNat < 2 ^ 32
  between : ∀ r ∈ ls, r.inputs.AllocationsSucceed ∧
    r.Spares create.cmd.account create.cmd.queue create.cmd.messageId
  clock : Chronological create.inputs.create.time ls get.inputs.message.time
  get_name : get.name = .getMessage
  account : get.cmd.account = create.cmd.account
  queue : get.cmd.queue = create.cmd.queue
  messageId : get.cmd.messageId = create.cmd.messageId

theorem get_returns {s : AccountsSt} (h : StoreOk True s) {get : Request}
    (hname : get.name = .getMessage) (he : ¬ GetsExpired get s) :
    ∃ o, execute get.inputs get.name get.cmd s = .ok o := by
  obtain ⟨inputs, name, cmd⟩ := get
  dsimp only at hname
  subst hname
  obtain ⟨o, hrun, -⟩ := getMessage_spec h fun hfinds => he ⟨rfl, hfinds⟩
  exact ⟨o, hrun⟩

/-- None of the requests leaves a hole. -/
theorem CreateThenGet.argsLive {create get : Request} {ls : List Request}
    (h : CreateThenGet create ls get) (hlive : ∀ r ∈ create :: ls, r.cmd.IsLive) :
    ∀ r ∈ create :: ls ++ [get], ∀ s, ArgsLive r s ∧ ¬ LeavesHole r s := by
  intro r hr s
  rcases List.mem_append.1 hr with hr | hr
  · have hmem : r.inputs.AllocationsSucceed := by
      rcases List.mem_cons.1 hr with rfl | hls
      · exact h.create_memory
      · exact (h.between r hls).1
    exact ⟨argsLive_of_isLive (hlive r hr) s, not_leavesHole hmem s⟩
  · rw [List.mem_singleton.1 hr]
    refine ⟨?_, fun hhole => absurd (h.get_name.symm.trans hhole.1) (by decide)⟩
    rw [ArgsLive, h.get_name]
    trivial

/-- What a `get_message` that returns tells of the message. -/
theorem delivered_of_run {s s₁ s₂ : AccountsSt} (hs : StoreOk True s) {create get : Request}
    {ls : List Request} (h : CreateThenGet create ls get) (hstored : step create s = .ok s₁)
    (hrun : Machine.run step ls s₁ = .ok s₂) {o : Outcome}
    (hget : execute get.inputs get.name get.cmd s₂ = .ok o) :
    Delivered create get o := by
  obtain ⟨cinputs, cname, ccmd⟩ := create
  obtain ⟨ginputs, gname, gcmd⟩ := get
  obtain ⟨rfl, hmem, httl, hhide, hls, hclock, rfl, haccount, hqueue, hid⟩ := h
  dsimp only at *
  obtain ⟨oc, hrunc, rfl⟩ := step_ok hstored
  obtain ⟨hok, hview⟩ := createMessage_succeeds hs hmem.create hrunc
  -- the message is stored, and is kept up to the time it is read
  have hkept : Kept (createdMessage cinputs.create.time ccmd) ccmd.account ccmd.queue
      ginputs.message.time oc.accounts := by
    left
    rw [hview, Broker.lookup, Broker.put, Directory.rows_putRows_self]
    exact find?_putMessage_self _ _
  obtain ⟨hok₂, hkept₂⟩ := run_kept hok
    (fun r hr => ⟨(hls r hr).1, (hls r hr).2, fun t ht => hclock.reads_le hr ht⟩) hkept hrun
  rw [← haccount, ← hqueue] at hkept₂
  obtain ⟨halive, hexpired⟩ := getMessage_of_kept hok₂ hid hkept₂ hget
  -- the sum does not wrap, so the message expires at the sum
  have hdeadline : (createdMessage cinputs.create.time ccmd).ttl.toNat =
      cinputs.create.time.toNat + (ccmd.ttl?.getD 300).toNat := toNat_add_of_lt httl
  refine ⟨fun hlt => ?_, fun hle => hexpired ?_⟩
  · refine ⟨remainingTimes ginputs.message.time (createdMessage cinputs.create.time ccmd)
      ginputs.message.attributes, halive ?_, ?_⟩
    · rw [BurrowMessage.Expired, UInt32.le_iff_toNat_le, hdeadline]
      exact Nat.not_le.2 hlt
    · exact remainingTimes_createdMessage httl hhide hclock.le hlt _
  · rw [BurrowMessage.Expired, UInt32.le_iff_toNat_le, hdeadline]
    exact hle

/-- **When no message is lost or altered.** After `create_message`, and any requests that
spare its triple, `get_message` reports the message with what is left of its times, or
nothing once its time is over, exactly if it finds no expired message; and from a
well-formed store that is so, and everything before returns, exactly if no `get_message` of
the run finds one. -/
theorem create_then_get_iff {s : AccountsSt} (hs : Reachable s) {create get : Request}
    {ls : List Request} (h : CreateThenGet create ls get) :
    (∀ s₁ s₂, step create s = .ok s₁ → Machine.run step ls s₁ = .ok s₂ →
      ((∃ o, execute get.inputs get.name get.cmd s₂ = .ok o ∧ Delivered create get o) ↔
        ¬ GetsExpired get s₂)) ∧
    (StoreWellFormed s → (∀ r ∈ create :: ls, r.cmd.IsLive) →
      ((∃ s₁ s₂ o, step create s = .ok s₁ ∧ Machine.run step ls s₁ = .ok s₂ ∧
          execute get.inputs get.name get.cmd s₂ = .ok o ∧ Delivered create get o) ↔
        Machine.Along step (fun r s => ¬ GetsExpired r s) (create :: ls ++ [get]) s)) := by
  constructor
  · intro s₁ s₂ hstored hrun
    have hok₁ : StoreOk True s₁ := step_storeOk hs.storeOk (fun _ => trivial) hstored
    have hok₂ : StoreOk True s₂ := run_storeOk hok₁
      (Machine.along_of_forall step (fun r _ s (_ : LeavesHole r s) => trivial) _) hrun
    constructor
    · rintro ⟨o, hget, -⟩
      exact not_getsExpired hok₂ hget
    · intro hno
      obtain ⟨o, hget⟩ := get_returns hok₂ h.get_name hno
      exact ⟨o, hget, delivered_of_run hs.storeOk h hstored hrun hget⟩
  · intro hwf hlive
    have hok := (storeWellFormed_iff s).1 hwf
    have hargs := h.argsLive hlive
    rw [← run_returns_iff hok hargs]
    constructor
    · rintro ⟨s₁, s₂, o, hstored, hrun, hget, -⟩
      have hall : Machine.run step (create :: ls ++ [get]) s = .ok o.accounts := by
        rw [List.cons_append, Machine.run_cons_of_ok step hstored,
          Machine.run_append_of_ok step hrun,
          Machine.run_cons_of_ok step (show step get s₂ = .ok o.accounts by rw [step, hget])]
        rfl
      exact ⟨_, hall, run_storeOk hok
        (Machine.along_of_forall step (fun r hr s hhole => (hargs r hr s).2 hhole) _) hall⟩
    · rintro ⟨s₃, hall, -⟩
      obtain ⟨s₁, hstored, hrest⟩ := Machine.run_cons_ok step hall
      obtain ⟨s₂, hrun, hlast⟩ := Machine.run_append_ok step hrest
      obtain ⟨s₃', hstep, -⟩ := Machine.run_cons_ok step hlast
      obtain ⟨o, hget, -⟩ := step_ok hstep
      exact ⟨s₁, s₂, o, hstored, hrun, hget,
        delivered_of_run hs.storeOk h hstored hrun hget⟩

/-- A message with the default ttl is created, its queue is scanned, and it is read. -/
def scannedGet (now : UInt32) : Request :=
  { inputs := ampleInputs now, name := .getMessage, cmd := plainCommand "a" "q" "m" [] }

def queueScan : Request :=
  { inputs := ampleInputs 20, name := .getMessages, cmd := plainCommand "a" "q" "" [] }

theorem createThenGet_scanned :
    CreateThenGet (createRequest 10 (plainCommand "a" "q" "m" [1])) [queueScan]
      (scannedGet 30) where
  create_name := rfl
  create_memory := ampleInputs_allocationsSucceed 10
  ttl := by decide
  hide := by decide
  between := by
    intro r hr
    rw [List.mem_singleton] at hr
    subst hr
    exact ⟨ampleInputs_allocationsSucceed 20, trivial⟩
  clock := by
    refine ⟨20, by decide, fun t ht => ?_, show (20 : UInt32) ≤ 30 by decide⟩
    cases ht
    exact ⟨by decide, by decide⟩
  get_name := rfl
  account := rfl
  queue := rfl
  messageId := rfl

theorem create_then_get_after_scan :
    ∃ s₁ s₂ o, step (createRequest 10 (plainCommand "a" "q" "m" [1]))
        burrowBackendMemoryCreate = .ok s₁ ∧
      Machine.run step [queueScan] s₁ = .ok s₂ ∧
      execute (scannedGet 30).inputs .getMessage (scannedGet 30).cmd s₂ = .ok o ∧
      Delivered (createRequest 10 (plainCommand "a" "q" "m" [1])) (scannedGet 30) o := by
  refine ((create_then_get_iff ⟨[], rfl⟩ createThenGet_scanned).2
    ((storeWellFormed_iff _).2 (storeOk_create False)) fun r hr => ?_).2 (by decide)
  simp only [List.mem_cons, List.not_mem_nil, or_false] at hr
  rcases hr with rfl | rfl
  all_goals exact plainCommand_isLive _ _ _ _

/-- Asked for after its time the message is freed and then read; nothing is told. -/
theorem expired_message_read_freed :
    step (createRequest 10 (plainCommand "a" "q" "m" [1])) burrowBackendMemoryCreate =
        .ok (singleStore "a" "q" (createdMessage 10 (plainCommand "a" "q" "m" [1]))) ∧
      CreateThenGet (createRequest 10 (plainCommand "a" "q" "m" [1])) [] (scannedGet 400) ∧
      ¬ ∃ o, execute (scannedGet 400).inputs .getMessage (scannedGet 400).cmd
          (singleStore "a" "q" (createdMessage 10 (plainCommand "a" "q" "m" [1]))) = .ok o ∧
        Delivered (createRequest 10 (plainCommand "a" "q" "m" [1])) (scannedGet 400) o := by
  refine ⟨rfl, ?_, ?_⟩
  · exact
      { create_name := rfl
        create_memory := ampleInputs_allocationsSucceed 10
        ttl := by decide
        hide := by decide
        between := fun r hr => absurd hr List.not_mem_nil
        clock := show (10 : UInt32) ≤ 400 by decide
        get_name := rfl
        account := rfl
        queue := rfl
        messageId := rfl }
  · rintro ⟨o, hget, -⟩
    exact absurd (hget.symm.trans (show _ = .error .freedMessage from rfl)) (by simp)

end Burrow.Memory
