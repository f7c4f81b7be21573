import Burrow.Memory.Runs
import Mathlib.Algebra.Ring.Nat

/-!
# The commands on the messages of a queue

`get_messages`, `update_messages` and `delete_messages` look at a window of the
queue, report its messages that are not expired and that they may see, and act on
these. The limit of the filters is the length of the window, not the number of
messages reported: `bulk_limit` says when the two agree.
-/

set_option autoImplicit false

namespace Burrow.Memory

open KeyedList

/-- The command with an action. -/
def bulkName : ScanAction → CommandName
  | .get => .getMessages
  | .update => .updateMessages
  | .delete => .deleteMessages

/-- What `update_messages` makes of the times of a message. -/
def updateTimes (now : UInt32) (cmd : BackendCommand) (m : BurrowMessage) : BurrowMessage :=
  { m with
    ttl := (cmd.ttl?.map fun ttl => now + ttl).getD m.ttl
    hide := (cmd.hide?.map fun hide => now + hide).getD m.hide }

/-- What a command leaves of a message that it selects. -/
def bulkEffect (scanType : ScanAction) (now : UInt32) (cmd : BackendCommand) (m : BurrowMessage) :
    Option BurrowMessage :=
  match scanType with
  | .get => some m
  | .update => some (updateTimes now cmd m)
  | .delete => none

/-- The message as a command reports it. -/
def bulkReported (scanType : ScanAction) (now : UInt32) (cmd : BackendCommand)
    (m : BurrowMessage) : BurrowMessage :=
  match scanType with
  | .update => updateTimes now cmd m
  | .get | .delete => m

/-- A message in the window is found as the scan leaves it. -/
theorem lookup_scan_of_mem {b : Broker} {cmd : BackendCommand}
    (hnodup : ((b.rows cmd.account cmd.queue).map BurrowMessage.messageId).Nodup)
    (locals : ScanLocals) {m : BurrowMessage} (hm : m ∈ b.messageWindow cmd) :
    (b.scan cmd locals).lookup cmd.account cmd.queue m.messageId = scanEffect locals m := by
  have hkeys : ∀ x y, scanEffect locals x = some y → y.messageId = x.messageId :=
    fun _ _ => messageId_scanEffect
  have hfind := find?_hasKey_of_mem _ hnodup (mem_of_mem_window _ hm)
  have hmem : m.messageId ∈ (window BurrowMessage.messageId cmd.marker cmd.limit
      (b.rows cmd.account cmd.queue)).map BurrowMessage.messageId := List.mem_map_of_mem hm
  rw [Broker.lookup, Broker.scan, Directory.rows_modifyRows_self _ _ _ (mapWindow_nil _ _ _ _),
    find?_mapWindow BurrowMessage.messageId hkeys cmd.marker cmd.limit m.messageId hnodup,
    if_pos hmem, hfind, Option.bind_some]

/-- Durations that do not reach past the end of time. -/
structure TimesFit (now : UInt32) (cmd : BackendCommand) : Prop where
  now_pos : 0 < now
  ttl : ∀ ttl, cmd.ttl? = some ttl → now.toNat + ttl.toNat < 2 ^ 32
  hide : ∀ hide, cmd.hide? = some hide → now.toNat + hide.toNat < 2 ^ 32

/-- A deadline is not mistaken for an attribute that is not given. -/
theorem deadline_ne_zero {now duration : UInt32} (hpos : 0 < now)
    (hfit : now.toNat + duration.toNat < 2 ^ 32) : duration + now ≠ 0 := by
  intro hzero
  have h := congrArg UInt32.toNat hzero
  rw [UInt32.toNat_add, Nat.add_comm, Nat.mod_eq_of_lt hfit, UInt32.toNat_zero] at h
  have hpos' := UInt32.lt_iff_toNat_lt.1 hpos
  rw [UInt32.toNat_zero] at hpos'
  omega

theorem applyDeadlines_eq {now : UInt32} {cmd : BackendCommand} (hfit : TimesFit now cmd)
    (m : BurrowMessage) :
    applyDeadlines (deadline now cmd.ttl?) (deadline now cmd.hide?) m = updateTimes now cmd m := by
  unfold applyDeadlines updateTimes
  congr 1
  · cases httl : cmd.ttl? with
    | none => rfl
    | some ttl =>
        rw [deadline, if_pos (deadline_ne_zero hfit.now_pos (hfit.ttl ttl httl)), Option.map_some,
          Option.getD_some, UInt32.add_comm]
  · cases hhide : cmd.hide? with
    | none => rfl
    | some hide =>
        rw [deadline, if_pos (deadline_ne_zero hfit.now_pos (hfit.hide hide hhide)),
          Option.map_some, Option.getD_some, UInt32.add_comm]

/-- The reports of a bulk command, in the order of the queue. -/
theorem filterMap_scanReport {scanType : ScanAction} {now : UInt32} {cmd : BackendCommand}
    (hfit : TimesFit now cmd) (l : List BurrowMessage) :
    l.filterMap (scanReport (scanLocals cmd scanType .report now)) =
      (l.filter fun m => m.Selected now cmd.matchHidden).map fun m =>
        (bulkReported scanType now cmd m).report now := by
  induction l with
  | nil => rfl
  | cons m rest ih =>
      by_cases hs : m.Selected now cmd.matchHidden
      · have hreport : scanReport (scanLocals cmd scanType .report now) m =
            some ((bulkReported scanType now cmd m).report now) := by
          rw [scanReport]
          refine (if_pos hs).trans ?_
          cases scanType with
          | get => rfl
          | update =>
              show some (BurrowMessage.report now (applyDeadlines _ _ m)) = _
              rw [show applyDeadlines (scanLocals cmd .update .report now).attributesTtl
                (scanLocals cmd .update .report now).attributesHide m = updateTimes now cmd m from
                  applyDeadlines_eq hfit m]
              rfl
          | delete => rfl
        rw [List.filterMap_cons_some hreport, List.filter_cons_of_pos (by simpa using hs),
          List.map_cons, ih]
      · rw [List.filterMap_cons_none (scanReport_of_not_selected hs),
          List.filter_cons_of_neg (by simpa using hs), ih]

/-- What a bulk command leaves of a message in its window. -/
def bulkLeaves (scanType : ScanAction) (now : UInt32) (cmd : BackendCommand) (m : BurrowMessage) :
    Option BurrowMessage :=
  if m.Expired now then none
  else if m.Selected now cmd.matchHidden then bulkEffect scanType now cmd m
  else some m

theorem scanEffect_eq_bulkLeaves {scanType : ScanAction} {now : UInt32} {cmd : BackendCommand}
    (hfit : TimesFit now cmd) :
    scanEffect (scanLocals cmd scanType .report now) = bulkLeaves scanType now cmd := by
  funext m
  unfold bulkLeaves
  by_cases he : m.Expired now
  · rw [if_pos he, scanEffect_of_expired he]
  · rw [if_neg he]
    by_cases hs : m.Selected now cmd.matchHidden
    · rw [if_pos hs, scanEffect_of_selected hs]
      cases scanType with
      | get => rfl
      | update => exact congrArg some (applyDeadlines_eq hfit m)
      | delete => rfl
    · rw [if_neg hs, scanEffect_of_not_selected he hs]

theorem execute_bulkName (inputs : Inputs) (scanType : ScanAction) (cmd : BackendCommand)
    (s : AccountsSt) :
    execute inputs (bulkName scanType) cmd s = scanCommand scanType inputs.scan cmd s := by
  cases scanType <;> rfl

/-- A bulk command that can read its arguments is a scan of the broker. -/
theorem bulk_answer {holes : Prop} {s : AccountsSt} (h : StoreOk holes s) (scanType : ScanAction)
    {inputs : Inputs} (hmem : inputs.AllocationsSucceed) {cmd : BackendCommand}
    (hlive : cmd.IsLive) :
    ∃ o, execute inputs (bulkName scanType) cmd s = .ok o ∧
      StoreOk holes o.accounts ∧
      o.answer = (view s).scanMessages scanType inputs.scan.time cmd := by
  obtain ⟨o, hrun⟩ := (scanCommand_reads h scanType inputs.scan cmd).ok
    fun _ => ⟨hlive.2, fun _ => hlive.1⟩
  exact ⟨o, (execute_bulkName _ _ _ _).trans hrun, scanCommand_refines h hmem.scan hrun⟩

/-- **The bulk commands.** The window is a contiguous run of the queue. The
messages of it that are selected are reported, in order and once each, and acted
on; those that have expired are removed; every other message, queue and account
stays as it is, but for the containers that this leaves empty. -/
theorem bulk_scan {s : AccountsSt} (hs : ReachableWithMemory s) (scanType : ScanAction)
    {inputs : Inputs} (hmem : inputs.AllocationsSucceed) {cmd : BackendCommand}
    (hlive : cmd.IsLive) (hfit : TimesFit inputs.scan.time cmd)
    {pre inside post : List BurrowMessage}
    (hpre : pre = before BurrowMessage.messageId cmd.marker
      (queueMessages s cmd.account cmd.queue))
    (hinside : inside = window BurrowMessage.messageId cmd.marker cmd.limit
      (queueMessages s cmd.account cmd.queue))
    (hpost : post = after BurrowMessage.messageId cmd.marker cmd.limit
      (queueMessages s cmd.account cmd.queue)) :
    queueMessages s cmd.account cmd.queue = pre ++ inside ++ post ∧
      ∃ o, execute inputs (bulkName scanType) cmd s = .ok o ∧ o.result = 0 ∧
        o.callbacks.map Callback.report =
          (inside.filter fun m => m.Selected inputs.scan.time cmd.matchHidden).map
            (fun m => (bulkReported scanType inputs.scan.time cmd m).report inputs.scan.time) ∧
        queueMessages o.accounts cmd.account cmd.queue =
          pre ++ inside.filterMap (bulkLeaves scanType inputs.scan.time cmd) ++ post ∧
        (∀ account queue, account ≠ cmd.account ∨ queue ≠ cmd.queue →
          queueMessages o.accounts account queue = queueMessages s account queue) ∧
        (∀ account, account ≠ cmd.account →
          queueNames o.accounts account = queueNames s account) ∧
        queueNames o.accounts cmd.account =
          (if (queueMessages o.accounts cmd.account cmd.queue).isEmpty then
            (queueNames s cmd.account).erase cmd.queue
          else queueNames s cmd.account) ∧
        o.accounts.keys =
          (if (queueNames o.accounts cmd.account).isEmpty then s.keys.erase cmd.account
          else s.keys) := by
  -- the window splits the queue, and only its part of it changes
  subst hpre hinside hpost
  refine ⟨(before_window_after _ _ _ _).symm, ?_⟩
  obtain ⟨o, hrun, -, hanswer⟩ := bulk_answer hs.storeOk scanType hmem hlive
  have hview : view o.accounts =
      (view s).scan cmd (scanLocals cmd scanType .report inputs.scan.time) :=
    congrArg Answer.broker hanswer
  have hreports := congrArg Answer.reports hanswer
  have htidy := tidy_view hs.storeOk
  have hnil := mapWindow_nil BurrowMessage.messageId cmd.marker cmd.limit
    (scanEffect (scanLocals cmd scanType .report inputs.scan.time))
  have hrows : queueMessages o.accounts cmd.account cmd.queue = mapWindow BurrowMessage.messageId
      cmd.marker cmd.limit (scanEffect (scanLocals cmd scanType .report inputs.scan.time))
      (queueMessages s cmd.account cmd.queue) := by
    show (view o.accounts).rows cmd.account cmd.queue = _
    rw [hview]
    exact Directory.rows_modifyRows_self _ _ _ hnil
  refine ⟨o, hrun, congrArg Answer.result hanswer, ?_, ?_, ?_, ?_, ?_, ?_⟩
  · rw [← filterMap_scanReport hfit]
    exact hreports
  · rw [hrows, scanEffect_eq_bulkLeaves hfit]
    rfl
  · intro account queue hne
    show (view o.accounts).rows account queue = _
    rw [hview]
    exact Directory.rows_modifyRows_of_ne _ _ _ hne
  · intro account hne
    show (view o.accounts).inner account = _
    rw [hview]
    exact Directory.inner_modifyRows_of_ne _ _ _ hne
  · rw [hrows]
    show (view o.accounts).inner cmd.account = _
    rw [hview]
    exact htidy.modifyRows_inner hnil
  · show (view o.accounts).outer = if ((view o.accounts).inner cmd.account).isEmpty then _ else _
    rw [hview]
    exact htidy.modifyRows_outer

/-- Five messages: at 330 the first two have expired, the third is hidden until 400, and the
last two are visible. -/
def mixedStore : AccountsSt :=
  Dictionary.ofNodes
    [{ key := "a"
       data := some (Dictionary.ofNodes
         [{ key := "q"
            data := some (ofMessages
              [createdMessage 10 (plainCommand "a" "q" "m1" [1]),
                createdMessage 20 (plainCommand "a" "q" "m2" [2]),
                createdMessage 100 (hidingCommand "a" "q" "m3" 300),
                createdMessage 100 (plainCommand "a" "q" "m4" [4]),
                createdMessage 100 (plainCommand "a" "q" "m5" [5])]) }]) }]

theorem mixedStore_reachable : ReachableWithMemory mixedStore :=
  reachableWithMemory_of_creates (show Machine.run step
    ([((10 : UInt32), plainCommand "a" "q" "m1" [1]), (20, plainCommand "a" "q" "m2" [2]),
      (100, hidingCommand "a" "q" "m3" 300), (100, plainCommand "a" "q" "m4" [4]),
      (100, plainCommand "a" "q" "m5" [5])].map _) _ = _ from rfl)

/-- A claim of a minute for the three messages from the second one on. -/
def claimFromSecond : BackendCommand :=
  { claimCommand "a" "q" 3 60 with
    filters := some (.live
      { set := burrowFiltersLimit, matchHidden := false, limit := 3, marker := some "m2"
        detail := .none, wait := 0 }) }

theorem claimFromSecond_isLive : claimFromSecond.IsLive :=
  ⟨(argLive_some _).2 trivial, (argLive_some _).2 trivial⟩

/-- The expired message of the window goes, the hidden one stays, and the visible one is
claimed; those outside the window stay, expired or not. -/
theorem bulk_scan_claim :
    ∃ o, execute (ampleInputs 330) .updateMessages claimFromSecond mixedStore = .ok o ∧
      o.callbacks.map Callback.report = [.message "m4" [4] 1 70 60] ∧
      queueMessages o.accounts "a" "q" =
        [createdMessage 10 (plainCommand "a" "q" "m1" [1]),
          createdMessage 100 (hidingCommand "a" "q" "m3" 300),
          { messageId := "m4", body := [4], bodySize := 1, ttl := 400, hide := 390 },
          createdMessage 100 (plainCommand "a" "q" "m5" [5])] := by
  have hfit : TimesFit (ampleInputs 330).scan.time claimFromSecond :=
    { now_pos := by decide
      ttl := fun _ h => by cases h
      hide := fun _ h => by cases h; decide }
  obtain ⟨-, o, hrun, -, hreports, hrows, -⟩ := bulk_scan mixedStore_reachable .update
    (ampleInputs_allocationsSucceed 330) claimFromSecond_isLive hfit rfl rfl rfl
  exact ⟨o, hrun, hreports, hrows⟩

/-! ## The limit -/

/-- The id in a message callback. -/
def Callback.messageId? : Callback → Option String
  | .message messageId _ _ _ => some messageId
  | .queue _ | .account _ => none

theorem messageId?_of_report {c : Callback} {m : BurrowMessage} {now : UInt32}
    (h : c.report = m.report now) : c.messageId? = some m.messageId := by
  cases c with
  | message messageId body bodySize attributes =>
      simp only [Callback.report, BurrowMessage.report, Report.message.injEq] at h
      rw [Callback.messageId?, h.1]
  | queue name => exact absurd h (by simp [Callback.report, BurrowMessage.report])
  | account name => exact absurd h (by simp [Callback.report, BurrowMessage.report])

/-- The messages a bulk command reports, whatever it does to their times. -/
theorem map_messageId?_of_reports {scanType : ScanAction} {now : UInt32} {cmd : BackendCommand}
    {callbacks : List Callback} {l : List BurrowMessage}
    (h : callbacks.map Callback.report =
      l.filterMap (scanReport (scanLocals cmd scanType .report now))) :
    callbacks.map Callback.messageId? =
      (l.filter fun m => m.Selected now cmd.matchHidden).map fun m => some m.messageId := by
  induction l generalizing callbacks with
  | nil =>
      rw [List.filterMap_nil, List.map_eq_nil_iff] at h
      rw [h]
      rfl
  | cons m rest ih =>
      by_cases hs : m.Selected now cmd.matchHidden
      · obtain ⟨m', hid, hreport⟩ : ∃ m' : BurrowMessage, m'.messageId = m.messageId ∧
            scanReport (scanLocals cmd scanType .report now) m = some (m'.report now) := by
          rw [scanReport]
          cases scanType with
          | get => exact ⟨m, rfl, if_pos hs⟩
          | update => exact ⟨_, messageId_applyDeadlines _ _ m, if_pos hs⟩
          | delete => exact ⟨m, rfl, if_pos hs⟩
        rw [List.filterMap_cons_some hreport] at h
        obtain ⟨c, rest', rfl, hc, hrest⟩ := List.map_eq_cons_iff.1 h
        rw [List.map_cons, messageId?_of_report hc, hid, ih hrest,
          List.filter_cons_of_pos (by simpa using hs), List.map_cons]
      · rw [List.filterMap_cons_none (scanReport_of_not_selected hs)] at h
        rw [List.filter_cons_of_neg (by simpa using hs), ih h]

/-- The messages reported by a bulk command are selected ones of its window. -/
theorem exists_selected_of_reported {holes : Prop} {s : AccountsSt} (h : StoreOk holes s)
    {scanType : ScanAction} {inputs : ScanInputs} {cmd : BackendCommand} {o : Outcome}
    (hrun : scanCommand scanType inputs cmd s = .ok o) {messageId : String}
    (hreported : some messageId ∈ o.callbacks.map Callback.messageId?) :
    view o.accounts = (view s).scan cmd (scanLocals cmd scanType .report inputs.time) ∧
      ∃ m ∈ (view s).messageWindow cmd, m.messageId = messageId ∧
        m.Selected inputs.time cmd.matchHidden := by
  obtain ⟨-, -, ⟨hview, hreports⟩ | ⟨-, -, hreports⟩⟩ := scanCommand_spec h hrun
  · refine ⟨hview, ?_⟩
    rw [map_messageId?_of_reports hreports] at hreported
    obtain ⟨m, hm, hid⟩ := List.mem_map.1 hreported
    obtain ⟨hwindow, hselected⟩ := List.mem_filter.1 hm
    exact ⟨m, hwindow, Option.some.inj hid, by simpa using hselected⟩
  · rw [List.map_eq_nil_iff.1 hreports] at hreported
    exact absurd hreported List.not_mem_nil

/-- **The limit is the length of the window.** A bulk command that may not see
hidden messages reports the visible ones among the first `limit` from the
starting position: a prefix of all that are visible from there on, and fewer than
the limit allows exactly when the window holds an invisible message while a
visible one lies beyond it. -/
theorem bulk_limit {s : AccountsSt} (hs : Reachable s) (scanType : ScanAction) {inputs : Inputs}
    (hmem : inputs.AllocationsSucceed) {cmd : BackendCommand} (hlive : cmd.IsLive)
    (hmatch : cmd.matchHidden = false) (hlimit : 1 ≤ cmd.limit) {chain : List BurrowMessage}
    (hchain : chain = startAt BurrowMessage.messageId cmd.marker
      (queueMessages s cmd.account cmd.queue))
    {visible : BurrowMessage → Bool}
    (hvisible : ∀ m, visible m = true ↔
      ¬ m.Expired inputs.scan.time ∧ ¬ m.Hidden inputs.scan.time) :
    ∃ o, execute inputs (bulkName scanType) cmd s = .ok o ∧
      o.callbacks.map Callback.messageId? =
        ((chain.take cmd.limit).filter visible).map (fun m => some m.messageId) ∧
      (chain.take cmd.limit).filter visible <+: chain.filter visible ∧
      o.callbacks.length ≤ min cmd.limit (chain.filter visible).length ∧
      (o.callbacks.length = min cmd.limit (chain.filter visible).length ↔
        (∀ m ∈ chain.take cmd.limit, visible m = true) ∨
          ∀ m ∈ chain.drop cmd.limit, visible m = false) := by
  obtain ⟨o, hrun, -, hanswer⟩ := bulk_answer hs.storeOk scanType hmem hlive
  have hwindow : (view s).messageWindow cmd = chain.take cmd.limit := by
    rw [Broker.messageWindow, window, if_neg (by omega), hchain]
    rfl
  have hreports : o.callbacks.map Callback.report = (chain.take cmd.limit).filterMap
      (scanReport (scanLocals cmd scanType .report inputs.scan.time)) := by
    rw [← hwindow]
    exact congrArg Answer.reports hanswer
  have hselected : (fun m : BurrowMessage => decide (m.Selected inputs.scan.time cmd.matchHidden)) =
      visible := by
    funext m
    rw [Bool.eq_iff_iff, decide_eq_true_iff, hvisible, BurrowMessage.Selected, hmatch]
    simp
  have hids := map_messageId?_of_reports hreports
  rw [hselected] at hids
  have hlength : o.callbacks.length = ((chain.take cmd.limit).filter visible).length := by
    simpa using congrArg List.length hids
  refine ⟨o, hrun, hids, (List.take_prefix _ _).filter _, ?_, ?_⟩
  -- the limit counts the messages the scan walks, not those it reports
  · rw [hlength]
    exact length_filter_take_le visible cmd.limit chain
  · rw [hlength]
    exact length_filter_take_eq_iff visible cmd.limit chain

/-- Two messages, of which the first is hidden until 110. -/
def hiddenThenVisible : AccountsSt :=
  Dictionary.ofNodes
    [{ key := "a"
       data := some (Dictionary.ofNodes
         [{ key := "q"
            data := some (ofMessages
              [createdMessage 10 (hidingCommand "a" "q" "m1" 100),
                createdMessage 10 (plainCommand "a" "q" "m2" [])]) }]) }]

theorem hiddenThenVisible_reachable : ReachableWithMemory hiddenThenVisible :=
  reachableWithMemory_of_creates (show Machine.run step
    ([((10 : UInt32), hidingCommand "a" "q" "m1" 100), (10, plainCommand "a" "q" "m2" [])].map _)
    _ = _ from rfl)

/-- The limit does not bound the messages reported: behind a hidden message a
claim of one message gets nothing. -/
theorem limit_skips_visible :
    ¬ ∀ (s : AccountsSt) (inputs : Inputs) (cmd : BackendCommand) (o : Outcome),
      ReachableWithMemory s → inputs.AllocationsSucceed → cmd.IsLive →
      cmd.matchHidden = false → 1 ≤ cmd.limit →
      execute inputs .updateMessages cmd s = .ok o →
      o.callbacks.map Callback.messageId? =
        (((startAt BurrowMessage.messageId cmd.marker
          (queueMessages s cmd.account cmd.queue)).filter fun m =>
            ¬ m.Expired inputs.scan.time ∧ ¬ m.Hidden inputs.scan.time).take cmd.limit).map
              fun m => some m.messageId := by
  intro h
  have hreports := h hiddenThenVisible (ampleInputs 20) (claimCommand "a" "q" 1 60)
    ⟨hiddenThenVisible, [], 0⟩ hiddenThenVisible_reachable (ampleInputs_allocationsSucceed 20)
    (claimCommand_isLive "a" "q" 1 60) rfl (by decide) rfl
  exact absurd hreports (by decide)

/-- In the same store the window of a claim of two messages holds both. -/
theorem bulk_limit_two :
    ∃ o, execute (ampleInputs 20) .updateMessages (claimCommand "a" "q" 2 60) hiddenThenVisible =
        .ok o ∧ o.callbacks.map Callback.messageId? = [some "m2"] := by
  obtain ⟨o, hrun, hids, -⟩ := bulk_limit hiddenThenVisible_reachable.reachable .update
    (ampleInputs_allocationsSucceed 20) (claimCommand_isLive "a" "q" 2 60) rfl (by decide) rfl
    (fun _ => decide_eq_true_iff)
  exact ⟨o, hrun, hids⟩

end Burrow.Memory
