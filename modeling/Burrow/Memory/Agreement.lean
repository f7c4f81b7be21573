import Burrow.Memory.Purge
import Burrow.Memory.Runs

/-!
# One message, by its id or by a scan

A message can be read, updated and deleted by its id, and by a scan of its queue that
starts at it, takes one message and asks for hidden ones too. Both ways end in the same
write to the list of the queue (`SplitAt`), so that they leave the same store exactly if
they make the same of the message. For deleting they do, and for reading unless the message
has expired, which `get_message` does not survive (`get_and_delete_agree_iff`); an update by
id leaves a ttl of zero out, and a scan does not (`update_message_agrees`).
-/

set_option autoImplicit false

namespace Burrow.Memory

open KeyedList

/-! ## The two ways -/

/-- The filters pick out the message with the id, hidden or not. -/
structure PicksOut (filters : BurrowFilters) (messageId : String) : Prop where
  marker : filters.marker = some messageId
  limit_isset : burrowFiltersIssetLimit filters = true
  limit : filters.limit = 1
  matchHidden_isset : burrowFiltersIssetMatchHidden filters = true
  matchHidden : filters.matchHidden = true

/-- The command on the queue, with these filters. -/
def scanOf (cmd : BackendCommand) (filters : BurrowFilters) : BackendCommand :=
  { cmd with filters := some (.live filters) }

/-- Both return; they leave the same store, and their callbacks say the same. -/
def SameOutcome (x y : Except Fault Outcome) : Prop :=
  ∃ o o', x = .ok o ∧ y = .ok o' ∧ o.accounts = o'.accounts ∧
    o.callbacks.map Callback.report = o'.callbacks.map Callback.report

/-! ## Writing back what was there -/

theorem Dictionary.WellFormed.setData_self {α : Type} {P : DictionaryNode α → Prop}
    {d : Dictionary α} (h : d.WellFormed P) {key : String} {x : α} (hx : d.data? key = some x) :
    d.setData key (some x) = d := by
  obtain ⟨hmem, hP⟩ := h.data?_eq_some hx
  refine (h.setData hP).ext h (Dictionary.keys_setData d key (some x)) fun key' _ => ?_
  by_cases hkey : key' = key
  · rw [hkey, h.data?_setData_self hP hmem, hx]
  · rw [h.data?_setData_of_ne hP hkey]

/-- The list of a queue is split at the message of a command. -/
structure SplitAt (holes : Prop) (s : AccountsSt) (cmd : BackendCommand) (queues : QueuesSt)
    (pre : List BurrowMessage) (m : BurrowMessage) (post : List BurrowMessage) : Prop where
  path : PathOk holes s cmd.account cmd.queue queues (ofMessages (pre ++ m :: post))
  found : findMessage s cmd = some ⟨queues, ofMessages (pre ++ m :: post), m⟩
  id : m.messageId = cmd.messageId
  nodup : ((pre ++ m :: post).map BurrowMessage.messageId).Nodup

section Split

variable {holes : Prop} {s : AccountsSt} {cmd : BackendCommand} {queues : QueuesSt}
  {pre post : List BurrowMessage} {m : BurrowMessage}

theorem exists_splitAt (h : StoreOk holes s) (hfind : (view s).find cmd = some m) :
    ∃ queues pre post, SplitAt holes s cmd queues pre m post := by
  rcases findMessage_cases h cmd with ⟨-, hnone⟩ | ⟨queues, messages, m', hsome, p, hfind'⟩
  · rw [hnone] at hfind
    exact absurd hfind (by simp)
  · cases hfind.symm.trans hfind'
    have hrows : (view s).rows cmd.account cmd.queue = contents messages := p.rows_eq
    obtain ⟨hmem, hid⟩ := find?_hasKey_some BurrowMessage.messageId hfind
    rw [hrows] at hmem
    obtain ⟨pre, post, hsplit⟩ := List.append_of_mem hmem
    have hmessages := eq_ofMessages p.messages_ok
    have hnodup := nodup_contents p.messages_ok
    rw [hsplit] at hmessages hnodup
    subst hmessages
    exact ⟨queues, pre, post, p, hsome, hid, hnodup⟩

/-- What a command makes of the store if `l` is what it leaves of the message. -/
def leaving (s : AccountsSt) (cmd : BackendCommand) (queues : QueuesSt)
    (pre : List BurrowMessage) (l : Option BurrowMessage) (post : List BurrowMessage) :
    AccountsSt :=
  deleteIfEmpty s cmd.account cmd.queue queues (ofMessages (pre ++ l.toList ++ post))

theorem SplitAt.unlink_eq (hsplit : SplitAt holes s cmd queues pre m post) :
    FoundMessage.unlink ⟨queues, ofMessages (pre ++ m :: post), m⟩ cmd s =
      leaving s cmd queues pre none post := by
  rw [FoundMessage.unlink, leaving, Option.toList_none, List.append_nil, ← hsplit.id,
    deleteNode_split hsplit.nodup]

theorem SplitAt.write_eq (hsplit : SplitAt holes s cmd queues pre m post) {m' : BurrowMessage}
    (hid : m'.messageId = m.messageId) :
    FoundMessage.write ⟨queues, ofMessages (pre ++ m :: post), m⟩ cmd m' s =
      leaving s cmd queues pre (some m') post := by
  have hlist : pre ++ (some m').toList ++ post = pre ++ m' :: post := by simp
  have hnodup : ((pre ++ m' :: post).map BurrowMessage.messageId).Nodup := by
    have hkeys : (pre ++ m' :: post).map BurrowMessage.messageId =
        (pre ++ m :: post).map BurrowMessage.messageId := by simp [hid]
    rw [hkeys]
    exact hsplit.nodup
  have hne : (ofMessages (pre ++ m' :: post)).nodes ≠ [] := by
    rw [Ne, nodes_ofMessages_eq_nil_iff]
    simp
  rw [FoundMessage.write, leaving, hlist, ← hsplit.id, setData_split hsplit.nodup hid]
  exact hsplit.path.write_eq_deleteIfEmpty (wellFormed_ofMessages hnodup) hne

/-- To leave the message as it is changes nothing. -/
theorem SplitAt.leaving_self (h : StoreOk holes s)
    (hsplit : SplitAt holes s cmd queues pre m post) :
    leaving s cmd queues pre (some m) post = s := by
  have hmessages : (ofMessages (pre ++ m :: post)).setData cmd.messageId (some m) =
      ofMessages (pre ++ m :: post) := by
    rw [← hsplit.id]
    exact setData_split hsplit.nodup rfl
  rw [← hsplit.write_eq rfl, FoundMessage.write]
  dsimp only
  rw [hmessages, hsplit.path.queues_ok.setData_self hsplit.path.path.queue_data,
    Dictionary.WellFormed.setData_self h hsplit.path.path.account_data]

/-- The store shows what is left of the message. -/
theorem SplitAt.leaving_inj (h : StoreOk holes s) (hsplit : SplitAt holes s cmd queues pre m post)
    {l l' : Option BurrowMessage} (hl : ∀ x ∈ l, x.messageId = m.messageId)
    (hl' : ∀ x ∈ l', x.messageId = m.messageId)
    (heq : leaving s cmd queues pre l post = leaving s cmd queues pre l' post) : l = l' := by
  have hrows : ∀ l : Option BurrowMessage, (∀ x ∈ l, x.messageId = m.messageId) →
      (view (leaving s cmd queues pre l post)).rows cmd.account cmd.queue =
        pre ++ l.toList ++ post := by
    intro l hl
    -- what is left has the identity of the message, so the queue still has no identity
    -- twice
    have hnodup : ((pre ++ l.toList ++ post).map BurrowMessage.messageId).Nodup := by
      refine hsplit.nodup.sublist ?_
      cases l with
      | none => simp
      | some x => simp [hl x rfl]
    rw [leaving, hsplit.path.view_deleteIfEmpty h (wellFormed_ofMessages hnodup),
      Directory.rows_setRows_self, contents_ofMessages]
  have hlists := (hrows l hl).symm.trans ((congrArg (fun s => (view s).rows cmd.account cmd.queue)
    heq).trans (hrows l' hl'))
  rw [List.append_left_inj, List.append_right_inj] at hlists
  cases l with
  | none =>
      cases l' with
      | none => rfl
      | some x' => exact absurd hlists (by simp)
  | some x =>
      cases l' with
      | none => exact absurd hlists (by simp)
      | some x' => rw [List.singleton_inj.1 hlists]

end Split

/-! ## The message in a scan -/

section Scan

variable {holes : Prop} {s : AccountsSt} {cmd : BackendCommand} {filters : BurrowFilters}
  {queues : QueuesSt} {pre post : List BurrowMessage} {m : BurrowMessage}

theorem PicksOut.marker_eq (h : PicksOut filters cmd.messageId) :
    (scanOf cmd filters).marker = some cmd.messageId := h.marker

theorem PicksOut.limit_eq (h : PicksOut filters cmd.messageId) :
    (scanOf cmd filters).limit = 1 := by
  have hlimit : (scanOf cmd filters).limit =
      if burrowFiltersIssetLimit filters then filters.limit.toNat else 0 := rfl
  rw [hlimit, if_pos h.limit_isset, h.limit]
  rfl

theorem PicksOut.matchHidden_eq (h : PicksOut filters cmd.messageId) :
    (scanOf cmd filters).matchHidden = true := by
  have hmatch : (scanOf cmd filters).matchHidden =
      (burrowFiltersIssetMatchHidden filters && filters.matchHidden) := rfl
  rw [hmatch, h.matchHidden_isset, h.matchHidden]
  rfl

/-- A scan with the filters looks at the one message. -/
theorem SplitAt.scan (h : StoreOk holes s) (hsplit : SplitAt holes s cmd queues pre m post)
    {inputs : ScanInputs} (hmem : inputs.AllocationsSucceed) (hlive : ArgLive cmd.attributes)
    (hfilters : PicksOut filters cmd.messageId) (scanType : ScanAction) :
    ∃ o, scanCommand scanType inputs (scanOf cmd filters) s = .ok o ∧
      o.accounts = leaving s cmd queues pre
        (scanEffect (scanLocals (scanOf cmd filters) scanType .report inputs.time) m) post ∧
      o.callbacks.map Callback.report =
        (scanReport (scanLocals (scanOf cmd filters) scanType .report inputs.time) m).toList := by
  have p := hsplit.path
  have hscan := @scanQueue_eq holes s inputs (scanOf cmd filters) scanType .report h queues _
    p.path.account_data p.get_queue
  obtain ⟨deadlines, hattr⟩ := (scanAttributes_reads inputs.time (scanOf cmd filters).attributes).ok
    hlive
  obtain rfl := scanAttributes_ok hattr
  obtain ⟨out, hout⟩ := (processFilter_reads inputs.outFilters (scanOf cmd filters).filters).ok
    fun _ => (argLive_some _).2 trivial
  rcases processFilter_ok hout with ⟨hnone, -⟩ | ⟨ref, -, rfl, hm, hl, hh⟩
  · exact absurd hnone hmem.1
  · -- the marker and the limit leave a window of one message
    have hiter : dictionaryIter inputs.iter (some (ofMessages (pre ++ m :: post))) ref.marker
        ref.limit.toNat = some (ofMessages [m]) := by
      rw [hm, hl, hfilters.marker_eq, hfilters.limit_eq, ← hsplit.id]
      rcases dictionaryIter_cases p.messages_ok inputs.iter (some m.messageId) 1 with
        ⟨hfail, -⟩ | ⟨hfail, -⟩ | hwindow
      · exact absurd hmem.2 hfail
      · exact absurd hmem.2 hfail
      · rw [hwindow, window_ofMessages, window_split _ (not_mem_pre hsplit.nodup)]
        rfl
    have hnodup : ((pre ++ [m] ++ post).map BurrowMessage.messageId).Nodup := by
      have hlist : pre ++ [m] ++ post = pre ++ m :: post := by simp
      rw [hlist]
      exact hsplit.nodup
    obtain ⟨callbacks, hloop, hreports⟩ := scanLoop_ofMessages
      (scanLocals (scanOf cmd filters) scanType .report inputs.time) [m] pre post
      inputs.referenceAttributes hnodup
    have hleft : pre ++ [m].filterMap
          (scanEffect (scanLocals (scanOf cmd filters) scanType .report inputs.time)) ++ post =
        pre ++ (scanEffect (scanLocals (scanOf cmd filters) scanType .report inputs.time)
          m).toList ++ post := by
      cases heff : scanEffect (scanLocals (scanOf cmd filters) scanType .report inputs.time) m with
      | none => simp [heff]
      | some m' => simp [heff]
    rw [hleft, List.append_assoc pre [m] post] at hloop
    refine ⟨⟨_, callbacks, 0⟩, ?_, rfl, ?_⟩
    · rw [scanCommand, hscan, hattr, hout]
      simp only [hiter, hh]
      have htake : (ofMessages [m]).nodes.take (ofMessages [m]).length = [m].map messageNode := rfl
      rw [htake]
      simp only [scanLocals, List.singleton_append] at hloop
      simp only [hloop]
      rfl
    · rw [hreports]
      cases hrep : scanReport (scanLocals (scanOf cmd filters) scanType .report inputs.time) m with
      | none => simp [hrep]
      | some r => simp [hrep]

end Scan

/-! ## The message by its id -/

section ById

variable {holes : Prop} {s : AccountsSt} {cmd : BackendCommand} {queues : QueuesSt}
  {pre post : List BurrowMessage} {m : BurrowMessage}

theorem SplitAt.getMessage (h : StoreOk holes s) (hsplit : SplitAt holes s cmd queues pre m post)
    {inputs : MessageInputs} (he : ¬ m.Expired inputs.time) :
    ∃ o, burrowBackendMemoryGetMessage inputs cmd s = .ok o ∧
      o.accounts = leaving s cmd queues pre (some m) post ∧
      o.callbacks.map Callback.report = [m.report inputs.time] := by
  unfold burrowBackendMemoryGetMessage
  rw [hsplit.found]
  dsimp only
  rw [if_neg (show ¬ m.ttl ≤ inputs.time from he), hsplit.leaving_self h]
  exact ⟨_, rfl, rfl, rfl⟩

theorem SplitAt.deleteMessage (hsplit : SplitAt holes s cmd queues pre m post)
    (inputs : MessageInputs) :
    ∃ o, burrowBackendMemoryDeleteMessage inputs cmd s = .ok o ∧
      o.accounts = leaving s cmd queues pre none post ∧
      o.callbacks.map Callback.report =
        if m.Expired inputs.time then [] else [m.report inputs.time] := by
  unfold burrowBackendMemoryDeleteMessage
  rw [hsplit.found]
  dsimp only
  rw [hsplit.unlink_eq]
  refine ⟨_, rfl, rfl, ?_⟩
  by_cases he : m.Expired inputs.time
  · rw [if_pos he, if_neg (UInt32.not_lt.2 he)]
    rfl
  · rw [if_neg he, if_pos (UInt32.not_le.1 he)]
    rfl

theorem SplitAt.updateMessage (hsplit : SplitAt holes s cmd queues pre m post)
    (inputs : MessageInputs) (hlive : ArgLive cmd.attributes) :
    ∃ o, burrowBackendMemoryUpdateMessage inputs cmd s = .ok o ∧
      o.accounts = leaving s cmd queues pre
        (if m.Expired inputs.time then none else some (updatedMessage inputs.time cmd m)) post ∧
      o.callbacks.map Callback.report =
        if m.Expired inputs.time then []
        else [(updatedMessage inputs.time cmd m).report inputs.time] := by
  unfold burrowBackendMemoryUpdateMessage
  rw [hsplit.found]
  dsimp only
  by_cases he : m.Expired inputs.time
  · rw [if_pos he, if_pos he, if_pos (show m.ttl ≤ inputs.time from he), hsplit.unlink_eq]
    exact ⟨_, rfl, rfl, rfl⟩
  · obtain ⟨deadlines, hattr⟩ := (updateAttributes_reads inputs.time cmd.attributes).ok hlive
    obtain rfl := updateAttributes_ok hattr
    rw [if_neg he, if_neg he, if_neg (show ¬ m.ttl ≤ inputs.time from he), hattr]
    dsimp only
    rw [hsplit.write_eq (messageId_applyDeadlines _ _ m)]
    exact ⟨_, rfl, rfl, rfl⟩

end ById

/-! ## Both ways -/

/-- With hidden messages asked for, a message is selected unless it has expired. -/
theorem selected_iff {now : UInt32} {m : BurrowMessage} : m.Selected now true ↔ ¬ m.Expired now :=
  ⟨fun h => h.1, fun h => ⟨h, fun _ => rfl⟩⟩

section Agreement

variable {s : AccountsSt} {inputs : Inputs} {cmd : BackendCommand} {filters : BurrowFilters}
  {m : BurrowMessage}

/-- What a scan with the filters leaves of a message, and what it says. -/
theorem PicksOut.scanEffect_eq (h : PicksOut filters cmd.messageId) (scanType : ScanAction)
    (now : UInt32) (m : BurrowMessage) :
    scanEffect (scanLocals (scanOf cmd filters) scanType .report now) m =
        (if m.Expired now then none else
          match scanType with
          | .update => some (applyDeadlines (deadline now cmd.ttl?) (deadline now cmd.hide?) m)
          | .get => some m
          | .delete => none) ∧
      (scanReport (scanLocals (scanOf cmd filters) scanType .report now) m).toList =
        if m.Expired now then [] else
          match scanType with
          | .update =>
              [(applyDeadlines (deadline now cmd.ttl?) (deadline now cmd.hide?) m).report now]
          | _ => [m.report now] := by
  -- with `match_hidden` a hidden message is selected too
  have hselected : m.Selected now (scanOf cmd filters).matchHidden ↔ ¬ m.Expired now := by
    rw [h.matchHidden_eq]
    exact selected_iff
  by_cases he : m.Expired now
  · rw [if_pos he, if_pos he,
      scanEffect_of_expired (show m.Expired (ScanLocals.currentTime _) from he),
      scanReport_of_not_selected fun hs => hselected.1 hs he]
    exact ⟨rfl, rfl⟩
  · have hs : m.Selected now (scanOf cmd filters).matchHidden := hselected.2 he
    rw [if_neg he, if_neg he, scanEffect_of_selected hs, scanReport,
      if_pos (show m.Selected (ScanLocals.currentTime _) (ScanLocals.matchHidden _) from hs)]
    cases scanType <;> exact ⟨rfl, rfl⟩

/-- With the message at hand, the command finds an expired one if that one has expired. -/
theorem findsExpired_iff {b : Broker} {now : UInt32} (hfind : b.find cmd = some m) :
    b.FindsExpired now cmd ↔ m.Expired now := by
  rw [Broker.FindsExpired, hfind]
  simp

theorem get_agrees (hs : Reachable s) (hmem : inputs.scan.AllocationsSucceed)
    (hclock : inputs.message.time = inputs.scan.time) (hlive : ArgLive cmd.attributes)
    (hfilters : PicksOut filters cmd.messageId) (hfind : (view s).find cmd = some m)
    (he : ¬ m.Expired inputs.message.time) :
    SameOutcome (execute inputs .getMessage cmd s)
      (execute inputs .getMessages (scanOf cmd filters) s) := by
  obtain ⟨queues, pre, post, hsplit⟩ := exists_splitAt hs.storeOk hfind
  obtain ⟨got, hget, hstore, hreports⟩ := hsplit.getMessage hs.storeOk he
  obtain ⟨got', hget', hstore', hreports'⟩ := hsplit.scan hs.storeOk hmem hlive hfilters .get
  obtain ⟨heffect, hreport⟩ := hfilters.scanEffect_eq .get inputs.scan.time m
  rw [hclock] at hreports he
  rw [if_neg he] at heffect hreport
  refine ⟨got, got', hget, hget', ?_, ?_⟩
  · rw [hstore, hstore', heffect]
  · rw [hreports, hreports', hreport]

theorem delete_agrees (hs : Reachable s) (hmem : inputs.scan.AllocationsSucceed)
    (hclock : inputs.message.time = inputs.scan.time) (hlive : ArgLive cmd.attributes)
    (hfilters : PicksOut filters cmd.messageId) (hfind : (view s).find cmd = some m) :
    SameOutcome (execute inputs .deleteMessage cmd s)
        (execute inputs .deleteMessages (scanOf cmd filters) s) ∧
      (m.Expired inputs.message.time → ∀ o,
        execute inputs .deleteMessage cmd s = .ok o → o.callbacks = []) := by
  obtain ⟨queues, pre, post, hsplit⟩ := exists_splitAt hs.storeOk hfind
  obtain ⟨deleted, hdelete, hstore, hreports⟩ := hsplit.deleteMessage inputs.message
  obtain ⟨deleted', hdelete', hstore', hreports'⟩ :=
    hsplit.scan hs.storeOk hmem hlive hfilters .delete
  obtain ⟨heffect, hreport⟩ := hfilters.scanEffect_eq .delete inputs.scan.time m
  rw [hclock] at hreports ⊢
  refine ⟨⟨deleted, deleted', hdelete, hdelete', ?_, ?_⟩, ?_⟩
  · rw [hstore, hstore', heffect]
    split <;> rfl
  · rw [hreports, hreports', hreport]
  · intro he o ho
    rw [if_pos he, List.map_eq_nil_iff] at hreports
    cases hdelete.symm.trans ho
    exact hreports

/-- **When reading and deleting agree** with their forms on a queue: the same store is left,
and the same is said, which is nothing if the message has expired, exactly if the command is
not a `get_message` on an expired message. -/
theorem get_and_delete_agree_iff (hs : Reachable s) (hmem : inputs.scan.AllocationsSucceed)
    (hclock : inputs.message.time = inputs.scan.time) (hlive : ArgLive cmd.attributes)
    (hfilters : PicksOut filters cmd.messageId) (hfind : (view s).find cmd = some m)
    {name bulk : CommandName}
    (hname : (name, bulk) ∈
      [(CommandName.getMessage, CommandName.getMessages), (.deleteMessage, .deleteMessages)]) :
    (SameOutcome (execute inputs name cmd s) (execute inputs bulk (scanOf cmd filters) s) ∧
        (m.Expired inputs.message.time → ∀ o,
          execute inputs name cmd s = .ok o → o.callbacks = [])) ↔
      ¬ GetsExpired { inputs := inputs, name := name, cmd := cmd } s := by
  simp only [List.mem_cons, List.not_mem_nil, or_false, Prod.mk.injEq] at hname
  rcases hname with ⟨rfl, rfl⟩ | ⟨rfl, rfl⟩
  · constructor
    · rintro ⟨⟨o, -, hget, -⟩, -⟩
      exact not_getsExpired (r := { inputs := inputs, name := .getMessage, cmd := cmd })
        hs.storeOk hget
    · intro hno
      have he : ¬ m.Expired inputs.message.time := fun he =>
        hno ⟨rfl, (findsExpired_iff hfind).2 he⟩
      exact ⟨get_agrees hs hmem hclock hlive hfilters hfind he, fun hyes => absurd hyes he⟩
  · exact iff_of_true (delete_agrees hs hmem hclock hlive hfilters hfind)
      fun hno => CommandName.noConfusion hno.1

/-- Filters that pick out a message. -/
def picking (messageId : String) : BurrowFilters :=
  { set := burrowFiltersMatchHidden ||| burrowFiltersLimit, matchHidden := true, limit := 1
    marker := some messageId, detail := .none, wait := 0 }

theorem picking_picksOut (messageId : String) : PicksOut (picking messageId) messageId where
  marker := rfl
  limit_isset := by
    show ((burrowFiltersMatchHidden ||| burrowFiltersLimit) &&& burrowFiltersLimit != 0) = true
    decide
  limit := rfl
  matchHidden_isset := by
    show ((burrowFiltersMatchHidden ||| burrowFiltersLimit) &&& burrowFiltersMatchHidden != 0) =
      true
    decide
  matchHidden := rfl

/-- A store with a message that expires at 310. -/
theorem singleStore_reachable :
    Reachable (singleStore "a" "q" (createdMessage 10 (plainCommand "a" "q" "m" [1]))) :=
  (reachableWithMemory_of_create 10 (plainCommand "a" "q" "m" [1]) rfl).reachable

/-- The only message of the only queue is read, before it expires. -/
theorem get_and_delete_agree_single :
    SameOutcome
      (execute (ampleInputs 20) .getMessage (plainCommand "a" "q" "m" [])
        (singleStore "a" "q" (createdMessage 10 (plainCommand "a" "q" "m" [1]))))
      (execute (ampleInputs 20) .getMessages (scanOf (plainCommand "a" "q" "m" []) (picking "m"))
        (singleStore "a" "q" (createdMessage 10 (plainCommand "a" "q" "m" [1])))) :=
  ((@get_and_delete_agree_iff _ (ampleInputs 20) (plainCommand "a" "q" "m" []) _
    (createdMessage 10 (plainCommand "a" "q" "m" [1])) singleStore_reachable
    (ampleInputs_allocationsSucceed 20).scan rfl argLive_none (picking_picksOut "m") rfl
    .getMessage .getMessages List.mem_cons_self).2 (by decide)).1

/-- After it has expired the scan drops the message, and `get_message` reads it after it was
freed. -/
theorem get_disagrees_on_expired :
    Reachable (singleStore "a" "q" (createdMessage 10 (plainCommand "a" "q" "m" [1]))) ∧
      ¬ SameOutcome
        (execute (ampleInputs 400) .getMessage (plainCommand "a" "q" "m" [])
          (singleStore "a" "q" (createdMessage 10 (plainCommand "a" "q" "m" [1]))))
        (execute (ampleInputs 400) .getMessages
          (scanOf (plainCommand "a" "q" "m" []) (picking "m"))
          (singleStore "a" "q" (createdMessage 10 (plainCommand "a" "q" "m" [1])))) := by
  refine ⟨singleStore_reachable, ?_⟩
  rintro ⟨o, o', ho, -⟩
  exact absurd (ho.symm.trans (show _ = .error .freedMessage from rfl)) (by simp)

/-- The two updates make the same of a message that has not expired exactly if they are
not given a ttl of zero. -/
theorem updatedMessage_eq_iff {now : UInt32} (hnow : 0 < now) (he : ¬ m.Expired now) :
    updatedMessage now cmd m =
        applyDeadlines (deadline now cmd.ttl?) (deadline now cmd.hide?) m ↔ cmd.ttl? ≠ some 0 := by
  rw [updatedMessage]
  cases httl : cmd.ttl? with
  | none => exact iff_of_true rfl (by simp)
  | some ttl =>
      by_cases hzero : ttl = 0
      · subst hzero
        refine iff_of_false (fun heq => ?_) (by simp)
        have hnone : Option.filter (fun ttl : UInt32 => decide (0 < ttl)) (some 0) = none := rfl
        have hkept := congrArg BurrowMessage.ttl heq
        rw [hnone, deadline, deadline, applyDeadlines, applyDeadlines, UInt32.zero_add] at hkept
        dsimp only at hkept
        rw [if_neg (not_not.2 rfl), if_pos (UInt32.ne_of_lt hnow).symm] at hkept
        exact he (UInt32.le_of_eq hkept)
      · have hpos : 0 < ttl := UInt32.pos_iff_ne_zero.2 hzero
        rw [Option.filter_some, decide_eq_true hpos, if_pos rfl]
        exact iff_of_true rfl (by simpa using hzero)

/-- **Updating agrees** with its form on a queue exactly if the message has expired or no
ttl of zero is set. -/
theorem update_message_agrees (hs : Reachable s) (hmem : inputs.scan.AllocationsSucceed)
    (hclock : inputs.message.time = inputs.scan.time) (hnow : 0 < inputs.scan.time)
    (hlive : ArgLive cmd.attributes) (hfilters : PicksOut filters cmd.messageId)
    (hfind : (view s).find cmd = some m) :
    SameOutcome (execute inputs .updateMessage cmd s)
        (execute inputs .updateMessages (scanOf cmd filters) s) ↔
      m.Expired inputs.scan.time ∨ cmd.ttl? ≠ some 0 := by
  obtain ⟨queues, pre, post, hsplit⟩ := exists_splitAt hs.storeOk hfind
  obtain ⟨o, hupdate, hstore, hreports⟩ := hsplit.updateMessage inputs.message hlive
  obtain ⟨o', hupdate', hstore', hreports'⟩ :=
    hsplit.scan hs.storeOk hmem hlive hfilters .update
  obtain ⟨heffect, hreport⟩ := hfilters.scanEffect_eq .update inputs.scan.time m
  rw [heffect] at hstore'
  rw [hreport] at hreports'
  rw [hclock] at hstore hreports
  by_cases he : m.Expired inputs.scan.time
  · rw [if_pos he] at hstore hreports hstore' hreports'
    refine iff_of_true ⟨o, o', hupdate, hupdate', ?_, ?_⟩ (Or.inl he)
    · rw [hstore, hstore']
    · rw [hreports, hreports']
  · rw [if_neg he] at hstore hreports hstore' hreports'
    have heq := @updatedMessage_eq_iff cmd _ _ hnow he
    constructor
    · rintro ⟨p, p', hp, hp', hsame, -⟩
      cases hupdate.symm.trans hp
      cases hupdate'.symm.trans hp'
      -- equal stores hold equal messages, and these differ by a ttl of zero
      rw [hstore, hstore'] at hsame
      have hleft := hsplit.leaving_inj hs.storeOk
        (fun x hx => by cases hx; exact messageId_applyDeadlines _ _ m)
        (fun x hx => by cases hx; exact messageId_applyDeadlines _ _ m) hsame
      exact Or.inr (heq.1 (Option.some.inj hleft))
    · rintro (hexpired | hzero)
      · exact absurd hexpired he
      · refine ⟨o, o', hupdate, hupdate', ?_, ?_⟩
        · rw [hstore, hstore', heq.2 hzero]
        · rw [hreports, hreports', heq.2 hzero]

/-- An update that sets these attributes. -/
def updating (ttl hide : UInt32) (set : UInt32) : BackendCommand :=
  { plainCommand "a" "q" "m" [] with
    attributes := some (.live { set := set, ttl := ttl, hide := hide }) }

/-- The message is hidden for a minute. -/
theorem update_message_agrees_hide :
    SameOutcome
      (execute (ampleInputs 20) .updateMessage (updating 0 60 burrowAttributesHide)
        (singleStore "a" "q" (createdMessage 10 (plainCommand "a" "q" "m" [1]))))
      (execute (ampleInputs 20) .updateMessages
        (scanOf (updating 0 60 burrowAttributesHide) (picking "m"))
        (singleStore "a" "q" (createdMessage 10 (plainCommand "a" "q" "m" [1])))) :=
  (@update_message_agrees _ (ampleInputs 20) _ _
    (createdMessage 10 (plainCommand "a" "q" "m" [1])) singleStore_reachable
    (ampleInputs_allocationsSucceed 20).scan rfl (by decide)
    (show ArgLive (some (Object.live _)) from (argLive_some _).2 trivial)
    (picking_picksOut "m") rfl).2 (Or.inr (by decide))

/-- With a ttl of zero the update by id leaves the ttl as it is, and the scan makes the
message expire. -/
theorem updates_disagree_on_zero :
    Reachable (singleStore "a" "q" (createdMessage 10 (plainCommand "a" "q" "m" [1]))) ∧
      ¬ SameOutcome
        (execute (ampleInputs 20) .updateMessage (updating 0 0 burrowAttributesTtl)
          (singleStore "a" "q" (createdMessage 10 (plainCommand "a" "q" "m" [1]))))
        (execute (ampleInputs 20) .updateMessages
          (scanOf (updating 0 0 burrowAttributesTtl) (picking "m"))
          (singleStore "a" "q" (createdMessage 10 (plainCommand "a" "q" "m" [1])))) := by
  refine ⟨singleStore_reachable, ?_⟩
  rintro ⟨o, o', ho, ho', hstore, -⟩
  have hdiffer : (execute (ampleInputs 20) .updateMessage (updating 0 0 burrowAttributesTtl)
        (singleStore "a" "q"
          (createdMessage 10 (plainCommand "a" "q" "m" [1])))).toOption.map Outcome.accounts ≠
      (execute (ampleInputs 20) .updateMessages
        (scanOf (updating 0 0 burrowAttributesTtl) (picking "m"))
        (singleStore "a" "q"
          (createdMessage 10 (plainCommand "a" "q" "m" [1])))).toOption.map Outcome.accounts := by
    decide
  rw [ho, ho'] at hdiffer
  exact hdiffer (congrArg some hstore)

end Agreement

end Burrow.Memory
