import Burrow.Memory.Broker

/-!
# `_scan_queue` does what a scan is for

The loop of `_scan_queue` walks a copy of the window while it unlinks from the
live list. `scanMessage_ofMessages` says what one round does to a live list
split at the message of the round: nothing but that message changes, so the part
already walked and the part still to come stay as they are. The induction over
the window (`scanLoop_ofMessages`) carries this split.

`scanQueue_spec` is the result, for every outcome of the allocations: the store
stays as it was, or the broker is the one after the scan and the user got its
reports.
-/

set_option autoImplicit false

namespace Burrow.Memory

open KeyedList

/-! ## Reading filters and attributes -/

/-- `_process_filter` reads the window out of a command's filters. -/
theorem processFilter_ok {block : Option BurrowFilters} {cmd : BackendCommand}
    {r : Option BurrowFilters} (h : processFilter block cmd.filters = .ok r) :
    block = none ∧ r = none ∨
      ∃ filters, block ≠ none ∧ r = some filters ∧ filters.marker = cmd.marker ∧
        filters.limit.toNat = cmd.limit ∧ filters.matchHidden = cmd.matchHidden := by
  cases block with
  | none =>
      cases h
      exact Or.inl ⟨rfl, rfl⟩
  | some block =>
      unfold BackendCommand.marker BackendCommand.limit BackendCommand.matchHidden
        BackendCommand.filters?
      unfold processFilter at h
      cases hf : cmd.filters with
      | none =>
          rw [hf] at h
          cases h
          exact Or.inr ⟨_, by simp, rfl, rfl, rfl, rfl⟩
      | some object =>
          rw [hf] at h
          cases object with
          | destroyed => exact absurd h (by simp)
          | live filters =>
              cases h
              refine Or.inr ⟨_, by simp, rfl, ?_, ?_, ?_⟩
              · show (if filters.marker.isSome then filters.marker else none) = filters.marker
                cases filters.marker <;> rfl
              · show (if burrowFiltersIssetLimit filters then filters.limit else 0).toNat = _
                simp only [Option.bind_some, Object.value?]
                split <;> rfl
              · show (if burrowFiltersIssetMatchHidden filters then filters.matchHidden
                  else false) = _
                simp only [Option.bind_some, Object.value?]
                cases burrowFiltersIssetMatchHidden filters <;> rfl

/-- The deadlines of a scan come from the command's attributes. -/
theorem scanAttributes_ok {now : UInt32} {cmd : BackendCommand} {r : UInt32 × UInt32}
    (h : scanAttributes now cmd.attributes = .ok r) :
    r = (deadline now cmd.ttl?, deadline now cmd.hide?) := by
  unfold BackendCommand.ttl? BackendCommand.hide? BackendCommand.attributes?
  unfold scanAttributes at h
  cases ha : cmd.attributes with
  | none =>
      rw [ha] at h
      cases h
      rfl
  | some object =>
      rw [ha] at h
      cases object with
      | destroyed => exact absurd h (by simp)
      | live attributes =>
          cases h
          simp only [Option.bind_some, Object.value?]
          cases burrowAttributesIssetTtl attributes <;>
            cases burrowAttributesIssetHide attributes <;> rfl

/-! ## The loop -/

section Split

variable {pre post : List BurrowMessage} {m : BurrowMessage}
  (h : ((pre ++ m :: post).map BurrowMessage.messageId).Nodup)
include h

theorem not_mem_pre : m.messageId ∉ pre.map BurrowMessage.messageId := by
  rw [List.map_append, List.nodup_append] at h
  exact fun hmem => h.2.2 _ hmem _ (List.mem_map_of_mem List.mem_cons_self) rfl

theorem deleteNode_split :
    dictionaryDeleteNode (ofMessages (pre ++ m :: post)) m.messageId =
      ofMessages (pre ++ post) := by
  rw [deleteNode_ofMessages h, eraseP_split _ rfl (not_mem_pre h)]

theorem setData_split {m' : BurrowMessage} (hm : m'.messageId = m.messageId) :
    (ofMessages (pre ++ m :: post)).setData m.messageId (some m') =
      ofMessages (pre ++ m' :: post) := by
  rw [← hm, setData_ofMessages, modify_split _ _ hm.symm]
  rw [hm]
  exact not_mem_pre h

/-- One round of the loop on the message at which the live list is split. -/
theorem scanMessage_ofMessages (locals : ScanLocals) (reference : BurrowAttributes) :
    (scanMessage locals m.messageId m reference (ofMessages (pre ++ m :: post))).1 =
        ofMessages (pre ++ (scanEffect locals m).toList ++ post) ∧
      (scanMessage locals m.messageId m reference (ofMessages (pre ++ m :: post))).2.2.map
        Callback.report = (scanReport locals m).toList := by
  by_cases he : m.Expired locals.currentTime
  · have hle : m.ttl ≤ locals.currentTime := he
    have hs : ¬ m.Selected locals.currentTime locals.matchHidden := fun hs => hs.1 he
    rw [scanEffect_of_expired he, scanReport_of_not_selected hs, scanMessage, if_pos hle,
      deleteNode_split h]
    exact ⟨by simp, rfl⟩
  · have hle : ¬ m.ttl ≤ locals.currentTime := he
    by_cases hs : m.Selected locals.currentTime locals.matchHidden
    · have hskip : ¬ (locals.matchHidden = false ∧ m.hide > locals.currentTime) := by
        rintro ⟨hmatch, hhidden⟩
        rw [hs.2 hhidden] at hmatch
        exact absurd hmatch (by simp)
      rw [scanEffect, if_neg he, if_pos hs, scanReport, if_pos hs, scanMessage, if_neg hle,
        if_neg hskip]
      cases locals.scanType with
      | update =>
          refine ⟨?_, rfl⟩
          show (ofMessages (pre ++ m :: post)).setData m.messageId (some (applyDeadlines _ _ m)) = _
          rw [setData_split h (messageId_applyDeadlines _ _ m)]
          simp
      | get => exact ⟨by simp, rfl⟩
      | delete =>
          cases locals.deleteAction with
          | report =>
              refine ⟨?_, rfl⟩
              show dictionaryDeleteNode (ofMessages (pre ++ m :: post)) m.messageId = _
              -- reported first, then unlinked; the list ends up the same either way
              rw [deleteNode_split h]
              simp
          | ignore =>
              refine ⟨?_, rfl⟩
              show dictionaryDeleteNode (ofMessages (pre ++ m :: post)) m.messageId = _
              rw [deleteNode_split h]
              simp
    · have hskip : locals.matchHidden = false ∧ m.hide > locals.currentTime := by
        simp only [BurrowMessage.Selected, he, not_false_eq_true, true_and, Classical.not_imp,
          Bool.not_eq_true] at hs
        exact ⟨hs.2, hs.1⟩
      rw [scanEffect_of_not_selected he hs, scanReport_of_not_selected hs, scanMessage, if_neg hle,
        if_pos hskip]
      exact ⟨by simp, rfl⟩

end Split

/-- The loop replaces the walked run of messages in the live list by what the
scan leaves of it. -/
theorem scanLoop_ofMessages (locals : ScanLocals) (todo : List BurrowMessage)
    (pre post : List BurrowMessage) (reference : BurrowAttributes)
    (h : ((pre ++ todo ++ post).map BurrowMessage.messageId).Nodup) :
    ∃ callbacks,
      scanLoop locals (todo.map messageNode) reference (ofMessages (pre ++ todo ++ post)) =
        .ok (ofMessages (pre ++ todo.filterMap (scanEffect locals) ++ post), callbacks) ∧
      callbacks.map Callback.report = todo.filterMap (scanReport locals) := by
  induction todo generalizing pre reference with
  | nil => exact ⟨[], rfl, rfl⟩
  | cons m rest ih =>
      have hsplit : pre ++ (m :: rest) ++ post = pre ++ m :: (rest ++ post) := by simp
      -- the live list is split at the message of this round
      rw [hsplit] at h
      obtain ⟨hlist, hreports⟩ := scanMessage_ofMessages h locals reference
      have hstep : (scanMessage locals m.messageId m reference
          (ofMessages (pre ++ m :: (rest ++ post)))).1 =
            ofMessages ((pre ++ (scanEffect locals m).toList) ++ rest ++ post) := by
        rw [hlist]
        simp
      -- what this round leaves still has no identity twice, so the next round splits it
      -- too
      have hnodup : (((pre ++ (scanEffect locals m).toList) ++ rest ++ post).map
          BurrowMessage.messageId).Nodup := by
        refine h.sublist ?_
        cases heff : scanEffect locals m with
        | none => simp
        | some m' => simp [messageId_scanEffect heff]
      obtain ⟨callbacks, hloop, hcallbacks⟩ := ih (pre ++ (scanEffect locals m).toList)
        (scanMessage locals m.messageId m reference
          (ofMessages (pre ++ m :: (rest ++ post)))).2.1 hnodup
      refine ⟨(scanMessage locals m.messageId m reference
        (ofMessages (pre ++ m :: (rest ++ post)))).2.2 ++ callbacks, ?_, ?_⟩
      · rw [List.map_cons, scanLoop]
        simp only [data_messageNode, key_messageNode, hsplit, hstep, hloop]
        congr 3
        cases heff : scanEffect locals m with
        | none => simp [heff]
        | some m' => simp [heff]
      · rw [List.map_append, hreports, hcallbacks]
        cases hrep : scanReport locals m with
        | none => simp [hrep]
        | some r => simp [hrep]

/-! ## The whole scan -/

/-- The allocations of a scan succeed. -/
def ScanInputs.AllocationsSucceed (inputs : ScanInputs) : Prop :=
  inputs.outFilters ≠ none ∧ inputs.iter.Succeeds

section ScanQueue

variable {holes : Prop} {s s' : AccountsSt} {inputs : ScanInputs} {cmd : BackendCommand}
  {scanType : ScanAction} {deleteAction : DeleteAction} {callbacks : List Callback}

/-- Writing back what the scan leaves of a queue is the scan of the broker. -/
theorem PathOk.view_scan {queues : QueuesSt} {messages : MessagesSt} (h : StoreOk holes s)
    (p : PathOk holes s cmd.account cmd.queue queues messages) (locals : ScanLocals)
    {l : List BurrowMessage} (hl : contents messages = l) :
    StoreOk holes (deleteIfEmpty s cmd.account cmd.queue queues (ofMessages
        (mapWindow BurrowMessage.messageId cmd.marker cmd.limit (scanEffect locals) l))) ∧
      view (deleteIfEmpty s cmd.account cmd.queue queues (ofMessages
        (mapWindow BurrowMessage.messageId cmd.marker cmd.limit (scanEffect locals) l))) =
        (view s).scan cmd locals := by
  subst hl
  have hwf := wellFormed_ofMessages
    (nodup_mapWindow (nodup_contents p.messages_ok) cmd.marker cmd.limit locals)
  have hrows : (view s).rows cmd.account cmd.queue = contents messages := p.rows_eq
  have hne : (contents messages).isEmpty = false :=
    List.isEmpty_eq_false_iff.2 (contents_ne_nil p.messages_ok p.messages_ne)
  refine ⟨p.storeOk_deleteIfEmpty h hwf, ?_⟩
  rw [p.view_deleteIfEmpty h hwf, contents_ofMessages, Broker.scan, Directory.modifyRows, hrows,
    hne]
  rfl

/-- Writing back the messages of a queue changes nothing. -/
theorem PathOk.view_unchanged {account queue : String} {queues : QueuesSt} {messages : MessagesSt}
    (h : StoreOk holes s) (p : PathOk holes s account queue queues messages) :
    view (deleteIfEmpty s account queue queues messages) = view s := by
  have hrows : (view s).rows account queue = contents messages := p.rows_eq
  have hne : (view s).rows account queue ≠ [] := by
    rw [hrows]
    exact contents_ne_nil p.messages_ok p.messages_ne
  have hinner : (view s).inner account ≠ [] := by
    rw [show (view s).inner account = queues.keys from queueNames_eq p.path.account_data]
    exact List.ne_nil_of_mem p.queue_mem
  rw [p.view_deleteIfEmpty h p.messages_ok, ← hrows, Directory.setRows_rows _ _ _ hne hinner]

/-- `_scan_queue` behind the searches, on what `dictionary_iter` returns: a copy
of the window or, where an allocation failed, an empty list. -/
theorem PathOk.scanLoop_spec {queues : QueuesSt} {messages : MessagesSt} (h : StoreOk holes s)
    (p : PathOk holes s cmd.account cmd.queue queues messages) (locals : ScanLocals)
    (reference : BurrowAttributes) {mem : IterMemory} {iterator : MessagesSt}
    (hiter : dictionaryIter mem (some messages) cmd.marker cmd.limit = some iterator) :
    ∃ messages' callbacks,
      scanLoop locals (iterator.nodes.take iterator.length) reference messages =
        .ok (messages', callbacks) ∧
      StoreOk holes (deleteIfEmpty s cmd.account cmd.queue queues messages') ∧
      (view s).ScanStep cmd locals (¬ mem.Succeeds)
        (view (deleteIfEmpty s cmd.account cmd.queue queues messages'))
        (callbacks.map Callback.report) := by
  rcases dictionaryIter_cases p.messages_ok mem cmd.marker cmd.limit with
    ⟨-, hnone⟩ | ⟨hfail, hempty⟩ | hwindow
  · rw [hnone] at hiter
    exact absurd hiter (by simp)
  · rw [hempty, Option.some.injEq] at hiter
    subst hiter
    exact ⟨messages, [], rfl, p.storeOk_deleteIfEmpty h p.messages_ok,
      Or.inr ⟨hfail, p.view_unchanged h, rfl⟩⟩
  · rw [hwindow, Option.some.injEq] at hiter
    subst hiter
    obtain ⟨l, hl⟩ : ∃ l, contents messages = l := ⟨_, rfl⟩
    have hmessages : messages = ofMessages l := hl ▸ eq_ofMessages p.messages_ok
    have hsplit := before_window_after BurrowMessage.messageId cmd.marker cmd.limit l
    have hnodup := nodup_contents p.messages_ok
    rw [hl, ← hsplit] at hnodup
    obtain ⟨callbacks, hloop, hreports⟩ := scanLoop_ofMessages locals _ _ _ reference hnodup
    obtain ⟨hok, hview⟩ := p.view_scan h locals hl
    refine ⟨_, callbacks, ?_, hok, Or.inl ⟨hview, ?_⟩⟩
    · rw [mapWindow, ← hloop, hsplit, ← hmessages]
      show scanLoop _ (List.take (List.length _) (window _ _ _ messages.nodes)) _ _ = _
      rw [List.take_length, hmessages, window_ofMessages]
    · rw [hreports, Broker.scanned, Broker.messageWindow, ← hl, ← p.rows_eq]
      rfl

/-- Without a node for the queue `_scan_queue` does nothing. -/
theorem scanQueue_of_not_mem (h : StoreOk holes s) (hmem : cmd.queue ∉ queueNames s cmd.account) :
    scanQueue inputs cmd scanType deleteAction s = .ok (s, []) := by
  unfold scanQueue
  cases hacc : dictionaryGet (some s) (some cmd.account) with
  | none => rfl
  | some account =>
      simp only
      have hget : dictionaryGet account.data (some cmd.queue) = none := by
        cases hdata : account.data with
        | none => rfl
        | some queues =>
            have ha := (Dictionary.data?_of_get hacc).trans hdata
            rw [queueNames_eq ha] at hmem
            rcases (Dictionary.WellFormed.data?_eq_some h ha).2 with ⟨hnone, -⟩ | ⟨_, hq, hwf, -⟩
            · exact absurd hnone (by simp)
            · cases hq
              exact (hwf.get_eq_none_iff cmd.queue).2 hmem
      rw [hget]

/-- `_scan_queue` behind its searches. -/
theorem scanQueue_eq (h : StoreOk holes s) {queues : QueuesSt} {data : Option MessagesSt}
    (ha : s.data? cmd.account = some queues)
    (hq : dictionaryGet (some queues) (some cmd.queue) = some { key := cmd.queue, data := data }) :
    scanQueue inputs cmd scanType deleteAction s =
      match scanAttributes inputs.time cmd.attributes,
          processFilter inputs.outFilters cmd.filters with
      | .error e, _ => .error e
      | .ok _, .error e => .error e
      | .ok _, .ok none => .ok (s, [])
      | .ok (attributesTtl, attributesHide), .ok (some refFilters) =>
          match dictionaryIter inputs.iter data refFilters.marker refFilters.limit.toNat, data with
          | some iterator, some messages =>
              match scanLoop
                  { scanType := scanType
                    deleteAction := deleteAction
                    currentTime := inputs.time
                    attributesTtl := attributesTtl
                    attributesHide := attributesHide
                    matchHidden := refFilters.matchHidden }
                  (iterator.nodes.take iterator.length) inputs.referenceAttributes messages with
              | .error e => .error e
              | .ok (messages, callbacks) =>
                  .ok (deleteIfEmpty s cmd.account cmd.queue queues messages, callbacks)
          | _, _ => .ok (s, []) := by
  unfold scanQueue
  simp only [Dictionary.WellFormed.get_of_data? h ha, hq]
  cases scanAttributes inputs.time cmd.attributes with
  | error e => rfl
  | ok deadlines =>
      cases processFilter inputs.outFilters cmd.filters with
      | error e => rfl
      | ok out =>
          cases out with
          | none => rfl
          | some refFilters =>
              simp only
              cases dictionaryIter inputs.iter data refFilters.marker refFilters.limit.toNat with
              | none => rfl
              | some iterator =>
                  cases data with
                  | none => rfl
                  | some messages => rfl

/-- The node of a queue that is there, found by the search of a command. -/
theorem exists_node_of_mem (h : StoreOk holes s) {account queue : String}
    (hmem : queue ∈ queueNames s account) :
    ∃ queues data, s.data? account = some queues ∧
      dictionaryGet (some queues) (some queue) = some { key := queue, data := data } ∧
      (∀ messages, data = some messages → PathOk holes s account queue queues messages) ∧
      (data = none → queueMessages s account queue = []) := by
  cases ha : s.data? account with
  | none =>
      rw [queueNames, ha] at hmem
      exact absurd hmem List.not_mem_nil
  | some queues =>
      rw [queueNames_eq ha] at hmem
      rcases (Dictionary.WellFormed.data?_eq_some h ha).2 with ⟨hnone, -⟩ | ⟨_, hq, hwf, -⟩
      · exact absurd hnone (by simp)
      · cases hq
        obtain ⟨n, hn⟩ : ∃ n, dictionaryGet (some queues) (some queue) = some n := by
          rw [← Option.ne_none_iff_exists', Ne, hwf.get_eq_none_iff]
          exact fun hno => hno hmem
        have hkey : n.key = queue := (hwf.of_get hn).2.1
        refine ⟨queues, n.data, rfl, by rw [hn, ← hkey], ?_, ?_⟩
        · intro messages hdata
          exact Path.ok h ⟨ha, (Dictionary.data?_of_get hn).trans hdata⟩
        · intro hdata
          rw [queueMessages_eq ha, Dictionary.data?_of_get hn, hdata]
          rfl

end ScanQueue

/-- **`_scan_queue` is a scan of the broker**, or, where an allocation fails,
does nothing. -/
theorem scanQueue_spec {holes : Prop} {s s' : AccountsSt} (h : StoreOk holes s)
    {inputs : ScanInputs} {cmd : BackendCommand} {scanType : ScanAction}
    {deleteAction : DeleteAction} {callbacks : List Callback}
    (hrun : scanQueue inputs cmd scanType deleteAction s = .ok (s', callbacks)) :
    StoreOk holes s' ∧
      (view s).ScanStep cmd (scanLocals cmd scanType deleteAction inputs.time)
        (¬ inputs.AllocationsSucceed) (view s') (callbacks.map Callback.report) := by
  by_cases hmem : cmd.queue ∈ queueNames s cmd.account
  · obtain ⟨queues, data, ha, hq, hpath, hnone⟩ := exists_node_of_mem h hmem
    rw [scanQueue_eq h ha hq] at hrun
    cases hattr : scanAttributes inputs.time cmd.attributes with
    | error e =>
        rw [hattr] at hrun
        exact absurd hrun (by simp)
    | ok deadlines =>
        have hdeadlines := scanAttributes_ok hattr
        subst hdeadlines
        cases hfilters : processFilter inputs.outFilters cmd.filters with
        | error e =>
            rw [hattr, hfilters] at hrun
            exact absurd hrun (by simp)
        | ok out =>
            rw [hattr, hfilters] at hrun
            rcases processFilter_ok hfilters with ⟨hblock, rfl⟩ | ⟨filters, -, rfl, hm, hl, hh⟩
            · -- without a block for the filters the scan returns at once
              cases hrun
              exact ⟨h, Or.inr ⟨fun hs => hs.1 hblock, rfl, rfl⟩⟩
            · cases data with
              | none =>
                  cases hrun
                  exact ⟨h, Broker.scanStep_of_rows_eq_nil (hnone rfl) _ _⟩
              | some messages =>
                  have p := hpath messages rfl
                  simp only [hm, hl, hh] at hrun
                  cases hiter : dictionaryIter inputs.iter (some messages) cmd.marker cmd.limit with
                  | none =>
                      rw [hiter] at hrun
                      cases hrun
                      have hfail := dictionaryIter_eq_none p.messages_ok hiter
                      exact ⟨h, Or.inr ⟨fun hs => hfail hs.2, rfl, rfl⟩⟩
                  | some iterator =>
                      obtain ⟨messages', callbacks', hloop, hok, hstep⟩ := p.scanLoop_spec h
                        (scanLocals cmd scanType deleteAction inputs.time)
                        inputs.referenceAttributes hiter
                      simp only [scanLocals] at hloop
                      rw [hiter] at hrun
                      simp only [hloop] at hrun
                      cases hrun
                      exact ⟨hok, hstep.mono fun hfail hs => hfail hs.2⟩
  · -- there is no such queue, and so nothing to scan
    have hrows : queueMessages s cmd.account cmd.queue = [] := by
      by_contra hne
      obtain ⟨queues, messages, hpath⟩ := exists_path hne
      rw [queueNames_eq hpath.account_data] at hmem
      exact hmem (hpath.ok h).queue_mem
    rw [scanQueue_of_not_mem h hmem] at hrun
    cases hrun
    exact ⟨h, Broker.scanStep_of_rows_eq_nil hrows _ _⟩

/-! ## The callbacks of a scan -/

section Callbacks

variable {I : BurrowAttributes → Prop} {P : Callback → Prop}

/-- A message is reported with its times written over the attributes structure. -/
theorem scanMessage_callbacks
    (hreport : ∀ now m reference, I reference →
      I (reportTimes now m reference) ∧ P (messageCallback m (reportTimes now m reference)))
    (locals : ScanLocals) (key : String) (m : BurrowMessage) {reference : BurrowAttributes}
    (hI : I reference) (messages : MessagesSt) :
    I (scanMessage locals key m reference messages).2.1 ∧
      ∀ c ∈ (scanMessage locals key m reference messages).2.2, P c := by
  have hnil : ∀ c ∈ ([] : List Callback), P c := fun c hc => absurd hc List.not_mem_nil
  have hone : ∀ m' : BurrowMessage,
      ∀ c ∈ [messageCallback m' (reportTimes locals.currentTime m' reference)], P c := by
    intro m' c hc
    rw [List.mem_singleton.1 hc]
    exact (hreport _ _ _ hI).2
  unfold scanMessage
  split
  · exact ⟨hI, hnil⟩
  · split
    · exact ⟨hI, hnil⟩
    · cases locals.scanType with
      | update => exact ⟨(hreport _ _ _ hI).1, hone _⟩
      | get => exact ⟨(hreport _ _ _ hI).1, hone _⟩
      | delete =>
          cases locals.deleteAction with
          | report => exact ⟨(hreport _ _ _ hI).1, hone _⟩
          | ignore => exact ⟨hI, hnil⟩

/-- The attributes structure is carried from one message to the next. -/
theorem scanLoop_callbacks
    (hreport : ∀ now m reference, I reference →
      I (reportTimes now m reference) ∧ P (messageCallback m (reportTimes now m reference)))
    {locals : ScanLocals} {items : List (DictionaryNode BurrowMessage)}
    {reference : BurrowAttributes} {messages : MessagesSt} {r : MessagesSt × List Callback}
    (hI : I reference) (h : scanLoop locals items reference messages = .ok r) :
    ∀ c ∈ r.2, P c := by
  induction items generalizing reference messages r with
  | nil =>
      cases h
      exact fun c hc => absurd hc List.not_mem_nil
  | cons item rest ih =>
      cases hdata : item.data with
      | none => exact absurd h (by simp [scanLoop, hdata])
      | some m =>
          simp only [scanLoop, hdata] at h
          obtain ⟨hI', hhead⟩ := scanMessage_callbacks hreport locals item.key m hI messages
          split at h
          · exact absurd h (by simp)
          · next messages' callbacks hrest =>
              cases h
              intro c hc
              rcases List.mem_append.1 hc with hc | hc
              · exact hhead c hc
              · exact ih hI' hrest c hc

theorem scanQueue_callbacks
    (hreport : ∀ now m reference, I reference →
      I (reportTimes now m reference) ∧ P (messageCallback m (reportTimes now m reference)))
    {inputs : ScanInputs} {cmd : BackendCommand} {scanType : ScanAction}
    {deleteAction : DeleteAction} {s : AccountsSt} {r : AccountsSt × List Callback}
    (hI : I inputs.referenceAttributes)
    (h : scanQueue inputs cmd scanType deleteAction s = .ok r) : ∀ c ∈ r.2, P c := by
  have hnil : ∀ c ∈ ([] : List Callback), P c := fun c hc => absurd hc List.not_mem_nil
  unfold scanQueue at h
  split at h
  · cases h
    exact hnil
  · split at h
    · cases h
      exact hnil
    · split at h
      · exact absurd h (by simp)
      · split at h
        · exact absurd h (by simp)
        · cases h
          exact hnil
        · split at h
          · dsimp only at h
            split at h
            · exact absurd h (by simp)
            · next hloop =>
                cases h
                exact scanLoop_callbacks hreport hI hloop
          · cases h
            exact hnil

end Callbacks

/-! ## When a scan reads a destroyed object -/

theorem scanAttributes_reads (now : UInt32) (attributes : Option (Object BurrowAttributes)) :
    Reads (ArgLive attributes) (scanAttributes now attributes) := by
  cases attributes with
  | none => exact .of_ok rfl argLive_none
  | some object =>
      cases object with
      | live value => exact .of_ok rfl (by simp)
      | destroyed => exact .of_error rfl (by simp)

theorem processFilter_reads (block : Option BurrowFilters)
    (filters : Option (Object BurrowFilters)) :
    Reads (block ≠ none → ArgLive filters) (processFilter block filters) := by
  cases block with
  | none => exact .of_ok rfl (by simp)
  | some block =>
      cases filters with
      | none => exact .of_ok rfl (by simp)
      | some object =>
          cases object with
          | live value => exact .of_ok rfl (by simp)
          | destroyed => exact .of_error rfl (by simp)

section Errors

variable {holes : Prop} {s : AccountsSt} {inputs : ScanInputs} {cmd : BackendCommand}
  {scanType : ScanAction} {deleteAction : DeleteAction}

/-- Behind the reads of the arguments nothing goes wrong. -/
theorem scanQueue_of_read (h : StoreOk holes s) (hmem : cmd.queue ∈ queueNames s cmd.account)
    {deadlines : UInt32 × UInt32} {out : Option BurrowFilters}
    (hattr : scanAttributes inputs.time cmd.attributes = .ok deadlines)
    (hfilters : processFilter inputs.outFilters cmd.filters = .ok out) :
    ∃ r, scanQueue inputs cmd scanType deleteAction s = .ok r := by
  obtain ⟨queues, data, ha, hq, hpath, -⟩ := exists_node_of_mem h hmem
  rw [scanQueue_eq h ha hq, hattr, hfilters]
  cases out with
  | none => exact ⟨_, rfl⟩
  | some filters =>
      cases data with
      | none => exact ⟨_, rfl⟩
      | some messages =>
          rcases processFilter_ok hfilters with ⟨-, hnone⟩ | ⟨_, -, hsome, hm, hl, -⟩
          · exact absurd hnone (by simp)
          · cases hsome
            simp only [hm, hl]
            cases hiter : dictionaryIter inputs.iter (some messages) cmd.marker cmd.limit with
            | none => exact ⟨_, rfl⟩
            | some iterator =>
                obtain ⟨messages', callbacks, hloop, -⟩ := (hpath messages rfl).scanLoop_spec h
                  { scanType := scanType
                    deleteAction := deleteAction
                    currentTime := inputs.time
                    attributesTtl := deadlines.1
                    attributesHide := deadlines.2
                    matchHidden := filters.matchHidden }
                  inputs.referenceAttributes hiter
                simp only [hloop]
                exact ⟨_, rfl⟩

/-- **When a scan succeeds**: unless there is a queue to scan and an argument it
reads has been destroyed. -/
theorem scanQueue_reads (h : StoreOk holes s) :
    Reads (cmd.queue ∈ queueNames s cmd.account →
        ArgLive cmd.attributes ∧ (inputs.outFilters ≠ none → ArgLive cmd.filters))
      (scanQueue inputs cmd scanType deleteAction s) := by
  by_cases hmem : cmd.queue ∈ queueNames s cmd.account
  · have hattr := scanAttributes_reads inputs.time cmd.attributes
    have hfilters := processFilter_reads inputs.outFilters cmd.filters
    refine ⟨fun hlive => ?_, fun hno => ?_⟩
    · obtain ⟨deadlines, hread⟩ := hattr.ok (hlive hmem).1
      obtain ⟨out, hread'⟩ := hfilters.ok (hlive hmem).2
      exact scanQueue_of_read h hmem hread hread'
    · obtain ⟨queues, data, ha, hq, -⟩ := exists_node_of_mem h hmem
      rw [scanQueue_eq h ha hq]
      by_cases hlive : ArgLive cmd.attributes
      · obtain ⟨deadlines, hread⟩ := hattr.ok hlive
        rw [hread, hfilters.error fun hyes => hno fun _ => ⟨hlive, hyes⟩]
      · rw [hattr.error hlive]
  · exact .of_ok (scanQueue_of_not_mem h hmem) fun hyes => absurd hyes hmem

end Errors

end Burrow.Memory
