import Burrow.Memory.Placed
import Burrow.Memory.Scan

/-!
# Scans in memory

A scan copies a window of the nodes of a queue and goes along the copies, while it deletes and
writes what they lead to. One node comes to what `Memory.scanMessage` says (`scanItem_turns`):
the copies still to come lead to messages that are still in the queue. From it follow the loop
(`scanLoop_turns`) and, with the containers that are empty afterwards (`prune_turns`),
`_scan_queue` itself (`scanQueue_turns`).
-/

set_option autoImplicit false

namespace Burrow.Memory.Chained

open Ownership KeyedList

/-! ## Messages -/

section Message

variable {m : BackendHeap} {x : PlacedMessage}

theorem readMessage_placed (hx : Holds m x) : m.readMessage (some x.address) = .ok x.block := by
  rw [BackendHeap.readMessage, PlacedMessage.Holds.message hx]

theorem readId_placed (hx : Holds m x) :
    m.toHeap.readChars (.block x.messageIdAt) = .ok x.message.messageId :=
  readText_of_texts (PlacedMessage.Holds.text hx)

theorem callbackMessage_placed (hx : Holds m x) (attributes : BurrowAttributes) :
    m.callbackMessage x.block attributes =
      .ok (m.callback (messageCallback x.message attributes)) := by
  have htext : m.texts x.block.messageId = some x.message.messageId :=
    PlacedMessage.Holds.text hx
  have hbody : m.bodies x.block.body = some x.message.body := PlacedMessage.Holds.body hx
  rw [BackendHeap.callbackMessage, htext, hbody]
  rfl

/-- What has been placed stays where it is when a callback is made. -/
theorem callback_turns {α β : Type} [Pointed α β] {x : α} (hx : Holds m x)
    (hm : Owns m (footprint x)) (callback : Callback) :
    Turns m (m.callback callback) x x [callback] := by
  have hsame : ∀ b ∈ footprint x, Block.Same m (m.callback callback) b := fun b _ =>
    Block.same_refl m b
  exact ⟨callbacks_does hm [callback], Located.congr hsame hx⟩

/-- The deadlines of a message are written. -/
theorem writeMessage_turns (hx : Holds m x) (hm : Owns m (footprint x)) {message : BurrowMessage}
    (hid : message.messageId = x.message.messageId) (hbody : message.body = x.message.body) :
    Turns m (m.writeMessage x.address { x with message := message }.block) x
      { x with message := message } [] := by
  have hm' : Owns m ({.message x.address} + x.contents) := hm
  have hdoes := writeMessage_does hm'.part { x with message := message }.block
  have hsame : ∀ b ∈ x.contents, Block.Same m _ b := fun b hb =>
    hdoes.toChanges.same_rest hm' hb
  refine ⟨hdoes.frame hm', Function.update_self .., ?_, ?_⟩
  · rw [hid]
    refine (hsame (.text x.messageIdAt) ?_).trans (PlacedMessage.Holds.text hx)
    exact Multiset.mem_add.2 (.inl (Multiset.mem_singleton_self _))
  · rw [hbody]
    refine (hsame (.body x.bodyAt) ?_).trans (PlacedMessage.Holds.body hx)
    exact Multiset.mem_add.2 (.inr (Multiset.mem_singleton_self _))

/-- The id, the body and the message are freed. -/
theorem freeWhole_does (hx : Holds m x) (hm : Owns m (footprint x)) :
    ∃ m', m.freeWhole (some x.address) = .ok m' ∧ Does m m' (footprint x) 0 [] := by
  have hsplit : footprint x =
      {.text x.messageIdAt} + ({.body x.bodyAt} + ({.message x.address} + 0)) := by
    change {.message x.address} + x.contents = _
    rw [PlacedMessage.contents]
    abel
  rw [hsplit] at hm ⊢
  obtain ⟨m₁, htext, hdoes₁⟩ := freeText_does hm.part
  have hrest := (hdoes₁.frame hm).congr rfl (Multiset.zero_add _)
  obtain ⟨m₂, hbody, hdoes₂⟩ := freeBody_does hrest.after.part
  have hrest₂ := (hrest.seq_quiet hdoes₂).congr rfl (Multiset.zero_add _)
  obtain ⟨m₃, hmessage, hdoes₃⟩ := freeMessage_does hrest₂.after.part
  refine ⟨m₃, ?_, (hrest₂.seq_quiet hdoes₃).congr rfl (Multiset.zero_add _)⟩
  rw [BackendHeap.freeWhole, readMessage_placed hx, ok_bind]
  change (m.freeText x.messageIdAt >>= _) = _
  rw [htext, ok_bind]
  change (m₁.freeBody x.bodyAt >>= _) = _
  rw [hbody, ok_bind]
  exact hmessage

end Message

/-! ## One message of a scan -/

section Scan

variable {m : BackendHeap} {x : Opened PlacedMessage} {queue : Address} {item : Node}

/-- A message is unlinked; it is still there. -/
theorem unlinkMessage_does (hx : Holds m x.closed) (hm : Owns m (footprint x.closed))
    {chars : Chars} (hchars : m.toHeap.readChars chars = .ok x.node.key) :
    ∃ m', m.deleteNode (some x.address) chars = .ok m' ∧
      Does m m' (footprint x.closed) (footprint x.node.data + footprint x.without) [] ∧
      Holds m' x.without ∧ Holds m' x.node.data := by
  obtain ⟨hopened, hdata⟩ := holds_opened hx
  have hm' : Owns m (around x + footprint x.node.data) :=
    Multiset.add_comm .. ▸ owns_opened hm
  obtain ⟨m', hdelete, hdoes, hwithout⟩ := unlink_does hopened hm'.part hchars
  refine ⟨m', hdelete, (hdoes.frame hm').congr ?_ (Multiset.add_comm ..), hwithout,
    hdoes.toChanges.holds hm' hdata⟩
  rw [footprint_closed, Multiset.add_comm]

/-- What `_scan_queue` does to one message of the queue. -/
theorem scanItem_turns (hx : Holds m x.closed) (hm : Owns m (footprint x.closed))
    (hqueue : m.nodeData (some queue) = .ok (some x.address))
    (hkey : m.toHeap.readChars (.block item.key) = .ok x.node.key)
    (hdata : item.data = some x.node.data.address) (locals : ScanLocals)
    (reference : BurrowAttributes) :
    ∃ m' r, scanItem locals queue item reference m =
        .ok ((scanMessage locals x.node.key x.node.data.message reference (erase x.closed)).2.1,
          m') ∧
      Turns m m' x.closed ⟨x.address, x.pre ++ r ++ x.post⟩
        (scanMessage locals x.node.key x.node.data.message reference (erase x.closed)).2.2 ∧
      erase (⟨x.address, x.pre ++ r ++ x.post⟩ : PlacedMessages) =
        (scanMessage locals x.node.key x.node.data.message reference (erase x.closed)).1 := by
  have hkeys := Placed.Holds.keys hx
  have hread := readMessage_placed (holds_opened hx).2
  obtain ⟨m₁, hdelete, hdoes₁, hwithout₁, hdata₁⟩ := unlinkMessage_does hx hm hkey
  have hthere : (⟨x.address, x.pre ++ [x.node] ++ x.post⟩ : PlacedMessages) = x.closed := by
    rw [Opened.closed, List.append_assoc, List.singleton_append]
  have hgone : (⟨x.address, x.pre ++ [] ++ x.post⟩ : PlacedMessages) = x.without := by
    rw [Opened.without, List.append_nil]
  rw [scanItem, hdata, hread, ok_bind, scanMessage, hqueue]
  by_cases hexpired : x.node.data.message.ttl ≤ locals.currentTime
  · have hexpired' : x.node.data.block.ttl ≤ locals.currentTime := hexpired
    obtain ⟨m₂, hfree, hdoes₂⟩ := freeWhole_does hdata₁ hdoes₁.after.part
    rw [if_pos hexpired, if_pos hexpired']
    refine ⟨m₂, [], ?_, ?_, ?_⟩
    · rw [ok_bind, hdelete, ok_bind, hfree]
      rfl
    · rw [hgone]
      exact ⟨(hdoes₁.seq_quiet hdoes₂).congr rfl (Multiset.zero_add _),
        hdoes₂.toChanges.holds hdoes₁.after hwithout₁⟩
    · rw [hgone, erase_without hkeys]
  · have hexpired' : ¬ x.node.data.block.ttl ≤ locals.currentTime := hexpired
    rw [if_neg hexpired, if_neg hexpired']
    by_cases hhidden : locals.matchHidden = false ∧ x.node.data.message.hide > locals.currentTime
    · have hhidden' : locals.matchHidden = false ∧
          x.node.data.block.hide > locals.currentTime := hhidden
      rw [if_pos hhidden, if_pos hhidden']
      refine ⟨m, [x.node], rfl, ?_, ?_⟩
      · rw [hthere]
        exact Turns.refl hx hm
      · rw [hthere]
    · have hhidden' : ¬ (locals.matchHidden = false ∧
          x.node.data.block.hide > locals.currentTime) := hhidden
      rw [if_neg hhidden, if_neg hhidden']
      cases locals.scanType with
      | update =>
          let written := Memory.applyDeadlines locals.attributesTtl locals.attributesHide
            x.node.data.message
          have hdataTurns := writeMessage_turns (holds_opened hx).2 (owns_opened hm).part
            (show written.messageId = x.node.data.message.messageId from rfl) rfl
          have hturns := hdataTurns.lift rfl hx hm
          have hread := callbackMessage_placed hdataTurns.holds
            (Memory.reportTimes locals.currentTime written reference)
          have hcallback := callback_turns hturns.holds hturns.after
            (messageCallback written (Memory.reportTimes locals.currentTime written reference))
          have hwritten : (⟨x.address, x.pre ++
              [{ x.node with data := { x.node.data with message := written } }] ++ x.post⟩ :
                PlacedMessages) = (x.withData { x.node.data with message := written }).closed := by
            rw [Opened.closed, List.append_assoc, List.singleton_append]
            rfl
          refine ⟨_, [{ x.node with data := { x.node.data with message := written } }],
            congrArg (· >>= fun m => pure (_, m)) hread, ?_, ?_⟩
          · rw [hwritten]
            exact hturns.trans hcallback
          · rw [hwritten]
            exact (erase_withData hkeys _).symm
      | get =>
          have hread := callbackMessage_placed (holds_opened hx).2
            (Memory.reportTimes locals.currentTime x.node.data.message reference)
          refine ⟨_, [x.node], congrArg (· >>= fun m => pure (_, m)) hread, ?_, ?_⟩
          · rw [hthere]
            exact callback_turns hx hm _
          · rw [hthere]
      | delete =>
          dsimp only
          rw [ok_bind, hdelete, ok_bind]
          cases locals.deleteAction with
          | report =>
              have hread := callbackMessage_placed hdata₁
                (Memory.reportTimes locals.currentTime x.node.data.message reference)
              have hcallback := callback_turns hdata₁ hdoes₁.after.part
                (messageCallback x.node.data.message
                  (Memory.reportTimes locals.currentTime x.node.data.message reference))
              have hdoes₂ := hdoes₁.seq hcallback.toDoes
              obtain ⟨m₃, hfree, hdoes₃⟩ := freeWhole_does hcallback.holds hdoes₂.after.part
              have hwithout₂ := hcallback.toChanges.holds hdoes₁.after hwithout₁
              refine ⟨m₃, [], ?_, ?_, ?_⟩
              · refine (congrArg (· >>= _) hread).trans ?_
                rw [ok_bind, hfree]
                rfl
              · rw [hgone]
                exact ⟨(hdoes₂.seq_quiet hdoes₃).congr rfl (Multiset.zero_add _),
                  hdoes₃.toChanges.holds hdoes₂.after hwithout₂⟩
              · rw [hgone]
                exact (erase_without hkeys).symm
          | ignore =>
              obtain ⟨m₂, hfree, hdoes₂⟩ := freeWhole_does hdata₁ hdoes₁.after.part
              refine ⟨m₂, [], ?_, ?_, ?_⟩
              · dsimp only
                rw [hfree]
                rfl
              · rw [hgone]
                exact ⟨(hdoes₁.seq_quiet hdoes₂).congr rfl (Multiset.zero_add _),
                  hdoes₂.toChanges.holds hdoes₁.after hwithout₁⟩
              · rw [hgone]
                exact (erase_without hkeys).symm

end Scan

/-! ## The loop of a scan -/

theorem nodeData_congr {m m' : BackendHeap} {a : Address} (h : Block.Same m m' (.node a)) :
    m'.nodeData (some a) = m.nodeData (some a) := by
  have hnode : m'.nodes a = m.nodes a := h
  rw [BackendHeap.nodeData, BackendHeap.nodeData, BackendHeap.dictionaryRead,
    BackendHeap.dictionaryRead, Heap.readNode, Heap.readNode, hnode]

/-- One step of the list model's loop. -/
theorem scanLoop_cons {locals : ScanLocals} {n : PlacedNode PlacedMessage}
    {rest : List (DictionaryNode BurrowMessage)} {reference : BurrowAttributes}
    {messages messages' : MessagesSt} {told : List Callback}
    (h : Memory.scanLoop locals (n.erased :: rest) reference messages = .ok (messages', told)) :
    ∃ told', Memory.scanLoop locals rest
        (scanMessage locals n.key n.data.message reference messages).2.1
        (scanMessage locals n.key n.data.message reference messages).1 = .ok (messages', told') ∧
      told = (scanMessage locals n.key n.data.message reference messages).2.2 ++ told' := by
  rw [Memory.scanLoop] at h
  dsimp only [PlacedNode.erased] at h
  split at h
  · exact absurd h (by simp)
  · next hloop =>
      cases h
      exact ⟨_, hloop, rfl⟩

/-- The loop of `_scan_queue`: the copies that are left lead to messages that are left. -/
theorem scanLoop_turns {locals : ScanLocals} {queue iterator : Address} {c : Multiset Block}
    {todo : List (PlacedNode PlacedMessage)} {post : List Cell} {m : BackendHeap}
    {x : PlacedMessages} {reference : BurrowAttributes} {messages' : MessagesSt}
    {told : List Callback} (pre : List Cell) (hx : Holds m x)
    (hm : Owns m (footprint x + (spine iterator (pre ++ post) + c)))
    (hiterator : m.toHeap.Represents iterator (pre ++ post))
    (hpost : post.map Cell.content = todo.map fun n => n.cell.content)
    (htodo : todo.Sublist x.nodes)
    (hqueue : m.nodeData (some queue) = .ok (some x.address)) (hc : .node queue ∈ c)
    (hspec : Memory.scanLoop locals (todo.map PlacedNode.erased) reference (erase x) =
      .ok (messages', told)) :
    ∃ m' x', scanLoop locals queue post.length (addresses post).head? reference m = .ok m' ∧
      Turns m m' x x' told ∧ x'.address = x.address ∧ erase x' = messages' := by
  induction todo generalizing pre post m x reference told with
  | nil =>
      rw [List.map_nil, List.map_eq_nil_iff] at hpost
      subst hpost
      cases hspec
      exact ⟨m, x, rfl, Turns.refl hx hm.part, rfl, rfl⟩
  | cons n todo ih =>
      cases post with
      | nil => exact absurd hpost (by simp)
      | cons cell post =>
          rw [List.map_cons, List.map_cons, List.cons.injEq] at hpost
          obtain ⟨hcell, hpost⟩ := hpost
          -- the message of this copy, and those of the copies that follow, behind it
          obtain ⟨r₁, r₂, hsplit, hmem, hrest⟩ := List.cons_sublist_iff.1 htodo
          obtain ⟨before, between, rfl⟩ := List.append_of_mem hmem
          obtain ⟨y, rfl, rfl, hbehind⟩ : ∃ y : Opened PlacedMessage, y.closed = x ∧ y.node = n ∧
              todo.Sublist y.post := by
            refine ⟨⟨x.address, before, n, between ++ r₂⟩, ?_, rfl,
              hrest.trans (List.sublist_append_right ..)⟩
            rw [Opened.closed, ← List.cons_append, ← List.append_assoc, ← hsplit]
          obtain ⟨told', hspec', rfl⟩ := scanLoop_cons hspec
          have hmem := List.mem_append_right pre (List.mem_cons_self (a := cell) (l := post))
          obtain ⟨item, hread, hkey, hdata, -⟩ := readNode_eq hiterator hmem
          have hchars : m.toHeap.readChars (.block item.key) = .ok y.node.key := by
            rw [hkey, hiterator.readKey hmem, Cell.key, hcell]
            rfl
          obtain ⟨m₁, r, hitem, hturns, herase⟩ := scanItem_turns hx hm.part hqueue hchars
            (hdata.trans (congrArg DictionaryNode.data hcell)) locals reference
          have hsame : ∀ b ∈ spine iterator (pre ++ cell :: post) + c, Block.Same m m₁ b :=
            fun b hb => hturns.toChanges.same_rest hm hb
          have hiterator₁ := represents_congr
            (fun b hb => hsame b (Multiset.mem_add.2 (.inl hb))) hiterator
          obtain ⟨item₁, hread₁, -, -, hnext₁⟩ :=
            readNode_eq hiterator₁ hmem
          have hpre : pre ++ cell :: post = pre ++ [cell] ++ post := by
            rw [List.append_assoc, List.singleton_append]
          obtain ⟨m₂, x₂, hloop, hturns₂, haddress, herase₂⟩ := ih (pre ++ [cell]) hturns.holds
            (hpre ▸ (hturns.toDoes.frame hm).after) (hpre ▸ hiterator₁) hpost
            (hbehind.trans (List.sublist_append_right ..))
            ((nodeData_congr (hsame _ (Multiset.mem_add.2 (.inr hc)))).trans hqueue)
            (herase ▸ hspec')
          refine ⟨m₂, x₂, ?_, hturns.trans hturns₂, haddress, herase₂⟩
          have hcurrent : (addresses (cell :: post)).head? = some cell.node := rfl
          rw [List.length_cons, scanLoop, hcurrent, hread, ok_bind, hitem, ok_bind]
          dsimp only
          rw [hread₁, ok_bind, hnext₁, hiterator₁.next_eq]
          exact hloop

/-! ## Filters and the copied list -/

section Iterator

variable {α β : Type} [Pointed α β] {m : BackendHeap} {x : Placed α}

theorem processFilter_does {outFilters : Option BurrowFilters}
    {inFilters : Option (Object BurrowFilters)} {filters : BurrowFilters}
    (h : Memory.processFilter outFilters inFilters = .ok (some filters))
    (hm : Owns m (0 : Multiset Block)) :
    ∃ m', processFilter outFilters inFilters m = .ok (some (m.next, filters), m') ∧
      Does m m' 0 {.scratch m.next} [] := by
  obtain ⟨m', hmalloc, hdoes, -⟩ := mallocScratch_does hm
  refine ⟨m', ?_, hdoes⟩
  rw [processFilter, h, fromArguments]
  change Except.ok (some (m.mallocScratch.1, filters), m.mallocScratch.2) = _
  rw [hmalloc]

/-- The copied list that a function goes along. -/
structure Copied (m : BackendHeap) (iterator : Address) (copied : List Cell)
    (nodes : List (PlacedNode α)) : Prop where
  represents : m.toHeap.Represents iterator copied
  cells : copied.map Cell.content = nodes.map fun n => n.cell.content
  keys : (nodes.map PlacedNode.key).Nodup

theorem Copied.keys_copied {iterator : Address} {copied : List Cell} {nodes : List (PlacedNode α)}
    (h : Copied m iterator copied nodes) :
    copied.map Cell.key = nodes.map PlacedNode.key := by
  have hmap := congrArg (List.map DictionaryNode.key) h.cells
  rw [List.map_map, List.map_map] at hmap
  exact hmap

theorem Copied.congr {m' : BackendHeap} {iterator : Address} {copied : List Cell}
    {nodes : List (PlacedNode α)} (h : Copied m iterator copied nodes)
    (hsame : ∀ b ∈ spine iterator copied, Block.Same m m' b) : Copied m' iterator copied nodes :=
  ⟨represents_congr hsame h.represents, h.cells, h.keys⟩

/-- A window of the nodes, without the addresses. -/
theorem window_erase (z : Placed α) (marker : Option String) (limit : Nat) :
    window DictionaryNode.key marker limit (erase z).nodes =
      (window PlacedNode.key marker limit z.nodes).map PlacedNode.erased := by
  change window _ _ _ (z.nodes.map PlacedNode.erased) = _
  rw [window_map]
  rfl

/-- The filters, and a copy of the window that they describe. -/
theorem openIterator_does (hx : Holds m x) (hm : Owns m (footprint x))
    {outFilters : Option BurrowFilters} {inFilters : Option (Object BurrowFilters)}
    {filters : BurrowFilters}
    (hfilter : Memory.processFilter outFilters inFilters = .ok (some filters))
    {mem : IterMemory} (hmem : mem.Succeeds) :
    ∃ m₁ m₂ copied, processFilter outFilters inFilters m = .ok (some (m.next, filters), m₁) ∧
      Does m m₁ 0 {.scratch m.next} [] ∧
      m₁.iter mem (some x.address) filters.marker filters.limit = .ok (some m₁.next, m₂) ∧
      Does m m₂ 0 ({.scratch m.next} + spine m₁.next copied) [] ∧
      Copied m₂ m₁.next copied
        (window PlacedNode.key filters.marker filters.limit.toNat x.nodes) := by
  obtain ⟨m₁, hprocess, hdoes₁⟩ := processFilter_does hfilter hm.zero
  have hm₀ : Owns m (0 + footprint x) := by rwa [Multiset.zero_add]
  have hx₁ : Holds m₁ x := hdoes₁.toChanges.holds hm₀ hx
  have hm₁ : Owns m₁ (spine x.address x.cells + children x.nodes) :=
    (hdoes₁.frame hm₀).after.rest
  obtain ⟨m₂, copied, hiter, hdoes₂, hrepresents, hcopied⟩ :=
    iter_does (Placed.Holds.represents hx₁) (by rw [length_cells]; exact Placed.Holds.size hx₁)
      hm₁.part hmem filters.marker filters.limit
  refine ⟨m₁, m₂, copied, hprocess, hdoes₁, hiter, ?_, hrepresents, ?_, ?_⟩
  · exact (hdoes₁.congr rfl (Multiset.zero_add _).symm).seq_quiet hdoes₂ |>.congr rfl
      (Multiset.add_comm ..)
  · rw [hcopied, Placed.cells, window_map, List.map_map]
    rfl
  · exact (Placed.Holds.keys hx).sublist ((window_sublist ..).map _)

/-- The filters and the copied list are freed. -/
theorem closeIterator_does {block iterator : Address} {copied : List Cell}
    {nodes : List (PlacedNode α)} (h : Copied m iterator copied nodes)
    (hm : Owns m ({.scratch block} + spine iterator copied)) :
    ∃ m₁ m₂, m.freeScratch block = .ok m₁ ∧ freeIterator iterator m₁ = .ok m₂ ∧
      Does m m₂ ({.scratch block} + spine iterator copied) 0 [] := by
  obtain ⟨m₁, hscratch, hdoes₁⟩ := freeScratch_does hm.part
  have hrest := (hdoes₁.frame hm).congr rfl (Multiset.zero_add _)
  have hrepresents := represents_congr (fun b hb => hdoes₁.toChanges.same_rest hm hb) h.represents
  obtain ⟨m₂, hfree, hdoes₂⟩ := freeIterator_does hrepresents (h.keys_copied ▸ h.keys) hrest.after
  exact ⟨m₁, m₂, hscratch, hfree, hrest.trans hdoes₂⟩

end Iterator

/-! ## Containers that are empty in the end -/

section Prune

variable {m : BackendHeap} {x : Opened PlacedQueues} {y : Opened PlacedMessages}

/-- A queue of an account, with other messages. -/
def inQueue (x : Opened PlacedQueues) (y : Opened PlacedMessages) (z : PlacedMessages) :
    Opened PlacedQueues :=
  x.withData (y.withData z).closed

theorem deleteIfEmpty_erase {α β : Type} [Pointed α β] {x : Opened (Placed α)}
    (h : (x.closed.nodes.map PlacedNode.key).Nodup) :
    (if (erase x.node.data).length = 0 then Memory.dictionaryDeleteNode (erase x.closed) x.node.key
      else erase x.closed) =
      erase (if x.node.data.nodes = [] then x.without else x.closed) := by
  have hlength : (erase x.node.data).length = x.node.data.nodes.length := List.length_map _
  by_cases hempty : x.node.data.nodes = []
  · rw [if_pos hempty, if_pos (by rw [hlength, hempty]; rfl), erase_without h]
  · rw [if_neg hempty, if_neg]
    rw [hlength]
    exact fun hzero => hempty (List.length_eq_zero_iff.1 hzero)

/-- A queue that has become empty is unlinked, and so is its account after it. The pointers to
their keys are read when it is known what is still there. -/
theorem prune_turns {z : PlacedMessages} {c : Multiset Block}
    (hx : Holds m (inQueue x y z).closed) (hm : Owns m (footprint (inQueue x y z).closed + c))
    (parent : BackendHeap → Except BackendFault (Option Address)) (queue : Chars) {account : Chars}
    (hqueue : ∀ m', Holds m' (inQueue x y z) → Holds m' (y.withData z) →
      (∀ b ∈ c, Block.Same m m' b) →
        parent m' = .ok (some y.address) ∧ m'.toHeap.readChars queue = .ok y.node.key)
    (haccount : ReadsAs m c account x.node.key) :
    ∃ m₁ m₂ x', deleteIfEmpty y.node.node parent queue m = .ok m₁ ∧
      deleteIfEmpty x.node.node (fun _ => pure (some x.address)) account m₁ = .ok m₂ ∧
      Turns m m₂ (inQueue x y z).closed x' [] ∧ x'.address = x.address ∧
      erase x' = Memory.deleteIfEmpty (erase x.closed) x.node.key y.node.key (erase y.closed)
        (erase z) := by
  have hm' := owns_opened hm.part
  have hxkeys : (x.closed.nodes.map PlacedNode.key).Nodup :=
    keys_withData x (y.withData z).closed ▸ Placed.Holds.keys hx
  have hykeys' : ((y.withData z).closed.nodes.map PlacedNode.key).Nodup :=
    Placed.Holds.keys (holds_opened hx).2
  have hykeys : (y.closed.nodes.map PlacedNode.key).Nodup := keys_withData y z ▸ hykeys'
  have hlookup : ∀ m', Does m m' (footprint z) 0 [] →
      parent m' = .ok (some y.address) ∧ m'.toHeap.readChars queue = .ok y.node.key := by
    intro m' hdoes
    have hsplit : footprint (inQueue x y z).closed + c =
        footprint z + (around (inQueue x y z) + (around (y.withData z) + c)) := by
      rw [footprint_closed]
      change footprint (y.withData z).closed + _ + _ = _
      rw [footprint_closed]
      change footprint z + _ + _ + _ = _
      abel
    have hsame : ∀ b ∈ around (inQueue x y z) + (around (y.withData z) + c),
        Block.Same m m' b := fun b hb => hdoes.toChanges.same_rest (hsplit ▸ hm) hb
    refine hqueue m' (Located.congr (fun b hb => ?_) (holds_opened hx).1)
      (Located.congr (fun b hb => ?_) (holds_opened (holds_opened hx).2).1) fun b hb => ?_
    · exact hsame b (Multiset.mem_add.2 (.inl hb))
    · exact hsame b (Multiset.mem_add.2 (.inr (Multiset.mem_add.2 (.inl hb))))
    · exact hsame b (Multiset.mem_add.2 (.inr (Multiset.mem_add.2 (.inr hb))))
  obtain ⟨m₁, hunlink, hturns₁⟩ := deleteIfEmpty_does (x := y.withData z) (holds_opened hx).2
    hm'.part parent hlookup
  generalize hv : (if (y.withData z).node.data.nodes = [] then (y.withData z).without
    else (y.withData z).closed) = v at hturns₁
  have hpointer : pointer v = pointer (inQueue x y z).node.data := by
    rw [← hv]
    split <;> rfl
  have hlift := hturns₁.lift hpointer hx hm.part
  have hafter := (hlift.toDoes.frame hm).after
  have haccount₁ := haccount.congr fun b hb => hlift.toChanges.same_rest hm hb
  obtain ⟨m₂, hunlink₂, hturns₂⟩ := deleteIfEmpty_does hlift.holds hafter.part
    (fun _ => pure (some x.address)) fun m'' hdoes => ⟨rfl, (haccount₁.congr fun b hb => by
      rw [footprint_closed, Multiset.add_assoc] at hafter
      exact hdoes.toChanges.same_rest hafter (Multiset.mem_add.2 (.inr hb))).read⟩
  refine ⟨m₁, m₂, _, hunlink, hunlink₂, hlift.trans hturns₂, ?_, ?_⟩
  · split <;> rfl
  · have hqueues : erase v = if (erase z).length = 0 then
        Memory.dictionaryDeleteNode ((erase y.closed).setData y.node.key (some (erase z)))
          y.node.key
        else (erase y.closed).setData y.node.key (some (erase z)) := by
      rw [← hv, erase_withData hykeys]
      exact (deleteIfEmpty_erase hykeys').symm
    rw [Memory.deleteIfEmpty, ← hqueues, erase_withData hxkeys]
    exact (deleteIfEmpty_erase (x := x.withData v) (keys_withData x v ▸ hxkeys)).symm

end Prune

/-! ## The scan of a queue -/

/-- What a function answers is the store that the list model says. -/
def Ends (m : BackendHeap) (x : PlacedAccounts) (answer : Except BackendFault BackendHeap)
    (s : AccountsSt) (told : List Callback) : Prop :=
  ∃ m' x', answer = .ok m' ∧ Turns m m' x x' told ∧ x'.address = x.address ∧ erase x' = s

theorem Ends.unchanged {m : BackendHeap} {x : PlacedAccounts} (hx : Holds m x)
    (hm : Owns m (footprint x)) : Ends m x (.ok m) (erase x) [] :=
  ⟨m, x, rfl, Turns.refl hx hm, rfl, rfl⟩

theorem dictionaryIter_of_succeeds {α : Type} {P : DictionaryNode α → Prop} {d : Dictionary α}
    (h : d.WellFormed P) {mem : IterMemory} (hmem : mem.Succeeds) (marker : Option String)
    (limit : Nat) :
    Memory.dictionaryIter mem (some d) marker limit =
      some (Dictionary.ofNodes (window DictionaryNode.key marker limit d.nodes)) := by
  rcases dictionaryIter_cases h mem marker limit with ⟨hfail, -⟩ | ⟨hfail, -⟩ | hwindow
  · exact absurd hmem hfail
  · exact absurd hmem hfail
  · exact hwindow

theorem processFilter_succeeds {outFilters : Option BurrowFilters} (hout : outFilters ≠ none)
    {inFilters : Option (Object BurrowFilters)} {filters : Option BurrowFilters}
    (h : Memory.processFilter outFilters inFilters = .ok filters) :
    ∃ refFilters, filters = some refFilters := by
  obtain ⟨block, rfl⟩ := Option.ne_none_iff_exists'.1 hout
  unfold Memory.processFilter at h
  dsimp only at h
  split at h
  · cases h
    exact ⟨_, rfl⟩
  · split at h
    · exact absurd h (by simp)
    · cases h
      exact ⟨_, rfl⟩

section ScanQueue

variable {m : BackendHeap} {inputs : ScanInputs} {cmd : BackendCommand} {scanType : ScanAction}
  {deleteAction : DeleteAction} {told : List Callback}

/-- The command in memory is this one of the list model, and the blocks of its strings are among
these. -/
structure ContainerCommand.Means (m : BackendHeap) (c : Multiset Block)
    (linked : ContainerCommand) (cmd : BackendCommand) : Prop where
  account : ReadsAs m c linked.account cmd.account
  queue : ReadsAs m c linked.queue cmd.queue
  filters : linked.filters = cmd.filters
  attributes : linked.attributes = cmd.attributes

theorem means_ofUser (m : BackendHeap) (c : Multiset Block) (cmd : BackendCommand) :
    (ofUser cmd).Means m c cmd :=
  ⟨readsAs_given m c _, readsAs_given m c _, rfl, rfl⟩

theorem ContainerCommand.Means.congr {m' : BackendHeap} {c : Multiset Block}
    {linked : ContainerCommand} (h : linked.Means m c cmd) (hsame : ∀ b ∈ c, Block.Same m m' b) :
    linked.Means m' c cmd :=
  ⟨h.account.congr hsame, h.queue.congr hsame, h.filters, h.attributes⟩

/-- The variables of `_scan_queue`. -/
def scanLocals (inputs : ScanInputs) (scanType : ScanAction) (deleteAction : DeleteAction)
    (attributes : UInt32 × UInt32) (refFilters : BurrowFilters) : ScanLocals where
  scanType := scanType
  deleteAction := deleteAction
  currentTime := inputs.time
  attributesTtl := attributes.1
  attributesHide := attributes.2
  matchHidden := refFilters.matchHidden

/-- What the list model does where the queue is found. -/
theorem scanQueue_found {s s' : AccountsSt} (hmem : inputs.AllocationsSucceed)
    {account : DictionaryNode QueuesSt} {queues : QueuesSt} {queue : DictionaryNode MessagesSt}
    {messages : MessagesSt} (haccount : Memory.dictionaryGet (some s) (some cmd.account) =
      some account) (hqueues : account.data = some queues)
    (hqueue : Memory.dictionaryGet (some queues) (some cmd.queue) = some queue)
    (hmessages : queue.data = some messages) {P : DictionaryNode BurrowMessage → Prop}
    (hwf : messages.WellFormed P)
    (h : Memory.scanQueue inputs cmd scanType deleteAction s = .ok (s', told)) :
    ∃ attributes refFilters messages',
      scanAttributes inputs.time cmd.attributes = .ok attributes ∧
      Memory.processFilter inputs.outFilters cmd.filters = .ok (some refFilters) ∧
      Memory.scanLoop (scanLocals inputs scanType deleteAction attributes refFilters)
          (window DictionaryNode.key refFilters.marker refFilters.limit.toNat messages.nodes)
          inputs.referenceAttributes messages = .ok (messages', told) ∧
      s' = Memory.deleteIfEmpty s cmd.account queue.key queues messages' := by
  rw [Memory.scanQueue, haccount] at h
  dsimp only at h
  rw [hqueues, hqueue] at h
  dsimp only at h
  split at h
  · exact absurd h (by simp)
  · next ttl hide hattributes =>
      split at h
      · exact absurd h (by simp)
      · next hfilter =>
          obtain ⟨_, hno⟩ := processFilter_succeeds hmem.1 hfilter
          exact absurd hno (by simp)
      · next refFilters hfilter =>
          rw [hmessages, dictionaryIter_of_succeeds hwf hmem.2] at h
          dsimp only [Dictionary.ofNodes] at h
          rw [List.take_length] at h
          split at h
          · exact absurd h (by simp)
          · next hloop =>
              cases h
              exact ⟨(ttl, hide), refFilters, _, hattributes, hfilter, hloop, rfl⟩

/-- The copied list of `_scan_queue`, with the filters and without. -/
theorem scanMessages_turns {z : PlacedMessages} {queue : Address} {c : Multiset Block}
    (hz : Holds m z) (hm : Owns m (footprint z + c))
    (hqueue : m.nodeData (some queue) = .ok (some z.address)) (hc : .node queue ∈ c)
    (hmem : inputs.AllocationsSucceed) {refFilters : BurrowFilters}
    (hfilter : Memory.processFilter inputs.outFilters cmd.filters = .ok (some refFilters))
    {locals : ScanLocals} {messages' : MessagesSt}
    (hspec : Memory.scanLoop locals
      (window DictionaryNode.key refFilters.marker refFilters.limit.toNat (erase z).nodes)
      inputs.referenceAttributes (erase z) = .ok (messages', told)) :
    ∃ m₁ m₂ dictionary m₃ m₄ m₅ z',
      processFilter inputs.outFilters cmd.filters m = .ok (some (m.next, refFilters), m₁) ∧
      m₁.nodeData (some queue) = .ok (some z.address) ∧
      m₁.iter inputs.iter (some z.address) refFilters.marker refFilters.limit =
        .ok (some m₁.next, m₂) ∧
      m₂.dataDictionary (some m₁.next) = .ok dictionary ∧
      scanLoop locals queue dictionary.length.toNat dictionary.first inputs.referenceAttributes m₂ =
        .ok m₃ ∧
      m₃.freeScratch m.next = .ok m₄ ∧ freeIterator m₁.next m₄ = .ok m₅ ∧
      Turns m m₅ z z' told ∧ z'.address = z.address ∧ erase z' = messages' := by
  obtain ⟨m₁, m₂, copied, hprocess, hfirst, hiter, hopen, hcopied⟩ :=
    openIterator_does hz hm.part hfilter hmem.2
  obtain ⟨dictionary, hdictionary, hlength, hhead⟩ := dataDictionary_eq hcopied.represents
  have hm₀ : Owns m (0 + (footprint z + c)) := by rwa [Multiset.zero_add]
  have hqueue₁ := (nodeData_congr (hfirst.toChanges.same_rest hm₀
    (Multiset.mem_add.2 (.inr hc)))).trans hqueue
  have hqueue₂ := (nodeData_congr (hopen.toChanges.same_rest hm₀
    (Multiset.mem_add.2 (.inr hc)))).trans hqueue
  have hz₂ : Holds m₂ z := hopen.toChanges.holds (by rw [Multiset.zero_add]; exact hm.part) hz
  have hm₂ : Owns m₂ (footprint z + (spine m₁.next copied + ({.scratch m.next} + c))) := by
    have hsplit : footprint z + (spine m₁.next copied + ({.scratch m.next} + c)) =
        {.scratch m.next} + spine m₁.next copied + (footprint z + c) := by abel
    rw [hsplit]
    exact (hopen.frame hm₀).after
  have hspec' : Memory.scanLoop locals
      ((window PlacedNode.key refFilters.marker refFilters.limit.toNat z.nodes).map
        PlacedNode.erased) inputs.referenceAttributes (erase z) = .ok (messages', told) := by
    rw [← hspec, window_erase]
  obtain ⟨m₃, z', hloop, hturns, haddress, herase⟩ := scanLoop_turns [] hz₂ hm₂
    hcopied.represents hcopied.cells (window_sublist ..) hqueue₂
    (Multiset.mem_add.2 (.inr hc)) hspec'
  have hcopied₃ := hcopied.congr fun b hb =>
    hturns.toChanges.same_rest hm₂ (Multiset.mem_add.2 (.inl hb))
  have hm₃ : Owns m₃ ({.scratch m.next} + spine m₁.next copied) := by
    have hrest := (hturns.toDoes.frame hm₂).after.rest
    have hsplit : spine m₁.next copied + ({.scratch m.next} + c) =
        {.scratch m.next} + spine m₁.next copied + c := by abel
    rw [hsplit] at hrest
    exact hrest.part
  obtain ⟨m₄, m₅, hfree, hiterator, hclose⟩ := closeIterator_does hcopied₃ hm₃
  refine ⟨m₁, m₂, dictionary, m₃, m₄, m₅, z', hprocess, hqueue₁, hiter, hdictionary, ?_, hfree,
    hiterator, Turns.during hm.part hopen hturns hclose, haddress, herase⟩
  rw [hlength, hhead, Int.toNat_natCast]
  exact hloop

/-- **`_scan_queue`**. The strings of the command lie apart from the store. -/
theorem scanQueue_turns {x : PlacedAccounts} {c : Multiset Block} {linked : ContainerCommand}
    (hx : Holds m x) (hm : Owns m (footprint x + c)) (hcmd : linked.Means m c cmd)
    (hmem : inputs.AllocationsSucceed) {s : AccountsSt}
    (hspec : Memory.scanQueue inputs cmd scanType deleteAction (erase x) = .ok (s, told)) :
    Ends m x (scanQueue x.address inputs linked scanType deleteAction m) s told := by
  rcases search_cases hx hcmd.account.read with
    ⟨hget, hget'⟩ | ⟨x, rfl, haccount, hget, hget'⟩
  · rw [Memory.scanQueue, hget] at hspec
    cases hspec
    rw [scanQueue, hget']
    exact Ends.unchanged hx hm.part
  obtain ⟨hopened, hdata⟩ := holds_opened hx
  have hm' := owns_opened hm.part
  have hread : m.nodeData (some x.node.node) = .ok (some x.node.data.address) :=
    nodeData_opened hopened
  rcases search_cases hdata hcmd.queue.read with
    ⟨hgetQueue, hgetQueue'⟩ | ⟨y, hy, hqueue, hgetQueue, hgetQueue'⟩
  · rw [Memory.scanQueue, hget] at hspec
    dsimp only [PlacedNode.erased] at hspec
    rw [hgetQueue] at hspec
    cases hspec
    rw [scanQueue, hget', ok_bind]
    dsimp only
    rw [hread, ok_bind, hgetQueue']
    exact Ends.unchanged hx hm.part
  rw [← hy] at hdata hm'
  obtain ⟨hopenedQueue, hmessages⟩ := holds_opened hdata
  have hsplit : footprint y.closed + around x =
      footprint y.node.data + (around y + around x) := by
    rw [footprint_closed, Multiset.add_assoc]
  have hreadQueue : m.nodeData (some y.node.node) = .ok (some y.node.data.address) :=
    nodeData_opened hopenedQueue
  obtain ⟨attributes, refFilters, messages', hattributes, hfilter, hloop, rfl⟩ :=
    scanQueue_found hmem hget rfl hgetQueue rfl
      (erase_wellFormed (Placed.Holds.keys hmessages)) hspec
  obtain ⟨m₁, m₂, dictionary, m₃, m₄, m₅, z, hprocess, hread₁, hiter, hdictionary, hscan, hfree,
    hiterator, hturns, haddress, rfl⟩ := scanMessages_turns hmessages (hsplit ▸ hm') hreadQueue
      (Multiset.mem_add.2 (.inl (node_mem_around y))) hmem hfilter hloop
  have hlift := hturns.lift haddress hdata hm'.part
  rw [hy] at hlift
  have hqueueAddress : y.address = x.node.data.address := congrArg Placed.address hy
  have hlift := hlift.lift hqueueAddress hx hm.part
  have hcmd₅ := hcmd.congr fun b hb => hlift.toChanges.same_rest hm hb
  have hqueueData : Holds m₅ (y.withData z) :=
    (holds_opened (holds_opened (x := inQueue x y z) hlift.holds).2).1
  obtain ⟨node, hnode, hkey⟩ : ∃ node,
      m₅.dictionaryRead (·.readNode (some y.node.node)) = .ok node ∧
        node.key = y.node.keyAt := by
    obtain ⟨node, hnode, hkey, -⟩ := readNode_opened hqueueData
    exact ⟨node, hnode, hkey⟩
  have haccountKey : ReadsAs m₅ c linked.account x.node.key := haccount ▸ hcmd₅.account
  obtain ⟨m₆, m₇, x', hprunedQueue, hprunedAccount, hpruned, haddress', herase⟩ :=
    prune_turns (x := x) (y := y) (z := z) hlift.holds (hlift.toDoes.frame hm).after
      (fun m => do m.nodeData (← m.get (some x.closed.address) linked.account))
      (.block y.node.keyAt)
      (fun m' hm' hy' hsame => by
        have hlookup := get_opened hm' (haccountKey.congr hsame).read
        refine ⟨?_, readKey_opened (x := y.withData z) hy'⟩
        change (m'.get (some (inQueue x y z).address) linked.account >>= _) = _
        rw [hlookup, ok_bind, nodeData_opened hm']
        rfl)
      haccountKey
  refine ⟨m₇, x', ?_, ?_, haddress', ?_⟩
  · rw [scanQueue, hget', ok_bind]
    dsimp only
    rw [hread, ok_bind, hgetQueue', ok_bind]
    dsimp only
    rw [hcmd.attributes, hcmd.filters, hattributes, fromArguments, Except.mapError, ok_bind,
      hprocess, ok_bind]
    dsimp only
    rw [hread₁, ok_bind, hiter, ok_bind]
    dsimp only
    rw [hdictionary, ok_bind]
    rw [scanLocals] at hscan
    rw [hscan, ok_bind, hfree, ok_bind, hiterator, ok_bind, hnode, ok_bind, hkey,
      hprunedQueue, ok_bind]
    exact hprunedAccount
  · exact List.append_nil told ▸ hlift.trans hpruned
  · rw [herase, haccount, hy]
    rfl

end ScanQueue

end Burrow.Memory.Chained
