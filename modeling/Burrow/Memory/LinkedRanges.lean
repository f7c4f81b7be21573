import Burrow.Memory.LinkedRefinement

/-!
# Ranges of a dictionary

`dictionary_delete` takes out the nodes from a key on, as many as it is told
(`dictionaryDelete_updates`). `dictionary_iter` copies such nodes to a dictionary of
their own (`dictionaryIter_updates`). Both walk along `next` from the node with the key,
or from the first node where there is none (`dictionaryGet_start`).
-/

set_option autoImplicit false

namespace Burrow.Memory.Chained

open IntrusiveList KeyedList Renewal

/-- How many of the nodes from the start on `u_bound` stands for. -/
def counted (uBound : Int) (rest : Nat) : Nat :=
  if uBound < 0 then rest else min uBound.toNat rest

theorem counted_zero (rest : Nat) : counted 0 rest = 0 := by
  rw [counted, if_neg (by decide)]
  exact Nat.zero_min rest

/-- One node counts one. -/
theorem counted_succ {uBound : Int} (h : uBound ≠ 0) (rest : Nat) :
    counted uBound (rest + 1) = counted (uBound - 1) rest + 1 := by
  unfold counted
  by_cases hneg : uBound < 0
  · rw [if_pos hneg, if_pos (by omega)]
  · rw [if_neg hneg, if_neg (by omega)]
    omega

section Walk

variable {heap : Heap} {self : Address} {l : List Cell}

/-- Where the chain begins. -/
theorem Heap.Represents.first_eq (h : heap.Represents self l) :
    (heap.pointers self).fd none = (addresses l).head? := by
  have hlinked := h.ring.linked
  cases l with
  | nil => exact hlinked
  | cons c rest => exact hlinked.1

/-- What follows a node. -/
theorem Heap.Represents.next_eq {pre post : List Cell} {c : Cell}
    (h : heap.Represents self (pre ++ c :: post)) :
    (heap.pointers self).fd (some c.node) = (addresses post).head? := by
  have hlinked := h.ring.linked
  rw [addresses_append] at hlinked
  have hsuffix : Linked (heap.pointers self) (some c.node) (addresses post) := hlinked.suffix
  cases post with
  | nil => exact hsuffix
  | cons c' post => exact hsuffix.1

theorem before_startAt (marker : Option String) (l : List Cell) :
    before Cell.key marker l ++ startAt Cell.key marker l = l := by
  have hsplit := before_window_after Cell.key marker 0 l
  rw [after, if_pos rfl, List.append_nil, window, if_pos rfl] at hsplit
  exact hsplit

/-- The node that a range begins with: the one with the key, or the first one. -/
theorem dictionaryGet_start (h : heap.Represents self l) (key : Option String) :
    ∃ found, dictionaryGet (some self) (key.map .given) heap = .ok found ∧
      found.or ((heap.pointers self).fd none) = (addresses (startAt Cell.key key l)).head? := by
  cases key with
  | none => exact ⟨none, rfl, h.first_eq⟩
  | some k =>
      refine ⟨_, dictionaryGet_eq h (readChars_given heap k rfl), ?_⟩
      rw [← chainFrom_head?, startAt]
      cases hchain : chainFrom Cell.key k l with
      | nil =>
          rw [if_pos rfl]
          exact h.first_eq
      | cons c rest =>
          rw [if_neg (List.cons_ne_nil c rest)]
          rfl

end Walk

/-! ## Deleting -/

/-- No node in front of this one has its key. -/
theorem key_not_mem_front {pre post : List Cell} {c : Cell}
    (hkeys : ((pre ++ c :: post).map Cell.key).Nodup) : c.key ∉ pre.map Cell.key := by
  rw [List.map_append, List.map_cons, List.nodup_append] at hkeys
  intro hmem
  exact hkeys.2.2 _ hmem _ List.mem_cons_self rfl

theorem nodup_keys_without {pre post : List Cell} {c : Cell}
    (hkeys : ((pre ++ c :: post).map Cell.key).Nodup) : ((pre ++ post).map Cell.key).Nodup :=
  hkeys.sublist (((List.sublist_cons_self c post).append_left pre).map Cell.key)

section Delete

variable {heap : Heap} {self : Address} {l : List Cell}

/-- The loop takes out the nodes it passes. -/
theorem dictionaryDeleteLoop_updates {pre post : List Cell}
    (h : heap.Represents self (pre ++ post)) (hkeys : ((pre ++ post).map Cell.key).Nodup)
    {uBound : Int} (hmin : intMin ≤ uBound)
    (hrange : 0 ≤ uBound ∨ intMin ≤ uBound - post.length) :
    ∃ heap', dictionaryDeleteLoop self (uBound - intMin + 1).toNat uBound
        (addresses post).head? heap = .ok heap' ∧
      Updates heap heap' self (pre ++ post) (pre ++ post.drop (counted uBound post.length)) := by
  have htests : ∀ {n : Int}, intMin ≤ n →
      (n - intMin + 1).toNat = (n - intMin).toNat + 1 := fun hn => by omega
  induction post generalizing heap uBound with
  | nil =>
      refine ⟨heap, ?_, ?_⟩
      · rw [htests hmin, dictionaryDeleteLoop, if_pos (.inl rfl)]
      · rw [List.drop_nil]
        exact Updates.refl h
  | cons c post ih =>
      by_cases hzero : uBound = 0
      · refine ⟨heap, ?_, ?_⟩
        · rw [htests hmin, dictionaryDeleteLoop, if_pos (.inr hzero)]
        · rw [hzero, counted_zero, List.drop_zero]
          exact Updates.refl h
      · obtain ⟨node, hnode, hkey, -, hnext, -⟩ :=
          h.node (List.mem_append_right pre List.mem_cons_self)
        rw [List.length_cons, Int.natCast_succ] at hrange
        obtain ⟨heap₁, hdelete, hupdates⟩ := dictionaryDeleteNode_updates h
          (h.readKey (List.mem_append_right pre List.mem_cons_self))
        rw [eraseP_split Cell.key rfl (key_not_mem_front hkeys)] at hupdates
        have hlt : intMin < uBound := by
          rcases hrange with hrange | hrange
          · rw [intMin]
            omega
          · omega
        have hdecrement : decrement uBound = .ok (uBound - 1) := if_pos hlt
        obtain ⟨heap₂, hloop, hupdates₂⟩ := ih hupdates.represents (nodup_keys_without hkeys)
          (show intMin ≤ uBound - 1 by omega) (by omega)
        refine ⟨heap₂, ?_, ?_⟩
        · have hcurrent : (addresses (c :: post)).head? = some c.node := rfl
          have hrest : (uBound - 1 - intMin + 1).toNat = (uBound - intMin).toNat := by omega
          rw [htests hmin, dictionaryDeleteLoop, hcurrent,
            if_neg (not_or.2 ⟨Option.some_ne_none _, hzero⟩), readNode_of_nodes hnode, ok_bind,
            hkey, hdelete, ok_bind, hdecrement, ok_bind, hnext, h.next_eq, ← hrest]
          exact hloop
        · rw [List.length_cons, counted_succ hzero, List.drop_succ_cons]
          exact hupdates.trans hupdates₂

/-- **`dictionary_delete`** takes out consecutive nodes. -/
theorem dictionaryDelete_updates (h : heap.Represents self l) (hkeys : (l.map Cell.key).Nodup)
    (key : Option String) {uBound : Int} (hmin : intMin ≤ uBound)
    (hrange : 0 ≤ uBound ∨ intMin ≤ uBound - (startAt Cell.key key l).length) :
    ∃ heap', dictionaryDelete (some self) (key.map .given) uBound heap = .ok heap' ∧
      Updates heap heap' self l (before Cell.key key l ++
        (startAt Cell.key key l).drop (counted uBound (startAt Cell.key key l).length)) := by
  obtain ⟨dictionary, hdictionary, hlength, hfirst, -⟩ := h.dictionary
  rw [dictionaryDelete, readDictionary_of_dictionaries hdictionary, ok_bind]
  by_cases hempty : dictionary.length = 0
  · have hnil : l = [] := List.length_eq_zero_iff.1 (by rw [hlength] at hempty; omega)
    rw [if_pos hempty]
    refine ⟨heap, rfl, ?_⟩
    have hstart : startAt Cell.key key l = [] := by
      rw [hnil]
      exact List.suffix_nil.1 (startAt_suffix Cell.key key [])
    have hbefore := before_startAt key l
    rw [hstart, List.append_nil] at hbefore
    rw [hstart, List.drop_nil, List.append_nil, hbefore]
    exact Updates.refl h
  · obtain ⟨found, hget, hstart⟩ := dictionaryGet_start h key
    have hsplit := before_startAt key l
    have h' := h
    have hkeys' := hkeys
    rw [← hsplit] at h' hkeys'
    obtain ⟨heap', hloop, hupdates⟩ := dictionaryDeleteLoop_updates h' hkeys' hmin hrange
    rw [if_neg hempty, hget, ok_bind, hfirst, hstart]
    rw [hsplit] at hupdates
    exact ⟨heap', hloop, hupdates⟩

end Delete

/-! ## Copying -/

/-- The blocks that the answers of `malloc` lead to, for a node and its key each, are made to be
copies of these nodes. -/
def copyCells (blocks : List (Address × Address)) (l : List Cell) : List Cell :=
  List.zipWith (fun b c => ⟨b.1, b.2, c.content⟩) blocks l

/-- Answers of `malloc` that are these addresses. -/
def granted (blocks : List (Address × Address)) : List AddBlocks :=
  blocks.map fun b => ⟨some b.1, some b.2⟩

/-- Nothing lies at these addresses, and no two of them are the same. -/
structure Heap.Offers (heap : Heap) (blocks : List (Address × Address)) : Prop where
  nodes : ∀ b ∈ blocks, heap.nodes b.1 = none
  texts : ∀ b ∈ blocks, heap.texts b.2 = none
  nodup_nodes : (blocks.map Prod.fst).Nodup
  nodup_texts : (blocks.map Prod.snd).Nodup

section Iter

variable {heap : Heap} {self dictionary : Address} {l : List Cell}

/-- The copies have the keys and the data of the nodes, in their order. -/
theorem map_copyCells {blocks : List (Address × Address)} {l : List Cell}
    (h : l.length ≤ blocks.length) :
    (copyCells blocks l).map Cell.content = l.map Cell.content := by
  induction blocks generalizing l with
  | nil =>
      rw [List.length_eq_zero_iff.1 (Nat.le_zero.1 h)]
      rfl
  | cons b bs ih =>
      cases l with
      | nil => rfl
      | cons c rest => exact congrArg (c.content :: ·) (ih (Nat.le_of_succ_le_succ h))

/-- A copy of a node is appended to the new dictionary; the dictionary that is copied from
stays as it was, and so does the memory that is not in use. -/
theorem copyCell_updates {l copied : List Cell} (h : heap.Represents self l)
    (hcopied : heap.Represents dictionary copied) (hne : self ≠ dictionary)
    (hapart : Apart l copied) {b : Address × Address} {blocks : List (Address × Address)}
    (hoffers : heap.Offers (b :: blocks)) (hroom : (copied.length : Int) < intMax) {c : Cell}
    (hc : c ∈ l) :
    ∃ heap', dictionaryAdd ⟨some b.1, some b.2⟩ (some dictionary) (.block c.keyAt)
        c.content.data heap = .ok (some b.1, heap') ∧
      Updates heap heap' dictionary copied (copied ++ [⟨b.1, b.2, c.content⟩]) ∧
      heap'.Represents self l ∧ Apart l (copied ++ [⟨b.1, b.2, c.content⟩]) ∧
      heap'.Offers blocks := by
  obtain ⟨heap', hadd, hupdates⟩ := dictionaryAdd_updates hcopied
    (hoffers.nodes b List.mem_cons_self) (hoffers.texts b List.mem_cons_self) hroom
    (h.readKey hc) c.content.data
  have hnodes := List.nodup_cons.1 hoffers.nodup_nodes
  have htexts := List.nodup_cons.1 hoffers.nodup_texts
  refine ⟨heap', hadd, hupdates, hupdates.other hne h hapart, hupdates.apart h hapart,
    ⟨?_, ?_, hnodes.2, htexts.2⟩⟩
  · intro b' hb'
    have hfree := hoffers.nodes b' (List.mem_cons_of_mem b hb')
    refine hupdates.nodes.freed b'.1 (fun hmem => ?_) (.inr hfree)
    rw [addresses_append] at hmem
    rcases List.mem_append.1 hmem with hold | hnew
    · exact hcopied.not_mem_of_none hfree hold
    · have heq : b'.1 = b.1 := List.mem_singleton.1 hnew
      exact hnodes.1 (heq ▸ List.mem_map_of_mem hb')
  · intro b' hb'
    have hfree := hoffers.texts b' (List.mem_cons_of_mem b hb')
    refine hupdates.texts.freed b'.2 (fun hmem => ?_) (.inr hfree)
    rw [keyAddresses_append] at hmem
    rcases List.mem_append.1 hmem with hold | hnew
    · exact hcopied.not_mem_of_noText hfree hold
    · have heq : b'.2 = b.2 := List.mem_singleton.1 hnew
      exact htexts.1 (heq ▸ List.mem_map_of_mem hb')

theorem copyCells_nil (blocks : List (Address × Address)) : copyCells blocks [] = [] := by
  rw [copyCells, List.zipWith_nil_right]

/-- The loop appends copies of the nodes it passes to the new dictionary. -/
theorem dictionaryIterLoop_updates {pre post copied : List Cell}
    (h : heap.Represents self (pre ++ post)) (hcopied : heap.Represents dictionary copied)
    (hne : self ≠ dictionary) (hapart : Apart (pre ++ post) copied) {n : Nat}
    {blocks : List (Address × Address)} (hoffers : heap.Offers blocks)
    (henough : (post.take n).length ≤ blocks.length)
    (hroom : ((copied.length + (post.take n).length : Nat) : Int) ≤ intMax) :
    ∃ heap', dictionaryIterLoop dictionary n (granted blocks) (addresses post).head? heap =
        .ok heap' ∧
      Updates heap heap' dictionary copied (copied ++ copyCells blocks (post.take n)) := by
  induction post generalizing heap pre copied n blocks with
  | nil =>
      refine ⟨heap, ?_, ?_⟩
      · cases n with
        | zero => rfl
        | succ n => rfl
      · rw [List.take_nil, copyCells_nil, List.append_nil]
        exact Updates.refl hcopied
  | cons c post ih =>
      cases n with
      | zero =>
          refine ⟨heap, rfl, ?_⟩
          rw [List.take_zero, copyCells_nil, List.append_nil]
          exact Updates.refl hcopied
      | succ n =>
          rw [List.take_succ_cons, List.length_cons] at henough hroom
          cases blocks with
          | nil => exact absurd henough (by simp)
          | cons b bs =>
              have hc : c ∈ pre ++ c :: post := List.mem_append_right pre List.mem_cons_self
              obtain ⟨node, hnode, hkey, hdata, -, -⟩ := h.node hc
              obtain ⟨heap₁, hadd, hupdates, h₁, hapart₁, hoffers₁⟩ :=
                copyCell_updates h hcopied hne hapart hoffers (by omega) hc
              obtain ⟨node₁, hnode₁, -, -, hnext₁, -⟩ := h₁.node hc
              have hsplit : pre ++ c :: post = pre ++ [c] ++ post := by
                rw [List.append_assoc, List.singleton_append]
              obtain ⟨heap₂, hloop, hupdates₂⟩ := ih (hsplit ▸ h₁) hupdates.represents
                (hsplit ▸ hapart₁) hoffers₁ (Nat.le_of_succ_le_succ henough)
                (by rw [List.length_append, List.length_singleton]; omega)
              refine ⟨heap₂, ?_, ?_⟩
              · have hcurrent : (addresses (c :: post)).head? = some c.node := rfl
                have hblocks : (granted (b :: bs)).headD ⟨none, none⟩ = ⟨some b.1, some b.2⟩ := rfl
                rw [dictionaryIterLoop, hcurrent, if_neg (Option.some_ne_none _),
                  readNode_of_nodes hnode, ok_bind, hblocks, hkey, hdata, hadd, ok_bind]
                dsimp only
                rw [readNode_of_nodes hnode₁, ok_bind, hnext₁, h₁.next_eq]
                exact hloop
              · have hcopy : copyCells (b :: bs) ((c :: post).take (n + 1)) =
                    ⟨b.1, b.2, c.content⟩ :: copyCells bs (post.take n) := rfl
                have hassoc : copied ++ ⟨b.1, b.2, c.content⟩ :: copyCells bs (post.take n) =
                    copied ++ [⟨b.1, b.2, c.content⟩] ++ copyCells bs (post.take n) := by
                  rw [List.append_assoc, List.singleton_append]
                rw [hcopy, hassoc]
                exact hupdates.trans hupdates₂

theorem represents_new (heap : Heap) (d : Address) :
    (heap.writeDictionary d DictionarySt.new).Represents d [] := by
  refine ⟨by rw [writeDictionary_self]; rfl, ⟨?_, ?_⟩, ?_, ?_, List.nodup_nil⟩
  · change ((heap.writeDictionary d DictionarySt.new).dictionaries d).bind _ = none
    rw [writeDictionary_self]
    rfl
  · rw [pointers_bk_none, writeDictionary_self]
    rfl
  · intro c hc
    exact absurd hc List.not_mem_nil
  · intro c hc
    exact absurd hc List.not_mem_nil

/-- **`dictionary_iter`** copies a window of the nodes to a new dictionary. -/
theorem dictionaryIter_updates (h : heap.Represents self l) (hsize : (l.length : Int) ≤ intMax)
    (key : Option String) (uBound : UInt32) (hunused : heap.dictionaries dictionary = none)
    {blocks : List (Address × Address)} (hoffers : heap.Offers blocks)
    (henough : (window Cell.key key uBound.toNat l).length ≤ blocks.length) :
    ∃ heap', dictionaryIter (some dictionary) (granted blocks) (some self) (key.map .given)
        uBound heap = .ok (some dictionary, heap') ∧
      Updates (heap.writeDictionary dictionary DictionarySt.new) heap' dictionary []
        (copyCells blocks (window Cell.key key uBound.toNat l)) := by
  have hne : self ≠ dictionary := by
    rintro rfl
    obtain ⟨source, hsource, -⟩ := h.dictionary
    exact absurd (hunused.symm.trans hsource) (by simp)
  have h₀ : (heap.writeDictionary dictionary DictionarySt.new).Represents self l :=
    h.congr (writeDictionary_of_ne hne _ heap) (fun _ _ => rfl) fun _ _ => rfl
  have hoffers₀ : (heap.writeDictionary dictionary DictionarySt.new).Offers blocks :=
    ⟨hoffers.nodes, hoffers.texts, hoffers.nodup_nodes, hoffers.nodup_texts⟩
  obtain ⟨found, hget, hstart⟩ := dictionaryGet_start h₀ key
  obtain ⟨source, hsource, hlength, hfirst, -⟩ := h₀.dictionary
  have hsplit := before_startAt key l
  have hrest : (startAt Cell.key key l).length ≤ l.length :=
    (startAt_suffix Cell.key key l).length_le
  have hofInt : (UInt32.ofInt source.length).toNat = l.length := by
    rw [hlength, UInt32.ofInt, UInt32.toNat_ofNat']
    rw [intMax] at hsize
    omega
  have hcount : (startAt Cell.key key l).take
      (if uBound = 0 then UInt32.ofInt source.length else uBound).toNat =
        window Cell.key key uBound.toNat l := by
    have hiff : uBound = 0 ↔ uBound.toNat = 0 := UInt32.toNat_inj.symm
    rw [window]
    by_cases hzero : uBound = 0
    · rw [if_pos hzero, if_pos (hiff.1 hzero), hofInt, List.take_of_length_le hrest]
    · rw [if_neg hzero, if_neg (mt hiff.2 hzero)]
  have hwindow : (window Cell.key key uBound.toNat l).length ≤ l.length :=
    (window_sublist Cell.key key uBound.toNat l).length_le
  rw [← hcount] at henough hwindow ⊢
  rw [← hsplit] at h₀
  obtain ⟨heap', hloop, hupdates⟩ := dictionaryIterLoop_updates h₀
    (represents_new heap dictionary) hne (apart_nil _) hoffers₀ henough
    (by rw [List.length_nil]; omega)
  refine ⟨heap', ?_, hupdates⟩
  have hread := readDictionary_of_dictionaries hsource
  change (dictionaryGet (some self) (key.map .given)
    (heap.writeDictionary dictionary DictionarySt.new) >>= _) = _
  rw [hget, ok_bind, hread, ok_bind]
  dsimp only
  rw [hfirst, hstart, hloop]
  rfl

end Iter

end Burrow.Memory.Chained
