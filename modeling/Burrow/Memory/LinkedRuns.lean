import Burrow.Memory.LinkedRanges

/-!
# Runs of the dictionary functions

A dictionary is an ordered association list. `DictionaryCall.spec` says what each
function of `dictionary.c` is for, on lists of cells; `DictionaryCall.run` is the call in
memory. Whatever calls are made on whatever dictionaries, and wherever `malloc` finds
room for the nodes, the chains of nodes are the lists (`dictionary_refines`).

An `int` counts the nodes, and `u_bound` counts down from a negative value too; calls
that take one of them out of its range are refused by the specification.
-/

set_option autoImplicit false

namespace Burrow.Memory.Chained

open IntrusiveList KeyedList Renewal

/-- A call, with the addresses that `malloc` answers. -/
inductive DictionaryCall where
  | init (dest : Option Address) (alloc : Address)
  | add (self : Address) (key : String) (data : Option Address) (node keyAt : Address)
  | get (self : Address) (key : Option String)
  | create (self : Address) (key : String) (node keyAt messages : Address)
  | deleteNode (self : Address) (key : Option String)
  | delete (self : Address) (lBoundKey : Option String) (uBound : Int32)
  | iter (self : Address) (lBoundKey : Option String) (uBound : UInt32) (alloc : Address)
      (blocks : List (Address × Address))
deriving DecidableEq, Repr

/-- What the call returns, and the memory behind it. -/
def DictionaryCall.run (heap : Heap) :
    DictionaryCall → Except DictionaryFault (Option Address × Heap)
  | .init dest alloc => .ok (dictionaryInit dest (some alloc) heap)
  | .add self key data node keyAt =>
      dictionaryAdd ⟨some node, some keyAt⟩ (some self) (.given key) data heap
  | .get self key => (dictionaryGet (some self) (key.map .given) heap).map fun node => (node, heap)
  | .create self key node keyAt messages =>
      dictionaryGetCreate ⟨some node, some keyAt⟩ (some messages) (some self)
        (some (.given key)) heap
  | .deleteNode self key =>
      (dictionaryDeleteNode (some self) (key.map .given) heap).map fun heap => (none, heap)
  | .delete self lBoundKey uBound =>
      (dictionaryDelete (some self) (lBoundKey.map .given) uBound.toInt heap).map fun heap =>
        (none, heap)
  | .iter self lBoundKey uBound alloc blocks =>
      dictionaryIter (some alloc) (granted blocks) (some self) (lBoundKey.map .given) uBound heap

def dictionaryStep (call : DictionaryCall) (heap : Heap) : Except DictionaryFault Heap :=
  (call.run heap).map Prod.snd

def dictionaryReturns (call : DictionaryCall) (heap : Heap) : List (Option Address) :=
  match call.run heap with
  | .ok (returned, _) => [returned]
  | .error _ => []

/-- Memory that is not in use. -/
def Heap.Unused (heap : Heap) (a : Address) : Prop :=
  heap.nodes a = none ∧ heap.dictionaries a = none ∧ heap.texts a = none

instance (heap : Heap) (a : Address) : Decidable (heap.Unused a) :=
  inferInstanceAs (Decidable (_ ∧ _))

/-- What `malloc` answers in the call. -/
def DictionaryCall.answers : DictionaryCall → List Address
  | .init dest alloc => if dest = none then [alloc] else []
  | .add _ _ _ node keyAt => [node, keyAt]
  | .create _ _ node keyAt messages => [node, keyAt, messages]
  | .iter _ _ _ alloc blocks => alloc :: (blocks.map Prod.fst ++ blocks.map Prod.snd)
  | .get .. | .deleteNode .. | .delete .. => []

/-- What `malloc` answers is not in use. -/
def DictionaryCall.Fresh (call : DictionaryCall) (heap : Heap) : Prop :=
  (∀ a ∈ call.answers, heap.Unused a) ∧ call.answers.Nodup

instance (call : DictionaryCall) (heap : Heap) : Decidable (call.Fresh heap) :=
  inferInstanceAs (Decidable (_ ∧ _))

/-! ## The specification -/

/-- The dictionaries, each a list of cells. -/
abbrev World := Address → Option (List Cell)

/-- Why a call is not one that something is said about. -/
inductive Refused where
  | noDictionary
  | keyPresent
  | noMemory
  /-- an `int` would leave its range -/
  | overflow
deriving DecidableEq, Repr

/-- The address of the node with the key. -/
def nodeWith (key : Option String) (l : List Cell) : Option Address :=
  key.bind fun k => (l.find? (hasKey Cell.key k)).map Cell.node

/-- The list without the node with the key. -/
def withoutKey (key : Option String) (l : List Cell) : List Cell :=
  match key with
  | none => l
  | some k => l.eraseP (hasKey Cell.key k)

/-- The list without the nodes that `u_bound` counts, from the one with the key on. -/
def withoutRange (lBoundKey : Option String) (uBound : Int) (l : List Cell) : List Cell :=
  before Cell.key lBoundKey l ++
    (startAt Cell.key lBoundKey l).drop
      (counted uBound (startAt Cell.key lBoundKey l).length)

/-- The call on the list of the dictionary: what it returns, and the dictionaries. -/
def DictionaryCall.onList (world : World) (l : List Cell) :
    DictionaryCall → Except Refused (Option Address × World)
  | .init dest alloc =>
      .ok (some (dest.getD alloc), Function.update world (dest.getD alloc) (some []))
  | .add self key data node keyAt =>
      if key ∈ l.map Cell.key then .error .keyPresent
      else if (l.length : Int) < intMax then
        .ok (some node,
          Function.update world self (some (l ++ [⟨node, keyAt, { key := key, data := data }⟩])))
      else .error .overflow
  | .get _ key => .ok (nodeWith key l, world)
  | .create self key node keyAt messages =>
      match nodeWith (some key) l with
      | some found => .ok (some found, world)
      | none =>
          if (l.length : Int) < intMax then
            .ok (some node, Function.update (Function.update world messages (some [])) self
              (some (l ++ [⟨node, keyAt, { key := key, data := some messages }⟩])))
          else .error .overflow
  | .deleteNode self key => .ok (none, Function.update world self (some (withoutKey key l)))
  | .delete self lBoundKey uBound =>
      if 0 ≤ uBound.toInt ∨ intMin ≤ uBound.toInt - (startAt Cell.key lBoundKey l).length then
        .ok (none, Function.update world self (some (withoutRange lBoundKey uBound.toInt l)))
      else .error .overflow
  | .iter _ lBoundKey uBound alloc blocks =>
      if (window Cell.key lBoundKey uBound.toNat l).length ≤ blocks.length then
        .ok (some alloc, Function.update world alloc
          (some (copyCells blocks (window Cell.key lBoundKey uBound.toNat l))))
      else .error .noMemory

/-- The dictionary that a call is made on. -/
def DictionaryCall.self? : DictionaryCall → Option Address
  | .init .. => none
  | .add self .. | .get self _ | .create self .. | .deleteNode self _ | .delete self ..
  | .iter self .. => some self

/-- **What a call is for.** -/
def DictionaryCall.spec (world : World) (call : DictionaryCall) :
    Except Refused (Option Address × World) :=
  match call.self? with
  | none => call.onList world []
  | some self =>
      match world self with
      | none => .error .noDictionary
      | some l => call.onList world l

def specStep (call : DictionaryCall) (world : World) : Except Refused World :=
  (call.spec world).map Prod.snd

def specReturns (call : DictionaryCall) (world : World) : List (Option Address) :=
  match call.spec world with
  | .ok (returned, _) => [returned]
  | .error _ => []

section OnList

variable {world world' : World} {l : List Cell} {self : Address} {returned : Option Address}

theorem onList_add {key : String} {data : Option Address} {node keyAt : Address}
    (h : (DictionaryCall.add self key data node keyAt).onList world l = .ok (returned, world')) :
    key ∉ l.map Cell.key ∧ (l.length : Int) < intMax ∧ returned = some node ∧
      world' = Function.update world self
        (some (l ++ [⟨node, keyAt, { key := key, data := data }⟩])) := by
  rw [DictionaryCall.onList] at h
  split at h
  · exact absurd h (by simp)
  · next hno =>
      split at h
      · next hroom =>
          cases h
          exact ⟨hno, hroom, rfl, rfl⟩
      · exact absurd h (by simp)

/-- The node is there, or it is made. -/
theorem onList_create {key : String} {node keyAt messages : Address}
    (h : (DictionaryCall.create self key node keyAt messages).onList world l =
      .ok (returned, world')) :
    (∃ found, nodeWith (some key) l = some found ∧ returned = some found ∧ world' = world) ∨
      nodeWith (some key) l = none ∧ (l.length : Int) < intMax ∧ returned = some node ∧
        world' = Function.update (Function.update world messages (some [])) self
          (some (l ++ [⟨node, keyAt, { key := key, data := some messages }⟩])) := by
  rw [DictionaryCall.onList] at h
  split at h
  · next found hfound =>
      cases h
      exact .inl ⟨found, hfound, rfl, rfl⟩
  · next hno =>
      split at h
      · next hroom =>
          cases h
          exact .inr ⟨hno, hroom, rfl, rfl⟩
      · exact absurd h (by simp)

theorem onList_delete {lBoundKey : Option String} {uBound : Int32}
    (h : (DictionaryCall.delete self lBoundKey uBound).onList world l = .ok (returned, world')) :
    (0 ≤ uBound.toInt ∨ intMin ≤ uBound.toInt - (startAt Cell.key lBoundKey l).length) ∧
      returned = none ∧
      world' = Function.update world self (some (withoutRange lBoundKey uBound.toInt l)) := by
  rw [DictionaryCall.onList] at h
  split at h
  · next hrange =>
      cases h
      exact ⟨hrange, rfl, rfl⟩
  · exact absurd h (by simp)

theorem onList_iter {lBoundKey : Option String} {uBound : UInt32} {alloc : Address}
    {blocks : List (Address × Address)}
    (h : (DictionaryCall.iter self lBoundKey uBound alloc blocks).onList world l =
      .ok (returned, world')) :
    (window Cell.key lBoundKey uBound.toNat l).length ≤ blocks.length ∧ returned = some alloc ∧
      world' = Function.update world alloc
        (some (copyCells blocks (window Cell.key lBoundKey uBound.toNat l))) := by
  rw [DictionaryCall.onList] at h
  split at h
  · next henough =>
      cases h
      exact ⟨henough, rfl, rfl⟩
  · exact absurd h (by simp)

/-- A call on a dictionary is one on its list. -/
theorem spec_self {call : DictionaryCall} (hself : call.self? = some self)
    (h : call.spec world = .ok (returned, world')) :
    ∃ l, world self = some l ∧ call.onList world l = .ok (returned, world') := by
  rw [DictionaryCall.spec, hself] at h
  dsimp only at h
  cases hl : world self with
  | none =>
      rw [hl] at h
      exact absurd h (by simp)
  | some l =>
      rw [hl] at h
      exact ⟨l, rfl, h⟩

end OnList

/-! ## One call -/

/-- The chains of nodes are the lists. -/
structure Heap.Models (heap : Heap) (world : World) : Prop where
  represents : ∀ d l, world d = some l → heap.Represents d l
  keys : ∀ d l, world d = some l → (l.map Cell.key).Nodup
  size : ∀ d l, world d = some l → (l.length : Int) ≤ intMax
  apart : ∀ d d' l l', d ≠ d' → world d = some l → world d' = some l' → Apart l l'

namespace Heap.Models

variable {heap heap' : Heap} {world : World}

theorem empty : Heap.empty.Models fun _ => none := by
  refine ⟨?_, ?_, ?_, ?_⟩
  · exact fun d l h => absurd h (by simp)
  · exact fun d l h => absurd h (by simp)
  · exact fun d l h => absurd h (by simp)
  · exact fun d d' l l' _ h => absurd h (by simp)

/-- A dictionary after an update: the one that has another list, or one of the others. -/
theorem update_cases {d d' : Address} {l m : List Cell}
    (h : Function.update world d (some l) d' = some m) :
    d' = d ∧ m = l ∨ d' ≠ d ∧ world d' = some m := by
  by_cases hne : d' = d
  · subst hne
    rw [Function.update_self, Option.some.injEq] at h
    exact .inl ⟨rfl, h.symm⟩
  · rw [Function.update_of_ne hne] at h
    exact .inr ⟨hne, h⟩

/-- One dictionary has a list of its own, and the others have theirs. -/
theorem set (h : heap.Models world) {d : Address} {l : List Cell}
    (hrepresents : heap'.Represents d l) (hkeys : (l.map Cell.key).Nodup)
    (hsize : (l.length : Int) ≤ intMax)
    (hothers : ∀ d' m, d' ≠ d → world d' = some m → heap'.Represents d' m ∧ Apart m l) :
    heap'.Models (Function.update world d (some l)) := by
  refine ⟨?_, ?_, ?_, ?_⟩
  · intro d' m hm
    rcases update_cases hm with ⟨rfl, rfl⟩ | ⟨hne, hold⟩
    · exact hrepresents
    · exact (hothers d' m hne hold).1
  · intro d' m hm
    rcases update_cases hm with ⟨rfl, rfl⟩ | ⟨hne, hold⟩
    · exact hkeys
    · exact h.keys d' m hold
  · intro d' m hm
    rcases update_cases hm with ⟨rfl, rfl⟩ | ⟨hne, hold⟩
    · exact hsize
    · exact h.size d' m hold
  · intro d₁ d₂ m₁ m₂ hne h₁ h₂
    rcases update_cases h₁ with ⟨rfl, rfl⟩ | ⟨hne₁, hold₁⟩
    · rcases update_cases h₂ with ⟨rfl, rfl⟩ | ⟨hne₂, hold₂⟩
      · exact absurd rfl hne
      · exact (hothers d₂ m₂ hne₂ hold₂).2.symm
    · rcases update_cases h₂ with ⟨rfl, rfl⟩ | ⟨hne₂, hold₂⟩
      · exact (hothers d₁ m₁ hne₁ hold₁).2
      · exact h.apart d₁ d₂ m₁ m₂ hne hold₁ hold₂

/-- A dictionary has other nodes, and what was not its own is as it was. -/
theorem update (h : heap.Models world) {d : Address} {l l' : List Cell} (hd : world d = some l)
    (hupdates : Updates heap heap' d l l') (hkeys : (l'.map Cell.key).Nodup)
    (hsize : (l'.length : Int) ≤ intMax) : heap'.Models (Function.update world d (some l')) := by
  apply h.set hupdates.represents hkeys hsize
  intro d' m hne hm
  have hapart := h.apart d' d m l hne hm hd
  exact ⟨hupdates.other hne (h.represents d' m hm) hapart,
    hupdates.apart (h.represents d' m hm) hapart⟩

/-- A dictionary is made empty, in memory of its own or where one has been. -/
theorem new (h : heap.Models world) (d : Address) :
    (heap.writeDictionary d DictionarySt.new).Models (Function.update world d (some [])) := by
  apply h.set (represents_new heap d) List.nodup_nil (by decide)
  intro d' m hne hm
  refine ⟨?_, apart_nil m⟩
  exact (h.represents d' m hm).congr (writeDictionary_of_ne hne _ heap) (fun _ _ => rfl)
    fun _ _ => rfl

end Heap.Models

section Call

variable {heap : Heap} {world : World} {self : Address} {l : List Cell}

theorem get_refines (h : heap.Represents self l) (key : Option String) :
    dictionaryGet (some self) (key.map .given) heap = .ok (nodeWith key l) := by
  cases key with
  | none => rfl
  | some k => exact dictionaryGet_eq h (readChars_given heap k rfl)

theorem nodup_keys_snoc {key : String} {data : Option Address} {node keyAt : Address}
    (hkeys : (l.map Cell.key).Nodup) (hno : key ∉ l.map Cell.key) :
    ((l ++ [(⟨node, keyAt, { key := key, data := data }⟩ : Cell)]).map Cell.key).Nodup := by
  rw [List.map_append, List.nodup_append]
  refine ⟨hkeys, List.nodup_singleton _, ?_⟩
  intro k hk k' hk'
  have heq : k' = key := List.mem_singleton.1 hk'
  exact fun h => hno (heq ▸ h ▸ hk)

theorem length_snoc {c : Cell} (h : (l.length : Int) < intMax) :
    ((l ++ [c]).length : Int) ≤ intMax := by
  rw [List.length_append, List.length_singleton]
  omega

theorem nodeWith_eq_none {key : String} (h : nodeWith (some key) l = none) :
    key ∉ l.map Cell.key :=
  (find?_hasKey_eq_none_iff Cell.key key l).1 (Option.map_eq_none_iff.1 h)

/-- The new node of `dictionary_get(.., CREATE)` is given a dictionary of its own. -/
theorem create_refines (h : heap.Models world) (hl : world self = some l) {key : String}
    {node keyAt messages : Address}
    (hfresh : (DictionaryCall.create self key node keyAt messages).Fresh heap)
    (hno : nodeWith (some key) l = none) (hroom : (l.length : Int) < intMax) :
    ∃ heap', (DictionaryCall.create self key node keyAt messages).run heap =
        .ok (some node, heap') ∧
      heap'.Models (Function.update (Function.update world messages (some [])) self
        (some (l ++ [⟨node, keyAt, { key := key, data := some messages }⟩]))) := by
  have hrepresents := h.represents self l hl
  have hunused : heap.Unused node ∧ heap.Unused keyAt ∧ heap.Unused messages := by
    simpa [DictionaryCall.answers] using hfresh.1
  have hne : messages ≠ self := by
    rintro rfl
    obtain ⟨dictionary, hdictionary, -⟩ := hrepresents.dictionary
    exact absurd (hunused.2.2.2.1.symm.trans hdictionary) (by simp)
  obtain ⟨heap₁, hadd, hupdates⟩ := dictionaryAdd_updates hrepresents hunused.1.1
    hunused.2.1.2.2 hroom (readChars_given heap key rfl) none
  have hupdates₂ := hupdates.beside hne DictionarySt.new
  obtain ⟨newNode, hnewNode, hkey, -⟩ :=
    hupdates₂.represents.node (List.mem_append_right l List.mem_cons_self)
  have hupdates₃ := hupdates₂.trans
    (setData_updates hupdates₂.represents hnewNode hkey (some messages))
  refine ⟨_, ?_, (h.new messages).update ?_ hupdates₃ ?_ (length_snoc hroom)⟩
  · have hget := get_refines hrepresents (some key)
    rw [Option.map_some] at hget
    rw [DictionaryCall.run, dictionaryGetCreate, hget, hno, ok_bind]
    dsimp only
    rw [hadd, ok_bind]
    dsimp only
    rw [dictionaryInit, Option.none_or]
    dsimp only
    rw [readNode_of_nodes hnewNode, ok_bind]
    rfl
  · rw [Function.update_of_ne (Ne.symm hne)]
    exact hl
  · exact nodup_keys_snoc (h.keys self l hl) (nodeWith_eq_none hno)

/-- A part of a dictionary has no more nodes, and no key twice. -/
theorem Heap.Models.part (h : heap.Models world) (hl : world self = some l) {l' : List Cell}
    (hpart : l'.Sublist l) : (l'.map Cell.key).Nodup ∧ (l'.length : Int) ≤ intMax := by
  have hsize := h.size self l hl
  have hle := hpart.length_le
  exact ⟨(h.keys self l hl).sublist (hpart.map Cell.key), by omega⟩

theorem deleteNode_refines (h : heap.Models world) (hl : world self = some l)
    (key : Option String) :
    ∃ heap', dictionaryDeleteNode (some self) (key.map .given) heap = .ok heap' ∧
      heap'.Models (Function.update world self (some (withoutKey key l))) := by
  cases key with
  | none =>
      refine ⟨heap, rfl, ?_⟩
      rw [withoutKey, ← hl, Function.update_eq_self]
      exact h
  | some k =>
      obtain ⟨heap', hdelete, hupdates⟩ :=
        dictionaryDeleteNode_updates (h.represents self l hl) (readChars_given heap k rfl)
      obtain ⟨hkeys, hsize⟩ := h.part hl (List.eraseP_sublist (p := hasKey Cell.key k))
      exact ⟨heap', hdelete, h.update hl hupdates hkeys hsize⟩

theorem withoutRange_sublist (lBoundKey : Option String) (uBound : Int) (l : List Cell) :
    (withoutRange lBoundKey uBound l).Sublist l := by
  have hdrop := (List.drop_sublist (counted uBound (startAt Cell.key lBoundKey l).length)
    (startAt Cell.key lBoundKey l)).append_left (before Cell.key lBoundKey l)
  rw [before_startAt] at hdrop
  exact hdrop

theorem delete_refines (h : heap.Models world) (hl : world self = some l)
    (lBoundKey : Option String) {uBound : Int} (hmin : intMin ≤ uBound)
    (hrange : 0 ≤ uBound ∨ intMin ≤ uBound - (startAt Cell.key lBoundKey l).length) :
    ∃ heap', dictionaryDelete (some self) (lBoundKey.map .given) uBound heap = .ok heap' ∧
      heap'.Models (Function.update world self (some (withoutRange lBoundKey uBound l))) := by
  obtain ⟨heap', hdelete, hupdates⟩ := dictionaryDelete_updates (h.represents self l hl)
    (h.keys self l hl) lBoundKey hmin hrange
  obtain ⟨hkeys, hsize⟩ := h.part hl (withoutRange_sublist lBoundKey uBound l)
  exact ⟨heap', hdelete, h.update hl hupdates hkeys hsize⟩

theorem iter_refines (h : heap.Models world) (hl : world self = some l)
    (lBoundKey : Option String) (uBound : UInt32) {alloc : Address}
    {blocks : List (Address × Address)}
    (hfresh : (DictionaryCall.iter self lBoundKey uBound alloc blocks).Fresh heap)
    (henough : (window Cell.key lBoundKey uBound.toNat l).length ≤ blocks.length) :
    ∃ heap', dictionaryIter (some alloc) (granted blocks) (some self) (lBoundKey.map .given)
        uBound heap = .ok (some alloc, heap') ∧
      heap'.Models (Function.update world alloc
        (some (copyCells blocks (window Cell.key lBoundKey uBound.toNat l)))) := by
  obtain ⟨hunused, hnodup⟩ := hfresh
  have hpairs := List.nodup_append.1 (List.nodup_cons.1 hnodup).2
  have hoffers : heap.Offers blocks := by
    refine ⟨fun b hb => ?_, fun b hb => ?_, hpairs.1, hpairs.2.1⟩
    · refine (hunused b.1 (List.mem_cons_of_mem _ ?_)).1
      exact List.mem_append_left _ (List.mem_map_of_mem hb)
    · refine (hunused b.2 (List.mem_cons_of_mem _ ?_)).2.2
      exact List.mem_append_right _ (List.mem_map_of_mem hb)
  obtain ⟨heap', hiter, hupdates⟩ := dictionaryIter_updates (h.represents self l hl)
    (h.size self l hl) lBoundKey uBound (hunused alloc List.mem_cons_self).2.1 hoffers henough
  obtain ⟨hkeys, hsize⟩ := h.part hl (window_sublist Cell.key lBoundKey uBound.toNat l)
  have hcopies := map_copyCells henough
  have hlength : (copyCells blocks (window Cell.key lBoundKey uBound.toNat l)).length =
      (window Cell.key lBoundKey uBound.toNat l).length := by
    rw [← List.length_map (f := Cell.content), hcopies, List.length_map]
  have hsameKeys : (copyCells blocks (window Cell.key lBoundKey uBound.toNat l)).map Cell.key =
      (window Cell.key lBoundKey uBound.toNat l).map Cell.key := by
    have hmap := congrArg (List.map DictionaryNode.key) hcopies
    rw [List.map_map, List.map_map] at hmap
    exact hmap
  have hmodels := (h.new alloc).update (Function.update_self ..) hupdates
    (hsameKeys ▸ hkeys) (hlength ▸ hsize)
  rw [Function.update_idem] at hmodels
  exact ⟨heap', hiter, hmodels⟩

/-- **One call.** In memory it does what it is for. -/
theorem call_refines (h : heap.Models world) {call : DictionaryCall} (hfresh : call.Fresh heap)
    {returned : Option Address} {world' : World}
    (hspec : call.spec world = .ok (returned, world')) :
    ∃ heap', call.run heap = .ok (returned, heap') ∧ heap'.Models world' := by
  cases call with
  | init dest alloc =>
      cases hspec
      cases dest with
      | none => exact ⟨_, rfl, h.new alloc⟩
      | some d => exact ⟨_, rfl, h.new d⟩
  | add self key data node keyAt =>
      obtain ⟨l, hl, hlist⟩ := spec_self rfl hspec
      obtain ⟨hno, hroom, rfl, rfl⟩ := onList_add hlist
      have hunused : heap.Unused node ∧ heap.Unused keyAt := by
        simpa [DictionaryCall.answers] using hfresh.1
      obtain ⟨heap', hadd, hupdates⟩ := dictionaryAdd_updates (h.represents self l hl)
        hunused.1.1 hunused.2.2.2 hroom (readChars_given heap key rfl) data
      exact ⟨heap', hadd, h.update hl hupdates
        (nodup_keys_snoc (h.keys self l hl) hno) (length_snoc hroom)⟩
  | get self key =>
      obtain ⟨l, hl, hlist⟩ := spec_self rfl hspec
      cases hlist
      refine ⟨heap, ?_, h⟩
      rw [DictionaryCall.run, get_refines (h.represents self l hl)]
      rfl
  | create self key node keyAt messages =>
      obtain ⟨l, hl, hlist⟩ := spec_self rfl hspec
      rcases onList_create hlist with ⟨found, hfound, rfl, rfl⟩ | ⟨hno, hroom, rfl, rfl⟩
      · refine ⟨heap, ?_, h⟩
        have hget := get_refines (h.represents self l hl) (some key)
        rw [Option.map_some, hfound] at hget
        rw [DictionaryCall.run, dictionaryGetCreate, hget]
        rfl
      · exact create_refines h hl hfresh hno hroom
  | deleteNode self key =>
      obtain ⟨l, hl, hlist⟩ := spec_self rfl hspec
      cases hlist
      obtain ⟨heap', hdelete, hmodels⟩ := deleteNode_refines h hl key
      refine ⟨heap', ?_, hmodels⟩
      rw [DictionaryCall.run, hdelete]
      rfl
  | delete self lBoundKey uBound =>
      obtain ⟨l, hl, hlist⟩ := spec_self rfl hspec
      obtain ⟨hrange, rfl, rfl⟩ := onList_delete hlist
      have hmin : intMin ≤ uBound.toInt := uBound.le_toInt
      obtain ⟨heap', hdelete, hmodels⟩ := delete_refines h hl lBoundKey hmin hrange
      refine ⟨heap', ?_, hmodels⟩
      rw [DictionaryCall.run, hdelete]
      rfl
  | iter self lBoundKey uBound alloc blocks =>
      obtain ⟨l, hl, hlist⟩ := spec_self rfl hspec
      obtain ⟨henough, rfl, rfl⟩ := onList_iter hlist
      exact iter_refines h hl lBoundKey uBound hfresh henough

end Call

/-! ## Runs -/

/-- From related states, calls of which the specification says something do and return
what it says. -/
theorem calls_refine {calls : List DictionaryCall} {heap : Heap} {world world' : World}
    (h : heap.Models world) (hspec : Machine.run specStep calls world = .ok world')
    (hfresh : Machine.Along dictionaryStep DictionaryCall.Fresh calls heap) :
    ∃ heap', Machine.Shows dictionaryStep dictionaryReturns calls heap
        (Machine.trace specStep specReturns calls world) heap' ∧ heap'.Models world' := by
  induction calls generalizing heap world with
  | nil =>
      cases hspec
      exact ⟨heap, Machine.Shows.nil _ _ heap, h⟩
  | cons call calls ih =>
      obtain ⟨world₁, hfirst, hrest⟩ := Machine.run_cons_ok specStep hspec
      cases hcall : call.spec world with
      | error refused =>
          rw [specStep, hcall] at hfirst
          exact absurd hfirst (by simp [Except.map])
      | ok result =>
          obtain ⟨returned, world₂⟩ := result
          have hstep : specStep call world = .ok world₂ := by
            rw [specStep, hcall]
            rfl
          obtain rfl : world₂ = world₁ := Except.ok.inj (hstep.symm.trans hfirst)
          obtain ⟨heap₁, hrun, hmodels⟩ := call_refines h hfresh.1 hcall
          have hstep' : dictionaryStep call heap = .ok heap₁ := by
            rw [dictionaryStep, hrun]
            rfl
          obtain ⟨heap', hshows, hmodels'⟩ := ih hmodels hrest (hfresh.2 heap₁ hstep')
          refine ⟨heap', ?_, hmodels'⟩
          have hsingle := Machine.Shows.single dictionaryStep dictionaryReturns hstep'
          have hreturns : dictionaryReturns call heap = specReturns call world := by
            rw [dictionaryReturns, hrun, specReturns, hcall]
          rw [Machine.trace_cons_of_ok specStep specReturns hstep, ← hreturns]
          exact hsingle.append hshows

/-! ## Chains -/

/-- One step along `next`; `NULL` is left nowhere. -/
def Heap.next (heap : Heap) (x : Option Address) : Option Address :=
  x.bind fun a => (heap.nodes a).bind Node.next

/-- One step along `previous`. -/
def Heap.previous (heap : Heap) (x : Option Address) : Option Address :=
  x.bind fun a => (heap.nodes a).bind Node.previous

/-- The dictionary is a chain of these nodes: `next` leads from `first` through each of
them to `NULL`, `previous` from `last` through each of them in the other order, and there
are `length` of them, with different keys, each in a block of its own. -/
structure Heap.Chain (heap : Heap) (d : Address) (l : List Cell) : Prop where
  dictionary : ∃ dictionary, heap.dictionaries d = some dictionary ∧
    dictionary.length = l.length ∧
    (∀ i, heap.next^[i] dictionary.first = (addresses l)[i]?) ∧
    ∀ i, heap.previous^[i] dictionary.last = (addresses l).reverse[i]?
  distinct : (addresses l).Nodup
  nodes : ∀ c ∈ l, ∃ node, heap.nodes c.node = some node ∧ node.key = c.keyAt ∧
    heap.texts node.key = some c.key ∧ node.data = c.content.data
  keys : (l.map Cell.key).Nodup
  apart : (keyAddresses l).Nodup

theorem Heap.Models.chain {heap : Heap} {world : World} (h : heap.Models world) {d : Address}
    {l : List Cell} (hl : world d = some l) : heap.Chain d l := by
  have hrepresents := h.represents d l hl
  obtain ⟨dictionary, hdictionary, hlength, hfirst, hlast⟩ := hrepresents.dictionary
  refine ⟨⟨dictionary, hdictionary, hlength, ?_, ?_⟩, hrepresents.ring.nodup, ?_, h.keys d l hl,
    hrepresents.apart⟩
  · intro i
    rw [hfirst]
    exact hrepresents.ring.linked.iterate i
  · intro i
    rw [hlast]
    exact hrepresents.ring.mirror.linked.iterate i
  · intro c hc
    obtain ⟨node, hnode, hkey, hdata, -⟩ := hrepresents.node hc
    exact ⟨node, hnode, hkey, hkey ▸ hrepresents.texts c hc, hdata⟩

/-- **The dictionary is an ordered association list.** Calls that the specification says
something of run without a fault, return what it says, and leave each dictionary as a
chain of the nodes that it says, apart from the nodes and the keys of the others. -/
theorem dictionary_refines {calls : List DictionaryCall} {world : World}
    (hspec : Machine.run specStep calls (fun _ => none) = .ok world)
    (hfresh : Machine.Along dictionaryStep DictionaryCall.Fresh calls Heap.empty) :
    ∃ heap, Machine.Shows dictionaryStep dictionaryReturns calls Heap.empty
        (Machine.trace specStep specReturns calls fun _ => none) heap ∧
      (∀ d l, world d = some l → heap.Chain d l) ∧
      ∀ d d' l l', d ≠ d' → world d = some l → world d' = some l' → Apart l l' := by
  obtain ⟨heap, hshows, hmodels⟩ := calls_refine Heap.Models.empty hspec hfresh
  exact ⟨heap, hshows, fun d l hl => hmodels.chain hl, hmodels.apart⟩

/-- Three nodes are made, one of them with a dictionary of its own; two are copied, the
second is unlinked, and the rest of them but one is removed. -/
theorem dictionary_refines_window :
    ∃ heap, Machine.Shows dictionaryStep dictionaryReturns
        [.init none 0, .add 0 "a" none 1 10, .add 0 "b" (some 9) 2 11, .create 0 "c" 3 12 4,
          .iter 0 (some "b") 2 5 [(6, 13), (7, 14)], .deleteNode 0 (some "b"),
          .get 0 (some "b"), .delete 0 (some "c") (-1)]
        Heap.empty [some 0, some 1, some 2, some 3, some 5, none, none, none] heap ∧
      (heap.Chain 0 [⟨1, 10, { key := "a", data := none }⟩] ∧
        heap.Chain 5 [⟨6, 13, { key := "b", data := some 9 }⟩,
          ⟨7, 14, { key := "c", data := some 4 }⟩]) ∧
      heap.Chain 4 [] := by
  obtain ⟨heap, hshows, hchain, -⟩ := @dictionary_refines
    [.init none 0, .add 0 "a" none 1 10, .add 0 "b" (some 9) 2 11, .create 0 "c" 3 12 4,
      .iter 0 (some "b") 2 5 [(6, 13), (7, 14)], .deleteNode 0 (some "b"),
      .get 0 (some "b"), .delete 0 (some "c") (-1)] _ rfl (by decide)
  exact ⟨heap, hshows, ⟨hchain 0 _ rfl, hchain 5 _ rfl⟩, hchain 4 _ rfl⟩

end Burrow.Memory.Chained
