import Burrow.Lib.KeyedList
import Burrow.Objects

/-!
# The dictionary of the memory backend

`backends/memory/dictionary.c`, with the chain of nodes from `first` to `last`
kept as a list: a node's place in the list stands for its `previous` and `next`
links, and a node pointer is the part of the chain that starts at the node
(`dictionaryFind`). The redundant `length` field is kept, and the loops count
with it as the source does.

Each function that allocates takes the outcome of its own `burrow_malloc` calls
as an argument: `true` for a block, `false` for `NULL`. The fields of a new node
and of a new dictionary are all written before anything reads them, so what the
blocks held before does not occur here. `int length` and the index of the loops
are natural numbers; a dictionary of `2 ^ 31` nodes is outside the model.
-/

set_option autoImplicit false

namespace Burrow.Memory

open KeyedList

/-- `dictionary_node_st` without its links. `data` is `none` for `NULL`. -/
structure DictionaryNode (α : Type) where
  key : String
  data : Option α
deriving DecidableEq, Repr

/-- `dictionary_st`. -/
structure Dictionary (α : Type) where
  nodes : List (DictionaryNode α)
  length : Nat
deriving DecidableEq, Repr

/-- Outcomes of the two allocations in `dictionary_add`. -/
structure AddMemory where
  newNode : Bool
  key : Bool
deriving DecidableEq, Repr

/-- Outcomes of the allocations in `dictionary_get(.., CREATE)`. -/
structure CreateMemory where
  add : AddMemory
  init : Bool
deriving DecidableEq, Repr

/-- Outcomes of the allocations in `dictionary_iter`: the new dictionary, and
the two of each `dictionary_add`. -/
structure IterMemory where
  init : Bool
  add : Nat → AddMemory

variable {α : Type}

/-- `dictionary_init(NULL, burrow)` -/
def dictionaryInit (malloc : Bool) : Option (Dictionary α) :=
  if malloc then some { nodes := [], length := 0 } else none

/-- `dictionary_add`: the dictionary with the new node, or `none` where the
function returns `NULL` and leaves the dictionary as it is. -/
def dictionaryAdd (mem : AddMemory) (self : Option (Dictionary α)) (key : String)
    (data : Option α) : Option (Dictionary α) :=
  match self with
  | none => none
  | some self =>
      if mem.newNode && mem.key then
        some { nodes := self.nodes ++ [{ key := key, data := data }], length := self.length + 1 }
      else none

/-- The search loop of `dictionary_get`: `left` is `self->length - i`. With nodes
left to count but none in the chain the source would compare through a `NULL`
pointer; `Dictionary.WellFormed.length_eq` excludes it. -/
def dictionaryGetLoop (key : String) :
    List (DictionaryNode α) → Nat → List (DictionaryNode α)
  | current, 0 => current
  | [], _ + 1 => []
  | current :: next, left + 1 =>
      if current.key = key then current :: next else dictionaryGetLoop key next left

/-- The node `dictionary_get(self, key, SEARCH)` returns, with the nodes after
it; empty for `NULL`. -/
def dictionaryFind (self : Option (Dictionary α)) (key : Option String) :
    List (DictionaryNode α) :=
  match self, key with
  | some self, some key => dictionaryGetLoop key self.nodes self.length
  | _, _ => []

/-- `dictionary_get(self, key, SEARCH)` -/
def dictionaryGet (self : Option (Dictionary α)) (key : Option String) :
    Option (DictionaryNode α) :=
  (dictionaryFind self key).head?

def DictionaryNode.withData (data : Option α) (n : DictionaryNode α) : DictionaryNode α :=
  { n with data := data }

@[simp] theorem DictionaryNode.key_withData (data : Option α) (n : DictionaryNode α) :
    (n.withData data).key = n.key := rfl

theorem DictionaryNode.key_withData_eq {key : String} (data : Option α) (n : DictionaryNode α)
    (h : n.key = key) : (n.withData data).key = key := h

/-- Assignment through a node pointer: `node->data = data`. -/
def Dictionary.setData (self : Dictionary α) (key : String) (data : Option α) : Dictionary α :=
  { self with nodes := modify DictionaryNode.key key (DictionaryNode.withData data) self.nodes }

/-- `dictionary_get(self, key, CREATE)`: the dictionary afterwards and the node
returned. When `dictionary_init` fails the new node stays linked, with a `NULL`
data pointer. -/
def dictionaryGetCreate {β : Type} (mem : CreateMemory)
    (self : Option (Dictionary (Dictionary β))) (key : String) :
    Option (Dictionary (Dictionary β)) × Option (DictionaryNode (Dictionary β)) :=
  match dictionaryGet self (some key) with
  | some node => (self, some node)
  | none =>
      match dictionaryAdd mem.add self key none with
      | none => (self, none)
      | some added =>
          match dictionaryInit mem.init with
          | none => (some added, none)
          | some messages =>
              (some (added.setData key (some messages)), some { key := key, data := some messages })

/-- `dictionary_delete_node` -/
def dictionaryDeleteNode (self : Dictionary α) (key : String) : Dictionary α :=
  match dictionaryGet (some self) (some key) with
  | none => self
  | some _ =>
      { nodes := self.nodes.eraseP (hasKey DictionaryNode.key key), length := self.length - 1 }

/-- The loop of `dictionary_delete`, over the chain saved node by node in
`next_node`. -/
def dictionaryDeleteLoop :
    List (DictionaryNode α) → Int → Dictionary α → Dictionary α
  | [], _, self => self
  | current :: next, uBound, self =>
      if uBound = 0 then self
      else dictionaryDeleteLoop next (uBound - 1) (dictionaryDeleteNode self current.key)

/-- `dictionary_delete` -/
def dictionaryDelete (self : Dictionary α) (lBoundKey : Option String) (uBound : Int) :
    Dictionary α :=
  if self.length = 0 then self
  else
    match dictionaryFind (some self) lBoundKey with
    | [] => dictionaryDeleteLoop self.nodes uBound self
    | current :: next => dictionaryDeleteLoop (current :: next) uBound self

/-- The loop of `dictionary_iter`; `i` counts the calls of `dictionary_add`. A
failed call empties the new dictionary and ends the loop. -/
def dictionaryIterLoop (add : Nat → AddMemory) :
    List (DictionaryNode α) → Nat → Nat → Dictionary α → Dictionary α
  | [], _, _, dictionary => dictionary
  | _ :: _, 0, _, dictionary => dictionary
  | current :: next, uBound + 1, i, dictionary =>
      match dictionaryAdd (add i) (some dictionary) current.key current.data with
      | none => dictionaryDelete dictionary none dictionary.length
      | some dictionary => dictionaryIterLoop add next uBound (i + 1) dictionary

/-- `dictionary_iter`; `DICTIONARY_LENGTH` is `0`. -/
def dictionaryIter (mem : IterMemory) (self : Option (Dictionary α)) (lBoundKey : Option String)
    (uBound : Nat) : Option (Dictionary α) :=
  match self with
  | none => none
  | some self =>
      match dictionaryInit mem.init with
      | none => none
      | some dictionary =>
          let current :=
            match dictionaryFind (some self) lBoundKey with
            | [] => self.nodes
            | current :: next => current :: next
          let uBound := if uBound = 0 then self.length else uBound
          some (dictionaryIterLoop mem.add current uBound 0 dictionary)

/-! ## Well-formed dictionaries -/

/-- The length field counts the nodes, no two nodes share a key, and `P` holds
of every node. -/
structure Dictionary.WellFormed (P : DictionaryNode α → Prop) (d : Dictionary α) : Prop where
  length_eq : d.length = d.nodes.length
  nodup : (d.nodes.map DictionaryNode.key).Nodup
  all : ∀ n ∈ d.nodes, P n

/-- The dictionary with these nodes. -/
def Dictionary.ofNodes (nodes : List (DictionaryNode α)) : Dictionary α :=
  { nodes := nodes, length := nodes.length }

/-- The dictionary with a node more at the end. -/
def Dictionary.snoc (d : Dictionary α) (key : String) (data : Option α) : Dictionary α :=
  { nodes := d.nodes ++ [{ key := key, data := data }], length := d.length + 1 }

/-- The keys in list order. -/
def Dictionary.keys (d : Dictionary α) : List String := d.nodes.map DictionaryNode.key

/-- What the data pointer under a key leads to, `none` for a missing node or a
`NULL` pointer. -/
def Dictionary.data? (d : Dictionary α) (key : String) : Option α :=
  (dictionaryGet (some d) (some key)).bind DictionaryNode.data

theorem wellFormed_empty (P : DictionaryNode α → Prop) : (Dictionary.ofNodes []).WellFormed P :=
  ⟨rfl, List.nodup_nil, fun _ hn => absurd hn List.not_mem_nil⟩

theorem dictionaryGetLoop_eq_chainFrom (key : String) (nodes : List (DictionaryNode α)) :
    dictionaryGetLoop key nodes nodes.length = chainFrom DictionaryNode.key key nodes := by
  induction nodes with
  | nil => rfl
  | cons n rest ih => simp only [List.length_cons, dictionaryGetLoop, chainFrom, ih]

@[simp] theorem dictionaryFind_none_left (key : Option String) :
    dictionaryFind (none : Option (Dictionary α)) key = [] := rfl

@[simp] theorem dictionaryFind_none_right (d : Option (Dictionary α)) :
    dictionaryFind d none = [] := by
  cases d <;> rfl

@[simp] theorem dictionaryGet_none_left (key : Option String) :
    dictionaryGet (none : Option (Dictionary α)) key = none := rfl

namespace Dictionary.WellFormed

variable {P : DictionaryNode α → Prop} {d : Dictionary α}

theorem find_eq (h : d.WellFormed P) (key : String) :
    dictionaryFind (some d) (some key) = chainFrom DictionaryNode.key key d.nodes := by
  rw [← dictionaryGetLoop_eq_chainFrom, ← h.length_eq]
  rfl

theorem get_eq (h : d.WellFormed P) (key : String) :
    dictionaryGet (some d) (some key) = d.nodes.find? (hasKey DictionaryNode.key key) := by
  rw [dictionaryGet, h.find_eq, chainFrom_head?]

/-- The node `dictionary_get` returns is a node of the dictionary with the key. -/
theorem of_get (h : d.WellFormed P) {key : String} {n : DictionaryNode α}
    (hn : dictionaryGet (some d) (some key) = some n) :
    n ∈ d.nodes ∧ n.key = key ∧ P n := by
  rw [h.get_eq] at hn
  obtain ⟨hmem, hkey⟩ := find?_hasKey_some DictionaryNode.key hn
  exact ⟨hmem, hkey, h.all n hmem⟩

theorem get_of_mem (h : d.WellFormed P) {n : DictionaryNode α} (hn : n ∈ d.nodes) :
    dictionaryGet (some d) (some n.key) = some n := by
  rw [h.get_eq]
  exact find?_hasKey_of_mem DictionaryNode.key h.nodup hn

theorem get_eq_none_iff (h : d.WellFormed P) (key : String) :
    dictionaryGet (some d) (some key) = none ↔ key ∉ d.keys := by
  rw [h.get_eq, find?_hasKey_eq_none_iff, Dictionary.keys]

theorem mono {Q : DictionaryNode α → Prop} (h : d.WellFormed P)
    (hPQ : ∀ n ∈ d.nodes, P n → Q n) : d.WellFormed Q :=
  ⟨h.length_eq, h.nodup, fun n hn => hPQ n hn (h.all n hn)⟩

theorem length_eq_zero_iff (h : d.WellFormed P) : d.length = 0 ↔ d.nodes = [] := by
  rw [h.length_eq, List.length_eq_zero_iff]

theorem data?_eq_none_of_not_mem (h : d.WellFormed P) {key : String} (hk : key ∉ d.keys) :
    d.data? key = none := by
  rw [Dictionary.data?, (h.get_eq_none_iff key).2 hk, Option.bind_none]

/-- The dictionary is given by its nodes. -/
theorem eq_ofNodes (h : d.WellFormed P) : d = Dictionary.ofNodes d.nodes := by
  cases d with
  | mk nodes length => rw [Dictionary.ofNodes, ← h.length_eq]

/-! ### Unlinking a node -/

theorem deleteNode_nodes (h : d.WellFormed P) (key : String) :
    (dictionaryDeleteNode d key).nodes =
      d.nodes.eraseP (hasKey DictionaryNode.key key) := by
  unfold dictionaryDeleteNode
  cases hg : dictionaryGet (some d) (some key) with
  | some n => rfl
  | none =>
      rw [h.get_eq, List.find?_eq_none] at hg
      exact (List.eraseP_of_forall_not hg).symm

theorem deleteNode (h : d.WellFormed P) (key : String) :
    (dictionaryDeleteNode d key).WellFormed P where
  length_eq := by
    unfold dictionaryDeleteNode
    cases hg : dictionaryGet (some d) (some key) with
    | none => exact h.length_eq
    | some n =>
        obtain ⟨hmem, hkey, -⟩ := h.of_get hg
        have hlen := List.length_eraseP_of_mem hmem
          ((hasKey_iff DictionaryNode.key key n).2 hkey)
        show d.length - 1 = _
        rw [hlen, h.length_eq]
  nodup := by
    rw [h.deleteNode_nodes]
    exact nodup_eraseP DictionaryNode.key h.nodup key
  all := by
    intro n hn
    rw [h.deleteNode_nodes] at hn
    exact h.all n (List.mem_of_mem_eraseP hn)

theorem keys_deleteNode (h : d.WellFormed P) (key : String) :
    (dictionaryDeleteNode d key).keys = d.keys.erase key := by
  rw [Dictionary.keys, h.deleteNode_nodes, map_eraseP_hasKey, Dictionary.keys]

theorem data?_deleteNode_self (h : d.WellFormed P) (key : String) :
    (dictionaryDeleteNode d key).data? key = none := by
  rw [Dictionary.data?, (h.deleteNode key).get_eq, h.deleteNode_nodes,
    find?_eraseP_self DictionaryNode.key h.nodup, Option.bind_none]

theorem data?_deleteNode_of_ne (h : d.WellFormed P) {key key' : String} (hne : key' ≠ key) :
    (dictionaryDeleteNode d key).data? key' = d.data? key' := by
  rw [Dictionary.data?, (h.deleteNode key).get_eq, h.deleteNode_nodes,
    find?_eraseP_of_ne DictionaryNode.key hne, Dictionary.data?, h.get_eq]

/-! ### Assigning through a node pointer -/

theorem setData (h : d.WellFormed P) {key : String} {data : Option α}
    (hP : P { key := key, data := data }) : (d.setData key data).WellFormed P where
  length_eq := by
    show d.length = (modify _ _ _ d.nodes).length
    rw [length_modify]
    exact h.length_eq
  nodup := by
    show ((modify _ _ _ d.nodes).map _).Nodup
    rw [map_modify _ (DictionaryNode.key_withData_eq data)]
    exact h.nodup
  all := by
    intro n hn
    rcases mem_modify DictionaryNode.key hn with hn | ⟨m, -, hk, rfl⟩
    · exact h.all n hn
    · rw [DictionaryNode.withData, hk]
      exact hP

theorem data?_setData_self (h : d.WellFormed P) {key : String} {data : Option α}
    (hP : P { key := key, data := data }) (hk : key ∈ d.keys) :
    (d.setData key data).data? key = data := by
  rw [Dictionary.data?, (h.setData hP).get_eq]
  show Option.bind ((modify _ _ _ d.nodes).find? _) _ = _
  rw [find?_modify_self _ (DictionaryNode.key_withData_eq data)]
  cases hf : d.nodes.find? (hasKey DictionaryNode.key key) with
  | none => exact absurd hk ((find?_hasKey_eq_none_iff _ _ _).1 hf)
  | some n => rfl

theorem data?_setData_of_ne (h : d.WellFormed P) {key key' : String} {data : Option α}
    (hP : P { key := key, data := data }) (hne : key' ≠ key) :
    (d.setData key data).data? key' = d.data? key' := by
  rw [Dictionary.data?, (h.setData hP).get_eq, Dictionary.data?, h.get_eq]
  show Option.bind ((modify _ _ _ d.nodes).find? _) _ = _
  rw [find?_modify_of_ne _ (DictionaryNode.key_withData_eq data) hne]

/-! ### Appending a node -/

theorem snoc (h : d.WellFormed P) {key : String} {data : Option α} (hk : key ∉ d.keys)
    (hP : P { key := key, data := data }) : (d.snoc key data).WellFormed P where
  length_eq := by
    show d.length + 1 = (d.nodes ++ [_]).length
    rw [List.length_append, List.length_singleton, h.length_eq]
  nodup := by
    show (List.map _ (d.nodes ++ [_])).Nodup
    rw [List.map_append, List.map_singleton, List.nodup_append]
    refine ⟨h.nodup, List.nodup_singleton _, ?_⟩
    intro a ha b hb heq
    rw [List.mem_singleton] at hb
    rw [heq, hb] at ha
    exact hk ha
  all := by
    intro n hn
    rcases List.mem_append.1 hn with hn | hn
    · exact h.all n hn
    · rw [List.mem_singleton] at hn
      exact hn ▸ hP

theorem snoc_trivial (h : d.WellFormed P) {key : String} (data : Option α) (hk : key ∉ d.keys) :
    (d.snoc key data).WellFormed fun _ => True :=
  (h.mono fun _ _ _ => trivial).snoc hk trivial

theorem data?_snoc_self (h : d.WellFormed P) {key : String} (data : Option α)
    (hk : key ∉ d.keys) : (d.snoc key data).data? key = data := by
  have hwf := h.snoc_trivial data hk
  have hmem : { key := key, data := data } ∈ (d.snoc key data).nodes := by simp [Dictionary.snoc]
  rw [Dictionary.data?, hwf.get_of_mem hmem, Option.bind_some]

theorem data?_snoc_of_ne (h : d.WellFormed P) {key key' : String} (data : Option α)
    (hk : key ∉ d.keys) (hne : key' ≠ key) : (d.snoc key data).data? key' = d.data? key' := by
  have hwf := h.snoc_trivial data hk
  rw [Dictionary.data?, hwf.get_eq, Dictionary.data?, h.get_eq]
  show Option.bind (List.find? _ (d.nodes ++ [_])) _ = _
  have hno : ¬ hasKey DictionaryNode.key key' { key := key, data := data } = true := by
    simpa using hne.symm
  rw [List.find?_append, List.find?_cons_of_neg hno, List.find?_nil, Option.or_none]

/-- Unlinking a node that was just appended undoes the append. -/
theorem deleteNode_snoc (h : d.WellFormed P) {key : String} (data : Option α)
    (hk : key ∉ d.keys) : dictionaryDeleteNode (d.snoc key data) key = d := by
  have hwf := h.snoc_trivial data hk
  have hsplit : List.eraseP (hasKey DictionaryNode.key key)
      (d.nodes ++ [{ key := key, data := data }]) = d.nodes ++ [] :=
    eraseP_split DictionaryNode.key rfl hk
  rw [(hwf.deleteNode key).eq_ofNodes, hwf.deleteNode_nodes, Dictionary.snoc, hsplit,
    List.append_nil]
  exact h.eq_ofNodes.symm

end Dictionary.WellFormed

/-! ## Replacing what a key leads to -/

/-- Put `data` under a key that is there, or unlink the key's node. -/
def Dictionary.replace (d : Dictionary α) (key : String) : Option α → Dictionary α
  | none => dictionaryDeleteNode d key
  | some x => d.setData key (some x)

theorem Dictionary.setData_setData (d : Dictionary α) (key : String) (data data' : Option α) :
    (d.setData key data).setData key data' = d.setData key data' := by
  unfold Dictionary.setData
  simp only [modify_modify _ (DictionaryNode.key_withData_eq data)]
  rfl

/-- Put `x` under a key, on a new node at the end where there is none. -/
def Dictionary.put (d : Dictionary α) (key : String) (x : α) : Dictionary α :=
  if key ∈ d.keys then d.setData key (some x) else d.snoc key (some x)

/-- A dictionary that is kept only while it has nodes. -/
def Dictionary.nonempty? (d : Dictionary α) : Option (Dictionary α) :=
  if d.nodes = [] then none else some d

@[simp] theorem Dictionary.keys_setData (d : Dictionary α) (key : String) (data : Option α) :
    (d.setData key data).keys = d.keys :=
  map_modify _ (DictionaryNode.key_withData_eq data) d.nodes

@[simp] theorem Dictionary.keys_snoc (d : Dictionary α) (key : String) (data : Option α) :
    (d.snoc key data).keys = d.keys ++ [key] := by
  rw [Dictionary.keys, Dictionary.snoc, List.map_append]
  rfl

/-- A node that was just appended is written in place. -/
theorem Dictionary.setData_snoc {d : Dictionary α} {key : String} (data data' : Option α)
    (hk : key ∉ d.keys) : (d.snoc key data).setData key data' = d.snoc key data' := by
  have hsplit : modify DictionaryNode.key key (DictionaryNode.withData data')
      (d.nodes ++ [{ key := key, data := data }]) = d.nodes ++ [{ key := key, data := data' }] :=
    modify_split DictionaryNode.key _ rfl hk
  rw [Dictionary.setData, Dictionary.snoc, Dictionary.snoc, hsplit]

theorem Dictionary.setData_put (d : Dictionary α) (key : String) (x y : α) :
    (d.put key x).setData key (some y) = d.put key y := by
  unfold Dictionary.put
  split
  · exact Dictionary.setData_setData d key (some x) (some y)
  · next hk => exact Dictionary.setData_snoc (some x) (some y) hk

theorem Dictionary.keys_put (d : Dictionary α) (key : String) (x : α) :
    (d.put key x).keys = if key ∈ d.keys then d.keys else d.keys ++ [key] := by
  unfold Dictionary.put
  split
  · exact Dictionary.keys_setData d key (some x)
  · exact Dictionary.keys_snoc d key (some x)

theorem Dictionary.keys_eq_nil_iff (d : Dictionary α) : d.keys = [] ↔ d.nodes = [] :=
  List.map_eq_nil_iff

theorem Dictionary.data?_of_nodes_eq_nil {d : Dictionary α} (h : d.nodes = []) (key : String) :
    d.data? key = none := by
  cases d with
  | mk nodes length =>
      cases h
      cases length <;> rfl

/-- Looking through a dictionary that was dropped for being empty finds what
looking through the empty dictionary finds. -/
theorem Dictionary.nonempty?_bind_data? (d : Dictionary α) (key : String) :
    d.nonempty?.bind (fun d => d.data? key) = d.data? key := by
  unfold Dictionary.nonempty?
  split
  · next h => rw [Option.bind_none, Dictionary.data?_of_nodes_eq_nil h]
  · rfl

theorem Dictionary.nonempty?_eq_some_iff {d x : Dictionary α} :
    d.nonempty? = some x ↔ d.nodes ≠ [] ∧ d = x := by
  unfold Dictionary.nonempty?
  split
  · next h => simp [h]
  · next h => simp [h]

theorem Dictionary.isNone_nonempty? (d : Dictionary α) :
    d.nonempty?.isNone = d.keys.isEmpty := by
  unfold Dictionary.nonempty?
  split
  · next h => rw [(Dictionary.keys_eq_nil_iff d).2 h]; rfl
  · next h =>
      cases hk : d.keys with
      | nil => exact absurd ((Dictionary.keys_eq_nil_iff d).1 hk) h
      | cons k ks => rfl

theorem Dictionary.keys_nonempty? (d : Dictionary α) :
    (d.nonempty?.map Dictionary.keys).getD [] = d.keys := by
  unfold Dictionary.nonempty?
  split
  · next h => rw [Option.map_none, Option.getD_none, (Dictionary.keys_eq_nil_iff d).2 h]
  · rfl

namespace Dictionary.WellFormed

variable {P : DictionaryNode α → Prop} {d : Dictionary α}

theorem replace (h : d.WellFormed P) {key : String} {data : Option α}
    (hP : ∀ x, data = some x → P { key := key, data := some x }) :
    (d.replace key data).WellFormed P := by
  cases data with
  | none => exact h.deleteNode key
  | some x => exact h.setData (hP x rfl)

theorem keys_replace (h : d.WellFormed P) (key : String) (data : Option α) :
    (d.replace key data).keys = if data.isNone then d.keys.erase key else d.keys := by
  cases data with
  | none => exact h.keys_deleteNode key
  | some x => exact Dictionary.keys_setData d key (some x)

theorem data?_replace_self (h : d.WellFormed P) {key : String} (data : Option α)
    (hk : key ∈ d.keys) : (d.replace key data).data? key = data := by
  cases data with
  | none => exact h.data?_deleteNode_self key
  | some x => exact (h.mono fun _ _ _ => trivial).data?_setData_self trivial hk

theorem data?_replace_of_ne (h : d.WellFormed P) {key key' : String} (data : Option α)
    (hne : key' ≠ key) : (d.replace key data).data? key' = d.data? key' := by
  cases data with
  | none => exact h.data?_deleteNode_of_ne hne
  | some x => exact (h.mono fun _ _ _ => trivial).data?_setData_of_ne trivial hne

/-- Writing a node that is unlinked next does not matter. -/
theorem deleteNode_setData (h : d.WellFormed P) (key : String) (data : Option α) :
    dictionaryDeleteNode (d.setData key data) key = dictionaryDeleteNode d key := by
  have h' : (d.setData key data).WellFormed fun _ => True :=
    (h.mono fun _ _ _ => trivial).setData trivial
  rw [(h'.deleteNode key).eq_ofNodes, (h.deleteNode key).eq_ofNodes, h'.deleteNode_nodes,
    h.deleteNode_nodes]
  exact congrArg Dictionary.ofNodes
    (eraseP_modify_self _ (DictionaryNode.key_withData_eq data) d.nodes)

/-- Writing a dictionary under a key and unlinking it when it has no nodes. -/
theorem replace_nonempty? {β : Type} {Q : DictionaryNode (Dictionary β) → Prop}
    {R : DictionaryNode β → Prop} {d : Dictionary (Dictionary β)} {x : Dictionary β}
    (h : d.WellFormed Q) (hx : x.WellFormed R) (key : String) :
    (if x.length = 0 then dictionaryDeleteNode (d.setData key (some x)) key
      else d.setData key (some x)) = d.replace key x.nonempty? := by
  by_cases hnil : x.nodes = []
  · rw [if_pos (hx.length_eq_zero_iff.2 hnil), Dictionary.nonempty?, if_pos hnil]
    exact h.deleteNode_setData key _
  · rw [if_neg (mt hx.length_eq_zero_iff.1 hnil), Dictionary.nonempty?, if_neg hnil]
    rfl

theorem put (h : d.WellFormed P) {key : String} {x : α}
    (hP : P { key := key, data := some x }) : (d.put key x).WellFormed P := by
  unfold Dictionary.put
  split
  · exact h.setData hP
  · next hk => exact h.snoc hk hP

theorem data?_put_self (h : d.WellFormed P) (key : String) (x : α) :
    (d.put key x).data? key = some x := by
  unfold Dictionary.put
  split
  · next hk => exact (h.mono fun _ _ _ => trivial).data?_setData_self trivial hk
  · next hk => exact h.data?_snoc_self _ hk

theorem data?_put_of_ne (h : d.WellFormed P) {key key' : String} (x : α) (hne : key' ≠ key) :
    (d.put key x).data? key' = d.data? key' := by
  unfold Dictionary.put
  split
  · exact (h.mono fun _ _ _ => trivial).data?_setData_of_ne trivial hne
  · next hk => exact h.data?_snoc_of_ne _ hk hne

/-- The node under a key that is there. -/
theorem exists_of_mem_keys (h : d.WellFormed P) {key : String} (hk : key ∈ d.keys) :
    P { key := key, data := d.data? key } := by
  obtain ⟨n, hn, rfl⟩ := List.mem_map.1 hk
  rw [Dictionary.data?, h.get_of_mem hn, Option.bind_some]
  exact h.all n hn

/-- The node under a key with a data pointer that is not `NULL`. -/
theorem data?_eq_some (h : d.WellFormed P) {key : String} {x : α} (hx : d.data? key = some x) :
    key ∈ d.keys ∧ P { key := key, data := some x } := by
  obtain ⟨n, hn, hdata⟩ := Option.bind_eq_some_iff.1 hx
  obtain ⟨hmem, hkey, hP⟩ := h.of_get hn
  refine ⟨hkey ▸ List.mem_map_of_mem hmem, ?_⟩
  rw [← hkey, ← hdata]
  exact hP

theorem get_of_data? (h : d.WellFormed P) {key : String} {x : α} (hx : d.data? key = some x) :
    dictionaryGet (some d) (some key) = some { key := key, data := some x } := by
  obtain ⟨n, hn, hdata⟩ := Option.bind_eq_some_iff.1 hx
  rw [hn, ← (h.of_get hn).2.1, ← hdata]

end Dictionary.WellFormed

theorem Dictionary.data?_of_get {d : Dictionary α} {key : String} {n : DictionaryNode α}
    (h : dictionaryGet (some d) (some key) = some n) : d.data? key = n.data := by
  rw [Dictionary.data?, h, Option.bind_some]

theorem Dictionary.data?_of_get_none {d : Dictionary α} {key : String}
    (h : dictionaryGet (some d) (some key) = none) : d.data? key = none := by
  rw [Dictionary.data?, h, Option.bind_none]

/-! ## Allocation -/

/-- Both allocations of `dictionary_add` succeed. -/
def AddMemory.Succeeds (mem : AddMemory) : Prop := mem.newNode = true ∧ mem.key = true

instance (mem : AddMemory) : Decidable mem.Succeeds :=
  inferInstanceAs (Decidable (_ ∧ _))

def CreateMemory.Succeeds (mem : CreateMemory) : Prop := mem.add.Succeeds ∧ mem.init = true

instance (mem : CreateMemory) : Decidable mem.Succeeds :=
  inferInstanceAs (Decidable (_ ∧ _))

def IterMemory.Succeeds (mem : IterMemory) : Prop :=
  mem.init = true ∧ ∀ i, (mem.add i).Succeeds

theorem dictionaryAdd_some (mem : AddMemory) (d : Dictionary α) (key : String) (data : Option α) :
    dictionaryAdd mem (some d) key data =
      if mem.Succeeds then some (d.snoc key data) else none := by
  by_cases h : mem.Succeeds
  · rw [if_pos h, dictionaryAdd, h.1, h.2]
    rfl
  · rw [if_neg h, dictionaryAdd, if_neg]
    simpa [AddMemory.Succeeds] using h

theorem dictionaryAdd_ofNodes (mem : AddMemory) (nodes : List (DictionaryNode α)) (key : String)
    (data : Option α) :
    dictionaryAdd mem (some (Dictionary.ofNodes nodes)) key data =
      if mem.Succeeds then some (Dictionary.ofNodes (nodes ++ [{ key := key, data := data }]))
      else none := by
  rw [dictionaryAdd_some, Dictionary.snoc, Dictionary.ofNodes, Dictionary.ofNodes,
    List.length_append, List.length_singleton]

/-- **What `dictionary_get(.., CREATE)` leaves and returns**: the node that was
there; or, depending on the allocations, nothing new, a node without a
dictionary, or a node with an empty one. -/
theorem dictionaryGetCreate_cases {β : Type} {P : DictionaryNode (Dictionary β) → Prop}
    {d : Dictionary (Dictionary β)} (h : d.WellFormed P) (mem : CreateMemory) (key : String) :
    key ∈ d.keys ∧
        dictionaryGetCreate mem (some d) key =
          (some d, some { key := key, data := d.data? key }) ∨
      key ∉ d.keys ∧ ¬ mem.add.Succeeds ∧ dictionaryGetCreate mem (some d) key = (some d, none) ∨
      key ∉ d.keys ∧ mem.add.Succeeds ∧ mem.init = false ∧
        dictionaryGetCreate mem (some d) key = (some (d.snoc key none), none) ∨
      key ∉ d.keys ∧ mem.Succeeds ∧
        dictionaryGetCreate mem (some d) key =
          (some (d.snoc key (some (Dictionary.ofNodes []))),
            some { key := key, data := some (Dictionary.ofNodes []) }) := by
  unfold dictionaryGetCreate
  cases hget : dictionaryGet (some d) (some key) with
  | some n =>
      have hn := h.of_get hget
      refine Or.inl ⟨hn.2.1 ▸ List.mem_map_of_mem hn.1, ?_⟩
      rw [Dictionary.data?_of_get hget, ← hn.2.1]
  | none =>
      have hk := (h.get_eq_none_iff key).1 hget
      refine Or.inr ?_
      simp only [dictionaryAdd_some]
      by_cases hadd : mem.add.Succeeds
      · rw [if_pos hadd]
        refine Or.inr ?_
        cases hinit : mem.init with
        | false => exact Or.inl ⟨hk, hadd, rfl, rfl⟩
        | true =>
            refine Or.inr ⟨hk, ⟨hadd, hinit⟩, ?_⟩
            simp only [dictionaryInit, if_true]
            rw [show ({ nodes := [], length := 0 } : Dictionary β) = Dictionary.ofNodes [] from rfl,
              Dictionary.setData_snoc none _ hk]
      · rw [if_neg hadd]
        exact Or.inl ⟨hk, hadd, rfl⟩

/-! ## Iteration -/

theorem wellFormed_ofNodes {nodes : List (DictionaryNode α)}
    (h : (nodes.map DictionaryNode.key).Nodup) :
    (Dictionary.ofNodes nodes).WellFormed fun _ => True :=
  ⟨rfl, h, fun _ _ => trivial⟩

/-- Unlinking every node in turn leaves the empty dictionary. -/
theorem dictionaryDeleteLoop_all {nodes : List (DictionaryNode α)}
    (h : (nodes.map DictionaryNode.key).Nodup) :
    dictionaryDeleteLoop nodes nodes.length (Dictionary.ofNodes nodes) = Dictionary.ofNodes [] := by
  induction nodes with
  | nil => rfl
  | cons n rest ih =>
      simp only [List.map_cons, List.nodup_cons] at h
      have hwf : (Dictionary.ofNodes (n :: rest)).WellFormed fun _ => True :=
        wellFormed_ofNodes (by simpa using h)
      have hdel : dictionaryDeleteNode (Dictionary.ofNodes (n :: rest)) n.key =
          Dictionary.ofNodes rest := by
        rw [(hwf.deleteNode n.key).eq_ofNodes, hwf.deleteNode_nodes]
        show Dictionary.ofNodes ((n :: rest).eraseP _) = _
        rw [List.eraseP_cons_of_pos (by simp)]
      have hlen : ((n :: rest).length : Int) - 1 = rest.length := by simp
      rw [dictionaryDeleteLoop, if_neg (by simp; omega), hdel, hlen, ih h.2]

theorem dictionaryDelete_all {nodes : List (DictionaryNode α)}
    (h : (nodes.map DictionaryNode.key).Nodup) :
    dictionaryDelete (Dictionary.ofNodes nodes) none nodes.length = Dictionary.ofNodes [] := by
  unfold dictionaryDelete
  split
  · next hlen =>
      rw [List.length_eq_zero_iff.1 hlen]
  · exact dictionaryDeleteLoop_all h

/-- The loop copies the nodes it passes, unless an allocation fails: then it
answers an empty dictionary. -/
theorem dictionaryIterLoop_cases (add : Nat → AddMemory) (chain : List (DictionaryNode α))
    (uBound i : Nat) {copied : List (DictionaryNode α)}
    (h : ((copied ++ chain).map DictionaryNode.key).Nodup) :
    (∃ j, ¬ (add j).Succeeds) ∧
        dictionaryIterLoop add chain uBound i (Dictionary.ofNodes copied) =
          Dictionary.ofNodes [] ∨
      dictionaryIterLoop add chain uBound i (Dictionary.ofNodes copied) =
        Dictionary.ofNodes (copied ++ chain.take uBound) := by
  induction chain generalizing uBound i copied with
  | nil => exact Or.inr (by simp [dictionaryIterLoop])
  | cons current next ih =>
      cases uBound with
      | zero => exact Or.inr (by simp [dictionaryIterLoop])
      | succ uBound =>
          rw [dictionaryIterLoop, dictionaryAdd_ofNodes]
          by_cases hadd : (add i).Succeeds
          · simp only [if_pos hadd, List.take_succ_cons]
            have hnodup : (((copied ++ [current]) ++ next).map DictionaryNode.key).Nodup := by
              simpa using h
            simpa using ih uBound (i + 1) hnodup
          · simp only [if_neg hadd]
            refine Or.inl ⟨⟨i, hadd⟩, ?_⟩
            rw [List.map_append] at h
            exact dictionaryDelete_all (List.Nodup.of_append_left h)

/-- **What `dictionary_iter` returns**: `NULL` or an empty dictionary when an
allocation fails, otherwise a copy of the window. -/
theorem dictionaryIter_cases {P : DictionaryNode α → Prop} {d : Dictionary α}
    (h : d.WellFormed P) (mem : IterMemory) (marker : Option String) (limit : Nat) :
    ¬ mem.Succeeds ∧ dictionaryIter mem (some d) marker limit = none ∨
      ¬ mem.Succeeds ∧ dictionaryIter mem (some d) marker limit = some (Dictionary.ofNodes []) ∨
      dictionaryIter mem (some d) marker limit =
        some (Dictionary.ofNodes (window DictionaryNode.key marker limit d.nodes)) := by
  have hstart : (match dictionaryFind (some d) marker with
      | [] => d.nodes
      | current :: next => current :: next) = startAt DictionaryNode.key marker d.nodes := by
    cases marker with
    | none => simp [startAt]
    | some k =>
        rw [h.find_eq, startAt]
        cases chainFrom DictionaryNode.key k d.nodes <;> simp
  have hbound : (startAt DictionaryNode.key marker d.nodes).take
      (if limit = 0 then d.length else limit) = window DictionaryNode.key marker limit d.nodes := by
    unfold window
    split
    · rw [List.take_of_length_le]
      rw [h.length_eq]
      exact (startAt_suffix DictionaryNode.key marker d.nodes).length_le
    · rfl
  have hnodup : (([] ++ startAt DictionaryNode.key marker d.nodes).map DictionaryNode.key).Nodup :=
    h.nodup.sublist ((startAt_suffix DictionaryNode.key marker d.nodes).sublist.map _)
  unfold dictionaryIter dictionaryInit
  cases hinit : mem.init with
  | false => exact Or.inl ⟨by simp [IterMemory.Succeeds, hinit], by simp⟩
  | true =>
      simp only [if_true, hstart]
      rw [← hbound]
      rcases dictionaryIterLoop_cases mem.add (startAt DictionaryNode.key marker d.nodes)
        (if limit = 0 then d.length else limit) 0 hnodup with ⟨⟨j, hj⟩, heq⟩ | heq
      · exact Or.inr (Or.inl ⟨fun hs => hj (hs.2 j), congrArg some heq⟩)
      · exact Or.inr (Or.inr (congrArg some heq))

/-- `dictionary_iter` returns `NULL` for want of memory only. -/
theorem dictionaryIter_eq_none {P : DictionaryNode α → Prop} {d : Dictionary α}
    (h : d.WellFormed P) {mem : IterMemory} {marker : Option String} {limit : Nat}
    (hnone : dictionaryIter mem (some d) marker limit = none) : ¬ mem.Succeeds := by
  rcases dictionaryIter_cases h mem marker limit with ⟨hfail, -⟩ | ⟨hfail, -⟩ | hsome
  · exact hfail
  · exact hfail
  · rw [hnone] at hsome
    exact absurd hsome (by simp)

/-- The keys a caller walks over are those of the window, or none where an
allocation failed. -/
theorem dictionaryIter_keys {P : DictionaryNode α → Prop} {d iterator : Dictionary α}
    (h : d.WellFormed P) {mem : IterMemory} {marker : Option String} {limit : Nat}
    (hiter : dictionaryIter mem (some d) marker limit = some iterator) :
    (iterator.nodes.take iterator.length).map DictionaryNode.key =
        window id marker limit d.keys ∨
      ¬ mem.Succeeds ∧ (iterator.nodes.take iterator.length).map DictionaryNode.key = [] := by
  rcases dictionaryIter_cases h mem marker limit with ⟨-, hnone⟩ | ⟨hfail, hempty⟩ | hwindow
  · rw [hnone] at hiter
    exact absurd hiter (by simp)
  · rw [hempty, Option.some.injEq] at hiter
    subst hiter
    exact Or.inr ⟨hfail, rfl⟩
  · rw [hwindow, Option.some.injEq] at hiter
    subst hiter
    refine Or.inl ?_
    show List.map _ (List.take (List.length _) (window _ _ _ d.nodes)) = _
    rw [List.take_length, Dictionary.keys, window_map]
    rfl

end Burrow.Memory
