import Mathlib.Tactic.Abel
import Mathlib.Algebra.Order.Group.Multiset
import Burrow.Lib.Ownership
import Burrow.Memory.LinkedBackend
import Burrow.Memory.LinkedRanges

/-!
# What the functions do to the blocks

A function `Does` something to blocks of the backend: those it owned have become others, all
the rest is as it was, and it has made some callbacks. A dictionary without what its data
pointers lead to is a `spine`; `get_eq`, `deleteNode_does`, `add_does`, `getCreate_does`,
`iter_does` and `freeIterator_does` say what the functions of `dictionary.c` come to on one.
-/

set_option autoImplicit false

namespace Burrow.Memory.Chained

open Ownership KeyedList Renewal

/-! ## Blocks of the backend -/

/-- A block, with its kind. -/
inductive Block where
  | node (a : Address)
  | dictionary (a : Address)
  | message (a : Address)
  | text (a : Address)
  | body (a : Address)
  | scratch (a : Address)
deriving DecidableEq, Repr

namespace Block

def address : Block → Address
  | node a | dictionary a | message a | text a | body a | scratch a => a

def Same (m m' : BackendHeap) : Block → Prop
  | node a => m'.nodes a = m.nodes a
  | dictionary a => m'.dictionaries a = m.dictionaries a
  | message a => m'.messages a = m.messages a
  | text a => m'.texts a = m.texts a
  | body a => m'.bodies a = m.bodies a
  | scratch a => m'.scratch a = m.scratch a

def Live (m : BackendHeap) : Block → Prop
  | node a => m.nodes a ≠ none
  | dictionary a => m.dictionaries a ≠ none
  | message a => m.messages a ≠ none
  | text a => m.texts a ≠ none
  | body a => m.bodies a ≠ none
  | scratch a => m.scratch a ≠ false

theorem same_refl (m : BackendHeap) (b : Block) : Same m m b := by
  cases b <;> rfl

theorem same_trans {m m' m'' : BackendHeap} {b : Block} (h : Same m m' b) (h' : Same m' m'' b) :
    Same m m'' b := by
  cases b <;> exact h'.trans h

theorem live_congr {m m' : BackendHeap} {b : Block} (h : Same m m' b) :
    Live m' b ↔ Live m b := by
  cases b <;> exact not_congr (by rw [show _ = _ from h])

theorem same_of_dead {m m' : BackendHeap} {b : Block} (h : ¬ Live m b) (h' : ¬ Live m' b) :
    Same m m' b := by
  cases b <;> exact (not_not.1 h').trans (not_not.1 h).symm

end Block

instance : Blocks BackendHeap Block where
  Same := Block.Same
  Live := Block.Live
  Fresh m b := m.next ≤ b.address
  same_refl := Block.same_refl
  same_trans := Block.same_trans
  live_congr := Block.live_congr
  same_of_dead := Block.same_of_dead

/-! ## What a function does -/

/-- The blocks of `fp` have become those of `fp'`, and these callbacks were made. -/
structure Does (m m' : BackendHeap) (fp fp' : Multiset Block) (told : List Callback) : Prop
    extends Changes m m' fp fp' where
  told : m'.callbacks = m.callbacks ++ told

section Does

variable {m m' m'' : BackendHeap} {fp fp' fp'' r x x' : Multiset Block}
  {told told' : List Callback}

theorem Does.refl (h : Owns m fp) : Does m m fp fp [] :=
  ⟨Changes.refl h, (List.append_nil _).symm⟩

theorem Does.trans (h : Does m m' fp fp' told) (h' : Does m' m'' fp' fp'' told') :
    Does m m'' fp fp'' (told ++ told') :=
  ⟨h.toChanges.trans h'.toChanges, by rw [h'.told, h.told, List.append_assoc]⟩

theorem Does.frame (h : Does m m' fp fp' told) (hr : Owns m (fp + r)) :
    Does m m' (fp + r) (fp' + r) told :=
  ⟨h.toChanges.frame hr, h.told⟩

/-- The next function works on a part of what is owned now. -/
theorem Does.seq (h : Does m m' fp (x + r) told) (h' : Does m' m'' x x' told') :
    Does m m'' fp (x' + r) (told ++ told') :=
  h.trans (h'.frame h.after)

/-- The next function makes no callbacks. -/
theorem Does.seq_quiet (h : Does m m' fp (x + r) told) (h' : Does m' m'' x x' []) :
    Does m m'' fp (x' + r) told :=
  List.append_nil told ▸ h.seq h'

theorem Does.congr {gp gp' : Multiset Block} (h : Does m m' fp fp' told) (hfp : fp = gp)
    (hfp' : fp' = gp') : Does m m' gp gp' told :=
  hfp ▸ hfp' ▸ h

/-- What the new footprint has is known block by block. -/
theorem does_of (before : Owns m fp) (nodup : fp'.Nodup)
    (same : ∀ b, b ∉ fp → b ∉ fp' → Block.Same m m' b)
    (allocated : ∀ b ∈ fp', b ∈ fp ∨ m.next ≤ b.address)
    (live : ∀ b ∈ fp', Block.Live m' b) (bound : ∀ b ∈ fp', b.address < m'.next)
    (freed : ∀ b ∈ fp, b ∉ fp' → ¬ Block.Live m' b) (next : m.next ≤ m'.next)
    (told : m'.callbacks = m.callbacks) : Does m m' fp fp' [] := by
  refine ⟨⟨before, ⟨nodup, live, fun b hb => Nat.not_le.2 (bound b hb), ?_⟩, same, allocated,
    freed, fun b hb => Nat.le_trans next hb⟩, by rw [told, List.append_nil]⟩
  intro b hfresh
  have hb' : b ∉ fp' := fun hb => Nat.not_le.2 (bound b hb) hfresh
  by_cases hb : b ∈ fp
  · exact freed b hb hb'
  · exact mt (Block.live_congr (same b hb hb')).1 (before.sound b (Nat.le_trans next hfresh))

/-- A new block. -/
theorem does_alloc {b : Block} (hm : Owns m (0 : Multiset Block)) (hfresh : m.next ≤ b.address)
    (hsame : ∀ c, c ≠ b → Block.Same m m' c) (hlive : Block.Live m' b)
    (hnext : b.address < m'.next) (htold : m'.callbacks = m.callbacks) :
    Does m m' 0 {b} [] := by
  have hmem : ∀ {c : Block}, c ∈ ({b} : Multiset Block) ↔ c = b := Multiset.mem_singleton
  apply does_of hm (Multiset.nodup_singleton b) _ _ _ _ _
    (Nat.le_of_lt (Nat.lt_of_le_of_lt hfresh hnext)) htold
  · exact fun c _ hc => hsame c (mt hmem.2 hc)
  · intro c hc
    rw [hmem.1 hc]
    exact .inr hfresh
  · intro c hc
    rw [hmem.1 hc]
    exact hlive
  · intro c hc
    rw [hmem.1 hc]
    exact hnext
  · exact fun c hc => absurd hc (Multiset.notMem_zero c)

/-- Blocks are written to. -/
theorem does_write (hm : Owns m fp) (hsame : ∀ b, b ∉ fp → Block.Same m m' b)
    (hlive : ∀ b ∈ fp, Block.Live m' b) (hnext : m'.next = m.next)
    (htold : m'.callbacks = m.callbacks) : Does m m' fp fp [] := by
  apply does_of hm hm.nodup (fun b hb _ => hsame b hb) (fun b hb => .inl hb) hlive _
    (fun b hb hno => absurd hb hno) (Nat.le_of_eq hnext.symm) htold
  intro b hb
  rw [hnext]
  exact Nat.not_le.1 (hm.used b hb)

/-- A block is freed. -/
theorem does_free {b : Block} (hm : Owns m ({b} : Multiset Block))
    (hsame : ∀ c, c ≠ b → Block.Same m m' c) (hdead : ¬ Block.Live m' b)
    (hnext : m'.next = m.next) (htold : m'.callbacks = m.callbacks) :
    Does m m' {b} 0 [] := by
  have hmem : ∀ {c : Block}, c ∈ ({b} : Multiset Block) ↔ c = b := Multiset.mem_singleton
  have hzero : ∀ {c : Block} {p : Prop}, c ∈ (0 : Multiset Block) → p := fun hc =>
    absurd hc (Multiset.notMem_zero _)
  apply does_of hm Multiset.nodup_zero _ (fun c hc => hzero hc) (fun c hc => hzero hc)
    (fun c hc => hzero hc) _ (Nat.le_of_eq hnext.symm) htold
  · exact fun c hc _ => hsame c (mt hmem.2 hc)
  · intro c hc _
    rw [hmem.1 hc]
    exact hdead

/-- Addresses are handed out that nothing is put at. -/
theorem does_skip (hm : Owns m fp) (n : Nat) : Does m { m with next := m.next + n } fp fp [] :=
  does_of hm hm.nodup (fun _ _ _ => Block.same_refl _ _) (fun _ hb => .inl hb) hm.live
    (fun b hb => Nat.lt_of_lt_of_le (Nat.not_le.1 (hm.used b hb)) (Nat.le_add_right ..))
    (fun _ hb hno => absurd hb hno) (Nat.le_add_right ..) rfl

end Does

/-! ## Dictionaries without what they lead to -/

/-- A dictionary, its nodes and their keys. -/
def spine (d : Address) (l : List Cell) : Multiset Block :=
  Block.dictionary d ::ₘ
    ((addresses l).map Block.node ++ (keyAddresses l).map Block.text : List Block)

section Spine

variable {m : BackendHeap} {d : Address} {l l' : List Cell}

theorem mem_spine {b : Block} :
    b ∈ spine d l ↔ b = .dictionary d ∨ (∃ a ∈ addresses l, Block.node a = b) ∨
      ∃ a ∈ keyAddresses l, Block.text a = b := by
  rw [spine, Multiset.mem_cons, Multiset.mem_coe, List.mem_append, List.mem_map, List.mem_map]

theorem node_mem_spine {a : Address} : Block.node a ∈ spine d l ↔ a ∈ addresses l := by
  simp [mem_spine]

theorem text_mem_spine {a : Address} : Block.text a ∈ spine d l ↔ a ∈ keyAddresses l := by
  simp [mem_spine]

theorem dictionary_mem_spine {a : Address} : Block.dictionary a ∈ spine d l ↔ a = d := by
  simp [mem_spine]

theorem nodup_spine (h : (addresses l).Nodup) (h' : (keyAddresses l).Nodup) :
    (spine d l).Nodup := by
  refine Multiset.nodup_cons.2 ⟨by simp, Multiset.coe_nodup.2 (List.nodup_append.2 ⟨?_, ?_, ?_⟩)⟩
  · exact h.map fun _ _ => Block.node.inj
  · exact h'.map fun _ _ => Block.text.inj
  · intro b hb b' hb'
    obtain ⟨a, -, rfl⟩ := List.mem_map.1 hb
    obtain ⟨a', -, rfl⟩ := List.mem_map.1 hb'
    exact fun h => by cases h

/-- A part that is renewed has what it had, or what has been handed out since. -/
def Within (m : BackendHeap) (next : Address) (used used' : List Address) : Prop :=
  ∀ a ∈ used', a ∈ used ∨ m.next ≤ a ∧ a < next

theorem within_of_subset {next : Address} {used used' : List Address} (h : used' ⊆ used) :
    Within m next used used' :=
  fun _ ha => .inl (h ha)

theorem within_append {next : Address} {used new : List Address}
    (h : ∀ a ∈ new, m.next ≤ a ∧ a < next) : Within m next used (used ++ new) :=
  fun a ha => (List.mem_append.1 ha).imp_right (h a)

/-- **A function of the dictionary** changes the blocks of the dictionary. -/
theorem Updates.does {heap' : Heap} {next : Address} (h : Updates m.toHeap heap' d l l')
    (hm : Owns m (spine d l)) (hnext : m.next ≤ next)
    (hnodes : Within m next (addresses l) (addresses l'))
    (htexts : Within m next (keyAddresses l) (keyAddresses l')) :
    Does m { m with toHeap := heap', next := next } (spine d l) (spine d l') [] := by
  have hrepresents := h.represents
  have hold : ∀ b ∈ spine d l, b.address < next := fun b hb =>
    Nat.lt_of_lt_of_le (Nat.not_le.1 (hm.used b hb)) hnext
  refine does_of hm (nodup_spine hrepresents.ring.nodup hrepresents.apart) ?_ ?_ ?_ ?_ ?_ hnext rfl
  · intro b hb hb'
    cases b with
    | node a =>
        rw [node_mem_spine] at hb hb'
        exact h.nodes.same hb hb'
    | text a =>
        rw [text_mem_spine] at hb hb'
        exact h.texts.same hb hb'
    | dictionary a =>
        rw [dictionary_mem_spine] at hb
        exact h.dictionaries a hb
    | _ => rfl
  · intro b hb
    rcases mem_spine.1 hb with rfl | ⟨a, ha, rfl⟩ | ⟨a, ha, rfl⟩
    · exact .inl (dictionary_mem_spine.2 rfl)
    · exact (hnodes a ha).imp node_mem_spine.2 And.left
    · exact (htexts a ha).imp text_mem_spine.2 And.left
  · intro b hb
    rcases mem_spine.1 hb with rfl | ⟨a, ha, rfl⟩ | ⟨a, ha, rfl⟩
    · obtain ⟨dictionary, hdictionary, -⟩ := hrepresents.dictionary
      exact fun hno => Option.some_ne_none _ (hdictionary.symm.trans hno)
    · obtain ⟨c, hc, rfl⟩ := List.mem_map.1 ha
      obtain ⟨node, hnode, -⟩ := hrepresents.node hc
      exact fun hno => Option.some_ne_none _ (hnode.symm.trans hno)
    · obtain ⟨c, hc, rfl⟩ := List.mem_map.1 ha
      exact fun hno => Option.some_ne_none _ ((hrepresents.texts c hc).symm.trans hno)
  · intro b hb
    rcases mem_spine.1 hb with rfl | ⟨a, ha, rfl⟩ | ⟨a, ha, rfl⟩
    · exact hold _ (dictionary_mem_spine.2 rfl)
    · rcases hnodes a ha with hal | ⟨-, hlt⟩
      · exact hold _ (node_mem_spine.2 hal)
      · exact hlt
    · rcases htexts a ha with hal | ⟨-, hlt⟩
      · exact hold _ (text_mem_spine.2 hal)
      · exact hlt
  · intro b hb hb'
    rcases mem_spine.1 hb with rfl | ⟨a, ha, rfl⟩ | ⟨a, ha, rfl⟩
    · exact absurd (dictionary_mem_spine.2 rfl) hb'
    · exact not_not.2 (h.nodes.freed a (fun hal => hb' (node_mem_spine.2 hal)) (.inl ha))
    · exact not_not.2 (h.texts.freed a (fun hal => hb' (text_mem_spine.2 hal)) (.inl ha))

/-- A dictionary depends on its own blocks only. -/
theorem represents_congr {m m' : BackendHeap} (h : ∀ b ∈ spine d l, Block.Same m m' b)
    (hl : m.toHeap.Represents d l) : m'.toHeap.Represents d l :=
  hl.congr (h _ (dictionary_mem_spine.2 rfl)) (fun _ ha => h _ (node_mem_spine.2 ha))
    fun _ ha => h _ (text_mem_spine.2 ha)

/-- The block that a string is read from, if it is not the user's. -/
def Chars.blocks : Chars → Multiset Block
  | .given _ => 0
  | .block a => {.text a}

theorem readChars_congr {m m' : BackendHeap} {chars : Chars}
    (h : ∀ b ∈ chars.blocks, Block.Same m m' b) :
    m'.toHeap.readChars chars = m.toHeap.readChars chars := by
  cases chars with
  | given text => rfl
  | block a =>
      have htext : m'.texts a = m.texts a := h (.text a) (Multiset.mem_singleton_self _)
      rw [Heap.readChars, Heap.readChars, Heap.readText, Heap.readText, htext]

/-- The pointer leads to this string, which is the user's or lies in one of these blocks. -/
structure ReadsAs (m : BackendHeap) (c : Multiset Block) (chars : Chars) (text : String) :
    Prop where
  blocks : ∀ b ∈ chars.blocks, b ∈ c
  read : m.toHeap.readChars chars = .ok text

theorem ReadsAs.congr {m m' : BackendHeap} {c : Multiset Block} {chars : Chars} {text : String}
    (h : ReadsAs m c chars text) (hsame : ∀ b ∈ c, Block.Same m m' b) :
    ReadsAs m' c chars text :=
  ⟨h.blocks, (readChars_congr fun b hb => hsame b (h.blocks b hb)).trans h.read⟩

theorem ReadsAs.mono {c c' : Multiset Block} {chars : Chars} {text : String}
    (h : ReadsAs m c chars text) (hsub : ∀ b ∈ c, b ∈ c') : ReadsAs m c' chars text :=
  ⟨fun b hb => hsub b (h.blocks b hb), h.read⟩

theorem given_read (m : BackendHeap) (text : String) :
    m.toHeap.readChars (.given text) = .ok text := readChars_given m.toHeap text rfl

theorem readsAs_given (m : BackendHeap) (c : Multiset Block) (text : String) :
    ReadsAs m c (.given text) text :=
  ⟨fun b hb => absurd hb (Multiset.notMem_zero b), given_read m text⟩

end Spine

/-! ## Calls -/

section Calls

variable {m : BackendHeap} {d : Address} {l : List Cell}

theorem dictionaryCall_of_ok {α : Type} {f : Heap → Except DictionaryFault (α × Heap)} {x : α}
    {heap : Heap} (h : f m.toHeap = .ok (x, heap)) :
    m.dictionaryCall f = .ok (x, { m with toHeap := heap }) := by
  rw [BackendHeap.dictionaryCall, h]

theorem dictionaryCall_of_error {α : Type} {f : Heap → Except DictionaryFault (α × Heap)}
    {e : DictionaryFault} (h : f m.toHeap = .error e) :
    m.dictionaryCall f = .error e.backendFault := by
  rw [BackendHeap.dictionaryCall, h]

theorem dictionaryRead_of_ok {α : Type} {f : Heap → Except DictionaryFault α} {x : α}
    (h : f m.toHeap = .ok x) : m.dictionaryRead f = .ok x := by
  rw [BackendHeap.dictionaryRead, h]
  rfl

/-- Where nothing has been handed out there is no node. -/
theorem nodes_of_fresh {fp : Multiset Block} (hm : Owns m fp) {a : Address} (ha : m.next ≤ a) :
    m.nodes a = none :=
  not_not.1 (hm.sound (.node a) ha)

theorem dictionaries_of_fresh {fp : Multiset Block} (hm : Owns m fp) {a : Address}
    (ha : m.next ≤ a) : m.dictionaries a = none :=
  not_not.1 (hm.sound (.dictionary a) ha)

theorem texts_of_fresh {fp : Multiset Block} (hm : Owns m fp) {a : Address} (ha : m.next ≤ a) :
    m.texts a = none :=
  not_not.1 (hm.sound (.text a) ha)

theorem get_eq (h : m.toHeap.Represents d l) {chars : Chars} {key : String}
    (hchars : m.toHeap.readChars chars = .ok key) :
    m.get (some d) chars = .ok ((l.find? (hasKey Cell.key key)).map Cell.node) :=
  dictionaryRead_of_ok (dictionaryGet_eq h hchars)

/-- A node of the dictionary is read. -/
theorem readNode_eq (h : m.toHeap.Represents d l) {c : Cell} (hc : c ∈ l) :
    ∃ node, m.dictionaryRead (·.readNode (some c.node)) = .ok node ∧ node.key = c.keyAt ∧
      node.data = c.content.data ∧ node.next = (m.toHeap.pointers d).fd (some c.node) := by
  obtain ⟨node, hnode, hkey, hdata, hnext, -⟩ := h.node hc
  exact ⟨node, dictionaryRead_of_ok (readNode_of_nodes hnode), hkey, hdata, hnext⟩

theorem nodeData_eq (h : m.toHeap.Represents d l) {c : Cell} (hc : c ∈ l) :
    m.nodeData (some c.node) = .ok c.content.data := by
  obtain ⟨node, hread, -, hdata, -⟩ := readNode_eq h hc
  rw [BackendHeap.nodeData, hread, ← hdata]
  rfl

theorem dataDictionary_eq (h : m.toHeap.Represents d l) :
    ∃ dictionary, m.dataDictionary (some d) = .ok dictionary ∧ dictionary.length = l.length ∧
      dictionary.first = (addresses l).head? := by
  obtain ⟨dictionary, hdictionary, hlength, hfirst, -⟩ := h.dictionary
  refine ⟨dictionary, dictionaryRead_of_ok (readDictionary_of_dictionaries hdictionary), hlength,
    ?_⟩
  rw [hfirst, h.first_eq]

theorem length_eq (h : m.toHeap.Represents d l) : m.length (some d) = l.length := by
  obtain ⟨dictionary, hdictionary, hlength, -, -⟩ := h.dictionary
  rw [BackendHeap.length, Option.bind_some, hdictionary, Option.map_some, Option.getD_some,
    hlength, Int.toNat_natCast]

theorem deleteNode_of_ok {self : Option Address} {key : Chars} {heap : Heap}
    (h : dictionaryDeleteNode self (some key) m.toHeap = .ok heap) :
    m.deleteNode self key = .ok { m with toHeap := heap } := by
  rw [BackendHeap.deleteNode, BackendHeap.dictionaryCall, h]
  rfl

theorem delete_of_ok {self : Option Address} {uBound : Int} {heap : Heap}
    (h : dictionaryDelete self none uBound m.toHeap = .ok heap) :
    m.delete self uBound = .ok { m with toHeap := heap } := by
  rw [BackendHeap.delete, BackendHeap.dictionaryCall, h]
  rfl

theorem deleteNode_does {pre post : List Cell} {c : Cell}
    (h : m.toHeap.Represents d (pre ++ c :: post)) (hkey : c.key ∉ pre.map Cell.key)
    {chars : Chars} (hchars : m.toHeap.readChars chars = .ok c.key)
    (hm : Owns m (spine d (pre ++ c :: post))) :
    ∃ m', m.deleteNode (some d) chars = .ok m' ∧
      Does m m' (spine d (pre ++ c :: post)) (spine d (pre ++ post)) [] ∧
      m'.toHeap.Represents d (pre ++ post) := by
  obtain ⟨heap', hdelete, hupdates⟩ := dictionaryDeleteNode_updates h hchars
  rw [eraseP_split Cell.key rfl hkey] at hupdates
  have hpart : (pre ++ post).Sublist (pre ++ c :: post) :=
    (List.sublist_cons_self c post).append_left pre
  refine ⟨{ m with toHeap := heap' }, deleteNode_of_ok hdelete, ?_, hupdates.represents⟩
  exact hupdates.does hm (Nat.le_refl _) (within_of_subset (hpart.map Cell.node).subset)
    (within_of_subset (hpart.map Cell.keyAt).subset)

/-- The blocks of a new node lie where nothing has been handed out. -/
theorem snoc_does {heap' : Heap} {next a k : Address} {n : DictionaryNode Address}
    (h : Updates m.toHeap heap' d l (l ++ [⟨a, k, n⟩])) (hm : Owns m (spine d l))
    (ha : m.next ≤ a ∧ a < next) (hk : m.next ≤ k ∧ k < next) :
    Does m { m with toHeap := heap', next := next } (spine d l) (spine d (l ++ [⟨a, k, n⟩]))
      [] := by
  refine h.does hm (Nat.le_trans ha.1 (Nat.le_of_lt ha.2)) ?_ ?_
  · rw [addresses_append]
    exact within_append fun b hb => List.mem_singleton.1 hb ▸ ha
  · rw [keyAddresses_append]
    exact within_append fun b hb => List.mem_singleton.1 hb ▸ hk

/-- The cell of the node that `dictionary_add` makes. -/
def newCell (m : BackendHeap) (key : String) (data : Option Address) : Cell :=
  ⟨m.next, m.next + 1, { key := key, data := data }⟩

theorem malloc_of_true {succeeds : Bool} (h : succeeds = true) (m : BackendHeap) :
    m.malloc succeeds = (some m.next, { m with next := m.next + 1 }) := if_pos h

theorem mallocNode_of_succeeds {mem : AddMemory} (h : mem.Succeeds) (m : BackendHeap) :
    m.mallocNode mem = (⟨some m.next, some (m.next + 1)⟩, { m with next := m.next + 2 }) := by
  rw [BackendHeap.mallocNode, malloc_of_true h.1]
  dsimp only
  rw [malloc_of_true h.2]

/-- The addresses of a node and of its key. -/
theorem pair_fresh (n : Nat) : (n ≤ n ∧ n < n + 2) ∧ n ≤ n + 1 ∧ n + 1 < n + 2 := by
  omega

theorem add_does (h : m.toHeap.Represents d l) (hroom : (l.length : Int) < intMax)
    (hm : Owns m (spine d l)) {mem : AddMemory} (hmem : mem.Succeeds) {chars : Chars}
    {key : String} (hchars : m.toHeap.readChars chars = .ok key) (data : Option Address) :
    ∃ m', m.add mem (some d) chars data = .ok (some m.next, m') ∧
      Does m m' (spine d l) (spine d (l ++ [newCell m key data])) [] ∧
      m'.toHeap.Represents d (l ++ [newCell m key data]) := by
  obtain ⟨heap', hadd, hupdates⟩ := dictionaryAdd_updates h
    (nodes_of_fresh hm (Nat.le_refl m.next)) (texts_of_fresh hm (Nat.le_succ m.next)) hroom hchars
    data
  refine ⟨{ m with toHeap := heap', next := m.next + 2 }, ?_, ?_, hupdates.represents⟩
  · rw [BackendHeap.add, mallocNode_of_succeeds hmem]
    exact dictionaryCall_of_ok hadd
  · exact snoc_does hupdates hm (pair_fresh m.next).1 (pair_fresh m.next).2

/-- A dictionary that is new. -/
theorem newDictionary_does (hm : Owns m (0 : Multiset Block)) {a : Address} (ha : m.next ≤ a) :
    Does m { m with toHeap := m.writeDictionary a DictionarySt.new, next := a + 1 } 0 (spine a [])
      [] := by
  refine does_alloc (b := .dictionary a) hm ha ?_ ?_ (Nat.lt_succ_self a) rfl
  · intro c hc
    cases c with
    | dictionary b =>
        exact writeDictionary_of_ne (fun heq => hc (congrArg Block.dictionary heq)) _ m.toHeap
    | _ => rfl
  · intro hno
    rw [writeDictionary_self] at hno
    exact Option.some_ne_none _ hno

theorem getCreate_found (h : m.toHeap.Represents d l) {chars : Chars} {key : String}
    (hchars : m.toHeap.readChars chars = .ok key) {a : Address}
    (hfound : (l.find? (hasKey Cell.key key)).map Cell.node = some a) {mem : CreateMemory}
    (hmem : mem.Succeeds) :
    m.getCreate mem (some d) chars = .ok (some a, { m with next := m.next + 3 }) := by
  have hget := dictionaryGet_eq h hchars
  rw [hfound] at hget
  have hcall : dictionaryGetCreate ⟨some m.next, some (m.next + 1)⟩ (some (m.next + 2)) (some d)
      (some chars) m.toHeap = .ok (some a, m.toHeap) := by
    rw [dictionaryGetCreate, hget]
    rfl
  rw [BackendHeap.getCreate, mallocNode_of_succeeds hmem.1]
  dsimp only
  rw [malloc_of_true hmem.2]
  exact dictionaryCall_of_ok hcall

/-- The node that `dictionary_get(.., CREATE)` adds has a dictionary of its own. -/
theorem getCreate_does (h : m.toHeap.Represents d l) (hroom : (l.length : Int) < intMax)
    (hm : Owns m (spine d l)) {chars : Chars} {key : String}
    (hchars : m.toHeap.readChars chars = .ok key)
    (hno : l.find? (hasKey Cell.key key) = none) {mem : CreateMemory} (hmem : mem.Succeeds) :
    ∃ m' l', l' = l ++ [newCell m key (some (m.next + 2))] ∧
      m.getCreate mem (some d) chars = .ok (some m.next, m') ∧
      Does m m' (spine d l) (spine d l' + spine (m.next + 2) []) [] ∧
      m'.toHeap.Represents d l' ∧ m'.toHeap.Represents (m.next + 2) [] := by
  have hne : d ≠ m.next + 2 := by
    rintro rfl
    exact hm.used _ (dictionary_mem_spine.2 rfl) (Nat.le_add_right m.next 2)
  obtain ⟨heap₁, hadd, hupdates⟩ := dictionaryAdd_updates h
    (nodes_of_fresh hm (Nat.le_refl m.next)) (texts_of_fresh hm (Nat.le_succ m.next)) hroom hchars
    none
  obtain ⟨node, hnode, hkey, -⟩ :=
    hupdates.represents.node (List.mem_append_right l List.mem_cons_self)
  have hupdates₂ := hupdates.trans
    (setData_updates hupdates.represents hnode hkey (some (m.next + 2)))
  -- the new dictionary is made before the node is given it, but nothing reads it in between
  have hdoes := snoc_does hupdates₂ hm (pair_fresh m.next).1 (pair_fresh m.next).2
  have hnew := newDictionary_does hdoes.after.zero (Nat.le_refl (m.next + 2))
  refine ⟨_, _, rfl, ?_, (hdoes.congr rfl (Multiset.zero_add _).symm).seq_quiet hnew |>.congr rfl
    (Multiset.add_comm ..), ?_, represents_new _ _⟩
  · have hget := dictionaryGet_eq h hchars
    rw [hno] at hget
    rw [BackendHeap.getCreate, mallocNode_of_succeeds hmem.1]
    dsimp only
    rw [malloc_of_true hmem.2]
    refine dictionaryCall_of_ok ?_
    dsimp only
    rw [dictionaryGetCreate, hget]
    dsimp only [Option.map_none]
    rw [ok_bind]
    dsimp only
    rw [hadd, ok_bind]
    dsimp only
    rw [dictionaryInit, Option.none_or]
    dsimp only
    rw [show (heap₁.writeDictionary (m.next + 2) DictionarySt.new).readNode (some m.next) =
      .ok node from readNode_of_nodes hnode, ok_bind]
    rfl
  · exact hupdates₂.represents.congr (writeDictionary_of_ne hne _ _) (fun _ _ => rfl)
      fun _ _ => rfl

/-- The blocks of the nodes that `dictionary_iter` makes. -/
def copies (m : BackendHeap) (count : Nat) : List (Address × Address) :=
  (List.range count).map fun i => (m.next + 1 + 2 * i, m.next + 1 + 2 * i + 1)

theorem length_copies (m : BackendHeap) (count : Nat) : (copies m count).length = count := by
  rw [copies, List.length_map, List.length_range]

/-- Two addresses for each of some nodes. -/
theorem pair_bounds {n i count : Nat} (h : i < count) :
    (n ≤ n + 2 * i ∧ n + 2 * i < n + 2 * count) ∧
      n ≤ n + 2 * i + 1 ∧ n + 2 * i + 1 < n + 2 * count := by
  omega

theorem mem_copies {count : Nat} {b : Address × Address} (h : b ∈ copies m count) :
    (m.next + 1 ≤ b.1 ∧ b.1 < m.next + 1 + 2 * count) ∧
      m.next + 1 ≤ b.2 ∧ b.2 < m.next + 1 + 2 * count := by
  obtain ⟨i, hi, rfl⟩ := List.mem_map.1 h
  exact pair_bounds (List.mem_range.1 hi)

/-- What `dictionary_iter` is given to copy to. -/
theorem copies_offers {fp : Multiset Block} (hm : Owns m fp) (count : Nat) :
    m.toHeap.Offers (copies m count) := by
  refine ⟨fun b hb => ?_, fun b hb => ?_, ?_, ?_⟩
  · exact nodes_of_fresh hm (Nat.le_of_succ_le (mem_copies hb).1.1)
  · exact texts_of_fresh hm (Nat.le_of_succ_le (mem_copies hb).2.1)
  · rw [copies, List.map_map]
    exact List.nodup_range.map fun i j h =>
      Nat.eq_of_mul_eq_mul_left (Nat.succ_pos 1) (Nat.add_left_cancel h)
  · rw [copies, List.map_map]
    exact List.nodup_range.map fun i j h =>
      Nat.eq_of_mul_eq_mul_left (Nat.succ_pos 1) (Nat.add_left_cancel (Nat.succ.inj h))

/-- The copies lie where they are offered room. -/
theorem addresses_copyCells_subset (blocks : List (Address × Address)) (l : List Cell) :
    addresses (copyCells blocks l) ⊆ blocks.map Prod.fst ∧
      keyAddresses (copyCells blocks l) ⊆ blocks.map Prod.snd := by
  induction blocks generalizing l with
  | nil => exact ⟨fun _ ha => ha, fun _ ha => ha⟩
  | cons b bs ih =>
      cases l with
      | nil => exact ⟨fun _ hno => absurd hno List.not_mem_nil, fun _ hno =>
          absurd hno List.not_mem_nil⟩
      | cons c rest =>
          exact ⟨List.cons_subset_cons b.1 (ih rest).1, List.cons_subset_cons b.2 (ih rest).2⟩

/-- A copy of a window, in memory that was not in use. -/
theorem iter_does (h : m.toHeap.Represents d l) (hsize : (l.length : Int) ≤ intMax)
    (hm : Owns m (spine d l)) {mem : IterMemory} (hmem : mem.Succeeds) (marker : Option String)
    (uBound : UInt32) :
    ∃ m' copied, m.iter mem (some d) marker uBound = .ok (some m.next, m') ∧
      Does m m' 0 (spine m.next copied) [] ∧ m'.toHeap.Represents m.next copied ∧
      copied.map Cell.content = (window Cell.key marker uBound.toNat l).map Cell.content := by
  have hwindow := (window_sublist Cell.key marker uBound.toNat l).length_le
  have henough : (window Cell.key marker uBound.toNat l).length ≤
      (copies m l.length).length := by
    rw [length_copies]
    exact hwindow
  obtain ⟨heap', hiter, hupdates⟩ := dictionaryIter_updates h hsize marker uBound
    (dictionaries_of_fresh hm (Nat.le_refl m.next)) (copies_offers hm l.length) henough
  have hnew := newDictionary_does hm.zero (Nat.le_refl m.next)
  have hsubset := addresses_copyCells_subset (copies m l.length)
    (window Cell.key marker uBound.toNat l)
  have hdoes := hupdates.does (m := { m with
    toHeap := m.writeDictionary m.next DictionarySt.new, next := m.next + 1 })
    hnew.after (Nat.le_add_right _ (2 * l.length))
    (fun a ha => by
      obtain ⟨b, hb, rfl⟩ := List.mem_map.1 (hsubset.1 ha)
      exact .inr (mem_copies hb).1)
    fun a ha => by
      obtain ⟨b, hb, rfl⟩ := List.mem_map.1 (hsubset.2 ha)
      exact .inr (mem_copies hb).2
  refine ⟨_, _, ?_, hnew.trans hdoes, hupdates.represents, map_copyCells henough⟩
  have hblocks : (List.range l.length).map (fun i =>
      ({ m with next := m.next + 1 + 2 * i }.mallocNode (mem.add i)).1) =
        granted (copies m l.length) := by
    rw [granted, copies, List.map_map]
    refine List.map_congr_left fun i _ => ?_
    rw [mallocNode_of_succeeds (hmem.2 i)]
    rfl
  rw [BackendHeap.iter, length_eq h, malloc_of_true hmem.1]
  dsimp only
  rw [hblocks]
  exact dictionaryCall_of_ok hiter

end Calls

/-! ## Freeing -/

section Free

variable {m : BackendHeap} {d : Address} {l : List Cell}

theorem freeDictionary_does (hm : Owns m (spine d [])) :
    ∃ m', m.freeDictionary (some d) = .ok m' ∧ Does m m' (spine d []) 0 [] := by
  have hlive := hm.live _ (dictionary_mem_spine.2 rfl)
  obtain ⟨dictionary, hdictionary⟩ := Option.ne_none_iff_exists'.1 hlive
  refine ⟨{ m with dictionaries := Function.update m.dictionaries d none }, ?_, ?_⟩
  · rw [BackendHeap.freeDictionary, hdictionary]
  · refine does_free (b := .dictionary d) hm ?_ ?_ rfl rfl
    · intro c hc
      cases c with
      | dictionary b =>
          exact Function.update_of_ne (fun heq => hc (congrArg Block.dictionary heq)) ..
      | _ => rfl
    · exact not_not.2 (Function.update_self ..)

/-- The nodes of the copied list are deleted, then the list itself. -/
theorem freeIterator_does (h : m.toHeap.Represents d l) (hkeys : (l.map Cell.key).Nodup)
    (hm : Owns m (spine d l)) :
    ∃ m', freeIterator d m = .ok m' ∧ Does m m' (spine d l) 0 [] := by
  obtain ⟨dictionary, hread, hlength, -⟩ := dataDictionary_eq h
  have hmin : intMin ≤ dictionary.length := by
    rw [hlength, intMin]
    omega
  obtain ⟨heap', hdelete, hupdates⟩ :=
    dictionaryDelete_updates h hkeys none hmin (.inl (by omega))
  have hall : (before Cell.key none l ++ (startAt Cell.key none l).drop
      (counted dictionary.length (startAt Cell.key none l).length)) = [] := by
    rw [show startAt Cell.key none l = l from rfl, hlength, counted,
      if_neg (by omega), Int.toNat_natCast, Nat.min_self, List.drop_length, List.append_nil]
    have hsplit := congrArg List.length (before_startAt none l)
    rw [List.length_append, show startAt Cell.key none l = l from rfl] at hsplit
    exact List.length_eq_zero_iff.1 (by omega)
  rw [hall] at hupdates
  have hdoes := hupdates.does hm (Nat.le_refl m.next)
    (within_of_subset (List.nil_subset _)) (within_of_subset (List.nil_subset _))
  obtain ⟨m', hfree, hfreed⟩ := freeDictionary_does hdoes.after
  refine ⟨m', ?_, hdoes.trans hfreed⟩
  rw [freeIterator, hread, ok_bind, delete_of_ok hdelete]
  exact hfree

/-- Filters or a command, in a block that is free again in the end. -/
theorem mallocScratch_does (hm : Owns m (0 : Multiset Block)) :
    ∃ m', m.mallocScratch = (m.next, m') ∧ Does m m' 0 {.scratch m.next} [] ∧
      m'.toHeap = m.toHeap := by
  refine ⟨_, rfl, ?_, rfl⟩
  refine does_alloc hm (Nat.le_refl m.next) ?_ ?_ (Nat.lt_succ_self m.next) rfl
  · intro c hc
    cases c with
    | scratch b => exact Function.update_of_ne (fun heq => hc (congrArg Block.scratch heq)) ..
    | _ => rfl
  · have hlive : Function.update m.scratch m.next true m.next = true := Function.update_self ..
    exact fun hno => Bool.false_ne_true (Eq.trans (Eq.symm hno) hlive)

theorem freeScratch_does {a : Address} (hm : Owns m ({.scratch a} : Multiset Block)) :
    ∃ m', m.freeScratch a = .ok m' ∧ Does m m' {.scratch a} 0 [] := by
  have hlive := hm.live _ (Multiset.mem_singleton_self _)
  refine ⟨_, if_pos (Bool.not_eq_false _ ▸ hlive), ?_⟩
  refine does_free hm ?_ ?_ rfl rfl
  · intro c hc
    cases c with
    | scratch b => exact Function.update_of_ne (fun heq => hc (congrArg Block.scratch heq)) ..
    | _ => rfl
  · exact not_not.2 (Function.update_self ..)

theorem freeMessage_does {a : Address} (hm : Owns m ({.message a} : Multiset Block)) :
    ∃ m', m.freeMessage a = .ok m' ∧ Does m m' {.message a} 0 [] := by
  obtain ⟨message, hmessage⟩ := Option.ne_none_iff_exists'.1
    (hm.live _ (Multiset.mem_singleton_self _))
  refine ⟨{ m with messages := Function.update m.messages a none }, ?_, ?_⟩
  · rw [BackendHeap.freeMessage, hmessage]
  · refine does_free hm ?_ ?_ rfl rfl
    · intro c hc
      cases c with
      | message b => exact Function.update_of_ne (fun heq => hc (congrArg Block.message heq)) ..
      | _ => rfl
    · exact not_not.2 (Function.update_self ..)

theorem freeText_does {a : Address} (hm : Owns m ({.text a} : Multiset Block)) :
    ∃ m', m.freeText a = .ok m' ∧ Does m m' {.text a} 0 [] := by
  obtain ⟨text, htext⟩ := Option.ne_none_iff_exists'.1
    (hm.live _ (Multiset.mem_singleton_self _))
  refine ⟨{ m with texts := Function.update m.texts a none }, ?_, ?_⟩
  · rw [BackendHeap.freeText, htext]
  · refine does_free hm ?_ ?_ rfl rfl
    · intro c hc
      cases c with
      | text b => exact Function.update_of_ne (fun heq => hc (congrArg Block.text heq)) ..
      | _ => rfl
    · exact not_not.2 (Function.update_self ..)

theorem freeBody_does {a : Address} (hm : Owns m ({.body a} : Multiset Block)) :
    ∃ m', m.freeBody a = .ok m' ∧ Does m m' {.body a} 0 [] := by
  obtain ⟨body, hbody⟩ := Option.ne_none_iff_exists'.1
    (hm.live _ (Multiset.mem_singleton_self _))
  refine ⟨{ m with bodies := Function.update m.bodies a none }, ?_, ?_⟩
  · rw [BackendHeap.freeBody, hbody]
  · refine does_free hm ?_ ?_ rfl rfl
    · intro c hc
      cases c with
      | body b => exact Function.update_of_ne (fun heq => hc (congrArg Block.body heq)) ..
      | _ => rfl
    · exact not_not.2 (Function.update_self ..)

/-- A message is written to. -/
theorem writeMessage_does {a : Address} (hm : Owns m ({.message a} : Multiset Block))
    (message : MessageSt) : Does m (m.writeMessage a message) {.message a} {.message a} [] := by
  refine does_write hm ?_ ?_ rfl rfl
  · intro c hc
    rw [Multiset.mem_singleton] at hc
    cases c with
    | message b => exact Function.update_of_ne (fun heq => hc (congrArg Block.message heq)) ..
    | _ => rfl
  · have hlive : Function.update m.messages a (some message) a = some message :=
      Function.update_self ..
    intro c hc
    rw [Multiset.mem_singleton.1 hc]
    exact fun hno => Option.some_ne_none message (hlive.symm.trans hno)

/-- Callbacks take nothing away. -/
theorem callbacks_does {fp : Multiset Block} (hm : Owns m fp) (told : List Callback) :
    Does m { m with callbacks := m.callbacks ++ told } fp fp told :=
  ⟨⟨hm, ⟨hm.nodup, hm.live, hm.used, hm.sound⟩, fun _ _ _ => Block.same_refl _ _,
    fun _ hb => .inl hb, fun _ hb hno => absurd hb hno, fun _ hb => hb⟩, rfl⟩

end Free

end Burrow.Memory.Chained
