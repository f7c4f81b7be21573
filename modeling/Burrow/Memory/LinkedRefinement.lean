import Burrow.Lib.Renewal
import Burrow.Memory.LinkedDictionary

/-!
# Dictionaries as lists of nodes

The nodes of a dictionary, in the order in which `next` leads to them, are a list of
cells: where a node and its key lie, what the key is, and the data (`Heap.Represents`). Every
function of `dictionary.c` finds or changes this list, and what belongs to other
dictionaries is left as it was (`Updates`).
-/

set_option autoImplicit false

namespace Burrow.Memory.Chained

open IntrusiveList KeyedList Renewal

/-- A node with its key, where they lie. -/
structure Cell where
  node : Address
  keyAt : Address
  content : DictionaryNode Address
deriving DecidableEq, Repr

def Cell.key (c : Cell) : String := c.content.key

/-- The addresses of the nodes. -/
def addresses (l : List Cell) : List Address := l.map Cell.node

/-- The addresses of their keys. -/
def keyAddresses (l : List Cell) : List Address := l.map Cell.keyAt

/-- The fields of a node without its links. -/
def Node.content (node : Node) : Address × Option Address := (node.key, node.data)

/-- The pointers of a dictionary, which is the anchor of its nodes. -/
def Heap.pointers (heap : Heap) (self : Address) : Pointers Address :=
  { fd := fun
      | none => (heap.dictionaries self).bind DictionarySt.first
      | some a => (heap.nodes a).bind Node.next
    bk := fun
      | none => (heap.dictionaries self).bind DictionarySt.last
      | some a => (heap.nodes a).bind Node.previous }

/-- The dictionary has these nodes. -/
structure Heap.Represents (heap : Heap) (d : Address) (l : List Cell) : Prop where
  length : (heap.dictionaries d).map DictionarySt.length = some (l.length : Int)
  ring : Ring (heap.pointers d) (addresses l)
  nodes : ∀ c ∈ l, (heap.nodes c.node).map Node.content = some (c.keyAt, c.content.data)
  texts : ∀ c ∈ l, heap.texts c.keyAt = some c.key
  /-- no two nodes share a key block -/
  apart : (keyAddresses l).Nodup

/-- The dictionary has other nodes now, and what was not its own is as it was. -/
structure Updates (heap heap' : Heap) (d : Address) (l l' : List Cell) : Prop where
  represents : heap'.Represents d l'
  dictionaries : ∀ other, other ≠ d → heap'.dictionaries other = heap.dictionaries other
  nodes : Renews heap.nodes heap'.nodes (addresses l) (addresses l')
  texts : Renews heap.texts heap'.texts (keyAddresses l) (keyAddresses l')

@[simp] theorem addresses_append (l l' : List Cell) :
    addresses (l ++ l') = addresses l ++ addresses l' :=
  List.map_append

@[simp] theorem keyAddresses_append (l l' : List Cell) :
    keyAddresses (l ++ l') = keyAddresses l ++ keyAddresses l' :=
  List.map_append

theorem ok_bind {ε α β : Type} (a : α) (f : α → Except ε β) : (Except.ok a >>= f) = f a := rfl

/-! ## Reading and writing -/

section Pointers

variable (heap : Heap) (self : Address)

theorem pointers_fd_none :
    (heap.pointers self).fd none = (heap.dictionaries self).bind DictionarySt.first := rfl

theorem pointers_fd_some (a : Address) :
    (heap.pointers self).fd (some a) = (heap.nodes a).bind Node.next := rfl

theorem pointers_bk_none :
    (heap.pointers self).bk none = (heap.dictionaries self).bind DictionarySt.last := rfl

theorem pointers_bk_some (a : Address) :
    (heap.pointers self).bk (some a) = (heap.nodes a).bind Node.previous := rfl

end Pointers

section Heap

variable {heap : Heap} {self : Address}

theorem readNode_of_nodes {a : Address} {node : Node} (h : heap.nodes a = some node) :
    heap.readNode (some a) = .ok node := by
  simp only [Heap.readNode, h]

theorem readText_of_texts {a : Address} {text : String} (h : heap.texts a = some text) :
    heap.readText a = .ok text := by
  simp only [Heap.readText, h]

theorem readChars_given (heap : Heap) (text : String) {key : String} (h : key = text) :
    heap.readChars (.given text) = .ok key := congrArg Except.ok h.symm

theorem freeText_of_texts {a : Address} {text : String} (h : heap.texts a = some text) :
    heap.freeText a = .ok { heap with texts := Function.update heap.texts a none } := by
  simp only [Heap.freeText, h]

theorem readDictionary_of_dictionaries {dictionary : DictionarySt}
    (h : heap.dictionaries self = some dictionary) :
    heap.readDictionary self = .ok dictionary := by
  simp only [Heap.readDictionary, h]

@[simp] theorem writeDictionary_nodes (a : Address) (dictionary : DictionarySt) (heap : Heap) :
    (heap.writeDictionary a dictionary).nodes = heap.nodes := rfl

@[simp] theorem writeNode_nodes_self (a : Address) (node : Node) (heap : Heap) :
    (heap.writeNode a node).nodes a = some node := Function.update_self ..

theorem writeNode_nodes_of_ne {a b : Address} (h : b ≠ a) (node : Node) (heap : Heap) :
    (heap.writeNode a node).nodes b = heap.nodes b := Function.update_of_ne h ..

@[simp] theorem writeDictionary_self (dictionary : DictionarySt) (heap : Heap) :
    (heap.writeDictionary self dictionary).dictionaries self = some dictionary :=
  Function.update_self ..

theorem writeDictionary_of_ne {other : Address} (h : other ≠ self) (dictionary : DictionarySt)
    (heap : Heap) :
    (heap.writeDictionary self dictionary).dictionaries other = heap.dictionaries other :=
  Function.update_of_ne h ..

theorem freeNode_nodes_of_ne {a b : Address} (h : b ≠ a) (heap : Heap) :
    (heap.freeNode a).nodes b = heap.nodes b := Function.update_of_ne h ..

theorem fd_of_nodes {a : Address} {node : Node} (h : heap.nodes a = some node) :
    (heap.pointers self).fd (some a) = node.next := by
  rw [pointers_fd_some, h, Option.bind_some]

theorem bk_of_nodes {a : Address} {node : Node} (h : heap.nodes a = some node) :
    (heap.pointers self).bk (some a) = node.previous := by
  rw [pointers_bk_some, h, Option.bind_some]

theorem fd_of_dictionaries {dictionary : DictionarySt}
    (h : heap.dictionaries self = some dictionary) :
    (heap.pointers self).fd none = dictionary.first := by
  rw [pointers_fd_none, h, Option.bind_some]

theorem bk_of_dictionaries {dictionary : DictionarySt}
    (h : heap.dictionaries self = some dictionary) :
    (heap.pointers self).bk none = dictionary.last := by
  rw [pointers_bk_none, h, Option.bind_some]

end Heap

/-! ## What a dictionary has -/

namespace Heap.Represents

variable {heap heap' : Heap} {self : Address} {l : List Cell}

theorem dictionary (h : heap.Represents self l) :
    ∃ dictionary, heap.dictionaries self = some dictionary ∧
      dictionary.length = l.length ∧ dictionary.first = (heap.pointers self).fd none ∧
      dictionary.last = (heap.pointers self).bk none := by
  have hlength := h.length
  cases hd : heap.dictionaries self with
  | none =>
      rw [hd] at hlength
      exact absurd hlength (by simp)
  | some dictionary =>
      rw [hd, Option.map_some, Option.some.injEq] at hlength
      exact ⟨dictionary, rfl, hlength, (fd_of_dictionaries hd).symm, (bk_of_dictionaries hd).symm⟩

theorem node (h : heap.Represents self l) {c : Cell} (hc : c ∈ l) :
    ∃ node, heap.nodes c.node = some node ∧ node.key = c.keyAt ∧ node.data = c.content.data ∧
      node.next = (heap.pointers self).fd (some c.node) ∧
      node.previous = (heap.pointers self).bk (some c.node) := by
  have hcontent := h.nodes c hc
  cases hn : heap.nodes c.node with
  | none =>
      rw [hn] at hcontent
      exact absurd hcontent (by simp)
  | some node =>
      rw [hn, Option.map_some, Option.some.injEq, Node.content, Prod.mk.injEq] at hcontent
      exact ⟨node, rfl, hcontent.1, hcontent.2, (fd_of_nodes hn).symm, (bk_of_nodes hn).symm⟩

/-- Memory that is no node belongs to no dictionary. -/
theorem not_mem_of_none (h : heap.Represents self l) {a : Address} (ha : heap.nodes a = none) :
    a ∉ addresses l := by
  intro hmem
  obtain ⟨c, hc, rfl⟩ := List.mem_map.1 hmem
  obtain ⟨node, hnode, -⟩ := h.node hc
  exact absurd (ha.symm.trans hnode) (by simp)

/-- Where there is no string there is no key. -/
theorem not_mem_of_noText (h : heap.Represents self l) {a : Address} (ha : heap.texts a = none) :
    a ∉ keyAddresses l := by
  intro hmem
  obtain ⟨c, hc, rfl⟩ := List.mem_map.1 hmem
  exact absurd (ha.symm.trans (h.texts c hc)) (by simp)

/-- Only the dictionary, its nodes and their keys matter. -/
theorem congr (h : heap.Represents self l)
    (hself : heap'.dictionaries self = heap.dictionaries self)
    (hnodes : ∀ a ∈ addresses l, heap'.nodes a = heap.nodes a)
    (htexts : ∀ a ∈ keyAddresses l, heap'.texts a = heap.texts a) : heap'.Represents self l := by
  refine ⟨by rw [hself]; exact h.length, h.ring.congr ?_ ?_, ?_, ?_, h.apart⟩
  · intro y hy
    rcases List.mem_cons.1 hy with rfl | hy
    · exact congrArg (Option.bind · DictionarySt.first) hself
    · obtain ⟨a, ha, rfl⟩ := List.mem_map.1 hy
      exact congrArg (Option.bind · Node.next) (hnodes a ha)
  · intro y hy
    rcases List.mem_cons.1 hy with rfl | hy
    · exact congrArg (Option.bind · DictionarySt.last) hself
    · obtain ⟨a, ha, rfl⟩ := List.mem_map.1 hy
      exact congrArg (Option.bind · Node.previous) (hnodes a ha)
  · intro c hc
    rw [hnodes c.node (List.mem_map_of_mem hc)]
    exact h.nodes c hc
  · intro c hc
    rw [htexts c.keyAt (List.mem_map_of_mem hc)]
    exact h.texts c hc

end Heap.Represents

/-- Two dictionaries have no node and no key in common. -/
structure Apart (l l' : List Cell) : Prop where
  nodes : ∀ a ∈ addresses l, a ∉ addresses l'
  keys : ∀ a ∈ keyAddresses l, a ∉ keyAddresses l'

theorem Apart.symm {l l' : List Cell} (h : Apart l l') : Apart l' l :=
  ⟨fun a ha hmem => h.nodes a hmem ha, fun a ha hmem => h.keys a hmem ha⟩

theorem apart_nil (l : List Cell) : Apart l [] :=
  ⟨fun _ _ => List.not_mem_nil, fun _ _ => List.not_mem_nil⟩

namespace Updates

variable {heap heap₁ heap₂ : Heap} {self : Address} {l l₁ l₂ m : List Cell}

theorem refl (h : heap.Represents self l) : Updates heap heap self l l :=
  ⟨h, fun _ _ => rfl, Renews.refl _ _, Renews.refl _ _⟩

theorem trans (h : Updates heap heap₁ self l l₁) (h' : Updates heap₁ heap₂ self l₁ l₂) :
    Updates heap heap₂ self l l₂ := by
  refine ⟨h'.represents, ?_, h.nodes.trans h'.nodes, h.texts.trans h'.texts⟩
  intro other hother
  rw [h'.dictionaries other hother, h.dictionaries other hother]

/-- Another dictionary, with nodes and keys of its own, keeps them. -/
theorem other (h : Updates heap heap₁ self l l₁) {d : Address} (hd : d ≠ self)
    (hm : heap.Represents d m) (hapart : Apart m l) : heap₁.Represents d m := by
  refine hm.congr (h.dictionaries d hd) ?_ ?_
  · intro a ha
    obtain ⟨c, hc, rfl⟩ := List.mem_map.1 ha
    obtain ⟨node, hnode, -⟩ := hm.node hc
    exact h.nodes.other hnode (hapart.nodes c.node ha)
  · intro a ha
    obtain ⟨c, hc, rfl⟩ := List.mem_map.1 ha
    exact h.texts.other (hm.texts c hc) (hapart.keys c.keyAt ha)

/-- What the dictionary has now is its own, too. -/
theorem apart (h : Updates heap heap₁ self l l₁) {d : Address} (hm : heap.Represents d m)
    (hapart : Apart m l) : Apart m l₁ := by
  constructor
  · intro a ha hmem
    rcases h.nodes.fresh a hmem with hold | hnone
    · exact hapart.nodes a ha hold
    · exact hm.not_mem_of_none hnone ha
  · intro a ha hmem
    rcases h.texts.fresh a hmem with hold | hnone
    · exact hapart.keys a ha hold
    · exact hm.not_mem_of_noText hnone ha

end Updates

/-! ## Searching -/

section Get

variable {heap : Heap} {self : Address} {l : List Cell}

/-- The counted loop finds the first node with the key among the nodes it counts. -/
theorem dictionaryGetLoop_eq (h : heap.Represents self l) {chars : Chars} {key : String}
    (hchars : heap.readChars chars = .ok key) {rest : List Cell} (hrest : ∀ c ∈ rest, c ∈ l)
    {x : Option Address} (hlinked : Linked (heap.pointers self) x (addresses rest)) :
    dictionaryGetLoop chars rest.length ((heap.pointers self).fd x) heap =
      .ok ((rest.find? (hasKey Cell.key key)).map Cell.node) := by
  induction rest generalizing x with
  | nil =>
      rw [show (heap.pointers self).fd x = none from hlinked]
      rfl
  | cons c rest ih =>
      obtain ⟨hnext, -, hlinked⟩ := hlinked
      have hc := hrest c List.mem_cons_self
      obtain ⟨node, hnode, hkey, -, hnode_next, -⟩ := h.node hc
      rw [hnext, List.length_cons, dictionaryGetLoop, readNode_of_nodes hnode, ok_bind, hkey,
        readText_of_texts (h.texts c hc), ok_bind, hchars, ok_bind]
      by_cases hc : c.key = key
      · rw [if_pos hc, List.find?_cons_of_pos (by simpa using hc)]
        rfl
      · rw [if_neg hc, List.find?_cons_of_neg (by simpa using hc), hnode_next]
        exact ih (fun c' hc' => hrest c' (List.mem_cons_of_mem _ hc')) hlinked

/-- **`dictionary_get`** returns the node with the key, or `NULL`. -/
theorem dictionaryGet_eq (h : heap.Represents self l) {chars : Chars} {key : String}
    (hchars : heap.readChars chars = .ok key) :
    dictionaryGet (some self) (some chars) heap =
      .ok ((l.find? (hasKey Cell.key key)).map Cell.node) := by
  obtain ⟨dictionary, hdictionary, hlength, hfirst, -⟩ := h.dictionary
  rw [dictionaryGet, readDictionary_of_dictionaries hdictionary, ok_bind, hlength, hfirst,
    Int.toNat_natCast]
  exact dictionaryGetLoop_eq h hchars (fun _ hc => hc) h.ring.linked

/-- A key of the dictionary is read. -/
theorem Heap.Represents.readKey (h : heap.Represents self l) {c : Cell} (hc : c ∈ l) :
    heap.readChars (.block c.keyAt) = .ok c.key :=
  readText_of_texts (h.texts c hc)

end Get

/-! ## Links -/

section Links

variable {heap heap' : Heap} {self : Address}

theorem pointers_writeNode (a : Address) (node : Node) (heap : Heap) (self : Address) :
    (heap.writeNode a node).pointers self =
      { fd := Function.update (heap.pointers self).fd (some a) node.next
        bk := Function.update (heap.pointers self).bk (some a) node.previous } := by
  have hfd : ((heap.writeNode a node).pointers self).fd =
      Function.update (heap.pointers self).fd (some a) node.next := by
    refine Function.eq_update_iff.2 ⟨fd_of_nodes (writeNode_nodes_self a node heap), ?_⟩
    rintro (_ | b) hb
    · rfl
    · rw [pointers_fd_some, writeNode_nodes_of_ne fun h => hb (congrArg some h)]
      rfl
  have hbk : ((heap.writeNode a node).pointers self).bk =
      Function.update (heap.pointers self).bk (some a) node.previous := by
    refine Function.eq_update_iff.2 ⟨bk_of_nodes (writeNode_nodes_self a node heap), ?_⟩
    rintro (_ | b) hb
    · rfl
    · rw [pointers_bk_some, writeNode_nodes_of_ne fun h => hb (congrArg some h)]
      rfl
  rw [← hfd, ← hbk]

theorem pointers_writeDictionary (self : Address) (dictionary : DictionarySt) (heap : Heap) :
    (heap.writeDictionary self dictionary).pointers self =
      { fd := Function.update (heap.pointers self).fd none dictionary.first
        bk := Function.update (heap.pointers self).bk none dictionary.last } := by
  have hself : (heap.writeDictionary self dictionary).dictionaries self = some dictionary :=
    writeDictionary_self dictionary heap
  have hfd : ((heap.writeDictionary self dictionary).pointers self).fd =
      Function.update (heap.pointers self).fd none dictionary.first := by
    refine Function.eq_update_iff.2 ⟨fd_of_dictionaries hself, ?_⟩
    rintro (_ | b) hb
    · exact absurd rfl hb
    · rfl
  have hbk : ((heap.writeDictionary self dictionary).pointers self).bk =
      Function.update (heap.pointers self).bk none dictionary.last := by
    refine Function.eq_update_iff.2 ⟨bk_of_dictionaries hself, ?_⟩
    rintro (_ | b) hb
    · exact absurd rfl hb
    · rfl
  rw [← hfd, ← hbk]

/-- There is something at the end of the link. -/
def Heap.Has (heap : Heap) (self : Address) : Option Address → Prop
  | none => ∃ dictionary, heap.dictionaries self = some dictionary
  | some a => ∃ node, heap.nodes a = some node

/-- Only a link of the node at `x` was changed, or of the dictionary. -/
structure Relinks (heap heap' : Heap) (d : Address) (x : Option Address) : Prop where
  length : (heap'.dictionaries d).map DictionarySt.length =
    (heap.dictionaries d).map DictionarySt.length
  dictionaries : ∀ other, other ≠ d → heap'.dictionaries other = heap.dictionaries other
  content : ∀ a, (heap'.nodes a).map Node.content = (heap.nodes a).map Node.content
  nodes : ∀ a, some a ≠ x → heap'.nodes a = heap.nodes a
  texts : heap'.texts = heap.texts

theorem modifyEnd_relinks {x : Option Address} (hx : heap.Has self x)
    (onDictionary : DictionarySt → DictionarySt) (onNode : Node → Node)
    (hlength : ∀ dictionary, (onDictionary dictionary).length = dictionary.length)
    (hcontent : ∀ node, (onNode node).content = node.content) :
    ∃ heap', heap.modifyEnd self x onDictionary onNode = .ok heap' ∧
      Relinks heap heap' self x := by
  cases x with
  | none =>
      obtain ⟨dictionary, hdictionary⟩ := hx
      refine ⟨heap.writeDictionary self (onDictionary dictionary), ?_, ?_, ?_, ?_, ?_, rfl⟩
      · rw [Heap.modifyEnd, readDictionary_of_dictionaries hdictionary]
        rfl
      · rw [writeDictionary_self, hdictionary, Option.map_some, Option.map_some, hlength]
      · intro other hother
        exact writeDictionary_of_ne hother _ heap
      · exact fun a => rfl
      · exact fun a _ => rfl
  | some a =>
      obtain ⟨node, hnode⟩ := hx
      refine ⟨heap.writeNode a (onNode node), ?_, rfl, fun _ _ => rfl, ?_, ?_, rfl⟩
      · rw [Heap.modifyEnd, readNode_of_nodes hnode]
        rfl
      · intro b
        by_cases hb : b = a
        · rw [hb, writeNode_nodes_self, hnode, Option.map_some, Option.map_some, hcontent]
        · rw [writeNode_nodes_of_ne hb]
      · intro b hb
        exact writeNode_nodes_of_ne (fun heq => hb (congrArg some heq)) _ heap

/-- **The next pointer.** -/
theorem setNext_relinks {x : Option Address} (hx : heap.Has self x) (y : Option Address) :
    ∃ heap', heap.setNext self x y = .ok heap' ∧ Relinks heap heap' self x ∧
      heap'.pointers self =
        { heap.pointers self with fd := Function.update (heap.pointers self).fd x y } := by
  obtain ⟨heap', hset, hrelinks⟩ := modifyEnd_relinks hx ({ · with first := y })
    ({ · with next := y }) (fun _ => rfl) fun _ => rfl
  refine ⟨heap', hset, hrelinks, ?_⟩
  cases x with
  | none =>
      obtain ⟨dictionary, hdictionary⟩ := hx
      rw [Heap.modifyEnd, readDictionary_of_dictionaries hdictionary] at hset
      cases hset
      rw [pointers_writeDictionary, ← bk_of_dictionaries hdictionary, Function.update_eq_self]
  | some a =>
      obtain ⟨node, hnode⟩ := hx
      rw [Heap.modifyEnd, readNode_of_nodes hnode] at hset
      cases hset
      rw [pointers_writeNode, ← bk_of_nodes hnode, Function.update_eq_self]

/-- **The previous pointer.** -/
theorem setPrevious_relinks {x : Option Address} (hx : heap.Has self x) (y : Option Address) :
    ∃ heap', heap.setPrevious self x y = .ok heap' ∧ Relinks heap heap' self x ∧
      heap'.pointers self =
        { heap.pointers self with bk := Function.update (heap.pointers self).bk x y } := by
  obtain ⟨heap', hset, hrelinks⟩ := modifyEnd_relinks hx ({ · with last := y })
    ({ · with previous := y }) (fun _ => rfl) fun _ => rfl
  refine ⟨heap', hset, hrelinks, ?_⟩
  cases x with
  | none =>
      obtain ⟨dictionary, hdictionary⟩ := hx
      rw [Heap.modifyEnd, readDictionary_of_dictionaries hdictionary] at hset
      cases hset
      rw [pointers_writeDictionary, ← fd_of_dictionaries hdictionary, Function.update_eq_self]
  | some a =>
      obtain ⟨node, hnode⟩ := hx
      rw [Heap.modifyEnd, readNode_of_nodes hnode] at hset
      cases hset
      rw [pointers_writeNode, ← fd_of_nodes hnode, Function.update_eq_self]

end Links

theorem Relinks.refl (heap : Heap) (self : Address) (x : Option Address) :
    Relinks heap heap self x :=
  ⟨rfl, fun _ _ => rfl, fun _ => rfl, fun _ _ => rfl, rfl⟩

/-! ## Adding a node -/

section Add

variable {heap : Heap} {self : Address} {l : List Cell}

/-- The link of the last node, if there is one. -/
theorem linkLast_relinks {x : Option Address} (hx : x ≠ none → heap.Has self x) (a : Address) :
    ∃ heap', linkLast self x a heap = .ok heap' ∧ Relinks heap heap' self x ∧
      heap'.pointers self =
        { heap.pointers self with
          fd := if x = none then (heap.pointers self).fd
            else Function.update (heap.pointers self).fd x (some a) } := by
  by_cases hnone : x = none
  · refine ⟨heap, if_pos hnone, Relinks.refl heap self x, ?_⟩
    rw [if_pos hnone]
  · obtain ⟨heap', hset, hrelinks, hpointers⟩ := setNext_relinks (hx hnone) (some a)
    refine ⟨heap', ?_, hrelinks, ?_⟩
    · rw [linkLast, if_neg hnone]
      exact hset
    · rw [if_neg hnone, hpointers]

/-- The last node of a dictionary is one of its nodes. -/
theorem Heap.Represents.last_mem (h : heap.Represents self l) {z : Address}
    (hz : (heap.pointers self).bk none = some z) : z ∈ addresses l :=
  List.mem_of_getLast? (h.ring.last.symm.trans hz)

/-- A dictionary that has a last node has a first one. -/
theorem Heap.Represents.first_ne_none (h : heap.Represents self l)
    (hlast : (heap.pointers self).bk none ≠ none) : (heap.pointers self).fd none ≠ none := by
  have hring := h.ring
  cases hl : addresses l with
  | nil =>
      rw [hl] at hring
      exact absurd hring.last hlast
  | cons a as =>
      rw [hl] at hring
      rw [hring.linked.1]
      exact Option.some_ne_none a

theorem Heap.Represents.first_eq_none (h : heap.Represents self l)
    (hlast : (heap.pointers self).bk none = none) : (heap.pointers self).fd none = none := by
  have hring := h.ring
  have hnil : addresses l = [] := List.getLast?_eq_none_iff.1 (hring.last.symm.trans hlast)
  rw [hnil] at hring
  exact hring.linked

/-- The pointers of a node at the end, however they have been set. -/
theorem append_pointers (h : heap.Represents self l) {a : Address} (ha : a ∉ addresses l) :
    (heap.pointers self).append a =
      { fd := Function.update
          (if (heap.pointers self).bk none = none then
            Function.update (heap.pointers self).fd (some a) none
          else Function.update (Function.update (heap.pointers self).fd (some a) none)
            ((heap.pointers self).bk none) (some a))
          none (((heap.pointers self).fd none).or (some a))
        bk := Function.update
          (Function.update (heap.pointers self).bk (some a) ((heap.pointers self).bk none))
          none (some a) } := by
  rw [Pointers.append]
  congr 1
  by_cases hlast : (heap.pointers self).bk none = none
  · rw [if_pos hlast, hlast, h.first_eq_none hlast]
    exact Function.update_comm (Option.some_ne_none a).symm ..
  · have hne : (heap.pointers self).bk none ≠ some a := fun heq => ha (h.last_mem heq)
    obtain ⟨b, hb⟩ := Option.ne_none_iff_exists'.1 (h.first_ne_none hlast)
    have hkeeps : ((heap.pointers self).fd none).or (some a) =
        Function.update (Function.update (heap.pointers self).fd (some a) none)
          ((heap.pointers self).bk none) (some a) none := by
      rw [Function.update_of_ne (Ne.symm hlast),
        Function.update_of_ne (Option.some_ne_none a).symm, hb]
      rfl
    rw [if_neg hlast, hkeeps, Function.update_eq_self]
    exact Function.update_comm hne ..

/-- The new node is linked behind the last one. -/
theorem linkNew_relinks (h : heap.Represents self l) {a : Address} (ha : heap.nodes a = none)
    {last : Option Address} (hlast : last = (heap.pointers self).bk none) (node : Node) :
    ∃ heap', linkLast self last a (heap.writeNode a node) = .ok heap' ∧
      Relinks (heap.writeNode a node) heap' self last ∧
      heap'.pointers self =
        { (heap.writeNode a node).pointers self with
          fd := if last = none then ((heap.writeNode a node).pointers self).fd
            else Function.update ((heap.writeNode a node).pointers self).fd last (some a) } := by
  apply linkLast_relinks
  intro hne
  obtain ⟨z, hz⟩ := Option.ne_none_iff_exists'.1 hne
  have hzl := h.last_mem (hlast ▸ hz)
  obtain ⟨c, hc, rfl⟩ := List.mem_map.1 hzl
  obtain ⟨lastNode, hnode, -⟩ := h.node hc
  have hza : c.node ≠ a := fun heq => h.not_mem_of_none ha (heq ▸ hzl)
  rw [hz]
  exact ⟨lastNode, by rw [writeNode_nodes_of_ne hza]; exact hnode⟩

/-- A string that is new is no key of the dictionary. -/
theorem Heap.Represents.writeText (h : heap.Represents self l) {a : Address}
    (ha : heap.texts a = none) (text : String) : (heap.writeText a text).Represents self l := by
  refine h.congr rfl (fun _ _ => rfl) fun b hb => Function.update_of_ne ?_ ..
  rintro rfl
  exact h.not_mem_of_noText ha hb

/-- **`dictionary_add`** appends a node. -/
theorem dictionaryAdd_updates (h : heap.Represents self l) {a k : Address}
    (ha : heap.nodes a = none) (hk : heap.texts k = none) (hroom : (l.length : Int) < intMax)
    {chars : Chars} {key : String} (hchars : heap.readChars chars = .ok key)
    (data : Option Address) :
    ∃ heap', dictionaryAdd ⟨some a, some k⟩ (some self) chars data heap = .ok (some a, heap') ∧
      Updates heap heap' self l (l ++ [⟨a, k, { key := key, data := data }⟩]) := by
  obtain ⟨dictionary, hdictionary, hlength, hfirst, hlast⟩ := h.dictionary
  have hmem : a ∉ addresses l := h.not_mem_of_none ha
  have hkmem : k ∉ keyAddresses l := h.not_mem_of_noText hk
  obtain ⟨heap₂, hset, hrelinks, hpointers⟩ := linkNew_relinks (h.writeText hk key) ha hlast
    { key := k, previous := dictionary.last, next := none, data := data }
  have hincrement : increment dictionary.length = .ok (l.length + 1) := by
    rw [increment, hlength, if_pos hroom]
  have htext : heap₂.texts k = some key := by
    rw [hrelinks.texts]
    exact Function.update_self ..
  have htexts : ∀ b, b ≠ k → heap₂.texts b = heap.texts b := by
    intro b hb
    rw [hrelinks.texts]
    exact Function.update_of_ne hb ..
  refine ⟨heap₂.writeDictionary self
    { first := dictionary.first.or (some a), last := some a, length := l.length + 1 }, ?_,
    ⟨?_, ?_, ?_, ?_, ?_⟩, ?_, ?_, ?_⟩
  · change (heap.readChars chars >>= _) = _
    rw [hchars, ok_bind]
    dsimp only
    rw [readDictionary_of_dictionaries hdictionary, ok_bind, hset, ok_bind, hincrement, ok_bind]
    rfl
  · rw [writeDictionary_self, Option.map_some, List.length_append, List.length_singleton]
    exact congrArg some (Int.natCast_succ l.length).symm
  · have hpointers₀ : (heap.writeText k key).pointers self = heap.pointers self := rfl
    rw [pointers_writeDictionary, hpointers, pointers_writeNode, hpointers₀, addresses_append]
    have happend := append_pointers h hmem
    rw [← hfirst, ← hlast] at happend
    dsimp only
    rw [← happend]
    exact h.ring.append hmem
  · intro c hc
    rw [writeDictionary_nodes, hrelinks.content]
    rcases List.mem_append.1 hc with hc | hc
    · have hca : c.node ≠ a := fun heq => hmem (heq ▸ List.mem_map_of_mem hc)
      rw [writeNode_nodes_of_ne hca]
      exact h.nodes c hc
    · rw [List.mem_singleton.1 hc, writeNode_nodes_self]
      rfl
  · intro c hc
    rcases List.mem_append.1 hc with hc | hc
    · have hck : c.keyAt ≠ k := fun heq => hkmem (heq ▸ List.mem_map_of_mem hc)
      exact (htexts c.keyAt hck).trans (h.texts c hc)
    · rw [List.mem_singleton.1 hc]
      exact htext
  · rw [keyAddresses_append]
    exact h.apart.append (List.nodup_singleton k) (List.disjoint_singleton.2 hkmem)
  · intro other hother
    rw [writeDictionary_of_ne hother, hrelinks.dictionaries other hother]
    rfl
  · rw [addresses_append]
    refine Renews.of_new ha fun b hba hb => ?_
    rw [writeDictionary_nodes, hrelinks.nodes b, writeNode_nodes_of_ne hba]
    · rfl
    · exact fun heq => hb (h.last_mem (hlast ▸ heq.symm))
  · rw [keyAddresses_append]
    exact Renews.of_new hk fun b hbk _ => htexts b hbk

/-- A dictionary of `INT_MAX` nodes takes no more. -/
theorem dictionaryAdd_overflows (h : heap.Represents self l) {a k : Address}
    (ha : heap.nodes a = none) (hk : heap.texts k = none) (hfull : (l.length : Int) = intMax)
    {chars : Chars} {key : String} (hchars : heap.readChars chars = .ok key)
    (data : Option Address) :
    dictionaryAdd ⟨some a, some k⟩ (some self) chars data heap = .error .intOverflow := by
  obtain ⟨dictionary, hdictionary, hlength, -, hlast⟩ := h.dictionary
  obtain ⟨heap₂, hset, -⟩ := linkNew_relinks (h.writeText hk key) ha hlast
    { key := k, previous := dictionary.last, next := none, data := data }
  have hincrement : increment dictionary.length = .error .intOverflow := by
    rw [increment, hlength, hfull, if_neg (Int.lt_irrefl _)]
  change (heap.readChars chars >>= _) = _
  rw [hchars, ok_bind]
  dsimp only
  rw [readDictionary_of_dictionaries hdictionary, ok_bind, hset, ok_bind, hincrement]
  rfl

end Add

/-! ## Deleting a node -/

section DeleteNode

variable {heap : Heap} {self : Address} {l : List Cell}

theorem Relinks.has {heap' : Heap} {x z : Option Address} (h : Relinks heap heap' self x)
    (hz : heap.Has self z) : heap'.Has self z := by
  cases z with
  | none =>
      obtain ⟨dictionary, hdictionary⟩ := hz
      have hlength := h.length
      rw [hdictionary, Option.map_some] at hlength
      obtain ⟨dictionary', hdictionary', -⟩ := Option.map_eq_some_iff.1 hlength
      exact ⟨dictionary', hdictionary'⟩
  | some a =>
      obtain ⟨node, hnode⟩ := hz
      have hcontent := h.content a
      rw [hnode, Option.map_some] at hcontent
      obtain ⟨node', hnode', -⟩ := Option.map_eq_some_iff.1 hcontent
      exact ⟨node', hnode'⟩

/-- A link that leads to the dictionary or to one of its nodes. -/
theorem Heap.Represents.has (h : heap.Represents self l) {x : Option Address}
    {as : List Address} (hx : x ∈ none :: as.map some) (has : ∀ a ∈ as, a ∈ addresses l) :
    heap.Has self x := by
  rcases List.mem_cons.1 hx with rfl | hx
  · obtain ⟨dictionary, hdictionary, -⟩ := h.dictionary
    exact ⟨dictionary, hdictionary⟩
  · obtain ⟨a, ha, rfl⟩ := List.mem_map.1 hx
    obtain ⟨c, hc, rfl⟩ := List.mem_map.1 (has a ha)
    obtain ⟨node, hnode, -⟩ := h.node hc
    exact ⟨node, hnode⟩

/-- The neighbours of a node, or the ends of the dictionary. -/
theorem Heap.Represents.neighbours {pre post : List Cell} {c : Cell}
    (h : heap.Represents self (pre ++ c :: post)) :
    (heap.pointers self).bk (some c.node) ∈ none :: (addresses pre).map some ∧
      (heap.pointers self).fd (some c.node) ∈ none :: (addresses post).map some := by
  have hlinked := h.ring.linked
  rw [addresses_append] at hlinked
  refine ⟨hlinked.bk_mem, ?_⟩
  cases hnext : (heap.pointers self).fd (some c.node) with
  | none => exact List.mem_cons_self
  | some b => exact List.mem_cons_of_mem _ (List.mem_map_of_mem (hlinked.fd_mem hnext))

/-- A node and a key that no pointer leads to are freed, and the length is set to the number of
nodes. -/
theorem represents_of_free {dictionary : DictionarySt}
    (hdictionary : heap.dictionaries self = some dictionary)
    (hring : Ring (heap.pointers self) (addresses l))
    (hnodes : ∀ c ∈ l, (heap.nodes c.node).map Node.content = some (c.keyAt, c.content.data))
    (htexts : ∀ c ∈ l, heap.texts c.keyAt = some c.key) (hapart : (keyAddresses l).Nodup)
    {a k : Address} (ha : a ∉ addresses l) (hk : k ∉ keyAddresses l) :
    (({ heap with texts := Function.update heap.texts k none }.freeNode a).writeDictionary self
      { dictionary with length := l.length }).Represents self l := by
  have hne : ∀ b ∈ addresses l, b ≠ a := fun b hb heq => ha (heq ▸ hb)
  refine ⟨by rw [writeDictionary_self]; rfl, hring.congr ?_ ?_, ?_, ?_, hapart⟩
  · intro y hy
    rcases List.mem_cons.1 hy with rfl | hy
    · rw [pointers_fd_none, pointers_fd_none, writeDictionary_self, hdictionary]
      rfl
    · obtain ⟨b, hb, rfl⟩ := List.mem_map.1 hy
      rw [pointers_fd_some, pointers_fd_some, writeDictionary_nodes,
        freeNode_nodes_of_ne (hne b hb)]
  · intro y hy
    rcases List.mem_cons.1 hy with rfl | hy
    · rw [pointers_bk_none, pointers_bk_none, writeDictionary_self, hdictionary]
      rfl
    · obtain ⟨b, hb, rfl⟩ := List.mem_map.1 hy
      rw [pointers_bk_some, pointers_bk_some, writeDictionary_nodes,
        freeNode_nodes_of_ne (hne b hb)]
  · intro c hc
    rw [writeDictionary_nodes, freeNode_nodes_of_ne (hne c.node (List.mem_map_of_mem hc))]
    exact hnodes c hc
  · intro c hc
    have hck : c.keyAt ≠ k := fun heq => hk (heq ▸ List.mem_map_of_mem hc)
    exact (Function.update_of_ne hck ..).trans (htexts c hc)

/-- A link to one of these nodes, or to the dictionary, leads to no other node. -/
theorem some_ne_of_mem {x : Option Address} {as : List Address} (hx : x ∈ none :: as.map some)
    {a : Address} (ha : a ∉ as) : some a ≠ x := by
  intro heq
  rw [← heq] at hx
  rcases List.mem_cons.1 hx with hno | hmem
  · exact Option.some_ne_none _ hno
  · obtain ⟨b, hb, hba⟩ := List.mem_map.1 hmem
    exact ha (Option.some.inj hba ▸ hb)

/-- The two writes that join the neighbours of a node. -/
theorem join_neighbours {pre post : List Cell} {c : Cell}
    (h : heap.Represents self (pre ++ c :: post)) {node : Node}
    (hnode : heap.nodes c.node = some node) :
    ∃ heap₁ heap₂, heap.setNext self node.previous node.next = .ok heap₁ ∧
      heap₁.nodes c.node = some node ∧
      heap₁.setPrevious self node.next node.previous = .ok heap₂ ∧
      heap₂.nodes c.node = some node ∧ heap₂.texts = heap.texts ∧
      heap₂.pointers self = (heap.pointers self).unlink c.node ∧
      (heap₂.dictionaries self).map DictionarySt.length =
        some ((pre ++ c :: post).length : Int) ∧
      (∀ other, other ≠ self → heap₂.dictionaries other = heap.dictionaries other) ∧
      (∀ a, (heap₂.nodes a).map Node.content = (heap.nodes a).map Node.content) ∧
      ∀ a, a ∉ addresses (pre ++ c :: post) → heap₂.nodes a = heap.nodes a := by
  have hsplit : addresses (pre ++ c :: post) = addresses pre ++ c.node :: addresses post :=
    addresses_append pre (c :: post)
  have hnodup := h.ring.nodup
  rw [hsplit, List.nodup_append] at hnodup
  obtain ⟨hprev, hnext⟩ := h.neighbours
  rw [bk_of_nodes hnode] at hprev
  rw [fd_of_nodes hnode] at hnext
  have hpre : ∀ a ∈ addresses pre, a ∈ addresses (pre ++ c :: post) := fun a ha => by
    rw [hsplit]
    exact List.mem_append_left _ ha
  have hpost : ∀ a ∈ addresses post, a ∈ addresses (pre ++ c :: post) := fun a ha => by
    rw [hsplit]
    exact List.mem_append_right _ (List.mem_cons_of_mem _ ha)
  obtain ⟨heap₁, hset₁, hrelinks₁, hpointers₁⟩ :=
    setNext_relinks (h.has hprev hpre) node.next
  obtain ⟨heap₂, hset₂, hrelinks₂, hpointers₂⟩ :=
    setPrevious_relinks (hrelinks₁.has (h.has hnext hpost)) node.previous
  have hself : some c.node ≠ node.previous :=
    some_ne_of_mem hprev fun hmem => hnodup.2.2 c.node hmem c.node List.mem_cons_self rfl
  have hnode₁ := (hrelinks₁.nodes c.node hself).trans hnode
  have hbehind : some c.node ≠ node.next :=
    some_ne_of_mem hnext fun hmem => (List.nodup_cons.1 hnodup.2.1).1 hmem
  refine ⟨heap₁, heap₂, hset₁, hnode₁, hset₂, (hrelinks₂.nodes c.node hbehind).trans hnode₁,
    hrelinks₂.texts.trans hrelinks₁.texts, ?_, ?_, ?_, ?_, ?_⟩
  · rw [hpointers₂, hpointers₁, Pointers.unlink, pointers_fd_some, pointers_bk_some, hnode]
    rfl
  · rw [hrelinks₂.length, hrelinks₁.length, h.length]
  · intro other hother
    rw [hrelinks₂.dictionaries other hother, hrelinks₁.dictionaries other hother]
  · intro a
    rw [hrelinks₂.content, hrelinks₁.content]
  · intro a ha
    rw [hrelinks₂.nodes a (some_ne_of_mem hnext fun hmem => ha (hpost a hmem)),
      hrelinks₁.nodes a (some_ne_of_mem hprev fun hmem => ha (hpre a hmem))]

/-- **A node is taken out**: its neighbours are joined, and its key and its memory are freed. -/
theorem unlink_updates {pre post : List Cell} {c : Cell}
    (h : heap.Represents self (pre ++ c :: post)) {chars : Chars}
    (hget : dictionaryGet (some self) (some chars) heap = .ok (some c.node)) :
    ∃ heap', dictionaryDeleteNode (some self) (some chars) heap = .ok heap' ∧
      Updates heap heap' self (pre ++ c :: post) (pre ++ post) := by
  have hc : c ∈ pre ++ c :: post := List.mem_append_right pre List.mem_cons_self
  have hsplit : addresses (pre ++ c :: post) = addresses pre ++ c.node :: addresses post :=
    addresses_append pre (c :: post)
  have hsplit' : keyAddresses (pre ++ c :: post) =
      keyAddresses pre ++ c.keyAt :: keyAddresses post := keyAddresses_append pre (c :: post)
  obtain ⟨node, hnode, hkey, -⟩ := h.node hc
  obtain ⟨heap₁, heap₂, hset₁, hnode₁, hset₂, hnode₂, htexts₂, hunlink, hlength, hdictionaries,
    hcontent, hnodes⟩ := join_neighbours h hnode
  obtain ⟨dictionary, hdictionary, hlength⟩ := Option.map_eq_some_iff.1 hlength
  have htext : heap₂.texts c.keyAt = some c.key := by
    rw [htexts₂]
    exact h.texts c hc
  have hfree := freeText_of_texts htext
  have hread : (({ heap₂ with texts := Function.update heap₂.texts c.keyAt none } :
      Heap).freeNode c.node).readDictionary self = .ok dictionary :=
    readDictionary_of_dictionaries hdictionary
  have hrest : ((pre ++ c :: post).length : Int) - 1 = ((pre ++ post).length : Int) := by
    rw [List.length_append, List.length_append, List.length_cons]
    omega
  have hdecrement : decrement dictionary.length = .ok ((pre ++ post).length : Int) := by
    rw [decrement, hlength, if_pos (by rw [intMin]; omega), hrest]
  have hring := h.ring
  have hnodup := hring.nodup
  have hapart := h.apart
  rw [hsplit] at hring hnodup
  rw [hsplit'] at hapart
  have hgone : c.node ∉ addresses (pre ++ post) := by
    rw [addresses_append]
    exact (List.nodup_middle.1 hnodup).notMem
  have hgone' : c.keyAt ∉ keyAddresses (pre ++ post) := by
    rw [keyAddresses_append]
    exact (List.nodup_middle.1 hapart).notMem
  have hkept : ∀ c' ∈ pre ++ post, c' ∈ pre ++ c :: post := fun c' hc' =>
    ((List.sublist_cons_self c post).append_left pre).subset hc'
  refine ⟨({ heap₂ with texts := Function.update heap₂.texts c.keyAt none }.freeNode
    c.node).writeDictionary self { dictionary with length := ((pre ++ post).length : Int) }, ?_,
    ?_, ?_, ?_, ?_⟩
  · rw [dictionaryDeleteNode, hget, ok_bind]
    dsimp only
    rw [readNode_of_nodes hnode, ok_bind, hset₁, ok_bind, readNode_of_nodes hnode₁, ok_bind,
      hset₂, ok_bind, readNode_of_nodes hnode₂, ok_bind, hkey, hfree, ok_bind, hread, ok_bind,
      hdecrement, ok_bind]
    rfl
  · apply represents_of_free hdictionary _ _ _ _ hgone hgone'
    · rw [hunlink, addresses_append]
      exact hring.unlink
    · intro c' hc'
      rw [hcontent]
      exact h.nodes c' (hkept c' hc')
    · intro c' hc'
      rw [htexts₂]
      exact h.texts c' (hkept c' hc')
    · rw [keyAddresses_append]
      exact (List.nodup_middle.1 hapart).of_cons
  · intro other hother
    rw [writeDictionary_of_ne hother]
    exact hdictionaries other hother
  · rw [hsplit, addresses_append]
    refine Renews.of_freed (Function.update_self ..) fun a ha => ?_
    have hac : a ≠ c.node := by
      rintro rfl
      exact ha (List.mem_append_right _ List.mem_cons_self)
    rw [writeDictionary_nodes, freeNode_nodes_of_ne hac]
    exact hnodes a (hsplit ▸ ha)
  · rw [hsplit', keyAddresses_append]
    refine Renews.of_freed (Function.update_self ..) fun a ha => ?_
    have hac : a ≠ c.keyAt := by
      rintro rfl
      exact ha (List.mem_append_right _ List.mem_cons_self)
    exact (Function.update_of_ne hac ..).trans (congrFun htexts₂ a)

/-- **`dictionary_delete_node`** takes out the node with the key, if there is one. -/
theorem dictionaryDeleteNode_updates (h : heap.Represents self l) {chars : Chars} {key : String}
    (hchars : heap.readChars chars = .ok key) :
    ∃ heap', dictionaryDeleteNode (some self) (some chars) heap = .ok heap' ∧
      Updates heap heap' self l (l.eraseP (hasKey Cell.key key)) := by
  have hget := dictionaryGet_eq h hchars
  cases hfind : l.find? (hasKey Cell.key key) with
  | none =>
      rw [hfind] at hget
      rw [List.eraseP_of_forall_not (List.find?_eq_none.1 hfind)]
      refine ⟨heap, ?_, Updates.refl h⟩
      rw [dictionaryDeleteNode, hget]
      rfl
  | some c =>
      rw [hfind] at hget
      obtain ⟨hc, pre, post, rfl, hpre⟩ := List.find?_eq_some_iff_append.1 hfind
      have hbefore : ∀ b ∈ pre, ¬ hasKey Cell.key key b = true := by
        intro b hb
        have hno := hpre b hb
        rw [Bool.not_eq_true'] at hno
        rw [hno]
        exact Bool.false_ne_true
      rw [List.eraseP_append_right _ hbefore, List.eraseP_cons_of_pos hc]
      exact unlink_updates h hget

end DeleteNode

/-! ## Assigning through a node pointer -/

section SetData

variable {heap : Heap} {self : Address} {l : List Cell}

/-- Another dictionary that is made empty does not matter. -/
theorem Updates.beside {heap' : Heap} {l' : List Cell} (h : Updates heap heap' self l l')
    {d : Address} (hd : d ≠ self) (dictionary : DictionarySt) :
    Updates (heap.writeDictionary d dictionary) (heap'.writeDictionary d dictionary) self l l' := by
  refine ⟨h.represents.congr (writeDictionary_of_ne (Ne.symm hd) _ heap') (fun _ _ => rfl)
    fun _ _ => rfl, ?_, h.nodes, h.texts⟩
  intro other hother
  by_cases heq : other = d
  · rw [heq, writeDictionary_self, writeDictionary_self]
  · rw [writeDictionary_of_ne heq, writeDictionary_of_ne heq]
    exact h.dictionaries other hother

/-- Assignment through a node pointer: `node->data = data`. -/
theorem setData_updates {pre post : List Cell} {a k : Address} {n : DictionaryNode Address}
    (h : heap.Represents self (pre ++ ⟨a, k, n⟩ :: post)) {node : Node}
    (hnode : heap.nodes a = some node) (hkey : node.key = k) (data : Option Address) :
    Updates heap (heap.writeNode a { node with data := data }) self (pre ++ ⟨a, k, n⟩ :: post)
      (pre ++ ⟨a, k, { n with data := data }⟩ :: post) := by
  have haddresses : addresses (pre ++ ⟨a, k, { n with data := data }⟩ :: post) =
      addresses (pre ++ ⟨a, k, n⟩ :: post) := by
    rw [addresses_append, addresses_append]
    rfl
  have hkeyAddresses : keyAddresses (pre ++ ⟨a, k, { n with data := data }⟩ :: post) =
      keyAddresses (pre ++ ⟨a, k, n⟩ :: post) := by
    rw [keyAddresses_append, keyAddresses_append]
    rfl
  have hmem : a ∈ addresses (pre ++ ⟨a, k, n⟩ :: post) := by
    rw [addresses_append]
    exact List.mem_append_right _ List.mem_cons_self
  have hnodup := h.ring.nodup
  rw [addresses_append, List.nodup_append] at hnodup
  have hnodup' := List.nodup_cons.1 (show (a :: addresses post).Nodup from hnodup.2.1)
  have hpointers : (heap.writeNode a { node with data := data }).pointers self =
      heap.pointers self := by
    rw [pointers_writeNode, ← fd_of_nodes hnode, ← bk_of_nodes hnode, Function.update_eq_self,
      Function.update_eq_self]
  refine ⟨⟨?_, ?_, ?_, ?_, ?_⟩, fun _ _ => rfl, ?_, ?_⟩
  · have hlength := h.length
    rw [List.length_append, List.length_cons] at hlength ⊢
    exact hlength
  · rw [hpointers, haddresses]
    exact h.ring
  · intro c hc
    rcases List.mem_append.1 hc with hc | hc
    · have hca : c.node ≠ a := hnodup.2.2 _ (List.mem_map_of_mem hc) _ List.mem_cons_self
      rw [writeNode_nodes_of_ne hca]
      exact h.nodes c (List.mem_append_left _ hc)
    · rcases List.mem_cons.1 hc with rfl | hc
      · rw [writeNode_nodes_self, Option.map_some, Node.content, hkey]
      · have hca : c.node ≠ a := fun heq => hnodup'.1 (heq ▸ List.mem_map_of_mem hc)
        rw [writeNode_nodes_of_ne hca]
        exact h.nodes c (List.mem_append_right _ (List.mem_cons_of_mem _ hc))
  · intro c hc
    rcases List.mem_append.1 hc with hc | hc
    · exact h.texts c (List.mem_append_left _ hc)
    · rcases List.mem_cons.1 hc with rfl | hc
      · exact h.texts ⟨a, k, n⟩ (List.mem_append_right _ List.mem_cons_self)
      · exact h.texts c (List.mem_append_right _ (List.mem_cons_of_mem _ hc))
  · rw [hkeyAddresses]
    exact h.apart
  · rw [haddresses]
    refine Renews.of_outside (fun b hb _ => ?_) (fun b hb => .inl hb)
      fun b hb hno => absurd hb hno
    refine writeNode_nodes_of_ne ?_ _ heap
    rintro rfl
    exact hb hmem
  · rw [hkeyAddresses]
    exact Renews.refl ..

end SetData

end Burrow.Memory.Chained
