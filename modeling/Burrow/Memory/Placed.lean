import Burrow.Memory.LinkedBlocks

/-!
# Dictionaries with what they lead to

A message has its id and its body, each at an address (`PlacedMessage`), and the data pointer
of a node leads to something that is placed, too (`Placed`): accounts have queues, these have
messages. `erase` forgets the addresses and leaves the dictionary of `Memory.Dictionary`.

What a function does to the data of one node it does to the dictionary that has the node
(`Turns.lift`), with the other nodes and what they lead to as they were.
-/

set_option autoImplicit false

namespace Burrow.Memory.Chained

open Ownership KeyedList

/-- What a data pointer leads to, and what it is without the addresses. -/
class Pointed (α : Type) (β : outParam Type) extends Located BackendHeap α where
  pointer : α → Address
  erase : α → β

export Pointed (pointer erase)

/-- The blocks of what is placed. -/
abbrev footprint {α β : Type} [Pointed α β] (x : α) : Multiset Block :=
  Located.footprint BackendHeap x

/-! ## Messages -/

/-- A message with its id and its body. -/
structure PlacedMessage where
  address : Address
  messageIdAt : Address
  bodyAt : Address
  message : BurrowMessage

namespace PlacedMessage

def block (x : PlacedMessage) : MessageSt where
  messageId := x.messageIdAt
  body := x.bodyAt
  bodySize := x.message.bodySize
  ttl := x.message.ttl
  hide := x.message.hide

/-- The id and the body, which a message is not freed without elsewhere. -/
def contents (x : PlacedMessage) : Multiset Block := {.text x.messageIdAt} + {.body x.bodyAt}

structure Holds (m : BackendHeap) (x : PlacedMessage) : Prop where
  message : m.messages x.address = some x.block
  text : m.texts x.messageIdAt = some x.message.messageId
  body : m.bodies x.bodyAt = some x.message.body

end PlacedMessage

instance : Pointed PlacedMessage BurrowMessage where
  footprint x := {.message x.address} + x.contents
  Holds := PlacedMessage.Holds
  congr {m m' x} h hx := by
    have hmem : ∀ b, b = .message x.address ∨ b = .text x.messageIdAt ∨ b = .body x.bodyAt →
        Block.Same m m' b := by
      intro b hb
      refine h b ?_
      rw [PlacedMessage.contents]
      simpa only [Multiset.mem_add, Multiset.mem_singleton] using hb
    exact ⟨(hmem _ (.inl rfl)).trans hx.message, (hmem _ (.inr (.inl rfl))).trans hx.text,
      (hmem _ (.inr (.inr rfl))).trans hx.body⟩
  pointer := PlacedMessage.address
  erase := PlacedMessage.message

/-! ## Dictionaries -/

/-- A node, its key, and what its data pointer leads to. -/
structure PlacedNode (α : Type) where
  node : Address
  keyAt : Address
  key : String
  data : α

/-- A dictionary with what its nodes lead to. -/
structure Placed (α : Type) where
  address : Address
  nodes : List (PlacedNode α)

section Placed

variable {α β : Type} [Pointed α β]

def PlacedNode.cell (n : PlacedNode α) : Cell :=
  ⟨n.node, n.keyAt, { key := n.key, data := some (pointer n.data) }⟩

def PlacedNode.erased (n : PlacedNode α) : DictionaryNode β :=
  { key := n.key, data := some (erase n.data) }

/-- The blocks of what the nodes lead to. -/
def children : List (PlacedNode α) → Multiset Block
  | [] => 0
  | n :: nodes => footprint n.data + children nodes

theorem children_append (nodes nodes' : List (PlacedNode α)) :
    children (nodes ++ nodes') = children nodes + children nodes' := by
  induction nodes with
  | nil => exact (Multiset.zero_add _).symm
  | cons n nodes ih => rw [List.cons_append, children, children, ih, Multiset.add_assoc]

theorem mem_children {nodes : List (PlacedNode α)} {n : PlacedNode α} (hn : n ∈ nodes) {b : Block}
    (hb : b ∈ footprint n.data) : b ∈ children nodes := by
  induction nodes with
  | nil => exact absurd hn List.not_mem_nil
  | cons n' nodes ih =>
      rw [children, Multiset.mem_add]
      rcases List.mem_cons.1 hn with rfl | hn
      · exact .inl hb
      · exact .inr (ih hn)

namespace Placed

def cells (x : Placed α) : List Cell := x.nodes.map PlacedNode.cell

structure Holds (m : BackendHeap) (x : Placed α) : Prop where
  represents : m.toHeap.Represents x.address x.cells
  keys : (x.nodes.map PlacedNode.key).Nodup
  size : (x.nodes.length : Int) ≤ intMax
  children : ∀ n ∈ x.nodes, Ownership.Holds m n.data

end Placed

instance : Pointed (Placed α) (Dictionary β) where
  footprint x := spine x.address x.cells + children x.nodes
  Holds := Placed.Holds
  congr {m m' x} h hx := by
    refine ⟨represents_congr (fun b hb => h b (Multiset.mem_add.2 (.inl hb))) hx.represents,
      hx.keys, hx.size, fun n hn => ?_⟩
    exact Located.congr (fun b hb => h b (Multiset.mem_add.2 (.inr (mem_children hn hb))))
      (hx.children n hn)
  pointer := Placed.address
  erase x := Dictionary.ofNodes (x.nodes.map PlacedNode.erased)

end Placed

/-- The accounts, their queues and the messages of these. -/
abbrev PlacedMessages := Placed PlacedMessage

abbrev PlacedQueues := Placed PlacedMessages

abbrev PlacedAccounts := Placed PlacedQueues

/-! ## Without the addresses -/

section Erase

variable {α β : Type} [Pointed α β] {x : Placed α}

theorem keys_erased (nodes : List (PlacedNode α)) :
    (nodes.map PlacedNode.erased).map DictionaryNode.key = nodes.map PlacedNode.key := by
  rw [List.map_map]
  rfl

theorem keys_cells (nodes : List (PlacedNode α)) :
    (nodes.map PlacedNode.cell).map Cell.key = nodes.map PlacedNode.key := by
  rw [List.map_map]
  rfl

theorem erase_wellFormed (h : (x.nodes.map PlacedNode.key).Nodup) :
    (erase x).WellFormed fun _ => True :=
  wellFormed_ofNodes (by rw [keys_erased]; exact h)

theorem erase_get (h : (x.nodes.map PlacedNode.key).Nodup) (key : String) :
    Memory.dictionaryGet (some (erase x)) (some key) =
      (x.nodes.find? (hasKey PlacedNode.key key)).map PlacedNode.erased := by
  rw [(erase_wellFormed h).get_eq]
  exact List.find?_map ..

end Erase

/-! ## What a function makes of what is placed -/

/-- This has become that, and everything else is as it was. -/
structure Turns {α β : Type} [Pointed α β] (m m' : BackendHeap) (x x' : α)
    (told : List Callback) : Prop extends Does m m' (footprint x) (footprint x') told where
  holds : Holds m' x'

/-- The same with other blocks, which have become these. -/
structure Moves {α β : Type} [Pointed α β] (m m' : BackendHeap) (x : α) (r : Multiset Block)
    (x' : α) (r' : Multiset Block) (told : List Callback) : Prop
    extends Does m m' (footprint x + r) (footprint x' + r') told where
  holds : Holds m' x'

section Turns

variable {α β : Type} [Pointed α β] {m m' m'' : BackendHeap} {x x' x'' : α}
  {told told' : List Callback} {r r' r'' : Multiset Block}

theorem Moves.trans (h : Moves m m' x r x' r' told) (h' : Moves m' m'' x' r' x'' r'' told') :
    Moves m m'' x r x'' r'' (told ++ told') :=
  ⟨h.toDoes.trans h'.toDoes, h'.holds⟩

theorem Turns.moves (h : Turns m m' x x' told) : Moves m m' x 0 x' 0 told :=
  ⟨h.toDoes.congr (Multiset.add_zero _).symm (Multiset.add_zero _).symm, h.holds⟩

theorem Moves.turns (h : Moves m m' x 0 x' 0 told) : Turns m m' x x' told :=
  ⟨h.toDoes.congr (Multiset.add_zero _) (Multiset.add_zero _), h.holds⟩

/-- Other blocks stay. -/
theorem Turns.besides (h : Turns m m' x x' told) (hm : Owns m (footprint x + r)) :
    Moves m m' x r x' r told :=
  ⟨h.toDoes.frame hm, h.holds⟩

theorem Turns.refl (hx : Holds m x) (hm : Owns m (footprint x)) : Turns m m x x [] :=
  ⟨Does.refl hm, hx⟩

theorem Turns.trans (h : Turns m m' x x' told) (h' : Turns m' m'' x' x'' told') :
    Turns m m'' x x'' (told ++ told') :=
  ⟨h.toDoes.trans h'.toDoes, h'.holds⟩

/-- Blocks that a function makes for itself and frees in the end. -/
theorem Turns.during {m₁ m₂ m₃ : BackendHeap} (hm : Owns m (footprint x))
    (hmade : Does m m₁ 0 r []) (h : Turns m₁ m₂ x x' told) (hfreed : Does m₂ m₃ r 0 []) :
    Turns m m₃ x x' told := by
  have hmade' := (hmade.frame (r := footprint x) (by rwa [Multiset.zero_add])).congr
    (Multiset.zero_add _) (Multiset.add_comm ..)
  have hmiddle := (hmade'.seq h.toDoes).congr rfl (Multiset.add_comm ..)
  have hend := (hmiddle.seq_quiet hfreed).congr rfl (Multiset.zero_add _)
  exact ⟨hend, hfreed.toChanges.holds hmiddle.after h.holds⟩

end Turns

/-! ## One node of a dictionary -/

/-- A dictionary without what one of its nodes leads to. -/
structure Opened (α : Type) where
  address : Address
  pre : List (PlacedNode α)
  node : PlacedNode α
  post : List (PlacedNode α)

section Opened

variable {α β : Type} [Pointed α β]

namespace Opened

/-- The dictionary with everything. -/
def closed (x : Opened α) : Placed α := ⟨x.address, x.pre ++ x.node :: x.post⟩

/-- The dictionary without the node. -/
def without (x : Opened α) : Placed α := ⟨x.address, x.pre ++ x.post⟩

/-- The node leads to something else. -/
def withData (x : Opened α) (v : α) : Opened α := { x with node := { x.node with data := v } }

structure Holds (m : BackendHeap) (x : Opened α) : Prop where
  represents : m.toHeap.Represents x.address x.closed.cells
  keys : (x.closed.nodes.map PlacedNode.key).Nodup
  size : (x.closed.nodes.length : Int) ≤ intMax
  children : ∀ n ∈ x.without.nodes, Ownership.Holds m n.data

end Opened

instance : Located BackendHeap (Opened α) where
  footprint x := spine x.address x.closed.cells + children x.without.nodes
  Holds := Opened.Holds
  congr {m m' x} h hx := by
    refine ⟨represents_congr (fun b hb => h b (Multiset.mem_add.2 (.inl hb))) hx.represents,
      hx.keys, hx.size, fun n hn => ?_⟩
    exact Located.congr (fun b hb => h b (Multiset.mem_add.2 (.inr (mem_children hn hb))))
      (hx.children n hn)

/-- The blocks of the dictionary, but for those of what the node leads to. -/
abbrev around (x : Opened α) : Multiset Block := Located.footprint BackendHeap x

variable {m m' : BackendHeap} {x : Opened α} {v : α} {told : List Callback}

theorem exists_opened {y : Placed α} {key : String} {n : PlacedNode α}
    (h : y.nodes.find? (hasKey PlacedNode.key key) = some n) :
    ∃ x : Opened α, x.closed = y ∧ x.node.key = key := by
  obtain ⟨hmem, hkey⟩ := find?_hasKey_some PlacedNode.key h
  obtain ⟨pre, post, hsplit⟩ := List.append_of_mem hmem
  refine ⟨⟨y.address, pre, n, post⟩, ?_, hkey⟩
  rw [Opened.closed, ← hsplit]

theorem node_mem_closed (x : Opened α) : x.node ∈ x.closed.nodes :=
  List.mem_append_right _ List.mem_cons_self

theorem node_mem_around (x : Opened α) : Block.node x.node.node ∈ around x :=
  Multiset.mem_add.2 (.inl (node_mem_spine.2
    (List.mem_map_of_mem (List.mem_map_of_mem (node_mem_closed x)))))

theorem find?_closed (h : (x.closed.nodes.map PlacedNode.key).Nodup) :
    x.closed.nodes.find? (hasKey PlacedNode.key x.node.key) = some x.node :=
  find?_hasKey_of_mem PlacedNode.key h (node_mem_closed x)

/-- No node in front of this one has its key. -/
theorem key_not_mem_pre (h : (x.closed.nodes.map PlacedNode.key).Nodup) :
    x.node.key ∉ x.pre.map PlacedNode.key := by
  rw [Opened.closed, List.map_append, List.map_cons, List.nodup_append] at h
  exact fun hmem => h.2.2 _ hmem _ List.mem_cons_self rfl

/-- The node is taken out. -/
theorem erase_without (h : (x.closed.nodes.map PlacedNode.key).Nodup) :
    Memory.dictionaryDeleteNode (erase x.closed) x.node.key = erase x.without := by
  have hwf := erase_wellFormed h
  have hsplit : (List.map PlacedNode.erased (x.pre ++ x.node :: x.post)).eraseP
      (hasKey DictionaryNode.key x.node.key) = List.map PlacedNode.erased (x.pre ++ x.post) := by
    rw [List.map_append, List.map_cons, List.map_append]
    refine eraseP_split DictionaryNode.key rfl ?_
    rw [keys_erased]
    exact key_not_mem_pre h
  rw [(hwf.deleteNode x.node.key).eq_ofNodes, hwf.deleteNode_nodes]
  exact congrArg Dictionary.ofNodes hsplit

/-- The node is given other data. -/
theorem erase_withData (h : (x.closed.nodes.map PlacedNode.key).Nodup) (v : α) :
    (erase x.closed).setData x.node.key (some (erase v)) = erase (x.withData v).closed := by
  have hsplit : modify DictionaryNode.key x.node.key (DictionaryNode.withData (some (erase v)))
      (List.map PlacedNode.erased (x.pre ++ x.node :: x.post)) =
        List.map PlacedNode.erased (x.pre ++ { x.node with data := v } :: x.post) := by
    rw [List.map_append, List.map_cons, List.map_append, List.map_cons]
    refine modify_split DictionaryNode.key _ rfl ?_
    rw [keys_erased]
    exact key_not_mem_pre h
  have hlength : (erase x.closed).length =
      (List.map PlacedNode.erased (x.pre ++ { x.node with data := v } :: x.post)).length := by
    change (List.map PlacedNode.erased (x.pre ++ x.node :: x.post)).length = _
    rw [List.length_map, List.length_map, List.length_append, List.length_append,
      List.length_cons, List.length_cons]
  change Dictionary.mk (modify _ _ _ _) _ = Dictionary.mk _ _
  exact congrArg₂ Dictionary.mk hsplit hlength

theorem footprint_closed (x : Opened α) :
    footprint x.closed = footprint x.node.data + around x := by
  change spine x.address _ + children (x.pre ++ x.node :: x.post) =
    _ + (_ + children (x.pre ++ x.post))
  rw [children_append, children_append, children]
  abel

theorem cells_withData (hp : pointer v = pointer x.node.data) :
    (x.withData v).closed.cells = x.closed.cells := by
  change List.map _ (x.pre ++ { x.node with data := v } :: x.post) =
    List.map _ (x.pre ++ x.node :: x.post)
  rw [List.map_append, List.map_cons, List.map_append, List.map_cons, PlacedNode.cell,
    PlacedNode.cell, hp]

theorem around_withData (hp : pointer v = pointer x.node.data) :
    around (x.withData v) = around x :=
  congrArg (spine x.address · + children x.without.nodes) (cells_withData hp)

theorem keys_withData (x : Opened α) (v : α) :
    (x.withData v).closed.nodes.map PlacedNode.key = x.closed.nodes.map PlacedNode.key := by
  change List.map _ (x.pre ++ { x.node with data := v } :: x.post) =
    List.map _ (x.pre ++ x.node :: x.post)
  rw [List.map_append, List.map_cons, List.map_append, List.map_cons]

theorem length_withData (x : Opened α) (v : α) :
    (x.withData v).closed.nodes.length = x.closed.nodes.length := by
  rw [← List.length_map (f := PlacedNode.key), keys_withData, List.length_map]

theorem owns_opened (hm : Owns m (footprint x.closed)) :
    Owns m (footprint x.node.data + around x) := by
  rw [← footprint_closed]
  exact hm

/-- The dictionary is opened. -/
theorem holds_opened (h : Holds m x.closed) : Holds m x ∧ Holds m x.node.data := by
  have hchildren : ∀ n ∈ x.pre ++ x.node :: x.post, Holds m n.data := Placed.Holds.children h
  refine ⟨⟨Placed.Holds.represents h, Placed.Holds.keys h, Placed.Holds.size h, ?_⟩, ?_⟩
  · intro n hn
    refine hchildren n ?_
    exact (List.sublist_cons_self ..).append_left _ |>.subset hn
  · exact hchildren _ (List.mem_append_right _ List.mem_cons_self)

/-- The dictionary is closed over what the node leads to. -/
theorem holds_closed (h : Holds m x) (hdata : Holds m x.node.data) : Holds m x.closed := by
  refine ⟨Opened.Holds.represents h, Opened.Holds.keys h, Opened.Holds.size h, ?_⟩
  intro n hn
  rcases List.mem_append.1 hn with hmem | hmem
  · exact Opened.Holds.children h n (List.mem_append_left _ hmem)
  · rcases List.mem_cons.1 hmem with rfl | hmem
    · exact hdata
    · exact Opened.Holds.children h n (List.mem_append_right _ hmem)

/-- What the node leads to is something else, at the same address. -/
theorem holds_withData (h : Holds m x) (hp : pointer v = pointer x.node.data) :
    Holds m (x.withData v) := by
  have hchildren : ∀ n ∈ x.without.nodes, Holds m n.data := Opened.Holds.children h
  refine ⟨?_, ?_, ?_, hchildren⟩
  · rw [cells_withData hp]
    exact Opened.Holds.represents h
  · rw [keys_withData]
    exact Opened.Holds.keys h
  · rw [length_withData]
    exact Opened.Holds.size h

/-- **What is done to what a node leads to**, with other blocks besides. -/
theorem Moves.lift {r r' : Multiset Block} (h : Moves m m' x.node.data r v r' told)
    (hp : pointer v = pointer x.node.data) (hx : Holds m x.closed)
    (hm : Owns m (footprint x.closed + r)) :
    Moves m m' x.closed r (x.withData v).closed r' told := by
  have hm' : Owns m (footprint x.node.data + r + around x) := by
    rw [footprint_closed] at hm
    rw [Multiset.add_assoc, Multiset.add_comm r, ← Multiset.add_assoc]
    exact hm
  refine ⟨(h.toDoes.frame hm').congr ?_ ?_, ?_⟩
  · rw [footprint_closed]
    abel
  · rw [footprint_closed, around_withData hp]
    change footprint v + r' + around x = footprint v + around x + r'
    abel
  · have hopened := h.toChanges.holds hm' (holds_opened hx).1
    exact holds_closed (holds_withData hopened hp) h.holds

theorem Turns.lift (h : Turns m m' x.node.data v told) (hp : pointer v = pointer x.node.data)
    (hx : Holds m x.closed) (hm : Owns m (footprint x.closed)) :
    Turns m m' x.closed (x.withData v).closed told :=
  (h.moves.lift hp hx (by rwa [Multiset.add_zero])).turns

/-- The key of the node is read. -/
theorem readKey_opened (hx : Holds m x) :
    m.toHeap.readChars (.block x.node.keyAt) = .ok x.node.key :=
  (Opened.Holds.represents hx).readKey (List.mem_map_of_mem (node_mem_closed x))

theorem get_opened (hx : Holds m x) {chars : Chars}
    (hchars : m.toHeap.readChars chars = .ok x.node.key) :
    m.get (some x.address) chars = .ok (some x.node.node) := by
  rw [get_eq (Opened.Holds.represents hx) hchars, Placed.cells, List.find?_map, Option.map_map]
  exact congrArg (fun y => Except.ok (Option.map _ y)) (find?_closed (Opened.Holds.keys hx))

theorem readNode_opened (hx : Holds m x) :
    ∃ node, m.dictionaryRead (·.readNode (some x.node.node)) = .ok node ∧
      node.key = x.node.keyAt ∧ node.data = some (pointer x.node.data) := by
  obtain ⟨node, hread, hkey, hdata, -⟩ := readNode_eq (Opened.Holds.represents hx)
    (List.mem_map_of_mem (node_mem_closed x))
  exact ⟨node, hread, hkey, hdata⟩

theorem nodeData_opened (hx : Holds m x) :
    m.nodeData (some x.node.node) = .ok (some (pointer x.node.data)) :=
  nodeData_eq (Opened.Holds.represents hx) (List.mem_map_of_mem (node_mem_closed x))

/-- The node is unlinked; what it leads to is left to itself. -/
theorem unlink_does (hx : Holds m x) (hm : Owns m (around x)) {chars : Chars}
    (hchars : m.toHeap.readChars chars = .ok x.node.key) :
    ∃ m', m.deleteNode (some x.address) chars = .ok m' ∧
      Does m m' (around x) (footprint x.without) [] ∧ Holds m' x.without := by
  have hcells : x.closed.cells =
      x.pre.map PlacedNode.cell ++ x.node.cell :: x.post.map PlacedNode.cell := by
    rw [Placed.cells, Opened.closed, List.map_append, List.map_cons]
  have hwithout : x.without.cells = x.pre.map PlacedNode.cell ++ x.post.map PlacedNode.cell := by
    rw [Placed.cells, Opened.without, List.map_append]
  have hkeys : (x.closed.nodes.map PlacedNode.key).Nodup := Opened.Holds.keys hx
  have hrepresents := Opened.Holds.represents hx
  rw [hcells] at hrepresents
  have hm' : Owns m (spine x.address x.closed.cells + children x.without.nodes) := hm
  have hspine := hm'.part
  rw [hcells] at hspine
  obtain ⟨m', hdelete, hdoes, hrepresents'⟩ := deleteNode_does hrepresents
    (by rw [keys_cells]; exact key_not_mem_pre hkeys) hchars hspine
  rw [← hcells, ← hwithout] at hdoes
  rw [← hwithout] at hrepresents'
  refine ⟨m', hdelete, hdoes.frame hm', hrepresents', ?_, ?_, ?_⟩
  · exact hkeys.sublist (((List.sublist_cons_self ..).append_left _).map _)
  · have hsize := Opened.Holds.size hx
    have hle : x.without.nodes.length ≤ x.closed.nodes.length :=
      ((List.sublist_cons_self x.node x.post).append_left x.pre).length_le
    omega
  · intro n hn
    refine Located.congr (fun b hb => ?_) (Opened.Holds.children hx n hn)
    exact hdoes.toChanges.same_rest hm' (mem_children hn hb)

/-- The node is given another data pointer. -/
theorem retarget_does (hx : Holds m x) (hm : Owns m (around x)) (v : α) :
    ∃ node, m.dictionaryRead (·.readNode (some x.node.node)) = .ok node ∧
      node.data = some (pointer x.node.data) ∧
      Does m { m with
          toHeap := m.writeNode x.node.node { node with data := some (pointer v) } }
        (around x) (around (x.withData v)) [] ∧
      Holds { m with
          toHeap := m.writeNode x.node.node { node with data := some (pointer v) } }
        (x.withData v) := by
  have hcells : ∀ y : Opened α, y.closed.cells =
      y.pre.map PlacedNode.cell ++ y.node.cell :: y.post.map PlacedNode.cell := fun y => by
    rw [Placed.cells, Opened.closed, List.map_append, List.map_cons]
  have hrepresents := Opened.Holds.represents hx
  have hm' : Owns m (spine x.address x.closed.cells + children x.without.nodes) := hm
  have hspine := hm'.part
  rw [hcells] at hrepresents hspine
  obtain ⟨node, hnode, hkey, hdata, -⟩ :=
    hrepresents.node (List.mem_append_right _ List.mem_cons_self)
  have hupdates := setData_updates hrepresents hnode hkey (some (pointer v))
  have hcells' : (x.withData v).closed.cells = x.pre.map PlacedNode.cell ++
      ⟨x.node.node, x.node.keyAt, { x.node.cell.content with data := some (pointer v) }⟩ ::
        x.post.map PlacedNode.cell := hcells (x.withData v)
  have hdoes := (hupdates.does hspine (Nat.le_refl m.next)
    (within_of_subset (by rw [addresses_append, addresses_append]; exact List.Subset.refl _))
    (within_of_subset (by rw [keyAddresses_append, keyAddresses_append]; exact List.Subset.refl _))
    ).congr (congrArg (spine x.address) (hcells x).symm)
      (congrArg (spine x.address) hcells'.symm)
  refine ⟨node, dictionaryRead_of_ok (readNode_of_nodes hnode), hdata, hdoes.frame hm', ?_, ?_,
    ?_, ?_⟩
  · rw [hcells']
    exact hupdates.represents
  · rw [keys_withData]
    exact Opened.Holds.keys hx
  · rw [length_withData]
    exact Opened.Holds.size hx
  · intro n hn
    refine Located.congr (fun b hb => ?_) (Opened.Holds.children hx n hn)
    exact hdoes.toChanges.same_rest hm' (mem_children hn hb)

end Opened

/-! ## Calls -/

section Calls

variable {α β : Type} [Pointed α β] {m : BackendHeap} {x : Placed α} {n : PlacedNode α}

theorem get_placed (hx : Holds m x) {chars : Chars} {key : String}
    (hchars : m.toHeap.readChars chars = .ok key) :
    m.get (some x.address) chars =
      .ok ((x.nodes.find? (hasKey PlacedNode.key key)).map PlacedNode.node) := by
  rw [get_eq (Placed.Holds.represents hx) hchars, Placed.cells, List.find?_map, Option.map_map]
  rfl

theorem nodeData_placed (hx : Holds m x) (hn : n ∈ x.nodes) :
    m.nodeData (some n.node) = .ok (some (pointer n.data)) :=
  nodeData_eq (Placed.Holds.represents hx) (List.mem_map_of_mem hn)

/-- **A search** finds what it finds in the list model. -/
theorem search_cases (hx : Holds m x) {chars : Chars} {key : String}
    (hchars : m.toHeap.readChars chars = .ok key) :
    Memory.dictionaryGet (some (erase x)) (some key) = none ∧
        m.get (some x.address) chars = .ok none ∨
      ∃ y : Opened α, y.closed = x ∧ y.node.key = key ∧
        Memory.dictionaryGet (some (erase x)) (some key) = some y.node.erased ∧
        m.get (some x.address) chars = .ok (some y.node.node) := by
  have hkeys := Placed.Holds.keys hx
  rw [erase_get hkeys, get_placed hx hchars]
  cases hfind : x.nodes.find? (hasKey PlacedNode.key key) with
  | none => exact .inl ⟨rfl, rfl⟩
  | some n =>
      obtain ⟨y, rfl, rfl⟩ := exists_opened hfind
      obtain rfl : y.node = n := Option.some.inj ((find?_closed hkeys).symm.trans hfind)
      exact .inr ⟨y, rfl, rfl, rfl, rfl⟩

/-- A dictionary with a node more at the end. -/
def Placed.snoc (x : Placed α) (n : PlacedNode α) : Placed α := { x with nodes := x.nodes ++ [n] }

theorem cells_snoc (x : Placed α) (n : PlacedNode α) :
    (x.snoc n).cells = x.cells ++ [n.cell] := List.map_append

theorem footprint_snoc (x : Placed α) (n : PlacedNode α) :
    footprint (x.snoc n) = spine x.address (x.snoc n).cells + (children x.nodes +
      footprint n.data) := by
  change _ + children (x.nodes ++ [n]) = _
  rw [children_append, children, children, add_zero]
  rfl

/-- What the nodes lead to is as it was, whatever is done to the dictionary itself. -/
theorem children_hold {m' : BackendHeap} {fp : Multiset Block} {told : List Callback}
    (hx : Holds m x) (hm : Owns m (footprint x))
    (h : Does m m' (spine x.address x.cells) fp told) : ∀ n ∈ x.nodes, Holds m' n.data := by
  intro n hn
  refine Located.congr (fun b hb => ?_) (Placed.Holds.children hx n hn)
  exact h.toChanges.same_rest hm (mem_children hn hb)

/-- A new node has been linked. -/
theorem holds_snoc {m' : BackendHeap} (hx : Holds m x)
    (hrepresents : m'.toHeap.Represents x.address (x.snoc n).cells)
    (hchildren : ∀ n ∈ x.nodes, Holds m' n.data) (hno : n.key ∉ x.nodes.map PlacedNode.key)
    (hroom : (x.nodes.length : Int) < intMax) (hdata : Holds m' n.data) :
    Holds m' (x.snoc n) := by
  refine ⟨hrepresents, ?_, ?_, ?_⟩
  · change ((x.nodes ++ [n]).map PlacedNode.key).Nodup
    rw [List.map_append, List.nodup_append]
    refine ⟨Placed.Holds.keys hx, List.nodup_singleton _, ?_⟩
    intro k hk k' hk'
    rw [List.map_singleton, List.mem_singleton] at hk'
    exact fun h => hno (hk' ▸ h ▸ hk)
  · change ((x.nodes ++ [n]).length : Int) ≤ intMax
    rw [List.length_append, List.length_singleton]
    omega
  · intro n' hn'
    rcases List.mem_append.1 hn' with hmem | hmem
    · exact hchildren n' hmem
    · exact List.mem_singleton.1 hmem ▸ hdata

theorem length_cells (x : Placed α) : x.cells.length = x.nodes.length := List.length_map _

/-- The node that is made where nothing has been handed out. -/
def newNode (m : BackendHeap) (key : String) (v : α) : PlacedNode α :=
  ⟨m.next, m.next + 1, key, v⟩

/-- A node for something that is there. -/
theorem add_placed {v : α} (hx : Holds m x) (hv : Holds m v)
    (hm : Owns m (footprint x + footprint v)) {chars : Chars} {key : String}
    (hchars : m.toHeap.readChars chars = .ok key) (hno : key ∉ x.nodes.map PlacedNode.key)
    (hroom : (x.nodes.length : Int) < intMax) {mem : AddMemory} (hmem : mem.Succeeds) :
    ∃ m', m.add mem (some x.address) chars (some (pointer v)) = .ok (some m.next, m') ∧
      Does m m' (footprint x + footprint v) (footprint (x.snoc (newNode m key v))) [] ∧
      Holds m' (x.snoc (newNode m key v)) := by
  have hm' : Owns m (spine x.address x.cells + (children x.nodes + footprint v)) := by
    rw [← Multiset.add_assoc]
    exact hm
  obtain ⟨m', hadd, hdoes, hrepresents⟩ := add_does (Placed.Holds.represents hx)
    (by rwa [length_cells]) hm'.part hmem hchars (some (pointer v))
  have hcells : (x.snoc (newNode m key v)).cells = x.cells ++ [newCell m key (some (pointer v))] :=
    cells_snoc x _
  rw [← hcells] at hdoes hrepresents
  refine ⟨m', hadd, ?_, ?_⟩
  · refine (hdoes.frame hm').congr (Multiset.add_assoc ..).symm ?_
    rw [footprint_snoc]
    rfl
  · refine holds_snoc hx hrepresents (children_hold hx hm.part hdoes) hno hroom ?_
    exact Located.congr
      (fun b hb => hdoes.toChanges.same_rest hm' (Multiset.mem_add.2 (.inr hb))) hv

/-- A node that is there. -/
theorem getCreate_mem {x : Placed (Placed α)} {n : PlacedNode (Placed α)} (hx : Holds m x)
    (hn : n ∈ x.nodes) {chars : Chars} (hchars : m.toHeap.readChars chars = .ok n.key)
    {mem : CreateMemory} (hmem : mem.Succeeds) :
    m.getCreate mem (some x.address) chars = .ok (some n.node, { m with next := m.next + 3 }) := by
  refine getCreate_found (Placed.Holds.represents hx) hchars ?_ hmem
  have hfind : x.nodes.find? (hasKey PlacedNode.key n.key) = some n :=
    find?_hasKey_of_mem PlacedNode.key (Placed.Holds.keys hx) hn
  rw [Placed.cells, List.find?_map, Option.map_map]
  exact congrArg (Option.map _) hfind

/-- A node that is not there is made, with a dictionary of its own. -/
theorem getCreate_new {x : Placed (Placed α)} (hx : Holds m x) (hm : Owns m (footprint x))
    {chars : Chars} {key : String} (hchars : m.toHeap.readChars chars = .ok key)
    (hno : key ∉ x.nodes.map PlacedNode.key) (hroom : (x.nodes.length : Int) < intMax)
    {mem : CreateMemory} (hmem : mem.Succeeds) :
    ∃ m', m.getCreate mem (some x.address) chars = .ok (some m.next, m') ∧
      Turns m m' x (x.snoc (newNode m key ⟨m.next + 2, []⟩)) [] := by
  have hm' : Owns m (spine x.address x.cells + children x.nodes) := hm
  have hfind : x.cells.find? (hasKey Cell.key key) = none := by
    rw [find?_hasKey_eq_none_iff, Placed.cells, keys_cells]
    exact hno
  obtain ⟨m', l', hl', hcreate, hdoes, hrepresents, hnew⟩ := getCreate_does
    (Placed.Holds.represents hx) (by rwa [length_cells]) hm'.part hchars hfind hmem
  have hcells : (x.snoc (newNode m key ⟨m.next + 2, []⟩)).cells = l' := hl' ▸ cells_snoc x _
  rw [← hcells] at hdoes hrepresents
  refine ⟨m', hcreate, ?_, ?_⟩
  · refine (hdoes.frame hm').congr rfl ?_
    rw [footprint_snoc]
    change _ = _ + (_ + (spine (m.next + 2) [] + 0))
    abel
  · refine holds_snoc hx hrepresents (children_hold hx hm' hdoes) hno hroom ?_
    have hsize : ((0 : Nat) : Int) ≤ intMax := by decide
    exact ⟨hnew, List.nodup_nil, hsize, fun _ hno => absurd hno List.not_mem_nil⟩

/-- A node whose dictionary is empty goes with it. -/
theorem deleteIfEmpty_does {x : Opened (Placed α)} (hx : Holds m x.closed)
    (hm : Owns m (footprint x.closed))
    (parent : BackendHeap → Except BackendFault (Option Address)) {chars : Chars}
    (hlater : ∀ m', Does m m' (footprint x.node.data) 0 [] →
      parent m' = .ok (some x.address) ∧ m'.toHeap.readChars chars = .ok x.node.key) :
    ∃ m', deleteIfEmpty x.node.node parent chars m = .ok m' ∧
      Turns m m' x.closed (if x.node.data.nodes = [] then x.without else x.closed) [] := by
  obtain ⟨hopened, hdata⟩ := holds_opened hx
  have hm' := owns_opened hm
  have hread : m.nodeData (some x.node.node) = .ok (some x.node.data.address) :=
    nodeData_placed hx (List.mem_append_right _ List.mem_cons_self)
  obtain ⟨dictionary, hdictionary, hlength, -⟩ := dataDictionary_eq (Placed.Holds.represents hdata)
  rw [length_cells] at hlength
  by_cases hempty : x.node.data.nodes = []
  · have hfootprint : footprint x.node.data = spine x.node.data.address [] := by
      change spine _ (x.node.data.nodes.map PlacedNode.cell) + children x.node.data.nodes = _
      rw [hempty]
      exact Multiset.add_zero _
    obtain ⟨m₁, hfree, hfreed⟩ := freeDictionary_does (hfootprint ▸ hm'.part)
    rw [← hfootprint] at hfreed
    have hopened₁ := hfreed.toChanges.holds hm' hopened
    have hrest := (hfreed.frame hm').congr (footprint_closed x).symm (Multiset.zero_add _)
    obtain ⟨hparent, hchars⟩ := hlater m₁ hfreed
    obtain ⟨m₂, hdelete, hdeleted, hwithout⟩ := unlink_does hopened₁ hrest.after hchars
    refine ⟨m₂, ?_, ?_⟩
    · have hzero : dictionary.length = 0 := by
        rw [hlength, hempty]
        rfl
      rw [deleteIfEmpty, hread, ok_bind, hdictionary, ok_bind, if_pos hzero, hfree, ok_bind,
        hparent, ok_bind, hdelete]
    · rw [if_pos hempty]
      exact ⟨hrest.trans hdeleted, hwithout⟩
  · refine ⟨m, ?_, ?_⟩
    · have hne : dictionary.length ≠ 0 := by
        rw [hlength]
        exact fun hzero => hempty (List.length_eq_zero_iff.1 (by omega))
      rw [deleteIfEmpty, hread, ok_bind, hdictionary, ok_bind, if_neg hne]
      rfl
    · rw [if_neg hempty]
      exact Turns.refl hx hm

end Calls

end Burrow.Memory.Chained
