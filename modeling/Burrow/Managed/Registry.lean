import Burrow.Managed.Heap
import Burrow.Lib.IntrusiveList

/-!
# Which objects a burrow structure manages

A registry says what the object functions are for: it knows of every live object whether
a burrow structure manages it, and it refuses a call on an object that is not live and
memory that is in use. A heap refines a registry if the live objects are those of the
registry and for each burrow structure the links make up a list of the objects it
manages (`Refines`). The links decide that list (`Chain.unique`), no object is on it
twice (`Chain.nodup`), and none is on two lists (`Chain.not_mem`).
-/

set_option autoImplicit false

namespace Burrow.Managed

open IntrusiveList

universe u

variable {V : Type u}

/-! ## The registry -/

/-- How a live object was created. -/
inductive Owner where
  /-- by the library, for a burrow structure that is to destroy it -/
  | managed (b : BurrowId)
  /-- in the user's memory, or without a burrow structure -/
  | unmanaged (burrow : Option BurrowId)
deriving DecidableEq

/-- The burrow structure given when the object was created. -/
def Owner.burrow : Owner → Option BurrowId
  | .managed b => some b
  | .unmanaged burrow => burrow

/-- The owner of an object created with these arguments. -/
def Owner.of : Option Address → Option BurrowId → Owner
  | none, some b => .managed b
  | _, burrow => .unmanaged burrow

/-- The live objects. -/
abbrev Registry := Address → Option Owner

/-- Why a call is none of the program's. -/
inductive Refusal where
  | memoryInUse
  | notLive
deriving DecidableEq

namespace Registry

def empty : Registry := fun _ => none

/-- A new object, in memory that is not in use. -/
def enter (a : Address) (owner : Owner) (r : Registry) : Except Refusal Registry :=
  match r a with
  | none => .ok (Function.update r a (some owner))
  | some _ => .error .memoryInUse

def step : Op V → Registry → Except Refusal Registry
  | .create dest burrow alloc, r => r.enter (dest.getD alloc) (Owner.of dest burrow)
  | .clone src alloc, r =>
      match r src with
      | none => .error .notLive
      | some owner => r.enter alloc (Owner.of none owner.burrow)
  | .destroy a, r =>
      match r a with
      | none => .error .notLive
      | some _ => .ok (Function.update r a none)
  | .assign a _, r =>
      match r a with
      | none => .error .notLive
      | some _ => .ok r

/-- Without the objects the burrow structure manages. -/
def withdraw (b : BurrowId) (r : Registry) : Registry :=
  fun a => if r a = some (.managed b) then none else r a

end Registry

theorem Registry.enter_ok {a : Address} {owner : Owner} {r r' : Registry}
    (h : r.enter a owner = .ok r') : r a = none ∧ r' = Function.update r a (some owner) := by
  rw [Registry.enter] at h
  split at h
  · next hfresh =>
      cases h
      exact ⟨hfresh, rfl⟩
  · exact absurd h (by simp)

/-- The live objects of both kinds. -/
structure Registries where
  attributes : Registry
  filters : Registry

def Registries.empty : Registries := ⟨Registry.empty, Registry.empty⟩

/-- One call of the program. -/
def registriesStep (call : Call) (r : Registries) : Except Refusal Registries :=
  match call with
  | .attributes op => (Registry.step op r.attributes).map fun r' => { r with attributes := r' }
  | .filters op => (Registry.step op r.filters).map fun r' => { r with filters := r' }

/-! ## Refinement -/

/-- The links the list of a burrow structure is made of. -/
def Heap.pointers (h : Heap V) (b : BurrowId) : Pointers Address :=
  { fd := fun x => match x with
      | none => h.list b
      | some a => (h.cells a).bind Node.next
    bk := fun x => x.bind fun a => (h.cells a).bind Node.prev }

@[simp] theorem Heap.pointers_fd_none (h : Heap V) (b : BurrowId) :
    (h.pointers b).fd none = h.list b := rfl

theorem Heap.pointers_fd_some {h : Heap V} {a : Address} {node : Node V}
    (hnode : h.cells a = some node) (b : BurrowId) : (h.pointers b).fd (some a) = node.next := by
  show (h.cells a).bind Node.next = node.next
  rw [hnode, Option.bind_some]

theorem Heap.pointers_bk_some {h : Heap V} {a : Address} {node : Node V}
    (hnode : h.cells a = some node) (b : BurrowId) : (h.pointers b).bk (some a) = node.prev := by
  show (h.cells a).bind Node.prev = node.prev
  rw [hnode, Option.bind_some]

/-- **The list of a burrow structure** is `l`: it ends, and it is made of the objects the
structure manages. -/
structure Chain (h : Heap V) (r : Registry) (b : BurrowId) (l : List Address) : Prop where
  linked : Linked (h.pointers b) none l
  mem_iff : ∀ a, a ∈ l ↔ r a = some (.managed b)

/-- The heap holds the objects of the registry. -/
structure Refines (r : Registry) (h : Heap V) : Prop where
  live : ∀ a owner, r a = some owner → ∃ node, h.cells a = some node ∧
    node.burrow = owner.burrow ∧ (∀ burrow, owner = .unmanaged burrow → node.next = some a)
  free : ∀ a, r a = none → h.cells a = none
  chain : ∀ b, ∃ l, Chain h r b l

/-- Only the objects of `l` and the list of `b` are written. -/
structure Within (l : List Address) (b : BurrowId) (h h' : Heap V) : Prop where
  cells : ∀ a, a ∉ l → h'.cells a = h.cells a
  list : ∀ b', b' ≠ b → h'.list b' = h.list b'

theorem Within.trans {l l' : List Address} {b : BurrowId} {h h' h'' : Heap V}
    (hsub : ∀ a ∈ l', a ∈ l) (hfirst : Within l b h h') (hsecond : Within l' b h' h'') :
    Within l b h h'' where
  cells a ha := (hsecond.cells a fun hmem => ha (hsub a hmem)).trans (hfirst.cells a ha)
  list b' hb := (hsecond.list b' hb).trans (hfirst.list b' hb)

theorem refines_empty : Refines Registry.empty (Heap.empty : Heap V) where
  live a owner h := absurd h (by simp [Registry.empty])
  free a _ := rfl
  chain b := ⟨[], rfl, fun a => by simp [Registry.empty]⟩

section Frame

variable {h h' : Heap V} {r r' : Registry} {b : BurrowId} {l : List Address}

/-- A list whose objects keep their links stays the list. -/
theorem Chain.frame (hchain : Chain h r b l) (hlist : h'.list b = h.list b)
    (hnext : ∀ a ∈ l, (h'.cells a).bind Node.next = (h.cells a).bind Node.next)
    (hprev : ∀ a ∈ l, (h'.cells a).bind Node.prev = (h.cells a).bind Node.prev)
    (howner : ∀ a, r' a = some (.managed b) ↔ r a = some (.managed b)) : Chain h' r' b l where
  linked := by
    refine hchain.linked.congr ?_ hprev
    intro y hy
    rcases List.mem_cons.1 hy with rfl | hy
    · exact hlist
    · obtain ⟨a, ha, rfl⟩ := List.mem_map.1 hy
      exact hnext a ha
  mem_iff a := (hchain.mem_iff a).trans (howner a).symm

/-- A list none of whose objects is written stays the list. -/
theorem Chain.frame_of_cells (hchain : Chain h r b l) (hlist : h'.list b = h.list b)
    (hcells : ∀ a ∈ l, h'.cells a = h.cells a)
    (howner : ∀ a, r' a = some (.managed b) ↔ r a = some (.managed b)) : Chain h' r' b l :=
  hchain.frame hlist (fun a ha => by rw [hcells a ha]) (fun a ha => by rw [hcells a ha]) howner

theorem Chain.nodup (hchain : Chain h r b l) : l.Nodup := hchain.linked.nodup

/-- The registry decides the members, the links the order. -/
theorem Chain.unique {l' : List Address} (hchain : Chain h r b l) (hchain' : Chain h r b l') :
    l = l' := hchain.linked.unique hchain'.linked

theorem Refines.cells_of_live (href : Refines r h) {a : Address} {owner : Owner}
    (ha : r a = some owner) :
    ∃ node, h.cells a = some node := by
  obtain ⟨node, hnode, -⟩ := href.live a owner ha
  exact ⟨node, hnode⟩

theorem Refines.free_iff (href : Refines r h) (a : Address) : r a = none ↔ h.cells a = none := by
  constructor
  · exact href.free a
  · intro hcell
    cases howner : r a with
    | none => rfl
    | some owner =>
        obtain ⟨node, hnode⟩ := href.cells_of_live howner
        exact absurd (hcell.symm.trans hnode) (by simp)

/-- The first object of a list is one the burrow structure manages. -/
theorem Chain.head (hchain : Chain h r b l) {n : Address} (hn : h.list b = some n) :
    n ∈ l := by
  cases l with
  | nil => exact absurd (hn.symm.trans hchain.linked) (by simp)
  | cons m l =>
      obtain rfl := Option.some.inj (hn.symm.trans hchain.linked.1)
      exact List.mem_cons_self

/-- An object is on one list only. -/
theorem Chain.not_mem (hchain : Chain h r b l) {a : Address} {b' : BurrowId} (hb : b' ≠ b)
    (ha : r a = some (.managed b')) : a ∉ l := by
  intro hmem
  have howner := (hchain.mem_iff a).1 hmem
  rw [ha, Option.some.injEq, Owner.managed.injEq] at howner
  exact hb howner

end Frame

end Burrow.Managed
