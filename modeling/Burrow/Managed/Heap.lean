import Burrow.Objects
import Burrow.Lib.Machine
import Mathlib.Logic.Function.Basic

/-!
# Attributes and filters objects in memory

The object functions of `attributes.c` and `filters.c`, and the two loops of
`burrow_destroy`. The two files are the same but for the values of their objects, so
that each function is written once for objects with values in `V`, with the values
the creating function gives as a parameter.

An object carries its links with it. An object created with a burrow structure and no
memory of the user's is put on the list of that structure; every other object is marked
as not managed by a `next` that leads back to it. Memory that was freed, or was never
an object, is `none` in the heap: to read or write there is a fault.
-/

set_option autoImplicit false

namespace Burrow.Managed

universe u

variable {V : Type u}

/-- Where an object lies. `NULL` is `none` of `Option Address`. -/
abbrev Address := Nat

/-- A burrow structure, by the address it lies at. -/
abbrev BurrowId := Nat

/-- An object: the values of its fields, and its links. -/
structure Node (V : Type u) where
  value : V
  burrow : Option BurrowId
  next : Option Address
  prev : Option Address

/-- The objects, and `attributes_list` (`filters_list`) of each burrow structure. -/
structure Heap (V : Type u) where
  cells : Address → Option (Node V)
  list : BurrowId → Option Address

namespace Heap

/-- No objects, and the lists as `burrow_create` leaves them. -/
def empty : Heap V := ⟨fun _ => none, fun _ => none⟩

/-- Reading an object. -/
def read (a : Address) (h : Heap V) : Except Fault (Node V) :=
  match h.cells a with
  | some node => .ok node
  | none => .error .destroyedObject

/-- Writing all fields of an object, or making memory an object. -/
def write (a : Address) (node : Node V) (h : Heap V) : Heap V :=
  { h with cells := Function.update h.cells a (some node) }

/-- Writing some fields of an object. -/
def modify (a : Address) (f : Node V → Node V) (h : Heap V) : Except Fault (Heap V) :=
  match h.cells a with
  | some node => .ok (h.write a (f node))
  | none => .error .destroyedObject

/-- Writing through a link that may be `NULL`. -/
def modifyLink (x : Option Address) (f : Node V → Node V) (h : Heap V) : Except Fault (Heap V) :=
  match x with
  | none => .ok h
  | some a => h.modify a f

/-- Freeing the memory of an object. -/
def free (a : Address) (h : Heap V) : Heap V :=
  { h with cells := Function.update h.cells a none }

/-- Writing the list of a burrow structure. -/
def setList (b : BurrowId) (head : Option Address) (h : Heap V) : Heap V :=
  { h with list := Function.update h.list b head }

@[simp] theorem write_list (a : Address) (node : Node V) (h : Heap V) :
    (h.write a node).list = h.list := rfl

@[simp] theorem free_list (a : Address) (h : Heap V) : (h.free a).list = h.list := rfl

@[simp] theorem setList_cells (b : BurrowId) (head : Option Address) (h : Heap V) :
    (h.setList b head).cells = h.cells := rfl

theorem read_of_cells {a : Address} {node : Node V} {h : Heap V} (hcell : h.cells a = some node) :
    h.read a = .ok node := by
  simp only [read, hcell]

theorem modify_of_cells {a : Address} {node : Node V} {h : Heap V}
    (hcell : h.cells a = some node) (f : Node V → Node V) :
    h.modify a f = .ok (h.write a (f node)) := by
  simp only [modify, hcell]

end Heap

/-! ## Creating, cloning and destroying -/

/-- `burrow_attributes_create` and `burrow_filters_create`: `empty` is what the function
writes to the other fields, `alloc` is what `malloc` or `burrow_malloc` answers. -/
def create (empty : V) (dest : Option Address) (burrow : Option BurrowId)
    (alloc : Option Address) (h : Heap V) : Except Fault (Option Address × Heap V) :=
  match dest, burrow with
  | none, some b =>
      match alloc with
      | none => .ok (none, h)
      | some a =>
          let next := h.list b
          let h := (h.write a ⟨empty, some b, next, none⟩).setList b (some a)
          match h.modifyLink next fun node => { node with prev := some a } with
          | .error fault => .error fault
          | .ok h => .ok (some a, h)
  -- the object is not managed: `next` leads back to it
  | none, none =>
      match alloc with
      | none => .ok (none, h)
      | some a => .ok (some a, h.write a ⟨empty, none, some a, some a⟩)
  | some a, burrow => .ok (some a, h.write a ⟨empty, burrow, some a, some a⟩)

/-- `burrow_attributes_clone` and `burrow_filters_clone`. The values of the source are
read after the destination has been created. -/
def clone (empty : V) (dest : Option Address) (src : Address) (alloc : Option Address)
    (h : Heap V) : Except Fault (Option Address × Heap V) :=
  match h.read src with
  | .error fault => .error fault
  | .ok source =>
      match create empty dest source.burrow alloc h with
      | .error fault => .error fault
      | .ok (none, h) => .ok (none, h)
      | .ok (some a, h) =>
          match h.read src with
          | .error fault => .error fault
          | .ok source =>
              match h.modify a fun node => { node with value := source.value } with
              | .error fault => .error fault
              | .ok h => .ok (some a, h)

/-- `burrow_attributes_destroy` and `burrow_filters_destroy`. -/
def destroy (a : Address) (h : Heap V) : Except Fault (Heap V) :=
  match h.read a with
  | .error fault => .error fault
  | .ok node =>
      match node.burrow with
      | none => .ok (h.free a)
      | some b =>
          if node.next = some a then .ok (h.free a)
          else
            match h.modifyLink node.next fun m => { m with prev := node.prev } with
            | .error fault => .error fault
            | .ok h =>
                match node.prev with
                | none => .ok ((h.setList b node.next).free a)
                | some p =>
                    match h.modify p fun m => { m with next := node.next } with
                    | .error fault => .error fault
                    | .ok h => .ok (h.free a)

/-- The accessors that set or unset a field change the values of an object only. -/
def assign (a : Address) (value : V) (h : Heap V) : Except Fault (Heap V) :=
  h.modify a fun node => { node with value := value }

/-- A loop of `burrow_destroy`: while the list is not empty its first object is
destroyed. The answer is the objects the loop destroys, in order, or `none` if it is
still running after `fuel` rounds. -/
def destroyLoop : Nat → BurrowId → Heap V → Except Fault (Option (List Address × Heap V))
  | 0, _, _ => .ok none
  | fuel + 1, b, h =>
      match h.list b with
      | none => .ok (some ([], h))
      | some a =>
          match destroy a h with
          | .error fault => .error fault
          | .ok h =>
              match destroyLoop fuel b h with
              | .error fault => .error fault
              | .ok none => .ok none
              | .ok (some (as, h)) => .ok (some (a :: as, h))

/-! ## The functions of the library -/

/-- What `burrow_attributes_create` writes. -/
def emptyAttributes : BurrowAttributes := ⟨0, 0, 0⟩

/-- What `burrow_filters_create` writes. -/
def emptyFilters : BurrowFilters := ⟨0, false, 0, none, .none, 0⟩

def burrowAttributesCreate (dest : Option Address) (burrow : Option BurrowId)
    (alloc : Option Address) (h : Heap BurrowAttributes) :
    Except Fault (Option Address × Heap BurrowAttributes) :=
  create emptyAttributes dest burrow alloc h

def burrowAttributesClone (dest : Option Address) (src : Address) (alloc : Option Address)
    (h : Heap BurrowAttributes) : Except Fault (Option Address × Heap BurrowAttributes) :=
  clone emptyAttributes dest src alloc h

def burrowAttributesDestroy (attributes : Address) (h : Heap BurrowAttributes) :
    Except Fault (Heap BurrowAttributes) :=
  destroy attributes h

def burrowFiltersCreate (dest : Option Address) (burrow : Option BurrowId)
    (alloc : Option Address) (h : Heap BurrowFilters) :
    Except Fault (Option Address × Heap BurrowFilters) :=
  create emptyFilters dest burrow alloc h

def burrowFiltersClone (dest : Option Address) (src : Address) (alloc : Option Address)
    (h : Heap BurrowFilters) : Except Fault (Option Address × Heap BurrowFilters) :=
  clone emptyFilters dest src alloc h

def burrowFiltersDestroy (filters : Address) (h : Heap BurrowFilters) :
    Except Fault (Heap BurrowFilters) :=
  destroy filters h

/-- The objects of both kinds. -/
structure Objects where
  attributes : Heap BurrowAttributes
  filters : Heap BurrowFilters

/-- The objects a call of `burrow_destroy` destroys, and what it leaves. -/
structure Destroyed where
  attributes : List Address
  filters : List Address
  objects : Objects

/-- The two loops of `burrow_destroy`. -/
def burrowDestroy (fuel : Nat) (b : BurrowId) (s : Objects) : Except Fault (Option Destroyed) :=
  match destroyLoop fuel b s.attributes with
  | .error fault => .error fault
  | .ok none => .ok none
  | .ok (some (attributes, attributesHeap)) =>
      match destroyLoop fuel b s.filters with
      | .error fault => .error fault
      | .ok none => .ok none
      | .ok (some (filters, filtersHeap)) =>
          .ok (some ⟨attributes, filters, ⟨attributesHeap, filtersHeap⟩⟩)

/-! ## Programs that use the objects -/

/-- A call of an object function. Where an object is allocated, `alloc` is where it
comes to lie. -/
inductive Op (V : Type u) where
  | create (dest : Option Address) (burrow : Option BurrowId) (alloc : Address)
  | clone (src alloc : Address)
  | destroy (a : Address)
  | assign (a : Address) (value : V)

/-- The call on the heap; `clone` is called without a destination. -/
def Op.apply (empty : V) : Op V → Heap V → Except Fault (Heap V)
  | .create dest burrow alloc, h => (Managed.create empty dest burrow (some alloc) h).map Prod.snd
  | .clone src alloc, h => (Managed.clone empty none src (some alloc) h).map Prod.snd
  | .destroy a, h => Managed.destroy a h
  | .assign a value, h => Managed.assign a value h

def attributesStep : Op BurrowAttributes → Heap BurrowAttributes →
    Except Fault (Heap BurrowAttributes)
  | .create dest burrow alloc, h =>
      (burrowAttributesCreate dest burrow (some alloc) h).map Prod.snd
  | .clone src alloc, h => (burrowAttributesClone none src (some alloc) h).map Prod.snd
  | .destroy attributes, h => burrowAttributesDestroy attributes h
  | .assign attributes value, h => assign attributes value h

def filtersStep : Op BurrowFilters → Heap BurrowFilters → Except Fault (Heap BurrowFilters)
  | .create dest burrow alloc, h => (burrowFiltersCreate dest burrow (some alloc) h).map Prod.snd
  | .clone src alloc, h => (burrowFiltersClone none src (some alloc) h).map Prod.snd
  | .destroy filters, h => burrowFiltersDestroy filters h
  | .assign filters value, h => assign filters value h

theorem attributesStep_eq (op : Op BurrowAttributes) (h : Heap BurrowAttributes) :
    attributesStep op h = op.apply emptyAttributes h := by
  cases op <;> rfl

theorem filtersStep_eq (op : Op BurrowFilters) (h : Heap BurrowFilters) :
    filtersStep op h = op.apply emptyFilters h := by
  cases op <;> rfl

/-- A call for either kind of object. -/
inductive Call where
  | attributes (op : Op BurrowAttributes)
  | filters (op : Op BurrowFilters)

/-- The state before the first call. -/
def Objects.none : Objects := ⟨Heap.empty, Heap.empty⟩

/-- One call of the program. -/
def objectStep (call : Call) (s : Objects) : Except Fault Objects :=
  match call with
  | .attributes op => (attributesStep op s.attributes).map fun h => { s with attributes := h }
  | .filters op => (filtersStep op s.filters).map fun h => { s with filters := h }

end Burrow.Managed
