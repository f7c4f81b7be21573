import Mathlib.Tactic.ByContra

/-!
# Attributes, filters and the command structure

The data that travels between the front end and a backend
(`libburrow/structs-local.h`, `libburrow/constants-local.h`), with the accessors
of `attributes.c` and `filters.c` that work on the values alone.

An attributes or filters argument of a command is a pointer to an object the
user owns. `Object` is what a backend finds at such a pointer when it is called:
a value, or an object that has been destroyed. `BurrowCommand` is generic in
what stands for the two pointers, so that the front end can keep the pointers
themselves in it and hand the backend the objects they lead to.
-/

set_option autoImplicit false

namespace Burrow

/-! ## Return codes -/

/-- The `errno` constants the library returns. -/
def EAGAIN : Int := 11
def ENOMEM : Int := 12
def EINVAL : Int := 22
def ENOTCONN : Int := 107
def ETIMEDOUT : Int := 110
def EINPROGRESS : Int := 115

/-- Undefined behaviour a function can run into. -/
inductive Fault where
  /-- A field of a destroyed attributes or filters object is read. -/
  | destroyedObject
  /-- A `NULL` pointer is dereferenced. -/
  | nullDereference
  /-- A field of a freed message is read. -/
  | freedMessage
  /-- A pointer into a freed array of descriptors is used. -/
  | freedPfds
deriving DecidableEq, Repr

/-! ## Attributes -/

/-- `BURROW_ATTRIBUTES_TTL` -/
def burrowAttributesTtl : UInt32 := 1

/-- `BURROW_ATTRIBUTES_HIDE` -/
def burrowAttributesHide : UInt32 := 2

/-- `burrow_attributes_st`, without the links of the managed list. -/
structure BurrowAttributes where
  set : UInt32
  ttl : UInt32
  hide : UInt32
deriving DecidableEq, Repr, Inhabited

def burrowAttributesIssetTtl (attributes : BurrowAttributes) : Bool :=
  attributes.set &&& burrowAttributesTtl != 0

def burrowAttributesIssetHide (attributes : BurrowAttributes) : Bool :=
  attributes.set &&& burrowAttributesHide != 0

def burrowAttributesGetTtl (attributes : BurrowAttributes) : UInt32 := attributes.ttl

def burrowAttributesGetHide (attributes : BurrowAttributes) : UInt32 := attributes.hide

/-! ## Filters -/

/-- `BURROW_FILTERS_MATCH_HIDDEN` -/
def burrowFiltersMatchHidden : UInt32 := 1

/-- `BURROW_FILTERS_LIMIT` -/
def burrowFiltersLimit : UInt32 := 2

/-- `BURROW_FILTERS_DETAIL` -/
def burrowFiltersDetail : UInt32 := 4

/-- `BURROW_FILTERS_WAIT` -/
def burrowFiltersWait : UInt32 := 8

/-- `burrow_detail_t` -/
inductive BurrowDetail where
  | none | id | attributes | body | all
deriving DecidableEq, Repr, Inhabited

/-- `burrow_filters_st`, without the links of the managed list. A `NULL` marker
is `none`. -/
structure BurrowFilters where
  set : UInt32
  matchHidden : Bool
  limit : UInt32
  marker : Option String
  detail : BurrowDetail
  wait : UInt32
deriving DecidableEq, Repr, Inhabited

def burrowFiltersIssetMatchHidden (filters : BurrowFilters) : Bool :=
  filters.set &&& burrowFiltersMatchHidden != 0

def burrowFiltersIssetLimit (filters : BurrowFilters) : Bool :=
  filters.set &&& burrowFiltersLimit != 0

def burrowFiltersIssetDetail (filters : BurrowFilters) : Bool :=
  filters.set &&& burrowFiltersDetail != 0

def burrowFiltersIssetWait (filters : BurrowFilters) : Bool :=
  filters.set &&& burrowFiltersWait != 0

/-! ## Objects behind pointers -/

/-- What is found behind a pointer to an object of type `α`. -/
inductive Object (α : Type) where
  | live (value : α)
  | destroyed
deriving DecidableEq, Repr

/-- Reading a field through the pointer. -/
def Object.deref {α : Type} : Object α → Except Fault α
  | .live value => .ok value
  | .destroyed => .error .destroyedObject

/-- The object can be read. -/
def Object.IsLive {α : Type} : Object α → Prop
  | .live _ => True
  | .destroyed => False

instance {α : Type} (o : Object α) : Decidable o.IsLive :=
  match o with
  | .live _ => isTrue trivial
  | .destroyed => isFalse id

@[simp] theorem Object.deref_live {α : Type} (value : α) : (Object.live value).deref = .ok value :=
  rfl

@[simp] theorem Object.deref_destroyed {α : Type} :
    (Object.destroyed : Object α).deref = .error .destroyedObject := rfl

@[simp] theorem Object.isLive_live {α : Type} (value : α) : (Object.live value).IsLive := trivial

@[simp] theorem Object.not_isLive_destroyed {α : Type} : ¬ (Object.destroyed : Object α).IsLive :=
  id

theorem Object.exists_of_isLive {α : Type} {o : Object α} (h : o.IsLive) : ∃ v, o = .live v := by
  cases o with
  | live v => exact ⟨v, rfl⟩
  | destroyed => exact absurd h Object.not_isLive_destroyed

/-- An argument is `NULL` or leads to an object that can be read. -/
def ArgLive {α : Type} (arg : Option (Object α)) : Prop := ∀ o, arg = some o → o.IsLive

@[simp] theorem argLive_none {α : Type} : ArgLive (none : Option (Object α)) :=
  fun _ ho => absurd ho (by simp)

@[simp] theorem argLive_some {α : Type} (o : Object α) : ArgLive (some o) ↔ o.IsLive := by
  simp [ArgLive]

/-- The computation succeeds where `C` holds, and reads a destroyed object where
it does not. -/
structure Reads {α : Type} (C : Prop) (x : Except Fault α) : Prop where
  ok : C → ∃ r, x = .ok r
  error : ¬ C → x = .error .destroyedObject

namespace Reads

variable {α : Type} {C D : Prop} {x : Except Fault α}

theorem of_ok {r : α} (h : x = .ok r) (hC : C) : Reads C x :=
  ⟨fun _ => ⟨r, h⟩, fun hno => absurd hC hno⟩

theorem of_error (h : x = .error .destroyedObject) (hC : ¬ C) : Reads C x :=
  ⟨fun hyes => absurd hyes hC, fun _ => h⟩

theorem eq_of_error (h : Reads C x) {e : Fault} (he : x = .error e) :
    ¬ C ∧ e = .destroyedObject := by
  have hC : ¬ C := by
    intro hC
    obtain ⟨r, hr⟩ := h.ok hC
    rw [hr] at he
    exact absurd he (by simp)
  rw [h.error hC, Except.error.injEq] at he
  exact ⟨hC, he.symm⟩

theorem congr (h : Reads C x) (hCD : C ↔ D) : Reads D x :=
  ⟨fun hD => h.ok (hCD.2 hD), fun hno => h.error fun hC => hno (hCD.1 hC)⟩

end Reads

/-! ## Commands -/

/-- The eleven commands: the values of `burrow_command_t`, and the command
function pointers of a backend. -/
inductive CommandName where
  | getAccounts | deleteAccounts
  | getQueues | deleteQueues
  | getMessages | updateMessages | deleteMessages
  | getMessage | updateMessage | deleteMessage | createMessage
deriving DecidableEq, Repr

/-- `burrow_command_st`. `command` is `none` for `BURROW_CMD_NONE`, `commandFn`
names the backend's command function and is `none` for `NULL`. `filters` and
`attributes` are `NULL` or what stands for a pointer. -/
structure BurrowCommand (F A : Type) where
  command : Option CommandName
  commandFn : Option CommandName
  account : String
  queue : String
  messageId : String
  body : List UInt8
  bodySize : Nat
  filters : Option F
  attributes : Option A
deriving DecidableEq, Repr

instance {F A : Type} : Inhabited (BurrowCommand F A) :=
  ⟨⟨none, none, "", "", "", [], 0, none, none⟩⟩

/-- The command structure as a backend reads it. -/
abbrev BackendCommand := BurrowCommand (Object BurrowFilters) (Object BurrowAttributes)

/-- The pointers of a command lead to objects that have not been destroyed. -/
def BackendCommand.IsLive (cmd : BackendCommand) : Prop :=
  ArgLive cmd.filters ∧ ArgLive cmd.attributes

/-! ## The bits of a set -/

/-- A bit that was set is set, whatever the word held before. -/
theorem or_and_self (s t : UInt32) : (s ||| t) &&& t = t := by
  apply UInt32.toBitVec_inj.1
  apply BitVec.eq_of_getLsbD_eq
  intro i hi
  simp only [UInt32.toBitVec_and, UInt32.toBitVec_or, BitVec.getLsbD_and, BitVec.getLsbD_or]
  cases s.toBitVec.getLsbD i <;> cases t.toBitVec.getLsbD i <;> rfl

end Burrow
