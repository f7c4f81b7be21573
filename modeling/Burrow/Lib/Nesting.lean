import Mathlib.Init

/-!
# Streams of nested values

A reader of structured text tells its user token by token what it has read. `Value`, `Items`
and `Members` are the streams of complete values, lists of them, and lists of keys with values.

What has been told in the middle of a text is a `Context` where a value can stand, `Keyed` where
a key can, and `Filled` behind a value; the levels say what the place is enclosed in. The rules
say what a token makes of each (`Context.fill`, `Filled.endArray`, ...), and whatever has been
told so far can be completed (`Context.completes`).
-/

set_option autoImplicit false

namespace Nesting

universe u v

inductive Token (κ : Type u) (σ : Type v) where
  | beginArray
  | endArray
  | beginObject
  | endObject
  | key (k : κ)
  | scalar (s : σ)

variable {κ : Type u} {σ : Type v}

/-! ## Complete values -/

mutual

inductive Value : List (Token κ σ) → Prop
  | scalar (s : σ) : Value [.scalar s]
  | array {ts : List (Token κ σ)} : Items ts → Value (.beginArray :: (ts ++ [.endArray]))
  | object {ts : List (Token κ σ)} : Members ts → Value (.beginObject :: (ts ++ [.endObject]))

inductive Items : List (Token κ σ) → Prop
  | nil : Items []
  | snoc {ts vs : List (Token κ σ)} : Items ts → Value vs → Items (ts ++ vs)

inductive Members : List (Token κ σ) → Prop
  | nil : Members []
  | snoc {ts vs : List (Token κ σ)} (k : κ) : Members ts → Value vs →
      Members (ts ++ .key k :: vs)

end

/-! ## Places in a stream -/

/-- What encloses a place: an array, or the value of a key. -/
inductive Level where
  | array
  | member
deriving DecidableEq, Repr

/-- A value can stand here. -/
inductive Context : List Level → List (Token κ σ) → Prop
  | top : Context [] []
  | array {s : List Level} {ts us : List (Token κ σ)} : Context s ts → Items us →
      Context (.array :: s) (ts ++ .beginArray :: us)
  | member {s : List Level} {ts us : List (Token κ σ)} (k : κ) : Context s ts → Members us →
      Context (.member :: s) (ts ++ .beginObject :: (us ++ [.key k]))

/-- A key can stand here. -/
inductive Keyed : List Level → List (Token κ σ) → Prop
  | intro {s : List Level} {ts us : List (Token κ σ)} : Context s ts → Members us →
      Keyed s (ts ++ .beginObject :: us)

/-- A value ends here. -/
inductive Filled : List Level → List (Token κ σ) → Prop
  | top {ts : List (Token κ σ)} : Value ts → Filled [] ts
  | array {s : List Level} {ts us : List (Token κ σ)} : Context s ts → Items us →
      Filled (.array :: s) (ts ++ .beginArray :: us)
  | member {s : List Level} {ts us : List (Token κ σ)} : Context s ts → Members us →
      Filled (.member :: s) (ts ++ .beginObject :: us)

section Rules

variable {s : List Level} {ts vs : List (Token κ σ)}

/-- **The place is filled.** -/
theorem Context.fill (h : Context s ts) (hv : Value vs) : Filled s (ts ++ vs) := by
  cases h with
  | top => exact .top hv
  | array hc hi =>
      rw [List.append_assoc, List.cons_append]
      exact .array hc (hi.snoc hv)
  | member k hc hm =>
      rw [List.append_assoc, List.cons_append, List.append_assoc]
      exact .member hc (hm.snoc k hv)

theorem Context.beginArray (h : Context s ts) : Context (.array :: s) (ts ++ [.beginArray]) :=
  .array h .nil

theorem Context.beginObject (h : Context s ts) : Keyed s (ts ++ [.beginObject]) := .intro h .nil

theorem Context.endArray (h : Context (.array :: s) ts) : Filled s (ts ++ [.endArray]) := by
  cases h with
  | array hc hi =>
      rw [List.append_assoc, List.cons_append]
      exact hc.fill (.array hi)

theorem Keyed.endObject (h : Keyed s ts) : Filled s (ts ++ [.endObject]) := by
  cases h with
  | intro hc hm =>
      rw [List.append_assoc, List.cons_append]
      exact hc.fill (.object hm)

theorem Keyed.key (h : Keyed s ts) (k : κ) : Context (.member :: s) (ts ++ [.key k]) := by
  cases h with
  | intro hc hm =>
      rw [List.append_assoc, List.cons_append]
      exact .member k hc hm

/-- A comma in an array. -/
theorem Filled.nextItem (h : Filled (.array :: s) ts) : Context (.array :: s) ts := by
  cases h with
  | array hc hi => exact .array hc hi

/-- A comma in an object. -/
theorem Filled.nextMember (h : Filled (.member :: s) ts) : Keyed s ts := by
  cases h with
  | member hc hm => exact .intro hc hm

end Rules

/-! ## What is still to come -/

section Completes

variable {s : List Level} {ts vs : List (Token κ σ)}

/-- **Nothing is told that does not belong to a value.** -/
theorem Context.completes (h : Context s ts) (hv : Value vs) :
    ∃ rest, Value (ts ++ (vs ++ rest)) := by
  -- by induction on the levels: the value is one of the level around it
  induction h generalizing vs with
  | top =>
      refine ⟨[], ?_⟩
      rwa [List.append_nil]
  | array hc hi ih =>
      obtain ⟨rest, hrest⟩ := ih (.array (hi.snoc hv))
      refine ⟨.endArray :: rest, ?_⟩
      simpa using hrest
  | member k hc hm ih =>
      obtain ⟨rest, hrest⟩ := ih (.object (hm.snoc k hv))
      refine ⟨.endObject :: rest, ?_⟩
      simpa using hrest

theorem Keyed.completes (h : Keyed s ts) : ∃ rest, Value (ts ++ rest) := by
  cases h with
  | intro hc hm =>
      obtain ⟨rest, hrest⟩ := hc.completes (.object hm)
      refine ⟨.endObject :: rest, ?_⟩
      simpa using hrest

theorem Filled.completes (h : Filled s ts) : ∃ rest, Value (ts ++ rest) := by
  cases h with
  | top hv =>
      refine ⟨[], ?_⟩
      rwa [List.append_nil]
  | array hc hi =>
      obtain ⟨rest, hrest⟩ := hc.completes (.array hi)
      refine ⟨.endArray :: rest, ?_⟩
      simpa using hrest
  | member hc hm =>
      obtain ⟨rest, hrest⟩ := hc.completes (.object hm)
      refine ⟨.endObject :: rest, ?_⟩
      simpa using hrest

end Completes

end Nesting
