import Mathlib.Data.List.Basic

/-!
# Query strings

A query string is a list of fields `key=value` with an `&` between them. `parse` splits
it again, and `decode` reads what the fields stand for. Where the separators do not
occur in the fields, splitting undoes joining (`parse_join`), so that what is read is
what was written exactly for the values that are read back one by one
(`decode_join_iff`). A decimal number is read back (`readDecimal_toDigits`).
-/

set_option autoImplicit false

namespace QueryString

/-- A key and its value. -/
abbrev Field := List Char × List Char

/-- No separator occurs in the field. -/
structure Plain (field : Field) : Prop where
  key_ampersand : '&' ∉ field.1
  key_equals : '=' ∉ field.1
  value_ampersand : '&' ∉ field.2
  value_equals : '=' ∉ field.2

instance (field : Field) : Decidable (Plain field) :=
  decidable_of_iff ('&' ∉ field.1 ∧ '=' ∉ field.1 ∧ '&' ∉ field.2 ∧ '=' ∉ field.2)
    ⟨fun ⟨h₁, h₂, h₃, h₄⟩ => ⟨h₁, h₂, h₃, h₄⟩, fun ⟨h₁, h₂, h₃, h₄⟩ => ⟨h₁, h₂, h₃, h₄⟩⟩

/-- `key=value` -/
def render (field : Field) : List Char := ['='].intercalate [field.1, field.2]

/-- The pieces with an `&` between them. -/
def join (pieces : List (List Char)) : List Char := ['&'].intercalate pieces

/-- A piece that is split at its only `=`. -/
def splitField (piece : List Char) : Option Field :=
  match piece.splitOn '=' with
  | [key, value] => some (key, value)
  | _ => none

/-- The fields of a string. -/
def parse (s : List Char) : Option (List Field) := (s.splitOn '&').mapM splitField

theorem splitField_render {field : Field} (h : Plain field) :
    splitField (render field) = some field := by
  have hsplit : (render field).splitOn '=' = [field.1, field.2] := by
    apply List.splitOn_intercalate
    · intro piece hpiece
      rcases List.mem_cons.1 hpiece with rfl | hpiece
      · exact h.key_equals
      · rw [List.mem_singleton.1 hpiece]
        exact h.value_equals
    · exact List.cons_ne_nil _ _
  rw [splitField, hsplit]

theorem render_eq (field : Field) : render field = field.1 ++ '=' :: field.2 := by
  simp [render, List.intercalate_cons_cons]

theorem not_mem_render {field : Field} (h : Plain field) : '&' ∉ render field := by
  intro hmem
  rw [render_eq, List.mem_append, List.mem_cons] at hmem
  rcases hmem with hkey | heq | hvalue
  · exact h.key_ampersand hkey
  · exact absurd heq (by decide)
  · exact h.value_ampersand hvalue

theorem mapM_map_eq_some_iff {α β : Type} (f : α → β) (g : β → Option α) (xs : List α) :
    (xs.map f).mapM g = some xs ↔ ∀ x ∈ xs, g (f x) = some x := by
  induction xs with
  | nil => exact iff_of_true rfl fun _ hx => absurd hx List.not_mem_nil
  | cons x xs ih =>
      rw [List.map_cons, List.mapM_cons, List.forall_mem_cons, ← ih]
      cases hx : g (f x) with
      | none => simp
      | some y =>
          cases hxs : (xs.map f).mapM g with
          | none => simp
          | some ys => simp

/-- **Splitting undoes joining.** -/
theorem parse_join {fields : List Field} (hne : fields ≠ []) (h : ∀ field ∈ fields, Plain field) :
    parse (join (fields.map render)) = some fields := by
  rw [parse, join, List.splitOn_intercalate, mapM_map_eq_some_iff]
  · intro field hfield
    exact splitField_render (h field hfield)
  · intro piece hpiece
    obtain ⟨field, hfield, rfl⟩ := List.mem_map.1 hpiece
    exact not_mem_render (h field hfield)
  · simpa using hne

theorem join_injective {fields fields' : List Field} (hne : fields ≠ []) (hne' : fields' ≠ [])
    (h : ∀ field ∈ fields, Plain field) (h' : ∀ field ∈ fields', Plain field)
    (hjoin : join (fields.map render) = join (fields'.map render)) : fields = fields' := by
  have hparse := congrArg parse hjoin
  rw [parse_join hne h, parse_join hne' h'] at hparse
  exact Option.some.inj hparse

/-! ## What the fields stand for -/

section Decode

variable {α : Type} (read : Field → Option α)

/-- What a string stands for. -/
def decode (s : List Char) : Option (List α) := do
  let fields ← parse s
  fields.mapM read

/-- **What was written is what is read**, exactly if every value is read back. -/
theorem decode_join_iff (write : α → Field) {xs : List α} (hne : xs ≠ [])
    (hplain : ∀ x ∈ xs, Plain (write x)) :
    decode read (join ((xs.map write).map render)) = some xs ↔
      ∀ x ∈ xs, read (write x) = some x := by
  have hfields : ∀ field ∈ xs.map write, Plain field := by
    intro field hfield
    obtain ⟨x, hx, rfl⟩ := List.mem_map.1 hfield
    exact hplain x hx
  rw [decode, parse_join (by simpa using hne) hfields]
  exact mapM_map_eq_some_iff write read xs

end Decode

/-! ## Numbers -/

/-- A non-negative number in decimal. -/
def readDecimal (s : List Char) : Option Nat :=
  if s ≠ [] ∧ s.all Char.isDigit = true then some (Nat.ofDigitChars 10 s 0) else none

theorem readDecimal_toDigits (n : Nat) : readDecimal (Nat.toDigits 10 n) = some n := by
  have hdigits : (Nat.toDigits 10 n).all Char.isDigit = true := by
    rw [List.all_eq_true]
    intro c hc
    exact Nat.isDigit_of_mem_toDigits (by decide) (by decide) hc
  rw [readDecimal, if_pos ⟨Nat.toDigits_ne_nil, hdigits⟩, Nat.ofDigitChars_ten_toDigits]

/-- A number with a sign is none. -/
theorem readDecimal_minus (s : List Char) : readDecimal ('-' :: s) = none := by
  rw [readDecimal, if_neg]
  rintro ⟨-, hdigits⟩
  rw [List.all_cons, Bool.and_eq_true] at hdigits
  exact absurd hdigits.1 (by decide)

theorem not_mem_toDigits {c : Char} (hc : c.isDigit = false) (n : Nat) :
    c ∉ Nat.toDigits 10 n := by
  intro hmem
  have hdigit := Nat.isDigit_of_mem_toDigits (by decide) (by decide) hmem
  exact Bool.false_ne_true (hc.symm.trans hdigit)

end QueryString
