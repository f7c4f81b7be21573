import Burrow.Objects
import Burrow.Lib.CBuffer
import Mathlib.Algebra.Ring.Nat

/-!
# Strings put together with `snprintf`

The backend builds its strings piece by piece: it formats each piece behind what is in
the block, and keeps count of the length. `Filled` says that block and count agree; a
piece for which there is room keeps it so (`appendText_filled`).
-/

set_option autoImplicit false

namespace Burrow.Http

open CBuffer (Cell Misuse zeros text)

/-- What a function can run into: undefined behaviour, or a string that no `int` can
count. -/
inductive HttpFault where
  | fault (fault : Fault)
  | memory (misuse : Misuse)
deriving DecidableEq, Repr

/-- `snprintf` into a block at a place. -/
def snprintf (cells : List Cell) (off size : Nat) (output : String) :
    Except HttpFault (List Cell × Nat) :=
  (CBuffer.snprintf cells off size output.toList).mapError .memory

/-- A string with the size of its block. -/
def Holds (cells : List Cell) (size : Nat) (s : String) : Prop :=
  CBuffer.Holds cells s.toList ∧ cells.length = size

/-- The string that is read at the start of a block. -/
def readString (cells : List Cell) : String := String.ofList (text cells)

theorem Holds.readString_eq {cells : List Cell} {size : Nat} {s : String}
    (h : Holds cells size s) : readString cells = s := by
  rw [readString, CBuffer.text_of_holds h.1, String.ofList_toList]

theorem zeros_holds {size : Nat} (h : 0 < size) : Holds (zeros size) size "" :=
  ⟨CBuffer.zeros_holds h, CBuffer.length_zeros size⟩

/-- What is formatted behind a string, with room for it, extends the string. -/
theorem snprintf_append {cells : List Cell} {size : Nat} {s : String} (h : Holds cells size s)
    {n : Nat} {output : String} (hn : output.length < n) (hroom : s.length + output.length < size)
    (hint : output.length ≤ CBuffer.intMax) :
    ∃ cells', snprintf cells s.length n output = .ok (cells', output.length) ∧
      Holds cells' size (s ++ output) := by
  obtain ⟨hholds, hsize⟩ := h
  rw [← hsize] at hroom ⊢
  obtain ⟨cells', hcells, hholds', hsize'⟩ := CBuffer.snprintf_append hholds hn hroom hint
  refine ⟨cells', ?_, ?_, hsize'⟩
  · exact congrArg (Except.mapError HttpFault.memory) hcells
  · rw [String.toList_append]
    exact hholds'

/-- What is formatted into a new block, with room for it, is the string in the block. -/
theorem snprintf_zeros {size : Nat} {output : String} (hsize : output.length < size)
    (hint : output.length ≤ CBuffer.intMax) :
    ∃ cells, snprintf (zeros size) 0 size output = .ok (cells, output.length) ∧
      Holds cells size output := by
  have hroom : "".length + output.length < size := by rwa [String.length_empty, Nat.zero_add]
  have h := snprintf_append (zeros_holds (Nat.zero_lt_of_lt hsize)) hsize hroom hint
  rwa [String.length_empty, String.empty_append] at h

/-- No `int` can hold the length of the output. -/
theorem snprintf_tooLong {cells : List Cell} {off size : Nat} {output : String}
    (h : CBuffer.intMax < output.length) :
    snprintf cells off size output = .error (.memory .tooLong) := by
  rw [← String.length_toList] at h
  rw [snprintf, CBuffer.snprintf, if_pos h]
  rfl

theorem le_intMax_of_snprintf {cells cells' : List Cell} {off size n : Nat} {output : String}
    (h : snprintf cells off size output = .ok (cells', n)) : output.length ≤ CBuffer.intMax := by
  by_contra hlong
  rw [snprintf_tooLong (Nat.not_le.1 hlong)] at h
  exact absurd h (by simp)

/-- `snprintf` fails, or it keeps the size of the block and returns the length of the
whole output. -/
theorem snprintf_cases (cells : List Cell) (off size : Nat) (output : String) :
    (∃ misuse, snprintf cells off size output = .error (.memory misuse) ∧
        (output.length ≤ CBuffer.intMax → misuse = .outOfBounds)) ∨
      ∃ cells', snprintf cells off size output = .ok (cells', output.length) ∧
        cells'.length = cells.length := by
  rw [snprintf]
  cases hprint : CBuffer.snprintf cells off size output.toList with
  | error misuse =>
      rw [← String.length_toList]
      exact Or.inl ⟨misuse, rfl, CBuffer.error_of_snprintf hprint⟩
  | ok result =>
      obtain ⟨cells', n⟩ := result
      obtain ⟨hsize, rfl⟩ := CBuffer.length_of_snprintf hprint
      refine Or.inr ⟨cells', ?_, hsize⟩
      rw [String.length_toList]
      rfl

/-- `a - b` in `size_t` -/
def sizeSub (a b : Nat) : Nat := if b ≤ a then a - b else a + 2 ^ 64 - b

/-- `len += snprintf(cells + len, size - len, ...)` -/
def appendText (size : Nat) (output : String) :
    List Cell × Nat → Except HttpFault (List Cell × Nat)
  | (cells, len) => do
      let (cells, n) ← snprintf cells len (sizeSub size len) output
      return (cells, len + n)

/-- A piece that is only put in under a condition. -/
def appendIf (b : Bool) (append : List Cell × Nat → Except HttpFault (List Cell × Nat))
    (state : List Cell × Nat) : Except HttpFault (List Cell × Nat) :=
  if b then append state else .ok state

/-- The block holds the string, and the count is its length. -/
structure Filled (size : Nat) (s : String) (state : List Cell × Nat) : Prop where
  holds : Holds state.1 size s
  len : state.2 = s.length

theorem Filled.zeros {size : Nat} (h : 0 < size) : Filled size "" (zeros size, 0) :=
  ⟨zeros_holds h, rfl⟩

theorem appendText_filled (output : String) {size : Nat} {s : String} {state : List Cell × Nat}
    (h : Filled size s state) (hroom : (s ++ output).length < size)
    (hint : output.length ≤ CBuffer.intMax) :
    ∃ state', appendText size output state = .ok state' ∧ Filled size (s ++ output) state' := by
  obtain ⟨cells, len⟩ := state
  obtain ⟨hholds, rfl⟩ := h
  rw [String.length_append] at hroom
  have hsub : sizeSub size s.length = size - s.length := if_pos (by omega)
  have hfits : output.length < size - s.length := by omega
  obtain ⟨cells', hok, hholds'⟩ := snprintf_append hholds hfits hroom hint
  refine ⟨(cells', s.length + output.length), ?_, hholds', ?_⟩
  · rw [appendText, hsub, hok]
    rfl
  · rw [String.length_append]

theorem appendIf_filled (b : Bool) (output : String) {size : Nat} {s : String}
    {state : List Cell × Nat} (h : Filled size s state)
    (hroom : (s ++ if b then output else "").length < size)
    (hint : b = true → output.length ≤ CBuffer.intMax) :
    ∃ state', appendIf b (appendText size output) state = .ok state' ∧
      Filled size (s ++ if b then output else "") state' := by
  cases b with
  | true => exact appendText_filled output h hroom (hint rfl)
  | false => exact ⟨state, rfl, (String.append_empty (s := s)).symm ▸ h⟩

theorem ok_bind {ε α β : Type} {x : Except ε α} {a : α} (h : x = .ok a) (f : α → Except ε β) :
    (x >>= f) = f a := by
  rw [h]
  rfl

end Burrow.Http
