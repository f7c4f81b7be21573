/-!
# Formatting into a buffer

A block of memory is a list of cells, and a cell is `none` for a zero byte and
`some c` for any other character. The string in a block ends before the first zero
byte. `snprintf` writes at any place of the block, told any size: it returns the
number of characters that it was to write, whether or not they went in. To write
outside of the block is an error, and so is an output whose length no `int` can hold.

What is formatted behind the string in a block, with room for it, extends the string
(`snprintf_append`).
-/

set_option autoImplicit false

namespace CBuffer

abbrev Cell := Option Char

/-- The string in a block. -/
def text : List Cell → List Char
  | some c :: rest => c :: text rest
  | none :: _ => []
  | [] => []

/-- A block of zero bytes. -/
def zeros (n : Nat) : List Cell := List.replicate n none

inductive Misuse where
  /-- a cell outside of the block is accessed -/
  | outOfBounds
  /-- the length of the output is not an `int` -/
  | tooLong
deriving DecidableEq, Repr

/-- `INT_MAX` -/
def intMax : Nat := 2147483647

/-- `snprintf(cells + off, size, ...)` with this output: the block and the result. -/
def snprintf (cells : List Cell) (off size : Nat) (output : List Char) :
    Except Misuse (List Cell × Nat) :=
  if intMax < output.length then .error .tooLong
  else if size = 0 then .ok (cells, output.length)
  else
    let written := (output.take (size - 1)).map some ++ [none]
    if off + written.length ≤ cells.length then
      .ok (cells.take off ++ written ++ cells.drop (off + written.length), output.length)
    else .error .outOfBounds

/-- The block holds the string. -/
def Holds (cells : List Cell) (s : List Char) : Prop :=
  ∃ rest, cells = s.map some ++ none :: rest

theorem text_of_holds {cells : List Cell} {s : List Char} (h : Holds cells s) : text cells = s := by
  obtain ⟨rest, rfl⟩ := h
  induction s with
  | nil => rfl
  | cons c s ih => exact congrArg (c :: ·) ih

theorem Holds.length_lt {cells : List Cell} {s : List Char} (h : Holds cells s) :
    s.length < cells.length := by
  obtain ⟨rest, rfl⟩ := h
  rw [List.length_append, List.length_map, List.length_cons]
  omega

theorem zeros_holds {n : Nat} (h : 0 < n) : Holds (zeros n) [] := by
  obtain ⟨m, rfl⟩ := Nat.exists_eq_succ_of_ne_zero (Nat.ne_of_gt h)
  exact ⟨zeros m, rfl⟩

@[simp] theorem length_zeros (n : Nat) : (zeros n).length = n := List.length_replicate

/-- A prefix of the block that ends behind the string holds it too. -/
theorem Holds.take {cells : List Cell} {s : List Char} (h : Holds cells s) {n : Nat}
    (hn : s.length < n) : Holds (cells.take n) s := by
  obtain ⟨rest, rfl⟩ := h
  obtain ⟨m, rfl⟩ := Nat.exists_eq_add_of_lt hn
  refine ⟨rest.take m, ?_⟩
  rw [List.take_append, List.length_map, List.take_of_length_le (by simp; omega)]
  have hm : s.length + m + 1 - s.length = m + 1 := by omega
  rw [hm, List.take_succ_cons]

/-- **Appending.** What is written at the end of the string, with room for it and for
the zero byte, extends the string. -/
theorem snprintf_append {cells : List Cell} {s output : List Char} (h : Holds cells s)
    {size : Nat} (hsize : output.length < size)
    (hroom : s.length + output.length < cells.length) (hint : output.length ≤ intMax) :
    ∃ cells', snprintf cells s.length size output = .ok (cells', output.length) ∧
      Holds cells' (s ++ output) ∧ cells'.length = cells.length := by
  obtain ⟨rest, rfl⟩ := h
  have htake : output.take (size - 1) = output := List.take_of_length_le (by omega)
  have hprefix : (s.map some ++ none :: rest).take s.length = s.map some := by
    rw [← List.length_map (f := some), List.take_left]
  have hlen : (output.map some ++ [none] : List Cell).length = output.length + 1 := by
    rw [List.length_append, List.length_map, List.length_singleton]
  have hrest : (s.map some ++ none :: rest).drop (s.length + (output.length + 1)) =
      rest.drop output.length := by
    rw [← List.length_map (f := some), List.drop_length_add_append, List.drop_succ_cons]
  rw [List.length_append, List.length_map, List.length_cons] at hroom ⊢
  refine ⟨(s ++ output).map some ++ none :: rest.drop output.length, ?_, ⟨_, rfl⟩, ?_⟩
  · rw [snprintf, if_neg (Nat.not_lt.2 hint), if_neg (by omega), htake]
    dsimp only
    rw [hlen, if_pos (by rw [List.length_append, List.length_map, List.length_cons]; omega),
      hprefix, hrest]
    simp
  · rw [List.length_append, List.length_map, List.length_append, List.length_cons,
      List.length_drop]
    omega

theorem error_of_snprintf {cells : List Cell} {off size : Nat} {output : List Char}
    {misuse : Misuse} (h : snprintf cells off size output = .error misuse)
    (hint : output.length ≤ intMax) : misuse = .outOfBounds := by
  rw [snprintf, if_neg (Nat.not_lt.2 hint)] at h
  split at h
  · exact absurd h (by simp)
  · dsimp only at h
    split at h
    · exact absurd h (by simp)
    · cases h
      rfl

/-- What is formatted stays in the block, whatever does not go in. -/
theorem length_of_snprintf {cells cells' : List Cell} {off size n : Nat} {output : List Char}
    (h : snprintf cells off size output = .ok (cells', n)) :
    cells'.length = cells.length ∧ n = output.length := by
  rw [snprintf] at h
  split at h
  · exact absurd h (by simp)
  · split at h
    · cases h
      exact ⟨rfl, rfl⟩
    · dsimp only at h
      split at h
      · next hroom =>
          cases h
          refine ⟨?_, rfl⟩
          rw [List.length_append, List.length_append, List.length_take, List.length_drop]
          omega
      · exact absurd h (by simp)

end CBuffer
