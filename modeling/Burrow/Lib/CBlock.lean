import Mathlib.Data.List.Basic

/-!
# Blocks of memory

A block from `malloc` is a list of as many cells as it was asked for, and a cell is
`none` until a value is written to it. `granted` says whether there is memory.
`memcpy` reads from a place in one block and writes to a place in another; to go
outside of either is an error, and so is to look for the end of a string that has
none.

What is copied behind the values that a block holds, with room for it, extends them
(`memcpy_append`).
-/

set_option autoImplicit false

namespace CBlock

universe u

variable {α : Type u}

/-- A block of memory. -/
abbrev Block (α : Type u) := List (Option α)

inductive Misuse where
  /-- a cell outside of the block is read -/
  | readsOutside
  /-- a cell outside of the block is written -/
  | writesOutside
  /-- a decision depends on a cell that nothing was written to -/
  | readsUninitialised
  /-- there is no block -/
  | nullPointer
deriving DecidableEq, Repr

/-- Cells that nothing was written to. -/
def fresh (n : Nat) : Block α := List.replicate n none

/-- A block that these values were written to. -/
def holding (values : List α) : Block α := values.map some

def malloc (granted : Bool) (size : Nat) : Option (Block α) :=
  if granted then some (fresh size) else none

/-- `realloc`: the cells that both blocks have are kept. -/
def realloc (granted : Bool) (block : Block α) (size : Nat) : Option (Block α) :=
  if granted then some (block.take size ++ fresh (size - block.length)) else none

/-- `memcpy(dest + off, src + start, n)`: the block that is written to. -/
def memcpy (dest : Block α) (off : Nat) (src : Block α) (start n : Nat) :
    Except Misuse (Block α) :=
  if src.length < start + n then .error .readsOutside
  else if dest.length < off + n then .error .writesOutside
  else .ok (dest.take off ++ (src.drop start).take n ++ dest.drop (off + n))

/-- The string in a block: the values before the first one that is `zero`. -/
def cstring [DecidableEq α] (zero : α) : Block α → Except Misuse (List α)
  | [] => .error .readsOutside
  | none :: _ => .error .readsUninitialised
  | some c :: rest => if c = zero then .ok [] else (cstring zero rest).map (c :: ·)

def strlen [DecidableEq α] (zero : α) (block : Block α) : Except Misuse Nat :=
  (cstring zero block).map List.length

/-- A block that these values were written to, with a `zero` behind them. -/
def terminated (zero : α) (values : List α) : Block α := holding (values ++ [zero])

/-! ## Sizes -/

@[simp] theorem length_fresh (n : Nat) : (fresh n : Block α).length = n :=
  List.length_replicate

@[simp] theorem length_holding (values : List α) : (holding values).length = values.length :=
  List.length_map _

@[simp] theorem holding_nil : (holding [] : Block α) = [] := rfl

theorem holding_append (values more : List α) :
    holding (values ++ more) = holding values ++ holding more :=
  List.map_append

theorem holding_drop (values : List α) (n : Nat) :
    (holding values).drop n = holding (values.drop n) :=
  List.map_drop.symm

theorem holding_take (values : List α) (n : Nat) :
    (holding values).take n = holding (values.take n) :=
  List.map_take.symm

/-! ## Copies -/

theorem memcpy_of_le {dest src : Block α} {off start n : Nat} (hsrc : start + n ≤ src.length)
    (hdest : off + n ≤ dest.length) :
    memcpy dest off src start n =
      .ok (dest.take off ++ (src.drop start).take n ++ dest.drop (off + n)) := by
  rw [memcpy, if_neg (Nat.not_lt.2 hsrc), if_neg (Nat.not_lt.2 hdest)]

/-- **Appending.** What is copied behind the values that a block holds, with just the
room for it, extends them. -/
theorem memcpy_append (written values : List α) :
    memcpy (holding written ++ fresh values.length) written.length (holding values) 0
        values.length =
      .ok (holding (written ++ values)) := by
  have hsrc : 0 + values.length ≤ (holding values).length := by simp
  have hdest : written.length + values.length ≤
      (holding written ++ fresh values.length : Block α).length := by simp
  have hfront : (holding written ++ fresh values.length : Block α).take written.length =
      holding written := by
    rw [← length_holding written]
    exact List.take_left
  have hback : (holding written ++ fresh values.length : Block α).drop
      (written.length + values.length) = [] :=
    List.drop_of_length_le (by simp)
  have hwhole : ((holding values).drop 0).take values.length = holding values :=
    List.take_of_length_le (by simp)
  rw [memcpy_of_le hsrc hdest, hfront, hback, hwhole, List.append_nil, holding_append]

/-- A part of the values that a block holds is copied to the start of another. -/
theorem memcpy_part {dest : Block α} {values : List α} {start n : Nat}
    (hsrc : start + n ≤ values.length) (hdest : n ≤ dest.length) :
    memcpy dest 0 (holding values) start n =
      .ok (holding ((values.drop start).take n) ++ dest.drop n) := by
  rw [memcpy_of_le (by rw [length_holding]; exact hsrc) (by rw [Nat.zero_add]; exact hdest),
    List.take_zero, List.nil_append, Nat.zero_add, holding_drop, holding_take]

/-- A block that grows keeps its values in front of the new cells. -/
theorem realloc_grow (values : List α) (n : Nat) :
    realloc true (holding values) (values.length + n) = some (holding values ++ fresh n) := by
  have hkept : (holding values).take (values.length + n) = holding values :=
    List.take_of_length_le (by simp)
  rw [realloc, if_pos rfl, hkept, length_holding, Nat.add_sub_cancel_left]

/-- A new block is filled with the first cells of the source. -/
theorem memcpy_fresh {src : Block α} {n : Nat} (h : n ≤ src.length) :
    memcpy (fresh n) 0 src 0 n = .ok (src.take n) := by
  have hroom : 0 + n ≤ (fresh n : Block α).length := by simp
  rw [memcpy_of_le (by omega) hroom, List.take_zero, List.nil_append, List.drop_zero,
    List.drop_of_length_le (by simp), List.append_nil]

/-! ## Strings -/

@[simp] theorem length_terminated (zero : α) (values : List α) :
    (terminated zero values).length = values.length + 1 := by
  rw [terminated, length_holding, List.length_append, List.length_singleton]

variable [DecidableEq α] (zero : α)

/-- The string ends before the first zero, wherever its block ends. -/
theorem cstring_terminated (values : List α) :
    cstring zero (terminated zero values) = .ok (values.takeWhile (· ≠ zero)) := by
  induction values with
  | nil => exact if_pos rfl
  | cons c values ih =>
      have hcons : terminated zero (c :: values) = some c :: terminated zero values := rfl
      rw [hcons, cstring, ih]
      by_cases hc : c = zero
      · rw [if_pos hc, List.takeWhile_cons_of_neg (by simpa using hc)]
      · rw [if_neg hc, List.takeWhile_cons_of_pos (by simpa using hc)]
        rfl

/-- What `strlen` counts, with the terminator, is the string. -/
theorem take_terminated (values : List α) :
    (terminated zero values).take ((values.takeWhile (· ≠ zero)).length + 1) =
      terminated zero (values.takeWhile (· ≠ zero)) := by
  induction values with
  | nil => rfl
  | cons c values ih =>
      have hcons : terminated zero (c :: values) = some c :: terminated zero values := rfl
      by_cases hc : c = zero
      · rw [hcons, List.takeWhile_cons_of_neg (by simpa using hc), hc]
        rfl
      · rw [hcons, List.takeWhile_cons_of_pos (by simpa using hc), List.length_cons,
          List.take_succ_cons, ih]
        rfl

end CBlock
