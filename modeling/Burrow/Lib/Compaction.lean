import Mathlib.Data.List.Perm.Basic

/-!
# Partition in place

A loop goes through the first elements of an array and takes out those with a property:
in the place of one that is taken out comes the last element, which is looked at next.
`Compacting p all l i n picked` is what a round of the loop keeps, with `i` the place it
is at and `n` how many elements are left; each round brings `i` and `n` closer by one
(`Compacting.skip`, `Compacting.drop`). In the end the elements with the property have
been taken out, each once, and the others are left (`Compacting.done`).
-/

set_option autoImplicit false

namespace Compaction

universe u

variable {α : Type u}

/-- The element `n` is moved to the place `i`, unless it is there. -/
def moveLast (l : List α) (i n : Nat) : List α :=
  match l[n]? with
  | some last => if i < n then l.set i last else l
  | none => l

@[simp] theorem length_moveLast (l : List α) (i n : Nat) : (moveLast l i n).length = l.length := by
  rw [moveLast]
  split
  · split
    · exact List.length_set
    · rfl
  · rfl

/-- What lies before `i` is not touched. -/
theorem take_moveLast (l : List α) (i n : Nat) : (moveLast l i n).take i = l.take i := by
  rw [moveLast]
  split
  · split
    · rw [List.take_set, List.set_eq_of_length_le]
      exact (List.length_take_le i l)
    · rfl
  · rfl

/-- What is left is what was there without the element at `i`. -/
theorem take_moveLast_perm {l : List α} {i n : Nat} (hi : i ≤ n) (hn : n < l.length) :
    ((moveLast l i n).take n).Perm ((l.take (n + 1)).eraseIdx i) := by
  have hlast : l.take (n + 1) = l.take n ++ [l[n]] := List.take_succ_eq_append_getElem hn
  rw [moveLast, List.getElem?_eq_getElem hn, hlast]
  dsimp only
  have hlength : (l.take n).length = n := by
    rw [List.length_take]
    omega
  rcases Nat.lt_or_eq_of_le hi with hlt | rfl
  · rw [if_pos hlt, List.take_set, List.eraseIdx_append_of_lt_length (by omega)]
    refine (List.set_perm_cons_eraseIdx (by omega) _).trans ?_
    exact (List.perm_append_singleton _ _).symm
  · rw [if_neg (Nat.lt_irrefl i), List.eraseIdx_append_of_length_le (by omega), hlength,
      Nat.sub_self, List.eraseIdx_cons_zero, List.append_nil]

/-- **What a round keeps.** The elements that are left and those taken out are those there
were; the elements before `i` stay, and those taken out have the property. -/
structure Compacting (p : α → Bool) (all l : List α) (i n : Nat) (picked : List α) : Prop where
  length_le : n ≤ l.length
  perm : (l.take n ++ picked).Perm all
  kept : ∀ a ∈ (l.take n).take i, p a = false
  taken : ∀ a ∈ picked, p a = true

variable {p : α → Bool} {all l picked : List α} {i n : Nat}

/-- The element stays. -/
theorem Compacting.skip (h : Compacting p all l i n picked) (hi : i < n) {a : α}
    (ha : l[i]? = some a) (hpa : p a = false) : Compacting p all l (i + 1) n picked where
  length_le := h.length_le
  perm := h.perm
  kept b hb := by
    have hget : (l.take n)[i]? = some a := by rw [List.getElem?_take_of_lt hi, ha]
    rw [List.take_add_one, hget, Option.toList_some, List.mem_append, List.mem_singleton] at hb
    rcases hb with hb | rfl
    · exact h.kept b hb
    · exact hpa
  taken := h.taken

/-- The element is taken out. -/
theorem Compacting.drop (h : Compacting p all l i n picked) (hi : i < n) {a : α}
    (ha : l[i]? = some a) (hpa : p a = true) :
    Compacting p all (moveLast l i (n - 1)) i (n - 1) (picked ++ [a]) where
  length_le := by
    rw [length_moveLast]
    exact Nat.le_trans (Nat.sub_le n 1) h.length_le
  perm := by
    have hlen := h.length_le
    obtain ⟨m, rfl⟩ : ∃ m, n = m + 1 := ⟨n - 1, by omega⟩
    rw [Nat.add_sub_cancel]
    have hget : (l.take (m + 1))[i]? = some a := by rw [List.getElem?_take_of_lt hi, ha]
    obtain ⟨hbound, hget⟩ := List.getElem?_eq_some_iff.1 hget
    have hsplit : (a :: (l.take (m + 1)).eraseIdx i).Perm (l.take (m + 1)) := by
      rw [← hget]
      exact List.getElem_cons_eraseIdx_perm hbound
    have hmoved := take_moveLast_perm (Nat.le_of_lt_succ hi) hlen
    calc List.Perm ((moveLast l i m).take m ++ (picked ++ [a]))
          ((l.take (m + 1)).eraseIdx i ++ (picked ++ [a])) := hmoved.append_right _
      List.Perm _ (a :: ((l.take (m + 1)).eraseIdx i ++ picked)) := by
          rw [← List.append_assoc]
          exact List.perm_append_singleton _ _
      List.Perm _ (l.take (m + 1) ++ picked) := hsplit.append_right picked
      List.Perm _ all := h.perm
  kept b hb := by
    have hle : i ≤ n - 1 := Nat.le_sub_one_of_lt hi
    rw [List.take_take, Nat.min_eq_left hle, take_moveLast] at hb
    refine h.kept b ?_
    rwa [List.take_take, Nat.min_eq_left (Nat.le_of_lt hi)]
  taken b hb := by
    rcases List.mem_append.1 hb with hb | hb
    · exact h.taken b hb
    · rw [List.mem_singleton.1 hb]
      exact hpa

/-- **In the end** the list is parted by the property. -/
theorem Compacting.done (h : Compacting p all l i n picked) (hi : n ≤ i) :
    (l.take n).Perm (all.filter fun a => !p a) ∧ picked.Perm (all.filter p) := by
  have hkept : ∀ a ∈ l.take n, p a = false := by
    intro a ha
    refine h.kept a ?_
    rwa [List.take_of_length_le (by rw [List.length_take]; omega)]
  constructor
  · -- the filter keeps all that is left and none of what was picked
    have hperm := h.perm.filter fun a => !p a
    rw [List.filter_append] at hperm
    rw [List.filter_eq_self.2 fun a ha => by simp [hkept a ha],
      List.filter_eq_nil_iff.2 fun a ha => by simp [h.taken a ha], List.append_nil] at hperm
    exact hperm
  · have hperm := h.perm.filter p
    rw [List.filter_append, List.filter_eq_nil_iff.2 fun a ha => by simp [hkept a ha],
      List.filter_eq_self.2 h.taken, List.nil_append] at hperm
    exact hperm

end Compaction
