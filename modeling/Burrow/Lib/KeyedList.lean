import Mathlib.Data.List.Nodup

/-!
# Lists of rows with distinct keys

A table kept in insertion order is a list of rows, each with a key read off by
`key : α → κ`. Lookup is `List.find?` and removal is `List.eraseP`, both on the
first row with the key; this file adds the in-place update `modify`, the chain
of rows that starts at a key (`chainFrom`) and the window of a table
(`window`), and states how they interact when no two rows share a key.

The table is split at a row wherever an argument walks along it:
`eraseP_split` and `modify_split` say what an operation on the row does to the
two halves.
-/

set_option autoImplicit false

namespace KeyedList

universe u v w

variable {α : Type u} {β : Type w} {κ : Type v} [DecidableEq κ]

/-- The test "this row has the key `k`". -/
def hasKey (key : α → κ) (k : κ) (x : α) : Bool := decide (key x = k)

@[simp] theorem hasKey_iff (key : α → κ) (k : κ) (x : α) : hasKey key k x = true ↔ key x = k := by
  simp [hasKey]

/-- Apply `f` to the first row with the key `k`. -/
def modify (key : α → κ) (k : κ) (f : α → α) : List α → List α
  | [] => []
  | x :: xs => if key x = k then f x :: xs else x :: modify key k f xs

/-- The rows from the first one with the key `k` on; empty when there is none. -/
def chainFrom (key : α → κ) (k : κ) : List α → List α
  | [] => []
  | x :: xs => if key x = k then x :: xs else chainFrom key k xs

/-- The rows a reader starts from: at the row named by `marker`, or at the
first row when there is no marker or no such row. -/
def startAt (key : α → κ) (marker : Option κ) (l : List α) : List α :=
  match marker with
  | none => l
  | some k => if chainFrom key k l = [] then l else chainFrom key k l

/-- At most `limit` rows from the start on; `0` stands for no limit. -/
def window (key : α → κ) (marker : Option κ) (limit : Nat) (l : List α) : List α :=
  if limit = 0 then startAt key marker l else (startAt key marker l).take limit

/-- The rows before the window. -/
def before (key : α → κ) (marker : Option κ) (l : List α) : List α :=
  l.take (l.length - (startAt key marker l).length)

/-- The rows after the window. -/
def after (key : α → κ) (marker : Option κ) (limit : Nat) (l : List α) : List α :=
  if limit = 0 then [] else (startAt key marker l).drop limit

/-- Replace each row of the window by `f` of it, dropping it on `none`; the rows
outside stay. -/
def mapWindow (key : α → κ) (marker : Option κ) (limit : Nat) (f : α → Option α) (l : List α) :
    List α :=
  before key marker l ++ (window key marker limit l).filterMap f ++ after key marker limit l

section Lookup

variable (key : α → κ)

omit [DecidableEq κ] in
/-- Rows that are dropped or keep their keys leave a sublist of the keys. -/
theorem map_filterMap_sublist {f : α → Option α} (hf : ∀ x y, f x = some y → key y = key x)
    (l : List α) : ((l.filterMap f).map key).Sublist (l.map key) := by
  induction l with
  | nil => exact List.Sublist.refl _
  | cons x xs ih =>
      cases hx : f x with
      | none =>
          rw [List.filterMap_cons_none hx]
          exact ih.cons _
      | some y =>
          rw [List.filterMap_cons_some hx, List.map_cons, hf x y hx]
          exact ih.cons_cons _

theorem find?_hasKey_eq_none_iff (k : κ) (l : List α) :
    l.find? (hasKey key k) = none ↔ k ∉ l.map key := by
  simp only [List.find?_eq_none, hasKey_iff, List.mem_map, not_exists, not_and]

/-- The row found has the key and is one of the table's. -/
theorem find?_hasKey_some {k : κ} {l : List α} {x : α} (h : l.find? (hasKey key k) = some x) :
    x ∈ l ∧ key x = k :=
  ⟨List.mem_of_find?_eq_some h, by simpa using List.find?_some h⟩

/-- With distinct keys a row is found under its own key. -/
theorem find?_hasKey_of_mem {l : List α} (hl : (l.map key).Nodup) {x : α} (hx : x ∈ l) :
    l.find? (hasKey key (key x)) = some x := by
  induction l with
  | nil => simp at hx
  | cons y ys ih =>
      simp only [List.map_cons, List.nodup_cons] at hl
      rcases List.mem_cons.1 hx with rfl | hx'
      · simp [hasKey]
      · have hne : key y ≠ key x := fun h => hl.1 (h ▸ List.mem_map_of_mem hx')
        rw [List.find?_cons_of_neg (by simpa using hne)]
        exact ih hl.2 hx'

theorem chainFrom_head? (k : κ) (l : List α) :
    (chainFrom key k l).head? = l.find? (hasKey key k) := by
  induction l with
  | nil => rfl
  | cons x xs ih =>
      by_cases h : key x = k
      · simp [chainFrom, hasKey, h]
      · rw [chainFrom, if_neg h, ih, List.find?_cons_of_neg (by simpa using h)]

theorem chainFrom_eq_nil_iff (k : κ) (l : List α) : chainFrom key k l = [] ↔ k ∉ l.map key := by
  rw [← find?_hasKey_eq_none_iff, ← chainFrom_head?, List.head?_eq_none_iff]

/-- The chain from a key is a suffix of the table. -/
theorem chainFrom_suffix (k : κ) (l : List α) : chainFrom key k l <:+ l := by
  induction l with
  | nil => exact List.suffix_refl _
  | cons x xs ih =>
      by_cases h : key x = k
      · simp [chainFrom, h]
      · rw [chainFrom, if_neg h]
        exact ih.trans (List.suffix_cons x xs)

theorem startAt_suffix (marker : Option κ) (l : List α) : startAt key marker l <:+ l := by
  cases marker with
  | none => exact List.suffix_refl _
  | some k =>
      simp only [startAt]
      split
      · exact List.suffix_refl _
      · exact chainFrom_suffix key k l

/-- A window is a contiguous run of rows. -/
theorem before_window_after (marker : Option κ) (limit : Nat) (l : List α) :
    before key marker l ++ window key marker limit l ++ after key marker limit l = l := by
  obtain ⟨pre, hpre⟩ := startAt_suffix key marker l
  have hbefore : before key marker l = pre := by
    have hlen := congrArg List.length hpre
    rw [List.length_append] at hlen
    have htake : l.take pre.length = pre := by
      conv_lhs => rw [← hpre]
      exact List.take_left
    rw [before, ← hlen, Nat.add_sub_cancel, htake]
  have hstart : window key marker limit l ++ after key marker limit l =
      startAt key marker l := by
    unfold window after
    split
    · exact List.append_nil _
    · exact List.take_append_drop _ _
  rw [hbefore, List.append_assoc, hstart, hpre]

theorem map_mapWindow_sublist {f : α → Option α} (hf : ∀ x y, f x = some y → key y = key x)
    (marker : Option κ) (limit : Nat) (l : List α) :
    ((mapWindow key marker limit f l).map key).Sublist (l.map key) := by
  conv_rhs => rw [← before_window_after key marker limit l]
  rw [mapWindow, List.map_append, List.map_append, List.map_append, List.map_append]
  exact ((List.Sublist.refl _).append (map_filterMap_sublist key hf _)).append
    (List.Sublist.refl _)

theorem window_sublist (marker : Option κ) (limit : Nat) (l : List α) :
    (window key marker limit l).Sublist l := by
  conv_rhs => rw [← before_window_after key marker limit l]
  exact (List.sublist_append_right _ _).trans (List.sublist_append_left _ _)

theorem mem_of_mem_window {marker : Option κ} {limit : Nat} {l : List α} {x : α}
    (hx : x ∈ window key marker limit l) : x ∈ l :=
  (window_sublist key marker limit l).subset hx

/-- Without marker and limit the window is the whole table. -/
@[simp] theorem window_none_zero (l : List α) : window key none 0 l = l := rfl

@[simp] theorem window_nil (marker : Option κ) (limit : Nat) :
    window key marker limit ([] : List α) = [] := by
  cases marker <;> simp [window, startAt, chainFrom]

@[simp] theorem mapWindow_nil (marker : Option κ) (limit : Nat) (f : α → Option α) :
    mapWindow key marker limit f [] = [] := by
  have hsplit := before_window_after key marker limit ([] : List α)
  simp only [List.append_eq_nil_iff] at hsplit
  rw [mapWindow, hsplit.1.1, hsplit.1.2, hsplit.2]
  rfl

/-- Without marker and limit every row is replaced. -/
@[simp] theorem mapWindow_none_zero (f : α → Option α) (l : List α) :
    mapWindow key none 0 f l = l.filterMap f := by
  simp [mapWindow, before, after, startAt]

theorem chainFrom_map (f : β → α) (k : κ) (l : List β) :
    chainFrom key k (l.map f) = (chainFrom (key ∘ f) k l).map f := by
  induction l with
  | nil => rfl
  | cons x xs ih =>
      by_cases h : key (f x) = k
      · simp [chainFrom, h]
      · simpa [chainFrom, h] using ih

theorem startAt_map (f : β → α) (marker : Option κ) (l : List β) :
    startAt key marker (l.map f) = (startAt (key ∘ f) marker l).map f := by
  cases marker with
  | none => rfl
  | some k =>
      simp only [startAt, chainFrom_map, List.map_eq_nil_iff]
      split <;> rfl

/-- A window can be read before or after a translation of the rows that keeps
their keys. -/
theorem window_map (f : β → α) (marker : Option κ) (limit : Nat) (l : List β) :
    window key marker limit (l.map f) = (window (key ∘ f) marker limit l).map f := by
  unfold window
  split
  · exact startAt_map key f marker l
  · rw [startAt_map, List.map_take]

end Lookup

section Update

variable (key : α → κ)

/-- Removing the first row with a key removes that key from the list of keys. -/
theorem map_eraseP_hasKey (k : κ) (l : List α) :
    (l.eraseP (hasKey key k)).map key = (l.map key).erase k := by
  induction l with
  | nil => rfl
  | cons x xs ih =>
      by_cases h : key x = k
      · rw [List.eraseP_cons_of_pos (by simpa using h), List.map_cons, h, List.erase_cons_head]
      · rw [List.eraseP_cons_of_neg (by simpa using h), List.map_cons, List.map_cons,
          List.erase_cons_tail (by simpa using h), ih]

theorem nodup_eraseP {l : List α} (hl : (l.map key).Nodup) (k : κ) :
    ((l.eraseP (hasKey key k)).map key).Nodup := by
  rw [map_eraseP_hasKey]
  exact hl.erase k

/-- With distinct keys the removed key is not found again. -/
theorem find?_eraseP_self {l : List α} (hl : (l.map key).Nodup) (k : κ) :
    (l.eraseP (hasKey key k)).find? (hasKey key k) = none := by
  rw [find?_hasKey_eq_none_iff, map_eraseP_hasKey]
  exact hl.not_mem_erase

theorem find?_eraseP_of_ne {k k' : κ} (h : k' ≠ k) (l : List α) :
    (l.eraseP (hasKey key k)).find? (hasKey key k') = l.find? (hasKey key k') := by
  induction l with
  | nil => rfl
  | cons x xs ih =>
      by_cases hx : key x = k
      · have hx' : ¬ hasKey key k' x = true := by simpa [hx] using h.symm
        rw [List.eraseP_cons_of_pos (by simpa using hx), List.find?_cons_of_neg hx']
      · rw [List.eraseP_cons_of_neg (by simpa using hx)]
        simp only [List.find?_cons, ih]

/-- Removal of a row at which the table is split. -/
theorem eraseP_split {pre post : List α} {x : α} {k : κ} (hx : key x = k)
    (hpre : k ∉ pre.map key) :
    (pre ++ x :: post).eraseP (hasKey key k) = pre ++ post := by
  have hno : ∀ y ∈ pre, ¬ hasKey key k y = true := by
    intro y hy h
    exact hpre ((hasKey_iff key k y).1 h ▸ List.mem_map_of_mem hy)
  rw [List.eraseP_append_right _ hno, List.eraseP_cons_of_pos (by simpa using hx)]

theorem map_modify {f : α → α} {k : κ} (hf : ∀ x, key x = k → key (f x) = k) (l : List α) :
    (modify key k f l).map key = l.map key := by
  induction l with
  | nil => rfl
  | cons x xs ih =>
      by_cases h : key x = k
      · simp [modify, h, hf x h]
      · simp [modify, h, ih]

theorem length_modify (f : α → α) (k : κ) (l : List α) :
    (modify key k f l).length = l.length := by
  induction l with
  | nil => rfl
  | cons x xs ih =>
      by_cases h : key x = k
      · simp [modify, h]
      · simp [modify, h, ih]

/-- Rows after an update are old rows or the updated row. -/
theorem mem_modify {f : α → α} {k : κ} {l : List α} {y : α} (hy : y ∈ modify key k f l) :
    y ∈ l ∨ ∃ x ∈ l, key x = k ∧ y = f x := by
  induction l with
  | nil => simp [modify] at hy
  | cons x xs ih =>
      by_cases h : key x = k
      · simp only [modify, h, if_true, List.mem_cons] at hy
        rcases hy with rfl | hy
        · exact Or.inr ⟨x, List.mem_cons_self, h, rfl⟩
        · exact Or.inl (List.mem_cons_of_mem _ hy)
      · simp only [modify, h, if_false, List.mem_cons] at hy
        rcases hy with rfl | hy
        · exact Or.inl List.mem_cons_self
        · rcases ih hy with hy | ⟨z, hz, hk, rfl⟩
          · exact Or.inl (List.mem_cons_of_mem _ hy)
          · exact Or.inr ⟨z, List.mem_cons_of_mem _ hz, hk, rfl⟩

theorem find?_modify_self {f : α → α} {k : κ} (hf : ∀ x, key x = k → key (f x) = k)
    (l : List α) :
    (modify key k f l).find? (hasKey key k) = (l.find? (hasKey key k)).map f := by
  induction l with
  | nil => rfl
  | cons x xs ih =>
      by_cases h : key x = k
      · simp [modify, h, hasKey, hf x h]
      · have hx : ¬ hasKey key k x = true := by simpa using h
        rw [modify, if_neg h, List.find?_cons_of_neg hx, List.find?_cons_of_neg hx, ih]

theorem find?_modify_of_ne {f : α → α} {k k' : κ} (hf : ∀ x, key x = k → key (f x) = k)
    (hk : k' ≠ k) (l : List α) :
    (modify key k f l).find? (hasKey key k') = l.find? (hasKey key k') := by
  induction l with
  | nil => rfl
  | cons x xs ih =>
      by_cases h : key x = k
      · have hx : ¬ hasKey key k' x = true := by simpa [h] using hk.symm
        have hx' : ¬ hasKey key k' (f x) = true := by simpa [hf x h] using hk.symm
        rw [modify, if_pos h, List.find?_cons_of_neg hx, List.find?_cons_of_neg hx']
      · rw [modify, if_neg h]
        simp only [List.find?_cons, ih]

/-- Two updates of one row are one. -/
theorem modify_modify {f : α → α} {k : κ} (hf : ∀ x, key x = k → key (f x) = k) (g : α → α)
    (l : List α) : modify key k g (modify key k f l) = modify key k (g ∘ f) l := by
  induction l with
  | nil => rfl
  | cons x xs ih =>
      by_cases h : key x = k
      · simp [modify, hf x h, h]
      · simp [modify, h, ih]

/-- An update of the row that is removed next does not matter. -/
theorem eraseP_modify_self {f : α → α} {k : κ} (hf : ∀ x, key x = k → key (f x) = k)
    (l : List α) : (modify key k f l).eraseP (hasKey key k) = l.eraseP (hasKey key k) := by
  induction l with
  | nil => rfl
  | cons x xs ih =>
      by_cases h : key x = k
      · rw [modify, if_pos h, List.eraseP_cons_of_pos (by simpa using hf x h),
          List.eraseP_cons_of_pos (by simpa using h)]
      · have hx : ¬ hasKey key k x = true := by simpa using h
        rw [modify, if_neg h, List.eraseP_cons_of_neg hx, List.eraseP_cons_of_neg hx, ih]

/-- Update of a row at which the table is split. -/
theorem modify_split {pre post : List α} {x : α} {k : κ} (f : α → α) (hx : key x = k)
    (hpre : k ∉ pre.map key) :
    modify key k f (pre ++ x :: post) = pre ++ f x :: post := by
  induction pre with
  | nil => simp [modify, hx]
  | cons y ys ih =>
      simp only [List.map_cons, List.mem_cons, not_or] at hpre
      rw [List.cons_append, modify, if_neg (Ne.symm hpre.1), ih hpre.2, List.cons_append]

theorem find?_filterMap_eq_none {f : α → Option α} (hf : ∀ x y, f x = some y → key y = key x)
    {k : κ} {l : List α} (h : k ∉ l.map key) : (l.filterMap f).find? (hasKey key k) = none := by
  rw [find?_hasKey_eq_none_iff]
  exact fun hmem => h ((map_filterMap_sublist key hf l).subset hmem)

/-- Replacing rows one by one replaces the row a key finds. -/
theorem find?_filterMap {f : α → Option α} (hf : ∀ x y, f x = some y → key y = key x) (k : κ)
    {l : List α} (hl : (l.map key).Nodup) :
    (l.filterMap f).find? (hasKey key k) = (l.find? (hasKey key k)).bind f := by
  induction l with
  | nil => rfl
  | cons x xs ih =>
      simp only [List.map_cons, List.nodup_cons] at hl
      by_cases hx : key x = k
      · have hx' : hasKey key k x = true := (hasKey_iff key k x).2 hx
        rw [List.find?_cons_of_pos hx', Option.bind_some]
        cases hfx : f x with
        -- no later element has the key, so nothing is found at all
        | none =>
            rw [List.filterMap_cons_none hfx]
            exact find?_filterMap_eq_none key hf (hx ▸ hl.1)
        | some y =>
            rw [List.filterMap_cons_some hfx, List.find?_cons_of_pos]
            rw [hasKey_iff, hf x y hfx, hx]
      · have hx' : ¬ hasKey key k x = true := fun h => hx ((hasKey_iff key k x).1 h)
        rw [List.find?_cons_of_neg hx', ← ih hl.2]
        cases hfx : f x with
        | none => rw [List.filterMap_cons_none hfx]
        | some y =>
            rw [List.filterMap_cons_some hfx, List.find?_cons_of_neg]
            rw [hasKey_iff, hf x y hfx]
            exact hx

/-- Replacing the rows of a window leaves the row a key finds, or, where it is in
the window, replaces it. -/
theorem find?_mapWindow {f : α → Option α} (hf : ∀ x y, f x = some y → key y = key x)
    (marker : Option κ) (limit : Nat) (k : κ) {l : List α} (hl : (l.map key).Nodup) :
    (mapWindow key marker limit f l).find? (hasKey key k) =
      if k ∈ (window key marker limit l).map key then (l.find? (hasKey key k)).bind f
      else l.find? (hasKey key k) := by
  have hsplit := before_window_after key marker limit l
  rw [← hsplit, List.map_append, List.map_append] at hl
  have hw : ((window key marker limit l).map key).Nodup :=
    (List.nodup_append.1 (List.nodup_append.1 hl).1).2.1
  have hfind := congrArg (List.find? (hasKey key k)) hsplit
  rw [List.find?_append, List.find?_append] at hfind
  rw [← hfind, mapWindow, List.find?_append, List.find?_append, find?_filterMap key hf k hw]
  split
  · next hmem =>
      have hbefore : (before key marker l).find? (hasKey key k) = none := by
        rw [find?_hasKey_eq_none_iff]
        exact fun hk => (List.nodup_append.1 (List.nodup_append.1 hl).1).2.2 k hk k hmem rfl
      have hafter : (after key marker limit l).find? (hasKey key k) = none := by
        rw [find?_hasKey_eq_none_iff]
        exact fun hk => (List.nodup_append.1 hl).2.2 k (List.mem_append_right _ hmem) k hk rfl
      rw [hbefore, hafter]
      simp
  · next hmem =>
      rw [(find?_hasKey_eq_none_iff key k _).2 hmem, Option.bind_none]

/-- Rows after a replacement in a window are old rows or the replaced ones. -/
theorem mem_mapWindow {f : α → Option α} {marker : Option κ} {limit : Nat} {l : List α} {y : α}
    (hy : y ∈ mapWindow key marker limit f l) :
    y ∈ l ∨ ∃ x ∈ window key marker limit l, f x = some y := by
  have hsplit := before_window_after key marker limit l
  rw [mapWindow, List.mem_append, List.mem_append, List.mem_filterMap] at hy
  rcases hy with (hy | hy) | hy
  · left
    rw [← hsplit]
    exact List.mem_append_left _ (List.mem_append_left _ hy)
  · exact Or.inr hy
  · left
    rw [← hsplit]
    exact List.mem_append_right _ hy

/-- A row that is not replaced by another one stays. -/
theorem mem_mapWindow_of_fixed {f : α → Option α} {marker : Option κ} {limit : Nat} {l : List α}
    {x : α} (hx : x ∈ l) (hfx : f x = some x) : x ∈ mapWindow key marker limit f l := by
  rw [← before_window_after key marker limit l, List.mem_append, List.mem_append] at hx
  rw [mapWindow, List.mem_append, List.mem_append, List.mem_filterMap]
  rcases hx with (hx | hx) | hx
  · exact Or.inl (Or.inl hx)
  · exact Or.inl (Or.inr ⟨x, hx, hfx⟩)
  · exact Or.inr hx

end Update

section Filter

/-- Without repetitions a sublist is the filter of its members. -/
theorem eq_filter_of_sublist {l l' : List α} (h : l'.Sublist l) (hl : l.Nodup) {p : α → Bool}
    (hp : ∀ x ∈ l, x ∈ l' ↔ p x = true) : l' = l.filter p := by
  induction h with
  | slnil => rfl
  | cons x h ih =>
      obtain ⟨hx, hrest⟩ := List.nodup_cons.1 hl
      have hno : ¬ p x = true := fun hpx =>
        hx (h.subset ((hp x List.mem_cons_self).2 hpx))
      rw [List.filter_cons_of_neg hno]
      exact ih hrest fun y hy => hp y (List.mem_cons_of_mem _ hy)
  | cons_cons x h ih =>
      obtain ⟨hx, hrest⟩ := List.nodup_cons.1 hl
      rw [List.filter_cons_of_pos ((hp x List.mem_cons_self).1 List.mem_cons_self),
        ← ih hrest fun y hy => ?_]
      rw [← hp y (List.mem_cons_of_mem _ hy), List.mem_cons]
      have hne : y ≠ x := fun heq => hx (heq ▸ hy)
      exact ⟨Or.inr, fun hor => hor.resolve_left hne⟩

/-- How many rows of a window of `n` pass a filter. -/
theorem length_filter_take_le (p : α → Bool) (n : Nat) (l : List α) :
    ((l.take n).filter p).length ≤ min n (l.filter p).length := by
  have hpass := List.length_filter_le p (l.take n)
  have htake := List.length_take_le n l
  have hfilter := ((List.take_sublist n l).filter p).length_le
  omega

/-- A window of `n` rows holds as many as it could exactly when it holds no
others, or when nothing passes beyond it. -/
theorem length_filter_take_eq_iff (p : α → Bool) (n : Nat) (l : List α) :
    ((l.take n).filter p).length = min n (l.filter p).length ↔
      (∀ x ∈ l.take n, p x = true) ∨ ∀ x ∈ l.drop n, p x = false := by
  have hsplit : (l.filter p).length =
      ((l.take n).filter p).length + ((l.drop n).filter p).length := by
    conv_lhs => rw [← List.take_append_drop n l]
    rw [List.filter_append, List.length_append]
  have hle := List.length_filter_le p (l.take n)
  have htake := List.length_take (i := n) (l := l)
  have hdrop := List.length_drop (i := n) (l := l)
  have hbeyond := List.length_filter_le p (l.drop n)
  -- what the first `n` fall short by passes behind them
  rw [← List.length_filter_eq_length_iff]
  have hnone : (∀ x ∈ l.drop n, p x = false) ↔ ((l.drop n).filter p).length = 0 := by
    rw [List.length_eq_zero_iff, List.filter_eq_nil_iff]
    simp
  rw [hnone]
  omega

end Filter

section Dropping

/-! ### Dropping rows -/

variable (key : α → κ) (p : α → Bool)

theorem eraseP_eq_filter {l : List α} (hl : (l.map key).Nodup) (k : κ) :
    l.eraseP (hasKey key k) = l.filter fun x => !hasKey key k x := by
  induction l with
  | nil => rfl
  | cons x xs ih =>
      obtain ⟨hx, hxs⟩ := List.nodup_cons.1 hl
      by_cases h : key x = k
      -- keys do not repeat, so what is erased is the only one with the key
      · have hrest : ∀ y ∈ xs, (!hasKey key k y) = true := by
          intro y hy
          have hne : key y ≠ k := fun hyk => hx (h ▸ hyk ▸ List.mem_map_of_mem hy)
          simp [hasKey, hne]
        rw [List.eraseP_cons_of_pos (by simpa using h),
          List.filter_cons_of_neg (by simp [hasKey, h]),
          List.filter_eq_self.2 hrest]
      · rw [List.eraseP_cons_of_neg (by simpa using h),
          List.filter_cons_of_pos (by simp [hasKey, h]),
          ih hxs]

/-- Rows dropped are not found. -/
theorem find?_filter {l : List α} (hl : (l.map key).Nodup) (k : κ) :
    (l.filter p).find? (hasKey key k) = (l.find? (hasKey key k)).filter p := by
  induction l with
  | nil => rfl
  | cons x xs ih =>
      obtain ⟨hx, hxs⟩ := List.nodup_cons.1 hl
      by_cases h : key x = k
      · have hfound : hasKey key k x = true := (hasKey_iff key k x).2 h
        rw [List.find?_cons_of_pos hfound]
        cases hpx : p x with
        | true =>
            rw [List.filter_cons_of_pos hpx, List.find?_cons_of_pos hfound,
              Option.filter_some_pos hpx]
        | false =>
            rw [List.filter_cons_of_neg (by simp [hpx])]
            have hnone : (xs.filter p).find? (hasKey key k) = none := by
              rw [find?_hasKey_eq_none_iff]
              intro hk
              exact hx (h ▸ (List.filter_sublist.map key).subset hk)
            rw [hnone, Option.filter_some_neg hpx]
      · have hmissed : ¬ hasKey key k x = true := fun hk => h ((hasKey_iff key k x).1 hk)
        rw [List.find?_cons_of_neg hmissed, ← ih hxs]
        cases hpx : p x with
        | true => rw [List.filter_cons_of_pos hpx, List.find?_cons_of_neg hmissed]
        | false => rw [List.filter_cons_of_neg (by simp [hpx])]

/-- A row may be changed before or after others are dropped. -/
theorem filter_modify (f : α → α) {k : κ} {l : List α} (hk : ∀ x ∈ l, key x = k → p x = true) :
    (modify key k f (l.filter p)).filter p = (modify key k f l).filter p := by
  induction l with
  | nil => rfl
  | cons x xs ih =>
      have hrest := ih fun y hy => hk y (List.mem_cons_of_mem _ hy)
      -- the element to modify passes before it is modified, and the filter decides
      -- again after
      by_cases h : key x = k
      · rw [List.filter_cons_of_pos (hk x List.mem_cons_self h), modify, if_pos h, modify, if_pos h,
          List.filter_cons, List.filter_cons, List.filter_filter]
        simp only [Bool.and_self]
      · cases hpx : p x with
        | true =>
            rw [List.filter_cons_of_pos hpx, modify, if_neg h, modify, if_neg h,
              List.filter_cons_of_pos hpx, List.filter_cons_of_pos hpx, hrest]
        | false =>
            have hno : ¬ p x = true := by simp [hpx]
            rw [List.filter_cons_of_neg hno, modify, if_neg h, List.filter_cons_of_neg hno, hrest]

/-- With distinct keys, replacing the rows of a window goes row by row. -/
theorem mapWindow_eq_filterMap {l : List α} (hl : (l.map key).Nodup) (marker : Option κ)
    (limit : Nat) (f : α → Option α) :
    mapWindow key marker limit f l =
      l.filterMap fun x => if key x ∈ (window key marker limit l).map key then f x else some x := by
  have hsplit := before_window_after key marker limit l
  have hnodup := hl
  rw [← hsplit, List.map_append, List.map_append] at hnodup
  obtain ⟨hfront, -, hback⟩ := List.nodup_append.1 hnodup
  obtain ⟨-, -, hdisjoint⟩ := List.nodup_append.1 hfront
  have hstay : ∀ l' : List α, (∀ x ∈ l', key x ∉ (window key marker limit l).map key) →
      l'.filterMap (fun x =>
        if key x ∈ (window key marker limit l).map key then f x else some x) = l' := by
    intro l' hl'
    refine (List.filterMap_congr fun x hx => ?_).trans List.filterMap_some
    exact if_neg (hl' x hx)
  have hwindow : (window key marker limit l).filterMap (fun x =>
        if key x ∈ (window key marker limit l).map key then f x else some x) =
      (window key marker limit l).filterMap f :=
    List.filterMap_congr fun x hx => if_pos (List.mem_map_of_mem hx)
  have hbefore := hstay (before key marker l) fun x hx hmem =>
    hdisjoint _ (List.mem_map_of_mem hx) _ hmem rfl
  have hafter := hstay (after key marker limit l) fun x hx hmem =>
    hback _ (List.mem_append_right _ hmem) _ (List.mem_map_of_mem hx) rfl
  have hrows := congrArg (List.filterMap fun x =>
    if key x ∈ (window key marker limit l).map key then f x else some x) hsplit
  rw [List.filterMap_append, List.filterMap_append, hbefore, hwindow, hafter] at hrows
  exact hrows

/-- Rows that a replacement drops anyway may be dropped before, if that leaves the
other rows of the window. -/
theorem filter_mapWindow {l : List α} (hl : (l.map key).Nodup) {marker : Option κ} {limit : Nat}
    {f : α → Option α} (hf : ∀ x, p x = false → f x = none)
    (hwindow : window key marker limit (l.filter p) = (window key marker limit l).filter p) :
    (mapWindow key marker limit f (l.filter p)).filter p =
      (mapWindow key marker limit f l).filter p := by
  have hl' : ((l.filter p).map key).Nodup := hl.sublist (List.filter_sublist.map key)
  rw [mapWindow_eq_filterMap key hl, mapWindow_eq_filterMap key hl', List.filterMap_filter,
    List.filter_filterMap, List.filter_filterMap]
  apply List.filterMap_congr
  intro x hx
  cases hpx : p x with
  | false =>
      simp only [Bool.false_eq_true, if_false]
      split
      · rw [hf x hpx, Option.filter_none]
      · rw [Option.filter_some_neg hpx]
        rfl
  | true =>
      have hmem : key x ∈ (window key marker limit (l.filter p)).map key ↔
          key x ∈ (window key marker limit l).map key := by
        rw [hwindow]
        constructor
        · intro hk
          exact (List.filter_sublist.map key).subset hk
        · intro hk
          obtain ⟨y, hy, hyx⟩ := List.mem_map.1 hk
          have heq : y = x :=
            List.inj_on_of_nodup_map hl (mem_of_mem_window key hy) hx hyx
          exact List.mem_map_of_mem (List.mem_filter.2 ⟨heq ▸ hy, hpx⟩)
      simp only [if_true, hmem]

/-! ### Windows of what is left -/

theorem chainFrom_filter {k : κ} {l : List α} (hk : ∀ x ∈ l, key x = k → p x = true) :
    chainFrom key k (l.filter p) = (chainFrom key k l).filter p := by
  induction l with
  | nil => rfl
  | cons x xs ih =>
      have hrest := ih fun y hy => hk y (List.mem_cons_of_mem _ hy)
      by_cases h : key x = k
      · have hpx := hk x List.mem_cons_self h
        rw [List.filter_cons_of_pos hpx, chainFrom, if_pos h, chainFrom, if_pos h,
          List.filter_cons_of_pos hpx]
      · rw [chainFrom, if_neg h, ← hrest]
        cases hpx : p x with
        | true => rw [List.filter_cons_of_pos hpx, chainFrom, if_neg h]
        | false => rw [List.filter_cons_of_neg (by simp [hpx])]

/-- A reader whose marker is not dropped starts at the same row. -/
theorem startAt_filter {marker : Option κ} {l : List α}
    (hmarker : ∀ x ∈ l, marker = some (key x) → p x = true) :
    startAt key marker (l.filter p) = (startAt key marker l).filter p := by
  cases marker with
  | none => rfl
  | some k =>
      have hk : ∀ x ∈ l, key x = k → p x = true := fun x hx hxk => hmarker x hx (by rw [hxk])
      -- the filter keeps the element of the marker, so the marker is found in both
      have hmem : k ∈ (l.filter p).map key ↔ k ∈ l.map key := by
        constructor
        · intro hmem
          exact (List.filter_sublist.map key).subset hmem
        · intro hmem
          obtain ⟨x, hx, hxk⟩ := List.mem_map.1 hmem
          exact List.mem_map.2 ⟨x, List.mem_filter.2 ⟨hx, hk x hx hxk⟩, hxk⟩
      have hchain : chainFrom key k (l.filter p) = [] ↔ chainFrom key k l = [] := by
        rw [chainFrom_eq_nil_iff, chainFrom_eq_nil_iff, hmem]
      rw [startAt, startAt]
      by_cases hnil : chainFrom key k l = []
      · rw [if_pos hnil, if_pos (hchain.2 hnil)]
      · rw [if_neg hnil, if_neg fun h => hnil (hchain.1 h), chainFrom_filter key p hk]

/-- Without a limit a window holds what is left of it. -/
theorem window_filter_of_unlimited {marker : Option κ} {l : List α}
    (hmarker : ∀ x ∈ l, marker = some (key x) → p x = true) :
    window key marker 0 (l.filter p) = (window key marker 0 l).filter p :=
  startAt_filter key p hmarker

theorem take_filter_of_forall {n : Nat} {l : List α} (h : ∀ x ∈ l.take n, p x = true) :
    (l.filter p).take n = l.take n := by
  have hsplit : l.filter p = l.take n ++ (l.drop n).filter p := by
    conv_lhs => rw [← List.take_append_drop n l]
    rw [List.filter_append, List.filter_eq_self.2 h]
  rcases Nat.le_total n l.length with hle | hle
  · rw [hsplit, List.take_append_of_le_length (by simp [hle]), List.take_take, Nat.min_self]
  · rw [List.take_of_length_le hle] at h ⊢
    rw [List.filter_eq_self.2 h, List.take_of_length_le hle]

/-- A marker that names a row is where the window starts. -/
theorem mem_window_of_marker {l : List α} (hl : (l.map key).Nodup) {x : α} (hx : x ∈ l)
    (limit : Nat) : x ∈ window key (some (key x)) limit l := by
  have hhead : (chainFrom key (key x) l).head? = some x := by
    rw [chainFrom_head?, find?_hasKey_of_mem key hl hx]
  obtain ⟨rest, hchain⟩ : ∃ rest, chainFrom key (key x) l = x :: rest := by
    cases hc : chainFrom key (key x) l with
    | nil => exact absurd hhead (by simp [hc])
    | cons y rest =>
        rw [hc, List.head?_cons, Option.some.injEq] at hhead
        exact ⟨rest, by rw [hhead]⟩
  have hstart : startAt key (some (key x)) l = x :: rest := by
    rw [startAt, hchain, if_neg (by simp)]
  rw [window, hstart]
  split
  · exact List.mem_cons_self
  · next hlimit =>
      cases limit with
      | zero => exact absurd rfl hlimit
      | succ n => exact List.mem_cons_self

/-- The window starts at the row at which the table is split. -/
theorem startAt_split {pre post : List α} {x : α} (hpre : key x ∉ pre.map key) :
    startAt key (some (key x)) (pre ++ x :: post) = x :: post := by
  have hchain : chainFrom key (key x) (pre ++ x :: post) = x :: post := by
    induction pre with
    | nil => rw [List.nil_append, chainFrom, if_pos rfl]
    | cons y ys ih =>
        rw [List.map_cons, List.mem_cons, not_or] at hpre
        rw [List.cons_append, chainFrom, if_neg (Ne.symm hpre.1), ih hpre.2]
  rw [startAt, hchain, if_neg (List.cons_ne_nil _ _)]

theorem window_split {pre post : List α} {x : α} (hpre : key x ∉ pre.map key) :
    window key (some (key x)) 1 (pre ++ x :: post) = [x] := by
  rw [window, if_neg Nat.one_ne_zero, startAt_split key hpre]
  rfl

/-- **A window without dropped rows stays as it is**, and no other window does. -/
theorem window_filter_eq_iff {l : List α} (hl : (l.map key).Nodup) (marker : Option κ)
    (limit : Nat) :
    window key marker limit (l.filter p) = window key marker limit l ↔
      ∀ x ∈ window key marker limit l, p x = true := by
  constructor
  · intro heq x hx
    rw [← heq] at hx
    exact (List.mem_filter.1 (mem_of_mem_window key hx)).2
  · intro hall
    have hmarker : ∀ x ∈ l, marker = some (key x) → p x = true := by
      rintro x hx rfl
      exact hall x (mem_window_of_marker key hl hx limit)
    rw [window, window, startAt_filter key p hmarker]
    rw [window] at hall
    split
    · next hlimit =>
        rw [if_pos hlimit] at hall
        exact List.filter_eq_self.2 hall
    · next hlimit =>
        rw [if_neg hlimit] at hall
        exact take_filter_of_forall p hall

end Dropping
end KeyedList
