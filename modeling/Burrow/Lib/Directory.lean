import Burrow.Lib.KeyedList
import Mathlib.Logic.Function.Basic
import Mathlib.Data.List.Basic

/-!
# Directories of rows in which empty containers vanish

A directory has containers at two levels and a list of rows in each container of
the second level: `outer` lists the names of the first level, `inner a` those
below `a`, and `rows a q` is empty wherever there is no container `q` below `a`.

`setRows` writes the rows of one container. Writing no rows removes the
container, and with its last container an outer one. `putRows` writes rows and
adds what is missing of the path at the end of the lists of names. Both leave
the rows of every other container as they are.

`Tidy` directories have no empty containers. `TidyExcept E e` admits those in `E`
and `e`. Which names such a directory has is a matter of its rows, so that two of
them with the same rows differ at most in the order of names (`similar`), and not
at all when both keep the order of a third one (`eq_of_within`).
-/

set_option autoImplicit false

universe u v

/-- Names at two levels, and the rows below them. -/
structure Directory (κ : Type u) (ρ : Type v) where
  outer : List κ
  inner : κ → List κ
  rows : κ → κ → List ρ

namespace Directory

variable {κ : Type u} {ρ : Type v}

theorem ext' {d d' : Directory κ ρ} (ho : d.outer = d'.outer) (hi : ∀ a, d.inner a = d'.inner a)
    (hr : ∀ a q, d.rows a q = d'.rows a q) : d = d' := by
  cases d with
  | mk outer inner rows =>
      cases d' with
      | mk outer' inner' rows' =>
          have hi' : inner = inner' := funext hi
          have hr' : rows = rows' := funext fun a => funext fun q => hr a q
          subst hi' hr'
          simp only at ho
          rw [ho]

variable [DecidableEq κ]

/-- Write the rows of the container `q` below `a`, and remove what this leaves
empty. -/
def setRows (d : Directory κ ρ) (a q : κ) (l : List ρ) : Directory κ ρ :=
  let names := if l.isEmpty then (d.inner a).erase q else d.inner a
  { outer := if names.isEmpty then d.outer.erase a else d.outer
    inner := Function.update d.inner a names
    rows := Function.update d.rows a (Function.update (d.rows a) q l) }

/-- Apply `f` to the rows of a container that has some. -/
def modifyRows (d : Directory κ ρ) (a q : κ) (f : List ρ → List ρ) : Directory κ ρ :=
  if (d.rows a q).isEmpty then d else d.setRows a q (f (d.rows a q))

/-- Write the rows of a container, adding the container and the one above it
where they are missing. -/
def putRows (d : Directory κ ρ) (a q : κ) (l : List ρ) : Directory κ ρ :=
  { outer := if a ∈ d.outer then d.outer else d.outer ++ [a]
    inner := Function.update d.inner a (if q ∈ d.inner a then d.inner a else d.inner a ++ [q])
    rows := Function.update d.rows a (Function.update (d.rows a) q l) }

/-- No name occurs twice, and exactly the containers that hold something are
there. -/
structure Tidy (d : Directory κ ρ) : Prop where
  outer_nodup : d.outer.Nodup
  inner_nodup : ∀ a, (d.inner a).Nodup
  mem_outer : ∀ a, a ∈ d.outer ↔ d.inner a ≠ []
  mem_inner : ∀ a q, q ∈ d.inner a ↔ d.rows a q ≠ []

variable (d : Directory κ ρ) (a q : κ) (l : List ρ)

@[simp] theorem rows_setRows_self : (d.setRows a q l).rows a q = l := by
  simp [setRows]

theorem rows_setRows_of_ne {a' q' : κ} (h : a' ≠ a ∨ q' ≠ q) :
    (d.setRows a q l).rows a' q' = d.rows a' q' := by
  by_cases ha : a' = a
  · subst ha
    have hq : q' ≠ q := h.resolve_left fun hne => hne rfl
    simp [setRows, hq]
  · simp [setRows, ha]

/-- Writing the rows that are there changes nothing. -/
theorem setRows_rows (hr : d.rows a q ≠ []) (hi : d.inner a ≠ []) :
    d.setRows a q (d.rows a q) = d := by
  have hr' : (d.rows a q).isEmpty = false := List.isEmpty_eq_false_iff.2 hr
  have hi' : (d.inner a).isEmpty = false := List.isEmpty_eq_false_iff.2 hi
  unfold setRows
  simp only [hr', hi', Bool.false_eq_true, if_false, Function.update_eq_self]

theorem inner_setRows_of_ne {a' : κ} (h : a' ≠ a) : (d.setRows a q l).inner a' = d.inner a' := by
  simp [setRows, h]

theorem inner_setRows_self :
    (d.setRows a q l).inner a = if l.isEmpty then (d.inner a).erase q else d.inner a := by
  simp [setRows]

theorem outer_setRows :
    (d.setRows a q l).outer =
      if ((d.setRows a q l).inner a).isEmpty then d.outer.erase a else d.outer := by
  rw [inner_setRows_self]
  rfl

/-- In a tidy directory a container without rows is not there. -/
theorem Tidy.modifyRows_inner {d : Directory κ ρ} (h : d.Tidy) {a q : κ} {f : List ρ → List ρ}
    (hf : f [] = []) :
    (d.modifyRows a q f).inner a =
      if (f (d.rows a q)).isEmpty then (d.inner a).erase q else d.inner a := by
  unfold modifyRows
  split
  · next hnil =>
      rw [List.isEmpty_iff.1 hnil, hf]
      have hno : q ∉ d.inner a := fun hmem => (h.mem_inner a q).1 hmem (List.isEmpty_iff.1 hnil)
      exact (List.erase_of_not_mem hno).symm
  · exact inner_setRows_self d a q _

theorem Tidy.modifyRows_outer {d : Directory κ ρ} (h : d.Tidy) {a q : κ} {f : List ρ → List ρ} :
    (d.modifyRows a q f).outer =
      if ((d.modifyRows a q f).inner a).isEmpty then d.outer.erase a else d.outer := by
  unfold modifyRows
  split
  · split
    · next hnil =>
        have hno : a ∉ d.outer := fun hmem => (h.mem_outer a).1 hmem (List.isEmpty_iff.1 hnil)
        exact (List.erase_of_not_mem hno).symm
    · rfl
  · exact outer_setRows d a q _

/-- An update that keeps the absence of rows acts on the rows of its container
alone. -/
theorem rows_modifyRows_self {f : List ρ → List ρ} (hf : f [] = []) :
    (d.modifyRows a q f).rows a q = f (d.rows a q) := by
  unfold modifyRows
  split
  · next h => rw [List.isEmpty_iff.1 h, hf]
  · exact rows_setRows_self d a q _

theorem rows_modifyRows_of_ne {f : List ρ → List ρ} {a' q' : κ} (h : a' ≠ a ∨ q' ≠ q) :
    (d.modifyRows a q f).rows a' q' = d.rows a' q' := by
  unfold modifyRows
  split
  · rfl
  · exact rows_setRows_of_ne d a q _ h

/-- A row after an update was there before, or is one the update made. -/
theorem mem_rows_modifyRows {d : Directory κ ρ} {a q a' q' : κ} {f : List ρ → List ρ}
    (hf : f [] = []) {x : ρ} (hx : x ∈ (d.modifyRows a q f).rows a' q') :
    x ∈ d.rows a' q' ∨ a' = a ∧ q' = q ∧ x ∈ f (d.rows a q) := by
  by_cases h : a' = a ∧ q' = q
  · obtain ⟨rfl, rfl⟩ := h
    rw [rows_modifyRows_self d a' q' hf] at hx
    exact Or.inr ⟨rfl, rfl, hx⟩
  · rw [rows_modifyRows_of_ne d a q (not_and_or.1 h)] at hx
    exact Or.inl hx

theorem inner_modifyRows_of_ne {f : List ρ → List ρ} {a' : κ} (h : a' ≠ a) :
    (d.modifyRows a q f).inner a' = d.inner a' := by
  unfold modifyRows
  split
  · rfl
  · exact inner_setRows_of_ne d a q _ h

theorem outer_modifyRows_sublist (f : List ρ → List ρ) :
    (d.modifyRows a q f).outer.Sublist d.outer := by
  unfold modifyRows
  split
  · exact List.Sublist.refl _
  · rw [outer_setRows]
    split
    · exact List.erase_sublist
    · exact List.Sublist.refl _

theorem inner_modifyRows_sublist (f : List ρ → List ρ) (a' : κ) :
    ((d.modifyRows a q f).inner a').Sublist (d.inner a') := by
  by_cases ha : a' = a
  · subst ha
    unfold modifyRows
    split
    · exact List.Sublist.refl _
    · rw [inner_setRows_self]
      split
      · exact List.erase_sublist
      · exact List.Sublist.refl _
  · rw [inner_modifyRows_of_ne d a q ha]

@[simp] theorem rows_putRows_self : (d.putRows a q l).rows a q = l := by
  simp [putRows]

theorem rows_putRows_of_ne {a' q' : κ} (h : a' ≠ a ∨ q' ≠ q) :
    (d.putRows a q l).rows a' q' = d.rows a' q' := by
  by_cases ha : a' = a
  · subst ha
    have hq : q' ≠ q := h.resolve_left fun hne => hne rfl
    simp [putRows, hq]
  · simp [putRows, ha]

/-! ## Directories with empty containers -/

/-- No name occurs twice, and the containers that are there hold something or are
one of the empty ones in `E` and `e`. -/
structure TidyExcept (E : κ → Prop) (e : κ → κ → Prop) (d : Directory κ ρ) : Prop where
  outer_nodup : d.outer.Nodup
  inner_nodup : ∀ a, (d.inner a).Nodup
  mem_outer : ∀ a, a ∈ d.outer ↔ d.inner a ≠ [] ∨ E a
  mem_inner : ∀ a q, q ∈ d.inner a ↔ d.rows a q ≠ [] ∨ e a q
  inner_empty : ∀ a, E a → d.inner a = []
  rows_empty : ∀ a q, e a q → d.rows a q = []

/-- The same containers with the same rows, the names in any order. -/
structure Similar (d d' : Directory κ ρ) : Prop where
  outer_perm : d.outer.Perm d'.outer
  inner_perm : ∀ a, (d.inner a).Perm (d'.inner a)
  rows_eq : ∀ a q, d.rows a q = d'.rows a q

/-- The names of `d` are names of `base`, in its order. -/
structure Within (base d : Directory κ ρ) : Prop where
  outer : d.outer.Sublist base.outer
  inner : ∀ a, (d.inner a).Sublist (base.inner a)

namespace TidyExcept

variable {E : κ → Prop} {e : κ → κ → Prop} {d d' : Directory κ ρ}

omit [DecidableEq κ] in
theorem nodup_snoc {l : List κ} {x : κ} (h : l.Nodup) (hx : x ∉ l) : (l ++ [x]).Nodup := by
  apply List.nodup_append.2
  refine ⟨h, by simp, ?_⟩
  rintro y hy z hz rfl
  exact hx (List.mem_singleton.1 hz ▸ hy)

omit [DecidableEq κ] in
theorem mem_inner_congr (h : d.TidyExcept E e) (h' : d'.TidyExcept E e)
    (hrows : ∀ a q, d.rows a q = d'.rows a q) (a q : κ) : q ∈ d.inner a ↔ q ∈ d'.inner a := by
  rw [h.mem_inner, h'.mem_inner, hrows]

omit [DecidableEq κ] in
theorem mem_outer_congr (h : d.TidyExcept E e) (h' : d'.TidyExcept E e)
    (hrows : ∀ a q, d.rows a q = d'.rows a q) (a : κ) : a ∈ d.outer ↔ a ∈ d'.outer := by
  rw [h.mem_outer, h'.mem_outer]
  apply or_congr_left
  apply not_congr
  rw [List.eq_nil_iff_forall_not_mem, List.eq_nil_iff_forall_not_mem]
  exact forall_congr' fun q => not_congr (mem_inner_congr h h' hrows a q)

omit [DecidableEq κ] in
/-- The rows decide which names there are. -/
theorem similar (h : d.TidyExcept E e) (h' : d'.TidyExcept E e)
    (hrows : ∀ a q, d.rows a q = d'.rows a q) : d.Similar d' where
  outer_perm := by
    apply (List.perm_ext_iff_of_nodup h.outer_nodup h'.outer_nodup).2
    intro a
    exact mem_outer_congr h h' hrows a
  inner_perm := by
    intro a
    apply (List.perm_ext_iff_of_nodup (h.inner_nodup a) (h'.inner_nodup a)).2
    intro q
    exact mem_inner_congr h h' hrows a q
  rows_eq := hrows

/-- Changing the rows of a container keeps the empty ones. -/
theorem modifyRows (h : d.TidyExcept E e) (a q : κ) (f : List ρ → List ρ) :
    (d.modifyRows a q f).TidyExcept E e := by
  unfold Directory.modifyRows
  split
  · exact h
  · next hsome =>
      -- the container has rows, and so neither it nor the one above is among the empty ones
      have hrows : d.rows a q ≠ [] := fun hnil => hsome (List.isEmpty_iff.2 hnil)
      have hq : q ∈ d.inner a := (h.mem_inner a q).2 (Or.inl hrows)
      have hE : ¬ E a := by
        intro ha
        rw [h.inner_empty a ha] at hq
        exact List.not_mem_nil hq
      have he : ¬ e a q := fun haq => hrows (h.rows_empty a q haq)
      have hmem : ∀ q', q' ∈ (d.setRows a q (f (d.rows a q))).inner a ↔
          (d.setRows a q (f (d.rows a q))).rows a q' ≠ [] ∨ e a q' := by
        intro q'
        rw [inner_setRows_self]
        by_cases hqq : q' = q
        -- the container of the rows leaves the one above it when its last row goes
        · subst hqq
          rw [rows_setRows_self]
          split
          · next hnil =>
              simp [List.isEmpty_iff.1 hnil, he, (h.inner_nodup a).mem_erase_iff]
          · next hne =>
              simp only [List.isEmpty_iff] at hne
              simp [hq, hne]
        · rw [rows_setRows_of_ne d a q _ (Or.inr hqq), ← h.mem_inner]
          split
          · rw [List.mem_erase_of_ne hqq]
          · exact Iff.rfl
      constructor
      case outer_nodup =>
        rw [outer_setRows]
        split
        · exact h.outer_nodup.erase a
        · exact h.outer_nodup
      case inner_nodup =>
        intro a'
        by_cases ha : a' = a
        · subst ha
          rw [inner_setRows_self]
          split
          · exact (h.inner_nodup a').erase q
          · exact h.inner_nodup a'
        · rw [inner_setRows_of_ne d a q _ ha]
          exact h.inner_nodup a'
      case mem_outer =>
        intro a'
        rw [outer_setRows]
        by_cases ha : a' = a
        · subst ha
          -- and that one goes with its last container
          split
          · next hnil =>
              simp [List.isEmpty_iff.1 hnil, hE, h.outer_nodup.mem_erase_iff]
          · next hne =>
              have houter : a' ∈ d.outer := (h.mem_outer a').2 (Or.inl (List.ne_nil_of_mem hq))
              simp only [List.isEmpty_iff] at hne
              exact iff_of_true houter (Or.inl hne)
        · rw [inner_setRows_of_ne d a q _ ha, ← h.mem_outer]
          split
          · rw [List.mem_erase_of_ne ha]
          · exact Iff.rfl
      case mem_inner =>
        intro a' q'
        by_cases ha : a' = a
        · subst ha
          exact hmem q'
        · rw [inner_setRows_of_ne d a q _ ha, rows_setRows_of_ne d a q _ (Or.inl ha)]
          exact h.mem_inner a' q'
      case inner_empty =>
        intro a' ha'
        have ha : a' ≠ a := fun heq => hE (heq ▸ ha')
        rw [inner_setRows_of_ne d a q _ ha]
        exact h.inner_empty a' ha'
      case rows_empty =>
        intro a' q' haq
        -- `q` of `a` had rows, so the empty container is another one
        have hne : a' ≠ a ∨ q' ≠ q := by
          by_contra hboth
          push Not at hboth
          obtain ⟨rfl, rfl⟩ := hboth
          exact he haq
        rw [rows_setRows_of_ne d a q _ hne]
        exact h.rows_empty a' q' haq

/-- Putting rows into a container fills it, if it was one of the empty ones. -/
theorem putRows (h : d.TidyExcept E e) (a q : κ) {l : List ρ} (hl : l ≠ []) :
    (d.putRows a q l).TidyExcept (fun a' => E a' ∧ a' ≠ a)
      (fun a' q' => e a' q' ∧ (a' ≠ a ∨ q' ≠ q)) := by
  have hself : (d.putRows a q l).inner a =
      if q ∈ d.inner a then d.inner a else d.inner a ++ [q] := by simp [Directory.putRows]
  have hother : ∀ a', a' ≠ a → (d.putRows a q l).inner a' = d.inner a' := by
    intro a' ha
    simp [Directory.putRows, ha]
  have hq : q ∈ (d.putRows a q l).inner a := by
    rw [hself]
    split
    · assumption
    · simp
  constructor
  case outer_nodup =>
    show (if a ∈ d.outer then d.outer else d.outer ++ [a]).Nodup
    split
    · exact h.outer_nodup
    · next hnew =>
        exact nodup_snoc h.outer_nodup hnew
  case inner_nodup =>
    intro a'
    by_cases ha : a' = a
    · subst ha
      rw [hself]
      split
      · exact h.inner_nodup a'
      · next hnew =>
          exact nodup_snoc (h.inner_nodup a') hnew
    · rw [hother a' ha]
      exact h.inner_nodup a'
  case mem_outer =>
    intro a'
    show a' ∈ (if a ∈ d.outer then d.outer else d.outer ++ [a]) ↔ _
    by_cases ha : a' = a
    · subst ha
      have houter : a' ∈ (if a' ∈ d.outer then d.outer else d.outer ++ [a']) := by
        split
        · assumption
        · simp
      exact iff_of_true houter (Or.inl (List.ne_nil_of_mem hq))
    · rw [hother a' ha]
      have hmem : a' ∈ (if a ∈ d.outer then d.outer else d.outer ++ [a]) ↔ a' ∈ d.outer := by
        split
        · exact Iff.rfl
        · simp [ha]
      simp only [hmem, h.mem_outer, ha, ne_eq, not_false_eq_true, and_true]
  case mem_inner =>
    intro a' q'
    by_cases ha : a' = a
    · subst ha
      by_cases hqq : q' = q
      · subst hqq
        rw [rows_putRows_self]
        exact iff_of_true hq (Or.inl hl)
      · rw [hself, rows_putRows_of_ne d a' q l (Or.inr hqq)]
        have hmem : q' ∈ (if q ∈ d.inner a' then d.inner a' else d.inner a' ++ [q]) ↔
            q' ∈ d.inner a' := by
          split
          · exact Iff.rfl
          · simp [hqq]
        simp only [hmem, h.mem_inner, hqq, ne_eq, not_true_eq_false, not_false_eq_true, false_or,
          and_true]
    · rw [hother a' ha, rows_putRows_of_ne d a q l (Or.inl ha), h.mem_inner]
      simp only [ha, ne_eq, not_false_eq_true, true_or, and_true]
  case inner_empty =>
    rintro a' ⟨ha', hne⟩
    rw [hother a' hne]
    exact h.inner_empty a' ha'
  case rows_empty =>
    rintro a' q' ⟨haq, hne⟩
    rw [rows_putRows_of_ne d a q l hne]
    exact h.rows_empty a' q' haq

omit [DecidableEq κ] in
/-- Two directories that keep the order of a third are equal if their rows are. -/
theorem eq_of_within {base : Directory κ ρ} (houter : base.outer.Nodup)
    (hinner : ∀ a, (base.inner a).Nodup) (h : d.TidyExcept E e) (h' : d'.TidyExcept E e)
    (hw : base.Within d) (hw' : base.Within d') (hrows : ∀ a q, d.rows a q = d'.rows a q) :
    d = d' := by
  classical
  apply ext'
  · -- both are what `base` has of the same names
    rw [KeyedList.eq_filter_of_sublist hw.outer houter
        (fun x _ => (decide_eq_true_iff (p := x ∈ d.outer)).symm),
      KeyedList.eq_filter_of_sublist hw'.outer houter
        (fun x _ => (mem_outer_congr h h' hrows x).symm.trans decide_eq_true_iff.symm)]
  · intro a
    rw [KeyedList.eq_filter_of_sublist (hw.inner a) (hinner a)
        (fun x _ => (decide_eq_true_iff (p := x ∈ d.inner a)).symm),
      KeyedList.eq_filter_of_sublist (hw'.inner a) (hinner a)
        (fun x _ => (mem_inner_congr h h' hrows a x).symm.trans decide_eq_true_iff.symm)]
  · exact hrows

end TidyExcept

namespace Within

variable {base d d' : Directory κ ρ}

omit [DecidableEq κ] in
theorem refl (d : Directory κ ρ) : d.Within d :=
  ⟨List.Sublist.refl _, fun _ => List.Sublist.refl _⟩

omit [DecidableEq κ] in
theorem trans (h : base.Within d) (h' : d.Within d') : base.Within d' :=
  ⟨h'.outer.trans h.outer, fun a => (h'.inner a).trans (h.inner a)⟩

theorem modifyRows (h : base.Within d) (a q : κ) (f : List ρ → List ρ) :
    base.Within (d.modifyRows a q f) :=
  h.trans ⟨outer_modifyRows_sublist d a q f, inner_modifyRows_sublist d a q f⟩

/-- Putting rows in both keeps the order, if the container is not one that only
`base` has. -/
theorem putRows (h : base.Within d) {a q : κ} {l l' : List ρ}
    (houter : a ∈ base.outer → a ∈ d.outer) (hinner : q ∈ base.inner a → q ∈ d.inner a) :
    (base.putRows a q l).Within (d.putRows a q l') := by
  have hlist : ∀ {x : κ} {k k' : List κ}, k'.Sublist k → (x ∈ k → x ∈ k') →
      (if x ∈ k' then k' else k' ++ [x]).Sublist (if x ∈ k then k else k ++ [x]) := by
    intro x k k' hsub hmem
    by_cases hx : x ∈ k
    · rw [if_pos hx, if_pos (hmem hx)]
      exact hsub
    · rw [if_neg hx, if_neg fun hx' => hx (hsub.subset hx')]
      exact hsub.append (List.Sublist.refl _)
  constructor
  · exact hlist h.outer houter
  · intro a'
    by_cases ha : a' = a
    · subst ha
      simp only [Directory.putRows, Function.update_self]
      exact hlist (h.inner a') hinner
    · simp only [Directory.putRows, Function.update_of_ne ha]
      exact h.inner a'

end Within

/-! ## Dropping rows -/

/-- The directory without the rows that fail `p`, and without the containers that
this empties. -/
def filterRows (p : ρ → Bool) (d : Directory κ ρ) : Directory κ ρ :=
  let inner (a : κ) := (d.inner a).filter fun q => (d.rows a q).isEmpty || (d.rows a q).any p
  { outer := d.outer.filter fun a => (d.inner a).isEmpty || !(inner a).isEmpty
    inner := inner
    rows := fun a q => (d.rows a q).filter p }

omit [DecidableEq κ] in
theorem within_filterRows (p : ρ → Bool) (d : Directory κ ρ) : d.Within (d.filterRows p) :=
  ⟨List.filter_sublist, fun _ => List.filter_sublist⟩

omit [DecidableEq κ] in
theorem TidyExcept.filterRows {E : κ → Prop} {e : κ → κ → Prop} {d : Directory κ ρ}
    (h : d.TidyExcept E e) (p : ρ → Bool) : (d.filterRows p).TidyExcept E e := by
  constructor
  · exact h.outer_nodup.filter _
  · intro a
    exact (h.inner_nodup a).filter _
  · intro a
    show a ∈ d.outer.filter (fun a => (d.inner a).isEmpty || !((d.filterRows p).inner a).isEmpty) ↔
      (d.filterRows p).inner a ≠ [] ∨ E a
    rw [List.mem_filter, h.mem_outer]
    simp only [Bool.or_eq_true, List.isEmpty_iff, Bool.not_eq_true', List.isEmpty_eq_false_iff]
    constructor
    · rintro ⟨hne | ha, hnil | hsome⟩
      · exact absurd hnil hne
      · exact Or.inl hsome
      · exact Or.inr ha
      · exact Or.inl hsome
    · rintro (hsome | ha)
      · refine ⟨Or.inl fun hnil => hsome ?_, Or.inr hsome⟩
        show (d.inner a).filter _ = []
        rw [hnil, List.filter_nil]
      · exact ⟨Or.inr ha, Or.inl (h.inner_empty a ha)⟩
  · intro a q
    show q ∈ (d.inner a).filter (fun q => (d.rows a q).isEmpty || (d.rows a q).any p) ↔
      (d.rows a q).filter p ≠ [] ∨ e a q
    have hsome : (d.rows a q).filter p ≠ [] ↔ ∃ x ∈ d.rows a q, p x = true := by
      simp [List.filter_eq_nil_iff]
    rw [List.mem_filter, h.mem_inner, hsome]
    simp only [Bool.or_eq_true, List.isEmpty_iff, List.any_eq_true]
    constructor
    · rintro ⟨hne | he, hnil | hany⟩
      · exact absurd hnil hne
      · exact Or.inl hany
      · exact Or.inr he
      · exact Or.inl hany
    · rintro (⟨x, hx, hpx⟩ | he)
      · exact ⟨Or.inl (List.ne_nil_of_mem hx), Or.inr ⟨x, hx, hpx⟩⟩
      · exact ⟨Or.inr he, Or.inl (h.rows_empty a q he)⟩
  · intro a ha
    show (d.inner a).filter _ = []
    rw [h.inner_empty a ha, List.filter_nil]
  · intro a q he
    show (d.rows a q).filter p = []
    rw [h.rows_empty a q he, List.filter_nil]

omit [DecidableEq κ] in
/-- Two directories that keep the order of a third are the same without the rows
that fail `p`, if the other rows are. -/
theorem TidyExcept.filterRows_eq {E : κ → Prop} {e : κ → κ → Prop} {base d d' : Directory κ ρ}
    {p : ρ → Bool} (houter : base.outer.Nodup) (hinner : ∀ a, (base.inner a).Nodup)
    (h : d.TidyExcept E e) (h' : d'.TidyExcept E e) (hw : base.Within d) (hw' : base.Within d')
    (hrows : ∀ a q, (d.rows a q).filter p = (d'.rows a q).filter p) :
    d.filterRows p = d'.filterRows p :=
  eq_of_within houter hinner (h.filterRows p) (h'.filterRows p)
    (hw.trans (within_filterRows p d)) (hw'.trans (within_filterRows p d')) hrows

end Directory
