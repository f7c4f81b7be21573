import Mathlib.Logic.Function.Basic
import Mathlib.Data.List.Chain

/-!
# Intrusive lists

A doubly linked list whose pointers lie in its elements. `none` stands for the anchor of the
list: what follows it is the first element, and what follows the last element is `none`.
`Linked p none l` says that the pointers make up the list `l`: following `fd` from the anchor
visits `l` and ends, and `bk` leads back everywhere. The pointers decide the list
(`Linked.unique`), and no element is visited twice (`Linked.nodup`). To put an element to the
front and to take one out from anywhere changes at most four pointers (`Linked.push`,
`Linked.unlink`); pointers of other elements do not matter (`Linked.congr`). An element that
comes behind itself makes an end of the list (`Linked.not_of_self`).

Where the anchor leads back to the last element as well, the list is a `Ring`, which is the
reversed list when it is followed backwards (`Ring.mirror`).
-/

set_option autoImplicit false

namespace IntrusiveList

universe u

variable {α : Type u}

/-- The pointers of the elements, and of the anchor. -/
structure Pointers (α : Type u) where
  fd : Option α → Option α
  bk : Option α → Option α

/-- From `x` on the pointers make up the list. -/
def Linked (p : Pointers α) : Option α → List α → Prop
  | x, [] => p.fd x = none
  | x, a :: l => p.fd x = some a ∧ p.bk (some a) = x ∧ Linked p (some a) l

/-- Only the pointers of the elements and of the start matter. -/
theorem Linked.congr {p p' : Pointers α} {x : Option α} {l : List α} (h : Linked p x l)
    (hfd : ∀ y ∈ x :: l.map some, p'.fd y = p.fd y)
    (hbk : ∀ a ∈ l, p'.bk (some a) = p.bk (some a)) : Linked p' x l := by
  induction l generalizing x with
  | nil => exact (hfd x List.mem_cons_self).trans h
  | cons a l ih =>
      obtain ⟨hnext, hprev, hrest⟩ := h
      refine ⟨(hfd x List.mem_cons_self).trans hnext, (hbk a List.mem_cons_self).trans hprev, ?_⟩
      exact ih hrest (fun y hy => hfd y (List.mem_cons_of_mem _ hy))
        fun b hb => hbk b (List.mem_cons_of_mem _ hb)

/-- **The pointers decide the list.** -/
theorem Linked.unique {p : Pointers α} {x : Option α} {l l' : List α} (h : Linked p x l)
    (h' : Linked p x l') : l = l' := by
  induction l generalizing x l' with
  | nil =>
      cases l' with
      | nil => rfl
      | cons a l' => exact absurd (h.symm.trans h'.1) (by simp)
  | cons a l ih =>
      cases l' with
      | nil => exact absurd (h'.symm.trans h.1) (by simp)
      | cons b l' =>
          obtain rfl : a = b := Option.some.inj (h.1.symm.trans h'.1)
          rw [ih h.2.2 h'.2.2]

theorem Linked.suffix {p : Pointers α} {x : Option α} {pre post : List α} {a : α}
    (h : Linked p x (pre ++ a :: post)) : Linked p (some a) post := by
  induction pre generalizing x with
  | nil => exact h.2.2
  | cons b pre ih => exact ih h.2.2

/-- **No element is visited twice.** -/
theorem Linked.nodup {p : Pointers α} {x : Option α} {l : List α} (h : Linked p x l) :
    l.Nodup := by
  induction l generalizing x with
  | nil => exact List.nodup_nil
  | cons a l ih =>
      refine List.nodup_cons.2 ⟨fun hmem => ?_, ih h.2.2⟩
      obtain ⟨pre, post, rfl⟩ := List.append_of_mem hmem
      -- from `a` on the pointers would make up a list and a proper part of it
      have hlength := congrArg List.length (h.2.2.unique (h.2.2).suffix)
      rw [List.length_append, List.length_cons] at hlength
      omega

/-- Behind an element comes one that is still to be visited, or the end. -/
theorem Linked.fd_mem {p : Pointers α} {x : Option α} {pre post : List α} {a : α}
    (h : Linked p x (pre ++ a :: post)) {b : α} (hb : p.fd (some a) = some b) : b ∈ post := by
  have hpost := h.suffix
  cases post with
  | nil => exact absurd (hb.symm.trans hpost) (by simp)
  | cons c post =>
      obtain rfl : b = c := Option.some.inj (hb.symm.trans hpost.1)
      exact List.mem_cons_self

/-- Before an element comes one that has been visited, or the start. -/
theorem Linked.bk_mem {p : Pointers α} {x : Option α} {pre post : List α} {a : α}
    (h : Linked p x (pre ++ a :: post)) : p.bk (some a) ∈ x :: pre.map some := by
  induction pre generalizing x with
  | nil =>
      rw [h.2.1]
      exact List.mem_cons_self
  | cons b pre ih => exact List.mem_cons_of_mem _ (ih h.2.2)

/-- No element comes behind itself. -/
theorem Linked.fd_ne_self {p : Pointers α} {x : Option α} {l : List α} (h : Linked p x l) {a : α}
    (ha : a ∈ l) : p.fd (some a) ≠ some a := by
  intro hself
  obtain ⟨pre, post, rfl⟩ := List.append_of_mem ha
  have hnodup := h.nodup
  rw [List.nodup_append, List.nodup_cons] at hnodup
  exact hnodup.2.1.1 (h.fd_mem hself)

/-- Once an element comes behind itself the pointers make up no list. -/
theorem Linked.not_of_self {p p' : Pointers α} {x : Option α} {pre post : List α} {a : α}
    (h : Linked p x (pre ++ a :: post)) (hx : x ≠ some a)
    (hfd : ∀ y, y ≠ some a → p'.fd y = p.fd y) (hself : p'.fd (some a) = some a) (l : List α) :
    ¬ Linked p' x l := by
  intro h'
  -- up to `a` both lists are the same, and behind it the second never ends
  induction pre generalizing x l with
  | nil =>
      have hfirst : p'.fd x = some a := (hfd x hx).trans h.1
      cases l with
      | nil => exact absurd (hfirst.symm.trans h') (by simp)
      | cons b l =>
          obtain rfl : a = b := Option.some.inj (hfirst.symm.trans h'.1)
          exact h'.fd_ne_self List.mem_cons_self hself
  | cons b pre ih =>
      have hfirst : p'.fd x = some b := (hfd x hx).trans h.1
      have hne : some b ≠ some a := by
        intro heq
        refine (List.nodup_cons.1 h.nodup).1 ?_
        rw [Option.some.inj heq]
        exact List.mem_append_right _ List.mem_cons_self
      cases l with
      | nil => exact absurd (hfirst.symm.trans h') (by simp)
      | cons c l =>
          obtain rfl : b = c := Option.some.inj (hfirst.symm.trans h'.1)
          exact ih h.2.2 hne l h'.2.2

section Updates

variable [DecidableEq α]

/-- A new element at the front. -/
def Pointers.push (p : Pointers α) (a : α) : Pointers α :=
  { fd := Function.update (Function.update p.fd (some a) (p.fd none)) none (some a)
    bk := Function.update (Function.update p.bk (p.fd none) (some a)) (some a) none }

/-- An element taken out: its neighbours are joined. -/
def Pointers.unlink (p : Pointers α) (a : α) : Pointers α :=
  { fd := Function.update p.fd (p.bk (some a)) (p.fd (some a))
    bk := Function.update p.bk (p.fd (some a)) (p.bk (some a)) }

namespace Pointers

variable (p : Pointers α) (a : α)

@[simp] theorem push_fd_none : (p.push a).fd none = some a := by
  rw [push]
  dsimp only
  rw [Function.update_self]

@[simp] theorem push_fd_self : (p.push a).fd (some a) = p.fd none := by
  rw [push]
  dsimp only
  rw [Function.update_of_ne (Option.some_ne_none a), Function.update_self]

theorem push_fd_of_ne {b : α} (hb : b ≠ a) : (p.push a).fd (some b) = p.fd (some b) := by
  have hne : some b ≠ some a := fun heq => hb (Option.some.inj heq)
  rw [push]
  dsimp only
  rw [Function.update_of_ne (Option.some_ne_none b), Function.update_of_ne hne]

@[simp] theorem push_bk_self : (p.push a).bk (some a) = none := by
  rw [push]
  dsimp only
  rw [Function.update_self]

theorem push_bk_of_ne {b : α} (hb : b ≠ a) :
    (p.push a).bk (some b) = if p.fd none = some b then some a else p.bk (some b) := by
  have hne : some b ≠ some a := fun heq => hb (Option.some.inj heq)
  rw [push]
  dsimp only
  rw [Function.update_of_ne hne, Function.update_apply]
  exact if_congr eq_comm rfl rfl

theorem unlink_fd (x : Option α) :
    (p.unlink a).fd x = if p.bk (some a) = x then p.fd (some a) else p.fd x := by
  rw [unlink]
  dsimp only
  rw [Function.update_apply]
  exact if_congr eq_comm rfl rfl

theorem unlink_bk (x : Option α) :
    (p.unlink a).bk x = if p.fd (some a) = x then p.bk (some a) else p.bk x := by
  rw [unlink]
  dsimp only
  rw [Function.update_apply]
  exact if_congr eq_comm rfl rfl

end Pointers

/-- **Pushing.** -/
theorem Linked.push {p : Pointers α} {l : List α} (h : Linked p none l) {a : α} (ha : a ∉ l) :
    Linked (p.push a) none (a :: l) := by
  refine ⟨p.push_fd_none a, p.push_bk_self a, ?_⟩
  cases l with
  | nil => exact (p.push_fd_self a).trans h
  | cons b l =>
      obtain ⟨hnext, hprev, hrest⟩ := h
      rw [List.mem_cons, not_or] at ha
      have hnodup := List.nodup_cons.1 (Linked.nodup (l := b :: l) ⟨hnext, hprev, hrest⟩)
      refine ⟨(p.push_fd_self a).trans hnext, ?_, hrest.congr ?_ ?_⟩
      · rw [p.push_bk_of_ne a (Ne.symm ha.1), if_pos hnext]
      · intro y hy
        obtain ⟨c, hc, rfl⟩ := List.mem_map.1 (show y ∈ (b :: l).map some from hy)
        refine p.push_fd_of_ne a fun heq => ?_
        subst heq
        exact (List.mem_cons.1 hc).elim ha.1 ha.2
      · intro c hc
        have hca : c ≠ a := fun heq => ha.2 (heq ▸ hc)
        have hcb : some b ≠ some c := fun heq => hnodup.1 (Option.some.inj heq ▸ hc)
        rw [p.push_bk_of_ne a hca, hnext, if_neg hcb]

/-- **Taking out.** -/
theorem Linked.unlink {p : Pointers α} {x : Option α} {pre post : List α} {a : α}
    (h : Linked p x (pre ++ a :: post)) (hx : x ∉ (pre ++ a :: post).map some) :
    Linked (p.unlink a) x (pre ++ post) := by
  have hnodup := h.nodup
  rw [List.nodup_append, List.nodup_cons] at hnodup
  induction pre generalizing x with
  | nil =>
      obtain ⟨-, hprev, hrest⟩ := h
      show Linked (p.unlink a) x post
      cases post with
      | nil =>
          have hend : p.fd (some a) = none := hrest
          rw [Linked, p.unlink_fd, if_pos hprev, hend]
      | cons b post =>
          obtain ⟨hnext, -, hrest⟩ := hrest
          have hnodup' := List.nodup_cons.1 hnodup.2.1.2
          have hne : ∀ c ∈ b :: post, x ≠ some c := by
            rintro c hc rfl
            exact hx (List.mem_map_of_mem (List.mem_cons_of_mem _ hc))
          refine ⟨?_, ?_, hrest.congr ?_ ?_⟩
          · rw [p.unlink_fd, if_pos hprev, hnext]
          · rw [p.unlink_bk, if_pos hnext, hprev]
          · intro y hy
            obtain ⟨c, hc, rfl⟩ := List.mem_map.1 (show y ∈ (b :: post).map some from hy)
            rw [p.unlink_fd, hprev, if_neg (hne c hc)]
          · intro c hc
            have hcb : some b ≠ some c := fun heq => hnodup'.1 (Option.some.inj heq ▸ hc)
            rw [p.unlink_bk, hnext, if_neg hcb]
  | cons c pre ih =>
      obtain ⟨hnext, hprev, hrest⟩ := h
      have hcons := List.nodup_cons.1
        (Linked.nodup (l := c :: (pre ++ a :: post)) ⟨hnext, hprev, hrest⟩)
      have hbefore : p.bk (some a) ≠ x := by
        intro heq
        -- the element before `a` has been visited after `x`
        have hmem := heq ▸ hrest.bk_mem
        refine hx ?_
        rw [List.cons_append, List.map_cons]
        rcases List.mem_cons.1 hmem with rfl | hmem
        · exact List.mem_cons_self
        · refine List.mem_cons_of_mem _ ?_
          rw [List.map_append]
          exact List.mem_append_left _ hmem
      have hafter : p.fd (some a) ≠ some c := by
        intro heq
        exact hcons.1 (List.mem_append_right _ (List.mem_cons_of_mem _ (hrest.fd_mem heq)))
      refine ⟨?_, ?_, ih hrest ?_ ?_⟩
      · rw [p.unlink_fd, if_neg hbefore, hnext]
      · rw [p.unlink_bk, if_neg hafter, hprev]
      · intro hmem
        obtain ⟨d, hd, heq⟩ := List.mem_map.1 hmem
        exact hcons.1 (Option.some.inj heq ▸ hd)
      · have hpre := hnodup.1
        exact ⟨(List.nodup_cons.1 hpre).2, hnodup.2.1,
          fun d hd e he => hnodup.2.2 d (List.mem_cons_of_mem _ hd) e he⟩

end Updates

/-! ## Both ends -/

/-- The pointers in the other direction. -/
def Pointers.mirror (p : Pointers α) : Pointers α := ⟨p.bk, p.fd⟩

/-- The pointers make up the list, and the anchor leads back to its last element. -/
structure Ring (p : Pointers α) (l : List α) : Prop where
  linked : Linked p none l
  last : p.bk none = l.getLast?

/-- Each element leads to the next one, which leads back to it, and the end to the anchor. -/
theorem linked_iff_isChain {p : Pointers α} {x : Option α} {l : List α} :
    Linked p x l ∧ p.bk none = l.getLast?.or x ↔
      List.IsChain (fun u v => p.fd u = v ∧ p.bk v = u) (x :: (l.map some ++ [none])) := by
  induction l generalizing x with
  | nil =>
      rw [List.map_nil, List.nil_append, List.isChain_pair]
      exact Iff.rfl
  | cons a l ih =>
      have hlast : (a :: l).getLast?.or x = l.getLast?.or (some a) := by
        rw [List.getLast?_cons]
        cases l.getLast? with
        | none => rfl
        | some b => rfl
      rw [List.map_cons, List.cons_append, List.isChain_cons_cons, ← ih, hlast, Linked]
      constructor
      · rintro ⟨⟨hnext, hprev, hrest⟩, hend⟩
        exact ⟨⟨hnext, hprev⟩, hrest, hend⟩
      · rintro ⟨⟨hnext, hprev⟩, hrest, hend⟩
        exact ⟨⟨hnext, hprev, hrest⟩, hend⟩

theorem ring_iff_isChain {p : Pointers α} {l : List α} :
    Ring p l ↔
      List.IsChain (fun u v => p.fd u = v ∧ p.bk v = u) (none :: (l.map some ++ [none])) := by
  rw [← linked_iff_isChain, Option.or_none]
  exact ⟨fun h => ⟨h.linked, h.last⟩, fun h => ⟨h.1, h.2⟩⟩

/-- **The mirror image.** -/
theorem Ring.mirror {p : Pointers α} {l : List α} (h : Ring p l) : Ring p.mirror l.reverse := by
  rw [ring_iff_isChain] at h ⊢
  have hreverse : none :: (l.reverse.map some ++ [none]) =
      (none :: (l.map some ++ [none])).reverse := by
    rw [List.reverse_cons, List.reverse_append, List.map_reverse]
    rfl
  rw [hreverse, List.isChain_reverse]
  exact h.imp fun _ _ huv => ⟨huv.2, huv.1⟩

theorem Ring.nodup {p : Pointers α} {l : List α} (h : Ring p l) : l.Nodup := h.linked.nodup

/-- Only the pointers of the elements and of the anchor matter. -/
theorem Ring.congr {p p' : Pointers α} {l : List α} (h : Ring p l)
    (hfd : ∀ y ∈ none :: l.map some, p'.fd y = p.fd y)
    (hbk : ∀ y ∈ none :: l.map some, p'.bk y = p.bk y) : Ring p' l := by
  constructor
  · refine h.linked.congr hfd fun a ha => hbk (some a) ?_
    exact List.mem_cons_of_mem _ (List.mem_map_of_mem ha)
  · rw [hbk none List.mem_cons_self]
    exact h.last

/-- One step along the pointers; the anchor is left nowhere. -/
def follow (fd : Option α → Option α) (x : Option α) : Option α := x.bind fun a => fd (some a)

/-- Following the pointers visits the elements in order, and then stays at the end. -/
theorem Linked.iterate {p : Pointers α} {x : Option α} {l : List α} (h : Linked p x l) (i : Nat) :
    (follow p.fd)^[i] (p.fd x) = l[i]? := by
  induction l generalizing x i with
  | nil =>
      have hfixed : follow p.fd none = none := rfl
      rw [show p.fd x = none from h, Function.iterate_fixed hfixed, List.getElem?_nil]
  | cons a l ih =>
      cases i with
      | zero => exact h.1
      | succ i =>
          rw [h.1, Function.iterate_succ_apply]
          exact ih h.2.2 i

section RingUpdates

variable [DecidableEq α]

/-- A new element at the end. -/
def Pointers.append (p : Pointers α) (a : α) : Pointers α :=
  { fd := Function.update (Function.update p.fd (p.bk none) (some a)) (some a) none
    bk := Function.update (Function.update p.bk (some a) (p.bk none)) none (some a) }

theorem Pointers.append_eq (p : Pointers α) (a : α) : p.append a = (p.mirror.push a).mirror := rfl

theorem Ring.push {p : Pointers α} {l : List α} (h : Ring p l) {a : α} (ha : a ∉ l) :
    Ring (p.push a) (a :: l) := by
  refine ⟨h.linked.push ha, ?_⟩
  have hbk : (p.push a).bk none = if p.fd none = none then some a else p.bk none := by
    rw [Pointers.push]
    dsimp only
    rw [Function.update_of_ne (Option.some_ne_none a).symm, Function.update_apply]
    exact if_congr eq_comm rfl rfl
  rw [hbk, h.last]
  cases l with
  | nil => exact if_pos h.linked
  | cons b l =>
      rw [h.linked.1, if_neg (Option.some_ne_none b), List.getLast?_cons_cons]

/-- **Appending.** -/
theorem Ring.append {p : Pointers α} {l : List α} (h : Ring p l) {a : α} (ha : a ∉ l) :
    Ring (p.append a) (l ++ [a]) := by
  have hpush := (h.mirror.push (a := a) (by rw [List.mem_reverse]; exact ha)).mirror
  rw [List.reverse_cons, List.reverse_reverse] at hpush
  rw [Pointers.append_eq]
  exact hpush

/-- **Taking out**, with the end of the list. -/
theorem Ring.unlink {p : Pointers α} {pre post : List α} {a : α} (h : Ring p (pre ++ a :: post)) :
    Ring (p.unlink a) (pre ++ post) := by
  have hanchor : none ∉ (pre ++ a :: post).map some := by simp
  refine ⟨h.linked.unlink hanchor, ?_⟩
  have hback := h.mirror.linked
  rw [List.reverse_append, List.reverse_cons, List.append_assoc, List.singleton_append] at hback
  rw [p.unlink_bk, h.last]
  cases post with
  | nil =>
      have hend : p.fd (some a) = none := h.linked.suffix
      have hprev : p.bk (some a) = (pre.reverse)[0]? := by
        have hiter := hback.2.2.iterate 0
        exact hiter
      rw [if_pos hend, hprev, List.append_nil, ← List.head?_eq_getElem?, List.head?_reverse]
  | cons b post =>
      have hnext : p.fd (some a) = some b := h.linked.suffix.1
      rw [if_neg (by rw [hnext]; exact Option.some_ne_none b), List.getLast?_append,
        List.getLast?_append, List.getLast?_cons_cons]

end RingUpdates

end IntrusiveList
