import Mathlib.Data.Multiset.UnionInter

/-!
# Ownership of blocks

A memory has blocks at addresses: some are live, and some addresses have never been handed
out. A multiset of live addresses, each in it once, is owned (`Owns`); where it holds every
live address nothing is lost (`Owned`). A computation that owns `fp` and comes to own `fp'`
has left everything else as it was (`Changes`), and such changes can be made one after the
other (`Changes.trans`) and beside what is owned besides (`Changes.frame`).

What lies in a memory is `Located` where a footprint is known, on which it depends and which
is live with it.
-/

set_option autoImplicit false

namespace Ownership

universe u v w

/-- Memories of blocks. -/
class Blocks (M : Type u) (A : outParam (Type v)) where
  /-- Both memories have the same at the address. -/
  Same : M → M → A → Prop
  /-- There is a block at the address. -/
  Live : M → A → Prop
  /-- The address has never been handed out. -/
  Fresh : M → A → Prop
  same_refl : ∀ m a, Same m m a
  same_trans : ∀ {m m' m'' a}, Same m m' a → Same m' m'' a → Same m m'' a
  live_congr : ∀ {m m' a}, Same m m' a → (Live m' a ↔ Live m a)
  /-- Where there is no block there is nothing. -/
  same_of_dead : ∀ {m m' a}, ¬ Live m a → ¬ Live m' a → Same m m' a

export Blocks (Same Live Fresh)

variable {M : Type u} {A : Type v} [Blocks M A]

/-- The addresses are those of blocks, each of them once. -/
structure Owns (m : M) (fp : Multiset A) : Prop where
  nodup : fp.Nodup
  live : ∀ a ∈ fp, Live m a
  used : ∀ a ∈ fp, ¬ Fresh m a
  /-- an address that was not handed out leads to nothing -/
  sound : ∀ a, Fresh m a → ¬ Live m a

/-- Every block there is. -/
structure Owned (m : M) (fp : Multiset A) : Prop extends Owns m fp where
  all : ∀ a, Live m a → a ∈ fp

/-- What was owned is no more than what was freed, kept and allocated, and everything else
is as it was. -/
structure Changes (m m' : M) (fp fp' : Multiset A) : Prop where
  before : Owns m fp
  after : Owns m' fp'
  same : ∀ a, a ∉ fp → a ∉ fp' → Same m m' a
  allocated : ∀ a ∈ fp', a ∈ fp ∨ Fresh m a
  freed : ∀ a ∈ fp, a ∉ fp' → ¬ Live m' a
  fresh : ∀ a, Fresh m' a → Fresh m a

/-! ## Owning -/

section Owns

variable {m : M} {fp r : Multiset A}

theorem Owns.part (h : Owns m (fp + r)) : Owns m fp where
  nodup := (Multiset.nodup_add.1 h.nodup).1
  live a ha := h.live a (Multiset.mem_add.2 (.inl ha))
  used a ha := h.used a (Multiset.mem_add.2 (.inl ha))
  sound := h.sound

theorem Owns.rest (h : Owns m (fp + r)) : Owns m r :=
  Owns.part (Multiset.add_comm fp r ▸ h)

theorem Owns.not_mem (h : Owns m (fp + r)) {a : A} (ha : a ∈ r) : a ∉ fp := fun hfp =>
  Multiset.disjoint_left.1 (Multiset.nodup_add.1 h.nodup).2.2 hfp ha

theorem Owns.zero (h : Owns m fp) : Owns m (0 : Multiset A) where
  nodup := Multiset.nodup_zero
  live a ha := absurd ha (Multiset.notMem_zero a)
  used a ha := absurd ha (Multiset.notMem_zero a)
  sound := h.sound

end Owns

/-! ## Changing -/

section Changes

variable {m m' m'' : M} {fp fp' fp'' r : Multiset A}

theorem Changes.refl (h : Owns m fp) : Changes m m fp fp where
  before := h
  after := h
  same a _ _ := Blocks.same_refl m a
  allocated _ ha := .inl ha
  freed _ ha hno := absurd ha hno
  fresh _ ha := ha

theorem Changes.trans (h : Changes m m' fp fp') (h' : Changes m' m'' fp' fp'') :
    Changes m m'' fp fp'' := by
  refine ⟨h.before, h'.after, ?_, ?_, ?_, fun a ha => h.fresh a (h'.fresh a ha)⟩
  · intro a ha ha''
    by_cases ha' : a ∈ fp'
    · -- handed out and freed in between
      have hfresh := (h.allocated a ha').resolve_left ha
      exact Blocks.same_of_dead (h.before.sound a hfresh) (h'.freed a ha' ha'')
    · exact Blocks.same_trans (h.same a ha ha') (h'.same a ha' ha'')
  · intro a ha''
    rcases h'.allocated a ha'' with ha' | hfresh
    · exact h.allocated a ha'
    · exact .inr (h.fresh a hfresh)
  · intro a ha ha''
    by_cases ha' : a ∈ fp'
    · exact h'.freed a ha' ha''
    · exact mt (Blocks.live_congr (h'.same a ha' ha'')).1 (h.freed a ha ha')

/-- What is owned besides stays out of it. -/
theorem Changes.not_mem (h : Changes m m' fp fp') (hr : Owns m (fp + r)) {a : A} (ha : a ∈ r) :
    a ∉ fp' := by
  intro ha'
  rcases h.allocated a ha' with hfp | hfresh
  · exact hr.not_mem ha hfp
  · exact hr.used a (Multiset.mem_add.2 (.inr ha)) hfresh

/-- What is owned besides is as it was. -/
theorem Changes.same_rest (h : Changes m m' fp fp') (hr : Owns m (fp + r)) {a : A} (ha : a ∈ r) :
    Same m m' a :=
  h.same a (hr.not_mem ha) (h.not_mem hr ha)

/-- **The frame.** -/
theorem Changes.frame (h : Changes m m' fp fp') (hr : Owns m (fp + r)) :
    Changes m m' (fp + r) (fp' + r) where
  before := hr
  after :=
    { nodup := by
        refine Multiset.nodup_add.2 ⟨h.after.nodup, hr.rest.nodup, ?_⟩
        exact Multiset.disjoint_left.2 fun ha' ha => h.not_mem hr ha ha'
      live := by
        intro a ha
        rcases Multiset.mem_add.1 ha with ha' | ha
        · exact h.after.live a ha'
        · exact (Blocks.live_congr (h.same_rest hr ha)).2 (hr.rest.live a ha)
      used := by
        intro a ha
        rcases Multiset.mem_add.1 ha with ha' | ha
        · exact h.after.used a ha'
        · exact mt (h.fresh a) (hr.rest.used a ha)
      sound := h.after.sound }
  same a ha ha' :=
    h.same a (fun hfp => ha (Multiset.mem_add.2 (.inl hfp)))
      fun hfp' => ha' (Multiset.mem_add.2 (.inl hfp'))
  allocated := by
    intro a ha
    rcases Multiset.mem_add.1 ha with ha' | ha
    · exact (h.allocated a ha').imp_left fun hfp => Multiset.mem_add.2 (.inl hfp)
    · exact .inl (Multiset.mem_add.2 (.inr ha))
  freed := by
    intro a ha hno
    rcases Multiset.mem_add.1 ha with hfp | hr
    · exact h.freed a hfp fun ha' => hno (Multiset.mem_add.2 (.inl ha'))
    · exact absurd (Multiset.mem_add.2 (.inr hr)) hno
  fresh := h.fresh

/-- Nothing is lost where nothing was lost. -/
theorem Changes.owned (h : Changes m m' fp fp') (hm : Owned m fp) : Owned m' fp' := by
  refine ⟨h.after, fun a ha => ?_⟩
  by_contra hno
  by_cases hfp : a ∈ fp
  · exact h.freed a hfp hno ha
  · exact hfp (hm.all a ((Blocks.live_congr (h.same a hfp hno)).1 ha))

end Changes

/-! ## Footprints -/

/-- What lies in a memory, with the addresses of its blocks. -/
class Located (M : Type u) {A : outParam (Type v)} [Blocks M A] (α : Type w) where
  footprint : α → Multiset A
  Holds : M → α → Prop
  /-- Only what is at these addresses matters. -/
  congr : ∀ {m m' : M} {x : α}, (∀ a ∈ footprint x, Same m m' a) → Holds m x → Holds m' x

export Located (Holds)

section Located

variable {α : Type w} [Located M α] {m m' : M} {fp fp' : Multiset A} {x : α}

/-- What is owned besides is there still. -/
theorem Changes.holds (h : Changes m m' fp fp')
    (hr : Owns m (fp + Located.footprint M x)) (hx : Holds m x) : Holds m' x :=
  Located.congr (fun _ ha => h.same_rest hr ha) hx

end Located

end Ownership
