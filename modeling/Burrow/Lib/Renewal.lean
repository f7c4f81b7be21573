import Mathlib.Data.List.Basic

/-!
# Renewed parts of a partial map

Of a map from addresses to what lies there a part is owned, and a computation renews this part:
some of it is taken away and something new is put where nothing was (`Renews`). What others own
stays as it was (`Renews.other`), and renewals can be made one after the other (`Renews.trans`).
-/

set_option autoImplicit false

namespace Renewal

universe u v

variable {A : Type u} {B : Type v}

/-- What lay at the addresses of `used` has become what lies at those of `used'`, and the rest
is as it was. -/
structure Renews (f f' : A → Option B) (used used' : List A) : Prop where
  kept : ∀ a b, f a = some b → a ∉ used → f' a = some b
  /-- what is new lies where there was nothing -/
  fresh : ∀ a ∈ used', a ∈ used ∨ f a = none
  /-- nothing is left of what is gone, and nothing new lies elsewhere -/
  freed : ∀ a, a ∉ used' → a ∈ used ∨ f a = none → f' a = none

namespace Renews

variable {f f₁ f₂ : A → Option B} {used used₁ used₂ : List A}

theorem refl (f : A → Option B) (used : List A) : Renews f f used used :=
  ⟨fun _ _ hblock _ => hblock, fun _ ha => .inl ha, fun _ hno ha => ha.resolve_left hno⟩

/-- Outside the part, that of before and that of now, everything is as it was. -/
theorem of_outside (houtside : ∀ a, a ∉ used → a ∉ used₁ → f₁ a = f a)
    (hfresh : ∀ a ∈ used₁, a ∈ used ∨ f a = none)
    (hgone : ∀ a ∈ used, a ∉ used₁ → f₁ a = none) : Renews f f₁ used used₁ := by
  refine ⟨?_, hfresh, ?_⟩
  · intro a b hblock ha
    have ha₁ : a ∉ used₁ := by
      intro hmem
      rw [(hfresh a hmem).resolve_left ha] at hblock
      cases hblock
    rw [houtside a ha ha₁]
    exact hblock
  · intro a ha₁ hold
    by_cases ha : a ∈ used
    · exact hgone a ha ha₁
    · rw [houtside a ha ha₁]
      exact hold.resolve_left ha

/-- One address more. -/
theorem of_new {a : A} (ha : f a = none) (hothers : ∀ b, b ≠ a → b ∉ used → f₁ b = f b) :
    Renews f f₁ used (used ++ [a]) := by
  refine of_outside ?_ ?_ ?_
  · intro b hb hb₁
    rw [List.mem_append, not_or] at hb₁
    exact hothers b (fun heq => hb₁.2 (List.mem_singleton.2 heq)) hb
  · intro b hb
    rcases List.mem_append.1 hb with hb | hb
    · exact .inl hb
    · rw [List.mem_singleton.1 hb]
      exact .inr ha
  · exact fun b hb hb₁ => absurd (List.mem_append_left _ hb) hb₁

/-- One address less. -/
theorem of_freed {pre post : List A} {a : A} (ha : f₁ a = none)
    (hothers : ∀ b, b ∉ pre ++ a :: post → f₁ b = f b) :
    Renews f f₁ (pre ++ a :: post) (pre ++ post) := by
  refine of_outside (fun b hb _ => hothers b hb) ?_ ?_
  · exact fun b hb => .inl ((List.sublist_cons_self a post).append_left pre |>.subset hb)
  · intro b hb hb₁
    have hba : b = a := by
      rw [List.mem_append, not_or] at hb₁
      rw [List.mem_append, List.mem_cons] at hb
      exact (hb.resolve_left hb₁.1).resolve_right hb₁.2
    rw [hba]
    exact ha

theorem trans (h : Renews f f₁ used used₁) (h' : Renews f₁ f₂ used₁ used₂) :
    Renews f f₂ used used₂ := by
  refine ⟨?_, ?_, ?_⟩
  · intro a b hblock ha
    refine h'.kept a b (h.kept a b hblock ha) fun ha₁ => ?_
    rcases h.fresh a ha₁ with hold | hnone
    · exact ha hold
    · exact absurd (hblock.symm.trans hnone) (by simp)
  · intro a ha
    rcases h'.fresh a ha with ha₁ | hnone
    · exact h.fresh a ha₁
    · -- what others own would still be there
      by_cases hold : a ∈ used
      · exact .inl hold
      · cases hblock : f a with
        | none => exact .inr rfl
        | some b => exact absurd ((h.kept a b hblock hold).symm.trans hnone) (by simp)
  · intro a ha hold
    by_cases ha₁ : a ∈ used₁
    · exact h'.freed a ha (.inl ha₁)
    · exact h'.freed a ha (.inr (h.freed a ha₁ hold))

/-- What others own is as it was. -/
theorem other (h : Renews f f₁ used used₁) {a : A} {b : B} (hblock : f a = some b)
    (ha : a ∉ used) : f₁ a = f a := by
  rw [hblock]
  exact h.kept a b hblock ha

/-- What is neither taken away nor new is as it was. -/
theorem same (h : Renews f f₁ used used₁) {a : A} (ha : a ∉ used) (ha₁ : a ∉ used₁) :
    f₁ a = f a := by
  cases hblock : f a with
  | some b => exact h.kept a b hblock ha
  | none => exact h.freed a ha₁ (.inr hblock)

end Renews

end Renewal
