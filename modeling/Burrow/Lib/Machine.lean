import Mathlib.Tactic.ByContra

/-!
# Runs of a deterministic machine

A machine is a function `step : ℓ → σ → Except ε σ`: on a label and a state it
answers the next state, or an error that ends the run. `run` folds it over a
list of labels. Nothing is assumed about the labels, so a theorem about every
list of labels is a theorem about every behaviour of the environment that
chooses them.

`Along C` says that a condition on a label and the state it is applied to holds
at each step of a run. The rules below turn a fact about one step into one about
a whole run: `run_invariant` for runs that end without an error, `run_ok_iff` for a
condition that says exactly when a run has none, `run_ne_error` for the absence of some,
and `along_congr` to exchange one condition for another that the invariant makes
equivalent. `attempted` are the labels that the machine comes to before an error ends the
run. `run_simulates` carries a run of one machine over to another.

`trace` collects what the steps of a run show to an observer, and `trace_invariant`
is the invariant rule for a state together with the trace that led to it. `AlongTrace D`
is for a condition on a step that looks back at what has been shown before it, and
`history_invariant` is its rule.

`Makes` and `Drives` are for a machine that works another one: which calls it makes of the
inner machine, whatever that answers.
-/

set_option autoImplicit false

namespace Machine

universe u v w

variable {σ : Type u} {ℓ : Type v} {ε : Type w} (step : ℓ → σ → Except ε σ)

/-- The state after the labels, or the first error. -/
def run : List ℓ → σ → Except ε σ
  | [], s => .ok s
  | l :: ls, s =>
      match step l s with
      | .ok s' => run ls s'
      | .error e => .error e

/-- `C` holds of every step of the run, each at the state it starts from. -/
def Along (C : ℓ → σ → Prop) : List ℓ → σ → Prop
  | [], _ => True
  | l :: ls, s => C l s ∧ ∀ s', step l s = .ok s' → Along C ls s'

@[simp] theorem run_nil (s : σ) : run step [] s = .ok s := rfl

theorem run_cons_of_ok {l : ℓ} {s s' : σ} (h : step l s = .ok s') (ls : List ℓ) :
    run step (l :: ls) s = run step ls s' := by
  simp only [run, h]

theorem run_cons_of_error {l : ℓ} {s : σ} {e : ε} (h : step l s = .error e) (ls : List ℓ) :
    run step (l :: ls) s = .error e := by
  simp only [run, h]

/-- A run that ends without an error took its first step without one. -/
theorem run_cons_ok {l : ℓ} {ls : List ℓ} {s t : σ} (h : run step (l :: ls) s = .ok t) :
    ∃ s', step l s = .ok s' ∧ run step ls s' = .ok t := by
  cases hs : step l s with
  | ok s' =>
      rw [run_cons_of_ok step hs] at h
      exact ⟨s', rfl, h⟩
  | error e =>
      rw [run_cons_of_error step hs] at h
      exact absurd h (by simp)

theorem run_append_of_ok {ls : List ℓ} {s t : σ} (h : run step ls s = .ok t) (ls' : List ℓ) :
    run step (ls ++ ls') s = run step ls' t := by
  induction ls generalizing s with
  | nil =>
      cases h
      rfl
  | cons l ls ih =>
      obtain ⟨s', hs, hrest⟩ := run_cons_ok step h
      rw [List.cons_append, run_cons_of_ok step hs]
      exact ih hrest

theorem run_append_of_error {ls : List ℓ} {s : σ} {e : ε} (h : run step ls s = .error e)
    (ls' : List ℓ) : run step (ls ++ ls') s = .error e := by
  induction ls generalizing s with
  | nil => exact absurd h (by simp)
  | cons l ls ih =>
      rw [List.cons_append]
      cases hs : step l s with
      | ok s' =>
          rw [run_cons_of_ok step hs] at h ⊢
          exact ih h
      | error e' =>
          rw [run_cons_of_error step hs] at h ⊢
          exact h

/-- A run that ends without an error took its first part without one. -/
theorem run_append_ok {ls ls' : List ℓ} {s t : σ} (h : run step (ls ++ ls') s = .ok t) :
    ∃ s', run step ls s = .ok s' ∧ run step ls' s' = .ok t := by
  cases hs : run step ls s with
  | ok s' =>
      rw [run_append_of_ok step hs] at h
      exact ⟨s', rfl, h⟩
  | error e =>
      rw [run_append_of_error step hs] at h
      exact absurd h (by simp)

/-- A run ends in an error at the first step that ends in it. -/
theorem run_error_iff {ls : List ℓ} {s : σ} {e : ε} :
    run step ls s = .error e ↔
      ∃ done l rest t, ls = done ++ l :: rest ∧ run step done s = .ok t ∧
        step l t = .error e := by
  constructor
  · intro h
    induction ls generalizing s with
    | nil => exact absurd h (by simp)
    | cons l ls ih =>
        cases hs : step l s with
        | error e' =>
            rw [run_cons_of_error step hs] at h
            exact ⟨[], l, ls, s, rfl, rfl, hs.trans h⟩
        | ok s' =>
            rw [run_cons_of_ok step hs] at h
            obtain ⟨done, l', rest, t, rfl, hrun, he⟩ := ih h
            refine ⟨l :: done, l', rest, t, rfl, ?_, he⟩
            rwa [run_cons_of_ok step hs]
  · rintro ⟨done, l, rest, t, rfl, hrun, he⟩
    rw [run_append_of_ok step hrun, run_cons_of_error step he]

/-- The labels up to the first that ends the run, which is one of them. -/
def attempted : List ℓ → σ → List ℓ
  | [], _ => []
  | l :: ls, s =>
      l :: match step l s with
        | .ok s' => attempted ls s'
        | .error _ => []

theorem attempted_cons_of_ok {l : ℓ} {s s' : σ} (h : step l s = .ok s') (ls : List ℓ) :
    attempted step (l :: ls) s = l :: attempted step ls s' := by
  simp only [attempted, h]

theorem attempted_cons_of_error {l : ℓ} {s : σ} {e : ε} (h : step l s = .error e)
    (ls : List ℓ) : attempted step (l :: ls) s = [l] := by
  simp only [attempted, h]

theorem attempted_prefix (ls : List ℓ) (s : σ) : attempted step ls s <+: ls := by
  induction ls generalizing s with
  | nil => exact List.nil_prefix
  | cons l ls ih =>
      cases hs : step l s with
      | ok s' =>
          rw [attempted_cons_of_ok step hs]
          exact (List.prefix_cons_inj l).2 (ih s')
      | error e =>
          rw [attempted_cons_of_error step hs]
          exact List.prefix_append [l] ls

/-- The labels behind have no part in the run. -/
theorem run_attempted (ls : List ℓ) (s : σ) : run step (attempted step ls s) s = run step ls s := by
  induction ls generalizing s with
  | nil => rfl
  | cons l ls ih =>
      cases hs : step l s with
      | ok s' =>
          rw [attempted_cons_of_ok step hs, run_cons_of_ok step hs, run_cons_of_ok step hs]
          exact ih s'
      | error e =>
          rw [attempted_cons_of_error step hs, run_cons_of_error step hs,
            run_cons_of_error step hs]

theorem attempted_append_of_ok {ls : List ℓ} {s t : σ} (h : run step ls s = .ok t)
    (ls' : List ℓ) : attempted step (ls ++ ls') s = ls ++ attempted step ls' t := by
  induction ls generalizing s with
  | nil =>
      cases h
      rfl
  | cons l ls ih =>
      obtain ⟨s', hs, hrest⟩ := run_cons_ok step h
      rw [List.cons_append, attempted_cons_of_ok step hs, ih hrest, List.cons_append]

theorem attempted_append_of_error {ls : List ℓ} {s : σ} {e : ε} (h : run step ls s = .error e)
    (ls' : List ℓ) : attempted step (ls ++ ls') s = attempted step ls s := by
  induction ls generalizing s with
  | nil => exact absurd h (by simp)
  | cons l ls ih =>
      rw [List.cons_append]
      cases hs : step l s with
      | ok s' =>
          rw [run_cons_of_ok step hs] at h
          rw [attempted_cons_of_ok step hs, attempted_cons_of_ok step hs, ih h]
      | error e' => rw [attempted_cons_of_error step hs, attempted_cons_of_error step hs]

/-- A run without an error attempts everything. -/
theorem attempted_of_ok {ls : List ℓ} {s t : σ} (h : run step ls s = .ok t) :
    attempted step ls s = ls := by
  have happend := attempted_append_of_ok step h []
  rw [List.append_nil] at happend
  rw [happend]
  exact List.append_nil ls

variable {C : ℓ → σ → Prop}

@[simp] theorem along_nil (s : σ) : Along step C [] s := trivial

theorem along_cons_of_ok {l : ℓ} {s s' : σ} (h : step l s = .ok s') (ls : List ℓ) :
    Along step C (l :: ls) s ↔ C l s ∧ Along step C ls s' := by
  rw [Along]
  apply and_congr_right
  intro _
  constructor
  · intro hall
    exact hall s' h
  · rintro hs s'' hs''
    rw [h, Except.ok.injEq] at hs''
    exact hs'' ▸ hs

theorem along_cons_of_error {l : ℓ} {s : σ} {e : ε} (h : step l s = .error e) (ls : List ℓ) :
    Along step C (l :: ls) s ↔ C l s := by
  rw [Along]
  apply and_iff_left
  intro s' hs
  rw [h] at hs
  exact absurd hs (by simp)

/-- On a given run a condition can be checked. -/
instance decidableAlong [∀ l s, Decidable (C l s)] :
    ∀ (ls : List ℓ) (s : σ), Decidable (Along step C ls s)
  | [], _ => .isTrue trivial
  | l :: ls, s =>
      match h : step l s with
      | .ok s' =>
          have := decidableAlong ls s'
          decidable_of_iff _ (along_cons_of_ok step h ls).symm
      | .error _ => decidable_of_iff _ (along_cons_of_error step h ls).symm

theorem along_of_forall {ls : List ℓ} (h : ∀ l ∈ ls, ∀ s, C l s) (s : σ) : Along step C ls s := by
  induction ls generalizing s with
  | nil => trivial
  | cons l ls ih =>
      exact ⟨h l List.mem_cons_self s,
        fun s' _ => ih (fun l' hl' => h l' (List.mem_cons_of_mem _ hl')) s'⟩

theorem along_and {D : ℓ → σ → Prop} {ls : List ℓ} {s : σ} (hC : Along step C ls s)
    (hD : Along step D ls s) : Along step (fun l s => C l s ∧ D l s) ls s := by
  induction ls generalizing s with
  | nil => trivial
  | cons l ls ih => exact ⟨⟨hC.1, hD.1⟩, fun s' hs => ih (hC.2 s' hs) (hD.2 s' hs)⟩

/-- A run along which the condition does not hold has a first step at which it does not. -/
theorem exists_first {ls : List ℓ} {s : σ} (h : ¬ Along step C ls s) :
    ∃ done l rest t, ls = done ++ l :: rest ∧ Along step C done s ∧ run step done s = .ok t ∧
      ¬ C l t := by
  induction ls generalizing s with
  | nil => exact absurd trivial h
  | cons l ls ih =>
      by_cases hl : C l s
      · obtain ⟨s', hs, hrest⟩ : ∃ s', step l s = .ok s' ∧ ¬ Along step C ls s' := by
          by_contra hno
          exact h ⟨hl, fun s' hs => not_not.1 fun hrest => hno ⟨s', hs, hrest⟩⟩
        obtain ⟨done, l', rest, t, rfl, hdone, hrun, hl'⟩ := ih hrest
        refine ⟨l :: done, l', rest, t, rfl, ?_, ?_, hl'⟩
        · rw [along_cons_of_ok step hs]
          exact ⟨hl, hdone⟩
        · rwa [run_cons_of_ok step hs]
      · exact ⟨[], l, ls, s, rfl, trivial, rfl, hl⟩

/-- **Invariant rule.** What every step kept by the condition preserves holds
at the end of every run along which the condition holds. -/
theorem run_invariant {I : σ → Prop}
    (hstep : ∀ l s s', C l s → I s → step l s = .ok s' → I s')
    {ls : List ℓ} {s t : σ} (hC : Along step C ls s) (hI : I s) (hrun : run step ls s = .ok t) :
    I t := by
  induction ls generalizing s with
  | nil =>
      simp only [run_nil, Except.ok.injEq] at hrun
      exact hrun ▸ hI
  | cons l ls ih =>
      obtain ⟨s', hs, hrest⟩ := run_cons_ok step hrun
      exact ih (hC.2 s' hs) (hstep l s s' hC.1 hI hs) hrest

/-- **Returning rule.** If from every state with the invariant a step succeeds exactly
where the condition holds, a run succeeds exactly if the condition holds along it. -/
theorem run_ok_iff {I : σ → Prop} {ls : List ℓ} {s : σ}
    (hstep : ∀ l ∈ ls, ∀ s s', I s → step l s = .ok s' → I s')
    (hiff : ∀ l ∈ ls, ∀ s, I s → ((∃ s', step l s = .ok s') ↔ C l s)) (hI : I s) :
    (∃ t, run step ls s = .ok t ∧ I t) ↔ Along step C ls s := by
  induction ls generalizing s with
  | nil => exact iff_of_true ⟨s, rfl, hI⟩ trivial
  | cons l ls ih =>
      have hrest := fun {s'} => @ih s' (fun l' hl' => hstep l' (List.mem_cons_of_mem _ hl'))
        fun l' hl' => hiff l' (List.mem_cons_of_mem _ hl')
      have hfirst := hiff l List.mem_cons_self s hI
      cases hs : step l s with
      | ok s' =>
          rw [run_cons_of_ok step hs, along_cons_of_ok step hs,
            hrest (hstep l List.mem_cons_self s s' hI hs)]
          exact (and_iff_right (hfirst.1 ⟨s', hs⟩)).symm
      | error e =>
          rw [run_cons_of_error step hs, along_cons_of_error step hs, ← hfirst, hs]
          simp

/-- **Failure rule.** If no allowed step from a state with the invariant fails with
an error of the kind `E`, no allowed run does. -/
theorem run_ne_error {I : σ → Prop} {E : ε → Prop}
    (hstep : ∀ l s s', C l s → I s → step l s = .ok s' → I s')
    (herror : ∀ l s e, C l s → I s → step l s = .error e → ¬ E e)
    {ls : List ℓ} {s : σ} (hC : Along step C ls s) (hI : I s) {e : ε}
    (hrun : run step ls s = .error e) : ¬ E e := by
  induction ls generalizing s with
  | nil => exact absurd hrun (by simp)
  | cons l ls ih =>
      cases hs : step l s with
      | ok s' =>
          rw [run_cons_of_ok step hs] at hrun
          exact ih (hC.2 s' hs) (hstep l s s' hC.1 hI hs) hrun
      | error e' =>
          rw [run_cons_of_error step hs, Except.error.injEq] at hrun
          exact hrun ▸ herror l s e' hC.1 hI hs

/-- **Error rule.** If a step fails with the error exactly where the condition does not hold,
a run avoids the error exactly if the condition holds along it. -/
theorem run_ne_error_iff {e : ε} (hiff : ∀ l s, step l s = .error e ↔ ¬ C l s) {ls : List ℓ}
    {s : σ} : run step ls s ≠ .error e ↔ Along step C ls s := by
  induction ls generalizing s with
  | nil => exact iff_of_true (by simp) trivial
  | cons l ls ih =>
      cases hs : step l s with
      | ok s' =>
          have hC : C l s := by
            by_contra hno
            exact absurd (hs.symm.trans ((hiff l s).2 hno)) (by simp)
          rw [run_cons_of_ok step hs, along_cons_of_ok step hs, ih]
          exact (and_iff_right hC).symm
      | error e' =>
          rw [run_cons_of_error step hs, along_cons_of_error step hs, ← hs, ne_eq, hiff, not_not]

/-- **Exchange rule.** Two conditions that agree on every allowed step from a state
with the invariant hold along the same allowed runs. -/
theorem along_congr {I : σ → Prop} {D D' : ℓ → σ → Prop}
    (hstep : ∀ l s s', C l s → I s → step l s = .ok s' → I s')
    (hiff : ∀ l s, C l s → I s → (D l s ↔ D' l s)) {ls : List ℓ} {s : σ}
    (hC : Along step C ls s) (hI : I s) : Along step D ls s ↔ Along step D' ls s := by
  induction ls generalizing s with
  | nil => exact Iff.rfl
  | cons l ls ih =>
      refine and_congr (hiff l s hC.1 hI) (forall_congr' fun s' => forall_congr' fun hs => ?_)
      exact ih (hC.2 s' hs) (hstep l s s' hC.1 hI hs)

/-- **Image rule.** If the states and the errors of one machine are images of those of another,
step by step, so are its runs. -/
theorem run_image {τ : Type*} {δ : Type*} {spec : ℓ → τ → Except δ τ} {f : τ → σ} {g : δ → ε}
    (hstep : ∀ l t, step l (f t) = ((spec l t).map f).mapError g) (ls : List ℓ) (t : τ) :
    run step ls (f t) = ((run spec ls t).map f).mapError g := by
  induction ls generalizing t with
  | nil => rfl
  | cons l ls ih =>
      have hl := hstep l t
      cases hspec : spec l t with
      | ok t' =>
          rw [hspec] at hl
          rw [run_cons_of_ok step hl, run_cons_of_ok spec hspec, ih]
      | error d =>
          rw [hspec] at hl
          rw [run_cons_of_error step hl, run_cons_of_error spec hspec]
          rfl

/-- **Simulation rule.** A relation that every step of the first machine carries over to
the second is carried over by every run. -/
theorem run_simulates {τ : Type*} {δ : Type*} {spec : ℓ → τ → Except δ τ} {R : τ → σ → Prop}
    (hstep : ∀ l t t' s, R t s → spec l t = .ok t' → ∃ s', step l s = .ok s' ∧ R t' s')
    {ls : List ℓ} {t t' : τ} {s : σ} (hR : R t s) (hrun : run spec ls t = .ok t') :
    ∃ s', run step ls s = .ok s' ∧ R t' s' := by
  induction ls generalizing t s with
  | nil =>
      cases hrun
      exact ⟨s, rfl, hR⟩
  | cons l ls ih =>
      obtain ⟨t₁, ht, hrest⟩ := run_cons_ok spec hrun
      obtain ⟨s₁, hs, hR₁⟩ := hstep l t t₁ s hR ht
      rw [run_cons_of_ok step hs]
      exact ih hR₁ hrest

/-! ## What a run shows -/

section Trace

variable {α : Type u} (emits : ℓ → σ → List α)

/-- What the steps of a run show, in order. -/
def trace : List ℓ → σ → List α
  | [], _ => []
  | l :: ls, s =>
      match step l s with
      | .ok s' => emits l s ++ trace ls s'
      | .error _ => []

theorem trace_cons_of_ok {l : ℓ} {s s' : σ} (h : step l s = .ok s') (ls : List ℓ) :
    trace step emits (l :: ls) s = emits l s ++ trace step emits ls s' := by
  simp only [trace, h]

theorem trace_cons_of_error {l : ℓ} {s : σ} {e : ε} (h : step l s = .error e) (ls : List ℓ) :
    trace step emits (l :: ls) s = [] := by
  simp only [trace, h]

/-- The labels lead from `s` to `t`, and show `shown` on the way. -/
structure Shows (ls : List ℓ) (s : σ) (shown : List α) (t : σ) : Prop where
  run : run step ls s = .ok t
  trace : trace step emits ls s = shown

theorem Shows.nil (s : σ) : Shows step emits [] s [] s := ⟨rfl, rfl⟩

theorem Shows.single {l : ℓ} {s t : σ} (h : step l s = .ok t) :
    Shows step emits [l] s (emits l s) t := by
  constructor
  · rw [run_cons_of_ok step h, run_nil]
  · rw [trace_cons_of_ok step emits h, Machine.trace, List.append_nil]

variable {step emits}

theorem Shows.append {ls ls' : List ℓ} {s t u : σ} {shown shown' : List α}
    (h : Shows step emits ls s shown t) (h' : Shows step emits ls' t shown' u) :
    Shows step emits (ls ++ ls') s (shown ++ shown') u := by
  -- by induction on the first run, whose end is where the second one starts
  induction ls generalizing s shown with
  | nil =>
      obtain ⟨hrun, rfl⟩ := h
      cases hrun
      exact h'
  | cons l ls ih =>
      obtain ⟨hrun, rfl⟩ := h
      obtain ⟨s', hs, hrest⟩ := run_cons_ok step hrun
      obtain ⟨hrun', htrace'⟩ := ih ⟨hrest, rfl⟩
      constructor
      · rw [List.cons_append, run_cons_of_ok step hs]
        exact hrun'
      · rw [List.cons_append, trace_cons_of_ok step emits hs, htrace',
          trace_cons_of_ok step emits hs, List.append_assoc]

/-- The first error ends the run, and nothing is shown from there on. -/
theorem Shows.stop {ls : List ℓ} {s t : σ} {shown : List α} (h : Shows step emits ls s shown t)
    {l : ℓ} {e : ε} (he : step l t = .error e) (rest : List ℓ) :
    Machine.run step (ls ++ l :: rest) s = .error e ∧
      Machine.trace step emits (ls ++ l :: rest) s = shown := by
  -- by induction on the run before the step that fails
  induction ls generalizing s shown with
  | nil =>
      obtain ⟨hrun, rfl⟩ := h
      cases hrun
      exact ⟨run_cons_of_error step he rest, trace_cons_of_error step emits he rest⟩
  | cons l' ls ih =>
      obtain ⟨hrun, rfl⟩ := h
      obtain ⟨s', hs, hrest⟩ := run_cons_ok step hrun
      obtain ⟨hrun', htrace'⟩ := ih ⟨hrest, rfl⟩
      constructor
      · rw [List.cons_append, run_cons_of_ok step hs]
        exact hrun'
      · rw [List.cons_append, trace_cons_of_ok step emits hs, htrace',
          trace_cons_of_ok step emits hs]

/-- **Repetition rule.** Parts that each lead from the invariant back to it show, one
after the other, what each of them shows. -/
theorem Shows.flatMap {β : Type u} {part : β → List ℓ} {shown : β → List α} {I : σ → Prop}
    (hpart : ∀ b s, I s → ∃ t, Shows step emits (part b) s (shown b) t ∧ I t) (bs : List β)
    {s : σ} (hI : I s) :
    ∃ t, Shows step emits (bs.flatMap part) s (bs.flatMap shown) t ∧ I t := by
  induction bs generalizing s with
  | nil => exact ⟨s, Shows.nil step emits s, hI⟩
  | cons b bs ih =>
      obtain ⟨s', hb, hI'⟩ := hpart b s hI
      obtain ⟨t, hbs, hIt⟩ := ih hI'
      exact ⟨t, hb.append hbs, hIt⟩

variable (step emits)

/-- `D` holds of every step of the run, each with what has been shown before it and at the
state it starts from. -/
def AlongTrace (D : List α → ℓ → σ → Prop) : List α → List ℓ → σ → Prop
  | _, [], _ => True
  | t, l :: ls, s => D t l s ∧ ∀ s', step l s = .ok s' → AlongTrace D (t ++ emits l s) ls s'

theorem alongTrace_cons_of_ok {D : List α → ℓ → σ → Prop} {l : ℓ} {s s' : σ}
    (h : step l s = .ok s') (t : List α) (ls : List ℓ) :
    AlongTrace step emits D t (l :: ls) s ↔
      D t l s ∧ AlongTrace step emits D (t ++ emits l s) ls s' := by
  rw [AlongTrace]
  apply and_congr_right
  intro _
  constructor
  · intro hall
    exact hall s' h
  · rintro hs s'' hs''
    rw [h, Except.ok.injEq] at hs''
    exact hs'' ▸ hs

theorem alongTrace_cons_of_error {D : List α → ℓ → σ → Prop} {l : ℓ} {s : σ} {e : ε}
    (h : step l s = .error e) (t : List α) (ls : List ℓ) :
    AlongTrace step emits D t (l :: ls) s ↔ D t l s := by
  rw [AlongTrace]
  apply and_iff_left
  intro s' hs
  rw [h] at hs
  exact absurd hs (by simp)

/-- On a given run a condition can be checked. -/
instance decidableAlongTrace {D : List α → ℓ → σ → Prop} [∀ t l s, Decidable (D t l s)] :
    ∀ (t : List α) (ls : List ℓ) (s : σ), Decidable (AlongTrace step emits D t ls s)
  | _, [], _ => .isTrue trivial
  | t, l :: ls, s =>
      match h : step l s with
      | .ok s' =>
          have : Decidable (AlongTrace step emits D (t ++ emits l s) ls s') :=
            decidableAlongTrace (t ++ emits l s) ls s'
          decidable_of_iff _ (alongTrace_cons_of_ok step emits h t ls).symm
      | .error _ => decidable_of_iff _ (alongTrace_cons_of_error step emits h t ls).symm

theorem alongTrace_of_along {ls : List ℓ} {s : σ} (h : Along step C ls s) (t : List α) :
    AlongTrace step emits (fun _ l s => C l s) t ls s := by
  induction ls generalizing s t with
  | nil => trivial
  | cons l ls ih => exact ⟨h.1, fun s' hs => ih (h.2 s' hs) (t ++ emits l s)⟩

/-- **History rule.** What every step preserves of which the condition holds, of the trace so
far and the state it led to, holds of the trace of every run along which it holds and the
state at its end. -/
theorem history_invariant {D : List α → ℓ → σ → Prop} {I : List α → σ → Prop}
    (hstep : ∀ t l s s', D t l s → I t s → step l s = .ok s' → I (t ++ emits l s) s')
    {ls : List ℓ} {t : List α} {s s' : σ} (hD : AlongTrace step emits D t ls s) (hI : I t s)
    (hrun : run step ls s = .ok s') : I (t ++ trace step emits ls s) s' := by
  induction ls generalizing s t with
  | nil =>
      simp only [run_nil, Except.ok.injEq] at hrun
      subst hrun
      rw [trace, List.append_nil]
      exact hI
  | cons l ls ih =>
      obtain ⟨s₁, hs, hrest⟩ := run_cons_ok step hrun
      rw [trace_cons_of_ok step emits hs, ← List.append_assoc]
      exact ih (hD.2 s₁ hs) (hstep t l s s₁ hD.1 hI hs) hrest

/-- **Trace rule.** What every allowed step preserves, of the trace so far and the
state it led to, holds of the trace of every allowed run and the state at its end. -/
theorem trace_invariant {I : List α → σ → Prop}
    (hstep : ∀ t l s s', C l s → I t s → step l s = .ok s' → I (t ++ emits l s) s')
    {ls : List ℓ} {t : List α} {s s' : σ} (hC : Along step C ls s) (hI : I t s)
    (hrun : run step ls s = .ok s') : I (t ++ trace step emits ls s) s' :=
  history_invariant step emits hstep (alongTrace_of_along step emits hC t) hI hrun

end Trace

/-! ## A machine that works another one -/

section Makes

variable {τ : Type u} {κ : Type v} {δ : Type w} (call : κ → τ → Except δ τ) (view : σ → τ)
  (stop : δ → ε)

/-- The computation makes the calls of the inner machine, which is in `t`, and ends in a state
with `P`; or it is stopped by the call that fails. -/
def Makes (x : Except ε σ) (calls : List κ) (P : σ → Prop) (t : τ) : Prop :=
  match run call calls t with
  | .ok t' => ∃ s', x = .ok s' ∧ view s' = t' ∧ P s'
  | .error e => x = .error (stop e)

variable {call view stop} {P Q : σ → Prop} {x : Except ε σ} {f : σ → Except ε σ}
  {calls calls' : List κ} {s : σ} {t : τ}

/-- No call is made. -/
theorem Makes.ok (hview : view s = t) (h : P s) : Makes call view stop (.ok s) [] P t :=
  ⟨s, rfl, hview, h⟩

theorem Makes.mono (h : Makes call view stop x calls P t) (hP : ∀ s', P s' → Q s') :
    Makes call view stop x calls Q t := by
  rw [Makes] at h ⊢
  cases hcalls : run call calls t with
  | ok t' =>
      rw [hcalls] at h
      obtain ⟨s', hrun, hview, hp⟩ := h
      exact ⟨s', hrun, hview, hP s' hp⟩
  | error e =>
      rw [hcalls] at h
      exact h

/-- **Composition.** -/
theorem Makes.bind (h : Makes call view stop x calls P t)
    (hf : ∀ s', P s' → Makes call view stop (f s') calls' Q (view s')) :
    Makes call view stop (x >>= f) (calls ++ calls') Q t := by
  rw [Makes] at h ⊢
  cases hcalls : run call calls t with
  | error e =>
      rw [hcalls] at h
      rw [run_append_of_error call hcalls, h]
      rfl
  | ok t' =>
      rw [hcalls] at h
      obtain ⟨s', rfl, rfl, hp⟩ := h
      rw [run_append_of_ok call hcalls]
      exact hf s' hp

/-- What comes first makes no call. -/
theorem Makes.ok_bind {s' : σ} (hx : x = .ok s') (hview : view s' = t)
    (hf : Makes call view stop (f s') calls Q (view s')) :
    Makes call view stop (x >>= f) calls Q t := by
  rw [hx]
  rw [hview] at hf
  exact hf

variable (call view stop) in
/-- On the labels the machine makes the calls. -/
def Drives (ls : List ℓ) (calls : List κ) (P : σ → Prop) (s : σ) : Prop :=
  Makes call view stop (run step ls s) calls P (view s)

variable {step} {ls ls' : List ℓ}

theorem Drives.nil (h : P s) : Drives step call view stop [] [] P s := Makes.ok rfl h

theorem Drives.single {l : ℓ} (h : Makes call view stop (step l s) calls P (view s)) :
    Drives step call view stop [l] calls P s := by
  have hrun : run step [l] s = step l s := by
    cases hs : step l s with
    | ok s' => exact run_cons_of_ok step hs []
    | error e => exact run_cons_of_error step hs []
  rw [Drives, hrun]
  exact h

theorem Drives.mono (h : Drives step call view stop ls calls P s) (hP : ∀ s', P s' → Q s') :
    Drives step call view stop ls calls Q s := Makes.mono h hP

theorem Drives.append (h : Drives step call view stop ls calls P s)
    (h' : ∀ s', P s' → Drives step call view stop ls' calls' Q s') :
    Drives step call view stop (ls ++ ls') (calls ++ calls') Q s := by
  have hrun : run step (ls ++ ls') s = run step ls s >>= run step ls' := by
    cases hs : run step ls s with
    | ok s' => exact run_append_of_ok step hs ls'
    | error e => exact run_append_of_error step hs ls'
  rw [Drives, hrun]
  exact Makes.bind h h'

end Makes

end Machine
