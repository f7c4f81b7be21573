import Burrow.Frontend.Rounds

/-!
# A backend that never waits

The memory backend has neither a process function nor an `event_raised` function, and
its command functions never answer `EAGAIN`. With such a backend at most two calls
are under way below the user's code (`PromptStack`), however often the callbacks
call back into the front end, and every round is a call, one execution and one
completion: `executed_exactly_once`.
-/

set_option autoImplicit false

namespace Burrow.Frontend

/-! ## The calls under way -/

/-- The calls that can be under way. -/
inductive PromptStack : List Frame → Prop
  | nothing : PromptStack []
  | command : PromptStack [.commandFn]
  | callback : PromptStack [.callback, .commandFn]
  | complete (result : Int) : PromptStack [.completeFn result]

/-- The control points of a run that neither waits nor cancels. -/
def Control.prompt : Control → Bool
  | .environment | .returning _ | .process | .loop _ | .eventRaised _ _ => true
  | .cancel | .pollFds | .poll | .pollLoop _ _ => false

def Label.isCancel : Label → Bool
  | .cancel => true
  | _ => false

/-- What holds of every run with such a backend. -/
structure Prompt (c : Config) : Prop where
  process : c.burrow.backend.process = false
  eventRaised : c.burrow.backend.eventRaised = false
  stack : PromptStack c.stack
  control : c.control.prompt = true
  state : c.burrow.state ≠ .waiting ∧ c.burrow.state ≠ .ready
  commandFn : c.burrow.state = .start → c.burrow.cmd.commandFn ≠ none

/-- Where the structure is marked, a call of `burrow_process` is there to clear the mark. -/
def Marked (c : Config) : Prop :=
  c.burrow.flags.processing = true → c.control.inLoop = true ∨ drivers c.stack ≠ []

section Steps

variable {label : Label} {c c' : Config}

/-- In the loop nothing is under way. -/
theorem Prompt.stack_eq_nil (h : Prompt c) (hnil : drivers c.stack = []) : c.stack = [] := by
  have hstack := h.stack
  generalize c.stack = stack at hstack hnil
  cases hstack with
  | nothing => rfl
  | command => exact absurd hnil (by decide)
  | callback => exact absurd hnil (by decide)
  | complete result => exact absurd hnil (by simp [drivers, Frame.drives])

/-- What a step of the library keeps. -/
theorem Prompt.tau (h : Prompt c) (hnested : Nested c) (htau : Tau c c') : Prompt c' := by
  have hprompt := h.control
  have hstack := h.stack
  have hloop : c.control.inLoop = true → c.stack = [] := fun hin =>
    h.stack_eq_nil (hnested.loop hin).1
  cases htau with
  | pollFailed _ | polled | aborted | cancelled | dispatched => cases hstack
  | cancels _ _ | clears _ _ | spares _ => exact absurd hprompt (by simp [Control.prompt])
  | pollsNone _ | pollsSome _ => exact absurd hprompt (by simp [Control.prompt])
  | dispatches _ _ _ | skips _ _ | ends _ => exact absurd hprompt (by simp [Control.prompt])
  | resumes state _ => exact absurd state h.state.2
  | blocks state _ | polls state _ => exact absurd state h.state.1
  | raises eventRaised => exact absurd (h.eventRaised.symm.trans eventRaised) (by simp)
  | returned _ | busy _ | enters _ | leaves _ | unconnected _ =>
      exact ⟨h.process, h.eventRaised, hstack, rfl, h.state, h.commandFn⟩
  | starts _ _ =>
      obtain rfl := hloop rfl
      exact ⟨h.process, h.eventRaised, .command, rfl, h.state, h.commandFn⟩
  | completes _ _ =>
      obtain rfl := hloop rfl
      exact ⟨h.process, h.eventRaised, .complete _, rfl, ⟨by simp, by simp⟩, by simp⟩
  | passes _ _ => exact ⟨h.process, h.eventRaised, hstack, rfl, ⟨by simp, by simp⟩, by simp⟩

/-- What a return of the user's or the backend's code keeps. -/
theorem Prompt.returned (h : Prompt c) {code : Int} (hanswer : ¬ AnswersEagain (.returns code) c)
    (hreturned : Returned code c c') : Prompt c' := by
  have hstack := h.stack
  cases hreturned with
  | commandWaits _ | commandAborts _ => exact absurd ⟨rfl, rfl, Or.inl rfl⟩ hanswer
  | processWaits | processFinishes _ => cases hstack
  | readyProcesses _ | ready _ | eventFails _ | eventWaits | cancelFn => cases hstack
  | callback =>
      cases hstack with
      | callback => exact ⟨h.process, h.eventRaised, .command, rfl, h.state, h.commandFn⟩
  | commandFinishes _ =>
      cases hstack with
      | command => exact ⟨h.process, h.eventRaised, .nothing, rfl, ⟨by simp, by simp⟩, by simp⟩
  | completeFn =>
      cases hstack with
      | complete result => exact ⟨h.process, h.eventRaised, .nothing, rfl, h.state, h.commandFn⟩

/-- Only a command function is code of the backend. -/
theorem Prompt.stack_eq_command (h : Prompt c) (hbackend : backendCode c.stack = true) :
    c.stack = [.commandFn] := by
  have hstack := h.stack
  generalize c.stack = stack at hstack hbackend
  cases hstack with
  | nothing => exact absurd hbackend (by decide)
  | command => rfl
  | callback => exact absurd hbackend (by decide)
  | complete result => exact absurd hbackend (by simp [backendCode])

/-- Such a run neither waits nor cancels. -/
theorem Prompt.step (h : Prompt c) (hnested : Nested c) (hcancel : label.isCancel = false)
    (hanswer : ¬ AnswersEagain label c) (hstep : frontStep label c = .ok c') : Prompt c' := by
  cases step_of_frontStep hstep with
  | tau tau => exact h.tau hnested tau
  | returns returned => exact h.returned hanswer returned
  | cancel _ => exact absurd hcancel (by simp [Label.isCancel])
  | refuses _ _ _ | process _ | eventRaised _ | setOptions _ | setCompleteFn _ | setWatchFdFn _ =>
      exact ⟨h.process, h.eventRaised, h.stack, rfl, h.state, h.commandFn⟩
  | accepts _ taken _ | processes _ taken _ =>
      refine ⟨h.process, h.eventRaised, h.stack, rfl, ⟨by simp, by simp⟩, fun _ => ?_⟩
      dsimp only
      rw [taken.carried.1]
      simp
  | callsBack backend | callsWatchFd backend _ =>
      obtain rfl := h.stack_eq_command backend
      exact ⟨h.process, h.eventRaised, .callback, rfl, h.state, h.commandFn⟩
  | @watchFd burrow stack fd watched realloc _ _ =>
      obtain ⟨hstate, hcmd, -, hbackend⟩ := watchFdKeeps burrow fd watched realloc
      constructor
      · exact (congrArg BackendFunctions.process hbackend).trans h.process
      · exact (congrArg BackendFunctions.eventRaised hbackend).trans h.eventRaised
      · exact h.stack
      · exact h.control
      · dsimp only
        rw [hstate]
        exact h.state
      · dsimp only
        rw [hstate, hcmd]
        exact h.commandFn
  -- nothing is watched, so `poll` is never called
  | pollError | pollTimeout | pollRaised => exact absurd h.control (by simp [Control.prompt])

/-- A loop that is marked is there. -/
theorem Prompt.marked_step (h : Prompt c) (hnested : Nested c)
    (hanswer : ¬ AnswersEagain label c) (hmarked : Marked c)
    (hstep : frontStep label c = .ok c') : Marked c' := by
  have hquiet : c.control.inLoop = false → drivers c'.stack = drivers c.stack →
      c'.burrow.flags.processing = c.burrow.flags.processing → Marked c' := by
    intro hcontrol hdrivers hprocessing hmark
    rcases hmarked (hprocessing.symm.trans hmark) with hloop | hne
    · exact absurd hloop (by simp [hcontrol])
    · exact Or.inr (hdrivers ▸ hne)
  have hcalls : ∀ frame rest, frame.drives = true → c'.stack = frame :: rest → Marked c' := by
    intro frame rest hdrives hstack _
    apply Or.inr
    rw [hstack, drivers_cons_of_drives hdrives]
    simp
  have hdrive := drive_of_step hstep
  generalize events label c = shown at hdrive
  cases hdrive with
  | quiet control control' drivers_eq same => exact hquiet control drivers_eq same.processing_eq
  | accepts _ control _ stack_eq _ _ _ _ processing_eq =>
      exact hquiet control (by rw [stack_eq]) processing_eq
  | cancels control _ drivers_eq _ _ processing_eq _ =>
    exact hquiet control drivers_eq processing_eq
  | raises _ control _ stack_eq _ _ processing_eq =>
      refine hquiet (by rw [control]; rfl) ?_ processing_eq
      rw [stack_eq, drivers_cons_of_not rfl]
  | starts _ _ stack_eq _ _ _ => exact hcalls _ _ rfl stack_eq
  | resumes _ _ stack_eq _ _ _ => exact hcalls _ _ rfl stack_eq
  | completes _ _ stack_eq _ _ _ _ => exact hcalls _ _ rfl stack_eq
  | polls _ _ stack_eq _ _ => exact hcalls _ _ rfl stack_eq
  | answers _ control' _ _ _ _ _ _ => exact fun _ => Or.inl (by rw [control']; rfl)
  | passes _ control' _ _ _ _ _ => exact fun _ => Or.inl control'
  | reenters _ control' _ _ _ _ => exact fun _ => Or.inl control'
  | enters _ control' _ _ _ _ _ => exact fun _ => Or.inl control'
  | leaves control _ _ _ processing' _ _ =>
      intro hmark
      have hset := (hnested.loop (by rw [control]; rfl)).2
      exact absurd hmark (by simp [processing', hset])
  -- EAGAIN from the command function would need a process function, which there is none
  -- of
  | aborts control _ stack_eq _ _ _ label_eq =>
      exact absurd ⟨control, label_eq, Or.inl (by rw [stack_eq]; rfl)⟩ hanswer
  | blocks _ _ _ state _ => exact absurd state h.state.1
  | fails _ _ _ stack_eq _ =>
      have hstack := h.stack
      rw [stack_eq] at hstack
      cases hstack

end Steps

/-! ## Runs -/

theorem Prompt.aborting_eq {c : Config} (h : Prompt c) : aborting c.stack = 0 := by
  have hstack := h.stack
  generalize c.stack = stack at hstack
  cases hstack with
  | nothing => rfl
  | command => rfl
  | callback => rfl
  | complete result => rfl

theorem Prompt.not_stale {c : Config} (h : Prompt c) (label : Label) : ¬ Stale label c := by
  rintro ⟨-, -, hraised, -⟩
  have hstack := h.stack
  generalize c.stack = stack at hstack hraised
  cases hstack with
  | nothing => exact absurd hraised (by decide)
  | command => exact absurd hraised (by decide)
  | callback => exact absurd hraised (by decide)
  | complete result => exact absurd hraised (by simp [Frame.isEventRaised])

theorem Prompt.not_resumes {label : Label} {c c' : Config} (h : Prompt c)
    (hstep : frontStep label c = .ok c') : .resumes ∉ events label c := by
  intro hmem
  have hdrive := drive_of_step hstep
  cases hshown : events label c with
  | nil => exact absurd hmem (by simp [hshown])
  | cons event rest =>
      rw [hshown] at hdrive hmem
      cases hdrive with
      | resumes _ _ _ state _ _ => exact absurd state h.state.2
      | _ => exact absurd hmem (by simp)

/-- What holds at the end of a run, of its trace too. -/
structure PromptRun (trace : List Event) (c : Config) : Prop where
  prompt : Prompt c
  nested : Nested c
  marked : Marked c
  not_resumes : .resumes ∉ trace
  followed : ∃ rounds phase, Followed trace c rounds phase

theorem PromptRun.step {trace : List Event} {label : Label} {c c' : Config}
    (h : PromptRun trace c) (hcancel : label.isCancel = false) (hanswer : ¬ AnswersEagain label c)
    (hstep : frontStep label c = .ok c') : PromptRun (trace ++ events label c) c' := by
  obtain ⟨rounds, phase, hfollowed⟩ := h.followed
  have hdrive := drive_of_step hstep
  constructor
  · exact h.prompt.step h.nested hcancel hanswer hstep
  · exact h.nested.drive hdrive
  · exact h.prompt.marked_step h.nested hanswer h.marked hstep
  · intro hmem
    rcases List.mem_append.1 hmem with hmem | hmem
    · exact h.not_resumes hmem
    · exact h.prompt.not_resumes hstep hmem
  · exact hfollowed.step h.nested (h.prompt.not_stale label) hdrive

/-- A callback is called by a command function. -/
theorem Prompt.attended {c : Config} (h : Prompt c) (htop : c.stack.head? = some .callback) :
    ¬ Unattended c := by
  intro hun
  have hstack := h.stack
  unfold Unattended at hun
  generalize c.stack = stack at hstack hun htop
  cases hstack with
  | nothing => exact absurd htop (by decide)
  | command => exact absurd htop (by decide)
  | callback => exact absurd (hun .commandFn (by decide)) (by decide)
  | complete result => exact absurd htop (by simp)

end Burrow.Frontend
