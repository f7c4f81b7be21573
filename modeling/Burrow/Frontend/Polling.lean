import Burrow.Frontend.Drive

/-!
# Where the calls of `burrow_internal_poll_fds` stand

While `burrow_process` waits for `burrow_internal_poll_fds` no other code runs above
it than the call of `burrow_event_raised` for a descriptor that was raised, and the
call of `burrow_cancel` after a timeout. `Polling` is what every run keeps of this;
it also follows the ways on which `burrow_process` leaves its loop with an error.
-/

set_option autoImplicit false

namespace Burrow.Frontend

/-- `burrow_internal_poll_fds`, waiting for `burrow_event_raised`. -/
def Frame.isPollEvent : Frame → Bool
  | .pollEvent _ _ _ => true
  | _ => false

/-- A function waits for `burrow_cancel`. -/
def Frame.isCancelThen : Frame → Bool
  | .cancelThen _ => true
  | _ => false

/-- The frame belongs neither to `burrow_internal_poll_fds` nor to an abrupt end. -/
def Frame.plain : Frame → Bool
  | .pollFds | .pollEvent _ _ _ | .unexpectedEagain => false
  | _ => true

/-- `poll` fails with an error that is passed on, or it times out. -/
def Label.failsPoll : Label → Bool
  | .pollError errno => decide (errno ≠ 0 ∧ errno ≠ EAGAIN)
  | .pollTimeout => true
  | _ => false

/-- The function that is running returns `EAGAIN`. -/
def Label.isAgain : Label → Bool
  | .returns code => decide (code = EAGAIN)
  | _ => false

/-- `burrow_process` leaves its loop with the command unfinished: it could not wait,
or the command function waits where there is no process function. -/
def Abrupt (label : Label) (c : Config) : Prop :=
  c.control = .poll ∧ label.failsPoll = true ∨
    c.control = .environment ∧ label.isAgain = true ∧ c.stack.head? = some .commandFn ∧
      c.burrow.backend.process = false

instance (label : Label) (c : Config) : Decidable (Abrupt label c) :=
  inferInstanceAs (Decidable (_ ∨ _))

/-- The frame can stand on a call of `burrow_internal_poll_fds`. -/
def Frame.onPoll (abrupt : Bool) (frame : Frame) : Bool :=
  frame.isPollEvent || (abrupt && frame.isCancelThen)

/-- On a call of `burrow_internal_poll_fds` stands a frame that can, and its dispatch
stands nowhere else. If `abrupt` is false, no abrupt end is under way. -/
def PollStack (abrupt : Bool) : List Frame → Prop
  | [] => True
  | frame :: rest =>
      (rest.head? = some .pollFds → frame.onPoll abrupt = true) ∧
        (frame.isPollEvent = true → rest.head? = some .pollFds) ∧
        (frame.isUnexpectedEagain = true → abrupt = true) ∧ PollStack abrupt rest

/-- Where `burrow_internal_poll_fds` runs, what runs above it and what it returns. -/
structure Polling (abrupt : Bool) (c : Config) : Prop where
  top : c.control.inPoll = true → c.stack.head? = some .pollFds
  only : c.stack.head? = some .pollFds →
    c.control.inPoll = true ∨
      ∃ code, c.control = .returning code ∧ (abrupt = true ∨ code = 0 ∨ code = EAGAIN)
  stack : PollStack abrupt c.stack

theorem polling_create (abrupt : Bool) (memory : FrontCommand) (selfallocated : Bool)
    (backend : BackendFunctions) (watchFdFn : Bool) :
    Polling abrupt (Config.create memory selfallocated backend watchFdFn) := by
  constructor
  · intro hpoll
    exact absurd hpoll (by simp [Config.create, Control.inPoll])
  · intro htop
    exact absurd htop (by simp [Config.create])
  · trivial

section Steps

variable {abrupt : Bool} {label : Label} {c c' : Config}

theorem plain_iff {frame : Frame} : frame.plain = true ↔
    frame ≠ .pollFds ∧ frame.isPollEvent = false ∧ frame.isUnexpectedEagain = false := by
  cases frame with
  | pollFds => exact iff_of_false (by decide) (by decide)
  | pollEvent block pfd watchSize =>
      exact iff_of_false (by simp [Frame.plain]) (by simp [Frame.isPollEvent])
  | unexpectedEagain => exact iff_of_false (by decide) (by decide)
  | _ => exact iff_of_true rfl ⟨by simp, rfl, rfl⟩

theorem onPoll_eq_false {frame : Frame} (hevent : frame.isPollEvent = false)
    (hcancel : frame.isCancelThen = false) : frame.onPoll abrupt = false := by
  rw [Frame.onPoll, hevent, hcancel, Bool.and_false]
  rfl

theorem head_ne_of_userCode (h : userCode c.stack = true) : c.stack.head? ≠ some .pollFds := by
  intro htop
  obtain ⟨rest, hstack⟩ := List.head?_eq_some_iff.1 htop
  rw [hstack] at h
  exact absurd h (by simp [userCode])

theorem head_ne_of_backendCode (h : backendCode c.stack = true) :
    c.stack.head? ≠ some .pollFds := by
  intro htop
  obtain ⟨rest, hstack⟩ := List.head?_eq_some_iff.1 htop
  rw [hstack] at h
  exact absurd h (by simp [backendCode])

/-- Nothing else runs on `burrow_internal_poll_fds`. -/
theorem Polling.head_ne (h : Polling abrupt c) (hpoll : c.control.inPoll = false)
    (hreturning : ∀ code, c.control ≠ .returning code) : c.stack.head? ≠ some .pollFds := by
  intro htop
  rcases h.only htop with hin | ⟨code, hcode, -⟩
  · exact absurd hin (by simp [hpoll])
  · exact hreturning code hcode

/-- The calls stay, and something other than `burrow_internal_poll_fds` runs. -/
theorem Polling.stay (h : Polling abrupt c) (htop : c.stack.head? ≠ some .pollFds)
    (hstack : c'.stack = c.stack) (hpoll : c'.control.inPoll = false) : Polling abrupt c' := by
  constructor
  · intro hin
    exact absurd hin (by simp [hpoll])
  · intro htop'
    exact absurd (hstack ▸ htop') htop
  · rw [hstack]
    exact h.stack

/-- The calls stay, and `burrow_internal_poll_fds` returns. -/
theorem Polling.toReturn (h : Polling abrupt c) (hstack : c'.stack = c.stack) {code : Int}
    (hcontrol : c'.control = .returning code) (hcode : abrupt = true ∨ code = 0 ∨ code = EAGAIN) :
    Polling abrupt c' := by
  constructor
  · intro hin
    exact absurd hin (by simp [hcontrol, Control.inPoll])
  · exact fun _ => Or.inr ⟨code, hcontrol, hcode⟩
  · rw [hstack]
    exact h.stack

/-- The calls stay, and `burrow_internal_poll_fds` goes on. -/
theorem Polling.toPoll (h : Polling abrupt c) (hstack : c'.stack = c.stack)
    (hin : c.control.inPoll = true) (hin' : c'.control.inPoll = true) : Polling abrupt c' := by
  constructor
  · intro _
    rw [hstack]
    exact h.top hin
  · exact fun _ => Or.inl hin'
  · rw [hstack]
    exact h.stack

/-- A call, other than that of `burrow_internal_poll_fds` and its dispatch. -/
theorem Polling.push (h : Polling abrupt c) (htop : c.stack.head? ≠ some .pollFds) {frame : Frame}
    (hstack : c'.stack = frame :: c.stack) (hplain : frame.plain = true)
    (hpoll : c'.control.inPoll = false) : Polling abrupt c' := by
  obtain ⟨hne, hevent, hunexpected⟩ := plain_iff.1 hplain
  constructor
  · intro hin
    exact absurd hin (by simp [hpoll])
  · intro htop'
    rw [hstack, List.head?_cons, Option.some.injEq] at htop'
    exact absurd htop' hne
  · rw [hstack]
    refine ⟨fun hhead => absurd hhead htop, fun hpe => ?_, fun hun => ?_, h.stack⟩
    · exact absurd hpe (by simp [hevent])
    · exact absurd hun (by simp [hunexpected])

/-- Something other than a call on `burrow_internal_poll_fds` returns. -/
theorem Polling.pop (h : Polling abrupt c) {frame : Frame} (hstack : c.stack = frame :: c'.stack)
    (hno : frame.onPoll abrupt = false) (hpoll : c'.control.inPoll = false) :
    Polling abrupt c' := by
  have hframe := h.stack
  rw [hstack] at hframe
  constructor
  · intro hin
    exact absurd hin (by simp [hpoll])
  · intro htop
    exact absurd (hframe.1 htop) (by simp [hno])
  · exact hframe.2.2.2

/-- A call is replaced by another one, and neither is on `burrow_internal_poll_fds`. -/
theorem Polling.replace (h : Polling abrupt c) {frame frame' : Frame} {rest : List Frame}
    (hstack : c.stack = frame :: rest) (hstack' : c'.stack = frame' :: rest)
    (hno : frame.onPoll abrupt = false) (hne : frame' ≠ .pollFds)
    (hevent : frame'.isPollEvent = false)
    (hunexpected : frame'.isUnexpectedEagain = true → abrupt = true)
    (hpoll : c'.control.inPoll = false) : Polling abrupt c' := by
  have hframe := h.stack
  rw [hstack] at hframe
  constructor
  · intro hin
    exact absurd hin (by simp [hpoll])
  · intro htop'
    rw [hstack', List.head?_cons, Option.some.injEq] at htop'
    exact absurd htop' hne
  · rw [hstack']
    refine ⟨fun hhead => ?_, fun hpe => absurd hpe (by simp [hevent]), hunexpected,
      hframe.2.2.2⟩
    exact absurd (hframe.1 hhead) (by simp [hno])

/-- `burrow_cancel` returns to its caller, which returns too. -/
theorem Polling.popCancel (h : Polling abrupt c) {code code' : Int}
    (hstack : c.stack = .cancelThen code' :: c'.stack) (hcontrol : c'.control = .returning code) :
    Polling abrupt c' := by
  have hframe := h.stack
  rw [hstack] at hframe
  constructor
  · intro hin
    exact absurd hin (by simp [hcontrol, Control.inPoll])
  · intro htop
    refine Or.inr ⟨code, hcontrol, Or.inl ?_⟩
    simpa [Frame.onPoll, Frame.isPollEvent, Frame.isCancelThen] using hframe.1 htop
  · exact hframe.2.2.2

/-- What a step of the library keeps. -/
theorem Polling.tau (h : Polling abrupt c) (htau : Tau c c') : Polling abrupt c' := by
  cases htau with
  | pollFailed code_ne => exact h.pop rfl (onPoll_eq_false rfl rfl) rfl
  | polled => exact h.pop rfl (onPoll_eq_false rfl rfl) rfl
  | aborted => exact h.pop rfl (onPoll_eq_false rfl rfl) rfl
  | cancelled => exact h.popCancel rfl rfl
  | dispatched => exact ⟨fun _ => h.stack.2.1 rfl, fun _ => Or.inl rfl, h.stack.2.2.2⟩
  | returned caller =>
      rcases caller with huser | hbackend
      · exact h.stay (head_ne_of_userCode huser) rfl rfl
      · exact h.stay (head_ne_of_backendCode hbackend) rfl rfl
  | busy processing => exact h.stay (h.head_ne rfl (by simp)) rfl rfl
  | enters processing => exact h.stay (h.head_ne rfl (by simp)) rfl rfl
  | leaves state => exact h.stay (h.head_ne rfl (by simp)) rfl rfl
  | starts state commandFn => exact h.push (h.head_ne rfl (by simp)) rfl rfl rfl
  | resumes state process => exact h.push (h.head_ne rfl (by simp)) rfl rfl rfl
  | blocks state watchSize_eq => exact h.stay (h.head_ne rfl (by simp)) rfl rfl
  -- `poll` is entered from the loop, never from inside another one
  | polls state watchSize_ne =>
      refine ⟨fun _ => rfl, fun _ => Or.inl rfl, fun hhead => ?_, ?_, ?_, h.stack⟩
      · exact absurd hhead (h.head_ne rfl (by simp))
      · intro hevent
        exact absurd hevent (by simp [Frame.isPollEvent])
      · intro hunexpected
        exact absurd hunexpected (by simp [Frame.isUnexpectedEagain])
  | completes state completeFn => exact h.push (h.head_ne rfl (by simp)) rfl rfl rfl
  | passes state completeFn => exact h.stay (h.head_ne rfl (by simp)) rfl rfl
  | raises eventRaised => exact h.push (h.head_ne rfl (by simp)) rfl rfl rfl
  | unconnected eventRaised => exact h.stay (h.head_ne rfl (by simp)) rfl rfl
  | spares state => exact h.stay (h.head_ne rfl (by simp)) rfl rfl
  | cancels state cancel => exact h.push (h.head_ne rfl (by simp)) rfl rfl rfl
  | clears state cancel => exact h.stay (h.head_ne rfl (by simp)) rfl rfl
  | pollsNone watchSize_eq => exact h.toReturn rfl rfl (Or.inr (Or.inl rfl))
  | pollsSome watchSize_ne => exact h.toPoll rfl rfl rfl
  | dispatches pfd_lt entry_eq raised =>
      refine ⟨fun hin => absurd hin (by simp [Control.inPoll]), fun htop => ?_, fun _ => rfl,
        fun _ => h.top rfl, fun hunexpected => ?_, h.stack⟩
      · exact absurd htop (by simp)
      · exact absurd hunexpected (by simp [Frame.isUnexpectedEagain])
  | skips pfd_lt silent => exact h.toPoll rfl rfl rfl
  | ends done => exact h.toReturn rfl rfl (Or.inr (Or.inl rfl))

/-- What a return of the user's or the backend's code keeps. -/
theorem Polling.returned (h : Polling abrupt c) {code : Int}
    (habrupt : Abrupt (.returns code) c → abrupt = true) (hreturned : Returned code c c') :
    Polling abrupt c' := by
  cases hreturned with
  | callback => exact h.pop rfl (onPoll_eq_false rfl rfl) rfl
  | commandWaits process => exact h.pop rfl (onPoll_eq_false rfl rfl) rfl
  | commandAborts process =>
      refine h.replace rfl rfl (onPoll_eq_false rfl rfl) (by simp) rfl (fun _ => ?_) rfl
      exact habrupt (Or.inr ⟨rfl, rfl, rfl, process⟩)
  | commandFinishes code_ne => exact h.pop rfl (onPoll_eq_false rfl rfl) rfl
  | processWaits => exact h.pop rfl (onPoll_eq_false rfl rfl) rfl
  | processFinishes code_ne => exact h.pop rfl (onPoll_eq_false rfl rfl) rfl
  | completeFn => exact h.pop rfl (onPoll_eq_false rfl rfl) rfl
  | readyProcesses autoprocess => exact h.pop rfl (onPoll_eq_false rfl rfl) rfl
  | ready autoprocess => exact h.pop rfl (onPoll_eq_false rfl rfl) rfl
  | eventFails code_ne =>
      exact h.replace rfl rfl (onPoll_eq_false rfl rfl) (by simp) rfl
        (by simp [Frame.isUnexpectedEagain]) rfl
  | eventWaits => exact h.pop rfl (onPoll_eq_false rfl rfl) rfl
  | cancelFn => exact h.pop rfl (onPoll_eq_false rfl rfl) rfl

/-- **Every step keeps the calls of `burrow_internal_poll_fds` where they belong.** -/
theorem Polling.step (h : Polling abrupt c) (habrupt : Abrupt label c → abrupt = true)
    (hstep : frontStep label c = .ok c') : Polling abrupt c' := by
  cases step_of_frontStep hstep with
  | tau tau => exact h.tau tau
  | returns returned => exact h.returned habrupt returned
  | refuses user refused code_eq => exact h.stay (head_ne_of_userCode user) rfl rfl
  | accepts user taken autoprocess => exact h.stay (head_ne_of_userCode user) rfl rfl
  | processes user taken autoprocess => exact h.stay (head_ne_of_userCode user) rfl rfl
  | process user | eventRaised user | cancel user =>
      exact h.stay (head_ne_of_userCode user) rfl rfl
  | setOptions user | setCompleteFn user | setWatchFdFn user =>
      exact h.stay (head_ne_of_userCode user) rfl rfl
  | callsBack backend | callsWatchFd backend watchFdFn =>
      exact h.push (head_ne_of_backendCode backend) rfl rfl rfl
  | watchFd backend watchFdFn => exact h.stay (head_ne_of_backendCode backend) rfl rfl
  | @pollError burrow stack errno =>
      refine h.toReturn rfl rfl ?_
      by_cases hcode : errno = 0 ∨ errno = EAGAIN
      · exact Or.inr hcode
      · exact Or.inl (habrupt (Or.inl ⟨rfl, decide_eq_true (not_or.1 hcode)⟩))
  | pollTimeout =>
      -- the call of `burrow_cancel` stands on that of `burrow_internal_poll_fds`
      obtain rfl := habrupt (Or.inl ⟨rfl, rfl⟩)
      refine ⟨fun hin => absurd hin (by simp [Control.inPoll]), fun htop => ?_, fun _ => rfl, ?_,
        fun _ => rfl, h.stack⟩
      · exact absurd htop (by simp)
      · intro hevent
        exact absurd hevent (by simp [Frame.isPollEvent])
  | pollRaised => exact h.toPoll rfl rfl rfl

end Steps

end Burrow.Frontend
