import Burrow.Frontend.Calls
import Burrow.Frontend.Process

/-!
# The steps of the front end, one by one

`frontStep` as a relation with a constructor for each branch of the source: `Tau` are
the steps of the library, `Returned` the returns of the user's and the backend's
functions, and `Step` is all of them. What a step keeps is proved by cases over these;
the functions that compute the steps are opened in this module only.
-/

set_option autoImplicit false

namespace Burrow.Frontend

/-! ## The relations -/

/-- `poll` raised something for the entry. -/
def Pollfd.isRaised (pfd : Pollfd) : Bool := pfd.revents != 0

/-- A step of the library. -/
inductive Tau : Config → Config → Prop
  /-- `burrow_internal_poll_fds` fails, and `burrow_process` with it -/
  | pollFailed {burrow : BurrowSt} {rest : List Frame} {code : Int} (code_ne : code ≠ 0) :
      Tau ⟨burrow, .returning code, .pollFds :: rest⟩ ⟨burrow, .returning code, rest⟩
  /-- `burrow_internal_poll_fds` returns to the loop -/
  | polled {burrow : BurrowSt} {rest : List Frame} :
      Tau ⟨burrow, .returning 0, .pollFds :: rest⟩ ⟨burrow, .loop 0, rest⟩
  /-- `burrow_process` returns `EINVAL` after the unexpected `EAGAIN` -/
  | aborted {burrow : BurrowSt} {rest : List Frame} {code : Int} :
      Tau ⟨burrow, .returning code, .unexpectedEagain :: rest⟩ ⟨burrow, .returning EINVAL, rest⟩
  /-- `burrow_cancel` returns to a function that returns `code'` -/
  | cancelled {burrow : BurrowSt} {rest : List Frame} {code code' : Int} :
      Tau ⟨burrow, .returning code, .cancelThen code' :: rest⟩ ⟨burrow, .returning code', rest⟩
  /-- `burrow_event_raised` returns to the round, which drops the descriptor -/
  | dispatched {burrow : BurrowSt} {rest : List Frame} {code : Int} {pfd watchSize : Nat} :
      Tau ⟨burrow, .returning code, .pollEvent burrow.pfdsBlock pfd watchSize :: rest⟩
        ⟨{ burrow with pfds := dropPfd burrow.pfds pfd (watchSize - 1) },
          .pollLoop pfd (watchSize - 1), rest⟩
  /-- a function of the library returns to the user or to the backend -/
  | returned {burrow : BurrowSt} {stack : List Frame} {code : Int}
      (caller : userCode stack = true ∨ backendCode stack = true) :
      Tau ⟨burrow, .returning code, stack⟩ ⟨burrow, .environment, stack⟩
  /-- `burrow_process` finds the structure marked -/
  | busy {burrow : BurrowSt} {stack : List Frame} (processing : burrow.flags.processing = true) :
      Tau ⟨burrow, .process, stack⟩ ⟨burrow, .returning EAGAIN, stack⟩
  /-- `burrow_process` marks the structure and enters its loop -/
  | enters {burrow : BurrowSt} {stack : List Frame} (processing : burrow.flags.processing = false) :
      Tau ⟨burrow, .process, stack⟩
        ⟨{ burrow with flags := { burrow.flags with processing := true } }, .loop 0, stack⟩
  /-- the loop ends -/
  | leaves {burrow : BurrowSt} {stack : List Frame} {result : Int} (state : burrow.state = .idle) :
      Tau ⟨burrow, .loop result, stack⟩
        ⟨{ burrow with flags := { burrow.flags with processing := !burrow.flags.processing } },
          .returning result, stack⟩
  /-- the loop calls the command function -/
  | starts {burrow : BurrowSt} {stack : List Frame} {result : Int} (state : burrow.state = .start)
      (commandFn : burrow.cmd.commandFn ≠ none) :
      Tau ⟨burrow, .loop result, stack⟩ ⟨burrow, .environment, .commandFn :: stack⟩
  /-- the loop calls the process function -/
  | resumes {burrow : BurrowSt} {stack : List Frame} {result : Int} (state : burrow.state = .ready)
      (process : burrow.backend.process = true) :
      Tau ⟨burrow, .loop result, stack⟩ ⟨burrow, .environment, .processFn :: stack⟩
  /-- the loop ends because the user is to wait -/
  | blocks {burrow : BurrowSt} {stack : List Frame} {result : Int} (state : burrow.state = .waiting)
      (watchSize_eq : burrow.watchSize = 0) :
      Tau ⟨burrow, .loop result, stack⟩ ⟨burrow, .returning EAGAIN, stack⟩
  /-- the loop waits itself -/
  | polls {burrow : BurrowSt} {stack : List Frame} {result : Int} (state : burrow.state = .waiting)
      (watchSize_ne : burrow.watchSize ≠ 0) :
      Tau ⟨burrow, .loop result, stack⟩ ⟨burrow, .pollFds, .pollFds :: stack⟩
  /-- the loop completes the command and calls the user -/
  | completes {burrow : BurrowSt} {stack : List Frame} {result : Int}
      (state : burrow.state = .finish) (completeFn : burrow.completeFn = true) :
      Tau ⟨burrow, .loop result, stack⟩
        ⟨{ burrow with state := .idle, cmd := { burrow.cmd with command := none } },
          .environment, .completeFn result :: stack⟩
  /-- the loop completes the command of a user who does not listen -/
  | passes {burrow : BurrowSt} {stack : List Frame} {result : Int}
      (state : burrow.state = .finish) (completeFn : burrow.completeFn = false) :
      Tau ⟨burrow, .loop result, stack⟩
        ⟨{ burrow with state := .idle, cmd := { burrow.cmd with command := none } },
          .loop result, stack⟩
  /-- `burrow_event_raised` calls the backend -/
  | raises {burrow : BurrowSt} {stack : List Frame} {fd : Int} {event : BurrowIoevent}
      (eventRaised : burrow.backend.eventRaised = true) :
      Tau ⟨burrow, .eventRaised fd event, stack⟩
        ⟨burrow, .environment, .eventRaisedFn fd event :: stack⟩
  /-- the backend has no `event_raised` -/
  | unconnected {burrow : BurrowSt} {stack : List Frame} {fd : Int} {event : BurrowIoevent}
      (eventRaised : burrow.backend.eventRaised = false) :
      Tau ⟨burrow, .eventRaised fd event, stack⟩ ⟨burrow, .returning ENOTCONN, stack⟩
  /-- `burrow_cancel` finds nothing to cancel -/
  | spares {burrow : BurrowSt} {stack : List Frame} (state : burrow.state = .idle) :
      Tau ⟨burrow, .cancel, stack⟩ ⟨burrow, .returning 0, stack⟩
  /-- `burrow_cancel` calls the backend -/
  | cancels {burrow : BurrowSt} {stack : List Frame} (state : burrow.state ≠ .idle)
      (cancel : burrow.backend.cancel = true) :
      Tau ⟨burrow, .cancel, stack⟩
        ⟨{ burrow with watchSize := 0 }, .environment, .cancelFn :: stack⟩
  /-- `burrow_cancel` clears the command itself -/
  | clears {burrow : BurrowSt} {stack : List Frame} (state : burrow.state ≠ .idle)
      (cancel : burrow.backend.cancel = false) :
      Tau ⟨burrow, .cancel, stack⟩
        ⟨{ burrow with
            watchSize := 0
            cmd := { burrow.cmd with command := none, commandFn := none } }, .returning 0, stack⟩
  /-- `burrow_internal_poll_fds` has nothing to poll -/
  | pollsNone {burrow : BurrowSt} {stack : List Frame} (watchSize_eq : burrow.watchSize = 0) :
      Tau ⟨burrow, .pollFds, stack⟩ ⟨burrow, .returning 0, stack⟩
  /-- `burrow_internal_poll_fds` calls `poll` -/
  | pollsSome {burrow : BurrowSt} {stack : List Frame} (watchSize_ne : burrow.watchSize ≠ 0) :
      Tau ⟨burrow, .pollFds, stack⟩ ⟨burrow, .poll, stack⟩
  /-- the round dispatches an event -/
  | dispatches {burrow : BurrowSt} {stack : List Frame} {pfd watchSize : Nat} {entry : Pollfd}
      (pfd_lt : pfd < watchSize) (entry_eq : burrow.pfds[pfd]? = some entry)
      (raised : entry.isRaised = true) :
      Tau ⟨burrow, .pollLoop pfd watchSize, stack⟩
        ⟨burrow, .eventRaised entry.fd (raisedEvent entry.revents),
          .pollEvent burrow.pfdsBlock pfd watchSize :: stack⟩
  /-- the round passes over a descriptor that is silent -/
  | skips {burrow : BurrowSt} {stack : List Frame} {pfd watchSize : Nat} (pfd_lt : pfd < watchSize)
      (silent : ∀ entry, burrow.pfds[pfd]? = some entry → entry.isRaised = false) :
      Tau ⟨burrow, .pollLoop pfd watchSize, stack⟩ ⟨burrow, .pollLoop (pfd + 1) watchSize, stack⟩
  /-- the round ends -/
  | ends {burrow : BurrowSt} {stack : List Frame} {pfd watchSize : Nat} (done : ¬ pfd < watchSize) :
      Tau ⟨burrow, .pollLoop pfd watchSize, stack⟩
        ⟨{ burrow with watchSize := watchSize }, .returning 0, stack⟩

/-- A function of the user or of the backend returns the code. -/
inductive Returned : Int → Config → Config → Prop
  | callback {burrow : BurrowSt} {rest : List Frame} {code : Int} :
      Returned code ⟨burrow, .environment, .callback :: rest⟩ ⟨burrow, .environment, rest⟩
  /-- the command function waits -/
  | commandWaits {burrow : BurrowSt} {rest : List Frame} (process : burrow.backend.process = true) :
      Returned EAGAIN ⟨burrow, .environment, .commandFn :: rest⟩
        ⟨{ burrow with state := .waiting }, .loop EAGAIN, rest⟩
  /-- the command function waits where there is no process function -/
  | commandAborts {burrow : BurrowSt} {rest : List Frame}
      (process : burrow.backend.process = false) :
      Returned EAGAIN ⟨burrow, .environment, .commandFn :: rest⟩
        ⟨burrow, .cancel, .unexpectedEagain :: rest⟩
  | commandFinishes {burrow : BurrowSt} {rest : List Frame} {code : Int}
      (code_ne : code ≠ EAGAIN) :
      Returned code ⟨burrow, .environment, .commandFn :: rest⟩
        ⟨{ burrow with state := .finish }, .loop code, rest⟩
  | processWaits {burrow : BurrowSt} {rest : List Frame} :
      Returned EAGAIN ⟨burrow, .environment, .processFn :: rest⟩
        ⟨{ burrow with state := .waiting }, .loop EAGAIN, rest⟩
  | processFinishes {burrow : BurrowSt} {rest : List Frame} {code : Int}
      (code_ne : code ≠ EAGAIN) :
      Returned code ⟨burrow, .environment, .processFn :: rest⟩
        ⟨{ burrow with state := .finish }, .loop code, rest⟩
  | completeFn {burrow : BurrowSt} {rest : List Frame} {code result : Int} :
      Returned code ⟨burrow, .environment, .completeFn result :: rest⟩ ⟨burrow, .loop result, rest⟩
  /-- the backend is ready, and the command is processed -/
  | readyProcesses {burrow : BurrowSt} {rest : List Frame} {fd : Int} {event : BurrowIoevent}
      (autoprocess : burrow.options.autoprocess = true) :
      Returned 0 ⟨burrow, .environment, .eventRaisedFn fd event :: rest⟩
        ⟨{ burrow with state := .ready }, .process, rest⟩
  /-- the backend is ready -/
  | ready {burrow : BurrowSt} {rest : List Frame} {fd : Int} {event : BurrowIoevent}
      (autoprocess : burrow.options.autoprocess = false) :
      Returned 0 ⟨burrow, .environment, .eventRaisedFn fd event :: rest⟩
        ⟨{ burrow with state := .ready }, .returning 0, rest⟩
  /-- the backend's `event_raised` fails -/
  | eventFails {burrow : BurrowSt} {rest : List Frame} {fd : Int} {event : BurrowIoevent}
      {code : Int} (code_ne : code ≠ EAGAIN) :
      Returned code ⟨burrow, .environment, .eventRaisedFn fd event :: rest⟩
        ⟨burrow, .cancel, .cancelThen code :: rest⟩
  /-- the backend goes on waiting -/
  | eventWaits {burrow : BurrowSt} {rest : List Frame} {fd : Int} {event : BurrowIoevent} :
      Returned EAGAIN ⟨burrow, .environment, .eventRaisedFn fd event :: rest⟩
        ⟨burrow, .returning EAGAIN, rest⟩
  | cancelFn {burrow : BurrowSt} {rest : List Frame} {code : Int} :
      Returned code ⟨burrow, .environment, .cancelFn :: rest⟩
        ⟨{ burrow with cmd := { burrow.cmd with command := none, commandFn := none } },
          .returning 0, rest⟩

/-- The call is taken, with its arguments in `cmd`. -/
structure Taken (call : Call) (burrow : BurrowSt) (cmd : FrontCommand) : Prop where
  accepted : call.accepted burrow = true
  state : burrow.state = .idle
  carried : call.Carried cmd
  command : cmd.command = some call.command

/-- **A step of the machine**, one constructor for each thing that can happen. -/
inductive Step : Label → Config → Config → Prop
  | tau {c c' : Config} (tau : Tau c c') : Step .tau c c'
  | returns {code : Int} {c c' : Config} (returned : Returned code c c') :
      Step (.returns code) c c'
  | refuses {burrow : BurrowSt} {stack : List Frame} {call : Call} {code : Int}
      (user : userCode stack = true) (refused : call.accepted burrow = false)
      (code_eq : code = EINPROGRESS ∧ burrow.state ≠ .idle ∨ code = EINVAL ∧ call.valid = false) :
      Step (.issue call) ⟨burrow, .environment, stack⟩ ⟨burrow, .returning code, stack⟩
  | accepts {burrow : BurrowSt} {stack : List Frame} {call : Call} {cmd : FrontCommand}
      (user : userCode stack = true) (taken : Taken call burrow cmd)
      (autoprocess : burrow.options.autoprocess = false) :
      Step (.issue call) ⟨burrow, .environment, stack⟩
        ⟨{ burrow with cmd := cmd, state := .start }, .returning 0, stack⟩
  | processes {burrow : BurrowSt} {stack : List Frame} {call : Call} {cmd : FrontCommand}
      (user : userCode stack = true) (taken : Taken call burrow cmd)
      (autoprocess : burrow.options.autoprocess = true) :
      Step (.issue call) ⟨burrow, .environment, stack⟩
        ⟨{ burrow with cmd := cmd, state := .start }, .process, stack⟩
  | process {burrow : BurrowSt} {stack : List Frame} (user : userCode stack = true) :
      Step .process ⟨burrow, .environment, stack⟩ ⟨burrow, .process, stack⟩
  | eventRaised {burrow : BurrowSt} {stack : List Frame} {fd : Int} {event : BurrowIoevent}
      (user : userCode stack = true) :
      Step (.eventRaised fd event) ⟨burrow, .environment, stack⟩
        ⟨burrow, .eventRaised fd event, stack⟩
  | cancel {burrow : BurrowSt} {stack : List Frame} (user : userCode stack = true) :
      Step .cancel ⟨burrow, .environment, stack⟩ ⟨burrow, .cancel, stack⟩
  | setOptions {burrow : BurrowSt} {stack : List Frame} {options : BurrowOptions}
      (user : userCode stack = true) :
      Step (.setOptions options) ⟨burrow, .environment, stack⟩
        ⟨burrowSetOptions burrow options, .environment, stack⟩
  | setCompleteFn {burrow : BurrowSt} {stack : List Frame} {callback : Bool}
      (user : userCode stack = true) :
      Step (.setCompleteFn callback) ⟨burrow, .environment, stack⟩
        ⟨burrowSetCompleteFn burrow callback, .environment, stack⟩
  | setWatchFdFn {burrow : BurrowSt} {stack : List Frame} {callback : Bool}
      (user : userCode stack = true) :
      Step (.setWatchFdFn callback) ⟨burrow, .environment, stack⟩
        ⟨burrowSetWatchFdFn burrow callback, .environment, stack⟩
  | callsBack {burrow : BurrowSt} {stack : List Frame} (backend : backendCode stack = true) :
      Step .callback ⟨burrow, .environment, stack⟩ ⟨burrow, .environment, .callback :: stack⟩
  /-- the user watches the descriptor -/
  | callsWatchFd {burrow : BurrowSt} {stack : List Frame} {fd : Int} {events : BurrowIoevent}
      {realloc : Realloc} (backend : backendCode stack = true)
      (watchFdFn : burrow.watchFdFn = true) :
      Step (.watchFd fd events realloc) ⟨burrow, .environment, stack⟩
        ⟨burrow, .environment, .callback :: stack⟩
  /-- the library watches the descriptor -/
  | watchFd {burrow : BurrowSt} {stack : List Frame} {fd : Int} {events : BurrowIoevent}
      {realloc : Realloc} (backend : backendCode stack = true)
      (watchFdFn : burrow.watchFdFn = false) :
      Step (.watchFd fd events realloc) ⟨burrow, .environment, stack⟩
        ⟨burrowInternalWatchFd burrow fd events realloc, .environment, stack⟩
  | pollError {burrow : BurrowSt} {stack : List Frame} {errno : Int} :
      Step (.pollError errno) ⟨burrow, .poll, stack⟩ ⟨burrow, .returning errno, stack⟩
  | pollTimeout {burrow : BurrowSt} {stack : List Frame} :
      Step .pollTimeout ⟨burrow, .poll, stack⟩ ⟨burrow, .cancel, .cancelThen ETIMEDOUT :: stack⟩
  | pollRaised {burrow : BurrowSt} {stack : List Frame} {revents : Nat → UInt16} :
      Step (.pollRaised revents) ⟨burrow, .poll, stack⟩
        ⟨{ burrow with
            pfds := burrow.pfds.mapIdx fun i pfd =>
              if i < burrow.watchSize then { pfd with revents := revents i } else pfd },
          .pollLoop 0 burrow.watchSize, stack⟩

/-! ## The functions compute the relations -/

section Inversion

variable {burrow : BurrowSt} {stack : List Frame} {label : Label} {c c' : Config}

theorem tau_of_returnStep {code : Int}
    (hstep : returnStep code ⟨burrow, .returning code, stack⟩ = .ok c') :
    Tau ⟨burrow, .returning code, stack⟩ c' := by
  cases stack with
  | nil =>
      cases hstep
      exact .returned (Or.inl rfl)
  | cons frame rest =>
      cases frame with
      | pollFds =>
          simp only [returnStep] at hstep
          split at hstep
          · next hcode =>
              cases hstep
              exact .pollFailed hcode
          · next hcode =>
              cases hstep
              obtain rfl := not_not.1 hcode
              exact .polled
      | unexpectedEagain =>
          cases hstep
          exact .aborted
      | cancelThen code' =>
          cases hstep
          exact .cancelled
      | pollEvent block pfd watchSize =>
          simp only [returnStep] at hstep
          split at hstep
          · exact absurd hstep (by simp)
          · next hblock =>
              cases hstep
              obtain rfl := not_not.1 hblock
              exact .dispatched
      | callback | completeFn =>
          cases hstep
          exact .returned (Or.inl rfl)
      | commandFn | processFn | eventRaisedFn | cancelFn =>
          cases hstep
          exact .returned (Or.inr rfl)

theorem tau_processStep :
    Tau ⟨burrow, .process, stack⟩ (processStep ⟨burrow, .process, stack⟩) := by
  rw [processStep]
  split
  · next hprocessing => exact .busy hprocessing
  · next hprocessing => exact .enters (Bool.eq_false_iff.2 hprocessing)

theorem tau_of_loopStep {result : Int}
    (hstep : loopStep result ⟨burrow, .loop result, stack⟩ = .ok c') :
    Tau ⟨burrow, .loop result, stack⟩ c' := by
  simp only [loopStep] at hstep
  -- the branches of the source's `switch` over the state, in its order
  split at hstep
  · next hstate =>
      cases hstep
      exact .leaves hstate
  · next hstate =>
      split at hstep
      · exact absurd hstep (by simp)
      · next hcommand =>
          cases hstep
          exact .starts hstate (by simp [hcommand])
  · next hstate =>
      split at hstep
      · next hprocess =>
          cases hstep
          exact .resumes hstate hprocess
      · exact absurd hstep (by simp)
  · next hstate =>
      split at hstep
      · next hwatch =>
          cases hstep
          exact .blocks hstate hwatch
      · next hwatch =>
          cases hstep
          exact .polls hstate hwatch
  · next hstate =>
      split at hstep
      · next hcomplete =>
          cases hstep
          exact .completes hstate hcomplete
      · next hcomplete =>
          cases hstep
          exact .passes hstate (Bool.eq_false_iff.2 hcomplete)

theorem tau_eventRaisedStep (fd : Int) (event : BurrowIoevent) :
    Tau ⟨burrow, .eventRaised fd event, stack⟩
      (eventRaisedStep fd event ⟨burrow, .eventRaised fd event, stack⟩) := by
  rw [eventRaisedStep]
  split
  · next heventRaised => exact .raises heventRaised
  · next heventRaised => exact .unconnected (Bool.eq_false_iff.2 heventRaised)

theorem tau_cancelStep : Tau ⟨burrow, .cancel, stack⟩ (cancelStep ⟨burrow, .cancel, stack⟩) := by
  simp only [cancelStep]
  split
  · next hstate => exact .spares hstate
  · next hstate =>
      split
      · next hcancel => exact .cancels hstate hcancel
      · next hcancel => exact .clears hstate (Bool.eq_false_iff.2 hcancel)

theorem tau_pollFdsStep :
    Tau ⟨burrow, .pollFds, stack⟩ (pollFdsStep ⟨burrow, .pollFds, stack⟩) := by
  rw [pollFdsStep]
  split
  · next hwatch => exact .pollsNone hwatch
  · next hwatch => exact .pollsSome hwatch

theorem tau_pollLoopStep (pfd watchSize : Nat) :
    Tau ⟨burrow, .pollLoop pfd watchSize, stack⟩
      (pollLoopStep pfd watchSize ⟨burrow, .pollLoop pfd watchSize, stack⟩) := by
  rw [pollLoopStep]
  split
  · next hlt =>
      split
      · next entry hentry =>
          split
          · next hraised => exact .dispatches hlt hentry (bne_iff_ne.2 hraised)
          · next hsilent =>
              refine .skips hlt fun entry' hentry' => ?_
              cases hentry.symm.trans hentry'
              exact bne_eq_false_iff_eq.2 (not_not.1 hsilent)
      · next hnone =>
          exact .skips hlt fun entry hentry => absurd (hnone.symm.trans hentry) (by simp)
  · next hge => exact .ends hge

/-- A step of the library. -/
theorem tau_of_internalStep (hstep : internalStep c = .ok c') : Tau c c' := by
  obtain ⟨burrow, control, stack⟩ := c
  cases control with
  | returning code => exact tau_of_returnStep hstep
  | process =>
      cases hstep
      exact tau_processStep
  | loop result => exact tau_of_loopStep hstep
  | eventRaised fd event =>
      cases hstep
      exact tau_eventRaisedStep fd event
  | cancel =>
      cases hstep
      exact tau_cancelStep
  | pollFds =>
      cases hstep
      exact tau_pollFdsStep
  | pollLoop pfd watchSize =>
      cases hstep
      exact tau_pollLoopStep pfd watchSize
  | environment | poll => exact absurd hstep (by simp [internalStep])

/-- A return of the user's or the backend's code. -/
theorem returned_of_environmentReturns {code : Int}
    (hstep : environmentReturns code ⟨burrow, .environment, stack⟩ = .ok c') :
    Returned code ⟨burrow, .environment, stack⟩ c' := by
  simp only [environmentReturns] at hstep
  split at hstep
  · cases hstep
    exact .callback
  · split at hstep
    · next hcode =>
        subst hcode
        split at hstep
        · next hprocess =>
            cases hstep
            exact .commandWaits hprocess
        · next hprocess =>
            cases hstep
            exact .commandAborts (Bool.eq_false_iff.2 hprocess)
    · next hcode =>
        cases hstep
        exact .commandFinishes hcode
  · split at hstep
    · next hcode =>
        cases hstep
        subst hcode
        exact .processWaits
    · next hcode =>
        cases hstep
        exact .processFinishes hcode
  · cases hstep
    exact .completeFn
  · split at hstep
    · next hcode =>
        subst hcode
        split at hstep
        · next hauto =>
            cases hstep
            exact .readyProcesses hauto
        · next hauto =>
            cases hstep
            exact .ready (Bool.eq_false_iff.2 hauto)
    · split at hstep
      · next hcode =>
          cases hstep
          exact .eventFails hcode
      · next hcode =>
          cases hstep
          obtain rfl := not_not.1 hcode
          exact .eventWaits
  · cases hstep
    exact .cancelFn
  · exact absurd hstep (by simp)

/-- A step of the user's code. -/
theorem step_of_userStep (huser : userCode stack = true)
    (hstep : userStep label ⟨burrow, .environment, stack⟩ = .ok c') :
    Step label ⟨burrow, .environment, stack⟩ c' := by
  cases label with
  | issue call =>
      simp only [userStep] at hstep
      rcases call.issue_cases burrow with ⟨hrefused, code, heq, hcode⟩ |
        ⟨haccepted, hstate, -, cmd, hcarried, hcommand, heq⟩
      · rw [heq] at hstep
        cases hstep
        exact .refuses huser hrefused hcode
      · have htaken : Taken call burrow cmd := ⟨haccepted, hstate, hcarried, hcommand⟩
        rw [heq] at hstep
        cases hauto : burrow.options.autoprocess with
        | true =>
            rw [hauto] at hstep
            cases hstep
            exact .processes huser htaken hauto
        | false =>
            rw [hauto] at hstep
            cases hstep
            exact .accepts huser htaken hauto
  | process =>
      cases hstep
      exact .process huser
  | eventRaised fd event =>
      cases hstep
      exact .eventRaised huser
  | cancel =>
      cases hstep
      exact .cancel huser
  | setOptions options =>
      cases hstep
      exact .setOptions huser
  | setCompleteFn callback =>
      cases hstep
      exact .setCompleteFn huser
  | setWatchFdFn callback =>
      cases hstep
      exact .setWatchFdFn huser
  | returns code => exact .returns (returned_of_environmentReturns hstep)
  | _ => exact absurd hstep (by simp [userStep])

/-- A step of the backend's code. -/
theorem step_of_backendStep (hbackend : backendCode stack = true)
    (hstep : backendStep label ⟨burrow, .environment, stack⟩ = .ok c') :
    Step label ⟨burrow, .environment, stack⟩ c' := by
  cases label with
  | callback =>
      cases hstep
      exact .callsBack hbackend
  | watchFd fd events realloc =>
      cases hstep
      rw [burrowWatchFd]
      split
      · next hwatch => exact .callsWatchFd hbackend hwatch
      · next hwatch => exact .watchFd hbackend (Bool.eq_false_iff.2 hwatch)
  | returns code => exact .returns (returned_of_environmentReturns hstep)
  | _ => exact absurd hstep (by simp [backendStep])

/-- An answer of `poll`. -/
theorem step_of_pollStep (hstep : pollStep label ⟨burrow, .poll, stack⟩ = .ok c') :
    Step label ⟨burrow, .poll, stack⟩ c' := by
  cases label with
  | pollError errno =>
      cases hstep
      exact .pollError
  | pollTimeout =>
      cases hstep
      exact .pollTimeout
  | pollRaised revents =>
      cases hstep
      exact .pollRaised
  | _ => exact absurd hstep (by simp [pollStep])

/-- **The machine takes only these steps.** -/
theorem step_of_frontStep (hstep : frontStep label c = .ok c') : Step label c c' := by
  obtain ⟨burrow, control, stack⟩ := c
  unfold frontStep at hstep
  split at hstep
  · exact .tau (tau_of_internalStep hstep)
  · next hcontrol =>
      obtain rfl : control = .environment := hcontrol
      split at hstep
      · next huser => exact step_of_userStep huser hstep
      · split at hstep
        · next hbackend => exact step_of_backendStep hbackend hstep
        · exact absurd hstep (by simp)
  · next hcontrol =>
      obtain rfl : control = .poll := hcontrol
      exact step_of_pollStep hstep
  · exact absurd hstep (by simp)

/-- What `burrow_internal_watch_fd` leaves as it was. -/
structure WatchFdKeeps (burrow burrow' : BurrowSt) : Prop where
  state_eq : burrow'.state = burrow.state
  cmd_eq : burrow'.cmd = burrow.cmd
  flags_eq : burrow'.flags = burrow.flags
  backend_eq : burrow'.backend = burrow.backend

theorem watchFdKeeps (burrow : BurrowSt) (fd : Int) (watched : BurrowIoevent) (realloc : Realloc) :
    WatchFdKeeps burrow (burrowInternalWatchFd burrow fd watched realloc) := by
  unfold burrowInternalWatchFd growPfds
  dsimp only
  split
  · exact ⟨rfl, rfl, rfl, rfl⟩
  · next grown hgrow =>
      split at hgrow
      · cases realloc with
        | fails => exact absurd hgrow (by simp)
        | inPlace | moves =>
            cases hgrow
            exact ⟨rfl, rfl, rfl, rfl⟩
      · cases hgrow
        exact ⟨rfl, rfl, rfl, rfl⟩

/-- The backend is chosen once. -/
theorem backend_eq_of_step (hstep : frontStep label c = .ok c') :
    c'.burrow.backend = c.burrow.backend := by
  cases step_of_frontStep hstep with
  | tau tau => cases tau <;> rfl
  | returns returned => cases returned <;> rfl
  | watchFd => exact (watchFdKeeps _ _ _ _).backend_eq
  | _ => rfl

end Inversion

/-! ## Faults -/

section Faults

variable {label : Label} {c : Config} {fault : Fault}

end Faults

end Burrow.Frontend
