import Burrow.Frontend.Commands
import Burrow.Lib.Machine

/-!
# `burrow_process` and its callers

The functions of `burrow.c` that drive a command, as a machine with a control
point and a stack. The user's program and the backend are the environment: where
their code runs, the label says what it does next, and it may call back into the
library from wherever it was called itself. Everything else is a `tau` step, but
for the answer of `poll`.

A frame stands for a function that waits for the one above it. The frames of the
environment are calls of the user's callbacks and of the backend's functions;
`return burrow_process(burrow)` at the end of a function leaves no frame. The
calls of the log function are left out.
-/

set_option autoImplicit false

namespace Burrow.Frontend

/-! ## Configurations -/

/-- A function call that has not returned. -/
inductive Frame where
  /-- a message, queue, account or watch_fd callback of the user -/
  | callback
  /-- `burrow->cmd.command_fn`, called by `burrow_process` -/
  | commandFn
  /-- `burrow->backend->process`, called by `burrow_process` -/
  | processFn
  /-- `burrow->complete_fn`, called by `burrow_process` with this `result` -/
  | completeFn (result : Int)
  /-- `burrow->backend->event_raised`, called by `burrow_event_raised` -/
  | eventRaisedFn (fd : Int) (event : BurrowIoevent)
  /-- `burrow->backend->cancel`, called by `burrow_cancel` -/
  | cancelFn
  /-- `burrow_process`, waiting for `burrow_internal_poll_fds` -/
  | pollFds
  /-- `burrow_process`, waiting for `burrow_cancel` before it returns `EINVAL` -/
  | unexpectedEagain
  /-- `burrow_internal_poll_fds`, waiting for `burrow_event_raised`, with its
  variables; `pfd` points into the block -/
  | pollEvent (block pfd watchSize : Nat)
  /-- a function waiting for `burrow_cancel` before it returns the code -/
  | cancelThen (code : Int)
deriving DecidableEq, Repr

/-- Where the execution is. -/
inductive Control where
  /-- in the code of the user or the backend -/
  | environment
  /-- at the `return` of a function of the library -/
  | returning (code : Int)
  /-- at the start of `burrow_process` -/
  | process
  /-- at the head of the loop of `burrow_process` -/
  | loop (result : Int)
  /-- at the start of `burrow_event_raised` -/
  | eventRaised (fd : Int) (event : BurrowIoevent)
  /-- at the start of `burrow_cancel` -/
  | cancel
  /-- at the start of `burrow_internal_poll_fds` -/
  | pollFds
  /-- in `poll` -/
  | poll
  /-- at the head of the loop of `burrow_internal_poll_fds` -/
  | pollLoop (pfd watchSize : Nat)
deriving DecidableEq, Repr

/-- A configuration: the structure, the control point and the calls below it, the
innermost first. -/
structure Config where
  burrow : BurrowSt
  control : Control
  stack : List Frame
deriving DecidableEq, Repr

/-- What `realloc` does with the array of descriptors. -/
inductive Realloc where
  | fails
  | inPlace
  /-- the array is copied to a new block and the old one is freed -/
  | moves
deriving DecidableEq, Repr

/-- What the environment does, or `tau`. -/
inductive Label where
  | tau
  | issue (call : Call)
  | process
  | eventRaised (fd : Int) (event : BurrowIoevent)
  | cancel
  | setOptions (options : BurrowOptions)
  | setCompleteFn (callback : Bool)
  | setWatchFdFn (callback : Bool)
  /-- the backend calls one of the user's callbacks -/
  | callback
  /-- the backend calls `burrow_watch_fd` -/
  | watchFd (fd : Int) (events : BurrowIoevent) (realloc : Realloc)
  /-- the function that is running returns -/
  | returns (code : Int)
  | pollError (errno : Int)
  | pollTimeout
  | pollRaised (revents : Nat → UInt16)

/-- Why the machine does not go on. -/
inductive Stop where
  /-- the label is not for this control point -/
  | notEnabled
  | fault (fault : Fault)
deriving DecidableEq, Repr

/-- A new front end, with nothing running. -/
def Config.create (memory : FrontCommand) (selfallocated : Bool) (backend : BackendFunctions)
    (watchFdFn : Bool) : Config :=
  { burrow := burrowSetWatchFdFn (burrowCreate memory selfallocated backend) watchFdFn
    control := .environment
    stack := [] }

/-! ## Descriptors -/

/-- `POLLIN` -/
def pollin : UInt16 := 1

/-- `POLLOUT` -/
def pollout : UInt16 := 4

/-- What `burrow_internal_watch_fd` writes to `pfd->events`. -/
def pollEvents (events : BurrowIoevent) : UInt16 :=
  let written : UInt16 := 0
  let written := if events.read then written ||| pollin else written
  if events.write then written ||| pollout else written

/-- What `burrow_internal_poll_fds` makes of `pfd->revents`. -/
def raisedEvent (revents : UInt16) : BurrowIoevent :=
  { read := revents &&& pollin != 0, write := revents &&& pollout != 0 }

/-- The array has room for one more descriptor, or `realloc` makes it. The `revents` of
the new entry is written by `poll` before it is read. -/
def growPfds (burrow : BurrowSt) (realloc : Realloc) : Option BurrowSt :=
  let grown := burrow.pfds ++ [{ fd := 0, events := 0, revents := 0 }]
  if burrow.pfds.length < burrow.watchSize + 1 then
    match realloc with
    | .fails => none
    | .inPlace => some { burrow with pfds := grown }
    | .moves => some { burrow with pfds := grown, pfdsBlock := burrow.pfdsBlock + 1 }
  else some burrow

/-- `burrow_internal_watch_fd`; its return code is ignored. -/
def burrowInternalWatchFd (burrow : BurrowSt) (fd : Int) (events : BurrowIoevent)
    (realloc : Realloc) : BurrowSt :=
  match growPfds burrow realloc with
  | none => burrow
  | some burrow =>
      { burrow with
        pfds := burrow.pfds.modify burrow.watchSize fun pfd =>
          { pfd with fd := fd, events := pollEvents events }
        watchSize := burrow.watchSize + 1 }

/-! ## The environment -/

/-- The user's code is running. -/
def userCode : List Frame → Bool
  | [] => true
  | .callback :: _ | .completeFn _ :: _ => true
  | _ => false

/-- The backend's code is running. -/
def backendCode : List Frame → Bool
  | .commandFn :: _ | .processFn :: _ | .eventRaisedFn _ _ :: _ | .cancelFn :: _ => true
  | _ => false

/-- `burrow_watch_fd` -/
def burrowWatchFd (c : Config) (fd : Int) (events : BurrowIoevent) (realloc : Realloc) : Config :=
  if c.burrow.watchFdFn then { c with stack := .callback :: c.stack }
  else { c with burrow := burrowInternalWatchFd c.burrow fd events realloc }

/-- The function of the environment on top of the stack returns `code`. -/
def environmentReturns (code : Int) (c : Config) : Except Stop Config :=
  match c.stack with
  | .callback :: rest => .ok { c with stack := rest }
  | .commandFn :: rest =>
      if code = EAGAIN then
        if c.burrow.backend.process then
          .ok
            { burrow := { c.burrow with state := .waiting }
              control := .loop code
              stack := rest }
        -- a backend without `process` may not block: cancelled, then EINVAL
        else .ok { c with control := .cancel, stack := .unexpectedEagain :: rest }
      else
        .ok { burrow := { c.burrow with state := .finish }, control := .loop code, stack := rest }
  | .processFn :: rest =>
      if code = EAGAIN then
        .ok { burrow := { c.burrow with state := .waiting }, control := .loop code, stack := rest }
      else
        .ok { burrow := { c.burrow with state := .finish }, control := .loop code, stack := rest }
  | .completeFn result :: rest => .ok { c with control := .loop result, stack := rest }
  | .eventRaisedFn _ _ :: rest =>
      if code = 0 then
        let burrow := { c.burrow with state := .ready }
        if burrow.options.autoprocess then
          .ok { burrow := burrow, control := .process, stack := rest }
        else .ok { burrow := burrow, control := .returning code, stack := rest }
      else if code ≠ EAGAIN then
        .ok { c with control := .cancel, stack := .cancelThen code :: rest }
      else .ok { c with control := .returning code, stack := rest }
  | .cancelFn :: rest =>
      .ok
        { burrow :=
            { c.burrow with cmd := { c.burrow.cmd with command := none, commandFn := none } }
          control := .returning 0
          stack := rest }
  | _ => .error .notEnabled

/-- The user's code does something. -/
def userStep (label : Label) (c : Config) : Except Stop Config :=
  match label with
  | .issue call =>
      match call.issue c.burrow with
      | .returns code burrow => .ok { c with burrow := burrow, control := .returning code }
      | .process burrow => .ok { c with burrow := burrow, control := .process }
  | .process => .ok { c with control := .process }
  | .eventRaised fd event => .ok { c with control := .eventRaised fd event }
  | .cancel => .ok { c with control := .cancel }
  | .setOptions options => .ok { c with burrow := burrowSetOptions c.burrow options }
  | .setCompleteFn callback => .ok { c with burrow := burrowSetCompleteFn c.burrow callback }
  | .setWatchFdFn callback => .ok { c with burrow := burrowSetWatchFdFn c.burrow callback }
  | .returns code => environmentReturns code c
  | _ => .error .notEnabled

/-- The backend's code does something. -/
def backendStep (label : Label) (c : Config) : Except Stop Config :=
  match label with
  | .callback => .ok { c with stack := .callback :: c.stack }
  | .watchFd fd events realloc => .ok (burrowWatchFd c fd events realloc)
  | .returns code => environmentReturns code c
  | _ => .error .notEnabled

/-- The answer of `poll` in `burrow_internal_poll_fds`. -/
def pollStep (label : Label) (c : Config) : Except Stop Config :=
  match label with
  | .pollError errno => .ok { c with control := .returning errno }
  | .pollTimeout => .ok { c with control := .cancel, stack := .cancelThen ETIMEDOUT :: c.stack }
  | .pollRaised revents =>
      let pfds := c.burrow.pfds.mapIdx fun i pfd =>
        if i < c.burrow.watchSize then { pfd with revents := revents i } else pfd
      .ok
        { c with
          burrow := { c.burrow with pfds := pfds }
          control := .pollLoop 0 c.burrow.watchSize }
  | _ => .error .notEnabled

/-! ## The library -/

/-- `burrow_process` up to its loop. -/
def processStep (c : Config) : Config :=
  -- called again from a callback
  if c.burrow.flags.processing then { c with control := .returning EAGAIN }
  else
    { c with
      burrow := { c.burrow with flags := { c.burrow.flags with processing := true } }
      control := .loop 0 }

/-- A round of the loop of `burrow_process`, or the end of it. -/
def loopStep (result : Int) (c : Config) : Except Stop Config :=
  match c.burrow.state with
  | .idle =>
      -- the flag is toggled, not cleared
      let flags := { c.burrow.flags with processing := !c.burrow.flags.processing }
      .ok { c with burrow := { c.burrow with flags := flags }, control := .returning result }
  | .start =>
      match c.burrow.cmd.commandFn with
      | none => .error (.fault .nullDereference)
      | some _ => .ok { c with control := .environment, stack := .commandFn :: c.stack }
  | .ready =>
      if c.burrow.backend.process then
        .ok { c with control := .environment, stack := .processFn :: c.stack }
      else .error (.fault .nullDereference)
  | .waiting =>
      -- this return, like the one after an unexpected EAGAIN, leaves the flag set
      if c.burrow.watchSize = 0 then .ok { c with control := .returning EAGAIN }
      else .ok { c with control := .pollFds, stack := .pollFds :: c.stack }
  | .finish =>
      let burrow := { c.burrow with state := .idle, cmd := { c.burrow.cmd with command := none } }
      if burrow.completeFn then
        .ok { burrow := burrow, control := .environment, stack := .completeFn result :: c.stack }
      else .ok { c with burrow := burrow, control := .loop result }

/-- `burrow_event_raised` up to the call of the backend. -/
def eventRaisedStep (fd : Int) (event : BurrowIoevent) (c : Config) : Config :=
  if c.burrow.backend.eventRaised then
    { c with control := .environment, stack := .eventRaisedFn fd event :: c.stack }
  else { c with control := .returning ENOTCONN }

/-- `burrow_cancel` up to the call of the backend. -/
def cancelStep (c : Config) : Config :=
  if c.burrow.state = .idle then { c with control := .returning 0 }
  else
    let burrow := { c.burrow with watchSize := 0 }
    if burrow.backend.cancel then
      { burrow := burrow, control := .environment, stack := .cancelFn :: c.stack }
    else
      { c with
        burrow := { burrow with cmd := { burrow.cmd with command := none, commandFn := none } }
        control := .returning 0 }

/-- `burrow_internal_poll_fds` up to `poll`. -/
def pollFdsStep (c : Config) : Config :=
  if c.burrow.watchSize = 0 then { c with control := .returning 0 } else { c with control := .poll }

/-- A round of the loop of `burrow_internal_poll_fds`, or the end of it. -/
def pollLoopStep (pfd watchSize : Nat) (c : Config) : Config :=
  if pfd < watchSize then
    match c.burrow.pfds[pfd]? with
    | some entry =>
        if entry.revents ≠ 0 then
          { c with
            control := .eventRaised entry.fd (raisedEvent entry.revents)
            stack := .pollEvent c.burrow.pfdsBlock pfd watchSize :: c.stack }
        else { c with control := .pollLoop (pfd + 1) watchSize }
    | none => { c with control := .pollLoop (pfd + 1) watchSize }
  else { c with burrow := { c.burrow with watchSize := watchSize }, control := .returning 0 }

/-- The descriptor that was raised is overwritten with the last one. -/
def dropPfd (pfds : List Pollfd) (pfd watchSize : Nat) : List Pollfd :=
  match pfds[watchSize]? with
  | some last => if pfd < watchSize then pfds.set pfd last else pfds
  | none => pfds

/-- A function of the library returns `code` to its caller. -/
def returnStep (code : Int) (c : Config) : Except Stop Config :=
  match c.stack with
  | .pollFds :: rest =>
      if code ≠ 0 then .ok { c with control := .returning code, stack := rest }
      else .ok { c with control := .loop 0, stack := rest }
  | .unexpectedEagain :: rest => .ok { c with control := .returning EINVAL, stack := rest }
  | .cancelThen code' :: rest => .ok { c with control := .returning code', stack := rest }
  | .pollEvent block pfd watchSize :: rest =>
      -- `pfd` is compared with the last entry, wherever the array is now
      if block ≠ c.burrow.pfdsBlock then .error (.fault .freedPfds)
      else
        .ok
          { burrow := { c.burrow with pfds := dropPfd c.burrow.pfds pfd (watchSize - 1) }
            control := .pollLoop pfd (watchSize - 1)
            stack := rest }
  | _ => .ok { c with control := .environment }

/-- A step of the library. -/
def internalStep (c : Config) : Except Stop Config :=
  match c.control with
  | .returning code => returnStep code c
  | .process => .ok (processStep c)
  | .loop result => loopStep result c
  | .eventRaised fd event => .ok (eventRaisedStep fd event c)
  | .cancel => .ok (cancelStep c)
  | .pollFds => .ok (pollFdsStep c)
  | .pollLoop pfd watchSize => .ok (pollLoopStep pfd watchSize c)
  | .environment | .poll => .error .notEnabled

/-- One step of the machine. -/
def frontStep (label : Label) (c : Config) : Except Stop Config :=
  match label, c.control with
  | .tau, _ => internalStep c
  | label, .environment =>
      if userCode c.stack then userStep label c
      else if backendCode c.stack then backendStep label c
      else .error .notEnabled
  | label, .poll => pollStep label c
  | _, _ => .error .notEnabled

end Burrow.Frontend
