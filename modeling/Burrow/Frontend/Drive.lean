import Burrow.Frontend.Calls
import Burrow.Frontend.Resume

/-!
# Commands as they pass through the front end

What an observer sees of a command: the front end `accepts` a call, calls the
command function (`starts`) or the process function (`resumes`), which `answers`
with a code, and `completes` the command. `events` reads this off the steps of the
machine.

`Drive` says once what a step can do to the state, to the pending command and to
the calls that `burrow_process` waits for. `Nested` is what every run keeps of these
calls, whatever the environment does.
-/

set_option autoImplicit false

namespace Burrow.Frontend

/-! ## Events -/

inductive Event where
  /-- one of the eleven functions takes a call -/
  | accepts (call : Call)
  /-- `burrow_process` calls `burrow->cmd.command_fn` on `&burrow->cmd` -/
  | starts (cmd : FrontCommand)
  /-- `burrow_process` calls `burrow->backend->process` -/
  | resumes
  /-- the function called returns -/
  | answers (code : Int)
  /-- the FINISH step; the complete callback is `called` if the user has set one -/
  | completes (called : Bool)
deriving DecidableEq, Repr

/-- The frame is a function of the backend that works on the command. -/
def Frame.works : Frame → Bool
  | .commandFn | .processFn => true
  | _ => false

/-- What a step shows. -/
def events (label : Label) (c : Config) : List Event :=
  match label, c.control with
  | .tau, .loop _ =>
      match c.burrow.state with
      | .start => [.starts c.burrow.cmd]
      | .ready => [.resumes]
      | .finish => [.completes c.burrow.completeFn]
      | .idle | .waiting => []
  | .issue call, .environment => if call.accepted c.burrow then [.accepts call] else []
  | .returns code, .environment => if c.stack.head?.any Frame.works then [.answers code] else []
  | _, _ => []

/-! ## The calls that the loop waits for -/

/-- When the frame returns, the loop of `burrow_process` may go on. -/
def Frame.drives : Frame → Bool
  | .commandFn | .processFn | .completeFn _ | .pollFds => true
  | _ => false

/-- The calls on the stack that the loop of `burrow_process` waits for. -/
def drivers (stack : List Frame) : List Frame := stack.filter Frame.drives

theorem drivers_cons_of_drives {frame : Frame} (h : frame.drives = true) (rest : List Frame) :
    drivers (frame :: rest) = frame :: drivers rest :=
  List.filter_cons_of_pos h

theorem drivers_cons_of_not {frame : Frame} (h : frame.drives = false) (rest : List Frame) :
    drivers (frame :: rest) = drivers rest :=
  List.filter_cons_of_neg (by simp [h])

theorem mem_drivers {frame : Frame} (h : frame.drives = true) {stack : List Frame} :
    frame ∈ drivers stack ↔ frame ∈ stack :=
  List.mem_filter.trans (and_iff_left h)

theorem notMem_of_drivers_nil {frame : Frame} (hdrives : frame.drives = true)
    {stack : List Frame} (h : drivers stack = []) : frame ∉ stack := by
  intro hmem
  rw [← mem_drivers hdrives, h] at hmem
  exact absurd hmem List.not_mem_nil

theorem drives_of_works {frame : Frame} (h : frame.works = true) : frame.drives = true := by
  cases frame with
  | commandFn => rfl
  | processFn => rfl
  | _ => exact absurd h (by simp [Frame.works])

theorem depth_eq (stack : List Frame) :
    depth stack = (drivers stack).length + aborting stack := by
  induction stack with
  | nil => rfl
  | cons frame rest ih =>
      rw [depth, aborting, ih]
      cases frame with
      | unexpectedEagain =>
          rw [drivers_cons_of_not rfl]
          exact Nat.add_assoc _ _ _
      | commandFn | processFn | completeFn | pollFds =>
          rw [drivers_cons_of_drives rfl, List.length_cons]
          exact Nat.add_right_comm _ _ _
      | _ =>
          rw [drivers_cons_of_not rfl]
          rfl

/-- The function that is running returns. -/
def Label.isReturn : Label → Bool
  | .returns _ => true
  | _ => false

/-- The function that is running returns something other than `EAGAIN`. -/
def Label.isResult : Label → Bool
  | .returns code => decide (code ≠ EAGAIN)
  | _ => false

/-- `burrow_cancel` clears the command and returns, at once or after the backend's
cancel function. -/
def Clears (label : Label) (c : Config) : Prop :=
  c.control = .cancel ∧ c.burrow.state ≠ .idle ∧ c.burrow.backend.cancel = false ∨
    c.control = .environment ∧ label.isReturn = true ∧ c.stack.head? = some .cancelFn

instance (label : Label) (c : Config) : Decidable (Clears label c) :=
  inferInstanceAs (Decidable (_ ∨ _))

/-- Nothing happens to the state, the command and the mark. -/
structure Same (c c' : Config) : Prop where
  state_eq : c'.burrow.state = c.burrow.state
  cmd_eq : c'.burrow.cmd = c.burrow.cmd
  processing_eq : c'.burrow.flags.processing = c.burrow.flags.processing

/-! ## What a step does -/

/-- **What a step can do** to the state, the command and the calls that the loop
waits for, and what it shows. -/
inductive Drive (label : Label) (c c' : Config) : List Event → Prop
  /-- nothing -/
  | quiet (control : c.control.inLoop = false) (control' : c'.control.inLoop = false)
      (drivers_eq : drivers c'.stack = drivers c.stack) (same : Same c c') : Drive label c c' []
  /-- a call is taken -/
  | accepts {call : Call} (label_eq : label = .issue call) (control : c.control.inLoop = false)
      (control' : c'.control.inLoop = false) (stack_eq : c'.stack = c.stack)
      (state : c.burrow.state = .idle) (state' : c'.burrow.state = .start)
      (carried : call.Carried c'.burrow.cmd) (command : c'.burrow.cmd.command = some call.command)
      (processing_eq : c'.burrow.flags.processing = c.burrow.flags.processing) :
      Drive label c c' [.accepts call]
  /-- `burrow_cancel` clears the command -/
  | cancels (control : c.control.inLoop = false) (control' : c'.control.inLoop = false)
      (drivers_eq : drivers c'.stack = drivers c.stack)
      (state_eq : c'.burrow.state = c.burrow.state)
      (cmd' : c'.burrow.cmd = { c.burrow.cmd with command := none, commandFn := none })
      (processing_eq : c'.burrow.flags.processing = c.burrow.flags.processing)
      (clears : Clears label c) : Drive label c c' []
  /-- the backend says that it is ready -/
  | raises {fd : Int} {event : BurrowIoevent} (label_eq : label = .returns 0)
      (control : c.control = .environment) (control' : c'.control.inLoop = false)
      (stack_eq : c.stack = .eventRaisedFn fd event :: c'.stack)
      (state' : c'.burrow.state = .ready) (cmd_eq : c'.burrow.cmd = c.burrow.cmd)
      (processing_eq : c'.burrow.flags.processing = c.burrow.flags.processing) : Drive label c c' []
  /-- the loop calls the command function -/
  | starts (control : c.control.inLoop = true) (control' : c'.control.inLoop = false)
      (stack_eq : c'.stack = .commandFn :: c.stack) (state : c.burrow.state = .start)
      (commandFn : c.burrow.cmd.commandFn ≠ none) (same : Same c c') :
      Drive label c c' [.starts c.burrow.cmd]
  /-- the loop calls the process function -/
  | resumes (control : c.control.inLoop = true) (control' : c'.control.inLoop = false)
      (stack_eq : c'.stack = .processFn :: c.stack) (state : c.burrow.state = .ready)
      (process : c.burrow.backend.process = true) (same : Same c c') : Drive label c c' [.resumes]
  /-- one of the two returns to the loop -/
  | answers {code : Int} {frame : Frame} (control : c.control.inLoop = false)
      (control' : c'.control = .loop code) (works : frame.works = true)
      (stack_eq : c.stack = frame :: c'.stack)
      (state' : c'.burrow.state = if code = EAGAIN then .waiting else .finish)
      (cmd_eq : c'.burrow.cmd = c.burrow.cmd)
      (processing_eq : c'.burrow.flags.processing = c.burrow.flags.processing)
      (label_eq : label = .returns code) : Drive label c c' [.answers code]
  /-- the command function returns `EAGAIN` where there is no process function -/
  | aborts {rest : List Frame} (control : c.control = .environment)
      (control' : c'.control = .cancel) (stack_eq : c.stack = .commandFn :: rest)
      (stack_eq' : c'.stack = .unexpectedEagain :: rest) (same : Same c c')
      (process : c.burrow.backend.process = false) (label_eq : label = .returns EAGAIN) :
      Drive label c c' [.answers EAGAIN]
  /-- the loop completes the command and calls the user -/
  | completes {result : Int} (control : c.control.inLoop = true)
      (control' : c'.control.inLoop = false) (stack_eq : c'.stack = .completeFn result :: c.stack)
      (state : c.burrow.state = .finish) (state' : c'.burrow.state = .idle)
      (processing_eq : c'.burrow.flags.processing = c.burrow.flags.processing)
      (commandFn_eq : c'.burrow.cmd.commandFn = c.burrow.cmd.commandFn) :
      Drive label c c' [.completes c.burrow.completeFn]
  /-- the loop completes the command of a user who does not listen -/
  | passes (control : c.control.inLoop = true) (control' : c'.control.inLoop = true)
      (stack_eq : c'.stack = c.stack) (state : c.burrow.state = .finish)
      (state' : c'.burrow.state = .idle)
      (processing_eq : c'.burrow.flags.processing = c.burrow.flags.processing)
      (commandFn_eq : c'.burrow.cmd.commandFn = c.burrow.cmd.commandFn) :
      Drive label c c' [.completes c.burrow.completeFn]
  /-- the complete callback or `burrow_internal_poll_fds` returns to the loop -/
  | reenters {frame : Frame} (control : c.control.inLoop = false)
      (control' : c'.control.inLoop = true) (drives : frame.drives = true)
      (works : frame.works = false) (stack_eq : c.stack = frame :: c'.stack) (same : Same c c') :
      Drive label c c' []
  /-- a call of `burrow_process` enters the loop -/
  | enters (control : c.control.inLoop = false) (control' : c'.control.inLoop = true)
      (stack_eq : c'.stack = c.stack) (processing : c.burrow.flags.processing = false)
      (processing' : c'.burrow.flags.processing = true)
      (state_eq : c'.burrow.state = c.burrow.state) (cmd_eq : c'.burrow.cmd = c.burrow.cmd) :
      Drive label c c' []
  /-- the loop ends -/
  | leaves {code : Int} (control : c.control = .loop code) (control' : c'.control = .returning code)
      (stack_eq : c'.stack = c.stack) (state : c.burrow.state = .idle)
      (processing' : c'.burrow.flags.processing = !c.burrow.flags.processing)
      (state_eq : c'.burrow.state = c.burrow.state) (cmd_eq : c'.burrow.cmd = c.burrow.cmd) :
      Drive label c c' []
  /-- the loop ends because the user is to wait -/
  | blocks (control : c.control.inLoop = true) (control' : c'.control = .returning EAGAIN)
      (stack_eq : c'.stack = c.stack) (state : c.burrow.state = .waiting) (same : Same c c') :
      Drive label c c' []
  /-- the loop waits itself -/
  | polls (control : c.control.inLoop = true) (control' : c'.control = .pollFds)
      (stack_eq : c'.stack = .pollFds :: c.stack) (state : c.burrow.state = .waiting)
      (same : Same c c') : Drive label c c' []
  /-- the loop ends because waiting failed -/
  | fails {code : Int} (control : c.control = .returning code) (code_ne : code ≠ 0)
      (control' : c'.control = .returning code) (stack_eq : c.stack = .pollFds :: c'.stack)
      (same : Same c c') : Drive label c c' []

section Steps

variable {label : Label} {c c' : Config}

theorem events_returns (hcontrol : c.control = .environment) (code : Int) :
    events (.returns code) c = if c.stack.head?.any Frame.works then [.answers code] else [] := by
  unfold events
  rw [hcontrol]

/-- What the loop shows in each state. -/
theorem events_loop (burrow : BurrowSt) (result : Int) (stack : List Frame) :
    events .tau ⟨burrow, .loop result, stack⟩ =
      match burrow.state with
      | .start => [.starts burrow.cmd]
      | .ready => [.resumes]
      | .finish => [.completes burrow.completeFn]
      | .idle | .waiting => [] :=
  rfl

/-- What a step of the library does. -/
theorem drive_tau (htau : Tau c c') : Drive .tau c c' (events .tau c) := by
  cases htau with
  | pollFailed code_ne => exact .fails rfl code_ne rfl rfl ⟨rfl, rfl, rfl⟩
  | polled => exact .reenters rfl rfl rfl rfl rfl ⟨rfl, rfl, rfl⟩
  | aborted => exact .quiet rfl rfl (drivers_cons_of_not rfl _).symm ⟨rfl, rfl, rfl⟩
  | cancelled => exact .quiet rfl rfl (drivers_cons_of_not rfl _).symm ⟨rfl, rfl, rfl⟩
  | dispatched => exact .quiet rfl rfl (drivers_cons_of_not rfl _).symm ⟨rfl, rfl, rfl⟩
  | returned caller => exact .quiet rfl rfl rfl ⟨rfl, rfl, rfl⟩
  | busy processing => exact .quiet rfl rfl rfl ⟨rfl, rfl, rfl⟩
  | enters processing => exact .enters rfl rfl rfl processing rfl rfl rfl
  | leaves state =>
      rw [events_loop, state]
      exact .leaves rfl rfl rfl state rfl state.symm rfl
  | starts state commandFn =>
      rw [events_loop, state]
      exact .starts rfl rfl rfl state commandFn ⟨rfl, rfl, rfl⟩
  | resumes state process =>
      rw [events_loop, state]
      exact .resumes rfl rfl rfl state process ⟨rfl, rfl, rfl⟩
  | blocks state watchSize_eq =>
      rw [events_loop, state]
      exact .blocks rfl rfl rfl state ⟨rfl, rfl, rfl⟩
  | polls state watchSize_ne =>
      rw [events_loop, state]
      exact .polls rfl rfl rfl state ⟨rfl, rfl, rfl⟩
  | completes state completeFn =>
      rw [events_loop, state]
      exact .completes rfl rfl rfl state rfl rfl rfl
  | passes state completeFn =>
      rw [events_loop, state]
      exact .passes rfl rfl rfl state rfl rfl rfl
  | raises eventRaised => exact .quiet rfl rfl (drivers_cons_of_not rfl _) ⟨rfl, rfl, rfl⟩
  | unconnected eventRaised => exact .quiet rfl rfl rfl ⟨rfl, rfl, rfl⟩
  | spares state => exact .quiet rfl rfl rfl ⟨rfl, rfl, rfl⟩
  | cancels state cancel => exact .quiet rfl rfl (drivers_cons_of_not rfl _) ⟨rfl, rfl, rfl⟩
  | clears state cancel =>
      exact .cancels rfl rfl rfl rfl rfl rfl (Or.inl ⟨rfl, state, cancel⟩)
  | pollsNone watchSize_eq => exact .quiet rfl rfl rfl ⟨rfl, rfl, rfl⟩
  | pollsSome watchSize_ne => exact .quiet rfl rfl rfl ⟨rfl, rfl, rfl⟩
  | dispatches pfd_lt entry_eq raised =>
      exact .quiet rfl rfl (drivers_cons_of_not rfl _) ⟨rfl, rfl, rfl⟩
  | skips pfd_lt silent => exact .quiet rfl rfl rfl ⟨rfl, rfl, rfl⟩
  | ends done => exact .quiet rfl rfl rfl ⟨rfl, rfl, rfl⟩

/-- What a return of the user's or the backend's code does. -/
theorem drive_returned {code : Int} (hreturned : Returned code c c') :
    Drive (.returns code) c c' (events (.returns code) c) := by
  cases hreturned with
  | callback => exact .quiet rfl rfl (drivers_cons_of_not rfl _).symm ⟨rfl, rfl, rfl⟩
  | commandWaits process => exact .answers rfl rfl rfl rfl rfl rfl rfl rfl
  | commandAborts process => exact .aborts rfl rfl rfl rfl ⟨rfl, rfl, rfl⟩ process rfl
  | commandFinishes code_ne => exact .answers rfl rfl rfl rfl (if_neg code_ne).symm rfl rfl rfl
  | processWaits => exact .answers rfl rfl rfl rfl rfl rfl rfl rfl
  | processFinishes code_ne => exact .answers rfl rfl rfl rfl (if_neg code_ne).symm rfl rfl rfl
  | completeFn => exact .reenters rfl rfl rfl rfl rfl ⟨rfl, rfl, rfl⟩
  | readyProcesses autoprocess => exact .raises rfl rfl rfl rfl rfl rfl rfl
  | ready autoprocess => exact .raises rfl rfl rfl rfl rfl rfl rfl
  | eventFails code_ne =>
      refine .quiet rfl rfl ?_ ⟨rfl, rfl, rfl⟩
      rw [drivers_cons_of_not rfl, drivers_cons_of_not rfl]
  | eventWaits => exact .quiet rfl rfl (drivers_cons_of_not rfl _).symm ⟨rfl, rfl, rfl⟩
  | cancelFn =>
      exact .cancels rfl rfl (drivers_cons_of_not rfl _).symm rfl rfl rfl
        (Or.inr ⟨rfl, rfl, rfl⟩)

/-- What a call shows. -/
theorem events_issue {burrow : BurrowSt} {stack : List Frame} (call : Call) :
    events (.issue call) ⟨burrow, .environment, stack⟩ =
      if call.accepted burrow then [.accepts call] else [] :=
  rfl

/-- **What a step does**, whatever the environment chooses. -/
theorem drive_of_step (hstep : frontStep label c = .ok c') : Drive label c c' (events label c) := by
  cases step_of_frontStep hstep with
  | tau tau => exact drive_tau tau
  | returns returned => exact drive_returned returned
  | refuses user refused code_eq =>
      rw [events_issue, refused]
      exact .quiet rfl rfl rfl ⟨rfl, rfl, rfl⟩
  | accepts user taken autoprocess =>
      rw [events_issue, taken.accepted]
      exact .accepts rfl rfl rfl rfl taken.state rfl taken.carried taken.command rfl
  | processes user taken autoprocess =>
      rw [events_issue, taken.accepted]
      exact .accepts rfl rfl rfl rfl taken.state rfl taken.carried taken.command rfl
  | process user | eventRaised user | cancel user => exact .quiet rfl rfl rfl ⟨rfl, rfl, rfl⟩
  | setOptions user | setCompleteFn user | setWatchFdFn user =>
      exact .quiet rfl rfl rfl ⟨rfl, rfl, rfl⟩
  | callsBack backend | callsWatchFd backend watchFdFn =>
      exact .quiet rfl rfl (drivers_cons_of_not rfl _) ⟨rfl, rfl, rfl⟩
  | watchFd backend watchFdFn =>
      obtain ⟨hstate, hcmd, hflags, -⟩ := watchFdKeeps _ _ _ _
      exact .quiet rfl rfl rfl ⟨hstate, hcmd, congrArg BurrowFlags.processing hflags⟩
  | pollError | pollRaised => exact .quiet rfl rfl rfl ⟨rfl, rfl, rfl⟩
  | pollTimeout => exact .quiet rfl rfl (drivers_cons_of_not rfl _) ⟨rfl, rfl, rfl⟩

end Steps

/-! ## At most one loop -/

/-- The loop runs at most once at a time, and the structure is marked while it does. -/
structure Nested (c : Config) : Prop where
  loop : c.control.inLoop = true → drivers c.stack = [] ∧ c.burrow.flags.processing = true
  rest : c.control.inLoop = false →
    (drivers c.stack).length ≤ 1 ∧ (drivers c.stack ≠ [] → c.burrow.flags.processing = true)
  finish : c.burrow.state = .finish → c.control.inLoop = true

theorem nested_create (memory : FrontCommand) (selfallocated : Bool) (backend : BackendFunctions)
    (watchFdFn : Bool) : Nested (Config.create memory selfallocated backend watchFdFn) := by
  constructor
  · intro hloop
    exact absurd hloop (by simp [Config.create, Control.inLoop])
  · intro _
    exact ⟨Nat.zero_le _, fun hne => absurd rfl hne⟩
  · intro hstate
    exact absurd hstate (by simp [Config.create, burrowSetWatchFdFn, burrowCreate])

section Nested

variable {label : Label} {c c' : Config} {shown : List Event}

/-- The loop has no call to wait for left, when it goes on after the only one. -/
theorem Nested.pop (h : Nested c) (hloop : c.control.inLoop = false) {frame : Frame}
    {rest : List Frame} (hdrives : frame.drives = true) (hstack : c.stack = frame :: rest) :
    drivers rest = [] ∧ c.burrow.flags.processing = true := by
  obtain ⟨hle, hmark⟩ := h.rest hloop
  rw [hstack, drivers_cons_of_drives hdrives] at hle hmark
  constructor
  · apply List.length_eq_zero_iff.1
    simpa using hle
  · exact hmark (by simp)

theorem Nested.drive (h : Nested c) (hdrive : Drive label c c' shown) : Nested c' := by
  have hsame : c.control.inLoop = false → c'.control.inLoop = false →
      drivers c'.stack = drivers c.stack →
      c'.burrow.flags.processing = c.burrow.flags.processing → c'.burrow.state ≠ .finish →
      Nested c' := by
    intro hcontrol hcontrol' hdrivers hmark hstate
    refine ⟨fun hloop => absurd hloop (by simp [hcontrol']), fun _ => ?_,
      fun hf => absurd hf hstate⟩
    rw [hdrivers, hmark]
    exact h.rest hcontrol
  have hcalls : ∀ frame : Frame, c.control.inLoop = true → c'.control.inLoop = false →
      frame.drives = true → c'.stack = frame :: c.stack →
      c'.burrow.flags.processing = c.burrow.flags.processing → c'.burrow.state ≠ .finish →
      Nested c' := by
    intro frame hcontrol hcontrol' hdrives hstack hmark hstate
    obtain ⟨hnil, hprocessing⟩ := h.loop hcontrol
    refine ⟨fun hloop => absurd hloop (by simp [hcontrol']), fun _ => ?_,
      fun hf => absurd hf hstate⟩
    rw [hstack, drivers_cons_of_drives hdrives, hnil, hmark]
    exact ⟨Nat.le_refl _, fun _ => hprocessing⟩
  -- a finished command is found in the loop only
  have hnot : c.control.inLoop = false → c.burrow.state ≠ .finish := by
    intro hcontrol hf
    exact absurd (h.finish hf) (by simp [hcontrol])
  cases hdrive with
  | quiet control control' drivers_eq same =>
      exact hsame control control' drivers_eq same.processing_eq (same.state_eq ▸ hnot control)
  | accepts _ control control' stack_eq _ state' _ _ processing_eq =>
      exact hsame control control' (by rw [stack_eq]) processing_eq (by simp [state'])
  | cancels control control' drivers_eq state_eq _ processing_eq _ =>
      exact hsame control control' drivers_eq processing_eq (state_eq ▸ hnot control)
  | raises _ control control' stack_eq state' _ processing_eq =>
      -- `burrow_event_raised` answers no call of the loop, so the calls stay
      have hloop : c.control.inLoop = false := by rw [control]; rfl
      refine hsame hloop control' ?_ processing_eq (by simp [state'])
      rw [stack_eq, drivers_cons_of_not rfl]
  | starts control control' stack_eq state _ same =>
      exact hcalls _ control control' rfl stack_eq same.processing_eq
        (by simp [same.state_eq, state])
  | resumes control control' stack_eq state _ same =>
      exact hcalls _ control control' rfl stack_eq same.processing_eq
        (by simp [same.state_eq, state])
  | completes control control' stack_eq _ state' processing_eq _ =>
      exact hcalls _ control control' rfl stack_eq processing_eq (by simp [state'])
  | polls control control' stack_eq state same =>
      exact hcalls _ control (by rw [control']; rfl) rfl stack_eq same.processing_eq
        (by simp [same.state_eq, state])
  | answers control control' works stack_eq _ _ processing_eq _ =>
      obtain ⟨hnil, hmark⟩ := h.pop control (drives_of_works works) stack_eq
      have hloop : c'.control.inLoop = true := by rw [control']; rfl
      exact ⟨fun _ => ⟨hnil, processing_eq.trans hmark⟩, fun hno => absurd hloop (by simp [hno]),
        fun _ => hloop⟩
  | reenters control control' drives _ stack_eq same =>
      obtain ⟨hnil, hmark⟩ := h.pop control drives stack_eq
      exact ⟨fun _ => ⟨hnil, same.processing_eq.trans hmark⟩,
        fun hno => absurd control' (by simp [hno]), fun _ => control'⟩
  | aborts control control' stack_eq stack_eq' same _ _ =>
      have hloop : c.control.inLoop = false := by rw [control]; rfl
      obtain ⟨hnil, -⟩ := h.pop hloop rfl stack_eq
      refine ⟨fun hl => absurd hl (by simp [control', Control.inLoop]), fun _ => ?_,
        fun hf => absurd (same.state_eq ▸ hf) (hnot hloop)⟩
      rw [stack_eq', drivers_cons_of_not rfl, hnil]
      exact ⟨Nat.zero_le _, fun hne => absurd rfl hne⟩
  | fails control _ control' stack_eq same =>
      have hloop : c.control.inLoop = false := by rw [control]; rfl
      obtain ⟨hnil, -⟩ := h.pop hloop rfl stack_eq
      refine ⟨fun hl => absurd hl (by simp [control', Control.inLoop]), fun _ => ?_,
        fun hf => absurd (same.state_eq ▸ hf) (hnot hloop)⟩
      rw [hnil]
      exact ⟨Nat.zero_le _, fun hne => absurd rfl hne⟩
  | passes control control' stack_eq _ _ processing_eq _ =>
      refine ⟨fun _ => ?_, fun hno => absurd control' (by simp [hno]), fun _ => control'⟩
      rw [stack_eq, processing_eq]
      exact h.loop control
  | enters control control' stack_eq processing processing' _ _ =>
      -- not running yet, and so no call of the loop can wait
      have hnil : drivers c.stack = [] := by
        by_contra hne
        exact absurd ((h.rest control).2 hne) (by simp [processing])
      exact ⟨fun _ => ⟨stack_eq ▸ hnil, processing'⟩, fun hno => absurd control' (by simp [hno]),
        fun _ => control'⟩
  | leaves control control' stack_eq state _ state_eq _ =>
      obtain ⟨hnil, -⟩ := h.loop (by rw [control]; rfl)
      refine ⟨fun hl => absurd hl (by simp [control', Control.inLoop]), fun _ => ?_,
        fun hf => absurd (state_eq.symm.trans hf) (by simp [state])⟩
      rw [stack_eq, hnil]
      exact ⟨Nat.zero_le _, fun hne => absurd rfl hne⟩
  | blocks control control' stack_eq state same =>
      obtain ⟨hnil, -⟩ := h.loop control
      refine ⟨fun hl => absurd hl (by simp [control', Control.inLoop]), fun _ => ?_,
        fun hf => absurd (same.state_eq.symm.trans hf) (by simp [state])⟩
      rw [stack_eq, hnil]
      exact ⟨Nat.zero_le _, fun hne => absurd rfl hne⟩

end Nested

/-! ## Single steps -/

section Single

variable {label : Label} {c c' : Config} {shown : List Event}

theorem environment_of_returns {code : Int} (hstep : frontStep (.returns code) c = .ok c') :
    c.control = .environment := by
  cases step_of_frontStep hstep with
  | returns returned =>
      cases returned with
      | _ => rfl

/-- A command is finished by an answer other than `EAGAIN`. -/
theorem Drive.finish (hdrive : Drive label c c' shown) (hnested : Nested c)
    (hfinish : c'.burrow.state = .finish) :
    label.isResult = true ∧ c.stack.head?.any Frame.works = true := by
  -- in the loop a finished command is completed, and elsewhere none is finished
  have hsame : c.control.inLoop = false → c'.burrow.state = c.burrow.state → False := by
    intro hloop hstate
    exact absurd (hnested.finish (hstate.symm.trans hfinish)) (by simp [hloop])
  have hother : ∀ state : BurrowState, c.burrow.state = state → state ≠ .finish →
      c'.burrow.state = c.burrow.state → False := by
    intro state hstate hne heq
    exact hne (hstate.symm.trans (heq.symm.trans hfinish))
  cases hdrive with
  | quiet control _ _ same => exact (hsame control same.state_eq).elim
  | accepts _ _ _ _ _ state' _ _ _ => exact absurd (state'.symm.trans hfinish) (by simp)
  | cancels control _ _ state_eq _ _ _ => exact (hsame control state_eq).elim
  | raises _ _ _ _ state' _ _ => exact absurd (state'.symm.trans hfinish) (by simp)
  | starts _ _ _ state _ same => exact (hother _ state (by simp) same.state_eq).elim
  | resumes _ _ _ state _ same => exact (hother _ state (by simp) same.state_eq).elim
  | answers _ _ works stack_eq state' _ _ label_eq =>
      rw [hfinish] at state'
      split at state'
      · exact absurd state' (by simp)
      · next hcode =>
          rw [label_eq, stack_eq]
          exact ⟨decide_eq_true hcode, works⟩
  | aborts control _ _ _ same _ _ => exact (hsame (by rw [control]; rfl) same.state_eq).elim
  | completes _ _ _ _ state' _ _ => exact absurd (state'.symm.trans hfinish) (by simp)
  | passes _ _ _ _ state' _ _ => exact absurd (state'.symm.trans hfinish) (by simp)
  | reenters control _ _ _ _ same => exact (hsame control same.state_eq).elim
  | enters control _ _ _ _ state_eq _ => exact (hsame control state_eq).elim
  | leaves _ _ _ state _ state_eq _ => exact (hother _ state (by simp) state_eq).elim
  | blocks _ _ _ state same => exact (hother _ state (by simp) same.state_eq).elim
  | polls _ _ _ state same => exact (hother _ state (by simp) same.state_eq).elim
  | fails control _ _ _ same => exact (hsame (by rw [control]; rfl) same.state_eq).elim

end Single

/-! ## The end of the outermost call -/

end Burrow.Frontend
