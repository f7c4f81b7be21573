import Burrow.Frontend.Drive

/-!
# Commands go through in rounds

A `Round` is a command from its acceptance to its completion: the front end takes
the call, calls the command function on it once, then the process function once for
every `EAGAIN`, and completes the command after the first other answer. As long as
no `stale` event makes the front end `READY`, the trace of a run is a sequence of
rounds and the part of a round that is under way (`Followed`), whatever else the
environment does.
-/

set_option autoImplicit false

namespace Burrow.Frontend

/-! ## Rounds -/

/-- A command from its acceptance to its completion. -/
structure Round where
  call : Call
  /-- what the command function was called on -/
  cmd : FrontCommand
  /-- how often the backend answered `EAGAIN` -/
  waits : Nat
  code : Int
  /-- the user has set a complete callback -/
  called : Bool
deriving DecidableEq, Repr

/-- The answers `EAGAIN` of a round, each followed by a call of the process function. -/
def waitEvents : Nat → List Event
  | 0 => []
  | n + 1 => waitEvents n ++ [.answers EAGAIN, .resumes]

def Round.events (r : Round) : List Event :=
  [.accepts r.call, .starts r.cmd] ++ waitEvents r.waits ++ [.answers r.code, .completes r.called]

/-- The command function got the arguments of the call, and the last answer was final. -/
structure Round.Ok (r : Round) : Prop where
  carried : r.call.Carried r.cmd
  code_ne : r.code ≠ EAGAIN

/-- The round that is under way. -/
inductive Phase where
  | idle
  | issued (call : Call)
  | running (call : Call) (cmd : FrontCommand) (waits : Nat)
  | blocked (call : Call) (cmd : FrontCommand) (waits : Nat)
  | answered (call : Call) (cmd : FrontCommand) (waits : Nat) (code : Int)

/-- What has been seen of the round that is under way. -/
def Phase.events : Phase → List Event
  | .idle => []
  | .issued call => [.accepts call]
  | .running call cmd waits => [.accepts call, .starts cmd] ++ waitEvents waits
  | .blocked call cmd waits => [.accepts call, .starts cmd] ++ waitEvents waits ++ [.answers EAGAIN]
  | .answered call cmd waits code =>
      [.accepts call, .starts cmd] ++ waitEvents waits ++ [.answers code]

/-! ## Phases and configurations -/

/-- No function of the backend works on the command. -/
def Unattended (c : Config) : Prop := ∀ frame ∈ drivers c.stack, frame.works = false

/-- The structure is marked, and no loop is left to clear the mark. -/
structure Barred (c : Config) : Prop where
  control : c.control.inLoop = false
  drivers_eq : drivers c.stack = []
  processing : c.burrow.flags.processing = true

/-- The frame that works on a command after so many answers `EAGAIN`. -/
def worker (waits : Nat) : Frame := if waits = 0 then .commandFn else .processFn

/-- What a phase says of the configuration. -/
def Phase.Holds (c : Config) : Phase → Prop
  | .idle => c.burrow.state = .idle ∧ Unattended c
  | .issued call =>
      -- a command cancelled before it starts has lost its function
      c.burrow.state = .start ∧ Unattended c ∧
        (c.burrow.cmd.commandFn = none ∨ call.Carried c.burrow.cmd)
  | .running call cmd waits =>
      call.Carried cmd ∧ drivers c.stack = [worker waits] ∧
        (c.burrow.state = .start ∨ c.burrow.state = .ready)
  | .blocked call cmd _ =>
      call.Carried cmd ∧ Unattended c ∧
        (c.burrow.state = .waiting ∨ c.burrow.state = .ready ∨ c.burrow.state = .start ∧ Barred c)
  | .answered call cmd _ code => call.Carried cmd ∧ code ≠ EAGAIN ∧ c.burrow.state = .finish

/-- The trace is a sequence of rounds and what has been seen of another one. -/
structure Followed (trace : List Event) (c : Config) (rounds : List Round) (phase : Phase) :
    Prop where
  rounds_ok : ∀ r ∈ rounds, r.Ok
  trace_eq : trace = rounds.flatMap Round.events ++ phase.events
  holds : phase.Holds c

/-- The frame is the backend's `event_raised`. -/
def Frame.isEventRaised : Frame → Bool
  | .eventRaisedFn _ _ => true
  | _ => false

/-- The function that runs returns `0`. -/
def Label.succeeds : Label → Bool
  | .returns code => decide (code = 0)
  | _ => false

/-- The backend says it is ready when no command is pending, or when the pending one
has not been started. -/
def Stale (label : Label) (c : Config) : Prop :=
  label.succeeds = true ∧ c.control = .environment ∧
    c.stack.head?.any Frame.isEventRaised = true ∧
    (c.burrow.state = .idle ∨ c.burrow.state = .start ∧ .commandFn ∉ c.stack)

instance (label : Label) (c : Config) : Decidable (Stale label c) :=
  inferInstanceAs (Decidable (_ ∧ _))

section Steps

variable {label : Label} {c c' : Config} {shown trace : List Event} {rounds : List Round}
  {phase : Phase}

theorem works_worker (waits : Nat) : (worker waits).works = true := by
  unfold worker
  split
  · rfl
  · rfl

/-- No function of the backend works on a command that is left unattended. -/
theorem Unattended.notMem (h : Unattended c) {frame : Frame} (hworks : frame.works = true) :
    frame ∉ c.stack := by
  intro hmem
  have hno := h frame ((mem_drivers (drives_of_works hworks)).2 hmem)
  exact absurd hworks (by simp [hno])

theorem attended_of_works {frame : Frame} {rest : List Frame} (hworks : frame.works = true)
    (hstack : c.stack = frame :: rest) : ¬ Unattended c := by
  intro hun
  apply hun.notMem hworks
  rw [hstack]
  exact List.mem_cons_self

theorem unattended_of_nil (h : drivers c.stack = []) : Unattended c := by
  intro frame hframe
  rw [h] at hframe
  exact absurd hframe List.not_mem_nil

theorem Unattended.congr (h : Unattended c) (drivers_eq : drivers c'.stack = drivers c.stack) :
    Unattended c' := by
  intro frame hframe
  rw [drivers_eq] at hframe
  exact h frame hframe

/-- The loop calls a function that does not work on the command. -/
theorem unattended_of_push {frame : Frame} (hdrives : frame.drives = true)
    (hworks : frame.works = false) (hnil : drivers c.stack = [])
    (hstack : c'.stack = frame :: c.stack) : Unattended c' := by
  intro driver hdriver
  rw [hstack, drivers_cons_of_drives hdrives, hnil] at hdriver
  rw [List.mem_singleton.1 hdriver]
  exact hworks

theorem Barred.congr (h : Barred c) (control' : c'.control.inLoop = false)
    (drivers_eq : drivers c'.stack = drivers c.stack)
    (processing_eq : c'.burrow.flags.processing = c.burrow.flags.processing) : Barred c' :=
  ⟨control', drivers_eq.trans h.drivers_eq, processing_eq.trans h.processing⟩

theorem not_drivers_worker {frame : Frame} (hworks : frame.works = false) (waits : Nat) :
    [frame] ≠ [worker waits] := by
  intro heq
  have hworks' := works_worker waits
  rw [← List.singleton_inj.1 heq, hworks] at hworks'
  exact absurd hworks' (by simp)

/-- A phase lasts while the state stays and nobody starts or stops working. -/
theorem Phase.Holds.mono (h : phase.Holds c) (hstate : c'.burrow.state = c.burrow.state)
    (hcmd : c'.burrow.cmd = c.burrow.cmd ∨ c'.burrow.cmd.commandFn = none)
    (hworks : ∀ waits, drivers c.stack = [worker waits] → drivers c'.stack = [worker waits])
    (hun : Unattended c → Unattended c') (hbarred : Barred c → Barred c') : phase.Holds c' := by
  cases phase with
  | idle => exact ⟨hstate.trans h.1, hun h.2⟩
  | issued call =>
      refine ⟨hstate.trans h.1, hun h.2.1, ?_⟩
      rcases hcmd with hcmd | hcmd
      · rw [hcmd]
        exact h.2.2
      · exact Or.inl hcmd
  | running call cmd waits =>
      refine ⟨h.1, hworks waits h.2.1, ?_⟩
      rw [hstate]
      exact h.2.2
  | blocked call cmd waits =>
      refine ⟨h.1, hun h.2.1, ?_⟩
      rw [hstate]
      exact h.2.2.imp_right (Or.imp_right (And.imp_right hbarred))
  | answered call cmd waits code => exact ⟨h.1, h.2.1, hstate.trans h.2.2⟩

/-- A phase lasts over a step outside the loop that leaves the loop's calls alone. -/
theorem Phase.Holds.outside (h : phase.Holds c) (control' : c'.control.inLoop = false)
    (drivers_eq : drivers c'.stack = drivers c.stack)
    (state_eq : c'.burrow.state = c.burrow.state)
    (hcmd : c'.burrow.cmd = c.burrow.cmd ∨ c'.burrow.cmd.commandFn = none)
    (processing_eq : c'.burrow.flags.processing = c.burrow.flags.processing) :
    phase.Holds c' := by
  apply h.mono state_eq hcmd
  · intro waits hdrivers
    exact drivers_eq.trans hdrivers
  · intro hun
    exact hun.congr drivers_eq
  · intro hbarred
    exact hbarred.congr control' drivers_eq processing_eq

/-- A phase lasts over a step of the loop, which nobody works under. -/
theorem Phase.Holds.inside (h : phase.Holds c) (hnested : Nested c)
    (hloop : c.control.inLoop = true) (state_eq : c'.burrow.state = c.burrow.state)
    (cmd_eq : c'.burrow.cmd = c.burrow.cmd) (hun : Unattended c') : phase.Holds c' := by
  have hnil := (hnested.loop hloop).1
  apply h.mono state_eq (Or.inl cmd_eq)
  · intro waits hdrivers
    exact absurd (hnil.symm.trans hdrivers) (by simp)
  · intro _
    exact hun
  · intro hbarred
    exact absurd hbarred.control (by simp [hloop])

/-- A phase lasts when a function that did not work on the command returns to the loop. -/
theorem Phase.Holds.returned (h : phase.Holds c) (hnested : Nested c)
    (hloop : c.control.inLoop = false) {frame : Frame} (hdrives : frame.drives = true)
    (hworks : frame.works = false) (hstack : c.stack = frame :: c'.stack) (same : Same c c') :
    phase.Holds c' := by
  have hnil := (hnested.pop hloop hdrives hstack).1
  have hdrivers : drivers c.stack = [frame] := by
    rw [hstack, drivers_cons_of_drives hdrives, hnil]
  apply h.mono same.state_eq (Or.inl same.cmd_eq)
  · intro waits hworker
    exact absurd (hdrivers.symm.trans hworker) (not_drivers_worker hworks waits)
  · intro _
    exact unattended_of_nil hnil
  · intro hbarred
    exact absurd (hdrivers.symm.trans hbarred.drivers_eq) (by simp)

/-- An event that is not stale finds a command that has been started, and that is no
worse for it. -/
theorem Phase.Holds.raised (h : phase.Holds c) (hnested : Nested c)
    (hloop : c.control.inLoop = false)
    (hstarted : ¬ (c.burrow.state = .idle ∨ c.burrow.state = .start ∧ .commandFn ∉ c.stack))
    (drivers_eq : drivers c'.stack = drivers c.stack) (state' : c'.burrow.state = .ready) :
    phase.Holds c' := by
  cases phase with
  | idle => exact absurd (Or.inl h.1) hstarted
  | issued call =>
      exact absurd (Or.inr ⟨h.1, h.2.1.notMem rfl⟩) hstarted
  | running call cmd waits => exact ⟨h.1, drivers_eq.trans h.2.1, Or.inr state'⟩
  | blocked call cmd waits => exact ⟨h.1, h.2.1.congr drivers_eq, Or.inr (Or.inl state')⟩
  | answered call cmd waits code => exact absurd (hnested.finish h.2.2) (by simp [hloop])

/-- Only an idle front end is idle. -/
theorem Phase.Holds.eq_idle (h : phase.Holds c) (hstate : c.burrow.state = .idle) :
    phase = .idle := by
  cases phase with
  | idle => rfl
  | issued call => exact absurd (hstate.symm.trans h.1) (by simp)
  | running call cmd waits =>
      rcases h.2.2 with hs | hs
      · exact absurd (hstate.symm.trans hs) (by simp)
      · exact absurd (hstate.symm.trans hs) (by simp)
  | blocked call cmd waits =>
      rcases h.2.2 with hs | hs | ⟨hs, -⟩
      · exact absurd (hstate.symm.trans hs) (by simp)
      · exact absurd (hstate.symm.trans hs) (by simp)
      · exact absurd (hstate.symm.trans hs) (by simp)
  | answered call cmd waits code => exact absurd (hstate.symm.trans h.2.2) (by simp)

/-- In the loop, a command that is to be started has been issued. -/
theorem Phase.Holds.eq_issued (h : phase.Holds c) (hnested : Nested c)
    (hloop : c.control.inLoop = true) (hstate : c.burrow.state = .start) :
    ∃ call, phase = .issued call := by
  have hnil := (hnested.loop hloop).1
  cases phase with
  | idle => exact absurd (h.1.symm.trans hstate) (by simp)
  | issued call => exact ⟨call, rfl⟩
  | running call cmd waits => exact absurd (hnil.symm.trans h.2.1) (by simp)
  | blocked call cmd waits =>
      rcases h.2.2 with hs | hs | ⟨-, hbarred⟩
      · exact absurd (hs.symm.trans hstate) (by simp)
      · exact absurd (hs.symm.trans hstate) (by simp)
      · exact absurd hbarred.control (by simp [hloop])
  | answered call cmd waits code => exact absurd (h.2.2.symm.trans hstate) (by simp)

/-- In the loop, a command that is to be resumed has answered `EAGAIN`. -/
theorem Phase.Holds.eq_blocked (h : phase.Holds c) (hnested : Nested c)
    (hloop : c.control.inLoop = true) (hstate : c.burrow.state = .ready) :
    ∃ call cmd waits, phase = .blocked call cmd waits := by
  have hnil := (hnested.loop hloop).1
  cases phase with
  | idle => exact absurd (h.1.symm.trans hstate) (by simp)
  | issued call => exact absurd (h.1.symm.trans hstate) (by simp)
  | running call cmd waits => exact absurd (hnil.symm.trans h.2.1) (by simp)
  | blocked call cmd waits => exact ⟨call, cmd, waits, rfl⟩
  | answered call cmd waits code => exact absurd (h.2.2.symm.trans hstate) (by simp)

theorem Phase.Holds.eq_answered (h : phase.Holds c) (hstate : c.burrow.state = .finish) :
    ∃ call cmd waits code, phase = .answered call cmd waits code := by
  cases phase with
  | idle => exact absurd (h.1.symm.trans hstate) (by simp)
  | issued call => exact absurd (h.1.symm.trans hstate) (by simp)
  | running call cmd waits =>
      rcases h.2.2 with hs | hs
      · exact absurd (hs.symm.trans hstate) (by simp)
      · exact absurd (hs.symm.trans hstate) (by simp)
  | blocked call cmd waits =>
      rcases h.2.2 with hs | hs | ⟨hs, -⟩
      · exact absurd (hs.symm.trans hstate) (by simp)
      · exact absurd (hs.symm.trans hstate) (by simp)
      · exact absurd (hs.symm.trans hstate) (by simp)
  | answered call cmd waits code => exact ⟨call, cmd, waits, code, rfl⟩

/-- Where a function of the backend works on the command, it is running. -/
theorem Phase.Holds.eq_running (h : phase.Holds c) (hnested : Nested c)
    (hloop : c.control.inLoop = false) {frame : Frame} (hworks : frame.works = true)
    (hdrivers : drivers c.stack = [frame]) :
    ∃ call cmd waits, phase = .running call cmd waits ∧ frame = worker waits := by
  have hattended : ¬ Unattended c := by
    intro hun
    have hno := hun frame (hdrivers ▸ List.mem_singleton_self _)
    exact absurd hworks (by simp [hno])
  cases phase with
  | idle => exact absurd h.2 hattended
  | issued call => exact absurd h.2.1 hattended
  | running call cmd waits =>
      have hframe := hdrivers.symm.trans h.2.1
      exact ⟨call, cmd, waits, rfl, List.singleton_inj.1 hframe⟩
  | blocked call cmd waits => exact absurd h.2.1 hattended
  | answered call cmd waits code => exact absurd (hnested.finish h.2.2) (by simp [hloop])

/-- A phase that lasts shows nothing new. -/
theorem Followed.quiet (h : Followed trace c rounds phase) (hholds : phase.Holds c') :
    ∃ rounds' phase', Followed (trace ++ []) c' rounds' phase' :=
  ⟨rounds, phase, h.rounds_ok, by rw [List.append_nil]; exact h.trace_eq, hholds⟩

/-- The round goes on to its next phase. -/
theorem Followed.next (h : Followed trace c rounds phase) {phase' : Phase}
    (hevents : phase'.events = phase.events ++ shown) (hholds : phase'.Holds c') :
    ∃ rounds' phase', Followed (trace ++ shown) c' rounds' phase' := by
  refine ⟨rounds, phase', h.rounds_ok, ?_, hholds⟩
  rw [h.trace_eq, hevents, List.append_assoc]

/-- The round ends. -/
theorem Followed.complete {call : Call} {cmd : FrontCommand} {waits : Nat} {code : Int}
    (h : Followed trace c rounds (.answered call cmd waits code)) (called : Bool)
    (hstate : c'.burrow.state = .idle) (hun : Unattended c') :
    ∃ rounds' phase', Followed (trace ++ [.completes called]) c' rounds' phase' := by
  let r : Round := { call := call, cmd := cmd, waits := waits, code := code, called := called }
  refine ⟨rounds ++ [r], .idle, ?_, ?_, hstate, hun⟩
  · intro r' hr'
    rcases List.mem_append.1 hr' with hr' | hr'
    · exact h.rounds_ok r' hr'
    · rw [List.mem_singleton.1 hr']
      exact ⟨h.holds.1, h.holds.2.1⟩
  · rw [h.trace_eq, List.flatMap_append, List.flatMap_singleton]
    simp [Phase.events, Round.events, r]

/-- The function that works on the command answers. -/
theorem Followed.answers (h : Followed trace c rounds phase) (hnested : Nested c) {code : Int}
    {frame : Frame} (hloop : c.control.inLoop = false) (hworks : frame.works = true)
    (hstack : c.stack = frame :: c'.stack)
    (state' : c'.burrow.state = if code = EAGAIN then .waiting else .finish) :
    ∃ rounds' phase', Followed (trace ++ [.answers code]) c' rounds' phase' := by
  have hdrives := drives_of_works hworks
  have hnil := (hnested.pop hloop hdrives hstack).1
  have hdrivers : drivers c.stack = [frame] := by
    rw [hstack, drivers_cons_of_drives hdrives, hnil]
  obtain ⟨call, cmd, waits, rfl, -⟩ := h.holds.eq_running hnested hloop hworks hdrivers
  by_cases hcode : code = EAGAIN
  · rw [if_pos hcode] at state'
    subst hcode
    have hphase : (Phase.blocked call cmd waits).Holds c' :=
      ⟨h.holds.1, unattended_of_nil hnil, Or.inl state'⟩
    exact h.next rfl hphase
  · rw [if_neg hcode] at state'
    have hphase : (Phase.answered call cmd waits code).Holds c' := ⟨h.holds.1, hcode, state'⟩
    exact h.next rfl hphase

/-- The command function answers `EAGAIN`, and nothing can go on with it. -/
theorem Followed.aborts (h : Followed trace c rounds phase) (hnested : Nested c)
    {rest : List Frame} (hloop : c.control.inLoop = false) (hloop' : c'.control.inLoop = false)
    (hstack : c.stack = .commandFn :: rest) (hstack' : c'.stack = .unexpectedEagain :: rest)
    (same : Same c c') :
    ∃ rounds' phase', Followed (trace ++ [.answers EAGAIN]) c' rounds' phase' := by
  obtain ⟨hnil, hmark⟩ := hnested.pop hloop rfl hstack
  have hdrivers : drivers c.stack = [.commandFn] := by
    rw [hstack, drivers_cons_of_drives rfl, hnil]
  have hdrivers' : drivers c'.stack = [] := by rw [hstack', drivers_cons_of_not rfl, hnil]
  obtain ⟨call, cmd, waits, rfl, -⟩ := h.holds.eq_running hnested hloop rfl hdrivers
  -- `burrow_process` returns past the end of its loop, so that the mark stays
  have hbarred : Barred c' := ⟨hloop', hdrivers', same.processing_eq.trans hmark⟩
  have hphase : (Phase.blocked call cmd waits).Holds c' := by
    refine ⟨h.holds.1, unattended_of_nil hdrivers', Or.inr ?_⟩
    rw [same.state_eq]
    exact h.holds.2.2.symm.imp_right fun hs => ⟨hs, hbarred⟩
  exact h.next rfl hphase

/-- **One step keeps a trace in rounds**, unless a stale event is raised. -/
theorem Followed.step (hnested : Nested c) (hstale : ¬ Stale label c)
    (h : Followed trace c rounds phase) (hdrive : Drive label c c' shown) :
    ∃ rounds' phase', Followed (trace ++ shown) c' rounds' phase' := by
  have hnil : c.control.inLoop = true → drivers c.stack = [] := fun hloop =>
    (hnested.loop hloop).1
  cases hdrive with
  | quiet control control' drivers_eq same =>
      apply h.quiet
      exact h.holds.outside control' drivers_eq same.state_eq (Or.inl same.cmd_eq)
        same.processing_eq
  | cancels control control' drivers_eq state_eq cmd' processing_eq _ =>
      -- the command stays in its phase, but its function can be called no more
      have hlost : c'.burrow.cmd.commandFn = none := by rw [cmd']
      apply h.quiet
      exact h.holds.outside control' drivers_eq state_eq (Or.inr hlost) processing_eq
  | @accepts call _ control control' stack_eq state state' carried _ _ =>
      obtain rfl := h.holds.eq_idle state
      have hun : Unattended c' := h.holds.2.congr (by rw [stack_eq])
      have hphase : (Phase.issued call).Holds c' := ⟨state', hun, Or.inr carried⟩
      exact h.next rfl hphase
  | raises label_eq control control' stack_eq state' cmd_eq processing_eq =>
      have hloop : c.control.inLoop = false := by rw [control]; rfl
      have hdrivers : drivers c'.stack = drivers c.stack := by
        rw [stack_eq, drivers_cons_of_not rfl]
      apply h.quiet
      apply h.holds.raised hnested hloop ?_ hdrivers state'
      intro hstarted
      exact hstale ⟨by rw [label_eq]; rfl, control, by rw [stack_eq]; rfl, hstarted⟩
  | starts control control' stack_eq state commandFn same =>
      obtain ⟨call, rfl⟩ := h.holds.eq_issued hnested control state
      have hcarried := h.holds.2.2.resolve_left commandFn
      have hphase : (Phase.running call c.burrow.cmd 0).Holds c' := by
        refine ⟨hcarried, ?_, Or.inl (same.state_eq.trans state)⟩
        rw [stack_eq, drivers_cons_of_drives rfl, hnil control]
        rfl
      exact h.next rfl hphase
  -- a blocked command is taken up again, as one more wait of its round
  | resumes control control' stack_eq state _ same =>
      obtain ⟨call, cmd, waits, rfl⟩ := h.holds.eq_blocked hnested control state
      have hphase : (Phase.running call cmd (waits + 1)).Holds c' := by
        refine ⟨h.holds.1, ?_, Or.inr (same.state_eq.trans state)⟩
        rw [stack_eq, drivers_cons_of_drives rfl, hnil control]
        rfl
      exact h.next (by simp [Phase.events, waitEvents]) hphase
  | answers control control' works stack_eq state' _ _ _ =>
      exact h.answers hnested control works stack_eq state'
  | aborts control control' stack_eq stack_eq' same _ _ =>
      exact h.aborts hnested (by rw [control]; rfl) (by rw [control']; rfl) stack_eq stack_eq' same
  | completes control control' stack_eq state state' _ _ =>
      obtain ⟨call, cmd, waits, code, rfl⟩ := h.holds.eq_answered state
      exact h.complete _ state' (unattended_of_push rfl rfl (hnil control) stack_eq)
  | passes control control' stack_eq state state' _ _ =>
      obtain ⟨call, cmd, waits, code, rfl⟩ := h.holds.eq_answered state
      apply h.complete _ state'
      apply unattended_of_nil
      rw [stack_eq]
      exact hnil control
  | reenters control control' drives works stack_eq same =>
      apply h.quiet
      exact h.holds.returned hnested control drives works stack_eq same
  | enters control control' stack_eq processing processing' state_eq cmd_eq =>
      have hdrivers : drivers c'.stack = drivers c.stack := by rw [stack_eq]
      apply h.quiet
      apply h.holds.mono state_eq (Or.inl cmd_eq)
      · intro waits hworker
        exact hdrivers.trans hworker
      · intro hun
        exact hun.congr hdrivers
      · intro hbarred
        exact absurd hbarred.processing (by simp [processing])
  | leaves control control' stack_eq state processing' state_eq cmd_eq =>
      have hloop : c.control.inLoop = true := by rw [control]; rfl
      have hdrivers : drivers c'.stack = [] := by rw [stack_eq, hnil hloop]
      apply h.quiet
      exact h.holds.inside hnested hloop state_eq cmd_eq (unattended_of_nil hdrivers)
  | blocks control control' stack_eq state same =>
      have hdrivers : drivers c'.stack = [] := by rw [stack_eq, hnil control]
      apply h.quiet
      exact h.holds.inside hnested control same.state_eq same.cmd_eq (unattended_of_nil hdrivers)
  | polls control control' stack_eq state same =>
      apply h.quiet
      exact h.holds.inside hnested control same.state_eq same.cmd_eq
        (unattended_of_push rfl rfl (hnil control) stack_eq)
  | fails control code_ne control' stack_eq same =>
      apply h.quiet
      exact h.holds.returned hnested (by rw [control]; rfl) rfl rfl stack_eq same

end Steps

/-! ## Counting -/

def Event.isAccepts : Event → Bool
  | .accepts _ => true
  | _ => false

def Event.isCompletes : Event → Bool
  | .completes _ => true
  | _ => false

theorem countP_waitEvents {p : Event → Bool} (hagain : p (.answers EAGAIN) = false)
    (hresumes : p .resumes = false) (n : Nat) : (waitEvents n).countP p = 0 := by
  induction n with
  | zero => rfl
  | succ n ih =>
      rw [waitEvents, List.countP_append, ih]
      simp [hagain, hresumes]

theorem Round.countP_events (r : Round) :
    r.events.countP Event.isCompletes = 1 ∧ r.events.countP Event.isAccepts = 1 := by
  unfold Round.events
  rw [List.countP_append, List.countP_append, List.countP_append, List.countP_append,
    countP_waitEvents rfl rfl, countP_waitEvents rfl rfl]
  exact ⟨rfl, rfl⟩

theorem countP_rounds (rounds : List Round) :
    (rounds.flatMap Round.events).countP Event.isCompletes = rounds.length ∧
      (rounds.flatMap Round.events).countP Event.isAccepts = rounds.length := by
  induction rounds with
  | nil => exact ⟨rfl, rfl⟩
  | cons r rest ih =>
      obtain ⟨hcompletes, haccepts⟩ := r.countP_events
      rw [List.flatMap_cons, List.countP_append, List.countP_append, ih.1, ih.2, hcompletes,
        haccepts, List.length_cons]
      exact ⟨Nat.add_comm _ _, Nat.add_comm _ _⟩

theorem Phase.countP_completes (phase : Phase) : phase.events.countP Event.isCompletes = 0 := by
  cases phase with
  | idle => rfl
  | issued call => rfl
  | running call cmd waits =>
      rw [Phase.events, List.countP_append, countP_waitEvents rfl rfl]
      rfl
  | blocked call cmd waits =>
      rw [Phase.events, List.countP_append, List.countP_append, countP_waitEvents rfl rfl]
      rfl
  | answered call cmd waits code =>
      rw [Phase.events, List.countP_append, List.countP_append, countP_waitEvents rfl rfl]
      rfl

/-! ## Runs -/

/-- A new front end, with nothing seen of it. -/
theorem followed_create (memory : FrontCommand) (selfallocated : Bool) (backend : BackendFunctions)
    (watchFdFn : Bool) :
    Followed [] (Config.create memory selfallocated backend watchFdFn) [] .idle := by
  refine ⟨fun r hr => absurd hr List.not_mem_nil, rfl, ?_, ?_⟩
  · cases watchFdFn with
    | true => rfl
    | false => rfl
  · exact unattended_of_nil rfl

/-- Every run keeps at most one loop, and without stale events its trace in rounds. -/
theorem followed_of_run {memory : FrontCommand} {selfallocated : Bool} {backend : BackendFunctions}
    {watchFdFn : Bool} {labels : List Label} {c : Config}
    (hrun : Machine.run frontStep labels (Config.create memory selfallocated backend watchFdFn) =
      .ok c)
    (hstale : Machine.Along frontStep (fun label c => ¬ Stale label c) labels
      (Config.create memory selfallocated backend watchFdFn)) :
    Nested c ∧ ∃ rounds phase, Followed (Machine.trace frontStep events labels
      (Config.create memory selfallocated backend watchFdFn)) c rounds phase := by
  have hinv := Machine.trace_invariant frontStep events
    (I := fun trace c => Nested c ∧ ∃ rounds phase, Followed trace c rounds phase)
    (fun trace label s s' hlabel hI hstep => by
      obtain ⟨hnested, rounds, phase, hfollowed⟩ := hI
      have hdrive := drive_of_step hstep
      exact ⟨hnested.drive hdrive, hfollowed.step hnested hlabel hdrive⟩)
    hstale ⟨nested_create memory selfallocated backend watchFdFn, [], .idle,
      followed_create memory selfallocated backend watchFdFn⟩ hrun
  rw [List.nil_append] at hinv
  exact hinv

/-- **No command is skipped or completed twice.** Without stale events every run goes
through its commands in rounds: the process function is called only when the pending
command has been started once and has last answered `EAGAIN`, a command is completed
only after one call of its command function, and there are no more completions than
accepted commands. -/
theorem no_command_skipped (memory : FrontCommand) (selfallocated : Bool)
    (backend : BackendFunctions) (watchFdFn : Bool) {labels : List Label} {c : Config}
    (hrun : Machine.run frontStep labels (Config.create memory selfallocated backend watchFdFn) =
      .ok c)
    (hstale : Machine.Along frontStep (fun label c => ¬ Stale label c) labels
      (Config.create memory selfallocated backend watchFdFn)) :
    let trace := Machine.trace frontStep events labels
      (Config.create memory selfallocated backend watchFdFn)
    (∃ rounds phase, Followed trace c rounds phase) ∧
    (∀ label c', frontStep label c = .ok c' → .resumes ∈ events label c →
      ∃ rounds call cmd waits, Followed trace c rounds (.blocked call cmd waits)) ∧
    (∀ label c' called, frontStep label c = .ok c' → .completes called ∈ events label c →
      ∃ rounds call cmd waits code, Followed trace c rounds (.answered call cmd waits code)) ∧
    trace.countP Event.isCompletes ≤ trace.countP Event.isAccepts := by
  intro trace
  obtain ⟨hnested, rounds, phase, hfollowed⟩ := followed_of_run hrun hstale
  refine ⟨⟨rounds, phase, hfollowed⟩, ?_, ?_, ?_⟩
  · intro label c' hstep hresumes
    have hdrive := drive_of_step hstep
    cases hshown : events label c with
    | nil => exact absurd hresumes (by simp [hshown])
    | cons event rest =>
        rw [hshown] at hdrive hresumes
        cases hdrive with
        | resumes control _ _ state _ _ =>
            obtain ⟨call, cmd, waits, rfl⟩ := hfollowed.holds.eq_blocked hnested control state
            exact ⟨rounds, call, cmd, waits, hfollowed⟩
        | _ => exact absurd hresumes (by simp)
  · intro label c' called hstep hcompletes
    have hdrive := drive_of_step hstep
    cases hshown : events label c with
    | nil => exact absurd hcompletes (by simp [hshown])
    | cons event rest =>
        rw [hshown] at hdrive hcompletes
        cases hdrive with
        | completes _ _ _ state _ _ _ =>
            obtain ⟨call, cmd, waits, code, rfl⟩ := hfollowed.holds.eq_answered state
            exact ⟨rounds, call, cmd, waits, code, hfollowed⟩
        | passes _ _ _ state _ _ _ =>
            obtain ⟨call, cmd, waits, code, rfl⟩ := hfollowed.holds.eq_answered state
            exact ⟨rounds, call, cmd, waits, code, hfollowed⟩
        | _ => exact absurd hcompletes (by simp)
  -- every round that is over was accepted once and completed at most once
  · show trace.countP Event.isCompletes ≤ trace.countP Event.isAccepts
    obtain ⟨hcompletes, haccepts⟩ := countP_rounds rounds
    have htrace : trace = rounds.flatMap Round.events ++ phase.events := hfollowed.trace_eq
    rw [htrace, List.countP_append, List.countP_append, hcompletes, haccepts,
      phase.countP_completes]
    exact Nat.le_add_right _ _

/-- The library waits for a descriptor of a command, which is raised. -/
def pollingRun : List Label :=
  [.issue (.getAccounts none), .tau, .process, .tau, .tau, .watchFd 3 ⟨true, false⟩ .moves,
    .returns EAGAIN, .tau, .tau, .pollRaised fun _ => pollin, .tau, .tau, .returns 0,
    .tau, .tau, .tau, .tau, .returns 0, .tau, .tau, .tau]

theorem no_command_skipped_pollingRun :
    (Machine.trace frontStep events pollingRun
        (Config.create default true waitingBackend false)).countP Event.isCompletes ≤
      (Machine.trace frontStep events pollingRun
        (Config.create default true waitingBackend false)).countP Event.isAccepts :=
  (@no_command_skipped default true waitingBackend false pollingRun _ rfl (by decide)).2.2.2

/-- The user sees a descriptor raised after its command has completed, and when the
next command has been issued. -/
def staleRun : List Label :=
  [.issue (.getAccounts none), .tau, .process, .tau, .tau, .watchFd 3 ⟨true, false⟩ .fails,
    .returns 0, .returns 0, .tau, .tau, .tau, .issue (.getQueues (some "a") none), .tau,
    .eventRaised 3 ⟨true, false⟩, .tau, .returns 0, .tau, .process, .tau, .tau]

/-- After a stale event the process function is called for a command that has not
been started. -/
theorem resumed_unstarted :
    ∃ c, Machine.run frontStep staleRun (Config.create default true waitingBackend true) = .ok c ∧
      c.stack = [.processFn] ∧
      Machine.trace frontStep events staleRun (Config.create default true waitingBackend true) =
        [.accepts (.getAccounts none),
          .starts { (default : FrontCommand) with
            command := some .getAccounts
            commandFn := some .getAccounts },
          .answers 0, .completes false, .accepts (.getQueues (some "a") none), .resumes] :=
  ⟨_, rfl, rfl, by decide⟩

end Burrow.Frontend
