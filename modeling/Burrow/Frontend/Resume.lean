import Burrow.Frontend.Steps

/-!
# Resuming `burrow_process`

`burrow_process` marks the structure while it runs, so that a call from inside it
returns at once. When it returns because the backend waits for descriptors that
the user watches, the mark stays: `Jammed` is what every later configuration of
the run has in common, `Smooth` what holds as long as no function of the backend
has returned `EAGAIN`. `resumable_iff` puts the two together.
-/

set_option autoImplicit false

namespace Burrow.Frontend

/-! ## Active calls of `burrow_process` -/

/-- The frame is a call of `burrow_process`. -/
def Frame.isProcess : Frame → Bool
  | .commandFn | .processFn | .completeFn _ | .pollFds | .unexpectedEagain => true
  | _ => false

/-- `burrow_process` on its way to `return EINVAL`. -/
def Frame.isUnexpectedEagain : Frame → Bool
  | .unexpectedEagain => true
  | _ => false

/-- The frame belongs to `burrow_internal_poll_fds`. -/
def Frame.isPoll : Frame → Bool
  | .pollFds | .pollEvent _ _ _ => true
  | _ => false

/-- The calls of `burrow_process` on the stack. -/
def depth : List Frame → Nat
  | [] => 0
  | frame :: rest => depth rest + if frame.isProcess then 1 else 0

/-- The calls of `burrow_process` on the stack that are about to return `EINVAL`. -/
def aborting : List Frame → Nat
  | [] => 0
  | frame :: rest => aborting rest + if frame.isUnexpectedEagain then 1 else 0

/-- The execution is in the loop of `burrow_process`. -/
def Control.inLoop : Control → Bool
  | .loop _ => true
  | _ => false

/-- The execution is in `burrow_internal_poll_fds`. -/
def Control.inPoll : Control → Bool
  | .pollFds | .poll | .pollLoop _ _ => true
  | _ => false

/-- Some call of `burrow_process` has not returned. -/
def Config.Active (c : Config) : Prop := c.control.inLoop = true ∨ depth c.stack ≠ 0

/-- The label leaves the `watch_fd` callback in place. -/
def Label.keepsWatch : Label → Bool
  | .setWatchFdFn set => set
  | _ => true

/-- A command function or the process function of the backend returns `EAGAIN`. -/
def AnswersEagain (label : Label) (c : Config) : Prop :=
  c.control = .environment ∧ label = .returns EAGAIN ∧
    (c.stack.head? = some .commandFn ∨ c.stack.head? = some .processFn)

instance (c : Config) : Decidable c.Active := inferInstanceAs (Decidable (_ ∨ _))

theorem aborting_le_depth (stack : List Frame) : aborting stack ≤ depth stack := by
  induction stack with
  | nil => exact Nat.le_refl _
  | cons frame rest ih =>
      refine Nat.add_le_add ih ?_
      cases frame with
      | unexpectedEagain => exact Nat.le_refl _
      | _ => exact Nat.zero_le _

/-! ## Descriptors watched by the user -/

/-- The user watches the descriptors, and so the library polls none. -/
structure Watched (c : Config) : Prop where
  watchFdFn : c.burrow.watchFdFn = true
  watchSize : c.burrow.watchSize = 0
  control : c.control.inPoll = false
  stack : ∀ frame ∈ c.stack, frame.isPoll = false

theorem watched_create (memory : FrontCommand) (selfallocated : Bool)
    (backend : BackendFunctions) :
    Watched (Config.create memory selfallocated backend true) :=
  ⟨rfl, rfl, rfl, fun _ hframe => absurd hframe List.not_mem_nil⟩

namespace Watched

variable {c : Config} (h : Watched c)
include h

theorem push {frame : Frame} (hframe : frame.isPoll = false) :
    ∀ f ∈ frame :: c.stack, f.isPoll = false := by
  intro f hf
  rcases List.mem_cons.1 hf with rfl | hf
  · exact hframe
  · exact h.stack f hf

theorem pop {frame : Frame} {rest : List Frame} (hstack : c.stack = frame :: rest) :
    ∀ f ∈ rest, f.isPoll = false := by
  intro f hf
  exact h.stack f (hstack ▸ List.mem_cons_of_mem _ hf)

theorem replace {frame frame' : Frame} {rest : List Frame} (hstack : c.stack = frame :: rest)
    (hframe' : frame'.isPoll = false) : ∀ f ∈ frame' :: rest, f.isPoll = false := by
  intro f hf
  rcases List.mem_cons.1 hf with rfl | hf
  · exact hframe'
  · exact h.pop hstack f hf

end Watched

/-! ## What a step does -/

/-- **What a step can do** to the calls of `burrow_process` and to what they depend
on. -/
inductive Move (label : Label) (c c' : Config) : Prop
  /-- nothing -/
  | within (control : c.control.inLoop = false) (control' : c'.control.inLoop = false)
      (depth_eq : depth c'.stack = depth c.stack)
      (aborting_eq : aborting c'.stack = aborting c.stack)
      (processing_eq : c'.burrow.flags.processing = c.burrow.flags.processing)
      (state : c'.burrow.state = .waiting → c.burrow.state = .waiting)
      (answer : ¬ AnswersEagain label c)
  /-- a call enters the loop and marks the structure -/
  | enters (control : c.control.inLoop = false) (control' : c'.control.inLoop = true)
      (stack_eq : c'.stack = c.stack) (processing : c.burrow.flags.processing = false)
      (processing' : c'.burrow.flags.processing = true)
      (state_eq : c'.burrow.state = c.burrow.state)
      (tau : label = .tau)
  /-- the loop calls the backend or the user -/
  | suspends (control : c.control.inLoop = true) (control' : c'.control.inLoop = false)
      (depth_eq : depth c'.stack = depth c.stack + 1)
      (aborting_eq : aborting c'.stack = aborting c.stack)
      (processing_eq : c'.burrow.flags.processing = c.burrow.flags.processing)
      (state : c.burrow.state ≠ .waiting) (state' : c'.burrow.state ≠ .waiting)
  /-- the loop goes on after a call -/
  | resumes (control : c.control.inLoop = false) (control' : c'.control.inLoop = true)
      (depth_eq : depth c.stack = depth c'.stack + 1)
      (aborting_eq : aborting c'.stack = aborting c.stack)
      (processing_eq : c'.burrow.flags.processing = c.burrow.flags.processing)
      (state : c'.burrow.state = .waiting → c.burrow.state = .waiting)
      (answer : ¬ AnswersEagain label c)
  /-- another round of the loop -/
  | turns (control : c.control.inLoop = true) (control' : c'.control.inLoop = true)
      (stack_eq : c'.stack = c.stack)
      (processing_eq : c'.burrow.flags.processing = c.burrow.flags.processing)
      (state : c.burrow.state ≠ .waiting) (state' : c'.burrow.state ≠ .waiting)
  /-- the loop ends and clears the mark -/
  | finishes (control : c.control.inLoop = true) (control' : c'.control.inLoop = false)
      (stack_eq : c'.stack = c.stack)
      (processing_eq : c'.burrow.flags.processing = !c.burrow.flags.processing)
      (state : c.burrow.state = .idle) (state' : c'.burrow.state = .idle)
  /-- the loop ends because the backend waits -/
  | blocks (control : c.control.inLoop = true) (control' : c'.control.inLoop = false)
      (stack_eq : c'.stack = c.stack)
      (processing_eq : c'.burrow.flags.processing = c.burrow.flags.processing)
      (state : c.burrow.state = .waiting)
  /-- `EAGAIN` from a backend with a process function -/
  | waits (control : c.control.inLoop = false) (control' : c'.control.inLoop = true)
      (depth_eq : depth c.stack = depth c'.stack + 1)
      (aborting_eq : aborting c'.stack = aborting c.stack)
      (processing_eq : c'.burrow.flags.processing = c.burrow.flags.processing)
      (state' : c'.burrow.state = .waiting) (answer : AnswersEagain label c)
  /-- `EAGAIN` from a backend without one -/
  | aborts (control : c.control.inLoop = false) (control' : c'.control.inLoop = false)
      (depth_pos : depth c.stack ≠ 0) (depth_eq : depth c'.stack = depth c.stack)
      (aborting_eq : aborting c'.stack = aborting c.stack + 1)
      (processing_eq : c'.burrow.flags.processing = c.burrow.flags.processing)
      (answer : AnswersEagain label c)
  /-- a call returns `EINVAL` after that -/
  | leaves (control : c.control.inLoop = false) (control' : c'.control.inLoop = false)
      (depth_eq : depth c.stack = depth c'.stack + 1)
      (aborting_eq : aborting c.stack = aborting c'.stack + 1)
      (processing_eq : c'.burrow.flags.processing = c.burrow.flags.processing)
      (state_eq : c'.burrow.state = c.burrow.state) (tau : label = .tau)

section Moves

variable {label : Label} {c c' : Config}

theorem not_answersEagain_of_ne (h : label ≠ .returns EAGAIN) : ¬ AnswersEagain label c :=
  fun hanswer => h hanswer.2.1

/-- Only the command functions and the process function count. -/
theorem not_answersEagain_of_head {frame : Frame} {rest : List Frame}
    (hstack : c.stack = frame :: rest) (hcommand : frame ≠ .commandFn)
    (hprocess : frame ≠ .processFn) : ¬ AnswersEagain label c := by
  rintro ⟨-, -, htop | htop⟩
  · rw [hstack, List.head?_cons, Option.some.injEq] at htop
    exact hcommand htop
  · rw [hstack, List.head?_cons, Option.some.injEq] at htop
    exact hprocess htop

/-- What a step of the library does. -/
theorem move_tau (h : Watched c) (htau : Tau c c') : Move .tau c c' ∧ Watched c' := by
  have hanswer : ¬ AnswersEagain .tau c := not_answersEagain_of_ne (by simp)
  have hpoll := h.control
  have hstack := h.stack
  -- without a watched descriptor the loop never polls, so no frame of a poll is there
  cases htau with
  | pollFailed _ => exact absurd (hstack .pollFds List.mem_cons_self) (by decide)
  | polled => exact absurd (hstack .pollFds List.mem_cons_self) (by decide)
  | dispatched =>
      exact absurd (hstack (.pollEvent _ _ _) List.mem_cons_self) (by simp [Frame.isPoll])
  | pollsNone _ => exact absurd hpoll (by simp [Control.inPoll])
  | pollsSome _ => exact absurd hpoll (by simp [Control.inPoll])
  | dispatches _ _ _ => exact absurd hpoll (by simp [Control.inPoll])
  | skips _ _ => exact absurd hpoll (by simp [Control.inPoll])
  | ends _ => exact absurd hpoll (by simp [Control.inPoll])
  | aborted =>
      exact ⟨.leaves rfl rfl rfl rfl rfl rfl rfl, ⟨h.watchFdFn, h.watchSize, rfl, h.pop rfl⟩⟩
  | cancelled =>
      exact ⟨.within rfl rfl rfl rfl rfl id hanswer, ⟨h.watchFdFn, h.watchSize, rfl, h.pop rfl⟩⟩
  | enters processing =>
      exact ⟨.enters rfl rfl rfl processing rfl rfl rfl, ⟨h.watchFdFn, h.watchSize, rfl, hstack⟩⟩
  | leaves state =>
      exact ⟨.finishes rfl rfl rfl rfl state state, ⟨h.watchFdFn, h.watchSize, rfl, hstack⟩⟩
  | starts state _ =>
      refine ⟨.suspends rfl rfl rfl rfl rfl ?_ ?_, ⟨h.watchFdFn, h.watchSize, rfl, h.push rfl⟩⟩
      · simp [state]
      · simp [state]
  | resumes state _ =>
      refine ⟨.suspends rfl rfl rfl rfl rfl ?_ ?_, ⟨h.watchFdFn, h.watchSize, rfl, h.push rfl⟩⟩
      · simp [state]
      · simp [state]
  | blocks state _ =>
      exact ⟨.blocks rfl rfl rfl rfl state, ⟨h.watchFdFn, h.watchSize, rfl, hstack⟩⟩
  | polls _ watchSize_ne => exact absurd h.watchSize watchSize_ne
  | completes state _ =>
      refine ⟨.suspends rfl rfl rfl rfl rfl ?_ ?_, ⟨h.watchFdFn, h.watchSize, rfl, h.push rfl⟩⟩
      · simp [state]
      · simp
  | passes state _ =>
      refine ⟨.turns rfl rfl rfl rfl ?_ ?_, ⟨h.watchFdFn, h.watchSize, rfl, hstack⟩⟩
      · simp [state]
      · simp
  | raises _ =>
      exact ⟨.within rfl rfl rfl rfl rfl id hanswer, ⟨h.watchFdFn, h.watchSize, rfl, h.push rfl⟩⟩
  | cancels _ _ =>
      exact ⟨.within rfl rfl rfl rfl rfl id hanswer, ⟨h.watchFdFn, rfl, rfl, h.push rfl⟩⟩
  | clears _ _ =>
      exact ⟨.within rfl rfl rfl rfl rfl id hanswer, ⟨h.watchFdFn, rfl, rfl, hstack⟩⟩
  | returned _ =>
      exact ⟨.within rfl rfl rfl rfl rfl id hanswer, ⟨h.watchFdFn, h.watchSize, rfl, hstack⟩⟩
  | busy _ =>
      exact ⟨.within rfl rfl rfl rfl rfl id hanswer, ⟨h.watchFdFn, h.watchSize, rfl, hstack⟩⟩
  | unconnected _ =>
      exact ⟨.within rfl rfl rfl rfl rfl id hanswer, ⟨h.watchFdFn, h.watchSize, rfl, hstack⟩⟩
  | spares _ =>
      exact ⟨.within rfl rfl rfl rfl rfl id hanswer, ⟨h.watchFdFn, h.watchSize, rfl, hstack⟩⟩

/-- What a return of the user's or the backend's code does. -/
theorem move_returned (h : Watched c) {code : Int} (hreturned : Returned code c c') :
    Move (.returns code) c c' ∧ Watched c' := by
  have hother : ∀ frame rest, c.stack = frame :: rest → frame ≠ .commandFn → frame ≠ .processFn →
      ¬ AnswersEagain (.returns code) c := fun _ _ => not_answersEagain_of_head
  have hfinal : code ≠ EAGAIN → ¬ AnswersEagain (.returns code) c := fun hcode =>
    not_answersEagain_of_ne (by simpa using hcode)
  cases hreturned with
  | callback =>
      have hanswer := hother _ _ rfl (by simp) (by simp)
      exact ⟨.within rfl rfl rfl rfl rfl id hanswer, ⟨h.watchFdFn, h.watchSize, rfl, h.pop rfl⟩⟩
  | commandWaits _ =>
      exact ⟨.waits rfl rfl rfl rfl rfl rfl ⟨rfl, rfl, Or.inl rfl⟩,
        ⟨h.watchFdFn, h.watchSize, rfl, h.pop rfl⟩⟩
  | commandAborts _ =>
      exact ⟨.aborts rfl rfl (Nat.succ_ne_zero _) rfl rfl rfl ⟨rfl, rfl, Or.inl rfl⟩,
        ⟨h.watchFdFn, h.watchSize, rfl, h.replace rfl rfl⟩⟩
  | commandFinishes code_ne =>
      have hanswer := hfinal code_ne
      exact ⟨.resumes rfl rfl rfl rfl rfl (by simp) hanswer,
        ⟨h.watchFdFn, h.watchSize, rfl, h.pop rfl⟩⟩
  | processWaits =>
      exact ⟨.waits rfl rfl rfl rfl rfl rfl ⟨rfl, rfl, Or.inr rfl⟩,
        ⟨h.watchFdFn, h.watchSize, rfl, h.pop rfl⟩⟩
  | processFinishes code_ne =>
      have hanswer := hfinal code_ne
      exact ⟨.resumes rfl rfl rfl rfl rfl (by simp) hanswer,
        ⟨h.watchFdFn, h.watchSize, rfl, h.pop rfl⟩⟩
  | completeFn =>
      have hanswer := hother _ _ rfl (by simp) (by simp)
      exact ⟨.resumes rfl rfl rfl rfl rfl id hanswer, ⟨h.watchFdFn, h.watchSize, rfl, h.pop rfl⟩⟩
  | readyProcesses _ =>
      have hanswer := hother _ _ rfl (by simp) (by simp)
      exact ⟨.within rfl rfl rfl rfl rfl (by simp) hanswer,
        ⟨h.watchFdFn, h.watchSize, rfl, h.pop rfl⟩⟩
  | ready _ =>
      have hanswer := hother _ _ rfl (by simp) (by simp)
      exact ⟨.within rfl rfl rfl rfl rfl (by simp) hanswer,
        ⟨h.watchFdFn, h.watchSize, rfl, h.pop rfl⟩⟩
  | eventFails _ =>
      have hanswer := hother _ _ rfl (by simp) (by simp)
      exact ⟨.within rfl rfl rfl rfl rfl id hanswer,
        ⟨h.watchFdFn, h.watchSize, rfl, h.replace rfl rfl⟩⟩
  | eventWaits =>
      have hanswer := hother _ _ rfl (by simp) (by simp)
      exact ⟨.within rfl rfl rfl rfl rfl id hanswer, ⟨h.watchFdFn, h.watchSize, rfl, h.pop rfl⟩⟩
  | cancelFn =>
      have hanswer := hother _ _ rfl (by simp) (by simp)
      exact ⟨.within rfl rfl rfl rfl rfl id hanswer, ⟨h.watchFdFn, h.watchSize, rfl, h.pop rfl⟩⟩

/-- **What a step does** where the user watches the descriptors. -/
theorem move_of_step (h : Watched c) (hlabel : label.keepsWatch = true)
    (hstep : frontStep label c = .ok c') : Move label c c' ∧ Watched c' := by
  have hpoll := h.control
  have hwatchFn := h.watchFdFn
  have hanswer : (∀ code, label ≠ .returns code) → ¬ AnswersEagain label c := fun hno =>
    not_answersEagain_of_ne (hno EAGAIN)
  cases step_of_frontStep hstep with
  | tau htau => exact move_tau h htau
  | returns hreturned => exact move_returned h hreturned
  | pollError | pollTimeout | pollRaised => exact absurd hpoll (by simp [Control.inPoll])
  | accepts _ _ _ =>
      exact ⟨.within rfl rfl rfl rfl rfl (by simp) (hanswer (by simp)),
        ⟨hwatchFn, h.watchSize, rfl, h.stack⟩⟩
  | processes _ _ _ =>
      exact ⟨.within rfl rfl rfl rfl rfl (by simp) (hanswer (by simp)),
        ⟨hwatchFn, h.watchSize, rfl, h.stack⟩⟩
  | setWatchFdFn _ =>
      exact ⟨.within rfl rfl rfl rfl rfl id (hanswer (by simp)),
        ⟨hlabel, h.watchSize, rfl, h.stack⟩⟩
  | callsBack _ =>
      exact ⟨.within rfl rfl rfl rfl rfl id (hanswer (by simp)),
        ⟨hwatchFn, h.watchSize, rfl, h.push rfl⟩⟩
  | callsWatchFd _ _ =>
      exact ⟨.within rfl rfl rfl rfl rfl id (hanswer (by simp)),
        ⟨hwatchFn, h.watchSize, rfl, h.push rfl⟩⟩
  | watchFd _ watchFdFn => exact absurd hwatchFn (by simp [watchFdFn])
  | _ =>
      exact ⟨.within rfl rfl rfl rfl rfl id (hanswer (by simp)),
        ⟨hwatchFn, h.watchSize, rfl, h.stack⟩⟩

/-! ## Before and after an `EAGAIN` -/

/-- No function of the backend has returned `EAGAIN`. -/
structure Smooth (c : Config) : Prop where
  aborting_eq : aborting c.stack = 0
  state : c.burrow.state ≠ .waiting
  loop : c.control.inLoop = true → depth c.stack = 0 ∧ c.burrow.flags.processing = true
  rest : c.control.inLoop = false →
    depth c.stack ≤ 1 ∧ (c.burrow.flags.processing = true ↔ depth c.stack = 1)

/-- Some function of the backend has returned `EAGAIN`: the mark is set, and every
call of `burrow_process` is on its way out. -/
structure Jammed (c : Config) : Prop where
  processing : c.burrow.flags.processing = true
  depth_eq : depth c.stack = aborting c.stack
  loop : c.control.inLoop = true → c.burrow.state = .waiting

theorem smooth_create (memory : FrontCommand) (selfallocated : Bool)
    (backend : BackendFunctions) :
    Smooth (Config.create memory selfallocated backend true) :=
  ⟨rfl, by simp [Config.create, burrowSetWatchFdFn, burrowCreate],
    fun h => absurd h (by simp [Config.create, Control.inLoop]),
    fun _ => ⟨Nat.zero_le _, by simp [Config.create, burrowSetWatchFdFn, burrowCreate, depth]⟩⟩

theorem smooth_of_move (h : Smooth c) (hmove : Move label c c')
    (hanswer : ¬ AnswersEagain label c) :
    Smooth c' := by
  cases hmove with
  | within control control' depth_eq aborting_eq processing_eq state _ =>
      refine ⟨aborting_eq.trans h.aborting_eq, fun hs => h.state (state hs), ?_, fun _ => ?_⟩
      · intro hloop
        exact absurd hloop (by simp [control'])
      · rw [depth_eq, processing_eq]
        exact h.rest control
  | enters control control' stack_eq processing processing' state_eq tau =>
      obtain ⟨hle, hiff⟩ := h.rest control
      have hdepth : depth c.stack = 0 := by
        have hne : depth c.stack ≠ 1 := fun heq => by simp [hiff.2 heq] at processing
        omega
      refine ⟨stack_eq ▸ h.aborting_eq, state_eq ▸ h.state,
        fun _ => ⟨stack_eq ▸ hdepth, processing'⟩, ?_⟩
      intro hloop
      exact absurd control' (by simp [hloop])
  | suspends control control' depth_eq aborting_eq processing_eq state state' =>
      obtain ⟨hdepth, hprocessing⟩ := h.loop control
      refine ⟨aborting_eq.trans h.aborting_eq, state',
        fun hloop => absurd hloop (by simp [control']), fun _ => ?_⟩
      rw [depth_eq, hdepth, processing_eq]
      exact ⟨Nat.le_refl _, iff_of_true hprocessing rfl⟩
  | resumes control control' depth_eq aborting_eq processing_eq state _ =>
      obtain ⟨hle, hiff⟩ := h.rest control
      refine ⟨aborting_eq.trans h.aborting_eq, fun hs => h.state (state hs), fun _ => ?_, ?_⟩
      · have hdepth : depth c'.stack = 0 := by omega
        exact ⟨hdepth, processing_eq.trans (hiff.2 (by omega))⟩
      · intro hloop
        exact absurd control' (by simp [hloop])
  | turns control control' stack_eq processing_eq state state' =>
      refine ⟨stack_eq ▸ h.aborting_eq, state', fun _ => ?_,
        fun hloop => absurd control' (by simp [hloop])⟩
      rw [stack_eq, processing_eq]
      exact h.loop control
  | finishes control control' stack_eq processing_eq state state' =>
      obtain ⟨hdepth, hprocessing⟩ := h.loop control
      refine ⟨stack_eq ▸ h.aborting_eq, by simp [state'],
        fun hloop => absurd hloop (by simp [control']), fun _ => ?_⟩
      rw [stack_eq, hdepth, processing_eq, hprocessing]
      exact ⟨Nat.zero_le _, by simp⟩
  | blocks control control' stack_eq processing_eq state => exact absurd state h.state
  | waits control control' depth_eq aborting_eq processing_eq state' answer =>
      exact absurd answer hanswer
  | aborts control control' depth_pos depth_eq aborting_eq processing_eq answer =>
      exact absurd answer hanswer
  | leaves control control' depth_eq aborting_eq processing_eq state_eq tau =>
      exact absurd (aborting_eq.symm.trans h.aborting_eq) (Nat.succ_ne_zero _)

theorem jammed_of_answer (h : Smooth c) (hmove : Move label c c')
    (hanswer : AnswersEagain label c) :
    Jammed c' := by
  have hloop : c.control.inLoop = false := by rw [hanswer.1]; rfl
  have hlabel : label ≠ .tau := by rw [hanswer.2.1]; simp
  obtain ⟨hle, hiff⟩ := h.rest hloop
  have haborting := h.aborting_eq
  cases hmove with
  | within _ _ _ _ _ _ answer => exact absurd hanswer answer
  | resumes _ _ _ _ _ _ answer => exact absurd hanswer answer
  | enters _ _ _ _ _ _ tau => exact absurd tau hlabel
  | leaves _ _ _ _ _ _ tau => exact absurd tau hlabel
  | suspends control => exact absurd control (by simp [hloop])
  | turns control => exact absurd control (by simp [hloop])
  | finishes control => exact absurd control (by simp [hloop])
  | blocks control => exact absurd control (by simp [hloop])
  | waits control control' depth_eq aborting_eq processing_eq state' answer =>
      exact ⟨processing_eq.trans (hiff.2 (by omega)), by omega, fun _ => state'⟩
  | aborts control control' depth_pos depth_eq aborting_eq processing_eq answer =>
      exact ⟨processing_eq.trans (hiff.2 (by omega)), by omega,
        fun hloop' => absurd hloop' (by simp [control'])⟩

theorem jammed_of_move (h : Jammed c) (hmove : Move label c c') : Jammed c' := by
  have hdepth := h.depth_eq
  have hle := aborting_le_depth c'.stack
  cases hmove with
  | within control control' depth_eq aborting_eq processing_eq state _ =>
      exact ⟨processing_eq.trans h.processing, by omega,
        fun hloop => absurd hloop (by simp [control'])⟩
  | enters control control' stack_eq processing processing' state_eq tau =>
      exact absurd h.processing (by simp [processing])
  | suspends control control' depth_eq aborting_eq processing_eq state state' =>
      exact absurd (h.loop control) state
  | resumes control control' depth_eq aborting_eq processing_eq state _ => omega
  | turns control control' stack_eq processing_eq state state' =>
      exact absurd (h.loop control) state
  | finishes control control' stack_eq processing_eq state state' =>
      exact absurd (h.loop control) (by simp [state])
  | blocks control control' stack_eq processing_eq state =>
      exact ⟨processing_eq.trans h.processing, stack_eq ▸ hdepth,
        fun hloop => absurd hloop (by simp [control'])⟩
  | waits control control' depth_eq aborting_eq processing_eq state' answer => omega
  | aborts control control' depth_pos depth_eq aborting_eq processing_eq answer => omega
  | leaves control control' depth_eq aborting_eq processing_eq state_eq tau =>
      exact ⟨processing_eq.trans h.processing, by omega,
        fun hloop => absurd hloop (by simp [control'])⟩

end Moves

/-! ## Runs -/

theorem jammed_of_run {c c' : Config} {ls : List Label}
    (hls : ∀ label ∈ ls, label.keepsWatch = true)
    (hwatched : Watched c) (hjammed : Jammed c) (hrun : Machine.run frontStep ls c = .ok c') :
    Jammed c' := by
  refine (Machine.run_invariant frontStep (C := fun label _ => label.keepsWatch = true)
    (I := fun c => Watched c ∧ Jammed c) ?_ ?_ ⟨hwatched, hjammed⟩ hrun).2
  · rintro label s s' hlabel ⟨hw, hj⟩ hstep
    obtain ⟨hmove, hw'⟩ := move_of_step hw hlabel hstep
    exact ⟨hw', jammed_of_move hj hmove⟩
  · exact Machine.along_of_forall frontStep (fun label hl _ => hls label hl) c

/-- **A run stays smooth until the first `EAGAIN`, and is jammed after it.** -/
theorem smooth_or_jammed {c c' : Config} {ls : List Label}
    (hls : ∀ label ∈ ls, label.keepsWatch = true)
    (hwatched : Watched c) (hsmooth : Smooth c) (hrun : Machine.run frontStep ls c = .ok c') :
    (Machine.Along frontStep (fun label c => ¬ AnswersEagain label c) ls c ∧ Smooth c') ∨
      (¬ Machine.Along frontStep (fun label c => ¬ AnswersEagain label c) ls c ∧ Jammed c') := by
  induction ls generalizing c with
  | nil =>
      simp only [Machine.run_nil, Except.ok.injEq] at hrun
      exact Or.inl ⟨trivial, hrun ▸ hsmooth⟩
  | cons label ls ih =>
      obtain ⟨s, hstep, hrest⟩ := Machine.run_cons_ok frontStep hrun
      have hlabel := hls label List.mem_cons_self
      have hls' : ∀ l ∈ ls, l.keepsWatch = true := fun l hl => hls l (List.mem_cons_of_mem _ hl)
      obtain ⟨hmove, hw⟩ := move_of_step hwatched hlabel hstep
      by_cases hanswer : AnswersEagain label c
      · have hjammed := jammed_of_answer hsmooth hmove hanswer
        exact Or.inr ⟨fun halong => halong.1 hanswer, jammed_of_run hls' hw hjammed hrest⟩
      · rcases ih hls' hw (smooth_of_move hsmooth hmove hanswer) hrest with
          ⟨halong, hs⟩ | ⟨halong, hj⟩
        · refine Or.inl ⟨⟨hanswer, fun s' hs' => ?_⟩, hs⟩
          rw [hstep, Except.ok.injEq] at hs'
          exact hs' ▸ halong
        · exact Or.inr ⟨fun h => halong (h.2 s hstep), hj⟩

/-- `burrow_process` can be resumed: the mark is clear, and so a call of it that
finds the state `READY` calls the backend's process function. -/
structure Resumable (c : Config) : Prop where
  clear : c.burrow.flags.processing = false
  calls : c.control = .process → c.burrow.state = .ready → c.burrow.backend.process = true →
    ∃ burrow, Machine.run frontStep [.tau, .tau] c =
      .ok { burrow := burrow, control := .environment, stack := .processFn :: c.stack }

theorem resumable_of_clear {c : Config} (hclear : c.burrow.flags.processing = false) :
    Resumable c := by
  refine ⟨hclear, fun hcontrol hstate hprocess => ?_⟩
  obtain ⟨burrow, control, stack⟩ := c
  cases hcontrol
  simp only at hclear hstate hprocess
  simp [Machine.run, frontStep, internalStep, processStep, loopStep, hclear, hstate, hprocess]

/-- **When `burrow_process` can be resumed.** In a run in which the user watches
the descriptors, wherever no call of `burrow_process` is active it can be resumed
exactly when no command function and no process function of the backend has
returned `EAGAIN`. -/
theorem resumable_iff (memory : FrontCommand) (selfallocated : Bool) (backend : BackendFunctions)
    {labels : List Label} (hlabels : ∀ label ∈ labels, label.keepsWatch = true) {c : Config}
    (hrun : Machine.run frontStep labels (Config.create memory selfallocated backend true) = .ok c)
    (hactive : ¬ c.Active) :
    Resumable c ↔
      Machine.Along frontStep (fun label c => ¬ AnswersEagain label c) labels
        (Config.create memory selfallocated backend true) := by
  have hloop : c.control.inLoop = false := Bool.eq_false_iff.2 fun h => hactive (Or.inl h)
  have hdepth : depth c.stack = 0 := not_not.1 fun h => hactive (Or.inr h)
  rcases smooth_or_jammed hlabels (watched_create memory selfallocated backend)
    (smooth_create memory selfallocated backend) hrun with ⟨halong, hsmooth⟩ | ⟨halong, hjammed⟩
  · refine iff_of_true (resumable_of_clear ?_) halong
    refine Bool.eq_false_iff.2 fun hmark => ?_
    have hone := (hsmooth.rest hloop).2.1 hmark
    omega
  · refine iff_of_false (fun hresumable => ?_) halong
    exact Bool.false_ne_true (hresumable.clear.symm.trans hjammed.processing)

/-- A backend that waits for descriptors. -/
def waitingBackend : BackendFunctions := { process := true, eventRaised := true, cancel := true }

/-- The user issues a command and has it processed; the backend calls back and
returns `0` at once. -/
def promptRun : List Label :=
  [.issue (.getAccounts none), .tau, .process, .tau, .tau, .callback, .returns 0, .returns 0, .tau,
    .tau, .tau]

theorem resumable_promptRun :
    ∃ c, Machine.run frontStep promptRun (Config.create default true waitingBackend true) = .ok c ∧
      Resumable c := by
  have hanswer : ∀ label ∈ promptRun, ∀ c, ¬ AnswersEagain label c := by
    rintro label hlabel c ⟨-, rfl, -⟩
    simp [promptRun, EAGAIN] at hlabel
  refine ⟨_, rfl, (@resumable_iff default true waitingBackend promptRun ?_ _ rfl ?_).2 ?_⟩
  · decide
  · decide
  · exact Machine.along_of_forall frontStep hanswer _

/-- The command waits for a descriptor, which the user sees raised. -/
def waitingRun : List Label :=
  [.issue (.getAccounts none), .tau, .process, .tau, .tau, .watchFd 3 ⟨true, false⟩ .fails,
    .returns 0, .returns EAGAIN, .tau, .tau, .eventRaised 3 ⟨true, false⟩, .tau, .returns 0, .tau,
    .process]

/-- After an `EAGAIN` the mark stays: `burrow_event_raised` makes the state `READY`,
and `burrow_process` returns without calling the backend. -/
theorem marked_after_eagain :
    ∃ c, Machine.run frontStep waitingRun (Config.create default true waitingBackend true) = .ok c ∧
      (∀ label ∈ waitingRun, label.keepsWatch = true) ∧ ¬ c.Active ∧ ¬ Resumable c ∧
      c.control = .process ∧ c.burrow.state = .ready ∧
      internalStep c = .ok { c with control := .returning EAGAIN } := by
  refine ⟨_, rfl, by decide, by decide, fun h => ?_, rfl, rfl, rfl⟩
  exact absurd h.clear (by decide)

end Burrow.Frontend
