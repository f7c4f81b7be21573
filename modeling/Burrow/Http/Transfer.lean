import Burrow.Http.UserBuffer

/-!
# When a transfer is over

`burrow_backend_http_process` returns `0` where no handle is running any more and
every transfer succeeded, and also where libcurl runs a handle for which it has no
descriptor yet (`Hasty`). In a run in which it has one, a command is completed with
result `0` only by a call that saw its transfer over and handed its response on, which is
what libcurl has delivered since the command was started (`completed_after_transfer`).
-/

set_option autoImplicit false

namespace Burrow.Http

open Burrow.Frontend

/-! ## One call -/

/-- No handle is running, and every transfer has succeeded. -/
structure HttpCall.Over (call : HttpCall) : Prop where
  running : call.runningHandles = 0
  results : ∀ result ∈ call.results, result = CURLE_OK

/-- The response that the command reads has been handed on. -/
def HttpCall.Delivered (call : HttpCall) : Prop :=
  call.command.any readsResponse = true →
    (call.getBodyOnly = true → call.handed = .message call.response) ∧
      (call.getBodyOnly = false → call.response ≠ [] → call.handed = .parser call.response)

/-- The number of running handles that the answers come to, where nothing has failed. -/
def CurlAnswers.outcome (answers : CurlAnswers) (backend : BurrowBackend) : Option Nat :=
  match multiPerform backend answers.performs with
  | none => none
  | some (retval, runningHandles, _) =>
      if retval = CURLM_OK ∧ infoRead answers.results = true then some runningHandles else none

/-- Nothing has failed, and no handle is running. -/
def CurlAnswers.Finished (answers : CurlAnswers) (backend : BurrowBackend) : Prop :=
  answers.outcome backend = some 0

/-- Nothing has failed, handles are running, and there is no descriptor to wait for. -/
def CurlAnswers.Hasty (answers : CurlAnswers) (backend : BurrowBackend) : Prop :=
  (answers.outcome backend).any (fun n => decide (0 < n)) = true ∧ answers.fdSets.maxFd = -1

instance (answers : CurlAnswers) (backend : BurrowBackend) : Decidable (answers.Finished backend) :=
  inferInstanceAs (Decidable (_ = _))

instance (answers : CurlAnswers) (backend : BurrowBackend) : Decidable (answers.Hasty backend) :=
  inferInstanceAs (Decidable (_ ∧ _))

theorem infoRead_iff (results : List Int) :
    infoRead results = true ↔ ∀ result ∈ results, result = CURLE_OK := by
  induction results with
  | nil => exact iff_of_true rfl (by simp)
  | cons result rest ih =>
      rw [infoRead, List.forall_mem_cons]
      split
      · next hne => exact iff_of_false (by simp) fun h => hne h.1
      · next heq => exact ih.trans (iff_and_self.2 fun _ => not_not.1 heq)

theorem handResponse_delivered {parse : List UInt8 → Int} {command : Option CommandName}
    {backend : BurrowBackend} {handed : Handed} {code : Int}
    (h : handResponse parse command backend = .ok (handed, code))
    (hreads : command.any readsResponse = true) :
    (backend.getBodyOnly = true → handed = .message (backend.buffer.getD [])) ∧
      (backend.getBodyOnly = false → backend.buffer.getD [] ≠ [] →
        handed = .parser (backend.buffer.getD [])) := by
  rw [handResponse, if_pos hreads] at h
  split at h
  · exact absurd h (by simp)
  · next text hbuffer =>
      rw [hbuffer, Option.getD_some]
      split at h
      · next hbody =>
          cases h
          exact ⟨fun _ => rfl, fun hno => absurd hbody (by simp [hno])⟩
      · next hbody =>
          refine ⟨fun hyes => absurd hyes hbody, fun _ hne => ?_⟩
          rw [if_pos (List.length_pos_iff.2 hne)] at h
          cases h
          rfl

/-- **What a call that returns `0` has seen.** -/
theorem process_eq_zero {parse : List UInt8 → Int} {answers : CurlAnswers}
    {command : Option CommandName} {backend backend' : BurrowBackend} {call : HttpCall}
    (h : burrowBackendHttpProcess parse answers command backend = .ok (call, backend'))
    (hcode : call.code = 0) :
    answers.Finished backend ∧ ¬ answers.Hasty backend ∧ call.Over ∧ call.Delivered ∨
      answers.Hasty backend ∧ 0 < call.runningHandles := by
  have hinval : ¬ EINVAL = 0 := by decide
  have hagain : ¬ EAGAIN = 0 := by decide
  unfold burrowBackendHttpProcess at h
  split at h
  · exact absurd h (by simp)
  · next retval runningHandles backend'' hperform =>
      dsimp only at h
      split at h
      · cases h
        exact absurd hcode hinval
      · next hretval =>
          split at h
          · cases h
            exact absurd hcode hinval
          · next hresults =>
              have hinfo : infoRead answers.results = true := by simpa using hresults
              have houtcome : answers.outcome backend = some runningHandles := by
                rw [CurlAnswers.outcome, hperform]
                exact if_pos ⟨not_not.1 hretval, hinfo⟩
              split at h
              · next hrunning =>
                  split at h
                  · next hmax =>
                      cases h
                      refine Or.inr ⟨⟨?_, hmax⟩, hrunning⟩
                      rw [houtcome]
                      exact decide_eq_true hrunning
                  · cases h
                    exact absurd hcode hagain
              · next hrunning =>
                  have hzero := Nat.eq_zero_of_not_pos hrunning
                  split at h
                  · exact absurd h (by simp)
                  · next handed code hhand =>
                      cases h
                      refine Or.inl ⟨houtcome.trans (congrArg some hzero), ?_, ?_, ?_⟩
                      · rintro ⟨hany, -⟩
                        rw [houtcome, hzero] at hany
                        exact absurd hany (by decide)
                      · exact ⟨hzero, (infoRead_iff _).1 hinfo⟩
                      · exact handResponse_delivered hhand

/-- **A hasty call returns `0`**, with handles running. -/
theorem process_of_hasty (parse : List UInt8 → Int) {answers : CurlAnswers}
    (command : Option CommandName) {backend : BurrowBackend} (h : answers.Hasty backend) :
    ∃ call backend', burrowBackendHttpProcess parse answers command backend =
      .ok (call, backend') ∧ call.code = 0 ∧ 0 < call.runningHandles := by
  obtain ⟨hrunning, hmax⟩ := h
  rw [CurlAnswers.outcome] at hrunning
  rw [burrowBackendHttpProcess]
  rcases hperform : multiPerform backend answers.performs with
    _ | ⟨retval, runningHandles, backend'⟩
  · rw [hperform] at hrunning
    exact absurd hrunning (by simp)
  · rw [hperform] at hrunning
    dsimp only at hrunning ⊢
    split at hrunning
    · next hfine =>
        have hpos : runningHandles > 0 := of_decide_eq_true hrunning
        rw [if_neg (not_not.2 hfine.1), if_neg (by simp [hfine.2]), if_pos hpos, if_pos hmax]
        exact ⟨_, _, rfl, rfl, hpos⟩
    · exact absurd hrunning (by simp)

/-- What a call leaves in the buffer, and what it has been given. -/
theorem process_perform {parse : List UInt8 → Int} {answers : CurlAnswers}
    {command : Option CommandName} {backend backend' : BurrowBackend} {call : HttpCall}
    (h : burrowBackendHttpProcess parse answers command backend = .ok (call, backend')) :
    call.command = command ∧ call.received = delivered answers.performs ∧
      call.response = backend'.buffer.getD [] ∧
      ∃ retval runningHandles,
        multiPerform backend answers.performs = some (retval, runningHandles, backend') := by
  unfold burrowBackendHttpProcess at h
  split at h
  · exact absurd h (by simp)
  · next retval runningHandles backend'' hperform =>
      dsimp only at h
      split at h
      · cases h
        exact ⟨rfl, rfl, rfl, retval, runningHandles, hperform⟩
      · split at h
        · cases h
          exact ⟨rfl, rfl, rfl, retval, runningHandles, hperform⟩
        · split at h
          · split at h
            · cases h
              exact ⟨rfl, rfl, rfl, retval, runningHandles, hperform⟩
            · cases h
              exact ⟨rfl, rfl, rfl, retval, runningHandles, hperform⟩
          · split at h
            · exact absurd h (by simp)
            · cases h
              exact ⟨rfl, rfl, rfl, retval, runningHandles, hperform⟩

/-- The response is what was in the buffer and what the call has been given. -/
theorem process_response {parse : List UInt8 → Int} {answers : CurlAnswers}
    {command : Option CommandName} {backend backend' : BurrowBackend} {call : HttpCall}
    (h : burrowBackendHttpProcess parse answers command backend = .ok (call, backend'))
    {bytes : List UInt8} (hbuffer : backend.buffer = some bytes) :
    backend'.buffer = some (bytes ++ call.received) ∧
      call.response = bytes ++ call.received := by
  obtain ⟨-, hreceived, hresponse, retval, runningHandles, hperform⟩ := process_perform h
  have hbuffer' := multiPerform_buffer hperform
  rw [hbuffer, Option.map_some, ← hreceived] at hbuffer'
  refine ⟨hbuffer', ?_⟩
  rw [hresponse, hbuffer', Option.getD_some]

theorem over_iff {parse : List UInt8 → Int} {answers : CurlAnswers} {command : Option CommandName}
    {backend backend' : BurrowBackend} {call : HttpCall}
    (h : burrowBackendHttpProcess parse answers command backend = .ok (call, backend'))
    (hcode : call.code = 0) : call.Over ↔ ¬ answers.Hasty backend := by
  rcases process_eq_zero h hcode with ⟨-, hno, hover, -⟩ | ⟨hyes, hrunning⟩
  · exact iff_of_true hover hno
  · refine iff_of_false (fun hover => ?_) (not_not.2 hyes)
    rw [hover.running] at hrunning
    exact Nat.lt_irrefl 0 hrunning

/-! ## Steps that complete a command too early -/

/-- The backend says that a transfer is over while it runs, or for a command that has
been cancelled; or an event makes the front end go on with a command that has not been
started, or without one. -/
def Premature (label : HttpLabel) (h : HttpConfig) : Prop :=
  match label with
  | .front label => Stale label h.front
  | .fail _ => False
  | .transfer detailBody answers _ =>
      answers.Hasty (setUp detailBody h.front.burrow.cmd h.backend) ∨
        h.front.burrow.cmd.command = none ∧
          answers.Finished (setUp detailBody h.front.burrow.cmd h.backend)
  | .resume answers _ =>
      answers.Hasty h.backend ∨ h.front.burrow.cmd.command = none ∧ answers.Finished h.backend

instance (label : HttpLabel) (h : HttpConfig) : Decidable (Premature label h) :=
  match label with
  | .front label => inferInstanceAs (Decidable (Stale label h.front))
  | .fail _ => inferInstanceAs (Decidable False)
  | .transfer _ _ _ => inferInstanceAs (Decidable (_ ∨ _))
  | .resume _ _ => inferInstanceAs (Decidable (_ ∨ _))

/-! ## The invariant -/

def HttpEvent.front? : HttpEvent → Option Event
  | .front event => some event
  | .performs _ => none

def Event.call? : Event → Option Call
  | .accepts call => some call
  | _ => none

/-- The command that was accepted last. -/
def lastAccepted (trace : List HttpEvent) : Option Call :=
  ((trace.filterMap HttpEvent.front?).filterMap Event.call?).getLast?

/-- What libcurl has delivered, `none` until the transfer is set up: an event more. -/
def arrives (bytes : Option (List UInt8)) : HttpEvent → Option (List UInt8)
  | .front (.accepts _) | .front (.starts _) => none
  | .front _ => bytes
  | .performs call => some (bytes.getD [] ++ call.received)

/-- What libcurl has delivered since the command function was called. -/
def arrived (trace : List HttpEvent) : Option (List UInt8) := trace.foldl arrives none

/-- The command that was accepted last is one for which the buffer takes the response: all
but `create_message`, whose body it holds. -/
def Receives (trace : List HttpEvent) : Prop :=
  ∀ call, lastAccepted trace = some call → call.command ≠ .createMessage

/-- A call that returns `0` has served the command that was accepted last, and its response
is all that libcurl has delivered for it. -/
def HttpCall.Serves (trace : List HttpEvent) (call : HttpCall) : Prop :=
  (call.code = 0 → call.Over ∧ call.Delivered ∧
    ∃ accepted, lastAccepted trace = some accepted ∧ call.command = some accepted.command) ∧
  (Receives trace → arrived trace = some call.response)

/-- The command has answered `EAGAIN`, or its process function runs. -/
def ProcessBegun (c : Config) : Prop :=
  c.burrow.state = .waiting ∨ c.burrow.state = .ready ∨ .processFn ∈ c.stack

/-- A command function runs and has not set up its transfer. -/
structure Fresh (trace : List HttpEvent) (c : Config) : Prop where
  control : c.control = .environment
  top : c.stack.head? = some .commandFn
  arrived : arrived trace = none

/-- What holds of every run that completes no command too early. -/
structure Serving (trace : List HttpEvent) (h : HttpConfig) : Prop where
  nested : Nested h.front
  followed : ∃ rounds phase, Followed (trace.filterMap HttpEvent.front?) h.front rounds phase
  accepted : h.front.burrow.state ≠ .idle →
    h.front.burrow.cmd.command = none ∧ h.front.burrow.cmd.commandFn = none ∨
    ∃ call, lastAccepted trace = some call ∧ h.front.burrow.cmd.command = some call.command ∧
      h.front.burrow.cmd.commandFn = some call.command
  called : ∀ call, h.call = some call → ¬ Unattended h.front ∧
    ∃ before, trace = before ++ [.performs call] ∧ call.Serves trace
  finished : h.front.burrow.state = .finish → ∃ code, h.front.control = .loop code ∧
    (code = 0 → ∃ before call, trace = before ++ [.performs call, .front (.answers 0)] ∧
      call.code = 0 ∧ call.Serves trace)
  fresh : .commandFn ∈ h.front.stack → h.call = none → Fresh trace h.front
  held : Receives trace → ∀ bytes, arrived trace = some bytes → h.backend.buffer = some bytes
  begun : ProcessBegun h.front → Receives trace → (arrived trace).isSome = true

section Steps

variable {parse : List UInt8 → Int} {label : HttpLabel} {h h' : HttpConfig}
  {trace trace' : List HttpEvent}

theorem lift_ok {label : Label} (hstep : h.lift label = .ok h') :
    frontStep label h.front = .ok h'.front ∧ h'.call = h.call ∧ h'.watching = h.watching ∧
      h'.backend = h.backend := by
  rw [HttpConfig.lift] at hstep
  cases hfront : frontStep label h.front with
  | error stop => exact absurd hstep (by simp [hfront, Except.map])
  | ok front =>
      rw [hfront] at hstep
      cases hstep
      exact ⟨rfl, rfl, rfl, rfl⟩

/-- Events of the front end are seen as they are. -/
theorem filterMap_front (shown : List Event) :
    (shown.map HttpEvent.front).filterMap HttpEvent.front? = shown := by
  rw [List.filterMap_map]
  exact List.filterMap_some

theorem lastAccepted_append_front (trace : List HttpEvent) (shown : List Event) :
    lastAccepted (trace ++ shown.map .front) =
      (shown.filterMap Event.call?).getLast?.or (lastAccepted trace) := by
  rw [lastAccepted, List.filterMap_append, List.filterMap_append, filterMap_front,
    List.getLast?_append]
  rfl

theorem lastAccepted_append_performs (trace : List HttpEvent) (call : HttpCall) :
    lastAccepted (trace ++ [.performs call]) = lastAccepted trace := by
  have hnone : [HttpEvent.performs call].filterMap HttpEvent.front? = [] := rfl
  rw [lastAccepted, List.filterMap_append, hnone, List.append_nil]
  rfl

/-- Without an acceptance the last one stays. -/
theorem lastAccepted_of_quiet {shown : List Event} (hshown : shown.filterMap Event.call? = []) :
    lastAccepted (trace ++ shown.map .front) = lastAccepted trace := by
  rw [lastAccepted_append_front, hshown]
  rfl

theorem arrived_append_singleton (trace : List HttpEvent) (event : HttpEvent) :
    arrived (trace ++ [event]) = arrives (arrived trace) event := by
  rw [arrived, List.foldl_append]
  rfl

/-- What has arrived has arrived for the command that was accepted last. -/
theorem arrived_append_front {shown : List Event} {bytes : List UInt8}
    (h : arrived (trace ++ shown.map .front) = some bytes) :
    shown.filterMap Event.call? = [] ∧ arrived trace = some bytes := by
  induction shown generalizing trace with
  | nil => exact ⟨rfl, (congrArg arrived (List.append_nil trace)).symm.trans h⟩
  | cons event shown ih =>
      rw [List.map_cons, List.append_cons] at h
      obtain ⟨hquiet, harrived⟩ := ih h
      rw [arrived_append_singleton] at harrived
      cases event with
      | accepts call => exact absurd harrived (by simp [arrives])
      | starts cmd => exact absurd harrived (by simp [arrives])
      | _ => exact ⟨hquiet, harrived⟩

theorem receives_iff (hlast : lastAccepted trace' = lastAccepted trace) :
    Receives trace' ↔ Receives trace := by
  rw [Receives, Receives, hlast]

theorem HttpCall.Serves.mono {call : HttpCall} (hserves : call.Serves trace)
    (hlast : lastAccepted trace' = lastAccepted trace) (harrived : arrived trace' = arrived trace) :
    call.Serves trace' := by
  refine ⟨fun hcode => ?_, fun hreceives => ?_⟩
  · obtain ⟨hover, hdelivered, accepted, haccepted, hcommand⟩ := hserves.1 hcode
    exact ⟨hover, hdelivered, accepted, hlast.trans haccepted, hcommand⟩
  · exact harrived.trans (hserves.2 ((receives_iff hlast).1 hreceives))

/-- A function works on a command only while one is pending. -/
theorem Serving.state_ne_idle (hs : Serving trace h) (hattended : ¬ Unattended h.front) :
    h.front.burrow.state ≠ .idle := by
  intro hidle
  obtain ⟨rounds, phase, hfollowed⟩ := hs.followed
  obtain rfl := hfollowed.holds.eq_idle hidle
  exact hattended hfollowed.holds.2

theorem attended_of_works_head {c : Config} (hworks : c.stack.head?.any Frame.works = true) :
    ¬ Unattended c := by
  cases hstack : c.stack with
  | nil => exact absurd hworks (by simp [hstack])
  | cons frame rest =>
      rw [hstack] at hworks
      exact attended_of_works hworks hstack

/-- What a step of the front end does to the pending command. -/
theorem Serving.accepted_step (hs : Serving trace h) {label : Label} {c' : Config}
    {shown : List Event} (hstale : ¬ Stale label h.front) (hdrive : Drive label h.front c' shown)
    (hstate' : c'.burrow.state ≠ .idle) :
    c'.burrow.cmd.command = none ∧ c'.burrow.cmd.commandFn = none ∨
      ∃ call, lastAccepted (trace ++ shown.map .front) = some call ∧
        c'.burrow.cmd.command = some call.command ∧
        c'.burrow.cmd.commandFn = some call.command := by
  have hsame : shown.filterMap Event.call? = [] → c'.burrow.cmd = h.front.burrow.cmd →
      h.front.burrow.state ≠ .idle →
      c'.burrow.cmd.command = none ∧ c'.burrow.cmd.commandFn = none ∨
        ∃ call, lastAccepted (trace ++ shown.map .front) = some call ∧
          c'.burrow.cmd.command = some call.command ∧
          c'.burrow.cmd.commandFn = some call.command := by
    intro hshown hcmd hstate
    rw [lastAccepted_of_quiet hshown, hcmd]
    exact hs.accepted hstate
  cases hdrive with
  | quiet _ _ _ same => exact hsame rfl same.cmd_eq (same.state_eq ▸ hstate')
  | @accepts call _ _ _ _ _ _ carried command _ =>
      refine Or.inr ⟨call, ?_, command, carried.1⟩
      rw [lastAccepted_append_front]
      rfl
  | cancels _ _ _ _ cmd' _ _ => exact Or.inl (by rw [cmd']; exact ⟨rfl, rfl⟩)
  | raises label_eq control _ stack_eq _ cmd_eq _ =>
      refine hsame rfl cmd_eq fun hidle => hstale ⟨by rw [label_eq]; rfl, control, ?_, Or.inl hidle⟩
      rw [stack_eq]
      rfl
  | starts _ _ _ state _ same => exact hsame rfl same.cmd_eq (by simp [state])
  | resumes _ _ _ state _ same => exact hsame rfl same.cmd_eq (by simp [state])
  | answers _ _ works stack_eq _ cmd_eq _ _ =>
      exact hsame rfl cmd_eq (hs.state_ne_idle (attended_of_works works stack_eq))
  | aborts _ _ stack_eq _ same _ _ =>
      exact hsame rfl same.cmd_eq (hs.state_ne_idle (attended_of_works rfl stack_eq))
  | completes _ _ _ _ state' _ _ => exact absurd state' hstate'
  | passes _ _ _ _ state' _ _ => exact absurd state' hstate'
  | reenters _ _ _ _ _ same => exact hsame rfl same.cmd_eq (same.state_eq ▸ hstate')
  | enters _ _ _ _ _ state_eq cmd_eq => exact hsame rfl cmd_eq (state_eq ▸ hstate')
  | leaves _ _ _ _ _ state_eq cmd_eq => exact hsame rfl cmd_eq (state_eq ▸ hstate')
  | blocks _ _ _ _ same => exact hsame rfl same.cmd_eq (same.state_eq ▸ hstate')
  | polls _ _ _ _ same => exact hsame rfl same.cmd_eq (same.state_eq ▸ hstate')
  | fails _ _ _ _ same => exact hsame rfl same.cmd_eq (same.state_eq ▸ hstate')

/-- While a function of the backend works on the command and does not return, nothing is
seen of other commands. -/
theorem attended_step {label : Label} {c c' : Config} {shown : List Event} (hnested : Nested c)
    (hattended : ¬ Unattended c) (hstate : c.burrow.state ≠ .idle)
    (hdrive : Drive label c c' shown)
    (hreturns : ¬ (label.isReturn = true ∧ c.stack.head?.any Frame.works = true)) :
    ¬ Unattended c' ∧ shown = [] := by
  have hloop : c.control.inLoop = true → False := fun hloop =>
    hattended (unattended_of_nil (hnested.loop hloop).1)
  have hsame : drivers c'.stack = drivers c.stack → ¬ Unattended c' := by
    intro hdrivers
    unfold Unattended at hattended ⊢
    rw [hdrivers]
    exact hattended
  have hone : ∀ (frame : Frame) (rest : List Frame), c.control.inLoop = false →
      frame.drives = true → frame.works = false → c.stack = frame :: rest → False := by
    intro frame rest hcontrol hdrives hworks hstack
    apply hattended
    unfold Unattended
    rw [hstack, drivers_cons_of_drives hdrives, (hnested.pop hcontrol hdrives hstack).1]
    intro f hf
    rw [List.mem_singleton.1 hf]
    exact hworks
  cases hdrive with
  | quiet _ _ drivers_eq _ => exact ⟨hsame drivers_eq, rfl⟩
  | accepts _ _ _ _ state _ _ _ _ => exact absurd state hstate
  | cancels _ _ drivers_eq _ _ _ _ => exact ⟨hsame drivers_eq, rfl⟩
  | raises _ _ _ stack_eq _ _ _ =>
      exact ⟨hsame (by rw [stack_eq, drivers_cons_of_not rfl]), rfl⟩
  | starts control _ _ _ _ _ => exact (hloop control).elim
  | resumes control _ _ _ _ _ => exact (hloop control).elim
  | answers _ _ works stack_eq _ _ _ label_eq =>
      exact absurd ⟨by rw [label_eq]; rfl, by rw [stack_eq]; exact works⟩ hreturns
  | aborts _ _ stack_eq _ _ _ label_eq =>
      exact absurd ⟨by rw [label_eq]; rfl, by rw [stack_eq]; rfl⟩ hreturns
  | completes control _ _ _ _ _ _ => exact (hloop control).elim
  | passes control _ _ _ _ _ _ => exact (hloop control).elim
  | reenters control _ drives works stack_eq _ =>
      exact (hone _ _ control drives works stack_eq).elim
  | enters control _ stack_eq _ _ _ _ => exact ⟨hsame (by rw [stack_eq]), rfl⟩
  | leaves control _ _ _ _ _ _ => exact (hloop (by rw [control]; rfl)).elim
  | blocks control _ _ _ _ => exact (hloop control).elim
  | polls control _ _ _ _ => exact (hloop control).elim
  | fails control _ _ stack_eq _ => exact (hone _ _ (by rw [control]; rfl) rfl rfl stack_eq).elim

/-- Only the loop of `burrow_process` calls the command function. -/
theorem commandFn_of_step {label : Label} {c c' : Config} (hstep : frontStep label c = .ok c')
    (hmem : .commandFn ∈ c'.stack) :
    .commandFn ∈ c.stack ∨ c'.control = .environment ∧ c'.stack.head? = some .commandFn ∧
      events label c = [.starts c.burrow.cmd] := by
  cases step_of_frontStep hstep with
  | tau tau =>
      cases tau with
      | starts state commandFn =>
          refine Or.inr ⟨rfl, rfl, ?_⟩
          rw [events_loop, state]
      | _ => exact Or.inl (by simpa using hmem)
  | returns returned =>
      left
      cases returned <;> simp at hmem ⊢ <;> exact hmem
  | _ => exact Or.inl (by simpa using hmem)

theorem ProcessBegun.before {c c' : Config} (hbegun : ProcessBegun c')
    (hstate : c'.burrow.state = c.burrow.state)
    (hstack : .processFn ∈ c'.stack → .processFn ∈ c.stack) : ProcessBegun c := by
  rcases hbegun with hwaiting | hready | hmem
  · exact Or.inl (hstate.symm.trans hwaiting)
  · exact Or.inr (Or.inl (hstate.symm.trans hready))
  · exact Or.inr (Or.inr (hstack hmem))

/-- In a state that is neither, it is the process function that runs. -/
theorem ProcessBegun.runs {c : Config} {state : BurrowState} (hbegun : ProcessBegun c)
    (hstate : c.burrow.state = state) (hwaiting : state ≠ .waiting) (hready : state ≠ .ready) :
    .processFn ∈ c.stack := by
  subst hstate
  exact (hbegun.resolve_left hwaiting).resolve_left hready

/-- A command that has begun had done so before, or its function has just answered `EAGAIN`,
or an event has been raised; and no other command is seen to be taken or started. -/
theorem begun_of_drive {label : Label} {c c' : Config} {shown : List Event}
    (hnested : Nested c) (hpending : .processFn ∈ c.stack → c.burrow.state ≠ .idle)
    (hdrive : Drive label c c' shown) (hbegun : ProcessBegun c') :
    (shown.filterMap Event.call? = [] ∧
        ∀ trace, arrived (trace ++ shown.map .front) = arrived trace) ∧
      (ProcessBegun c ∨ (∃ rest, c.stack = .commandFn :: rest ∧ label = .returns EAGAIN) ∨
        ∃ fd event, label = .returns 0 ∧ c.control = .environment ∧
          c.stack = .eventRaisedFn fd event :: c'.stack) := by
  have hquiet : ([] : List Event).filterMap Event.call? = [] ∧
      ∀ trace, arrived (trace ++ [].map .front) = arrived trace :=
    ⟨rfl, fun trace => congrArg arrived (List.append_nil trace)⟩
  have hdrivers : drivers c'.stack = drivers c.stack →
      .processFn ∈ c'.stack → .processFn ∈ c.stack := by
    intro heq hmem
    rw [← mem_drivers rfl, heq, mem_drivers rfl] at hmem
    exact hmem
  cases hdrive with
  | quiet _ _ drivers_eq same =>
      exact ⟨hquiet, Or.inl (hbegun.before same.state_eq (hdrivers drivers_eq))⟩
  | accepts _ _ _ stack_eq state state' _ _ _ =>
      have hmem := hbegun.runs state' (by simp) (by simp)
      exact absurd state (hpending (stack_eq ▸ hmem))
  | cancels _ _ drivers_eq state_eq _ _ _ =>
      exact ⟨hquiet, Or.inl (hbegun.before state_eq (hdrivers drivers_eq))⟩
  | raises label_eq control _ stack_eq _ _ _ =>
      exact ⟨hquiet, Or.inr (Or.inr ⟨_, _, label_eq, control, stack_eq⟩)⟩
  | starts control _ stack_eq state _ same =>
      have hmem := hbegun.runs (same.state_eq.trans state) (by simp) (by simp)
      rw [stack_eq, List.mem_cons] at hmem
      have hno : .processFn ∉ c.stack := notMem_of_drivers_nil rfl (hnested.loop control).1
      exact absurd (hmem.resolve_left (by simp)) hno
  | resumes _ _ _ state _ _ =>
      exact ⟨⟨rfl, fun trace => arrived_append_singleton trace _⟩, Or.inl (Or.inr (Or.inl state))⟩
  | @answers code frame control _ works stack_eq state' _ _ label_eq =>
      refine ⟨⟨rfl, fun trace => arrived_append_singleton trace _⟩, ?_⟩
      cases frame with
      | processFn => exact Or.inl (Or.inr (Or.inr (by rw [stack_eq]; exact List.mem_cons_self)))
      | commandFn =>
          by_cases hcode : code = EAGAIN
          · exact Or.inr (Or.inl ⟨_, stack_eq, hcode ▸ label_eq⟩)
          · rw [if_neg hcode] at state'
            have hno : .processFn ∉ c'.stack :=
              notMem_of_drivers_nil rfl (hnested.pop control rfl stack_eq).1
            exact absurd (hbegun.runs state' (by simp) (by simp)) hno
      | _ => exact absurd works (by simp [Frame.works])
  | aborts _ _ stack_eq _ _ _ label_eq =>
      exact ⟨⟨rfl, fun trace => arrived_append_singleton trace _⟩,
        Or.inr (Or.inl ⟨_, stack_eq, label_eq⟩)⟩
  | completes control _ stack_eq _ state' _ _ =>
      have hmem := hbegun.runs state' (by simp) (by simp)
      rw [stack_eq, List.mem_cons] at hmem
      have hno : .processFn ∉ c.stack := notMem_of_drivers_nil rfl (hnested.loop control).1
      exact absurd (hmem.resolve_left (by simp)) hno
  | passes control _ stack_eq _ state' _ _ =>
      have hmem := hbegun.runs state' (by simp) (by simp)
      have hno : .processFn ∉ c.stack := notMem_of_drivers_nil rfl (hnested.loop control).1
      exact absurd (stack_eq ▸ hmem) hno
  | reenters _ _ _ _ stack_eq same =>
      refine ⟨hquiet, Or.inl (hbegun.before same.state_eq fun hmem => ?_)⟩
      rw [stack_eq]
      exact List.mem_cons_of_mem _ hmem
  | enters _ _ stack_eq _ _ state_eq _ =>
      exact ⟨hquiet, Or.inl (hbegun.before state_eq fun hmem => stack_eq ▸ hmem)⟩
  | leaves _ _ stack_eq _ _ state_eq _ =>
      exact ⟨hquiet, Or.inl (hbegun.before state_eq fun hmem => stack_eq ▸ hmem)⟩
  | blocks _ _ stack_eq _ same =>
      exact ⟨hquiet, Or.inl (hbegun.before same.state_eq fun hmem => stack_eq ▸ hmem)⟩
  | polls _ _ stack_eq _ same =>
      refine ⟨hquiet, Or.inl (hbegun.before same.state_eq fun hmem => ?_)⟩
      rw [stack_eq, List.mem_cons] at hmem
      exact hmem.resolve_left (by simp)
  | fails _ _ _ stack_eq same =>
      refine ⟨hquiet, Or.inl (hbegun.before same.state_eq fun hmem => ?_)⟩
      rw [stack_eq]
      exact List.mem_cons_of_mem _ hmem

/-- An event that is not stale finds a command that waits, or one whose function has set up
its transfer. -/
theorem Serving.raised (hs : Serving trace h) {fd : Int} {event : BurrowIoevent}
    {rest : List Frame} (hstale : ¬ Stale (.returns 0) h.front)
    (hcontrol : h.front.control = .environment)
    (hstack : h.front.stack = .eventRaisedFn fd event :: rest) (hreceives : Receives trace) :
    (arrived trace).isSome = true := by
  have hstarted : ¬ (h.front.burrow.state = .idle ∨
      h.front.burrow.state = .start ∧ .commandFn ∉ h.front.stack) := fun hno =>
    hstale ⟨rfl, hcontrol, by rw [hstack]; rfl, hno⟩
  cases hstate : h.front.burrow.state with
  | idle => exact absurd (Or.inl hstate) hstarted
  | waiting => exact hs.begun (Or.inl hstate) hreceives
  | ready => exact hs.begun (Or.inr (Or.inl hstate)) hreceives
  | finish => exact absurd (hs.nested.finish hstate) (by simp [hcontrol, Control.inLoop])
  | start =>
      have hmem : .commandFn ∈ h.front.stack := by
        by_contra hno
        exact hstarted (Or.inr ⟨hstate, hno⟩)
      cases hcall : h.call with
      | none =>
          have htop := (hs.fresh hmem hcall).top
          rw [hstack] at htop
          exact absurd htop (by simp)
      | some call =>
          obtain ⟨-, before, htrace, -⟩ := hs.called call hcall
          rw [htrace, arrived_append_singleton]
          rfl

/-- Once a command has begun, its transfer has been set up. -/
theorem Serving.begun_step (hs : Serving trace h) {label : Label} {c' : Config}
    {shown : List Event} (hstale : ¬ Stale label h.front) (hdrive : Drive label h.front c' shown)
    (hagain : ∀ rest, h.front.stack = .commandFn :: rest → label = .returns EAGAIN →
      Receives trace → (arrived trace).isSome = true) (hbegun : ProcessBegun c')
    (hreceives : Receives (trace ++ shown.map .front)) :
    (arrived (trace ++ shown.map .front)).isSome = true := by
  have hpending : .processFn ∈ h.front.stack → h.front.burrow.state ≠ .idle := by
    intro hmem
    exact hs.state_ne_idle fun hun => hun.notMem rfl hmem
  obtain ⟨⟨hquiet, hkept⟩, hcases⟩ := begun_of_drive hs.nested hpending hdrive hbegun
  have hbefore := (receives_iff (lastAccepted_of_quiet hquiet)).1 hreceives
  rw [hkept]
  rcases hcases with hbegun' | ⟨rest, hstack, hlabel⟩ | ⟨fd, event, hlabel, hcontrol, hstack⟩
  · exact hs.begun hbegun' hbefore
  · exact hagain rest hstack hlabel hbefore
  · exact hs.raised (hlabel ▸ hstale) hcontrol hstack hbefore

/-- What has arrived stays in the buffer over a step of the front end. -/
theorem Serving.held_step (hs : Serving trace h) {shown : List Event}
    (hbackend : h'.backend = h.backend) (hreceives : Receives (trace ++ shown.map .front))
    (bytes : List UInt8) (harrived : arrived (trace ++ shown.map .front) = some bytes) :
    h'.backend.buffer = some bytes := by
  obtain ⟨hquiet, hbefore⟩ := arrived_append_front harrived
  rw [hbackend]
  exact hs.held ((receives_iff (lastAccepted_of_quiet hquiet)).1 hreceives) bytes hbefore

/-- The front end takes a step that is no return of a function at work. -/
theorem Serving.front_step (hs : Serving trace h) {label : Label}
    (hstale : ¬ Stale label h.front) (hstep : frontStep label h.front = .ok h'.front)
    (hcall : h'.call = h.call) (hbackend : h'.backend = h.backend)
    (hfresh : .commandFn ∈ h.front.stack → h.call ≠ none)
    (hreturns : ¬ (label.isReturn = true ∧ h.front.stack.head?.any Frame.works = true)) :
    Serving (trace ++ (events label h.front).map .front) h' := by
  have hdrive := drive_of_step hstep
  obtain ⟨rounds, phase, hfollowed⟩ := hs.followed
  constructor
  · exact hs.nested.drive hdrive
  · rw [List.filterMap_append, filterMap_front]
    exact hfollowed.step hs.nested hstale hdrive
  · exact hs.accepted_step hstale hdrive
  · intro call hsome
    obtain ⟨hattended, before, htrace, hserves⟩ := hs.called call (hcall ▸ hsome)
    obtain ⟨hattended', hquiet⟩ :=
      attended_step hs.nested hattended (hs.state_ne_idle hattended) hdrive hreturns
    rw [hquiet, List.map_nil, List.append_nil]
    exact ⟨hattended', before, htrace, hserves⟩
  · intro hfinish
    obtain ⟨hresult, hworks⟩ := hdrive.finish hs.nested hfinish
    refine absurd ⟨?_, hworks⟩ hreturns
    cases label with
    | returns code => rfl
    | _ => exact absurd hresult (by simp [Label.isResult])
  · intro hmem hnone
    rcases commandFn_of_step hstep hmem with hbefore | ⟨hcontrol, htop, hstarts⟩
    · exact absurd (hcall.symm.trans hnone) (hfresh hbefore)
    · refine ⟨hcontrol, htop, ?_⟩
      rw [hstarts, List.map_singleton, arrived_append_singleton]
      rfl
  · exact hs.held_step hbackend
  · refine hs.begun_step hstale hdrive fun rest hstack hlabel => absurd ⟨?_, ?_⟩ hreturns
    · rw [hlabel]
      rfl
    · rw [hstack]
      rfl

/-- A function at work returns. -/
theorem Serving.return_step (hs : Serving trace h) {code : Int}
    (hstep : frontStep (.returns code) h.front = .ok h'.front) (hcall : h'.call = none)
    (hbackend : h'.backend = h.backend) (hworks : h.front.stack.head?.any Frame.works = true)
    (hzero : code = 0 → ∃ call, h.call = some call ∧ call.code = 0)
    (hagain : Receives trace → code = EAGAIN → (arrived trace).isSome = true) :
    Serving (trace ++ (events (.returns code) h.front).map .front) h' := by
  have hcontrol := environment_of_returns hstep
  have hdrive := drive_of_step hstep
  have hevents : events (.returns code) h.front = [.answers code] := by
    rw [events_returns hcontrol, if_pos hworks]
  have hstale : ¬ Stale (.returns code) h.front := by
    rintro ⟨-, -, hraised, -⟩
    cases hstack : h.front.stack with
    | nil => exact absurd hworks (by simp [hstack])
    | cons frame rest =>
        rw [hstack] at hworks hraised
        cases frame with
        | eventRaisedFn fd event => exact absurd hworks (by simp [Frame.works])
        | _ => exact absurd hraised (by simp [Frame.isEventRaised])
  obtain ⟨rounds, phase, hfollowed⟩ := hs.followed
  have hloop : h.front.control.inLoop = false := by rw [hcontrol]; rfl
  rw [hevents] at hdrive ⊢
  constructor
  · exact hs.nested.drive hdrive
  · rw [List.filterMap_append, filterMap_front]
    exact hfollowed.step hs.nested hstale hdrive
  · exact hs.accepted_step hstale hdrive
  · intro call hsome
    exact absurd (hcall.symm.trans hsome) (by simp)
  · intro hfinish
    cases hdrive with
    | answers _ control' _ _ _ _ _ _ =>
        refine ⟨code, control', fun hcode => ?_⟩
        obtain ⟨call, hsome, hcallcode⟩ := hzero hcode
        obtain ⟨-, before, htrace, hserves⟩ := hs.called call hsome
        refine ⟨before, call, ?_, hcallcode, hserves.mono (lastAccepted_of_quiet rfl) ?_⟩
        · rw [htrace, hcode, List.append_assoc]
          rfl
        · exact arrived_append_singleton trace _
    | aborts _ _ _ _ same _ _ =>
        have hfinished := hs.nested.finish (same.state_eq.symm.trans hfinish)
        exact absurd hfinished (by simp [hcontrol, Control.inLoop])
  · intro hmem _
    have hnone : ∀ (frame : Frame) (rest : List Frame), frame.drives = true →
        h.front.stack = frame :: rest → .commandFn ∉ rest := by
      intro frame rest hdrives hstack
      exact notMem_of_drivers_nil rfl (hs.nested.pop hloop hdrives hstack).1
    cases hdrive with
    | answers _ _ works stack_eq _ _ _ _ =>
        exact absurd hmem (hnone _ _ (drives_of_works works) stack_eq)
    | aborts _ _ stack_eq stack_eq' _ _ _ =>
        rw [stack_eq', List.mem_cons] at hmem
        exact absurd (hmem.resolve_left (by simp)) (hnone _ _ rfl stack_eq)
  · exact hs.held_step hbackend
  · refine hs.begun_step hstale hdrive fun rest _ hlabel hreceives => hagain hreceives ?_
    cases hlabel
    rfl

/-- `burrow_backend_http_process` is called. -/
theorem Serving.process_step (hs : Serving trace h) {answers : CurlAnswers}
    {backend : BurrowBackend} (hstep : h.callProcess parse answers backend = .ok h')
    (hworks : h.works = true)
    (hno : ¬ (answers.Hasty backend ∨
      h.front.burrow.cmd.command = none ∧ answers.Finished backend))
    (hbuffer : Receives trace → backend.buffer = some ((arrived trace).getD [])) :
    Serving (trace ++ h'.call.toList.map .performs) h' := by
  rw [HttpConfig.works, Bool.and_eq_true, decide_eq_true_eq] at hworks
  obtain ⟨hcontrol, htop⟩ := hworks
  rw [HttpConfig.callProcess] at hstep
  cases hprocess : burrowBackendHttpProcess parse answers h.front.burrow.cmd.command backend with
  | error stop => exact absurd hstep (by simp [hprocess, Except.map])
  | ok result =>
      obtain ⟨call, backend'⟩ := result
      rw [hprocess] at hstep
      cases hstep
      have hattended := attended_of_works_head htop
      have hlast := lastAccepted_append_performs trace call
      have harrived : arrived (trace ++ [.performs call]) =
          some ((arrived trace).getD [] ++ call.received) := arrived_append_singleton trace _
      obtain ⟨rounds, phase, hfollowed⟩ := hs.followed
      rw [Option.toList_some, List.map_singleton]
      constructor
      · exact hs.nested
      · refine ⟨rounds, phase, ?_⟩
        rw [List.filterMap_append]
        exact (List.append_nil _).symm ▸ hfollowed
      · intro hstate
        rw [hlast]
        exact hs.accepted hstate
      · rintro call' ⟨⟩
        refine ⟨hattended, trace, rfl, fun hcode => ?_, fun hreceives => ?_⟩
        -- a call that answers zero was over or hasty, and hasty is what `hno` excludes
        · have hcommand := (process_perform hprocess).1
          rcases process_eq_zero hprocess hcode with ⟨hfinished, -, hover, hdelivered⟩ | ⟨hhasty, -⟩
          · rcases hs.accepted (hs.state_ne_idle hattended) with
              hnone | ⟨accepted, haccepted, hsome, -⟩
            · exact absurd (Or.inr ⟨hnone.1, hfinished⟩) hno
            · exact ⟨hover, hdelivered, accepted, hlast.trans haccepted, hcommand.trans hsome⟩
          · exact absurd (Or.inl hhasty) hno
        · rw [harrived, (process_response hprocess (hbuffer ((receives_iff hlast).1 hreceives))).2]
      · intro hfinish
        exact absurd (hs.nested.finish hfinish) (by simp [hcontrol, Control.inLoop])
      · intro _ hnone
        exact absurd hnone (by simp)
      · intro hreceives bytes hbytes
        rw [harrived, Option.some.injEq] at hbytes
        subst hbytes
        exact (process_response hprocess (hbuffer ((receives_iff hlast).1 hreceives))).1
      · intro _ _
        rw [harrived]
        rfl

/-- A command function that has not set up its transfer sets up an empty buffer. -/
theorem Serving.setUp_buffer (hs : Serving trace h) (hfresh : Fresh trace h.front)
    (detailBody : Bool) (hreceives : Receives trace) :
    (setUp detailBody h.front.burrow.cmd h.backend).buffer = some ((arrived trace).getD []) := by
  rw [hfresh.arrived, Option.getD_none]
  have hattended : ¬ Unattended h.front :=
    attended_of_works_head (by rw [hfresh.top]; rfl)
  rcases hs.accepted (hs.state_ne_idle hattended) with ⟨-, hnone⟩ | ⟨call, hlast, -, hsome⟩
  · rw [setUp, hnone]
  · have hcommand := hreceives call hlast
    rw [setUp, hsome]
    cases hname : call.command with
    | createMessage => exact absurd hname hcommand
    | _ => rfl

/-- A step that the call under way takes. -/
theorem Serving.call_step (hs : Serving trace h) {label : Label} {call : HttpCall}
    (hcall : h.call = some call) (hworks : h.front.stack.head?.any Frame.works = true)
    (hstale : ¬ Stale label h.front) (hstep : h.callStep label call = .ok h') :
    Serving (trace ++ (events label h.front).map .front) h' := by
  have hfresh : .commandFn ∈ h.front.stack → h.call ≠ none := fun _ => by simp [hcall]
  unfold HttpConfig.callStep at hstep
  split at hstep
  · split at hstep
    · split at hstep
      · obtain ⟨hfront, hsame, -, hbackend⟩ := lift_ok hstep
        exact hs.front_step hstale hfront hsame hbackend hfresh (by simp [Label.isReturn])
      · exact absurd hstep (by simp)
    · exact absurd hstep (by simp)
  · split at hstep
    · exact absurd hstep (by simp)
    · obtain ⟨hfront, hsame, -, hbackend⟩ := lift_ok hstep
      exact hs.front_step hstale hfront hsame hbackend hfresh (by simp [Label.isReturn])
  · next code =>
      split at hstep
      · next hcode =>
          obtain ⟨hfront, hnone, -, hbackend⟩ := lift_ok hstep
          obtain ⟨-, before, htrace, -⟩ := hs.called call hcall
          refine hs.return_step hfront hnone hbackend hworks
            (fun hzero => ⟨call, hcall, hcode.2 ▸ hzero⟩) fun _ _ => ?_
          rw [htrace, arrived_append_singleton]
          rfl
      · exact absurd hstep (by simp)
  · exact absurd hstep (by simp)

/-- **A step that completes no command too early keeps the invariant.** -/
theorem Serving.step (hs : Serving trace h) (hno : ¬ Premature label h)
    (hstep : httpStep label h = .ok h') : Serving (trace ++ httpEvents label h) h' := by
  cases label with
  | front label =>
      have hstale : ¬ Stale label h.front := hno
      rw [httpEvents]
      unfold httpStep at hstep
      dsimp only at hstep
      split at hstep
      · next hworks =>
          rw [HttpConfig.works, Bool.and_eq_true] at hworks
          split at hstep
          · next call hcall => exact hs.call_step hcall hworks.2 hstale hstep
          · exact absurd hstep (by simp)
      · next hworks =>
          have hreturns : ∀ {front : Config}, frontStep label h.front = .ok front →
              ¬ (label.isReturn = true ∧ h.front.stack.head?.any Frame.works = true) := by
            rintro front hfront ⟨hreturn, htop⟩
            cases label with
            | returns code =>
                rw [HttpConfig.works, environment_of_returns hfront, htop] at hworks
                exact hworks rfl
            | _ => exact absurd hreturn (by simp [Label.isReturn])
          have hfresh : .commandFn ∈ h.front.stack → h.call ≠ none := by
            intro hmem hnone
            have hfresh := hs.fresh hmem hnone
            rw [HttpConfig.works, hfresh.control, hfresh.top] at hworks
            exact hworks rfl
          have hlift : h.lift label = .ok h' →
              Serving (trace ++ (events label h.front).map .front) h' := by
            intro hl
            obtain ⟨hfront, hsame, -, hbackend⟩ := lift_ok hl
            exact hs.front_step hstale hfront hsame hbackend hfresh (hreturns hfront)
          split at hstep
          · split at hstep
            · split at hstep
              · exact hlift hstep
              · exact absurd hstep (by simp)
            · exact absurd hstep (by simp)
            · exact absurd hstep (by simp)
            · exact hlift hstep
          · exact hlift hstep
  | fail code =>
      rw [httpEvents]
      unfold httpStep at hstep
      dsimp only at hstep
      split at hstep
      · next hcond =>
          obtain ⟨hworks, htop, hcall, hcode⟩ := hcond
          rw [HttpConfig.works, Bool.and_eq_true] at hworks
          obtain ⟨hfront, hsame, -, hbackend⟩ := lift_ok hstep
          refine hs.return_step hfront (hsame.trans hcall) hbackend hworks.2 (fun hzero => ?_)
            fun hreceives hagain => ?_
          · rcases hcode with rfl | ⟨-, hne⟩
            · exact absurd hzero (by decide)
            · exact absurd hzero hne
          -- only `create_message` can fail with `EAGAIN`
          · rcases hcode with rfl | ⟨hcreate, -⟩
            · exact absurd hagain (by decide)
            · have hattended := attended_of_works_head hworks.2
              rcases hs.accepted (hs.state_ne_idle hattended) with
                ⟨-, hnone⟩ | ⟨call, hlast, -, hsome⟩
              · exact absurd (hnone.symm.trans hcreate) (by simp)
              · rw [hsome, Option.some.injEq] at hcreate
                exact absurd hcreate (hreceives call hlast)
      · exact absurd hstep (by simp)
  | transfer detailBody answers parse =>
      rw [httpEvents, hstep]
      unfold httpStep at hstep
      dsimp only at hstep
      split at hstep
      · next hcond =>
          obtain ⟨hworks, htop, hcall⟩ := hcond
          obtain ⟨rest, hstack⟩ := List.head?_eq_some_iff.1 htop
          have hmem : .commandFn ∈ h.front.stack := by rw [hstack]; exact List.mem_cons_self
          exact hs.process_step hstep hworks hno (hs.setUp_buffer (hs.fresh hmem hcall) detailBody)
      · exact absurd hstep (by simp)
  | resume answers parse =>
      rw [httpEvents, hstep]
      unfold httpStep at hstep
      dsimp only at hstep
      split at hstep
      · next hcond =>
          obtain ⟨hworks, htop, -⟩ := hcond
          obtain ⟨rest, hstack⟩ := List.head?_eq_some_iff.1 htop
          refine hs.process_step hstep hworks hno fun hreceives => ?_
          have hbegun : ProcessBegun h.front :=
            Or.inr (Or.inr (by rw [hstack]; exact List.mem_cons_self))
          obtain ⟨bytes, harrived⟩ := Option.isSome_iff_exists.1 (hs.begun hbegun hreceives)
          rw [harrived, Option.getD_some]
          exact hs.held hreceives bytes harrived
      · exact absurd hstep (by simp)

end Steps

/-! ## Runs -/

theorem serving_create (memory : FrontCommand) (selfallocated watchFdFn : Bool)
    (backend : BurrowBackend) :
    Serving [] (HttpConfig.create memory selfallocated watchFdFn backend) := by
  have hidle : (HttpConfig.create memory selfallocated watchFdFn backend).front.burrow.state =
      .idle := by
    cases watchFdFn with
    | true => rfl
    | false => rfl
  constructor
  · exact nested_create ..
  · exact ⟨[], .idle, followed_create ..⟩
  · exact fun hstate => absurd hidle hstate
  · intro call hsome
    exact absurd hsome (by simp [HttpConfig.create])
  · intro hfinish
    exact absurd (hidle.symm.trans hfinish) (by simp)
  · intro hmem
    exact absurd hmem List.not_mem_nil
  · intro _ bytes harrived
    exact absurd harrived (by simp [arrived])
  · rintro (hwaiting | hready | hmem)
    · exact absurd (hidle.symm.trans hwaiting) (by simp)
    · exact absurd (hidle.symm.trans hready) (by simp)
    · exact absurd hmem List.not_mem_nil

theorem filterMap_call?_waitEvents (n : Nat) : (waitEvents n).filterMap Event.call? = [] := by
  induction n with
  | zero => rfl
  | succ n ih =>
      rw [waitEvents, List.filterMap_append, ih]
      rfl

/-- The command that was accepted last is the one that has been answered. -/
theorem lastAccepted_of_followed {trace : List HttpEvent} {c : Config} {rounds : List Round}
    {call : Call} {cmd : FrontCommand} {waits : Nat} {code : Int}
    (h : Followed (trace.filterMap HttpEvent.front?) c rounds (.answered call cmd waits code)) :
    lastAccepted trace = some call := by
  have hstart : [Event.accepts call, .starts cmd].filterMap Event.call? = [call] := rfl
  have hend : [Event.answers code].filterMap Event.call? = [] := rfl
  rw [lastAccepted, h.trace_eq, List.filterMap_append, Phase.events, List.filterMap_append,
    List.filterMap_append, filterMap_call?_waitEvents, hstart, hend]
  simp

/-- **When a command is completed successfully.** A hasty call of
`burrow_backend_http_process` returns `0`, and a call that returns `0` has seen its transfer
over exactly when it was not hasty; in whatever chunks libcurl delivers to the transfer
buffer, the response is what the buffer holds then. In a run without premature steps a
command is completed with result
`0` only when it has been started and the last call, which returned `0`, was made for it,
saw no handle running and no transfer failed, and handed the response on, all that libcurl
has delivered since the command function was called. -/
theorem completed_after_transfer (backend : BurrowBackend) :
    (∀ parse answers command, answers.Hasty backend → ∃ call backend',
      burrowBackendHttpProcess parse answers command backend = .ok (call, backend') ∧
        call.code = 0 ∧ 0 < call.runningHandles) ∧
    (∀ parse answers command call backend',
      burrowBackendHttpProcess parse answers command backend = .ok (call, backend') →
        (call.code = 0 → (call.Over ↔ ¬ answers.Hasty backend)) ∧
        ∀ bytes (userd : UserBuffer), backend.buffer = some bytes → userd.Received bytes →
          ∀ calls : List WriteCall, calls.flatMap WriteCall.data = call.received →
            (∀ write ∈ calls, write.Proper) →
            (∀ write ∈ calls, write.data ≠ [] → write.alloc = true) →
            call.response.length < 2 ^ 64 →
            ∃ returned userd', Machine.Shows writeStep writeReturns calls userd returned userd' ∧
              userd'.Received call.response) ∧
    ∀ (memory : FrontCommand) (selfallocated watchFdFn : Bool) (labels : List HttpLabel)
      (h : HttpConfig),
      Machine.run httpStep labels (HttpConfig.create memory selfallocated watchFdFn backend) =
        .ok h →
      Machine.Along httpStep (fun label h => ¬ Premature label h) labels
        (HttpConfig.create memory selfallocated watchFdFn backend) →
      h.front.burrow.state = .finish → h.front.control = .loop 0 →
      let trace := Machine.trace httpStep httpEvents labels
        (HttpConfig.create memory selfallocated watchFdFn backend)
      ∃ before call rounds accepted cmd waits,
        trace = before ++ [.performs call, .front (.answers 0)] ∧
        Followed (trace.filterMap HttpEvent.front?) h.front rounds
          (.answered accepted cmd waits 0) ∧
        call.command = some accepted.command ∧ call.Over ∧ call.Delivered ∧
        (readsResponse accepted.command = true → arrived trace = some call.response) := by
  refine ⟨fun parse answers command h => process_of_hasty parse command h, ?_, ?_⟩
  · intro parse answers command call backend' hprocess
    refine ⟨fun hcode => over_iff hprocess hcode, fun bytes userd hbuffer hreceived calls hdata
      hproper halloc htotal => ?_⟩
    obtain ⟨-, hgiven, -, retval, runningHandles, hperform⟩ := process_perform hprocess
    have hresponse := (process_response hprocess hbuffer).2
    rw [hresponse, hgiven] at htotal ⊢
    rw [hgiven] at hdata
    exact (multiPerform_refined hperform hbuffer hreceived).2 calls hdata hproper halloc htotal
  · intro memory selfallocated watchFdFn labels h hrun hno hfinish hcontrol trace
    have hs := Machine.trace_invariant httpStep httpEvents (I := Serving)
      (fun t label s s' hlabel hI hstep => hI.step hlabel hstep) hno
      (serving_create memory selfallocated watchFdFn backend) hrun
    rw [List.nil_append] at hs
    obtain ⟨rounds, phase, hfollowed⟩ := hs.followed
    obtain ⟨code, hloop, hzero⟩ := hs.finished hfinish
    rw [hcontrol, Control.loop.injEq] at hloop
    obtain ⟨before, call, htrace, hcode, hserves⟩ := hzero hloop.symm
    obtain ⟨hover, hdelivered, accepted, hlast, hcommand⟩ := hserves.1 hcode
    obtain ⟨accepted', cmd, waits, code', rfl⟩ := hfollowed.holds.eq_answered hfinish
    rw [lastAccepted_of_followed hfollowed, Option.some.injEq] at hlast
    subst hlast
    have hcode' : code' = 0 := by
      have hend := hfollowed.trace_eq
      rw [htrace, List.filterMap_append, Phase.events, ← List.append_assoc] at hend
      have hlasts := (List.append_inj' hend rfl).2
      exact (Event.answers.inj (List.singleton_inj.1 hlasts)).symm
    subst hcode'
    refine ⟨before, call, rounds, accepted', cmd, waits, htrace, hfollowed, hcommand, hover,
      hdelivered, fun hreads => hserves.2 fun other hother => ?_⟩
    rw [lastAccepted_of_followed hfollowed, Option.some.injEq] at hother
    subst hother
    intro hcreate
    rw [hcreate] at hreads
    exact absurd hreads (by decide)

/-- libcurl has one handle running and waits for descriptor 3. -/
def waitingAnswers : CurlAnswers :=
  { performs := [{ code := CURLM_OK, runningHandles := 1, data := [] }]
    results := []
    fdSets := { read := fun i => i == 3, write := fun _ => false, maxFd := 3 } }

/-- The response has come, and the transfer is over. -/
def finalAnswers : CurlAnswers :=
  { performs :=
      [{ code := CURLM_CALL_MULTI_PERFORM, runningHandles := 1, data := [91] },
        { code := CURLM_OK, runningHandles := 0, data := [93] }]
    results := [CURLE_OK]
    fdSets := { read := fun _ => false, write := fun _ => false, maxFd := -1 } }

/-- The parser takes the response. -/
def accepting : List UInt8 → Int := fun _ => 0

/-- The messages of a queue are asked for, and `burrow_process` waits for the response. -/
def transferRun : List HttpLabel :=
  [.front (.issue (.getMessages (some "a") (some "q") none)), .front .tau, .front .process,
    .front .tau, .front .tau, .transfer false waitingAnswers accepting,
    .front (.watchFd 3 ⟨true, false⟩ .moves), .front (.returns EAGAIN), .front .tau, .front .tau,
    .front (.pollRaised fun _ => pollin), .front .tau, .front .tau,
    .front (.returns 0), .front .tau, .front .tau, .front .tau, .front .tau,
    .resume finalAnswers accepting, .front .callback, .front (.returns 0), .front (.returns 0)]

theorem completed_after_transfer_transferRun :
    ∃ h, Machine.run httpStep transferRun
        (HttpConfig.create default true false burrowBackendHttpCreate) = .ok h ∧
      let trace := Machine.trace httpStep httpEvents transferRun
        (HttpConfig.create default true false burrowBackendHttpCreate)
      ∃ before call rounds accepted cmd waits,
        trace = before ++ [.performs call, .front (.answers 0)] ∧
        Followed (trace.filterMap HttpEvent.front?) h.front rounds
          (.answered accepted cmd waits 0) ∧
        call.command = some accepted.command ∧ call.Over ∧ call.Delivered ∧
        (readsResponse accepted.command = true → arrived trace = some call.response) :=
  ⟨_, rfl, (completed_after_transfer burrowBackendHttpCreate).2.2 default true false
    transferRun _ rfl (by decide) rfl rfl⟩

/-- libcurl has one handle running and no descriptor yet. -/
def hastyAnswers : CurlAnswers :=
  { performs := [{ code := CURLM_OK, runningHandles := 1, data := [] }]
    results := []
    fdSets := { read := fun _ => false, write := fun _ => false, maxFd := -1 } }

def hastyRun : List HttpLabel :=
  [.front (.issue (.getMessages (some "a") (some "q") none)), .front .tau, .front .process,
    .front .tau, .front .tau, .transfer false hastyAnswers accepting, .front (.returns 0)]

/-- The command is completed with result `0` while its transfer runs. -/
theorem completed_while_running :
    ∃ h call, Machine.run httpStep hastyRun
        (HttpConfig.create default true false burrowBackendHttpCreate) = .ok h ∧
      h.front.burrow.state = .finish ∧ h.front.control = .loop 0 ∧
      (Machine.trace httpStep httpEvents hastyRun
        (HttpConfig.create default true false burrowBackendHttpCreate)).drop 2 =
          [.performs call, .front (.answers 0)] ∧
      call.code = 0 ∧ call.runningHandles = 1 ∧ call.handed = .nothing :=
  ⟨_, _, rfl, rfl, rfl, rfl, rfl, rfl, rfl⟩

end Burrow.Http
