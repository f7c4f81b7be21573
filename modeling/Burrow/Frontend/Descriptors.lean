import Burrow.Frontend.WatchList
import Burrow.Frontend.Rounds

/-!
# The descriptors that the library polls

Three parties write `watch_size`: `burrow_watch_fd` counts it up, `burrow_cancel`
sets it to `0`, and `burrow_internal_poll_fds` counts down a copy of its own, which
it writes back at the end of a round. `watchEvents` is what a run shows of the
descriptors, and `Leaks` are the steps on which one is left without a command: without
them none is ever polled for when no command is pending (`no_descriptor_left`).
-/

set_option autoImplicit false

namespace Burrow.Frontend

/-! ## What happens to the descriptors -/

/-- None of the first descriptors is silent. -/
def AllRaised (pfds : List Pollfd) (watchSize : Nat) : Prop :=
  ∀ j < watchSize, ∃ entry, pfds[j]? = some entry ∧ entry.isRaised = true

/-- The library starts to watch a descriptor. -/
def Registers (label : Label) (c : Config) : Prop :=
  match label with
  | .watchFd _ _ realloc =>
      c.control = .environment ∧ c.burrow.watchFdFn = false ∧ c.burrow.HasRoom realloc
  | _ => False

instance (label : Label) (c : Config) : Decidable (Registers label c) :=
  match label with
  | .watchFd _ _ _ => inferInstanceAs (Decidable (_ ∧ _ ∧ _))
  | .tau | .issue _ | .process | .eventRaised _ _ | .cancel | .setOptions _ | .setCompleteFn _
  | .setWatchFdFn _ | .callback | .returns _ | .pollError _ | .pollTimeout | .pollRaised _ =>
      inferInstanceAs (Decidable False)

inductive WatchEvent where
  /-- one more descriptor is watched -/
  | registers
  /-- `poll` answers; `silent` if it raises nothing for some of the descriptors -/
  | answers (silent : Bool)
  /-- `burrow_cancel` empties the list -/
  | cancels
deriving DecidableEq, Repr

/-- What a step shows. In a round it shows nothing: the list is overwritten at its end. -/
def watchEvents (label : Label) (c : Config) : List WatchEvent :=
  if c.round = none then
    match label, c.control with
    | .pollRaised revents, .poll =>
        [.answers (decide (∃ i < c.burrow.watchSize, revents i = 0))]
    | .tau, .cancel => if c.burrow.state = .idle then [] else [.cancels]
    | _, _ => if Registers label c then [.registers] else []
  else []

/-- After this some descriptor has yet to be raised. -/
def WatchEvent.waits : WatchEvent → Bool
  | .registers => true
  | .answers silent => silent
  | .cancels => false

/-- A descriptor that was registered has not been raised by `poll`: one was registered
since its last answer, or that answer was silent on one. -/
def waits (shown : List WatchEvent) : Bool := shown.getLast?.any WatchEvent.waits

/-! ## Steps that leave descriptors behind -/

/-- A descriptor is watched where no command is pending: the front end is idle, or the
pending command has been cleared. -/
def Stray (label : Label) (c : Config) : Prop :=
  Registers label c ∧
    (c.burrow.state = .idle ∨ c.burrow.cmd.commandFn = none ∧ c.round = none)

/-- The command function or the process function finishes the command. -/
def Finishes (label : Label) (c : Config) : Prop :=
  c.control = .environment ∧ label.isResult = true ∧ c.stack.head?.any Frame.works = true

/-- A descriptor is left without a command: it is registered where none is pending, or the
command is finished or cleared before it was raised. -/
def Leaks (shown : List WatchEvent) (label : Label) (c : Config) : Prop :=
  Stray label c ∨
    (Finishes label c ∨ Clears label c) ∧ waits (shown ++ watchEvents label c) = true

instance (label : Label) (c : Config) : Decidable (Stray label c) :=
  inferInstanceAs (Decidable (_ ∧ _))

instance (label : Label) (c : Config) : Decidable (Finishes label c) :=
  inferInstanceAs (Decidable (_ ∧ _))

instance (shown : List WatchEvent) (label : Label) (c : Config) :
    Decidable (Leaks shown label c) :=
  inferInstanceAs (Decidable (_ ∨ _))

section Events

variable {label : Label} {c c' : Config} {shown : List WatchEvent}

theorem waits_append_singleton (shown : List WatchEvent) (event : WatchEvent) :
    waits (shown ++ [event]) = event.waits := by
  rw [waits, List.getLast?_concat]
  rfl

theorem watchEvents_of_round (h : c.round ≠ none) : watchEvents label c = [] := if_neg h

/-- What a step can show. -/
theorem watchEvents_cases (label : Label) (c : Config) :
    watchEvents label c = [] ∨ c.round = none ∧
      (watchEvents label c = [.registers] ∧ Registers label c ∨
        watchEvents label c = [.cancels] ∨
        ∃ revents, label = .pollRaised revents ∧ watchEvents label c =
          [.answers (decide (∃ i < c.burrow.watchSize, revents i = 0))]) := by
  unfold watchEvents
  split
  · next hround =>
      split
      · exact Or.inr ⟨hround, Or.inr (Or.inr ⟨_, rfl, rfl⟩)⟩
      · split
        · exact Or.inl rfl
        · exact Or.inr ⟨hround, Or.inr (Or.inl rfl)⟩
      · split
        · next hregisters => exact Or.inr ⟨hround, Or.inl ⟨rfl, hregisters⟩⟩
        · exact Or.inl rfl
  · exact Or.inl rfl

/-- A registration outside a round is shown. -/
theorem watchEvents_of_registers (hround : c.round = none) (h : Registers label c) :
    watchEvents label c = [.registers] := by
  cases label with
  | watchFd fd watched realloc =>
      unfold watchEvents
      rw [if_pos hround]
      exact if_pos h
  | _ => exact absurd h (by simp [Registers])

/-- An answer of `poll` is shown. -/
theorem watchEvents_of_poll (hround : c.round = none) (hcontrol : c.control = .poll)
    (revents : Nat → UInt16) : watchEvents (.pollRaised revents) c =
      [.answers (decide (∃ i < c.burrow.watchSize, revents i = 0))] := by
  unfold watchEvents
  rw [if_pos hround, hcontrol]

end Events

/-! ## What the list holds -/

/-- Unless a descriptor waits the list is empty, or will be at the end of the round. -/
structure Listed (shown : List WatchEvent) (c : Config) : Prop where
  left : c.round = none → waits shown = false → c.burrow.watchSize = 0
  raised : ∀ pfd watchSize, c.round = some (pfd, watchSize) → waits shown = false →
    pfd = 0 ∧ AllRaised c.burrow.pfds watchSize

section Listed

variable {backend : BackendFunctions} {label : Label} {c c' : Config} {shown : List WatchEvent}

/-- Dropping a descriptor that was raised leaves none that is silent. -/
theorem allRaised_dropPfd {pfds : List Pollfd} {watchSize : Nat} (h : AllRaised pfds watchSize) :
    AllRaised (dropPfd pfds 0 (watchSize - 1)) (watchSize - 1) := by
  intro j hj
  have hlast := h (watchSize - 1) (by omega)
  have hjth := h j (by omega)
  unfold dropPfd
  split
  · next last hget =>
      split
      · next hlt =>
          by_cases hzero : j = 0
          · subst hzero
            have hlen : 0 < pfds.length := by
              have := (List.getElem?_eq_some_iff.1 hget).1
              omega
            rw [List.getElem?_set_self hlen]
            rw [hget] at hlast
            exact hlast
          · rw [List.getElem?_set_ne (Ne.symm hzero)]
            exact hjth
      · exact hjth
  · exact hjth

/-- What is raised still is after a registration. -/
theorem allRaised_burrowInternalWatchFd {burrow : BurrowSt} (fd : Int) (watched : BurrowIoevent)
    (realloc : Realloc) {watchSize : Nat} (h : AllRaised burrow.pfds watchSize) :
    AllRaised (burrowInternalWatchFd burrow fd watched realloc).pfds watchSize := by
  intro j hj
  obtain ⟨entry, hentry, hraised⟩ := h j hj
  obtain ⟨entry', hentry', hsame⟩ := isRaised_burrowInternalWatchFd fd watched realloc hentry
  exact ⟨entry', hentry', hsame.trans hraised⟩

/-- What `poll` has raised is raised in the array. -/
theorem allRaised_mapIdx {pfds : List Pollfd} {watchSize : Nat} (hle : watchSize ≤ pfds.length)
    {revents : Nat → UInt16} (h : ¬ ∃ i < watchSize, revents i = 0) :
    AllRaised (pfds.mapIdx fun i pfd =>
      if i < watchSize then { pfd with revents := revents i } else pfd) watchSize := by
  intro j hj
  have hget := List.getElem?_eq_getElem (Nat.lt_of_lt_of_le hj hle)
  refine ⟨_, by rw [List.getElem?_mapIdx, hget]; rfl, ?_⟩
  dsimp only
  rw [if_pos hj]
  exact bne_iff_ne.2 fun hzero => h ⟨j, hj, hzero⟩

/-- In a round nothing is shown. -/
theorem Listed.of_round (h : Listed shown c) {pfd watchSize : Nat}
    (hround : c.round = some (pfd, watchSize))
    (hwaits : waits (shown ++ watchEvents label c) = false) :
    pfd = 0 ∧ AllRaised c.burrow.pfds watchSize := by
  rw [watchEvents_of_round (by simp [hround]), List.append_nil] at hwaits
  exact h.raised pfd watchSize hround hwaits

/-- Where the list and the round stay, nothing is shown but a registration. -/
theorem Listed.stay (h : Listed shown c) (hpoll : ∀ revents, label ≠ .pollRaised revents)
    (hcancels : watchEvents label c ≠ [.cancels])
    (hsize : c'.burrow.watchSize = c.burrow.watchSize)
    (hpfds : c'.burrow.pfds = c.burrow.pfds) (hround : c'.round = c.round) :
    Listed (shown ++ watchEvents label c) c' := by
  constructor
  · intro hnone hwaits
    rw [hround] at hnone
    rw [hsize]
    rcases watchEvents_cases label c with
      hnil | ⟨-, ⟨hregisters, -⟩ | hcancel | ⟨revents, hlabel, -⟩⟩
    · rw [hnil, List.append_nil] at hwaits
      exact h.left hnone hwaits
    · rw [hregisters, waits_append_singleton] at hwaits
      exact absurd hwaits (by simp [WatchEvent.waits])
    · exact absurd hcancel hcancels
    · exact absurd hlabel (hpoll revents)
  · intro pfd watchSize hsome hwaits
    rw [hpfds]
    exact h.of_round (hround ▸ hsome) hwaits

/-- `burrow_cancel` is where a cancellation is shown. -/
theorem control_of_cancels (h : watchEvents label c = [.cancels]) :
    c.control = .cancel ∧ c.burrow.state ≠ .idle := by
  unfold watchEvents at h
  split at h
  · split at h
    · exact absurd h (by simp)
    · next hcontrol =>
        split at h
        · exact absurd h (by simp)
        · next hstate => exact ⟨hcontrol, hstate⟩
    · split at h
      · exact absurd h (by simp)
      · exact absurd h (by simp)
  · exact absurd h (by simp)

/-- **Every step keeps this**, whatever the environment does. -/
theorem Listed.step (h : Listed shown c) (hwatching : Watching backend c)
    (hstep : frontStep label c = .ok c') : Listed (shown ++ watchEvents label c) c' := by
  cases pfdStep_of_step hstep with
  | elsewhere _ _ label_ne spares _ watchSize_eq pfds_eq round_eq =>
      refine h.stay label_ne (fun hcancels => ?_) watchSize_eq pfds_eq round_eq
      exact (control_of_cancels hcancels).2 (spares (control_of_cancels hcancels).1)
  | @watches fd watched realloc label_eq control control' watchFdFn burrow' stack_eq =>
      subst label_eq
      have hround : c'.round = c.round := by
        rw [round_of_not_atRound (by rw [control']; rfl), stack_eq,
          round_of_not_atRound (by rw [control]; rfl)]
      by_cases hroom : c.burrow.HasRoom realloc
      · constructor
        · intro hnone hwaits
          have hregisters : Registers (.watchFd fd watched realloc) c := ⟨control, watchFdFn, hroom⟩
          rw [watchEvents_of_registers (hround ▸ hnone) hregisters,
            waits_append_singleton] at hwaits
          exact absurd hwaits (by simp [WatchEvent.waits])
        · intro pfd watchSize hsome hwaits
          obtain ⟨rfl, hall⟩ := h.of_round (hround ▸ hsome) hwaits
          rw [burrow']
          exact ⟨rfl, allRaised_burrowInternalWatchFd fd watched realloc hall⟩
      · rw [burrowInternalWatchFd_of_full fd watched hroom] at burrow'
        refine h.stay nofun (fun hcancels => ?_) (by rw [burrow']) (by rw [burrow']) hround
        exact absurd (control.symm.trans (control_of_cancels hcancels).1) (by simp)
  | empties control _ _ watchSize' pfds_eq round_eq =>
      refine ⟨fun _ _ => watchSize', fun pfd watchSize hsome hwaits => ?_⟩
      rw [pfds_eq]
      exact h.of_round (round_eq ▸ hsome) hwaits
  | @begins revents label_eq control control' watchSize_eq pfds' =>
      subst label_eq
      have hround : c.round = none := by
        rw [round_of_not_atRound (by rw [control]; rfl)]
        exact findSome?_round_of_inPoll hwatching.nested hwatching.polling (by rw [control]; rfl)
      have hround' := round_of_pollLoop control'
      rw [watchEvents_of_poll hround control]
      refine ⟨fun hnone => absurd (hround'.symm.trans hnone) (by simp), ?_⟩
      intro pfd watchSize hsome hwaits
      cases hround'.symm.trans hsome
      rw [waits_append_singleton, WatchEvent.waits, decide_eq_false_iff_not] at hwaits
      rw [pfds']
      exact ⟨rfl, allRaised_mapIdx hwatching.sized.watchSize_le hwaits⟩
  | dispatches label_eq control _ _ _ control' stack' burrow_eq =>
      have hround : c'.round = c.round := by
        rw [round_of_not_atRound (by rw [control']; rfl), stack', round_of_pollLoop control]
        rfl
      refine h.stay (by simp [label_eq]) (fun hcancels => ?_) (by rw [burrow_eq])
        (by rw [burrow_eq]) hround
      exact absurd (control.symm.trans (control_of_cancels hcancels).1) (by simp)
  | skips _ control pfd_lt silent control' burrow_eq =>
      have hround' := round_of_pollLoop control'
      refine ⟨fun hnone => absurd (hround'.symm.trans hnone) (by simp), ?_⟩
      -- a round that passes over an entry has a silent one
      intro pfd watchSize hsome hwaits
      obtain ⟨entry, hentry, hraised⟩ := (h.of_round (round_of_pollLoop control) hwaits).2 _ pfd_lt
      exact absurd hraised (by simp [silent entry hentry])
  | drops control stack_eq control' _ pfds' =>
      have hround := round_of_not_atRound (c := c) (by rw [control]; rfl)
      rw [stack_eq] at hround
      have hround' := round_of_pollLoop control'
      refine ⟨fun hnone => absurd (hround'.symm.trans hnone) (by simp), ?_⟩
      intro pfd watchSize hsome hwaits
      cases hround'.symm.trans hsome
      obtain ⟨rfl, hall⟩ := h.of_round hround hwaits
      rw [pfds']
      exact ⟨rfl, allRaised_dropPfd hall⟩
  | ends _ control done control' watchSize' _ stack_eq =>
      have hnone : c'.round = none := by
        rw [round_of_not_atRound (by rw [control']; rfl), stack_eq]
        exact findSome?_round_of_inPoll hwatching.nested hwatching.polling (by rw [control]; rfl)
      refine ⟨fun _ hwaits => ?_, fun _ _ hsome => absurd (hnone.symm.trans hsome) (by simp)⟩
      obtain ⟨rfl, -⟩ := h.of_round (round_of_pollLoop control) hwaits
      rw [watchSize']
      exact Nat.eq_zero_of_not_pos done

end Listed

/-! ## Commands that are over -/

/-- The command is over: it is finished, or it has been cleared. -/
def Over (c : Config) : Prop :=
  c.burrow.state = .idle ∨ c.burrow.state = .finish ∨ c.burrow.cmd.commandFn = none

/-- What holds in a run on which no descriptor is left behind. -/
structure Swept (backend : BackendFunctions) (shown : List WatchEvent) (c : Config) : Prop where
  watching : Watching backend c
  waited : .pollFds ∈ drivers c.stack → c.burrow.state ≠ .idle
  listed : Listed shown c
  ended : Over c → waits shown = false

section Invariant

variable {backend : BackendFunctions} {label : Label} {c c' : Config} {shown : List WatchEvent}
  {trace : List Event}

/-- The front end becomes idle when a command is finished. -/
theorem Drive.idle (hdrive : Drive label c c' trace) (hidle : c'.burrow.state = .idle) :
    c.burrow.state = .idle ∨ c.burrow.state = .finish := by
  cases hdrive with
  | quiet _ _ _ same => exact Or.inl (same.state_eq.symm.trans hidle)
  | accepts _ _ _ _ _ state' _ _ _ => exact absurd (state'.symm.trans hidle) (by simp)
  | cancels _ _ _ state_eq _ _ _ => exact Or.inl (state_eq.symm.trans hidle)
  | raises _ _ _ _ state' _ _ => exact absurd (state'.symm.trans hidle) (by simp)
  | starts _ _ _ _ _ same => exact Or.inl (same.state_eq.symm.trans hidle)
  | resumes _ _ _ _ _ same => exact Or.inl (same.state_eq.symm.trans hidle)
  | answers _ _ _ _ state' _ _ _ =>
      rw [hidle] at state'
      split at state'
      · exact absurd state' (by simp)
      · exact absurd state' (by simp)
  | aborts _ _ _ _ same _ _ => exact Or.inl (same.state_eq.symm.trans hidle)
  | completes _ _ _ state _ _ _ => exact Or.inr state
  | passes _ _ _ state _ _ _ => exact Or.inr state
  | reenters _ _ _ _ _ same => exact Or.inl (same.state_eq.symm.trans hidle)
  | enters _ _ _ _ _ state_eq _ => exact Or.inl (state_eq.symm.trans hidle)
  | leaves _ _ _ _ _ state_eq _ => exact Or.inl (state_eq.symm.trans hidle)
  | blocks _ _ _ _ same => exact Or.inl (same.state_eq.symm.trans hidle)
  | polls _ _ _ _ same => exact Or.inl (same.state_eq.symm.trans hidle)
  | fails _ _ _ _ same => exact Or.inl (same.state_eq.symm.trans hidle)

/-- The command function is cleared by `burrow_cancel`. -/
theorem Drive.cleared (hdrive : Drive label c c' trace)
    (hnone : c'.burrow.cmd.commandFn = none) :
    c.burrow.cmd.commandFn = none ∨ Clears label c := by
  have hcmd : c'.burrow.cmd = c.burrow.cmd → c.burrow.cmd.commandFn = none := fun heq =>
    heq ▸ hnone
  cases hdrive with
  | quiet _ _ _ same => exact Or.inl (hcmd same.cmd_eq)
  | accepts _ _ _ _ _ _ carried _ _ => exact absurd (carried.1.symm.trans hnone) (by simp)
  | cancels _ _ _ _ _ _ clears => exact Or.inr clears
  | raises _ _ _ _ _ cmd_eq _ => exact Or.inl (hcmd cmd_eq)
  | starts _ _ _ _ _ same => exact Or.inl (hcmd same.cmd_eq)
  | resumes _ _ _ _ _ same => exact Or.inl (hcmd same.cmd_eq)
  | answers _ _ _ _ _ cmd_eq _ _ => exact Or.inl (hcmd cmd_eq)
  | aborts _ _ _ _ same _ _ => exact Or.inl (hcmd same.cmd_eq)
  | completes _ _ _ _ _ _ commandFn_eq => exact Or.inl (commandFn_eq.symm.trans hnone)
  | passes _ _ _ _ _ _ commandFn_eq => exact Or.inl (commandFn_eq.symm.trans hnone)
  | reenters _ _ _ _ _ same => exact Or.inl (hcmd same.cmd_eq)
  | enters _ _ _ _ _ _ cmd_eq => exact Or.inl (hcmd cmd_eq)
  | leaves _ _ _ _ _ _ cmd_eq => exact Or.inl (hcmd cmd_eq)
  | blocks _ _ _ _ same => exact Or.inl (hcmd same.cmd_eq)
  | polls _ _ _ _ same => exact Or.inl (hcmd same.cmd_eq)
  | fails _ _ _ _ same => exact Or.inl (hcmd same.cmd_eq)

/-- While `burrow_process` waits for `burrow_internal_poll_fds` a command is pending. -/
theorem Swept.waited_step (h : Swept backend shown c)
    (hdrive : Drive label c c' trace)
    (hpoll : .pollFds ∈ drivers c'.stack) : c'.burrow.state ≠ .idle := by
  have hsame : drivers c'.stack = drivers c.stack → c'.burrow.state = c.burrow.state →
      c'.burrow.state ≠ .idle := by
    intro hdrivers hstate
    rw [hstate]
    exact h.waited (hdrivers ▸ hpoll)
  have hnil : drivers c'.stack = [] → c'.burrow.state ≠ .idle := by
    intro hnil
    rw [hnil] at hpoll
    exact absurd hpoll List.not_mem_nil
  have hother : ∀ state : BurrowState, c'.burrow.state = state → state ≠ .idle →
      c'.burrow.state ≠ .idle := by
    intro state hstate hne
    rw [hstate]
    exact hne
  cases hdrive with
  | quiet _ _ drivers_eq same => exact hsame drivers_eq same.state_eq
  | accepts _ _ _ _ _ state' _ _ _ => exact hother _ state' (by simp)
  | cancels _ _ drivers_eq state_eq _ _ _ => exact hsame drivers_eq state_eq
  | raises _ _ _ _ state' _ _ => exact hother _ state' (by simp)
  | starts _ _ _ state _ same => exact hother _ (same.state_eq.trans state) (by simp)
  | resumes _ _ _ state _ same => exact hother _ (same.state_eq.trans state) (by simp)
  | polls _ _ _ state same => exact hother _ (same.state_eq.trans state) (by simp)
  | blocks _ _ _ state same => exact hother _ (same.state_eq.trans state) (by simp)
  | answers control _ works stack_eq _ _ _ _ =>
      exact hnil (h.watching.nested.pop control (drives_of_works works) stack_eq).1
  | aborts control _ stack_eq stack_eq' _ _ _ =>
      have hloop : c.control.inLoop = false := by rw [control]; rfl
      apply hnil
      rw [stack_eq', drivers_cons_of_not rfl]
      exact (h.watching.nested.pop hloop rfl stack_eq).1
  | completes control _ stack_eq _ _ _ _ =>
      rw [stack_eq, drivers_cons_of_drives rfl, (h.watching.nested.loop control).1] at hpoll
      exact absurd hpoll (by simp)
  | passes control _ stack_eq _ _ _ _ =>
      exact hnil (by rw [stack_eq]; exact (h.watching.nested.loop control).1)
  | reenters control _ drives _ stack_eq _ =>
      exact hnil (h.watching.nested.pop control drives stack_eq).1
  | enters _ _ stack_eq _ _ state_eq _ => exact hsame (by rw [stack_eq]) state_eq
  | leaves _ _ stack_eq _ _ state_eq _ => exact hsame (by rw [stack_eq]) state_eq
  | fails control _ _ stack_eq _ =>
      have hloop : c.control.inLoop = false := by rw [control]; rfl
      exact hnil (h.watching.nested.pop hloop rfl stack_eq).1

/-- A step that registers nothing astray leaves nothing to wait for where the command is
over. -/
theorem Swept.ended_stays (h : Swept backend shown c) (hstray : ¬ Stray label c) (hover : Over c) :
    waits (shown ++ watchEvents label c) = false := by
  have hwaits := h.ended hover
  rcases watchEvents_cases label c with
    hnil | ⟨hround, ⟨-, hregisters⟩ | hcancels | ⟨revents, -, hanswers⟩⟩
  · rw [hnil, List.append_nil]
    exact hwaits
  · have hcontrol : c.control = .environment := by
      cases label with
      | watchFd fd watched realloc => exact hregisters.1
      | _ => exact absurd hregisters (by simp [Registers])
    rcases hover with hidle | hfinish | hnone
    · exact absurd ⟨hregisters, Or.inl hidle⟩ hstray
    · exact absurd (h.watching.nested.finish hfinish) (by simp [hcontrol, Control.inLoop])
    · exact absurd ⟨hregisters, Or.inr ⟨hnone, hround⟩⟩ hstray
  · rw [hcancels, waits_append_singleton]
    rfl
  -- the list is empty, and `poll` cannot be silent on any of it
  · rw [hanswers, waits_append_singleton, WatchEvent.waits, decide_eq_false_iff_not,
      h.listed.left hround hwaits]
    rintro ⟨i, hi, -⟩
    exact Nat.not_lt_zero i hi

/-- A command that is over was so before, or this step finishes or clears it. -/
theorem over_cases (hnested : Nested c) (hstep : frontStep label c = .ok c') (hover : Over c') :
    Over c ∨ Finishes label c ∨ Clears label c := by
  have hdrive := drive_of_step hstep
  rcases hover with hidle | hfinish | hnone
  · exact Or.inl (or_assoc.1 (Or.inl (hdrive.idle hidle)))
  · obtain ⟨hresult, hworks⟩ := hdrive.finish hnested hfinish
    refine Or.inr (Or.inl ⟨?_, hresult, hworks⟩)
    cases label with
    | returns code => exact environment_of_returns hstep
    | _ => exact absurd hresult (by simp [Label.isResult])
  · rcases hdrive.cleared hnone with hnone | hclears
    · exact Or.inl (Or.inr (Or.inr hnone))
    · exact Or.inr (Or.inr hclears)

/-- **A step on which no descriptor is left behind keeps the invariant.** -/
theorem Swept.step (h : Swept backend shown c) (hno : ¬ Leaks shown label c)
    (hstep : frontStep label c = .ok c') : Swept backend (shown ++ watchEvents label c) c' where
  watching := h.watching.step hstep
  waited := h.waited_step (drive_of_step hstep)
  listed := h.listed.step h.watching hstep
  ended hover := by
    rcases over_cases h.watching.nested hstep hover with hbefore | hends
    · exact h.ended_stays (fun hstray => hno (Or.inl hstray)) hbefore
    · exact Bool.eq_false_iff.2 fun hwaits => hno (Or.inr ⟨hends, hwaits⟩)

/-- In the loop of `burrow_process` no round is under way. -/
theorem Swept.round_of_loop (h : Swept backend shown c) (hloop : c.control.inLoop = true) :
    c.round = none := by
  have hround : c.round = c.stack.findSome? Frame.round := by
    unfold Config.round
    cases hcontrol : c.control with
    | pollLoop pfd watchSize => exact absurd hloop (by simp [hcontrol, Control.inLoop])
    | _ => rfl
  rw [hround]
  exact findSome?_round h.watching.polling.stack
    (notMem_of_drivers_nil rfl (h.watching.nested.loop hloop).1)

/-- Nor is one where the front end is idle. -/
theorem Swept.round_of_idle (h : Swept backend shown c) (hidle : c.burrow.state = .idle) :
    c.round = none := by
  have hpoll : .pollFds ∉ c.stack := fun hmem =>
    h.waited ((mem_drivers rfl).2 hmem) hidle
  have houtside : c.control.atRound = false := by
    cases hcontrol : c.control with
    | pollLoop pfd watchSize =>
        obtain ⟨rest, hstack⟩ := List.head?_eq_some_iff.1
          (h.watching.polling.top (by rw [hcontrol]; rfl))
        exact absurd (hstack ▸ List.mem_cons_self) hpoll
    | _ => rfl
  rw [round_of_not_atRound houtside]
  exact findSome?_round h.watching.polling.stack hpoll

end Invariant

/-! ## Runs -/

theorem swept_create (memory : FrontCommand) (selfallocated : Bool) (backend : BackendFunctions)
    (watchFdFn : Bool) :
    Swept backend [] (Config.create memory selfallocated backend watchFdFn) where
  watching := watching_create memory selfallocated backend watchFdFn
  waited hpoll := absurd hpoll (by simp [Config.create, drivers])
  listed :=
    ⟨fun _ _ => rfl, fun _ _ hround => absurd hround (by simp [Config.round, Config.create])⟩
  ended _ := rfl

/-- **No descriptor outlives its command.** In a run on which none is left behind no
descriptor is watched where the front end is idle, nor where the pending command has
been cleared by `burrow_cancel` and no round of `burrow_internal_poll_fds` is under
way, as it is when control has returned to `burrow_process`. -/
theorem no_descriptor_left (memory : FrontCommand) (selfallocated : Bool)
    (backend : BackendFunctions) (watchFdFn : Bool) {labels : List Label} {c : Config}
    (hrun : Machine.run frontStep labels (Config.create memory selfallocated backend watchFdFn) =
      .ok c)
    (hno : Machine.AlongTrace frontStep watchEvents (fun shown label c => ¬ Leaks shown label c) []
      labels (Config.create memory selfallocated backend watchFdFn)) :
    (c.burrow.state = .idle → c.burrow.watchSize = 0) ∧
    (c.burrow.cmd.commandFn = none → c.round = none → c.burrow.watchSize = 0) ∧
    (c.burrow.cmd.commandFn = none → c.control.inLoop = true → c.burrow.watchSize = 0) := by
  have hswept := Machine.history_invariant frontStep watchEvents (I := Swept backend)
    (fun shown label s s' hlabel hI hstep => hI.step hlabel hstep) hno
    (swept_create memory selfallocated backend watchFdFn) hrun
  have hcleared : c.burrow.cmd.commandFn = none → c.round = none → c.burrow.watchSize = 0 :=
    fun hnone hround => hswept.listed.left hround (hswept.ended (Or.inr (Or.inr hnone)))
  refine ⟨fun hidle => ?_, hcleared, fun hnone hloop => ?_⟩
  · exact hswept.listed.left (hswept.round_of_idle hidle) (hswept.ended (Or.inl hidle))
  · exact hcleared hnone (hswept.round_of_loop hloop)

/-- A command waits for two descriptors, of which one is raised. -/
def halfRaisedRun : List Label :=
  [.issue (.getAccounts none), .tau, .process, .tau, .tau, .watchFd 3 ⟨true, false⟩ .moves,
    .watchFd 4 ⟨true, false⟩ .inPlace, .returns EAGAIN, .tau, .tau,
    .pollRaised fun i => if i = 0 then pollin else 0, .tau, .tau]

/-- The backend goes on waiting for the other one, which is raised in the next round; then the
command is finished. -/
def twoPollsRun : List Label :=
  halfRaisedRun ++ [.returns EAGAIN, .tau, .tau, .tau, .tau, .tau, .tau,
    .pollRaised fun _ => pollin, .tau, .tau, .returns 0, .tau, .tau, .tau, .tau, .returns 0, .tau]

theorem no_descriptor_left_twoPollsRun :
    ∃ c, Machine.run frontStep twoPollsRun (Config.create default true waitingBackend false) =
        .ok c ∧ c.burrow.state = .idle ∧ c.burrow.watchSize = 0 :=
  ⟨_, rfl, rfl, (@no_descriptor_left default true waitingBackend false twoPollsRun _ rfl
    (by decide)).1 rfl⟩

/-- The event makes the backend ready, and the command is finished. -/
def finishedRun : List Label :=
  halfRaisedRun ++ [.returns 0, .tau, .tau, .tau, .tau, .tau, .returns 0, .tau]

/-- The next command has the descriptor that was left dispatched to the backend. -/
def nextRun : List Label :=
  finishedRun ++ [.tau, .tau, .issue (.deleteAccounts none), .tau, .process, .tau, .tau,
    .returns EAGAIN, .tau, .tau, .pollRaised fun _ => pollin, .tau, .tau]

/-- The backend fails on the event, and `burrow_cancel` clears the command. -/
def failedRun : List Label :=
  halfRaisedRun ++ [.returns 5, .tau, .returns 0, .tau, .tau, .tau, .tau, .tau]

/-- A silent descriptor outlives its command when the command is finished, and is
dispatched during the next one; and it outlives `burrow_cancel` in a round. -/
theorem descriptor_left :
    (∃ c, Machine.run frontStep finishedRun
        (Config.create default true waitingBackend false) = .ok c ∧
      c.burrow.state = .idle ∧ c.burrow.watchSize = 1) ∧
    (∃ c, Machine.run frontStep nextRun (Config.create default true waitingBackend false) = .ok c ∧
      c.burrow.cmd.command = some .deleteAccounts ∧
      c.stack.head? = some (.eventRaisedFn 4 ⟨true, false⟩)) ∧
    ∃ c, Machine.run frontStep failedRun (Config.create default true waitingBackend false) = .ok c ∧
      c.control = .loop 0 ∧ c.burrow.cmd.commandFn = none ∧ c.burrow.watchSize = 1 :=
  ⟨⟨_, rfl, rfl, rfl⟩, ⟨_, rfl, rfl, rfl⟩, _, rfl, rfl, rfl, rfl⟩

end Burrow.Frontend
