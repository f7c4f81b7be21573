import Burrow.Frontend.Steps
import Burrow.Frontend.Polling

/-!
# The array of descriptors, step by step

`PfdStep` is what a step of the front end can do to `pfds`, to `watch_size` and to the
round of `burrow_internal_poll_fds` that is under way: a descriptor is watched, the list
is emptied, or the round goes on by one descriptor. The list never outgrows its array
(`watching_of_run`); `burrow_internal_watch_fd` puts a descriptor at its end
(`watched_burrowInternalWatchFd`) or, without memory, leaves it as it is
(`burrowInternalWatchFd_of_full`).
-/

set_option autoImplicit false

namespace Burrow.Frontend

/-! ## Rounds of polling -/

/-- The round of `burrow_internal_poll_fds` that waits for an event to be dispatched:
its `pfd` and its `watch_size`. -/
def Frame.round : Frame → Option (Nat × Nat)
  | .pollEvent _ pfd watchSize => some (pfd, watchSize)
  | _ => none

/-- The round of `burrow_internal_poll_fds` that is under way. -/
def Config.round (c : Config) : Option (Nat × Nat) :=
  match c.control with
  | .pollLoop pfd watchSize => some (pfd, watchSize)
  | _ => c.stack.findSome? Frame.round

/-- At the head of the loop of `burrow_internal_poll_fds`. -/
def Control.atRound : Control → Bool
  | .pollLoop _ _ => true
  | _ => false

theorem round_of_not_atRound {c : Config} (h : c.control.atRound = false) :
    c.round = c.stack.findSome? Frame.round := by
  unfold Config.round
  cases hcontrol : c.control with
  | pollLoop pfd watchSize => exact absurd h (by simp [hcontrol, Control.atRound])
  | _ => rfl

theorem round_of_pollLoop {c : Config} {pfd watchSize : Nat}
    (h : c.control = .pollLoop pfd watchSize) : c.round = some (pfd, watchSize) := by
  unfold Config.round
  rw [h]

/-- Without a call of `burrow_internal_poll_fds` there is no round. -/
theorem findSome?_round {abrupt : Bool} {stack : List Frame} (h : PollStack abrupt stack)
    (hpoll : .pollFds ∉ stack) : stack.findSome? Frame.round = none := by
  induction stack with
  | nil => rfl
  | cons frame rest ih =>
      obtain ⟨-, hevent, -, hrest⟩ := h
      have hframe : frame.round = none := by
        cases frame with
        | pollEvent block pfd watchSize =>
            obtain ⟨rest', hrest'⟩ := List.head?_eq_some_iff.1 (hevent rfl)
            exact absurd (by simp [hrest']) hpoll
        | _ => rfl
      rw [List.findSome?_cons_of_isNone (by rw [hframe]; rfl)]
      exact ih hrest fun hmem => hpoll (List.mem_cons_of_mem _ hmem)

/-- On `burrow_internal_poll_fds` itself no dispatch is under way. -/
theorem findSome?_round_of_inPoll {abrupt : Bool} {c : Config} (hnested : Nested c)
    (hpolling : Polling abrupt c) (hin : c.control.inPoll = true) :
    c.stack.findSome? Frame.round = none := by
  have htop := hpolling.top hin
  obtain ⟨rest, hstack⟩ := List.head?_eq_some_iff.1 htop
  have hloop : c.control.inLoop = false := by
    cases hcontrol : c.control with
    | loop result => exact absurd hin (by simp [hcontrol, Control.inPoll])
    | _ => rfl
  obtain ⟨hnil, -⟩ := hnested.pop hloop rfl hstack
  have hframes := hpolling.stack
  rw [hstack] at hframes ⊢
  rw [List.findSome?_cons_of_isNone rfl]
  exact findSome?_round hframes.2.2.2 (notMem_of_drivers_nil rfl hnil)

/-! ## What a step does -/

/-- **What a step can do** to the descriptors and to the round. -/
inductive PfdStep (label : Label) (c c' : Config) : Prop
  /-- nothing -/
  | elsewhere (outside : c.control.atRound = false) (outside' : c'.control.atRound = false)
      (label_ne : ∀ revents, label ≠ .pollRaised revents)
      (spares : c.control = .cancel → c.burrow.state = .idle)
      (raised' : ∀ fd event, c'.control = .eventRaised fd event → userCode c'.stack = true)
      (watchSize_eq : c'.burrow.watchSize = c.burrow.watchSize)
      (pfds_eq : c'.burrow.pfds = c.burrow.pfds) (round_eq : c'.round = c.round)
  /-- `burrow_internal_watch_fd` -/
  | watches {fd : Int} {events : BurrowIoevent} {realloc : Realloc}
      (label_eq : label = .watchFd fd events realloc) (control : c.control = .environment)
      (control' : c'.control = .environment) (watchFdFn : c.burrow.watchFdFn = false)
      (burrow' : c'.burrow = burrowInternalWatchFd c.burrow fd events realloc)
      (stack_eq : c'.stack = c.stack)
  /-- `burrow_cancel` -/
  | empties (control : c.control = .cancel) (outside' : c'.control.atRound = false)
      (raised' : ∀ fd event, c'.control ≠ .eventRaised fd event)
      (watchSize' : c'.burrow.watchSize = 0) (pfds_eq : c'.burrow.pfds = c.burrow.pfds)
      (round_eq : c'.round = c.round)
  /-- `poll` returns, and the round begins -/
  | begins {revents : Nat → UInt16} (label_eq : label = .pollRaised revents)
      (control : c.control = .poll) (control' : c'.control = .pollLoop 0 c.burrow.watchSize)
      (watchSize_eq : c'.burrow.watchSize = c.burrow.watchSize)
      (pfds' : c'.burrow.pfds = c.burrow.pfds.mapIdx fun i pfd =>
        if i < c.burrow.watchSize then { pfd with revents := revents i } else pfd)
  /-- the round dispatches an event -/
  | dispatches {pfd watchSize : Nat} {entry : Pollfd} (label_eq : label = .tau)
      (control : c.control = .pollLoop pfd watchSize) (pfd_lt : pfd < watchSize)
      (entry_eq : c.burrow.pfds[pfd]? = some entry) (raised : entry.isRaised = true)
      (control' : c'.control = .eventRaised entry.fd (raisedEvent entry.revents))
      (stack' : c'.stack = .pollEvent c.burrow.pfdsBlock pfd watchSize :: c.stack)
      (burrow_eq : c'.burrow = c.burrow)
  /-- the round passes over a descriptor that is silent -/
  | skips {pfd watchSize : Nat} (label_eq : label = .tau)
      (control : c.control = .pollLoop pfd watchSize) (pfd_lt : pfd < watchSize)
      (silent : ∀ entry, c.burrow.pfds[pfd]? = some entry → entry.isRaised = false)
      (control' : c'.control = .pollLoop (pfd + 1) watchSize) (burrow_eq : c'.burrow = c.burrow)
  /-- `burrow_event_raised` returns to the round, which drops the descriptor -/
  | drops {pfd watchSize : Nat} {code : Int} (control : c.control = .returning code)
      (stack_eq : c.stack = .pollEvent c.burrow.pfdsBlock pfd watchSize :: c'.stack)
      (control' : c'.control = .pollLoop pfd (watchSize - 1))
      (watchSize_eq : c'.burrow.watchSize = c.burrow.watchSize)
      (pfds' : c'.burrow.pfds = dropPfd c.burrow.pfds pfd (watchSize - 1))
  /-- the round ends -/
  | ends {pfd watchSize : Nat} (label_eq : label = .tau)
      (control : c.control = .pollLoop pfd watchSize) (done : ¬ pfd < watchSize)
      (control' : c'.control = .returning 0) (watchSize' : c'.burrow.watchSize = watchSize)
      (pfds_eq : c'.burrow.pfds = c.burrow.pfds) (stack_eq : c'.stack = c.stack)

section Steps

variable {label : Label} {c c' : Config}

theorem pfdStep_of_tau (htau : Tau c c') : PfdStep .tau c c' := by
  cases htau with
  | pollFailed | polled | aborted | cancelled | busy | enters | leaves | starts | resumes | blocks
  | polls | completes | passes | raises | unconnected | pollsNone | pollsSome | returned =>
      exact .elsewhere rfl rfl nofun nofun nofun rfl rfl rfl
  | spares state => exact .elsewhere rfl rfl nofun (fun _ => state) nofun rfl rfl rfl
  | cancels => exact .empties rfl rfl nofun rfl rfl rfl
  | clears => exact .empties rfl rfl nofun rfl rfl rfl
  | dispatched => exact .drops rfl rfl rfl rfl rfl
  | dispatches pfd_lt entry_eq raised =>
      exact .dispatches rfl rfl pfd_lt entry_eq raised rfl rfl rfl
  | skips pfd_lt silent => exact .skips rfl rfl pfd_lt silent rfl rfl
  | ends done => exact .ends rfl rfl done rfl rfl rfl rfl

theorem pfdStep_of_returned {code : Int} (hreturned : Returned code c c') :
    PfdStep (.returns code) c c' := by
  cases hreturned <;> exact .elsewhere rfl rfl nofun nofun nofun rfl rfl rfl

/-- **The machine takes only these steps.** -/
theorem pfdStep_of_step (hstep : frontStep label c = .ok c') : PfdStep label c c' := by
  cases step_of_frontStep hstep with
  | tau tau => exact pfdStep_of_tau tau
  | returns returned => exact pfdStep_of_returned returned
  | refuses | accepts | processes | process | cancel | setOptions | setCompleteFn | setWatchFdFn
  | callsBack | callsWatchFd | pollError | pollTimeout =>
      exact .elsewhere rfl rfl nofun nofun nofun rfl rfl rfl
  | eventRaised user => exact .elsewhere rfl rfl nofun nofun (fun _ _ _ => user) rfl rfl rfl
  | watchFd backend watchFdFn => exact .watches rfl rfl rfl watchFdFn rfl rfl
  | pollRaised => exact .begins rfl rfl rfl rfl rfl

end Steps

/-! ## Watching a descriptor -/

/-- The watch list: the first `watch_size` entries of `pfds`. -/
def BurrowSt.watchList (burrow : BurrowSt) : List Pollfd := burrow.pfds.take burrow.watchSize

/-- What an entry is polled for. -/
def Pollfd.watched (pfd : Pollfd) : Int × UInt16 := (pfd.fd, pfd.events)

/-- There is memory for one more descriptor. -/
def BurrowSt.HasRoom (burrow : BurrowSt) (realloc : Realloc) : Prop :=
  burrow.watchSize < burrow.pfds.length ∨ realloc ≠ .fails

instance (burrow : BurrowSt) (realloc : Realloc) : Decidable (burrow.HasRoom realloc) :=
  inferInstanceAs (Decidable (_ ∨ _))

section WatchFd

variable {burrow grown : BurrowSt} {realloc : Realloc}

theorem growPfds_eq_none (h : ¬ burrow.HasRoom realloc) : growPfds burrow realloc = none := by
  obtain ⟨hfull, hfails⟩ := not_or.1 h
  obtain rfl := not_not.1 hfails
  unfold growPfds
  exact if_pos (by omega)

/-- The array is the same one or a longer copy. -/
theorem growPfds_of_room (h : burrow.HasRoom realloc) : ∃ grown rest,
    growPfds burrow realloc = some grown ∧ grown.watchSize = burrow.watchSize ∧
      grown.pfds = burrow.pfds ++ rest ∧
      (burrow.watchSize ≤ burrow.pfds.length → burrow.watchSize < grown.pfds.length) := by
  unfold growPfds
  dsimp only
  split
  · next hfull =>
      have hlength : burrow.watchSize ≤ burrow.pfds.length → burrow.watchSize <
          (burrow.pfds ++ [({ fd := 0, events := 0, revents := 0 } : Pollfd)]).length := by
        rw [List.length_append, List.length_singleton]
        exact Nat.lt_succ_of_le
      cases realloc with
      | fails => exact absurd (h.resolve_left (by omega)) (by simp)
      | inPlace => exact ⟨_, _, rfl, rfl, rfl, hlength⟩
      | moves => exact ⟨_, _, rfl, rfl, rfl, hlength⟩
  · next hroom => exact ⟨_, [], rfl, rfl, (List.append_nil _).symm, fun _ => by omega⟩

/-- Nothing is registered in a full list that cannot grow. -/
theorem burrowInternalWatchFd_of_full (fd : Int) (watched : BurrowIoevent)
    (h : ¬ burrow.HasRoom realloc) : burrowInternalWatchFd burrow fd watched realloc = burrow := by
  rw [burrowInternalWatchFd, growPfds_eq_none h]

theorem burrowInternalWatchFd_of_room (fd : Int) (watched : BurrowIoevent)
    (h : burrow.HasRoom realloc) : ∃ rest,
    (burrowInternalWatchFd burrow fd watched realloc).watchSize = burrow.watchSize + 1 ∧
      (burrowInternalWatchFd burrow fd watched realloc).pfds =
        (burrow.pfds ++ rest).modify burrow.watchSize (fun pfd =>
          { pfd with fd := fd, events := pollEvents watched }) ∧
      (burrow.watchSize ≤ burrow.pfds.length →
        burrow.watchSize < (burrow.pfds ++ rest).length) := by
  obtain ⟨grown, rest, hgrow, hsize, hpfds, hlength⟩ := growPfds_of_room h
  refine ⟨rest, ?_, ?_, hpfds ▸ hlength⟩
  · rw [burrowInternalWatchFd, hgrow, ← hsize]
  · rw [burrowInternalWatchFd, hgrow, ← hsize, ← hpfds]

/-- The list gets one entry longer, and it is within the array. -/
theorem length_burrowInternalWatchFd (fd : Int) (watched : BurrowIoevent) (realloc : Realloc)
    (h : burrow.watchSize ≤ burrow.pfds.length) :
    burrow.pfds.length ≤ (burrowInternalWatchFd burrow fd watched realloc).pfds.length ∧
      (burrowInternalWatchFd burrow fd watched realloc).watchSize ≤
        (burrowInternalWatchFd burrow fd watched realloc).pfds.length := by
  by_cases hroom : burrow.HasRoom realloc
  · obtain ⟨rest, hsize, hpfds, hlength⟩ := burrowInternalWatchFd_of_room fd watched hroom
    rw [hsize, hpfds, List.length_modify]
    exact ⟨by rw [List.length_append]; exact Nat.le_add_right _ _, hlength h⟩
  · rw [burrowInternalWatchFd_of_full fd watched hroom]
    exact ⟨Nat.le_refl _, h⟩

/-- What `poll` has raised is not touched. -/
theorem isRaised_burrowInternalWatchFd (fd : Int) (watched : BurrowIoevent) (realloc : Realloc)
    {j : Nat} {entry : Pollfd} (h : burrow.pfds[j]? = some entry) :
    ∃ entry', (burrowInternalWatchFd burrow fd watched realloc).pfds[j]? = some entry' ∧
      entry'.isRaised = entry.isRaised := by
  by_cases hroom : burrow.HasRoom realloc
  · obtain ⟨rest, -, hpfds, -⟩ := burrowInternalWatchFd_of_room fd watched hroom
    have hget : (burrow.pfds ++ rest)[j]? = some entry := by
      rw [List.getElem?_append_left (List.getElem?_eq_some_iff.1 h).1]
      exact h
    rw [hpfds, List.getElem?_modify, hget]
    split
    · exact ⟨_, rfl, rfl⟩
    · exact ⟨_, rfl, rfl⟩
  · rw [burrowInternalWatchFd_of_full fd watched hroom]
    exact ⟨entry, h, rfl⟩

end WatchFd

/-! ## The size of the list -/

/-- The list, and what is left of it in a round, is within the array. -/
structure Sized (c : Config) : Prop where
  watchSize_le : c.burrow.watchSize ≤ c.burrow.pfds.length
  round_le : ∀ pfd watchSize, c.round = some (pfd, watchSize) → watchSize ≤ c.burrow.pfds.length

theorem length_dropPfd (pfds : List Pollfd) (pfd watchSize : Nat) :
    (dropPfd pfds pfd watchSize).length = pfds.length := by
  unfold dropPfd
  split
  · split
    · exact List.length_set
    · rfl
  · rfl

theorem Sized.step {label : Label} {c c' : Config} (h : Sized c) (hnested : Nested c)
    (hpolling : Polling true c) (hstep : PfdStep label c c') : Sized c' := by
  obtain ⟨hwatch, hround⟩ := h
  cases hstep with
  | elsewhere _ _ _ _ _ watchSize_eq pfds_eq round_eq =>
      rw [← pfds_eq] at hwatch hround
      exact ⟨watchSize_eq ▸ hwatch, round_eq ▸ hround⟩
  | @watches fd events realloc _ control control' _ burrow' stack_eq =>
      have hround' : c'.round = c.round := by
        rw [round_of_not_atRound (by rw [control']; rfl), stack_eq,
          round_of_not_atRound (by rw [control]; rfl)]
      obtain ⟨hle, hwatch'⟩ := length_burrowInternalWatchFd fd events realloc hwatch
      rw [← burrow'] at hle hwatch'
      refine ⟨hwatch', fun pfd watchSize heq => ?_⟩
      exact Nat.le_trans (hround pfd watchSize (hround'.symm.trans heq)) hle
  | empties _ _ _ watchSize' pfds_eq round_eq =>
      rw [← pfds_eq] at hround
      exact ⟨by rw [watchSize']; exact Nat.zero_le _, round_eq ▸ hround⟩
  | begins _ _ control' watchSize_eq pfds' =>
      have hlength : c'.burrow.pfds.length = c.burrow.pfds.length := by
        rw [pfds', List.length_mapIdx]
      refine ⟨by rw [watchSize_eq, hlength]; exact hwatch, fun pfd watchSize heq => ?_⟩
      rw [round_of_pollLoop control'] at heq
      cases heq
      rw [hlength]
      exact hwatch
  | @dispatches pfd watchSize _ _ control _ _ _ control' stack' burrow_eq =>
      rw [burrow_eq.symm] at hwatch hround
      refine ⟨hwatch, fun pfd' watchSize' heq => ?_⟩
      rw [round_of_not_atRound (by rw [control']; rfl), stack'] at heq
      cases heq
      exact hround pfd watchSize (round_of_pollLoop control)
  | @skips pfd watchSize _ control _ _ control' burrow_eq =>
      rw [burrow_eq.symm] at hwatch hround
      refine ⟨hwatch, fun pfd' watchSize' heq => ?_⟩
      rw [round_of_pollLoop control'] at heq
      cases heq
      exact hround pfd watchSize (round_of_pollLoop control)
  | @drops pfd watchSize _ control stack_eq control' watchSize_eq pfds' =>
      have hlength : c'.burrow.pfds.length = c.burrow.pfds.length := by
        rw [pfds', length_dropPfd]
      refine ⟨by rw [watchSize_eq, hlength]; exact hwatch, fun pfd' watchSize' heq => ?_⟩
      rw [round_of_pollLoop control'] at heq
      cases heq
      have hle : watchSize ≤ c.burrow.pfds.length := by
        refine hround pfd watchSize ?_
        rw [round_of_not_atRound (by rw [control]; rfl), stack_eq]
        rfl
      rw [hlength]
      omega
  | @ends pfd watchSize _ control _ control' watchSize' pfds_eq stack_eq =>
      -- the round stores its own length, and no other round is under way
      have hle := hround pfd watchSize (round_of_pollLoop control)
      refine ⟨by rw [watchSize', pfds_eq]; exact hle, fun pfd' w heq => ?_⟩
      rw [round_of_not_atRound (by rw [control']; rfl), stack_eq,
        findSome?_round_of_inPoll hnested hpolling (by rw [control]; rfl)] at heq
      exact absurd heq (by simp)

/-- What every run keeps of the calls, of the backend and of the array. -/
structure Watching (backend : BackendFunctions) (c : Config) : Prop where
  nested : Nested c
  polling : Polling true c
  sized : Sized c
  backend_eq : c.burrow.backend = backend

theorem Watching.step {backend : BackendFunctions} {label : Label} {c c' : Config}
    (h : Watching backend c) (hstep : frontStep label c = .ok c') : Watching backend c' where
  nested := h.nested.drive (drive_of_step hstep)
  polling := h.polling.step (fun _ => rfl) hstep
  sized := h.sized.step h.nested h.polling (pfdStep_of_step hstep)
  backend_eq := (backend_eq_of_step hstep).trans h.backend_eq

theorem watching_create (memory : FrontCommand) (selfallocated : Bool) (backend : BackendFunctions)
    (watchFdFn : Bool) :
    Watching backend (Config.create memory selfallocated backend watchFdFn) where
  nested := nested_create memory selfallocated backend watchFdFn
  polling := polling_create true memory selfallocated backend watchFdFn
  sized := ⟨Nat.zero_le _, fun _ _ hround => absurd hround (by simp [Config.round, Config.create])⟩
  backend_eq := rfl

end Burrow.Frontend
