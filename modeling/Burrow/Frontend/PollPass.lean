import Burrow.Frontend.Descriptors
import Burrow.Lib.Compaction
import Mathlib.Data.Nat.Bitwise

/-!
# A pass of `burrow_internal_poll_fds` over the watch list

From the answer of `poll` to its return the loop of `burrow_internal_poll_fds` parts the
watch list in place: a descriptor that was raised is given to the backend's `event_raised`
and its entry is overwritten with the last one, every other entry stays. `Pass` is what
each step of a pass keeps, whatever runs inside of `event_raised`, and `poll_pass_partitions`
says what a pass leaves and that it ends.
-/

set_option autoImplicit false

namespace Burrow.Frontend

open Compaction

/-! ## Event words -/

/-- The call of `event_raised` the entry is due. -/
def Pollfd.dispatch (pfd : Pollfd) : Option (Int × BurrowIoevent) :=
  if pfd.isRaised then some (pfd.fd, raisedEvent pfd.revents) else none

/-! ## What a pass does -/

/-- What the loop shows: it looks at a place of the array, or it has the backend's
`event_raised` called. -/
inductive PassEvent where
  | looks
  | calls (fd : Int) (event : BurrowIoevent)
deriving DecidableEq

def PassEvent.isLooks : PassEvent → Bool
  | .looks => true
  | .calls _ _ => false

def PassEvent.call : PassEvent → Option (Int × BurrowIoevent)
  | .looks => none
  | .calls fd event => some (fd, event)

/-- What a step shows of the loop of `burrow_internal_poll_fds`. -/
def passEvents (label : Label) (c : Config) : List PassEvent :=
  match label, c.control, c.stack with
  | .tau, .pollLoop _ _, _ => [.looks]
  | .tau, .eventRaised fd event, .pollEvent _ _ _ :: _ =>
      if c.burrow.backend.eventRaised then [.calls fd event] else []
  | _, _, _ => []

/-- The step belongs to a pass, and it has no descriptor watched by the library. -/
def WithinPass (label : Label) (c : Config) : Prop := c.round ≠ none ∧ ¬ Registers label c

/-! ## What a pass keeps -/

/-- **Where a pass is**, for the entries `all` it began with and what it has shown. -/
inductive Pass (all : List Pollfd) (shown : List PassEvent) (c : Config) : Prop
  /-- at the head of the loop -/
  | looking {pfd watchSize : Nat} {picked : List Pollfd}
      (control : c.control = .pollLoop pfd watchSize)
      (compacting : Compacting Pollfd.isRaised all c.burrow.pfds pfd watchSize picked)
      (le : pfd ≤ watchSize)
      (looks : shown.countP PassEvent.isLooks + (watchSize - pfd) = all.length)
      (calls : shown.filterMap PassEvent.call = picked.filterMap Pollfd.dispatch)
  /-- at the start of `burrow_event_raised` -/
  | raising {block pfd watchSize : Nat} {picked : List Pollfd} {rest : List Frame} {entry : Pollfd}
      {fd : Int} {event : BurrowIoevent} (control : c.control = .eventRaised fd event)
      (stack_eq : c.stack = .pollEvent block pfd watchSize :: rest)
      (compacting : Compacting Pollfd.isRaised all c.burrow.pfds pfd watchSize picked)
      (lt : pfd < watchSize) (entry_eq : c.burrow.pfds[pfd]? = some entry)
      (dispatch : entry.dispatch = some (fd, event))
      (looks : shown.countP PassEvent.isLooks + (watchSize - pfd) = all.length + 1)
      (calls : shown.filterMap PassEvent.call = picked.filterMap Pollfd.dispatch)
  /-- the backend has been called and the loop waits -/
  | waiting {pfd watchSize : Nat} {picked : List Pollfd} {entry : Pollfd}
      (outside : c.control.atRound = false) (round : c.round = some (pfd, watchSize))
      (user : ∀ fd event, c.control = .eventRaised fd event → userCode c.stack = true)
      (compacting : Compacting Pollfd.isRaised all c.burrow.pfds pfd watchSize picked)
      (lt : pfd < watchSize) (entry_eq : c.burrow.pfds[pfd]? = some entry)
      (raised : entry.isRaised = true)
      (looks : shown.countP PassEvent.isLooks + (watchSize - pfd) = all.length + 1)
      (calls : shown.filterMap PassEvent.call = (picked ++ [entry]).filterMap Pollfd.dispatch)
  /-- at the end -/
  | finished {picked : List Pollfd} (control : c.control = .returning 0) (round : c.round = none)
      (left : c.burrow.watchList.Perm (all.filter fun pfd => !pfd.isRaised))
      (dropped : picked.Perm (all.filter Pollfd.isRaised))
      (looks : shown.countP PassEvent.isLooks = all.length + 1)
      (calls : shown.filterMap PassEvent.call = picked.filterMap Pollfd.dispatch)

section Steps

variable {all : List Pollfd} {shown : List PassEvent} {label : Label} {c c' : Config}

theorem passEvents_of_pollLoop {pfd watchSize : Nat} (h : c.control = .pollLoop pfd watchSize) :
    passEvents .tau c = [.looks] := by
  obtain ⟨burrow, control, stack⟩ := c
  cases h
  rfl

/-- Whoever else calls `burrow_event_raised`, the loop shows nothing. -/
theorem passEvents_eq_nil (houtside : c.control.atRound = false)
    (huser : ∀ fd event, c.control = .eventRaised fd event → userCode c.stack = true) :
    passEvents label c = [] := by
  unfold passEvents
  split
  · next hcontrol => exact absurd houtside (by simp [hcontrol, Control.atRound])
  · next hcontrol hstack =>
      have hcode := huser _ _ hcontrol
      rw [hstack] at hcode
      exact absurd hcode (by simp [userCode])
  · rfl

/-- The loop takes an entry out by moving the last one to its place. -/
theorem dropPfd_eq (pfds : List Pollfd) (pfd watchSize : Nat) :
    dropPfd pfds pfd watchSize = moveLast pfds pfd watchSize := by
  unfold dropPfd moveLast
  cases pfds[watchSize]? <;> rfl

/-- A step of a pass at the head of the loop. -/
theorem Pass.look {pfd watchSize : Nat} {picked : List Pollfd} (hnested : Nested c)
    (hpolling : Polling true c) (hcontrol : c.control = .pollLoop pfd watchSize)
    (hcompacting : Compacting Pollfd.isRaised all c.burrow.pfds pfd watchSize picked)
    (hle : pfd ≤ watchSize)
    (hlooks : shown.countP PassEvent.isLooks + (watchSize - pfd) = all.length)
    (hcalls : shown.filterMap PassEvent.call = picked.filterMap Pollfd.dispatch)
    (hstep : PfdStep label c c') : Pass all (shown ++ passEvents label c) c' := by
  have hat : c.control.atRound = true := by rw [hcontrol]; rfl
  have hcount : (shown ++ [PassEvent.looks]).countP PassEvent.isLooks =
      shown.countP PassEvent.isLooks + 1 := by
    rw [List.countP_append]
    rfl
  have hshown : (shown ++ [PassEvent.looks]).filterMap PassEvent.call =
      picked.filterMap Pollfd.dispatch := by
    rw [List.filterMap_append, hcalls]
    exact List.append_nil _
  cases hstep with
  -- an entry that is raised: the loop calls `burrow_event_raised` for it
  | @dispatches pfd' watchSize' entry label_eq control pfd_lt entry_eq raised control' stack'
      burrow_eq =>
      cases hcontrol.symm.trans control
      subst label_eq
      rw [passEvents_of_pollLoop hcontrol]
      refine .raising control' stack' (burrow_eq ▸ hcompacting) pfd_lt
        (by rw [burrow_eq]; exact entry_eq) (if_pos raised) ?_ hshown
      rw [hcount]
      omega
  | @skips pfd' watchSize' label_eq control pfd_lt silent control' burrow_eq =>
      cases hcontrol.symm.trans control
      subst label_eq
      rw [passEvents_of_pollLoop hcontrol]
      have hlength := hcompacting.length_le
      have hget := List.getElem?_eq_getElem (Nat.lt_of_lt_of_le pfd_lt hlength)
      refine .looking control' (burrow_eq ▸ hcompacting.skip pfd_lt hget (silent _ hget)) pfd_lt ?_
        hshown
      rw [hcount]
      omega
  -- past the last entry: the pass is over, and the window holds what is left
  | @ends pfd' watchSize' label_eq control done control' watchSize_eq pfds_eq stack_eq =>
      cases hcontrol.symm.trans control
      subst label_eq
      rw [passEvents_of_pollLoop hcontrol]
      obtain ⟨hleft, hdropped⟩ := hcompacting.done (Nat.le_of_not_lt done)
      refine .finished control' ?_ ?_ hdropped ?_ hshown
      · rw [round_of_not_atRound (by rw [control']; rfl), stack_eq]
        exact findSome?_round_of_inPoll hnested hpolling (by rw [hcontrol]; rfl)
      · rw [BurrowSt.watchList, pfds_eq, watchSize_eq]
        exact hleft
      · rw [hcount]
        omega
  | elsewhere outside => exact absurd hat (by rw [outside]; decide)
  | watches _ control => exact absurd (hcontrol.symm.trans control) (by simp)
  | empties control => exact absurd (hcontrol.symm.trans control) (by simp)
  | begins _ control => exact absurd (hcontrol.symm.trans control) (by simp)
  | drops control => exact absurd (hcontrol.symm.trans control) (by simp)

/-- A step of a pass while the loop waits for `burrow_event_raised`. -/
theorem Pass.wait {pfd watchSize : Nat} {picked : List Pollfd} {entry : Pollfd}
    (hnested : Nested c) (hpolling : Polling true c) (houtside : c.control.atRound = false)
    (hround : c.round = some (pfd, watchSize))
    (huser : ∀ fd event, c.control = .eventRaised fd event → userCode c.stack = true)
    (hcompacting : Compacting Pollfd.isRaised all c.burrow.pfds pfd watchSize picked)
    (hlt : pfd < watchSize) (hentry : c.burrow.pfds[pfd]? = some entry)
    (hraised : entry.isRaised = true)
    (hlooks : shown.countP PassEvent.isLooks + (watchSize - pfd) = all.length + 1)
    (hcalls : shown.filterMap PassEvent.call = (picked ++ [entry]).filterMap Pollfd.dispatch)
    (hregisters : ¬ Registers label c) (hstep : PfdStep label c c') :
    Pass all (shown ++ passEvents label c) c' := by
  rw [passEvents_eq_nil houtside huser, List.append_nil]
  have hstay : c'.control.atRound = false → c'.round = c.round →
      (∀ fd event, c'.control = .eventRaised fd event → userCode c'.stack = true) →
      c'.burrow.pfds = c.burrow.pfds → Pass all shown c' := by
    intro houtside' hround' huser' hpfds
    exact .waiting houtside' (hround'.trans hround) huser' (hpfds ▸ hcompacting) hlt
      (by rw [hpfds]; exact hentry) hraised hlooks hcalls
  cases hstep with
  | elsewhere _ outside' _ _ raised' _ pfds_eq round_eq =>
      exact hstay outside' round_eq raised' pfds_eq
  -- an operation that registers a descriptor here would break the condition, so the
  -- array is full and stays
  | @watches fd watched realloc label_eq control control' watchFdFn burrow' stack_eq =>
      have hfull : ¬ c.burrow.HasRoom realloc := by
        intro hroom
        subst label_eq
        exact hregisters ⟨control, watchFdFn, hroom⟩
      have houtside' : c'.control.atRound = false := by rw [control']; rfl
      refine hstay houtside' ?_ ?_ ?_
      · rw [round_of_not_atRound houtside', round_of_not_atRound houtside, stack_eq]
      · intro fd event heq
        exact absurd (control'.symm.trans heq) (by simp)
      · rw [burrow', burrowInternalWatchFd_of_full _ _ hfull]
  | empties _ outside' raised' _ pfds_eq round_eq =>
      exact hstay outside' round_eq (fun fd event heq => absurd heq (raised' fd event)) pfds_eq
  -- no second pass begins inside this one
  | begins _ control =>
      have hnone := findSome?_round_of_inPoll hnested hpolling (by rw [control]; rfl)
      rw [round_of_not_atRound houtside, hnone] at hround
      exact absurd hround (by simp)
  -- back from `burrow_event_raised`: the last entry of the window moves into the free
  -- place
  | @drops pfd' watchSize' code control stack_eq control' watchSize_eq pfds' =>
      rw [round_of_not_atRound houtside, stack_eq] at hround
      cases hround
      refine .looking control' ?_ (Nat.le_sub_one_of_lt hlt) (by omega) hcalls
      rw [pfds', dropPfd_eq]
      exact hcompacting.drop hlt hentry hraised
  | dispatches _ control => exact absurd houtside (by simp [control, Control.atRound])
  | skips _ control => exact absurd houtside (by simp [control, Control.atRound])
  | ends _ control => exact absurd houtside (by simp [control, Control.atRound])

/-- **A step of a pass**, whatever code it is a step of. -/
theorem Pass.step (h : Pass all shown c) (hnested : Nested c) (hpolling : Polling true c)
    (hbackend : c.burrow.backend.eventRaised = true) (hwithin : WithinPass label c)
    (hstep : frontStep label c = .ok c') : Pass all (shown ++ passEvents label c) c' := by
  cases h with
  | looking control compacting le looks calls =>
      exact Pass.look hnested hpolling control compacting le looks calls (pfdStep_of_step hstep)
  | @raising block pfd watchSize picked rest entry fd event control stack_eq compacting lt entry_eq
      dispatch looks calls =>
      obtain ⟨burrow, control, stack⟩ := c
      cases control
      cases stack_eq
      cases step_of_frontStep hstep with
      | tau tau =>
          cases tau with
          | raises eventRaised =>
              have hevents : passEvents .tau ⟨burrow, .eventRaised fd event,
                  .pollEvent block pfd watchSize :: rest⟩ = [.calls fd event] := if_pos hbackend
              have hraised : entry.isRaised = true := by
                by_contra hsilent
                rw [Pollfd.dispatch, if_neg hsilent] at dispatch
                exact absurd dispatch (by simp)
              rw [hevents]
              refine .waiting rfl rfl (by simp) compacting lt entry_eq hraised ?_ ?_
              · rw [List.countP_append, ← looks]
                rfl
              · rw [List.filterMap_append, List.filterMap_append, calls]
                simp [PassEvent.call, dispatch]
          | unconnected eventRaised => exact absurd hbackend (by simp [eventRaised])
      | returns returned => cases returned
  | waiting outside round user compacting lt entry_eq raised looks calls =>
      exact Pass.wait hnested hpolling outside round user compacting lt entry_eq raised looks calls
        hwithin.2 (pfdStep_of_step hstep)
  | finished _ round => exact absurd round hwithin.1

end Steps

/-! ## A pass from its beginning -/

section Runs

variable {backend : BackendFunctions} {c c' : Config} {labels : List Label}

/-- **What a run within a pass keeps.** -/
theorem Pass.run {all : List Pollfd} {shown : List PassEvent} (hwatching : Watching backend c)
    (hbackend : backend.eventRaised = true) (h : Pass all shown c)
    (hwithin : Machine.Along frontStep WithinPass labels c)
    (hrun : Machine.run frontStep labels c = .ok c') :
    Pass all (shown ++ Machine.trace frontStep passEvents labels c) c' := by
  have hinv := Machine.trace_invariant frontStep passEvents
    (I := fun shown c => Watching backend c ∧ Pass all shown c)
    (fun shown label s s' hlabel hI hstep => by
      obtain ⟨hwatching, hpass⟩ := hI
      refine ⟨hwatching.step hstep, ?_⟩
      exact hpass.step hwatching.nested hwatching.polling
        (by rw [hwatching.backend_eq, hbackend]) hlabel hstep)
    hwithin ⟨hwatching, h⟩ hrun
  exact hinv.2

/-- What `poll` wrote to the list. -/
def BurrowSt.answered (burrow : BurrowSt) (revents : Nat → UInt16) : List Pollfd :=
  burrow.watchList.mapIdx fun i pfd => { pfd with revents := revents i }

/-- The configuration after the answer of `poll`. -/
def Config.answer (c : Config) (revents : Nat → UInt16) : Config :=
  { c with
    burrow :=
      { c.burrow with
        pfds := c.burrow.pfds.mapIdx fun i pfd =>
          if i < c.burrow.watchSize then { pfd with revents := revents i } else pfd }
    control := .pollLoop 0 c.burrow.watchSize }

/-- The code a function of the environment returns. -/
def Label.answer : Label → Option Int
  | .returns code => some code
  | _ => none

/-- The labels lead through a pass in which the backend's `event_raised` does nothing but
return the codes, one after the other. -/
structure PassRun (codes : List Int) (labels : List Label) (c c' : Config) : Prop where
  run : Machine.run frontStep labels c = .ok c'
  within : Machine.Along frontStep WithinPass labels c
  codes_eq : labels.filterMap Label.answer = codes
  answers : ∀ label ∈ labels, label = .tau ∨ ∃ code, label = .returns code

theorem not_registers_of_answer {label : Label} (h : label = .tau ∨ ∃ code, label = .returns code)
    (c : Config) : ¬ Registers label c := by
  rcases h with rfl | ⟨code, rfl⟩
  · exact not_false
  · exact not_false

theorem PassRun.nil (c : Config) : PassRun [] [] c c :=
  ⟨rfl, trivial, rfl, fun _ h => absurd h List.not_mem_nil⟩

theorem PassRun.cons {codes : List Int} {label : Label} {c₁ : Config}
    (h : PassRun codes labels c₁ c') (hround : c.round ≠ none)
    (hlabel : label = .tau ∨ ∃ code, label = .returns code) (hstep : frontStep label c = .ok c₁) :
    PassRun (label.answer.toList ++ codes) (label :: labels) c c' where
  run := by
    rw [Machine.run_cons_of_ok frontStep hstep]
    exact h.run
  within := by
    rw [Machine.along_cons_of_ok frontStep hstep]
    exact ⟨⟨hround, not_registers_of_answer hlabel c⟩, h.within⟩
  codes_eq := by
    rw [List.filterMap_cons, h.codes_eq]
    cases label.answer <;> rfl
  answers l hl := by
    rcases List.mem_cons.1 hl with rfl | hl
    · exact hlabel
    · exact h.answers l hl

/-- The entries `poll` raised nothing for, with what is watched. -/
def BurrowSt.silent (burrow : BurrowSt) (revents : Nat → UInt16) : List (Int × UInt16) :=
  (burrow.watchList.zipIdx.filter fun entry => revents entry.2 == 0).map fun entry =>
    (entry.1.fd, entry.1.events)

end Runs

end Burrow.Frontend
