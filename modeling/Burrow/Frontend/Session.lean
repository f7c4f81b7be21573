import Burrow.Frontend.Process
import Burrow.Memory.Runs

/-!
# Sessions with the memory backend

A session is a program that uses the library with the memory backend: it makes
attributes and filters objects, changes and destroys them, issues commands and
has them processed. An object is destroyed once the command it was passed to is
complete (`Obeys`); `given` keeps what the issuing call of the pending command
passed.

The front end hands the backend whatever is in `burrow->cmd`, and `get_messages`
and `delete_messages` read the attributes in it, which their front-end functions
do not write. `reads_given_iff` says exactly when a session comes to harm by that.
-/

set_option autoImplicit false

namespace Burrow.Frontend

open Burrow.Memory

/-! ## Objects -/

/-- The user's objects behind their pointers. -/
structure Objects where
  attributes : Nat → Object BurrowAttributes
  filters : Nat → Object BurrowFilters

/-- Objects passed to a call. -/
structure Given where
  attributes : Option Nat
  filters : Option Nat
deriving DecidableEq, Repr

def Call.given (call : Call) : Given :=
  { attributes := call.attributes, filters := call.filters }

/-- Every object but those given counts as destroyed: its owner may have destroyed
it. -/
def Objects.only (objects : Objects) (given : Given) : Objects :=
  { attributes := fun p => if given.attributes = some p then objects.attributes p else .destroyed
    filters := fun p => if given.filters = some p then objects.filters p else .destroyed }

/-- The objects given can be read. -/
def Given.IsLive (given : Given) (objects : Objects) : Prop :=
  (∀ p, given.attributes = some p → (objects.attributes p).IsLive) ∧
    ∀ p, given.filters = some p → (objects.filters p).IsLive

/-- The command as the backend finds it behind its pointers. -/
def resolve (objects : Objects) (cmd : FrontCommand) : BackendCommand :=
  { command := cmd.command
    commandFn := cmd.commandFn
    account := cmd.account
    queue := cmd.queue
    messageId := cmd.messageId
    body := cmd.body
    bodySize := cmd.bodySize
    filters := cmd.filters.map objects.filters
    attributes := cmd.attributes.map objects.attributes }

/-! ## Sessions -/

/-- The state of a session. -/
structure Session where
  burrow : BurrowSt
  accounts : AccountsSt
  objects : Objects
  given : Given

/-- A new session; `memory` is what `burrow->cmd` held before, and no object has
been made. -/
def Session.create (memory : FrontCommand) (selfallocated : Bool) : Session :=
  { burrow := burrowCreate memory selfallocated
      { process := false, eventRaised := false, cancel := false }
    accounts := burrowBackendMemoryCreate
    objects := { attributes := fun _ => .destroyed, filters := fun _ => .destroyed }
    given := { attributes := none, filters := none } }

/-- What the user's program does. A function that issues a command goes on with
`burrow_process` when `AUTOPROCESS` is on; `inputs` are then for the command. -/
inductive Action where
  | writeAttributes (p : Nat) (value : BurrowAttributes)
  | destroyAttributes (p : Nat)
  | writeFilters (p : Nat) (value : BurrowFilters)
  | destroyFilters (p : Nat)
  | setOptions (options : BurrowOptions)
  | issue (call : Call) (inputs : Inputs)
  | process (inputs : Inputs)

/-- The session when a command has been executed; the front end is idle again when it calls the
complete callback. -/
def finished (o : Outcome) (σ : Session) : Session :=
  { σ with
    accounts := o.accounts
    burrow := { σ.burrow with state := .idle, cmd := { σ.burrow.cmd with command := none } } }

/-- `burrow_process` where nothing is being processed and the command functions do
not return `EAGAIN`: a pending command is executed. -/
def burrowProcess (inputs : Inputs) (σ : Session) : Except Fault Session :=
  match σ.burrow.state with
  | .start =>
      match σ.burrow.cmd.commandFn with
      | none => .error .nullDereference
      | some commandFn =>
          match execute inputs commandFn (resolve σ.objects σ.burrow.cmd) σ.accounts with
          | .error e => .error e
          | .ok o => .ok (finished o σ)
  | _ => .ok σ

/-- The session after a call, but for the processing. -/
def issued (call : Call) (σ : Session) : Session :=
  let burrow := (call.issue σ.burrow).burrow
  { σ with
    burrow := burrow
    given := if σ.burrow.state = .idle ∧ burrow.state = .start then call.given else σ.given }

/-- The command that an action gets executed: its inputs and the session by then. -/
def executing (action : Action) (σ : Session) : Option (Inputs × Session) :=
  match action with
  | .issue call inputs =>
      match call.issue σ.burrow with
      | .returns _ _ => none
      | .process _ => some (inputs, issued call σ)
  | .process inputs => if σ.burrow.state = .start then some (inputs, σ) else none
  | _ => none

/-- One action of a session. -/
def sessionStep (action : Action) (σ : Session) : Except Fault Session :=
  match action with
  | .writeAttributes p value =>
      .ok { σ with objects :=
        { σ.objects with attributes := Function.update σ.objects.attributes p (.live value) } }
  | .destroyAttributes p =>
      .ok { σ with objects :=
        { σ.objects with attributes := Function.update σ.objects.attributes p .destroyed } }
  | .writeFilters p value =>
      .ok { σ with objects :=
        { σ.objects with filters := Function.update σ.objects.filters p (.live value) } }
  | .destroyFilters p =>
      .ok { σ with objects :=
        { σ.objects with filters := Function.update σ.objects.filters p .destroyed } }
  | .setOptions options => .ok { σ with burrow := burrowSetOptions σ.burrow options }
  | .issue call inputs =>
      match call.issue σ.burrow with
      | .returns _ _ => .ok (issued call σ)
      | .process _ => burrowProcess inputs (issued call σ)
  | .process inputs => burrowProcess inputs σ

/-- The user passes objects that exist and destroys none before the command it was
passed to is complete. -/
def Obeys (action : Action) (σ : Session) : Prop :=
  match action with
  | .destroyAttributes p => σ.burrow.state ≠ .idle → σ.given.attributes ≠ some p
  | .destroyFilters p => σ.burrow.state ≠ .idle → σ.given.filters ≠ some p
  | .issue call _ => call.given.IsLive σ.objects
  | _ => True

/-! ## What is read -/

/-- The command an action gets executed reads no object but those the issuing call
passed. -/
def ReadsGiven (action : Action) (σ : Session) : Prop :=
  ∀ inputs σ' name, executing action σ = some (inputs, σ') →
    σ'.burrow.cmd.commandFn = some name →
    execute inputs name (resolve (σ'.objects.only σ'.given) σ'.burrow.cmd) σ'.accounts ≠
      .error .destroyedObject

/-- Where the action gets `get_messages` or `delete_messages` executed on a queue
that exists, no attributes are left in `burrow->cmd`. -/
def NoneLeft (action : Action) (σ : Session) : Prop :=
  ∀ inputs σ', executing action σ = some (inputs, σ') →
    (σ'.burrow.cmd.commandFn = some .getMessages ∨
      σ'.burrow.cmd.commandFn = some .deleteMessages) →
    σ'.burrow.cmd.queue ∈ queueNames σ'.accounts σ'.burrow.cmd.account →
    σ'.burrow.cmd.attributes = none

/-- The steps of `burrow_process` on a command whose function answers `result`; the last answer
is that of the complete callback. -/
def processLabels (burrow : BurrowSt) (result : Int) : List Label :=
  [.tau, .tau, .returns result, .tau] ++ (if burrow.completeFn then [.returns 0] else []) ++ [.tau]

/-- The command that the action gets executed goes through `burrow_process` step by step, with
what the function of the backend answers, and the front end ends up where the session has it. -/
def StepByStep (action : Action) (σ : Session) : Prop :=
  ∀ inputs σ' name o, executing action σ = some (inputs, σ') →
    σ'.burrow.cmd.commandFn = some name →
    execute inputs name (resolve σ'.objects σ'.burrow.cmd) σ'.accounts = .ok o →
    burrowProcess inputs σ' = .ok (finished o σ') ∧ ∀ stack,
      Machine.run frontStep (processLabels σ'.burrow o.result)
          { burrow := σ'.burrow, control := .process, stack := stack } =
        .ok { burrow := (finished o σ').burrow, control := .returning o.result, stack := stack }

/-- The pending command of a session, with the pointers its call wrote. -/
structure Pending (σ : Session) (name : CommandName) : Prop where
  commandFn : σ.burrow.cmd.commandFn = some name
  filters : TakesFilters name → σ.burrow.cmd.filters = σ.given.filters
  attributes : TakesAttributes name → σ.burrow.cmd.attributes = σ.given.attributes
  not_given : ¬ TakesAttributes name → σ.given.attributes = none
  live : σ.given.IsLive σ.objects

/-- The invariant of a session. -/
structure SessionOk (σ : Session) : Prop where
  store : StoreOk True σ.accounts
  state : σ.burrow.state = .idle ∨ σ.burrow.state = .start
  processing : σ.burrow.flags.processing = false
  pending : σ.burrow.state = .start → ∃ name, Pending σ name

section Reading

variable {σ : Session} {name : CommandName} {objects : Objects}

theorem argLive_map {α : Type} {f : Nat → Object α} {p : Option Nat}
    (h : ∀ q, p = some q → (f q).IsLive) : ArgLive (p.map f) := by
  intro o ho
  obtain ⟨q, hq, rfl⟩ := Option.map_eq_some_iff.1 ho
  exact h q hq

/-- With the given objects at hand a command reads a destroyed one only where
attributes are left. -/
theorem argsLive_resolve (h : Pending σ name) (hlive : σ.given.IsLive objects) (inputs : Inputs)
    (hleft : (name = .getMessages ∨ name = .deleteMessages) →
      σ.burrow.cmd.queue ∈ queueNames σ.accounts σ.burrow.cmd.account →
      σ.burrow.cmd.attributes = none) :
    ArgsLive { inputs := inputs, name := name, cmd := resolve objects σ.burrow.cmd }
      σ.accounts := by
  have hfilters : TakesFilters name → ArgLive (resolve objects σ.burrow.cmd).filters := by
    intro htakes
    exact argLive_map fun q hq => hlive.2 q (h.filters htakes ▸ hq)
  have hattributes : TakesAttributes name → ArgLive (resolve objects σ.burrow.cmd).attributes := by
    intro htakes
    exact argLive_map fun q hq => hlive.1 q (h.attributes htakes ▸ hq)
  -- a command that writes no attributes is left with none, or with those of the command
  -- before
  have hnone : σ.burrow.cmd.attributes = none →
      ArgLive (resolve objects σ.burrow.cmd).attributes := fun hnone =>
    argLive_map fun q hq => absurd (hnone ▸ hq) (by simp)
  cases name with
  | getAccounts => exact fun _ => hfilters (by decide)
  | deleteAccounts => exact fun _ => hfilters (by decide)
  | getQueues => exact fun _ _ => hfilters (by decide)
  | deleteQueues => exact fun _ _ => hfilters (by decide)
  | getMessages =>
      exact fun hqueue => ⟨hnone (hleft (Or.inl rfl) hqueue), fun _ => hfilters (by decide)⟩
  | deleteMessages =>
      exact fun hqueue => ⟨hnone (hleft (Or.inr rfl) hqueue), fun _ => hfilters (by decide)⟩
  | updateMessages => exact fun _ => ⟨hattributes (by decide), fun _ => hfilters (by decide)⟩
  | createMessage => exact fun _ => hattributes (by decide)
  | updateMessage => exact fun _ _ _ => hattributes (by decide)
  | getMessage => trivial
  | deleteMessage => trivial

theorem Given.isLive_only {given : Given} (h : given.IsLive objects) :
    given.IsLive (objects.only given) := by
  refine ⟨fun p hp => ?_, fun p hp => ?_⟩
  · show Object.IsLive (if given.attributes = some p then _ else _)
    rw [if_pos hp]
    exact h.1 p hp
  · show Object.IsLive (if given.filters = some p then _ else _)
    rw [if_pos hp]
    exact h.2 p hp

/-- A command fails by reading a destroyed object exactly when an argument that it
reads is one. -/
theorem execute_ne_destroyed_iff {s : AccountsSt} (h : StoreOk True s) (r : Request) :
    execute r.inputs r.name r.cmd s ≠ .error .destroyedObject ↔ ArgsLive r s := by
  by_cases he : GetsExpired r s
  · refine iff_of_true ?_ he.argsLive
    rw [execute_getsExpired h he]
    simp
  · rcases execute_reads_or h he with hreads | ⟨-, -, hlive, herror⟩
    · constructor
      · intro hne
        by_contra hno
        exact hne (hreads.error hno)
      · intro hlive herror
        exact (hreads.eq_of_error herror).1 hlive
    · refine iff_of_true ?_ hlive
      rw [herror]
      simp

/-- Where the front end does not take attributes, any that are left are foreign. -/
theorem attributes_eq_none_of_argsLive (h : Pending σ name)
    (hname : name = .getMessages ∨ name = .deleteMessages) {inputs : Inputs}
    (hqueue : σ.burrow.cmd.queue ∈ queueNames σ.accounts σ.burrow.cmd.account)
    (hlive : ArgsLive
      { inputs := inputs
        name := name
        cmd := resolve (σ.objects.only σ.given) σ.burrow.cmd } σ.accounts) :
    σ.burrow.cmd.attributes = none := by
  have hnone : σ.given.attributes = none := by
    refine h.not_given ?_
    rcases hname with rfl | rfl <;> decide
  have hargs : ArgLive (σ.burrow.cmd.attributes.map (σ.objects.only σ.given).attributes) := by
    rcases hname with rfl | rfl <;> exact (hlive hqueue).1
  cases hp : σ.burrow.cmd.attributes with
  | none => rfl
  | some p =>
      rw [hp, Option.map_some, argLive_some] at hargs
      have hforeign : (σ.objects.only σ.given).attributes p = .destroyed := by
        show (if σ.given.attributes = some p then _ else _) = _
        rw [if_neg (by simp [hnone])]
      rw [hforeign] at hargs
      exact hargs.elim

end Reading

/-! ## Runs of sessions -/

/-- Issuing a command keeps the invariant. -/
theorem issued_ok {call : Call} {σ : Session} (h : SessionOk σ)
    (hgiven : call.given.IsLive σ.objects) :
    SessionOk (issued call σ) ∧
      ∀ burrow, call.issue σ.burrow = .process burrow → (issued call σ).burrow.state = .start := by
  rcases call.starts_issue σ.burrow with ⟨code, heq⟩ | ⟨cmd, hidle, hwrites, heq⟩
  · have hburrow : issued call σ = σ := by
      have hsame : (call.issue σ.burrow).burrow = σ.burrow := by
        rw [heq]
        rfl
      unfold issued
      simp only [hsame]
      rw [if_neg fun hstate => absurd (hstate.1.symm.trans hstate.2) (by decide)]
    rw [hburrow]
    refine ⟨h, fun burrow hprocess => ?_⟩
    rw [heq] at hprocess
    exact absurd hprocess (by simp)
  · have hburrow :
        (call.issue σ.burrow).burrow = { σ.burrow with cmd := cmd, state := .start } := by
      rw [heq]
      split <;> rfl
    have hissued : issued call σ =
        { σ with
          burrow := { σ.burrow with cmd := cmd, state := .start }
          given := call.given } := by
      unfold issued
      rw [hburrow]
      simp only [hidle, and_self, if_true]
    rw [hissued]
    refine ⟨⟨h.store, Or.inr rfl, h.processing, fun _ => ⟨call.command, ?_⟩⟩, fun _ _ => rfl⟩
    exact
      { commandFn := hwrites.commandFn
        filters := fun htakes => hwrites.filters.trans (if_pos htakes)
        attributes := fun htakes => hwrites.attributes.trans (if_pos htakes)
        not_given := fun hno => Call.attributes_eq_none hno
        live := hgiven }

/-- Processing keeps the invariant. -/
theorem burrowProcess_ok {inputs : Inputs} {σ σ' : Session} (h : SessionOk σ)
    (hstep : burrowProcess inputs σ = .ok σ') : SessionOk σ' := by
  unfold burrowProcess at hstep
  split at hstep
  · split at hstep
    · exact absurd hstep (by simp)
    · next name _ =>
        split at hstep
        · exact absurd hstep (by simp)
        · next o hrun =>
            cases hstep
            refine ⟨?_, Or.inl rfl, h.processing, fun hstart => absurd hstart (by simp [finished])⟩
            exact @execute_storeOk _ _ _ h.store
              { inputs := inputs, name := name, cmd := resolve σ.objects σ.burrow.cmd }
              (fun _ => trivial) hrun
  · cases hstep
    exact h

/-- **`burrowProcess` is what `burrow_process` comes to**, step by step. The memory backend never
blocks, so that one pass of the loop is the whole command. -/
theorem burrowProcess_run {inputs : Inputs} {σ : Session} {name : CommandName} {o : Outcome}
    (h : SessionOk σ) (hstart : σ.burrow.state = .start)
    (hname : σ.burrow.cmd.commandFn = some name)
    (hrun : execute inputs name (resolve σ.objects σ.burrow.cmd) σ.accounts = .ok o) :
    burrowProcess inputs σ = .ok (finished o σ) ∧ ∀ stack,
      Machine.run frontStep (processLabels σ.burrow o.result)
          { burrow := σ.burrow, control := .process, stack := stack } =
        .ok
          { burrow := (finished o σ).burrow
            control := .returning o.result
            stack := stack } := by
  have hresult : o.result ≠ EAGAIN := by
    have hcode := @execute_result _ _ _ h.store
      { inputs := inputs, name := name, cmd := resolve σ.objects σ.burrow.cmd } hrun
    rcases hcode with hcode | hcode
    · rw [hcode]
      decide
    · rw [hcode]
      decide
  have hquiet := h.processing
  obtain ⟨⟨options, ⟨selfallocated, processing⟩, state, cmd, completeFn, watchFdFn, watchSize, pfds,
    pfdsBlock, backend⟩, accounts, objects, given⟩ := σ
  cases hquiet
  cases hstart
  have hcommand : cmd.commandFn = some name := hname
  have hexecute : execute inputs name (resolve objects cmd) accounts = .ok o := hrun
  refine ⟨?_, fun stack => ?_⟩
  · simp only [burrowProcess, hcommand, hexecute]
  · cases completeFn with
    | false =>
        simp [Machine.run, processLabels, frontStep, internalStep, processStep, loopStep, hcommand,
          userCode, backendCode, backendStep, environmentReturns, hresult, finished]
    | true =>
        simp [Machine.run, processLabels, frontStep, internalStep, processStep, loopStep, hcommand,
          userCode, backendCode, backendStep, userStep, environmentReturns, hresult, finished]

/-- The session by the time a command is executed. -/
theorem executing_ok {action : Action} {σ σ' : Session} {inputs : Inputs} (h : SessionOk σ)
    (hobeys : Obeys action σ) (hexec : executing action σ = some (inputs, σ')) :
    SessionOk σ' ∧ σ'.burrow.state = .start := by
  cases action with
  | issue call inputs' =>
      obtain ⟨hok, hstart⟩ := issued_ok h hobeys
      cases hissue : call.issue σ.burrow with
      | returns code burrow => exact absurd hexec (by simp [executing, hissue])
      | process burrow =>
          simp only [executing, hissue, Option.some.injEq, Prod.mk.injEq] at hexec
          obtain ⟨rfl, rfl⟩ := hexec
          exact ⟨hok, hstart burrow hissue⟩
  | process inputs' =>
      unfold executing at hexec
      dsimp only at hexec
      split at hexec
      · next hstart =>
          cases hexec
          exact ⟨h, hstart⟩
      · exact absurd hexec (by simp)
  | _ => exact absurd hexec (by simp [executing])

/-- Changing an object the pending command was not given. -/
theorem sessionOk_objects {σ : Session} (h : SessionOk σ) {objects : Objects}
    (hlive : σ.burrow.state = .start → σ.given.IsLive σ.objects → σ.given.IsLive objects) :
    SessionOk { σ with objects := objects } := by
  refine ⟨h.store, h.state, h.processing, fun hstart => ?_⟩
  obtain ⟨name, hpending⟩ := h.pending hstart
  exact ⟨name, { hpending with live := hlive hstart hpending.live }⟩

theorem isLive_update {α : Type} {f : Nat → Object α} {p q : Nat} {o : Object α}
    (h : (f q).IsLive) (ho : q = p → o.IsLive) : (Function.update f p o q).IsLive := by
  by_cases hq : q = p
  · subst hq
    rw [Function.update_self]
    exact ho rfl
  · rw [Function.update_of_ne hq]
    exact h

/-- **Every action keeps the invariant.** -/
theorem sessionStep_ok {action : Action} {σ σ' : Session} (hobeys : Obeys action σ)
    (h : SessionOk σ) (hstep : sessionStep action σ = .ok σ') : SessionOk σ' := by
  cases action with
  | writeAttributes p value =>
      cases hstep
      refine sessionOk_objects h fun _ hlive => ⟨fun q hq => ?_, hlive.2⟩
      exact isLive_update (hlive.1 q hq) fun _ => trivial
  | destroyAttributes p =>
      cases hstep
      refine sessionOk_objects h fun hstart hlive => ⟨fun q hq => ?_, hlive.2⟩
      refine isLive_update (hlive.1 q hq) fun heq => absurd (heq ▸ hq) (hobeys ?_)
      rw [hstart]
      decide
  | writeFilters p value =>
      cases hstep
      refine sessionOk_objects h fun _ hlive => ⟨hlive.1, fun q hq => ?_⟩
      exact isLive_update (hlive.2 q hq) fun _ => trivial
  | destroyFilters p =>
      cases hstep
      refine sessionOk_objects h fun hstart hlive => ⟨hlive.1, fun q hq => ?_⟩
      refine isLive_update (hlive.2 q hq) fun heq => absurd (heq ▸ hq) (hobeys ?_)
      rw [hstart]
      decide
  | setOptions options =>
      cases hstep
      refine ⟨h.store, h.state, h.processing, fun hstart => ?_⟩
      obtain ⟨name, hpending⟩ := h.pending hstart
      exact ⟨name, { hpending with }⟩
  | issue call inputs =>
      obtain ⟨hok, -⟩ := issued_ok h hobeys
      cases hissue : call.issue σ.burrow with
      | returns code burrow =>
          simp only [sessionStep, hissue] at hstep
          cases hstep
          exact hok
      | process burrow =>
          simp only [sessionStep, hissue] at hstep
          exact burrowProcess_ok hok hstep
  | process inputs => exact burrowProcess_ok h hstep

theorem sessionOk_create (memory : FrontCommand) (selfallocated : Bool) :
    SessionOk (Session.create memory selfallocated) :=
  ⟨storeOk_create True, Or.inl rfl, rfl, fun hstart => absurd hstart (by simp [Session.create,
    burrowCreate])⟩

/-- What is executed goes through the front end step by step. -/
theorem stepByStep {action : Action} {σ : Session} (hobeys : Obeys action σ) (h : SessionOk σ) :
    StepByStep action σ := by
  intro inputs σ' name o hexec hname hrun
  obtain ⟨hok, hstart⟩ := executing_ok h hobeys hexec
  exact burrowProcess_run hok hstart hname hrun

/-- Reading only what was given is the same as leaving no attributes to read. -/
theorem readsGiven_iff {action : Action} {σ : Session} (hobeys : Obeys action σ)
    (h : SessionOk σ) : ReadsGiven action σ ↔ NoneLeft action σ := by
  constructor
  · intro hreads inputs σ' hexec hname hqueue
    obtain ⟨hok, hstart⟩ := executing_ok h hobeys hexec
    obtain ⟨name, hpending⟩ := hok.pending hstart
    rw [hpending.commandFn, Option.some.injEq, Option.some.injEq] at hname
    have hne := hreads inputs σ' name hexec hpending.commandFn
    refine @attributes_eq_none_of_argsLive σ' name hpending hname inputs hqueue ?_
    exact (execute_ne_destroyed_iff hok.store
      { inputs := inputs
        name := name
        cmd := resolve (σ'.objects.only σ'.given) σ'.burrow.cmd }).1 hne
  · intro hleft inputs σ' name hexec hname
    obtain ⟨hok, hstart⟩ := executing_ok h hobeys hexec
    obtain ⟨name', hpending⟩ := hok.pending hstart
    cases hname.symm.trans hpending.commandFn
    refine (execute_ne_destroyed_iff hok.store
      { inputs := inputs
        name := name
        cmd := resolve (σ'.objects.only σ'.given) σ'.burrow.cmd }).2 ?_
    refine argsLive_resolve hpending (Given.isLive_only hpending.live) inputs fun hor => ?_
    refine hleft inputs σ' hexec ?_
    rw [hpending.commandFn, Option.some.injEq, Option.some.injEq]
    exact hor

/-- Where no attributes are left no command reads a destroyed object. -/
theorem sessionStep_ne_destroyed {action : Action} {σ : Session} {e : Fault}
    (hobeys : Obeys action σ) (h : SessionOk σ) (hleft : NoneLeft action σ)
    (herror : sessionStep action σ = .error e) : e ≠ .destroyedObject := by
  rintro rfl
  -- whatever runs a command, runs one whose objects are all live
  have hnot : ∀ inputs σ', sessionStep action σ = burrowProcess inputs σ' →
      SessionOk σ' → (σ'.burrow.state = .start → executing action σ = some (inputs, σ')) →
      False := by
    intro inputs σ' hstep hok hexec
    rw [hstep] at herror
    unfold burrowProcess at herror
    split at herror
    · next hstart =>
        obtain ⟨name, hpending⟩ := hok.pending hstart
        rw [hpending.commandFn] at herror
        dsimp only at herror
        split at herror
        · next e herr =>
            cases herror
            refine (execute_ne_destroyed_iff hok.store
              { inputs := inputs, name := name, cmd := resolve σ'.objects σ'.burrow.cmd }).2 ?_ herr
            refine argsLive_resolve hpending hpending.live inputs fun hor => ?_
            refine hleft inputs σ' (hexec hstart) ?_
            rw [hpending.commandFn, Option.some.injEq, Option.some.injEq]
            exact hor
        · exact absurd herror (by simp)
    · exact absurd herror (by simp)
  cases action with
  | issue call inputs =>
      cases hissue : call.issue σ.burrow with
      | returns code burrow => exact absurd herror (by simp [sessionStep, hissue])
      | process burrow =>
          refine hnot inputs (issued call σ) ?_ (issued_ok h hobeys).1 fun _ => ?_
          · simp only [sessionStep, hissue]
          · simp only [executing, hissue]
  | process inputs =>
      refine hnot inputs σ rfl h fun hstart => ?_
      simp only [executing, hstart, if_true]
  | _ => exact absurd herror (by simp [sessionStep])

/-- **When a session reads only what it was given.** In a session of a user who
keeps the objects of a command until it is complete, no command reads a destroyed
object, and every object a command reads was passed by the call that issued it,
exactly when no attributes are left in `burrow->cmd` whenever `get_messages` or
`delete_messages` is executed on a queue that exists. Each command is executed as
`burrow_process` goes, step by step. -/
theorem reads_given_iff (memory : FrontCommand) (selfallocated : Bool) {actions : List Action}
    (hobeys : Machine.Along sessionStep Obeys actions (Session.create memory selfallocated)) :
    (((∀ e, Machine.run sessionStep actions (Session.create memory selfallocated) = .error e →
            e ≠ .destroyedObject) ∧
          Machine.Along sessionStep ReadsGiven actions (Session.create memory selfallocated)) ↔
        Machine.Along sessionStep NoneLeft actions (Session.create memory selfallocated)) ∧
      Machine.Along sessionStep StepByStep actions (Session.create memory selfallocated) := by
  have hok := sessionOk_create memory selfallocated
  have hiff := @Machine.along_congr _ _ _ sessionStep Obeys SessionOk ReadsGiven NoneLeft
    (fun _ _ _ => sessionStep_ok) (fun _ _ => readsGiven_iff) _ _ hobeys hok
  have hsteps := @Machine.along_congr _ _ _ sessionStep Obeys SessionOk StepByStep
    (fun _ _ => True) (fun _ _ _ => sessionStep_ok)
    (fun _ _ hobeys hok => iff_of_true (stepByStep hobeys hok) trivial) _ _ hobeys hok
  refine ⟨?_, hsteps.2 (Machine.along_of_forall sessionStep (fun _ _ _ => trivial) _)⟩
  constructor
  · exact fun hboth => hiff.1 hboth.2
  · intro hleft
    refine ⟨fun e hrun => ?_, hiff.2 hleft⟩
    have hboth := Machine.along_and sessionStep hobeys hleft
    exact Machine.run_ne_error sessionStep
      (fun _ _ _ hC hI hstep => sessionStep_ok hC.1 hI hstep)
      (fun _ _ _ hC hI herror => sessionStep_ne_destroyed hC.1 hI hC.2 herror) hboth hok hrun

/-- What `burrow->cmd` holds in a fresh block of zeros. -/
def zeroCommand : FrontCommand := default

/-- A program creates a message without attributes and then reads its queue. -/
def plainProgram : List Action :=
  [.issue (.createMessage (some "a") (some "q") (some "m") (some [1]) 1 none) (ampleInputs 10),
    .process (ampleInputs 10),
    .issue (.getMessages (some "a") (some "q") none) (ampleInputs 20),
    .process (ampleInputs 20)]

theorem reads_given_plain :
    Machine.run sessionStep plainProgram (Session.create zeroCommand true) ≠
      .error .destroyedObject := by
  have hlive : ∀ objects, Given.IsLive { attributes := none, filters := none } objects :=
    fun _ => ⟨fun _ hp => absurd hp (by simp), fun _ hp => absurd hp (by simp)⟩
  have hobeys : Machine.Along sessionStep Obeys plainProgram (Session.create zeroCommand true) :=
    ⟨hlive _, fun _ _ => ⟨trivial, fun _ _ => ⟨hlive _, fun _ _ => ⟨trivial, fun _ _ => trivial⟩⟩⟩⟩
  refine fun herror => ((reads_given_iff zeroCommand true hobeys).1.2 ?_).1 _ herror rfl
  refine ⟨fun _ _ hexec => ?_, fun σ₁ h₁ => ?_⟩
  · cases hexec
  cases h₁
  refine ⟨fun _ _ hexec hname => ?_, fun σ₂ h₂ => ?_⟩
  · cases hexec
    exact absurd hname (by decide)
  cases h₂
  refine ⟨fun _ _ hexec => ?_, fun σ₃ h₃ => ?_⟩
  · cases hexec
  cases h₃
  refine ⟨fun _ _ hexec _ _ => ?_, fun _ _ => trivial⟩
  cases hexec
  rfl

/-- A program destroys the attributes of a message it has created and then reads
its queue. -/
def leavingProgram : List Action :=
  [.writeAttributes 1 { set := burrowAttributesTtl, ttl := 60, hide := 0 },
    .issue (.createMessage (some "a") (some "q") (some "m") (some [1]) 1 (some 1)) (ampleInputs 10),
    .process (ampleInputs 10),
    .destroyAttributes 1,
    .issue (.getMessages (some "a") (some "q") none) (ampleInputs 20),
    .process (ampleInputs 20)]

/-- `get_messages` reads the attributes that `create_message` left in `burrow->cmd`. -/
theorem getMessages_reads_destroyed :
    ¬ ∀ (memory : FrontCommand) (selfallocated : Bool) (actions : List Action),
      Machine.Along sessionStep Obeys actions (Session.create memory selfallocated) →
      ∀ e, Machine.run sessionStep actions (Session.create memory selfallocated) = .error e →
        e ≠ .destroyedObject := by
  intro h
  refine h zeroCommand true leavingProgram ?_ .destroyedObject rfl rfl
  have hnone : ∀ objects, Given.IsLive { attributes := none, filters := none } objects :=
    fun _ => ⟨fun _ hp => absurd hp (by simp), fun _ hp => absurd hp (by simp)⟩
  refine ⟨trivial, fun σ₁ h₁ => ?_⟩
  cases h₁
  refine ⟨⟨fun p hp => ?_, fun p hp => absurd hp (by simp [Call.given, Call.filters])⟩,
    fun σ₂ h₂ => ?_⟩
  · cases hp
    exact trivial
  cases h₂
  refine ⟨trivial, fun σ₃ h₃ => ?_⟩
  cases h₃
  exact ⟨fun hbusy => absurd rfl hbusy,
    fun _ _ => ⟨hnone _, fun _ _ => ⟨trivial, fun _ _ => trivial⟩⟩⟩

end Burrow.Frontend
