import Burrow.Objects

/-!
# The front end and its commands

`burrow_st` (`libburrow/structs-local.h`) and the eleven functions of `burrow.c`
that issue a command. Each checks that no command is pending and that its
arguments are there, writes the part of `burrow->cmd` that its command needs, and
hands over to `burrow_process` when the `AUTOPROCESS` option is on. What it does
not write stays in `burrow->cmd` from the command before.

An attributes or filters argument is a pointer, a natural number here; `none`
stands for `NULL`.
-/

set_option autoImplicit false

namespace Burrow.Frontend

/-! ## The front-end structure -/

/-- `burrow_state_t` -/
inductive BurrowState where
  | idle | start | waiting | ready | finish
deriving DecidableEq, Repr

/-- `burrow_options_t`: the option that a function of the front end reads. -/
structure BurrowOptions where
  autoprocess : Bool
deriving DecidableEq, Repr

/-- `burrow_flags_t`, bit by bit. -/
structure BurrowFlags where
  selfallocated : Bool
  processing : Bool
deriving DecidableEq, Repr

/-- `burrow_ioevent_t`, bit by bit. -/
structure BurrowIoevent where
  read : Bool
  write : Bool
deriving DecidableEq, Repr

/-- `struct pollfd` -/
structure Pollfd where
  fd : Int
  events : UInt16
  revents : UInt16
deriving DecidableEq, Repr

/-- The optional functions of `burrow_backend_functions_st`: `false` for `NULL`. -/
structure BackendFunctions where
  process : Bool
  eventRaised : Bool
  cancel : Bool
deriving DecidableEq, Repr

/-- `burrow->cmd` -/
abbrev FrontCommand := BurrowCommand Nat Nat

/-- `burrow_st`, as far as commands are concerned. `completeFn` and `watchFdFn`
say whether the user has set these callbacks. `pfds` is the allocated array, of which
the first `watchSize` entries are watched; `pfdsBlock` is the block it lies in, counted
in the order in which `realloc` has handed them out. -/
structure BurrowSt where
  options : BurrowOptions
  flags : BurrowFlags
  state : BurrowState
  cmd : FrontCommand
  completeFn : Bool
  watchFdFn : Bool
  watchSize : Nat
  pfds : List Pollfd
  pfdsBlock : Nat
  backend : BackendFunctions
deriving DecidableEq, Repr

/-- `burrow_create`, in a block whose `cmd` held `memory`: it writes two of the
fields of `cmd`. -/
def burrowCreate (memory : FrontCommand) (selfallocated : Bool) (backend : BackendFunctions) :
    BurrowSt :=
  { options := { autoprocess := false }
    flags := { selfallocated := selfallocated, processing := false }
    state := .idle
    cmd := { memory with commandFn := none, command := none }
    completeFn := false
    watchFdFn := false
    watchSize := 0
    pfds := []
    pfdsBlock := 0
    backend := backend }

def burrowSetOptions (burrow : BurrowSt) (options : BurrowOptions) : BurrowSt :=
  { burrow with options := options }

def burrowSetCompleteFn (burrow : BurrowSt) (callback : Bool) : BurrowSt :=
  { burrow with completeFn := callback }

def burrowSetWatchFdFn (burrow : BurrowSt) (callback : Bool) : BurrowSt :=
  { burrow with watchFdFn := callback }

/-! ## Issuing a command -/

/-- What a function that issues a command comes to: it returns a code, or it goes
on with `return burrow_process(burrow)`. -/
inductive Issued where
  | returns (code : Int) (burrow : BurrowSt)
  | process (burrow : BurrowSt)
deriving DecidableEq, Repr

def Issued.burrow : Issued → BurrowSt
  | .returns _ burrow => burrow
  | .process burrow => burrow

/-- What the eleven functions share; `write` is `none` where an argument that is
required is `NULL`. -/
def issueCommand (burrow : BurrowSt) (write : Option (FrontCommand → FrontCommand)) : Issued :=
  if burrow.state ≠ .idle then .returns EINPROGRESS burrow
  else
    match write with
    | none => .returns EINVAL burrow
    | some write =>
        let burrow := { burrow with cmd := write burrow.cmd, state := .start }
        if burrow.options.autoprocess then .process burrow else .returns 0 burrow

def burrowGetMessage (burrow : BurrowSt) (account queue messageId : Option String)
    (filters : Option Nat) : Issued :=
  issueCommand burrow do
    let account ← account
    let queue ← queue
    let messageId ← messageId
    return fun cmd =>
      { cmd with
        command := some .getMessage
        commandFn := some .getMessage
        account := account
        queue := queue
        messageId := messageId
        filters := filters }

def burrowCreateMessage (burrow : BurrowSt) (account queue messageId : Option String)
    (body : Option (List UInt8)) (bodySize : Nat) (attributes : Option Nat) : Issued :=
  issueCommand burrow do
    let account ← account
    let queue ← queue
    let messageId ← messageId
    let body ← body
    return fun cmd =>
      { cmd with
        command := some .createMessage
        commandFn := some .createMessage
        account := account
        queue := queue
        messageId := messageId
        body := body
        bodySize := bodySize
        attributes := attributes }

def burrowUpdateMessage (burrow : BurrowSt) (account queue messageId : Option String)
    (attributes filters : Option Nat) : Issued :=
  issueCommand burrow do
    let account ← account
    let queue ← queue
    let messageId ← messageId
    let attributes ← attributes
    return fun cmd =>
      { cmd with
        command := some .updateMessage
        commandFn := some .updateMessage
        account := account
        queue := queue
        messageId := messageId
        attributes := some attributes
        filters := filters }

def burrowDeleteMessage (burrow : BurrowSt) (account queue messageId : Option String)
    (filters : Option Nat) : Issued :=
  issueCommand burrow do
    let account ← account
    let queue ← queue
    let messageId ← messageId
    return fun cmd =>
      { cmd with
        command := some .deleteMessage
        commandFn := some .deleteMessage
        account := account
        queue := queue
        messageId := messageId
        filters := filters }

def burrowGetMessages (burrow : BurrowSt) (account queue : Option String) (filters : Option Nat) :
    Issued :=
  issueCommand burrow do
    let account ← account
    let queue ← queue
    return fun cmd =>
      { cmd with
        command := some .getMessages
        commandFn := some .getMessages
        account := account
        queue := queue
        filters := filters }

def burrowDeleteMessages (burrow : BurrowSt) (account queue : Option String)
    (filters : Option Nat) : Issued :=
  issueCommand burrow do
    let account ← account
    let queue ← queue
    return fun cmd =>
      { cmd with
        command := some .deleteMessages
        commandFn := some .deleteMessages
        account := account
        queue := queue
        filters := filters }

def burrowUpdateMessages (burrow : BurrowSt) (account queue : Option String)
    (attributes filters : Option Nat) : Issued :=
  issueCommand burrow do
    let account ← account
    let queue ← queue
    let attributes ← attributes
    return fun cmd =>
      { cmd with
        command := some .updateMessages
        commandFn := some .updateMessages
        account := account
        queue := queue
        filters := filters
        attributes := some attributes }

def burrowGetQueues (burrow : BurrowSt) (account : Option String) (filters : Option Nat) : Issued :=
  issueCommand burrow do
    let account ← account
    return fun cmd =>
      { cmd with
        command := some .getQueues
        commandFn := some .getQueues
        account := account
        filters := filters }

def burrowDeleteQueues (burrow : BurrowSt) (account : Option String) (filters : Option Nat) :
    Issued :=
  issueCommand burrow do
    let account ← account
    return fun cmd =>
      { cmd with
        command := some .deleteQueues
        commandFn := some .deleteQueues
        account := account
        filters := filters }

def burrowGetAccounts (burrow : BurrowSt) (filters : Option Nat) : Issued :=
  issueCommand burrow (some fun cmd =>
    { cmd with
      command := some .getAccounts
      commandFn := some .getAccounts
      filters := filters })

def burrowDeleteAccounts (burrow : BurrowSt) (filters : Option Nat) : Issued :=
  issueCommand burrow (some fun cmd =>
    { cmd with
      command := some .deleteAccounts
      commandFn := some .deleteAccounts
      filters := filters })

/-! ## Calls -/

/-- A call of one of the eleven functions with its arguments. -/
inductive Call where
  | getAccounts (filters : Option Nat)
  | deleteAccounts (filters : Option Nat)
  | getQueues (account : Option String) (filters : Option Nat)
  | deleteQueues (account : Option String) (filters : Option Nat)
  | getMessages (account queue : Option String) (filters : Option Nat)
  | updateMessages (account queue : Option String) (attributes filters : Option Nat)
  | deleteMessages (account queue : Option String) (filters : Option Nat)
  | getMessage (account queue messageId : Option String) (filters : Option Nat)
  | updateMessage (account queue messageId : Option String) (attributes filters : Option Nat)
  | deleteMessage (account queue messageId : Option String) (filters : Option Nat)
  | createMessage (account queue messageId : Option String) (body : Option (List UInt8))
      (bodySize : Nat) (attributes : Option Nat)
deriving DecidableEq, Repr

def Call.issue (burrow : BurrowSt) : Call → Issued
  | .getAccounts filters => burrowGetAccounts burrow filters
  | .deleteAccounts filters => burrowDeleteAccounts burrow filters
  | .getQueues account filters => burrowGetQueues burrow account filters
  | .deleteQueues account filters => burrowDeleteQueues burrow account filters
  | .getMessages account queue filters => burrowGetMessages burrow account queue filters
  | .updateMessages account queue attributes filters =>
      burrowUpdateMessages burrow account queue attributes filters
  | .deleteMessages account queue filters => burrowDeleteMessages burrow account queue filters
  | .getMessage account queue messageId filters =>
      burrowGetMessage burrow account queue messageId filters
  | .updateMessage account queue messageId attributes filters =>
      burrowUpdateMessage burrow account queue messageId attributes filters
  | .deleteMessage account queue messageId filters =>
      burrowDeleteMessage burrow account queue messageId filters
  | .createMessage account queue messageId body bodySize attributes =>
      burrowCreateMessage burrow account queue messageId body bodySize attributes

/-- The command a call issues. -/
def Call.command : Call → CommandName
  | .getAccounts .. => .getAccounts
  | .deleteAccounts .. => .deleteAccounts
  | .getQueues .. => .getQueues
  | .deleteQueues .. => .deleteQueues
  | .getMessages .. => .getMessages
  | .updateMessages .. => .updateMessages
  | .deleteMessages .. => .deleteMessages
  | .getMessage .. => .getMessage
  | .updateMessage .. => .updateMessage
  | .deleteMessage .. => .deleteMessage
  | .createMessage .. => .createMessage

/-- The filters argument of a call; a call without one passes none. -/
def Call.filters : Call → Option Nat
  | .getAccounts filters | .deleteAccounts filters => filters
  | .getQueues _ filters | .deleteQueues _ filters => filters
  | .getMessages _ _ filters | .deleteMessages _ _ filters => filters
  | .updateMessages _ _ _ filters => filters
  | .getMessage _ _ _ filters | .deleteMessage _ _ _ filters => filters
  | .updateMessage _ _ _ _ filters => filters
  | .createMessage .. => none

/-- The attributes argument of a call; a call without one passes none. -/
def Call.attributes : Call → Option Nat
  | .updateMessages _ _ attributes _ => attributes
  | .updateMessage _ _ _ attributes _ => attributes
  | .createMessage _ _ _ _ _ attributes => attributes
  | _ => none

/-- The command takes attributes. -/
def TakesAttributes (name : CommandName) : Prop :=
  name = .createMessage ∨ name = .updateMessage ∨ name = .updateMessages

/-- The command takes filters. -/
def TakesFilters (name : CommandName) : Prop := name ≠ .createMessage

instance (name : CommandName) : Decidable (TakesAttributes name) :=
  inferInstanceAs (Decidable (_ ∨ _))

instance (name : CommandName) : Decidable (TakesFilters name) :=
  inferInstanceAs (Decidable (_ ≠ _))

/-! ## What a call writes -/

/-- The command and the pointers a call writes into `burrow->cmd`; the pointer it
does not take stays. -/
structure Writes (call : Call) (cmd cmd' : FrontCommand) : Prop where
  command : cmd'.command = some call.command
  commandFn : cmd'.commandFn = some call.command
  filters : cmd'.filters = if TakesFilters call.command then call.filters else cmd.filters
  attributes :
    cmd'.attributes = if TakesAttributes call.command then call.attributes else cmd.attributes

/-- A call is rejected and changes nothing, or it writes its command and starts. -/
def Starts (call : Call) (burrow : BurrowSt) (r : Issued) : Prop :=
  (∃ code, r = .returns code burrow) ∨
    ∃ cmd, burrow.state = .idle ∧ Writes call burrow.cmd cmd ∧
      r =
        if burrow.options.autoprocess then .process { burrow with cmd := cmd, state := .start }
        else .returns 0 { burrow with cmd := cmd, state := .start }

theorem starts_issueCommand {call : Call} {burrow : BurrowSt}
    {write : Option (FrontCommand → FrontCommand)}
    (hwrite : ∀ f, write = some f → Writes call burrow.cmd (f burrow.cmd)) :
    Starts call burrow (issueCommand burrow write) := by
  unfold issueCommand
  by_cases hstate : burrow.state = .idle
  · rw [if_neg (not_not.2 hstate)]
    cases write with
    | none => exact Or.inl ⟨_, rfl⟩
    | some f => exact Or.inr ⟨_, hstate, hwrite f rfl, rfl⟩
  · rw [if_pos hstate]
    exact Or.inl ⟨_, rfl⟩

/-- **The eleven functions issue their commands.** -/
theorem Call.starts_issue (call : Call) (burrow : BurrowSt) :
    Starts call burrow (call.issue burrow) := by
  cases call with
  | getAccounts filters =>
      unfold Call.issue burrowGetAccounts
      refine starts_issueCommand fun f hf => ?_
      cases hf
      exact ⟨rfl, rfl, rfl, rfl⟩
  | deleteAccounts filters =>
      unfold Call.issue burrowDeleteAccounts
      refine starts_issueCommand fun f hf => ?_
      cases hf
      exact ⟨rfl, rfl, rfl, rfl⟩
  | getQueues account filters =>
      refine starts_issueCommand fun f hf => ?_
      obtain ⟨_, -, hf⟩ := Option.bind_eq_some_iff.1 hf
      cases hf
      exact ⟨rfl, rfl, rfl, rfl⟩
  | deleteQueues account filters =>
      refine starts_issueCommand fun f hf => ?_
      obtain ⟨_, -, hf⟩ := Option.bind_eq_some_iff.1 hf
      cases hf
      exact ⟨rfl, rfl, rfl, rfl⟩
  | getMessages account queue filters =>
      refine starts_issueCommand fun f hf => ?_
      obtain ⟨_, -, hf⟩ := Option.bind_eq_some_iff.1 hf
      obtain ⟨_, -, hf⟩ := Option.bind_eq_some_iff.1 hf
      cases hf
      exact ⟨rfl, rfl, rfl, rfl⟩
  | deleteMessages account queue filters =>
      refine starts_issueCommand fun f hf => ?_
      obtain ⟨_, -, hf⟩ := Option.bind_eq_some_iff.1 hf
      obtain ⟨_, -, hf⟩ := Option.bind_eq_some_iff.1 hf
      cases hf
      exact ⟨rfl, rfl, rfl, rfl⟩
  | updateMessages account queue attributes filters =>
      refine starts_issueCommand fun f hf => ?_
      obtain ⟨_, -, hf⟩ := Option.bind_eq_some_iff.1 hf
      obtain ⟨_, -, hf⟩ := Option.bind_eq_some_iff.1 hf
      obtain ⟨_, rfl, hf⟩ := Option.bind_eq_some_iff.1 hf
      cases hf
      exact ⟨rfl, rfl, rfl, rfl⟩
  | getMessage account queue messageId filters =>
      refine starts_issueCommand fun f hf => ?_
      obtain ⟨_, -, hf⟩ := Option.bind_eq_some_iff.1 hf
      obtain ⟨_, -, hf⟩ := Option.bind_eq_some_iff.1 hf
      obtain ⟨_, -, hf⟩ := Option.bind_eq_some_iff.1 hf
      cases hf
      exact ⟨rfl, rfl, rfl, rfl⟩
  | updateMessage account queue messageId attributes filters =>
      refine starts_issueCommand fun f hf => ?_
      obtain ⟨_, -, hf⟩ := Option.bind_eq_some_iff.1 hf
      obtain ⟨_, -, hf⟩ := Option.bind_eq_some_iff.1 hf
      obtain ⟨_, -, hf⟩ := Option.bind_eq_some_iff.1 hf
      obtain ⟨_, rfl, hf⟩ := Option.bind_eq_some_iff.1 hf
      cases hf
      exact ⟨rfl, rfl, rfl, rfl⟩
  | deleteMessage account queue messageId filters =>
      refine starts_issueCommand fun f hf => ?_
      obtain ⟨_, -, hf⟩ := Option.bind_eq_some_iff.1 hf
      obtain ⟨_, -, hf⟩ := Option.bind_eq_some_iff.1 hf
      obtain ⟨_, -, hf⟩ := Option.bind_eq_some_iff.1 hf
      cases hf
      exact ⟨rfl, rfl, rfl, rfl⟩
  | createMessage account queue messageId body bodySize attributes =>
      refine starts_issueCommand fun f hf => ?_
      obtain ⟨_, -, hf⟩ := Option.bind_eq_some_iff.1 hf
      obtain ⟨_, -, hf⟩ := Option.bind_eq_some_iff.1 hf
      obtain ⟨_, -, hf⟩ := Option.bind_eq_some_iff.1 hf
      obtain ⟨_, -, hf⟩ := Option.bind_eq_some_iff.1 hf
      cases hf
      exact ⟨rfl, rfl, rfl, rfl⟩

/-- A command that does not take attributes is issued without any. -/
theorem Call.attributes_eq_none {call : Call} (h : ¬ TakesAttributes call.command) :
    call.attributes = none := by
  cases call with
  | updateMessages account queue attributes filters => exact absurd (Or.inr (Or.inr rfl)) h
  | updateMessage account queue messageId attributes filters =>
      exact absurd (Or.inr (Or.inl rfl)) h
  | createMessage account queue messageId body bodySize attributes => exact absurd (Or.inl rfl) h
  | _ => rfl

end Burrow.Frontend
