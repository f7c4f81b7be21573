import Burrow.Frontend.Commands

/-!
# Which calls the front end takes

Each of the eleven functions refuses a call while a command is pending and when a
required argument is `NULL`, and then changes nothing; otherwise it takes the call
and `burrow->cmd` holds the arguments the call was made with (`Call.issue_cases`).
-/

set_option autoImplicit false

namespace Burrow.Frontend

/-! ## Accepting a call -/

/-- The arguments that the call requires are there. -/
def Call.valid : Call → Bool
  | .getAccounts _ | .deleteAccounts _ => true
  | .getQueues account _ | .deleteQueues account _ => account.isSome
  | .getMessages account queue _ | .deleteMessages account queue _ =>
      account.isSome && queue.isSome
  | .updateMessages account queue attributes _ =>
      account.isSome && queue.isSome && attributes.isSome
  | .getMessage account queue messageId _ | .deleteMessage account queue messageId _ =>
      account.isSome && queue.isSome && messageId.isSome
  | .updateMessage account queue messageId attributes _ =>
      account.isSome && queue.isSome && messageId.isSome && attributes.isSome
  | .createMessage account queue messageId body _ _ =>
      account.isSome && queue.isSome && messageId.isSome && body.isSome

/-- The command structure holds the call with the arguments it was made with. -/
def Call.Carried (call : Call) (cmd : FrontCommand) : Prop :=
  cmd.commandFn = some call.command ∧
    match call with
    | .getAccounts filters | .deleteAccounts filters => cmd.filters = filters
    | .getQueues account filters | .deleteQueues account filters =>
        some cmd.account = account ∧ cmd.filters = filters
    | .getMessages account queue filters | .deleteMessages account queue filters =>
        some cmd.account = account ∧ some cmd.queue = queue ∧ cmd.filters = filters
    | .updateMessages account queue attributes filters =>
        some cmd.account = account ∧ some cmd.queue = queue ∧ cmd.attributes = attributes ∧
          cmd.filters = filters
    | .getMessage account queue messageId filters
      | .deleteMessage account queue messageId filters =>
        some cmd.account = account ∧ some cmd.queue = queue ∧ some cmd.messageId = messageId ∧
          cmd.filters = filters
    | .updateMessage account queue messageId attributes filters =>
        some cmd.account = account ∧ some cmd.queue = queue ∧ some cmd.messageId = messageId ∧
          cmd.attributes = attributes ∧ cmd.filters = filters
    | .createMessage account queue messageId body bodySize attributes =>
        some cmd.account = account ∧ some cmd.queue = queue ∧ some cmd.messageId = messageId ∧
          some cmd.body = body ∧ cmd.bodySize = bodySize ∧ cmd.attributes = attributes

/-- The front end takes the call: it does not refuse it at its own checks. -/
def Issued.accepts : Issued → Bool
  | .process _ => true
  | .returns code _ => decide (code = 0)

def Call.accepted (burrow : BurrowSt) (call : Call) : Bool := (call.issue burrow).accepts

/-- What the eleven functions come to. -/
structure Call.Issues (call : Call) (burrow : BurrowSt)
    (write : Option (FrontCommand → FrontCommand)) : Prop where
  issue_eq : call.issue burrow = issueCommand burrow write
  valid_eq : write.isSome = call.valid
  carried : ∀ f cmd, write = some f → call.Carried (f cmd) ∧ (f cmd).command = some call.command

theorem Call.exists_issues (call : Call) (burrow : BurrowSt) :
    ∃ write, call.Issues burrow write := by
  cases call with
  | getAccounts filters =>
      refine ⟨some _, by unfold Call.issue burrowGetAccounts; rfl, rfl, ?_⟩
      rintro f cmd ⟨⟩
      exact ⟨⟨rfl, rfl⟩, rfl⟩
  | deleteAccounts filters =>
      refine ⟨some _, by unfold Call.issue burrowDeleteAccounts; rfl, rfl, ?_⟩
      rintro f cmd ⟨⟩
      exact ⟨⟨rfl, rfl⟩, rfl⟩
  | getQueues account filters =>
      refine ⟨_, rfl, by cases account <;> rfl, ?_⟩
      intro f cmd hf
      obtain ⟨_, rfl, ⟨⟩⟩ := Option.bind_eq_some_iff.1 hf
      exact ⟨⟨rfl, rfl, rfl⟩, rfl⟩
  | deleteQueues account filters =>
      refine ⟨_, rfl, by cases account <;> rfl, ?_⟩
      intro f cmd hf
      obtain ⟨_, rfl, ⟨⟩⟩ := Option.bind_eq_some_iff.1 hf
      exact ⟨⟨rfl, rfl, rfl⟩, rfl⟩
  | getMessages account queue filters =>
      refine ⟨_, rfl, by cases account <;> cases queue <;> rfl, ?_⟩
      intro f cmd hf
      obtain ⟨_, rfl, h₁⟩ := Option.bind_eq_some_iff.1 hf
      obtain ⟨_, rfl, ⟨⟩⟩ := Option.bind_eq_some_iff.1 h₁
      exact ⟨⟨rfl, rfl, rfl, rfl⟩, rfl⟩
  | deleteMessages account queue filters =>
      refine ⟨_, rfl, by cases account <;> cases queue <;> rfl, ?_⟩
      intro f cmd hf
      obtain ⟨_, rfl, h₁⟩ := Option.bind_eq_some_iff.1 hf
      obtain ⟨_, rfl, ⟨⟩⟩ := Option.bind_eq_some_iff.1 h₁
      exact ⟨⟨rfl, rfl, rfl, rfl⟩, rfl⟩
  | updateMessages account queue attributes filters =>
      refine ⟨_, rfl, by cases account <;> cases queue <;> cases attributes <;> rfl, ?_⟩
      intro f cmd hf
      obtain ⟨_, rfl, h₁⟩ := Option.bind_eq_some_iff.1 hf
      obtain ⟨_, rfl, h₂⟩ := Option.bind_eq_some_iff.1 h₁
      obtain ⟨_, rfl, ⟨⟩⟩ := Option.bind_eq_some_iff.1 h₂
      exact ⟨⟨rfl, rfl, rfl, rfl, rfl⟩, rfl⟩
  | getMessage account queue messageId filters =>
      refine ⟨_, rfl, by cases account <;> cases queue <;> cases messageId <;> rfl, ?_⟩
      intro f cmd hf
      obtain ⟨_, rfl, h₁⟩ := Option.bind_eq_some_iff.1 hf
      obtain ⟨_, rfl, h₂⟩ := Option.bind_eq_some_iff.1 h₁
      obtain ⟨_, rfl, ⟨⟩⟩ := Option.bind_eq_some_iff.1 h₂
      exact ⟨⟨rfl, rfl, rfl, rfl, rfl⟩, rfl⟩
  | deleteMessage account queue messageId filters =>
      refine ⟨_, rfl, by cases account <;> cases queue <;> cases messageId <;> rfl, ?_⟩
      intro f cmd hf
      obtain ⟨_, rfl, h₁⟩ := Option.bind_eq_some_iff.1 hf
      obtain ⟨_, rfl, h₂⟩ := Option.bind_eq_some_iff.1 h₁
      obtain ⟨_, rfl, ⟨⟩⟩ := Option.bind_eq_some_iff.1 h₂
      exact ⟨⟨rfl, rfl, rfl, rfl, rfl⟩, rfl⟩
  | updateMessage account queue messageId attributes filters =>
      refine ⟨_, rfl, ?_, ?_⟩
      · cases account <;> cases queue <;> cases messageId <;> cases attributes <;> rfl
      intro f cmd hf
      obtain ⟨_, rfl, h₁⟩ := Option.bind_eq_some_iff.1 hf
      obtain ⟨_, rfl, h₂⟩ := Option.bind_eq_some_iff.1 h₁
      obtain ⟨_, rfl, h₃⟩ := Option.bind_eq_some_iff.1 h₂
      obtain ⟨_, rfl, ⟨⟩⟩ := Option.bind_eq_some_iff.1 h₃
      exact ⟨⟨rfl, rfl, rfl, rfl, rfl, rfl⟩, rfl⟩
  | createMessage account queue messageId body bodySize attributes =>
      refine ⟨_, rfl, by cases account <;> cases queue <;> cases messageId <;> cases body <;> rfl,
        ?_⟩
      intro f cmd hf
      obtain ⟨_, rfl, h₁⟩ := Option.bind_eq_some_iff.1 hf
      obtain ⟨_, rfl, h₂⟩ := Option.bind_eq_some_iff.1 h₁
      obtain ⟨_, rfl, h₃⟩ := Option.bind_eq_some_iff.1 h₂
      obtain ⟨_, rfl, ⟨⟩⟩ := Option.bind_eq_some_iff.1 h₃
      exact ⟨⟨rfl, rfl, rfl, rfl, rfl, rfl, rfl⟩, rfl⟩

/-- **A call is refused and changes nothing, or it is taken with its arguments.** It
is taken exactly when it is valid and no command is pending. -/
theorem Call.issue_cases (call : Call) (burrow : BurrowSt) :
    (call.accepted burrow = false ∧ ∃ code, call.issue burrow = .returns code burrow ∧
      (code = EINPROGRESS ∧ burrow.state ≠ .idle ∨ code = EINVAL ∧ call.valid = false)) ∨
    (call.accepted burrow = true ∧ burrow.state = .idle ∧ call.valid = true ∧
      ∃ cmd, call.Carried cmd ∧ cmd.command = some call.command ∧ call.issue burrow =
        if burrow.options.autoprocess then .process { burrow with cmd := cmd, state := .start }
        else .returns 0 { burrow with cmd := cmd, state := .start }) := by
  obtain ⟨write, hissues⟩ := call.exists_issues burrow
  rw [Call.accepted, hissues.issue_eq, ← hissues.valid_eq]
  unfold issueCommand
  by_cases hstate : burrow.state = .idle
  · rw [if_neg (not_not.2 hstate)]
    cases write with
    | none => exact Or.inl ⟨rfl, _, rfl, Or.inr ⟨rfl, rfl⟩⟩
    | some f =>
        refine Or.inr ⟨?_, hstate, rfl, f burrow.cmd, (hissues.carried f burrow.cmd rfl).1,
          (hissues.carried f burrow.cmd rfl).2, rfl⟩
        dsimp only
        split
        · rfl
        · rfl
  · rw [if_pos hstate]
    exact Or.inl ⟨rfl, _, rfl, Or.inl ⟨rfl, hstate⟩⟩

end Burrow.Frontend
