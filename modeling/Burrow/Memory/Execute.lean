import Burrow.Lib.Machine
import Burrow.Memory.Containers
import Burrow.Memory.Single

/-!
# The backend refines the broker

`Broker.execute` is what the eleven commands are for, on the broker alone.
`execute_refines` connects it to the command functions of the backend: with
memory for its allocations, a command function that returns answers with the
callbacks and the code of the broker's command and leaves a store that represents
the broker's.

Where allocations may fail, `execute_storeOk` still gives the invariant, and
`execute_reads_or` says which arguments a command reads. A `get_message` that names an
expired message never returns (`execute_getsExpired`).
-/

set_option autoImplicit false

namespace Burrow.Memory

open KeyedList

/-! ## Requests -/

/-- A command as it reaches the backend, with what the environment decides. -/
structure Request where
  inputs : Inputs
  name : CommandName
  cmd : BackendCommand

/-- Every allocation succeeds. -/
structure Inputs.AllocationsSucceed (inputs : Inputs) : Prop where
  scan : inputs.scan.AllocationsSucceed
  list : inputs.list.AllocationsSucceed
  deleteQueues : inputs.deleteQueues.AllocationsSucceed
  deleteAccounts : inputs.deleteAccounts.AllocationsSucceed
  create : inputs.create.AllocationsSucceed

/-- The backend's part in a command: the store afterwards. -/
def step (r : Request) (s : AccountsSt) : Except Fault AccountsSt :=
  match execute r.inputs r.name r.cmd s with
  | .error e => .error e
  | .ok o => .ok o.accounts

theorem step_ok {r : Request} {s s' : AccountsSt} (h : step r s = .ok s') :
    ∃ o, execute r.inputs r.name r.cmd s = .ok o ∧ o.accounts = s' := by
  unfold step at h
  split at h
  · exact absurd h (by simp)
  · next o ho => exact ⟨o, ho, Except.ok.inj h⟩

/-! ## The broker's commands -/

/-- The commands on the messages of a queue. -/
def Broker.scanMessages (b : Broker) (scanType : ScanAction) (now : UInt32)
    (cmd : BackendCommand) : Answer :=
  ⟨b.scan cmd (scanLocals cmd scanType .report now),
    b.scanned cmd (scanLocals cmd scanType .report now), 0⟩

def Broker.deleteQueues (b : Broker) (inputs : DeleteQueuesInputs) (cmd : BackendCommand) :
    Answer :=
  ⟨b.sweeps (queueSweeps inputs.scan cmd.account (nameWindow cmd (b.inner cmd.account)) 0), [], 0⟩

def Broker.deleteAccounts (b : Broker) (inputs : DeleteAccountsInputs) (cmd : BackendCommand) :
    Answer :=
  ⟨b.sweeps (accountSweeps inputs.deleteQueues b.inner (nameWindow cmd b.outer) 0), [], 0⟩

def Broker.createMessage (b : Broker) (now : UInt32) (cmd : BackendCommand) : Answer :=
  ⟨b.put cmd.account cmd.queue (createdMessage now cmd), [], 0⟩

/-- What the eleven commands are for. Of the inputs only the clock matters. -/
def Broker.execute (b : Broker) (inputs : Inputs) (name : CommandName) (cmd : BackendCommand) :
    Answer :=
  match name with
  | .getAccounts => b.getAccounts cmd
  | .deleteAccounts => b.deleteAccounts inputs.deleteAccounts cmd
  | .getQueues => b.getQueues cmd
  | .deleteQueues => b.deleteQueues inputs.deleteQueues cmd
  | .getMessages => b.scanMessages .get inputs.scan.time cmd
  | .updateMessages => b.scanMessages .update inputs.scan.time cmd
  | .deleteMessages => b.scanMessages .delete inputs.scan.time cmd
  | .createMessage => b.createMessage inputs.create.time cmd
  | .getMessage => b.getMessage inputs.message.time cmd
  | .updateMessage => b.updateMessage inputs.message.time cmd
  | .deleteMessage => b.deleteMessage inputs.message.time cmd

/-! ## Refinement -/

section Refinement

variable {holes : Prop} {s : AccountsSt} {o : Outcome}

theorem scanCommand_spec (h : StoreOk holes s) {scanType : ScanAction} {inputs : ScanInputs}
    {cmd : BackendCommand} (hrun : scanCommand scanType inputs cmd s = .ok o) :
    StoreOk holes o.accounts ∧ o.result = 0 ∧
      (view s).ScanStep cmd (scanLocals cmd scanType .report inputs.time)
        (¬ inputs.AllocationsSucceed) (view o.accounts) (o.callbacks.map Callback.report) := by
  unfold scanCommand at hrun
  split at hrun
  · exact absurd hrun (by simp)
  · next hscan =>
      cases hrun
      obtain ⟨hok, hstep⟩ := scanQueue_spec h hscan
      exact ⟨hok, rfl, hstep⟩

theorem scanCommand_refines (h : StoreOk holes s) {scanType : ScanAction} {inputs : ScanInputs}
    (hmem : inputs.AllocationsSucceed) {cmd : BackendCommand}
    (hrun : scanCommand scanType inputs cmd s = .ok o) :
    StoreOk holes o.accounts ∧ o.answer = (view s).scanMessages scanType inputs.time cmd := by
  obtain ⟨hok, hresult, ⟨hview, hreports⟩ | ⟨hfail, -⟩⟩ := scanCommand_spec h hrun
  · refine ⟨hok, ?_⟩
    rw [Outcome.answer, hview, hreports, hresult]
    rfl
  · exact absurd hmem hfail

theorem Swept.refines {plan : List Sweep} {failed : Prop} (hmem : ¬ failed)
    (hswept : Swept holes s plan failed o.accounts o.callbacks) (hresult : o.result = 0) :
    StoreOk holes o.accounts ∧ o.answer = ⟨(view s).sweeps plan, [], 0⟩ := by
  obtain ⟨hok, hcallbacks, ran, -, hview, hall⟩ := hswept
  refine ⟨hok, ?_⟩
  rw [Outcome.answer, hview, hall hmem, hcallbacks, hresult]
  rfl

theorem scanCommand_callbacks {I : BurrowAttributes → Prop} {P : Callback → Prop}
    (hreport : ∀ now m reference, I reference →
      I (reportTimes now m reference) ∧ P (messageCallback m (reportTimes now m reference)))
    {scanType : ScanAction} {inputs : ScanInputs} {cmd : BackendCommand}
    (hI : I inputs.referenceAttributes) (hrun : scanCommand scanType inputs cmd s = .ok o) :
    ∀ c ∈ o.callbacks, P c := by
  unfold scanCommand at hrun
  split at hrun
  · exact absurd hrun (by simp)
  · next hscan =>
      cases hrun
      exact scanQueue_callbacks hreport hI hscan

/-- **Refinement.** With memory for its allocations a command function that
returns does what the command is for. -/
theorem execute_refines (h : StoreOk holes s) {inputs : Inputs}
    (hmem : inputs.AllocationsSucceed) {name : CommandName} {cmd : BackendCommand}
    (hrun : execute inputs name cmd s = .ok o) :
    StoreOk holes o.accounts ∧ o.answer = (view s).execute inputs name cmd := by
  cases name with
  | getAccounts =>
      obtain ⟨haccounts, hanswer | ⟨hfail, -⟩⟩ := getAccounts_spec h hrun
      · exact ⟨haccounts ▸ h, hanswer⟩
      · exact absurd hmem.list hfail
  | getQueues =>
      obtain ⟨haccounts, hanswer | ⟨hfail, -⟩⟩ := getQueues_spec h hrun
      · exact ⟨haccounts ▸ h, hanswer⟩
      · exact absurd hmem.list hfail
  | deleteAccounts =>
      obtain ⟨hswept, hresult⟩ := deleteAccounts_spec h hrun
      exact hswept.refines (fun hno => hno hmem.deleteAccounts) hresult
  | deleteQueues =>
      obtain ⟨hswept, hresult⟩ := deleteQueues_spec h hrun
      exact hswept.refines (fun hno => hno hmem.deleteQueues) hresult
  | getMessages => exact scanCommand_refines h hmem.scan hrun
  | updateMessages => exact scanCommand_refines h hmem.scan hrun
  | deleteMessages => exact scanCommand_refines h hmem.scan hrun
  | createMessage =>
      obtain ⟨hcallbacks, hresult, -⟩ := createMessage_spec h hrun
      obtain ⟨hok, hview⟩ := createMessage_succeeds h hmem.create hrun
      refine ⟨hok, ?_⟩
      rw [Outcome.answer, hview, hcallbacks, hresult]
      rfl
  | getMessage =>
      obtain ⟨-, hs, hanswer⟩ := getMessage_ok h hrun
      exact ⟨hs ▸ h, hanswer⟩
  | updateMessage => exact updateMessage_spec h hrun
  | deleteMessage =>
      obtain ⟨o', hrun', hok, hanswer⟩ := deleteMessage_spec h inputs.message cmd
      cases hrun'.symm.trans hrun
      exact ⟨hok, hanswer⟩

/-! ## The invariant -/

/-- `create_message` leaves a container behind that has nothing in it. -/
def LeavesHole (r : Request) (s : AccountsSt) : Prop :=
  r.name = .createMessage ∧ r.inputs.create.BlocksSucceed ∧ r.inputs.create.Defect s r.cmd

/-- **Every command keeps the invariant**, whatever its allocations come to,
unless it is a `create_message` that leaves a hole. -/
theorem execute_storeOk (h : StoreOk holes s) {r : Request}
    (hhole : LeavesHole r s → holes) (hrun : execute r.inputs r.name r.cmd s = .ok o) :
    StoreOk holes o.accounts := by
  obtain ⟨inputs, name, cmd⟩ := r
  cases name with
  | getAccounts => exact (getAccounts_spec h hrun).1 ▸ h
  | getQueues => exact (getQueues_spec h hrun).1 ▸ h
  | deleteAccounts => exact (deleteAccounts_spec h hrun).1.1
  | deleteQueues => exact (deleteQueues_spec h hrun).1.1
  | getMessages => exact (scanCommand_spec h hrun).1
  | updateMessages => exact (scanCommand_spec h hrun).1
  | deleteMessages => exact (scanCommand_spec h hrun).1
  | createMessage =>
      obtain ⟨-, -, ⟨-, heq⟩ | ⟨hblocks, hlinked⟩⟩ := createMessage_spec h hrun
      · exact heq ▸ h
      · cases hlinked with
        | stored _ ok _ => exact ok
        | kept _ _ ok _ _ => exact ok
        -- the one way to a hole: a list of a new entry could not be made
        | hole defect ok _ _ => exact ok.mono fun _ => hhole ⟨rfl, hblocks, defect⟩
  | getMessage => exact (getMessage_ok h hrun).2.1 ▸ h
  | updateMessage => exact (updateMessage_spec h hrun).1
  | deleteMessage =>
      obtain ⟨o', hrun', hok, -⟩ := deleteMessage_spec h inputs.message cmd
      cases hrun'.symm.trans hrun
      exact hok

/-- The command works on one message. -/
def OnMessage : CommandName → Bool
  | .getMessage | .updateMessage | .deleteMessage => true
  | _ => false

/-- The commands on one message, in the store. -/
theorem oneMessage_of_execute (h : StoreOk holes s) {inputs : Inputs} {name : CommandName}
    {cmd : BackendCommand} (hname : OnMessage name = true)
    (hrun : execute inputs name cmd s = .ok o) :
    OneMessage (view s) inputs.message.time cmd name o.answer := by
  cases name with
  | getMessage =>
      rw [(getMessage_ok h hrun).2.2]
      exact oneMessage_getMessage
  | updateMessage =>
      rw [(updateMessage_spec h hrun).2]
      exact oneMessage_updateMessage
  | deleteMessage =>
      obtain ⟨o', hrun', -, hanswer⟩ := deleteMessage_spec h inputs.message cmd
      cases hrun'.symm.trans hrun
      rw [hanswer]
      exact oneMessage_deleteMessage
  | _ => exact absurd hname (by decide)

/-- **The return codes.** No command function waits for anything. -/
theorem execute_result (h : StoreOk holes s) {r : Request}
    (hrun : execute r.inputs r.name r.cmd s = .ok o) : o.result = 0 ∨ o.result = EINVAL := by
  obtain ⟨inputs, name, cmd⟩ := r
  have hanswer {x : Answer} (hx : o.answer = x) : o.result = x.result := congrArg Answer.result hx
  cases name with
  | getAccounts => exact Or.inl (listCommand_spec h hrun).2.1
  | getQueues =>
      obtain ⟨-, heq | ⟨-, heq⟩⟩ := getQueues_spec h hrun
      · exact Or.inl (hanswer heq)
      · exact Or.inl (hanswer heq)
  | deleteAccounts => exact Or.inl (deleteAccounts_spec h hrun).2
  | deleteQueues => exact Or.inl (deleteQueues_spec h hrun).2
  | getMessages => exact Or.inl (scanCommand_spec h hrun).2.1
  | updateMessages => exact Or.inl (scanCommand_spec h hrun).2.1
  | deleteMessages => exact Or.inl (scanCommand_spec h hrun).2.1
  | createMessage => exact Or.inl (createMessage_spec h hrun).2.1
  | getMessage => exact (oneMessage_of_execute h rfl hrun).result
  | updateMessage => exact (oneMessage_of_execute h rfl hrun).result
  | deleteMessage => exact (oneMessage_of_execute h rfl hrun).result

end Refinement

/-! ## What a command reads -/

/-- The arguments that a command reads can be read. -/
def ArgsLive (r : Request) (s : AccountsSt) : Prop :=
  match r.name with
  | .getAccounts => r.inputs.list.outFilters ≠ none → ArgLive r.cmd.filters
  | .deleteAccounts => r.inputs.deleteAccounts.outFilters ≠ none → ArgLive r.cmd.filters
  | .getQueues =>
      s.data? r.cmd.account ≠ none → r.inputs.list.outFilters ≠ none → ArgLive r.cmd.filters
  | .deleteQueues =>
      s.data? r.cmd.account ≠ none → r.inputs.deleteQueues.outFilters ≠ none →
        ArgLive r.cmd.filters
  | .getMessages | .updateMessages | .deleteMessages =>
      r.cmd.queue ∈ queueNames s r.cmd.account →
        ArgLive r.cmd.attributes ∧ (r.inputs.scan.outFilters ≠ none → ArgLive r.cmd.filters)
  | .createMessage => r.inputs.create.BlocksSucceed → ArgLive r.cmd.attributes
  | .updateMessage =>
      ∀ m, (view s).find r.cmd = some m → ¬ m.Expired r.inputs.message.time →
        ArgLive r.cmd.attributes
  | .getMessage | .deleteMessage => True

/-- With arguments that can be read a command reads no destroyed object. -/
theorem argsLive_of_isLive {r : Request} (h : r.cmd.IsLive) (s : AccountsSt) : ArgsLive r s := by
  obtain ⟨inputs, name, cmd⟩ := r
  cases name with
  | getAccounts => exact fun _ => h.1
  | deleteAccounts => exact fun _ => h.1
  | getQueues => exact fun _ _ => h.1
  | deleteQueues => exact fun _ _ => h.1
  | getMessages => exact fun _ => ⟨h.2, fun _ => h.1⟩
  | updateMessages => exact fun _ => ⟨h.2, fun _ => h.1⟩
  | deleteMessages => exact fun _ => ⟨h.2, fun _ => h.1⟩
  | createMessage => exact fun _ => h.2
  | updateMessage => exact fun _ _ _ => h.2
  | getMessage => trivial
  | deleteMessage => trivial

section Reading

variable {holes : Prop} {s : AccountsSt}

theorem scanCommand_reads (h : StoreOk holes s) (scanType : ScanAction) (inputs : ScanInputs)
    (cmd : BackendCommand) :
    Reads (cmd.queue ∈ queueNames s cmd.account →
        ArgLive cmd.attributes ∧ (inputs.outFilters ≠ none → ArgLive cmd.filters))
      (scanCommand scanType inputs cmd s) := by
  have hreads : Reads _ (scanQueue inputs cmd scanType .report s) := scanQueue_reads h
  refine ⟨fun hlive => ?_, fun hno => ?_⟩
  · obtain ⟨r, hr⟩ := hreads.ok hlive
    rw [scanCommand, hr]
    exact ⟨_, rfl⟩
  · rw [scanCommand, hreads.error hno]

/-- The request is a `get_message` that names an expired message. -/
def GetsExpired (r : Request) (s : AccountsSt) : Prop :=
  r.name = .getMessage ∧ (view s).FindsExpired r.inputs.message.time r.cmd

instance (r : Request) (s : AccountsSt) : Decidable (GetsExpired r s) :=
  inferInstanceAs (Decidable (_ ∧ _))

/-- It takes no object. -/
theorem GetsExpired.argsLive {r : Request} (h : GetsExpired r s) : ArgsLive r s := by
  rw [ArgsLive, h.1]
  trivial

/-- Such a request reads what it has freed. -/
theorem execute_getsExpired (h : StoreOk holes s) {r : Request} (he : GetsExpired r s) :
    execute r.inputs r.name r.cmd s = .error .freedMessage := by
  obtain ⟨inputs, name, cmd⟩ := r
  obtain ⟨rfl, he⟩ := he
  exact getMessage_expired h he

/-- A request that returns is none. -/
theorem not_getsExpired (h : StoreOk holes s) {r : Request} {o : Outcome}
    (hrun : execute r.inputs r.name r.cmd s = .ok o) : ¬ GetsExpired r s := by
  intro he
  rw [execute_getsExpired h he] at hrun
  exact absurd hrun (by simp)

/-- **What a command reads**: unless it gets an expired message it fails exactly by reading
a destroyed object, or, with holes in the store, by running into one of them. -/
theorem execute_reads_or (h : StoreOk holes s) {r : Request} (he : ¬ GetsExpired r s) :
    Reads (ArgsLive r s) (execute r.inputs r.name r.cmd s) ∨
      holes ∧ r.name = .createMessage ∧ ArgsLive r s ∧
        execute r.inputs r.name r.cmd s = .error .nullDereference := by
  obtain ⟨inputs, name, cmd⟩ := r
  cases name with
  | getAccounts => exact Or.inl listCommand_reads
  | deleteAccounts => exact Or.inl (deleteAccounts_reads h)
  | getQueues => exact Or.inl (getQueues_reads h)
  | deleteQueues => exact Or.inl (deleteQueues_reads h)
  | getMessages => exact Or.inl (scanCommand_reads h .get inputs.scan cmd)
  | updateMessages => exact Or.inl (scanCommand_reads h .update inputs.scan cmd)
  | deleteMessages => exact Or.inl (scanCommand_reads h .delete inputs.scan cmd)
  -- only a hole that is there already makes this command dereference a null pointer
  | createMessage =>
      rcases createMessage_reads_or h with hreads | ⟨hholes, hlive, herror⟩
      · exact Or.inl hreads
      · exact Or.inr ⟨hholes, rfl, hlive, herror⟩
  | updateMessage => exact Or.inl (updateMessage_reads h)
  | getMessage =>
      obtain ⟨o, hrun, -⟩ := getMessage_spec h fun hfinds => he ⟨rfl, hfinds⟩
      exact Or.inl (.of_ok hrun trivial)
  | deleteMessage =>
      obtain ⟨o, hrun, -⟩ := deleteMessage_spec h inputs.message cmd
      exact Or.inl (.of_ok hrun trivial)

/-- In a store without holes reading is all that can go wrong. -/
theorem execute_reads (h : StoreOk False s) {r : Request} (he : ¬ GetsExpired r s) :
    Reads (ArgsLive r s) (execute r.inputs r.name r.cmd s) := by
  rcases execute_reads_or h he with hreads | ⟨hf, -⟩
  · exact hreads
  · exact hf.elim

/-- With arguments that can be read, a command in such a store returns exactly if it gets
no expired message. -/
theorem execute_returns_iff (h : StoreOk False s) {r : Request} (hargs : ArgsLive r s) :
    (∃ o, execute r.inputs r.name r.cmd s = .ok o) ↔ ¬ GetsExpired r s :=
  ⟨fun ⟨_, hrun⟩ => not_getsExpired h hrun, fun he => (execute_reads h he).ok hargs⟩

end Reading

end Burrow.Memory
