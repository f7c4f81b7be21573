import Burrow.Memory.Execute

/-!
# Runs of the backend

A run starts from the empty store and executes requests one after the other. The
environment chooses every request and all of its inputs. `Reachable` asks nothing
of the allocations; `ReachableWithMemory` lets them succeed, and such stores have
no holes. A run that comes to a `get_message` on an expired message does not return.
-/

set_option autoImplicit false

namespace Burrow.Memory

/-! ## Reachable stores -/

/-- The store occurs in some run. -/
def Reachable (s : AccountsSt) : Prop :=
  ∃ ls : List Request, Machine.run step ls burrowBackendMemoryCreate = .ok s

/-- The store occurs in some run in which no allocation fails. -/
def ReachableWithMemory (s : AccountsSt) : Prop :=
  ∃ ls : List Request, (∀ r ∈ ls, r.inputs.AllocationsSucceed) ∧
    Machine.run step ls burrowBackendMemoryCreate = .ok s

theorem ReachableWithMemory.reachable {s : AccountsSt} (h : ReachableWithMemory s) :
    Reachable s := by
  obtain ⟨ls, -, hrun⟩ := h
  exact ⟨ls, hrun⟩

theorem storeOk_create (holes : Prop) : StoreOk holes burrowBackendMemoryCreate :=
  wellFormed_empty _

/-- One step keeps the invariant. -/
theorem step_storeOk {holes : Prop} {r : Request} {s s' : AccountsSt} (h : StoreOk holes s)
    (hhole : LeavesHole r s → holes) (hstep : step r s = .ok s') : StoreOk holes s' := by
  obtain ⟨o, hrun, rfl⟩ := step_ok hstep
  exact execute_storeOk h hhole hrun

/-- A run along which no hole is left keeps the invariant. -/
theorem run_storeOk {holes : Prop} {ls : List Request} {s s' : AccountsSt} (h : StoreOk holes s)
    (hholes : Machine.Along step (fun r s => LeavesHole r s → holes) ls s)
    (hrun : Machine.run step ls s = .ok s') : StoreOk holes s' :=
  Machine.run_invariant step (fun _ _ _ hC hI hstep => step_storeOk hI hC hstep) hholes h hrun

theorem Reachable.storeOk {s : AccountsSt} (h : Reachable s) : StoreOk True s := by
  obtain ⟨ls, hrun⟩ := h
  exact run_storeOk (storeOk_create True)
    (Machine.along_of_forall step (fun r _ s (_ : LeavesHole r s) => trivial) _) hrun

/-- Without a failing allocation no hole is left. -/
theorem not_leavesHole {r : Request} (h : r.inputs.AllocationsSucceed) (s : AccountsSt) :
    ¬ LeavesHole r s :=
  fun ⟨_, _, hdefect⟩ => hdefect.not_linksSucceed h.create.2

theorem ReachableWithMemory.storeOk {s : AccountsSt} (h : ReachableWithMemory s) :
    StoreOk False s := by
  obtain ⟨ls, hmem, hrun⟩ := h
  exact run_storeOk (storeOk_create False)
    (Machine.along_of_forall step (fun r hr s hhole => not_leavesHole (hmem r hr) s hhole) _) hrun

/-! ## The clock -/

/-- The readings of the clock that a request uses. -/
def Request.ReadsClock (r : Request) (t : UInt32) : Prop :=
  match r.name with
  | .getAccounts | .getQueues => False
  | .deleteAccounts => ∃ i j, t = ((r.inputs.deleteAccounts.deleteQueues i).scan j).time
  | .deleteQueues => ∃ i, t = (r.inputs.deleteQueues.scan i).time
  | .getMessages | .updateMessages | .deleteMessages => t = r.inputs.scan.time
  | .createMessage => t = r.inputs.create.time
  | .getMessage | .updateMessage | .deleteMessage => t = r.inputs.message.time

/-- The clock does not go back from `lo` over the requests to `hi`. -/
def Chronological : UInt32 → List Request → UInt32 → Prop
  | lo, [], hi => lo ≤ hi
  | lo, r :: rest, hi =>
      ∃ mid, lo ≤ mid ∧ (∀ t, r.ReadsClock t → lo ≤ t ∧ t ≤ mid) ∧ Chronological mid rest hi

theorem Chronological.le {ls : List Request} {lo hi : UInt32} (h : Chronological lo ls hi) :
    lo ≤ hi := by
  induction ls generalizing lo with
  | nil => exact h
  | cons r rest ih =>
      obtain ⟨mid, hle, -, hrest⟩ := h
      exact UInt32.le_trans hle (ih hrest)

/-- No request reads a time after the last one. -/
theorem Chronological.reads_le {ls : List Request} {lo hi : UInt32} (h : Chronological lo ls hi)
    {r : Request} (hr : r ∈ ls) {t : UInt32} (ht : r.ReadsClock t) : t ≤ hi := by
  induction ls generalizing lo with
  | nil => exact absurd hr List.not_mem_nil
  | cons r' rest ih =>
      obtain ⟨mid, -, hreads, hrest⟩ := h
      rcases List.mem_cons.1 hr with rfl | hr
      · exact UInt32.le_trans (hreads t ht).2 hrest.le
      · exact ih hrest hr

/-! ## An environment with memory -/

/-- Blocks for every allocation, and one reading of the clock for all. -/
def ampleScan (now : UInt32) : ScanInputs :=
  { time := now
    referenceAttributes := default
    outFilters := some default
    iter := { init := true, add := fun _ => { newNode := true, key := true } } }

def ampleQueues (now : UInt32) : DeleteQueuesInputs :=
  { outFilters := some default
    iter := (ampleScan now).iter
    eraseCmd := some default
    eraseFilters := some default
    scan := fun _ => ampleScan now }

def ampleCreate (now : UInt32) : CreateInputs :=
  { time := now
    newMessage := some default
    body := some []
    messageId := true
    account := { add := { newNode := true, key := true }, init := true }
    queue := { add := { newNode := true, key := true }, init := true }
    node := { newNode := true, key := true } }

def ampleInputs (now : UInt32) : Inputs :=
  { scan := ampleScan now
    list := (ampleQueues now).toListInputs
    deleteQueues := ampleQueues now
    deleteAccounts :=
      { toEraseInputs := (ampleQueues now).toEraseInputs, deleteQueues := fun _ => ampleQueues now }
    create := ampleCreate now
    message := { time := now, attributes := default } }

theorem ampleInputs_allocationsSucceed (now : UInt32) : (ampleInputs now).AllocationsSucceed := by
  have hiter : (ampleScan now).iter.Succeeds := ⟨rfl, fun _ => ⟨rfl, rfl⟩⟩
  have hscan : (ampleScan now).AllocationsSucceed := ⟨by simp [ampleScan], hiter⟩
  have hlist : (ampleQueues now).toListInputs.AllocationsSucceed := ⟨by simp [ampleQueues], hiter⟩
  have herase : (ampleQueues now).toEraseInputs.AllocationsSucceed :=
    ⟨hlist, by simp [ampleQueues], by simp [ampleQueues]⟩
  have hqueues : (ampleQueues now).AllocationsSucceed := ⟨herase, fun _ => hscan⟩
  exact
    { scan := hscan
      list := hlist
      deleteQueues := hqueues
      deleteAccounts := ⟨herase, fun _ => hqueues⟩
      create := ⟨⟨by simp [ampleInputs, ampleCreate], by simp [ampleInputs, ampleCreate], rfl⟩,
        ⟨⟨rfl, rfl⟩, rfl⟩, ⟨⟨rfl, rfl⟩, rfl⟩, ⟨rfl, rfl⟩⟩ }

/-- A command with neither filters nor attributes. -/
def plainCommand (account queue messageId : String) (body : List UInt8) : BackendCommand :=
  { command := none
    commandFn := none
    account := account
    queue := queue
    messageId := messageId
    body := body
    bodySize := body.length
    filters := none
    attributes := none }

theorem plainCommand_isLive (account queue messageId : String) (body : List UInt8) :
    (plainCommand account queue messageId body).IsLive :=
  ⟨argLive_none, argLive_none⟩

/-- A message that is created hidden. -/
def hidingCommand (account queue messageId : String) (hide : UInt32) : BackendCommand :=
  { plainCommand account queue messageId [] with
    attributes := some (.live { set := burrowAttributesHide, ttl := 0, hide := hide }) }

/-- A worker's claim: hide what is visible for `hide` seconds, looking at `limit`
messages. -/
def claimCommand (account queue : String) (limit hide : UInt32) : BackendCommand :=
  { plainCommand account queue "" [] with
    filters := some (.live
      { set := burrowFiltersLimit, matchHidden := false, limit := limit, marker := none
        detail := .none, wait := 0 })
    attributes := some (.live { set := burrowAttributesHide, ttl := 0, hide := hide }) }

theorem claimCommand_isLive (account queue : String) (limit hide : UInt32) :
    (claimCommand account queue limit hide).IsLive :=
  ⟨(argLive_some _).2 trivial, (argLive_some _).2 trivial⟩

/-- A store with one message. -/
def singleStore (account queue : String) (m : BurrowMessage) : AccountsSt :=
  Dictionary.ofNodes
    [{ key := account
       data := some (Dictionary.ofNodes [{ key := queue, data := some (ofMessages [m]) }]) }]

/-- A request that creates a message and has the memory for it. -/
def createRequest (now : UInt32) (cmd : BackendCommand) : Request :=
  { inputs := ampleInputs now, name := .createMessage, cmd := cmd }

/-- Creating messages leads to a reachable store. -/
theorem reachableWithMemory_of_creates {creates : List (UInt32 × BackendCommand)} {s : AccountsSt}
    (h : Machine.run step (creates.map fun c => createRequest c.1 c.2) burrowBackendMemoryCreate =
      .ok s) : ReachableWithMemory s := by
  refine ⟨_, fun r hr => ?_, h⟩
  obtain ⟨c, -, rfl⟩ := List.mem_map.1 hr
  exact ampleInputs_allocationsSucceed c.1

/-- Creating one message leads to a reachable store. -/
theorem reachableWithMemory_of_create (now : UInt32) (cmd : BackendCommand) {s : AccountsSt}
    (h : step (createRequest now cmd) burrowBackendMemoryCreate = .ok s) :
    ReachableWithMemory s := by
  apply @reachableWithMemory_of_creates [(now, cmd)]
  rw [List.map_singleton, Machine.run_cons_of_ok step h]
  rfl

/-! ## No run breaks the store -/

/-- No list has two nodes with one key, and its length field counts its nodes;
a message lies under its own id; every account holds a queue and every queue
holds a message. -/
def StoreWellFormed (s : AccountsSt) : Prop :=
  s.WellFormed fun account =>
    ∃ queues, account.data = some queues ∧ queues.nodes ≠ [] ∧
      queues.WellFormed fun queue =>
        ∃ messages, queue.data = some messages ∧ messages.nodes ≠ [] ∧
          messages.WellFormed fun node =>
            ∃ message, node.data = some message ∧ message.messageId = node.key

theorem storeWellFormed_iff (s : AccountsSt) : StoreWellFormed s ↔ StoreOk False s := by
  constructor
  · intro h
    refine Dictionary.WellFormed.mono h fun n _ ⟨queues, hdata, hne, hwf⟩ => ?_
    refine Or.inr ⟨queues, hdata, hwf.mono fun q _ ⟨messages, hq, hqne, hmessages⟩ => ?_,
      fun hnil => hne hnil⟩
    exact Or.inr ⟨messages, hq, hmessages, hqne⟩
  · intro h
    refine Dictionary.WellFormed.mono h fun n _ hn => ?_
    rcases hn with ⟨-, hf⟩ | ⟨queues, hdata, hwf, hne⟩
    · exact hf.elim
    · refine ⟨queues, hdata, hne, hwf.mono fun q _ hq => ?_⟩
      rcases hq with ⟨-, hf⟩ | ⟨messages, hq, hmessages, hqne⟩
      · exact hf.elim
      · exact ⟨messages, hq, hqne, hmessages⟩

/-- A step returns exactly if it gets no expired message. -/
theorem step_returns_iff {s : AccountsSt} (h : StoreOk False s) {r : Request}
    (hargs : ArgsLive r s) : (∃ s', step r s = .ok s') ↔ ¬ GetsExpired r s := by
  rw [← execute_returns_iff h hargs]
  constructor
  · rintro ⟨s', hstep⟩
    obtain ⟨o, hrun, -⟩ := step_ok hstep
    exact ⟨o, hrun⟩
  · rintro ⟨o, hrun⟩
    exact ⟨o.accounts, by rw [step, hrun]⟩

/-- From a store without holes a run that leaves none, with arguments that can be read,
returns exactly if it gets no expired message. -/
theorem run_returns_iff {s : AccountsSt} (h : StoreOk False s) {ls : List Request}
    (hls : ∀ r ∈ ls, ∀ s, ArgsLive r s ∧ ¬ LeavesHole r s) :
    (∃ s', Machine.run step ls s = .ok s' ∧ StoreOk False s') ↔
      Machine.Along step (fun r s => ¬ GetsExpired r s) ls s :=
  Machine.run_ok_iff step
    (fun r hr s _ hok hstep => step_storeOk hok (hls r hr s).2 hstep)
    (fun r hr s hok => step_returns_iff hok (hls r hr s).1) h

/-- **When a run ends in a well-formed store**: with memory, and with arguments that can be
read, exactly if none of its commands is a `get_message` that names an expired message. -/
theorem run_storeWellFormed_iff (ls : List Request)
    (h : ∀ r ∈ ls, r.cmd.IsLive ∧ r.inputs.AllocationsSucceed) :
    (∃ s, Machine.run step ls burrowBackendMemoryCreate = .ok s ∧ StoreWellFormed s) ↔
      Machine.Along step (fun r s => ¬ GetsExpired r s) ls burrowBackendMemoryCreate := by
  simp only [storeWellFormed_iff]
  exact run_returns_iff (storeOk_create False) fun r hr s =>
    ⟨argsLive_of_isLive (h r hr).1 s, not_leavesHole (h r hr).2 s⟩

/-- A message is created, and then every account is deleted. -/
def deletingRun : List Request :=
  [createRequest 10 (plainCommand "a" "q" "m" [1]),
    { inputs := ampleInputs 20, name := .deleteAccounts, cmd := plainCommand "" "" "" [] }]

theorem run_storeWellFormed_deleting :
    ∃ s, Machine.run step deletingRun burrowBackendMemoryCreate = .ok s ∧ StoreWellFormed s := by
  refine (run_storeWellFormed_iff deletingRun fun r hr => ?_).2 (by decide)
  simp only [deletingRun, List.mem_cons, List.not_mem_nil, or_false] at hr
  rcases hr with rfl | rfl
  all_goals exact ⟨plainCommand_isLive _ _ _ _, ampleInputs_allocationsSucceed _⟩

/-- A message that expires at 310 is created, and asked for at 400. -/
def expiringRun : List Request :=
  [createRequest 10 (plainCommand "a" "q" "m" [1]),
    { inputs := ampleInputs 400, name := .getMessage, cmd := plainCommand "a" "q" "m" [] }]

/-- The message is read after it was freed, and there is no store to speak of. -/
theorem run_reads_freed_message :
    (∀ r ∈ expiringRun, r.cmd.IsLive ∧ r.inputs.AllocationsSucceed) ∧
      ¬ ∃ s, Machine.run step expiringRun burrowBackendMemoryCreate = .ok s ∧
        StoreWellFormed s := by
  refine ⟨fun r hr => ?_, ?_⟩
  · simp only [expiringRun, List.mem_cons, List.not_mem_nil, or_false] at hr
    rcases hr with rfl | rfl
    all_goals exact ⟨plainCommand_isLive _ _ _ _, ampleInputs_allocationsSucceed _⟩
  · rintro ⟨s, hrun, -⟩
    exact absurd (hrun.symm.trans (show _ = .error .freedMessage from rfl)) (by simp)

end Burrow.Memory
