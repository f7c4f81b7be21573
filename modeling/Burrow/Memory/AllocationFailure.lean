import Burrow.Memory.Runs

/-!
# `create_message` without memory

When an allocation of `create_message` fails it undoes what it has linked, except
where `CreateInputs.Defect` says: the node of a container whose list cannot be
allocated stays, and so does a new account when only the node of the message is
missing. Until a step does that, every store of a run is well formed.
-/

set_option autoImplicit false

namespace Burrow.Memory

/-- The accounts, the queues and the messages, each in their order, are those
before the command with the message put among them, or just those before. -/
def StoredOrUnchanged (inputs : CreateInputs) (cmd : BackendCommand) (s s' : AccountsSt) : Prop :=
  view s' = (view s).put cmd.account cmd.queue (createdMessage inputs.time cmd) ∨ view s' = view s

/-- In a well-formed store `create_message` is atomic unless it leaves a hole. -/
theorem createMessage_atomic_iff {s : AccountsSt} (h : StoreOk False s) {r : Request}
    (hname : r.name = .createMessage) {o : Outcome}
    (hrun : execute r.inputs r.name r.cmd s = .ok o) :
    StoredOrUnchanged r.inputs.create r.cmd s o.accounts ∧ StoreWellFormed o.accounts ↔
      ¬ LeavesHole r s := by
  obtain ⟨inputs, name, cmd⟩ := r
  dsimp only at hname
  subst hname
  rw [storeWellFormed_iff]
  obtain ⟨-, -, ⟨hblocks, heq⟩ | ⟨hblocks, hlinked⟩⟩ := createMessage_spec h hrun
  · refine iff_of_true ⟨Or.inr ?_, ?_⟩ fun hhole => hblocks hhole.2.1
    · rw [heq]
    · rw [heq]
      exact h
  · cases hlinked with
    | stored defect ok view_eq =>
        exact iff_of_true ⟨Or.inl view_eq, ok⟩ fun hhole => defect hhole.2.2
    | kept defect _ ok _ view_eq =>
        exact iff_of_true ⟨Or.inr (view_eq not_false), ok⟩ fun hhole => defect hhole.2.2
    | hole defect _ not_ok _ =>
        exact iff_of_false (fun hboth => not_ok hboth.2) fun hno => hno ⟨rfl, hblocks, defect⟩

/-- **When `create_message` is atomic.** After any run along which no
`create_message` leaves a hole, whatever other allocations failed in it, the next
one is atomic and leaves a well-formed store exactly when it leaves none. -/
theorem create_atomic {ls : List Request} {s : AccountsSt}
    (hls : Machine.Along step (fun r s => ¬ LeavesHole r s) ls burrowBackendMemoryCreate)
    (hrun : Machine.run step ls burrowBackendMemoryCreate = .ok s) {r : Request}
    (hname : r.name = .createMessage) (hlive : ArgLive r.cmd.attributes) :
    StoreWellFormed s ∧ ∃ o, execute r.inputs r.name r.cmd s = .ok o ∧
      (StoredOrUnchanged r.inputs.create r.cmd s o.accounts ∧ StoreWellFormed o.accounts ↔
        ¬ LeavesHole r s) := by
  have h : StoreOk False s := run_storeOk (storeOk_create False) hls hrun
  have hargs : ArgsLive r s := by
    unfold ArgsLive
    rw [hname]
    exact fun _ => hlive
  have hcreate : ¬ GetsExpired r s := fun hget => absurd (hname.symm.trans hget.1) (by decide)
  obtain ⟨o, ho⟩ := (execute_reads h hcreate).ok hargs
  exact ⟨(storeWellFormed_iff s).2 h, o, ho, createMessage_atomic_iff h hname ho⟩

/-- The memory for the node of the message is missing in a queue that is there. -/
theorem create_atomic_no_node :
    ∃ o, execute { ampleInputs 20 with
            create := { ampleCreate 20 with node := { newNode := true, key := false } } }
          .createMessage (plainCommand "a" "q" "n" [])
          (singleStore "a" "q" (createdMessage 10 (plainCommand "a" "q" "m" []))) = .ok o ∧
      StoreWellFormed o.accounts := by
  let create : Request := createRequest 10 (plainCommand "a" "q" "m" [])
  let r : Request :=
    { inputs :=
        { ampleInputs 20 with
          create := { ampleCreate 20 with node := { newNode := true, key := false } } }
      name := .createMessage
      cmd := plainCommand "a" "q" "n" [] }
  have hls : Machine.Along step (fun r s => ¬ LeavesHole r s) [create]
      burrowBackendMemoryCreate :=
    ⟨not_leavesHole (ampleInputs_allocationsSucceed 10) _, fun _ _ => trivial⟩
  obtain ⟨-, o, hrun, hiff⟩ := @create_atomic _ (singleStore "a" "q"
    (createdMessage 10 (plainCommand "a" "q" "m" []))) hls rfl r rfl argLive_none
  refine ⟨o, hrun, (hiff.2 ?_).2⟩
  rintro ⟨-, -, hdefect⟩
  cases hdefect with
  | account new _ _ => exact new (by decide)
  | queue _ new _ _ => exact new (by decide)
  | message new _ _ _ => exact new (by decide)

/-- Without memory for its list of queues a new account stays behind without one. -/
theorem create_leaves_account :
    ¬ ∀ (s : AccountsSt) (inputs : Inputs) (cmd : BackendCommand) (o : Outcome),
      ReachableWithMemory s → cmd.IsLive → execute inputs .createMessage cmd s = .ok o →
      StoredOrUnchanged inputs.create cmd s o.accounts ∧ StoreWellFormed o.accounts := by
  intro h
  have hwf := (h burrowBackendMemoryCreate
    { ampleInputs 10 with
      create :=
        { ampleCreate 10 with
          account := { add := { newNode := true, key := true }, init := false } } }
    (plainCommand "a" "q" "m" [])
    ⟨Dictionary.ofNodes [{ key := "a", data := none }], [], 0⟩
    ⟨[], fun _ hr => absurd hr List.not_mem_nil, rfl⟩ (plainCommand_isLive _ _ _ _) rfl).2
  obtain ⟨queues, hdata, -⟩ := hwf.all _ List.mem_cons_self
  exact absurd hdata (by simp)

end Burrow.Memory
