import Burrow.Memory.Runs

/-!
# Where messages come from

Whatever becomes of the allocations of a request, a message that is in a queue
after it was there before, or is the one it created, or is one that was there, not
expired, with the times that the request gave it.
-/

set_option autoImplicit false

namespace Burrow.Memory

open KeyedList

/-! ## Origins -/

/-- How a message comes to be in a queue after a request. -/
inductive Origin (r : Request) (s : AccountsSt) (account queue : String) (m' : BurrowMessage) : Prop
  /-- it was there before -/
  | old (mem : m' ∈ queueMessages s account queue)
  /-- it is new -/
  | created (name : r.name = .createMessage)
      (triple : r.cmd.account = account ∧ r.cmd.queue = queue ∧ r.cmd.messageId = m'.messageId)
  /-- it was updated alone -/
  | updated {m : BurrowMessage} (name : r.name = .updateMessage)
      (triple : r.cmd.account = account ∧ r.cmd.queue = queue ∧ r.cmd.messageId = m'.messageId)
      (mem : m ∈ queueMessages s account queue) (id_eq : m.messageId = m'.messageId)
      (live : ¬ m.Expired r.inputs.message.time)
      (eq : m' = updatedMessage r.inputs.message.time r.cmd m)
  /-- it was updated with the others of its queue -/
  | scanned {m : BurrowMessage} (name : r.name = .updateMessages)
      (pair : r.cmd.account = account ∧ r.cmd.queue = queue)
      (mem : m ∈ queueMessages s account queue) (id_eq : m.messageId = m'.messageId)
      (selected : m.Selected r.inputs.scan.time r.cmd.matchHidden)
      (eq : m' = applyDeadlines (deadline r.inputs.scan.time r.cmd.ttl?)
        (deadline r.inputs.scan.time r.cmd.hide?) m)

/-- A scan leaves a message as it was, or with new times. -/
theorem scanEffect_cases {cmd : BackendCommand} {scanType : ScanAction} {now : UInt32}
    {m m' : BurrowMessage} (h : scanEffect (scanLocals cmd scanType .report now) m = some m') :
    m' = m ∨ scanType = .update ∧ m.Selected now cmd.matchHidden ∧
      m' = applyDeadlines (deadline now cmd.ttl?) (deadline now cmd.hide?) m := by
  by_cases he : m.Expired now
  · rw [scanEffect_of_expired he] at h
    exact absurd h (by simp)
  · by_cases hs : m.Selected now cmd.matchHidden
    · rw [scanEffect_of_selected hs] at h
      cases scanType with
      | update => exact Or.inr ⟨rfl, hs, (Option.some.inj h).symm⟩
      | get => exact Or.inl (Option.some.inj h).symm
      | delete => exact absurd h (by simp [scanLocals])
    · rw [scanEffect_of_not_selected he hs] at h
      exact Or.inl (Option.some.inj h).symm

/-- The messages of a queue after a scan. -/
theorem mem_scan {b : Broker} {cmd : BackendCommand} {scanType : ScanAction} {now : UInt32}
    {account queue : String} {m' : BurrowMessage}
    (h : m' ∈ (b.scan cmd (scanLocals cmd scanType .report now)).rows account queue) :
    m' ∈ b.rows account queue ∨
      scanType = .update ∧ (cmd.account = account ∧ cmd.queue = queue) ∧
        ∃ m ∈ b.rows account queue, m.Selected now cmd.matchHidden ∧
          m' = applyDeadlines (deadline now cmd.ttl?) (deadline now cmd.hide?) m := by
  rcases Directory.mem_rows_modifyRows (mapWindow_nil _ _ _ _) h with hold | ⟨ha, hq, hmem⟩
  · exact Or.inl hold
  · subst ha hq
    rcases mem_mapWindow _ hmem with hold | ⟨m, hm, heffect⟩
    · exact Or.inl hold
    · have hrow := mem_of_mem_window _ hm
      rcases scanEffect_cases heffect with rfl | ⟨htype, hselected, heq⟩
      · exact Or.inl hrow
      · exact Or.inr ⟨htype, ⟨rfl, rfl⟩, m, hrow, hselected, heq⟩

/-- Sweeps bring no message in. -/
theorem mem_sweeps {account queue : String} {m : BurrowMessage} {l : List Sweep} {b : Broker}
    (h : m ∈ (b.sweeps l).rows account queue) : m ∈ b.rows account queue := by
  induction l generalizing b with
  | nil => exact h
  | cons sweep rest ih =>
      have hsweep : m ∈ (b.sweep sweep).rows account queue := ih h
      rcases Directory.mem_rows_modifyRows rfl hsweep with hold | ⟨ha, hq, hmem⟩
      · exact hold
      · subst ha hq
        exact (List.mem_filter.1 hmem).1

theorem mem_remove {b : Broker} {cmd : BackendCommand} {account queue : String} {m : BurrowMessage}
    (h : m ∈ (b.remove cmd).rows account queue) : m ∈ b.rows account queue := by
  rcases Directory.mem_rows_modifyRows rfl h with hold | ⟨ha, hq, hmem⟩
  · exact hold
  · subst ha hq
    exact List.mem_of_mem_eraseP hmem

theorem mem_put {b : Broker} {account queue account' queue' : String} {m m' : BurrowMessage}
    (h : m' ∈ (b.put account' queue' m).rows account queue) :
    m' ∈ b.rows account queue ∨ m' = m ∧ account' = account ∧ queue' = queue := by
  by_cases hq : account' = account ∧ queue' = queue
  · obtain ⟨rfl, rfl⟩ := hq
    rw [Broker.put, Directory.rows_putRows_self, putMessage] at h
    split at h
    · rcases mem_modify _ h with hold | ⟨_, _, _, heq⟩
      · exact Or.inl hold
      · exact Or.inr ⟨heq, rfl, rfl⟩
    · rcases List.mem_append.1 h with hold | hnew
      · exact Or.inl hold
      · exact Or.inr ⟨List.mem_singleton.1 hnew, rfl, rfl⟩
  · left
    rw [Broker.put, Directory.rows_putRows_of_ne _ _ _ _ (by
      by_cases ha : account' = account
      · exact Or.inr fun heq => hq ⟨ha, heq.symm⟩
      · exact Or.inl fun heq => ha heq.symm)] at h
    exact h

section Origin

variable {holes : Prop} {s : AccountsSt} {o : Outcome} {account queue : String}
  {m' : BurrowMessage}

theorem mem_scanCommand (h : StoreOk holes s) {scanType : ScanAction} {inputs : ScanInputs}
    {cmd : BackendCommand} (hrun : scanCommand scanType inputs cmd s = .ok o)
    (hm : m' ∈ queueMessages o.accounts account queue) :
    m' ∈ queueMessages s account queue ∨
      scanType = .update ∧ (cmd.account = account ∧ cmd.queue = queue) ∧
        ∃ m ∈ queueMessages s account queue, m.Selected inputs.time cmd.matchHidden ∧
          m' = applyDeadlines (deadline inputs.time cmd.ttl?)
            (deadline inputs.time cmd.hide?) m := by
  have hrows : m' ∈ (view o.accounts).rows account queue := hm
  obtain ⟨-, -, ⟨hview, -⟩ | ⟨-, hview, -⟩⟩ := scanCommand_spec h hrun
  · rw [hview] at hrows
    exact mem_scan hrows
  · rw [hview] at hrows
    exact Or.inl hrows

theorem Swept.mem {plan : List Sweep} {failed : Prop} {s' : AccountsSt} {callbacks : List Callback}
    (hswept : Swept holes s plan failed s' callbacks) (hm : m' ∈ queueMessages s' account queue) :
    m' ∈ queueMessages s account queue := by
  obtain ⟨-, -, ran, -, hview, -⟩ := hswept
  have hrows : m' ∈ (view s').rows account queue := hm
  rw [hview] at hrows
  exact mem_sweeps hrows

/-- The messages of a queue after a command on one message. -/
theorem mem_oneMessage {r : Request} {x : Answer}
    (hone : OneMessage (view s) r.inputs.message.time r.cmd r.name x)
    (hrows : m' ∈ x.broker.rows account queue) : Origin r s account queue m' := by
  obtain ⟨inputs, name, cmd⟩ := r
  cases hone with
  | missing _ _ | got _ _ => exact .old hrows
  | expired _ _ | deleted _ _ => exact .old (mem_remove hrows)
  | @updated m hfind hlive =>
      rcases Directory.mem_rows_modifyRows rfl hrows with hold | ⟨ha, hq, hmem⟩
      · exact .old hold
      · subst ha hq
        rcases mem_modify _ hmem with hold | ⟨_, -, -, heq⟩
        · exact .old hold
        · have hid : m'.messageId = m.messageId := by
            rw [heq, updatedMessage, messageId_applyDeadlines]
          refine .updated rfl ⟨rfl, rfl, ?_⟩ (find?_hasKey_some _ hfind).1 hid.symm hlive heq
          exact (messageId_of_find hfind).symm.trans hid.symm

/-- **Where the messages of a queue come from**, whatever becomes of the
allocations of the request. -/
theorem mem_execute (h : StoreOk holes s) {r : Request}
    (hrun : execute r.inputs r.name r.cmd s = .ok o)
    (hm : m' ∈ queueMessages o.accounts account queue) : Origin r s account queue m' := by
  obtain ⟨inputs, name, cmd⟩ := r
  have hrows : m' ∈ (view o.accounts).rows account queue := hm
  cases name with
  | getAccounts => exact .old ((getAccounts_spec h hrun).1 ▸ hm)
  | getQueues => exact .old ((getQueues_spec h hrun).1 ▸ hm)
  | deleteAccounts => exact .old ((deleteAccounts_spec h hrun).1.mem hm)
  | deleteQueues => exact .old ((deleteQueues_spec h hrun).1.mem hm)
  | getMessages =>
      rcases mem_scanCommand h hrun hm with hold | ⟨htype, -⟩
      · exact .old hold
      · exact absurd htype (by simp)
  | deleteMessages =>
      rcases mem_scanCommand h hrun hm with hold | ⟨htype, -⟩
      · exact .old hold
      · exact absurd htype (by simp)
  -- of the scans only an update leaves a message that was not there before
  | updateMessages =>
      rcases mem_scanCommand h hrun hm with hold | ⟨-, hpair, m, hmem, hselected, heq⟩
      · exact .old hold
      · refine .scanned rfl hpair hmem ?_ hselected heq
        rw [heq, messageId_applyDeadlines]
  | createMessage =>
      obtain ⟨-, -, ⟨-, heq⟩ | ⟨-, hlinked⟩⟩ := createMessage_spec h hrun
      · exact .old (heq ▸ hm)
      · cases hlinked with
        | stored _ _ view_eq =>
            rw [view_eq] at hrows
            rcases mem_put hrows with hold | ⟨heq, ha, hq⟩
            · exact .old hold
            · exact .created rfl ⟨ha, hq, by rw [heq]; rfl⟩
        | kept _ _ _ rows_eq _ => exact .old (rows_eq ▸ hm)
        | hole _ _ _ rows_eq => exact .old (rows_eq ▸ hm)
  | getMessage => exact mem_oneMessage (oneMessage_of_execute h rfl hrun) hrows
  | deleteMessage => exact mem_oneMessage (oneMessage_of_execute h rfl hrun) hrows
  | updateMessage => exact mem_oneMessage (oneMessage_of_execute h rfl hrun) hrows

end Origin

end Burrow.Memory
