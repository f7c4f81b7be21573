import Burrow.Memory.BulkScan
import Burrow.Memory.Origin

/-!
# Claims are exclusive

A worker claims messages by hiding them: `update_messages` with a hide time
reports the messages that it could see, and hides them from the others. `Leased`
is what keeps a claim: every message under the id is hidden up to the deadline.
Each request that does not hide the message anew keeps the claim, whatever becomes
of its allocations.
-/

set_option autoImplicit false

namespace Burrow.Memory

open KeyedList

/-! ## Keeping a claim -/

/-- The request does not create the message of the triple, and does not hide it
anew while it is hidden. -/
def Request.KeepsClaim (r : Request) (account queue messageId : String) : Prop :=
  match r.name with
  | .createMessage =>
      ¬ (r.cmd.account = account ∧ r.cmd.queue = queue ∧ r.cmd.messageId = messageId)
  | .updateMessage =>
      r.cmd.account = account ∧ r.cmd.queue = queue ∧ r.cmd.messageId = messageId →
        r.cmd.hide? = none
  | .updateMessages =>
      r.cmd.account = account ∧ r.cmd.queue = queue → r.cmd.matchHidden = true →
        r.cmd.hide? = none
  | _ => True

/-- Every message under the id is hidden up to the deadline. -/
def Leased (account queue messageId : String) (hiddenUntil : UInt32) (s : AccountsSt) : Prop :=
  ∀ m ∈ queueMessages s account queue, m.messageId = messageId → hiddenUntil ≤ m.hide

/-- Without a hide time the stored one stays. -/
theorem hide_applyDeadlines_zero (ttl : UInt32) (m : BurrowMessage) :
    (applyDeadlines ttl 0 m).hide = m.hide := rfl

theorem hide_applyDeadlines {ttl hide : UInt32} (h : hide ≠ 0) (m : BurrowMessage) :
    (applyDeadlines ttl hide m).hide = hide := if_pos h

/-- A request that keeps the claim leaves the message hidden up to the deadline. -/
theorem step_leased {s s' : AccountsSt} (h : StoreOk True s) {r : Request}
    {account queue messageId : String} (hkeeps : r.KeepsClaim account queue messageId)
    {hiddenUntil : UInt32} (hclock : ∀ t, r.ReadsClock t → t < hiddenUntil)
    (hleased : Leased account queue messageId hiddenUntil s) (hstep : step r s = .ok s') :
    StoreOk True s' ∧ Leased account queue messageId hiddenUntil s' := by
  obtain ⟨o, hrun, rfl⟩ := step_ok hstep
  refine ⟨execute_storeOk h (fun _ => trivial) hrun, fun m' hm' hid => ?_⟩
  unfold Request.KeepsClaim at hkeeps
  cases mem_execute h hrun hm' with
  | old mem => exact hleased m' mem hid
  | created name triple =>
      rw [name] at hkeeps
      rw [hid] at triple
      exact absurd triple hkeeps
  | updated name triple mem id_eq _ eq =>
      rw [name] at hkeeps
      rw [hid] at triple id_eq
      rw [eq, updatedMessage, hkeeps triple, deadline, hide_applyDeadlines_zero]
      exact hleased _ mem id_eq
  | scanned name pair mem id_eq selected eq =>
      rw [name] at hkeeps
      have hold := hleased _ mem (id_eq.trans hid)
      -- what is selected is visible, which the claimed message is not, or `match_hidden` is set
      have hreads : r.ReadsClock r.inputs.scan.time := by
        unfold Request.ReadsClock
        rw [name]
      have hhidden := UInt32.lt_of_lt_of_le (hclock _ hreads) hold
      rw [eq, hkeeps pair (selected.2 hhidden), deadline, hide_applyDeadlines_zero]
      exact hold

/-- A run of such requests does too. -/
theorem run_leased {s s' : AccountsSt} (h : StoreOk True s) {ls : List Request}
    {account queue messageId : String} {hiddenUntil : UInt32}
    (hls : ∀ r ∈ ls, r.KeepsClaim account queue messageId ∧ ∀ t, r.ReadsClock t → t < hiddenUntil)
    (hleased : Leased account queue messageId hiddenUntil s)
    (hrun : Machine.run step ls s = .ok s') :
    StoreOk True s' ∧ Leased account queue messageId hiddenUntil s' :=
  Machine.run_invariant step
    (fun _ _ _ hC hI hstep => step_leased hI.1 hC.1 hC.2 hI.2 hstep)
    (Machine.along_of_forall step (fun r hr _ => hls r hr) s) ⟨h, hleased⟩ hrun

/-! ## Claiming -/

section Claim

variable {s : AccountsSt} {o : Outcome} {inputs : ScanInputs} {cmd : BackendCommand}

/-- **A claim hides what it reports.** -/
theorem leased_of_reported (h : StoreOk True s)
    (hrun : scanCommand .update inputs cmd s = .ok o) {hide : UInt32}
    (hhide : cmd.hide? = some hide)
    (hne : inputs.time + hide ≠ 0) {messageId : String}
    (hreported : some messageId ∈ o.callbacks.map Callback.messageId?) :
    Leased cmd.account cmd.queue messageId (inputs.time + hide) o.accounts := by
  obtain ⟨hview, m, hm, rfl, hselected⟩ := exists_selected_of_reported h hrun hreported
  have hlookup := lookup_scan_of_mem (nodup_queueMessages h cmd.account cmd.queue)
    (scanLocals cmd .update .report inputs.time) hm
  rw [← hview, scanEffect_of_selected hselected] at hlookup
  intro m' hm' hid
  have hself := find?_hasKey_of_mem _
    (nodup_queueMessages (scanCommand_spec h hrun).1 cmd.account cmd.queue) hm'
  rw [hid] at hself
  have heq : m' = applyDeadlines (deadline inputs.time cmd.ttl?)
    (deadline inputs.time cmd.hide?) m :=
    Option.some.inj (hself.symm.trans hlookup)
  rw [hhide, deadline, UInt32.add_comm hide] at heq
  rw [heq, hide_applyDeadlines hne]
  exact UInt32.le_refl _

/-- A bulk command that may not see hidden messages passes over a claimed one. -/
theorem not_reported_of_leased (h : StoreOk True s) {scanType : ScanAction}
    (hrun : scanCommand scanType inputs cmd s = .ok o) (hmatch : cmd.matchHidden = false)
    {messageId : String} {hiddenUntil : UInt32} (hlt : inputs.time < hiddenUntil)
    (hleased : Leased cmd.account cmd.queue messageId hiddenUntil s) :
    some messageId ∉ o.callbacks.map Callback.messageId? ∧
      ∀ m ∈ queueMessages s cmd.account cmd.queue, m.messageId = messageId →
        ¬ m.Expired inputs.time → m ∈ queueMessages o.accounts cmd.account cmd.queue := by
  have hnot : ∀ m ∈ queueMessages s cmd.account cmd.queue, m.messageId = messageId →
      ¬ m.Selected inputs.time cmd.matchHidden := by
    intro m hm hid hselected
    -- hidden until after the clock of this scan, and the scan does not match hidden
    -- messages
    have hhidden : m.Hidden inputs.time := UInt32.lt_of_lt_of_le hlt (hleased m hm hid)
    exact absurd (hselected.2 hhidden) (by simp [hmatch])
  constructor
  · intro hreported
    obtain ⟨-, m, hm, hid, hselected⟩ := exists_selected_of_reported h hrun hreported
    exact hnot m (mem_of_mem_window _ hm) hid hselected
  · intro m hm hid hexpired
    show m ∈ (view o.accounts).rows cmd.account cmd.queue
    obtain ⟨-, -, ⟨hview, -⟩ | ⟨-, hview, -⟩⟩ := scanCommand_spec h hrun
    · rw [hview, Broker.scan, Directory.rows_modifyRows_self _ _ _ (mapWindow_nil _ _ _ _)]
      exact mem_mapWindow_of_fixed _ hm (scanEffect_of_not_selected hexpired (hnot m hm hid))
    · rw [hview]
      exact hm

end Claim

/-- **Claims are exclusive.** What a worker claimed by hiding it for `hide` seconds
is not given to another worker in that time, unless the message is created or
hidden anew in between. The claim itself may ask for hidden messages or not. -/
theorem claim_exclusive {s s₂ : AccountsSt} (hs : Reachable s) {claim last : Request}
    {o₁ o₂ : Outcome} (hname : claim.name = .updateMessages) {hide : UInt32}
    (hhide : claim.cmd.hide? = some hide)
    (hfit : claim.inputs.scan.time.toNat + hide.toNat < 2 ^ 32)
    (hclaim : execute claim.inputs claim.name claim.cmd s = .ok o₁) {messageId : String}
    (hreported : some messageId ∈ o₁.callbacks.map Callback.messageId?) {ls : List Request}
    (hls : ∀ r ∈ ls, r.KeepsClaim claim.cmd.account claim.cmd.queue messageId)
    (hrun : Machine.run step ls o₁.accounts = .ok s₂) {scanType : ScanAction}
    (hlastName : last.name = bulkName scanType) (haccount : last.cmd.account = claim.cmd.account)
    (hqueue : last.cmd.queue = claim.cmd.queue) (hlastMatch : last.cmd.matchHidden = false)
    (hclock : Chronological claim.inputs.scan.time ls last.inputs.scan.time)
    (hlease : last.inputs.scan.time.toNat < claim.inputs.scan.time.toNat + hide.toNat)
    (hlast : execute last.inputs last.name last.cmd s₂ = .ok o₂) :
    some messageId ∉ o₂.callbacks.map Callback.messageId? ∧
      ∀ m ∈ queueMessages s₂ last.cmd.account last.cmd.queue, m.messageId = messageId →
        ¬ m.Expired last.inputs.scan.time →
          m ∈ queueMessages o₂.accounts last.cmd.account last.cmd.queue := by
  rw [hname] at hclaim
  rw [hlastName, execute_bulkName] at hlast
  have htoNat : (claim.inputs.scan.time + hide).toNat =
      claim.inputs.scan.time.toNat + hide.toNat := by
    rw [UInt32.toNat_add, Nat.mod_eq_of_lt hfit]
  have hne : claim.inputs.scan.time + hide ≠ 0 := by
    intro hzero
    rw [hzero, UInt32.toNat_zero] at htoNat
    omega
  have hlt : last.inputs.scan.time < claim.inputs.scan.time + hide := by
    rw [UInt32.lt_iff_toNat_lt, htoNat]
    exact hlease
  have hleased := leased_of_reported hs.storeOk hclaim hhide hne hreported
  obtain ⟨hok, hleased₂⟩ := run_leased (scanCommand_spec hs.storeOk hclaim).1
    (fun r hr => ⟨hls r hr, fun t ht => UInt32.lt_of_le_of_lt (hclock.reads_le hr ht) hlt⟩)
    hleased hrun
  rw [← haccount, ← hqueue] at hleased₂
  exact not_reported_of_leased hok hlast hlastMatch hlt hleased₂

/-- A second worker asks after another message was put into the queue. -/
theorem claim_exclusive_two_workers :
    ∃ o₂, execute (ampleInputs 30) .updateMessages (claimCommand "a" "q" 0 60)
        (Dictionary.ofNodes
          [{ key := "a"
             data := some (Dictionary.ofNodes
               [{ key := "q"
                  data := some (ofMessages
                    [{ messageId := "m", body := [1], bodySize := 1, ttl := 310, hide := 80 },
                      createdMessage 25 (plainCommand "a" "q" "n" [])]) }]) }]) = .ok o₂ ∧
      some "m" ∉ o₂.callbacks.map Callback.messageId? := by
  let claim : Request :=
    { inputs := ampleInputs 20, name := .updateMessages, cmd := claimCommand "a" "q" 0 60 }
  let last : Request :=
    { inputs := ampleInputs 30, name := .updateMessages, cmd := claimCommand "a" "q" 0 60 }
  have hs : Reachable (singleStore "a" "q" (createdMessage 10 (plainCommand "a" "q" "m" [1]))) :=
    (reachableWithMemory_of_create 10 (plainCommand "a" "q" "m" [1]) rfl).reachable
  have hls : ∀ r ∈ [createRequest 25 (plainCommand "a" "q" "n" [])], r.KeepsClaim "a" "q" "m" := by
    intro r hr
    rw [List.mem_singleton] at hr
    subst hr
    exact fun h => absurd h.2.2 (by decide)
  have hclock : Chronological 20 [createRequest 25 (plainCommand "a" "q" "n" [])] 30 := by
    refine ⟨25, by decide, fun t ht => ?_, show (25 : UInt32) ≤ 30 by decide⟩
    cases ht
    exact ⟨by decide, by decide⟩
  exact ⟨_, rfl, (@claim_exclusive _ _ hs claim last _ _ rfl 60 rfl (by decide) rfl "m"
    (by decide) _ hls rfl .update rfl rfl rfl rfl hclock (by decide) rfl).1⟩

end Burrow.Memory
