import Burrow.Memory.BulkScan
import Burrow.Memory.Origin

/-!
# Expired messages stay dead

An expired message stays in its queue until a command comes across it. Every
command checks the ttl before it reports or changes a message, so that the message
is dropped then. `Dead` is what a run keeps until the message is created anew:
whatever is under the id is the expired message, as it was.
-/

set_option autoImplicit false

namespace Burrow.Memory

open KeyedList

/-! ## Reports -/

section Reported

variable {holes : Prop} {s : AccountsSt} {o : Outcome} {messageId : String}

/-- Callbacks about queues and accounts report no message. -/
theorem not_reported_of_forall (h : ∀ c ∈ o.callbacks, c.messageId? = none) :
    some messageId ∉ o.callbacks.map Callback.messageId? := by
  intro hmem
  obtain ⟨c, hc, hid⟩ := List.mem_map.1 hmem
  rw [h c hc] at hid
  exact absurd hid (by simp)

theorem not_reported_of_nil (h : o.callbacks = []) :
    some messageId ∉ o.callbacks.map Callback.messageId? := by
  rw [h]
  exact List.not_mem_nil

/-- A command on one message reports that message, if any. -/
theorem exists_of_report {cmd : BackendCommand} {m m' : BurrowMessage} {now : UInt32}
    (hfind : (view s).find cmd = some m) (hid : m'.messageId = m.messageId)
    (hreports : o.callbacks.map Callback.report = [m'.report now])
    (hreported : some messageId ∈ o.callbacks.map Callback.messageId?) :
    m ∈ queueMessages s cmd.account cmd.queue ∧ m.messageId = messageId := by
  obtain ⟨c, rest, hcallbacks, hc, hrest⟩ := List.map_eq_cons_iff.1 hreports
  rw [List.map_eq_nil_iff.1 hrest] at hcallbacks
  rw [hcallbacks, List.map_singleton, List.mem_singleton, messageId?_of_report hc, hid,
    Option.some.injEq] at hreported
  exact ⟨(find?_hasKey_some _ hfind).1, hreported.symm⟩

/-- A scan reports what has not expired. -/
theorem live_of_scan (h : StoreOk holes s) {scanType : ScanAction} {inputs : ScanInputs}
    {cmd : BackendCommand} (hrun : scanCommand scanType inputs cmd s = .ok o)
    (hreported : some messageId ∈ o.callbacks.map Callback.messageId?) :
    ∃ m ∈ queueMessages s cmd.account cmd.queue, m.messageId = messageId ∧
      ¬ m.Expired inputs.time := by
  obtain ⟨-, m, hm, hid, hselected⟩ := exists_selected_of_reported h hrun hreported
  exact ⟨m, mem_of_mem_window _ hm, hid, hselected.1⟩

/-- A command on one message reports what has not expired. -/
theorem live_of_oneMessage {now : UInt32} {cmd : BackendCommand} {name : CommandName}
    (hone : OneMessage (view s) now cmd name o.answer)
    (hreported : some messageId ∈ o.callbacks.map Callback.messageId?) :
    ∃ m ∈ queueMessages s cmd.account cmd.queue, m.messageId = messageId ∧ ¬ m.Expired now := by
  rcases hone.reports with hnil | ⟨m, m', hfind, hlive, hid, hreports⟩
  · exact absurd hreported (not_reported_of_nil (List.map_eq_nil_iff.1 hnil))
  · obtain ⟨hm, hmessageId⟩ := exists_of_report hfind hid hreports hreported
    exact ⟨m, hm, hmessageId, hlive⟩

/-- **What is reported is stored and has not expired.** -/
theorem reported_live (h : StoreOk holes s) {r : Request}
    (hrun : execute r.inputs r.name r.cmd s = .ok o)
    (hreported : some messageId ∈ o.callbacks.map Callback.messageId?) :
    ∃ m ∈ queueMessages s r.cmd.account r.cmd.queue, m.messageId = messageId ∧
      (∃ t, r.ReadsClock t) ∧ ∀ t, r.ReadsClock t → ¬ m.Expired t := by
  obtain ⟨inputs, name, cmd⟩ := r
  have hclock : ∀ now, (∀ t, Request.ReadsClock ⟨inputs, name, cmd⟩ t ↔ t = now) →
      (∃ m ∈ queueMessages s cmd.account cmd.queue, m.messageId = messageId ∧ ¬ m.Expired now) →
      ∃ m ∈ queueMessages s cmd.account cmd.queue, m.messageId = messageId ∧
        (∃ t, Request.ReadsClock ⟨inputs, name, cmd⟩ t) ∧
        ∀ t, Request.ReadsClock ⟨inputs, name, cmd⟩ t → ¬ m.Expired t := by
    rintro now hreads ⟨m, hm, hid, hlive⟩
    exact ⟨m, hm, hid, ⟨now, (hreads now).2 rfl⟩, fun t ht => (hreads t).1 ht ▸ hlive⟩
  cases name with
  | getAccounts =>
      exact absurd hreported (not_reported_of_forall (listCommand_callbacks (fun _ => rfl) hrun))
  | getQueues =>
      exact absurd hreported (not_reported_of_forall (getQueues_callbacks h (fun _ => rfl) hrun))
  | deleteAccounts =>
      exact absurd hreported (not_reported_of_nil (deleteAccounts_spec h hrun).1.2.1)
  | deleteQueues => exact absurd hreported (not_reported_of_nil (deleteQueues_spec h hrun).1.2.1)
  | createMessage => exact absurd hreported (not_reported_of_nil (createMessage_spec h hrun).1)
  | getMessages | updateMessages | deleteMessages =>
      exact hclock _ (fun _ => Iff.rfl) (live_of_scan h hrun hreported)
  | getMessage | updateMessage | deleteMessage =>
      exact hclock _ (fun _ => Iff.rfl)
        (live_of_oneMessage (oneMessage_of_execute h rfl hrun) hreported)

end Reported

/-! ## Runs -/

/-- The request creates the message of the triple. -/
def Request.Creates (r : Request) (account queue messageId : String) : Prop :=
  r.name = .createMessage ∧ r.cmd.account = account ∧ r.cmd.queue = queue ∧
    r.cmd.messageId = messageId

/-- Nothing but `m` is in the queue under the id of `m`. -/
def Dead (account queue : String) (m : BurrowMessage) (s : AccountsSt) : Prop :=
  ∀ m' ∈ queueMessages s account queue, m'.messageId = m.messageId → m' = m

theorem dead_of_mem {holes : Prop} {s : AccountsSt} (h : StoreOk holes s) {account queue : String}
    {m : BurrowMessage} (hm : m ∈ queueMessages s account queue) : Dead account queue m s := by
  intro m' hm' hid
  have hnodup := nodup_queueMessages h account queue
  have hfind := find?_hasKey_of_mem BurrowMessage.messageId hnodup hm
  have hfind' := find?_hasKey_of_mem BurrowMessage.messageId hnodup hm'
  rw [hid, hfind] at hfind'
  exact (Option.some.inj hfind').symm

theorem expired_of_le {m : BurrowMessage} {now t : UInt32} (h : m.Expired now) (hle : now ≤ t) :
    m.Expired t :=
  UInt32.le_trans h hle

/-- A request leaves an expired message as it is, or drops it. -/
theorem step_dead {s s' : AccountsSt} (h : StoreOk True s) {r : Request} {account queue : String}
    {m : BurrowMessage} (hcreates : ¬ r.Creates account queue m.messageId)
    (hclock : ∀ t, r.ReadsClock t → m.Expired t) (hdead : Dead account queue m s)
    (hstep : step r s = .ok s') : StoreOk True s' ∧ Dead account queue m s' := by
  obtain ⟨o, hrun, rfl⟩ := step_ok hstep
  refine ⟨execute_storeOk h (fun _ => trivial) hrun, ?_⟩
  intro m' hm' hid
  cases mem_execute h hrun hm' with
  | old mem => exact hdead m' mem hid
  | created name triple =>
      rw [hid] at triple
      exact absurd ⟨name, triple⟩ hcreates
  | @updated m₀ name triple mem id_eq live eq =>
      have hm₀ : m₀ = m := hdead m₀ mem (id_eq.trans hid)
      have hreads : r.ReadsClock r.inputs.message.time := by
        unfold Request.ReadsClock
        rw [name]
      exact absurd (hclock _ hreads) (hm₀ ▸ live)
  | @scanned m₀ name pair mem id_eq selected eq =>
      have hm₀ : m₀ = m := hdead m₀ mem (id_eq.trans hid)
      have hreads : r.ReadsClock r.inputs.scan.time := by
        unfold Request.ReadsClock
        rw [name]
      exact absurd (hclock _ hreads) (hm₀ ▸ selected.1)

/-- No request of a run uses the clock before its start. -/
theorem Chronological.reads_ge {ls : List Request} {lo hi : UInt32} (h : Chronological lo ls hi)
    {r : Request} (hr : r ∈ ls) {t : UInt32} (ht : r.ReadsClock t) : lo ≤ t := by
  induction ls generalizing lo with
  | nil => exact absurd hr List.not_mem_nil
  | cons r' rest ih =>
      obtain ⟨mid, hle, hreads, hrest⟩ := h
      rcases List.mem_cons.1 hr with rfl | hr
      · exact (hreads t ht).1
      · exact UInt32.le_trans hle (ih hrest hr)

/-- A run of such requests does too. -/
theorem run_dead {s s' : AccountsSt} (h : StoreOk True s) {ls : List Request}
    {account queue : String} {m : BurrowMessage}
    (hls : ∀ r ∈ ls, ¬ r.Creates account queue m.messageId ∧ ∀ t, r.ReadsClock t → m.Expired t)
    (hdead : Dead account queue m s) (hrun : Machine.run step ls s = .ok s') :
    StoreOk True s' ∧ Dead account queue m s' :=
  Machine.run_invariant step
    (fun _ _ _ hC hI hstep => step_dead hI.1 hC.1 hC.2 hI.2 hstep)
    (Machine.along_of_forall step (fun r hr _ => hls r hr) s) ⟨h, hdead⟩ hrun

/-- **No resurrection.** No command reports a message that has expired by its clock.
And a message that has expired at `now` is neither reported nor changed by any
later command of a run, until a `create_message` of its triple. -/
theorem no_resurrection {s : AccountsSt} (hs : Reachable s) :
    (∀ (r : Request) (o : Outcome) (messageId : String),
      execute r.inputs r.name r.cmd s = .ok o →
      some messageId ∈ o.callbacks.map Callback.messageId? →
      ∃ m ∈ queueMessages s r.cmd.account r.cmd.queue, m.messageId = messageId ∧
        ∀ t, r.ReadsClock t → ¬ m.Expired t) ∧
    ∀ (account queue : String) (m : BurrowMessage) (now hi : UInt32) (ls : List Request),
      m ∈ queueMessages s account queue → m.Expired now → Chronological now ls hi →
      (∀ r ∈ ls, ¬ r.Creates account queue m.messageId) →
      ∀ (pre post : List Request) (r : Request) (s₁ : AccountsSt) (o : Outcome),
        ls = pre ++ r :: post → Machine.run step pre s = .ok s₁ →
        execute r.inputs r.name r.cmd s₁ = .ok o →
        (r.cmd.account = account → r.cmd.queue = queue →
          some m.messageId ∉ o.callbacks.map Callback.messageId?) ∧
        ∀ m' ∈ queueMessages o.accounts account queue, m'.messageId = m.messageId → m' = m := by
  constructor
  · intro r o messageId hrun hreported
    obtain ⟨m, hm, hid, -, hlive⟩ := reported_live hs.storeOk hrun hreported
    exact ⟨m, hm, hid, hlive⟩
  intro account queue m now hi ls hm hexpired hclock hls pre post r s₁ o hsplit hpre hrun
  -- none of the requests creates it anew, and each of them reads a clock at which it
  -- has expired
  have hspares : ∀ r ∈ ls, ¬ r.Creates account queue m.messageId ∧
      ∀ t, r.ReadsClock t → m.Expired t := by
    intro r hr
    exact ⟨hls r hr, fun t ht => expired_of_le hexpired (hclock.reads_ge hr ht)⟩
  have hr : r ∈ ls := by
    rw [hsplit]
    exact List.mem_append_right _ List.mem_cons_self
  obtain ⟨hok, hdead⟩ := run_dead hs.storeOk
    (fun r hr => hspares r (hsplit ▸ List.mem_append_left _ hr)) (dead_of_mem hs.storeOk hm) hpre
  obtain ⟨hcreates, hreads⟩ := hspares r hr
  constructor
  · intro haccount hqueue hreported
    obtain ⟨m', hm', hid, ⟨t, ht⟩, hlive⟩ := reported_live hok hrun hreported
    rw [haccount, hqueue] at hm'
    have heq : m' = m := hdead m' hm' hid
    exact hlive t ht (heq ▸ hreads t ht)
  · have hstep : step r s₁ = .ok o.accounts := by
      rw [step, hrun]
    exact (step_dead hok hcreates hreads hdead hstep).2

/-- An expired message that an `update_messages` finds with a new ttl at hand. -/
theorem no_resurrection_update :
    some "m" ∉ ((execute (ampleInputs 400) .updateMessages (claimCommand "a" "q" 0 60)
        (singleStore "a" "q" (createdMessage 10 (plainCommand "a" "q" "m" [])))).toOption.map
          fun o => o.callbacks.map Callback.messageId?).getD [] := by
  have hs : ReachableWithMemory
      (singleStore "a" "q" (createdMessage 10 (plainCommand "a" "q" "m" []))) :=
    reachableWithMemory_of_create 10 (plainCommand "a" "q" "m" []) rfl
  let update : Request :=
    { inputs := ampleInputs 400, name := .updateMessages, cmd := claimCommand "a" "q" 0 60 }
  have hclock : Chronological 310 [update] 400 :=
    ⟨400, by decide, fun t ht => by
      rw [show t = 400 from ht]
      exact ⟨by decide, by decide⟩, UInt32.le_refl 400⟩
  have hdead := (no_resurrection hs.reachable).2 "a" "q"
    (createdMessage 10 (plainCommand "a" "q" "m" [])) 310 400 [update] List.mem_cons_self
    (by decide) hclock (fun r hr hcreates => by
      rw [List.mem_singleton.1 hr] at hcreates
      exact absurd hcreates.1 (by decide)) [] [] update _ _ rfl rfl rfl
  exact hdead.1 rfl rfl

end Burrow.Memory
