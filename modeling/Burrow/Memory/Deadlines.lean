import Burrow.Memory.BulkScan
import Burrow.Memory.Delivery

/-!
# Deadlines

A deadline is the sum of the clock and a duration, in 32 bits. A message lasts, or stays
hidden, for the duration that a command applied to it exactly if the sum of the numbers is
below `2^32` (`deadlines_kept`). Otherwise the deadline has passed when it is set or, where
the sum comes to `0`, an update takes it for one that is not given.
-/

set_option autoImplicit false

namespace Burrow.Memory

open KeyedList

/-! ## Durations -/

/-- Something holds at every reading of the clock before the duration is over. -/
def LastsFor (now duration : UInt32) (holds : UInt32 → Prop) : Prop :=
  ∀ x, now ≤ x → x.toNat < now.toNat + duration.toNat → holds x

/-- A deadline that cannot be written in 32 bits passes before the last reading. -/
theorem sum_lt_of_lastsFor {now duration deadline : UInt32}
    (h : LastsFor now duration (· < deadline)) : now.toNat + duration.toNat < 2 ^ 32 := by
  by_contra hwrap
  have hlast : (UInt32.ofNat (2 ^ 32 - 1)).toNat = 2 ^ 32 - 1 := rfl
  have hnow := now.toNat_lt
  have hle : now ≤ UInt32.ofNat (2 ^ 32 - 1) := by
    rw [UInt32.le_iff_toNat_le, hlast]
    omega
  have hlt := UInt32.lt_iff_toNat_lt.1 (h (UInt32.ofNat (2 ^ 32 - 1)) hle (by rw [hlast]; omega))
  have hdeadline := deadline.toNat_lt
  rw [hlast] at hlt
  omega

/-- The deadline is the sum, unless the sum is `0`. -/
def IsDeadline (now duration deadline : UInt32) : Prop :=
  now + duration ≠ 0 → deadline = now + duration

theorem IsDeadline.toNat_eq {now duration deadline : UInt32} (h : IsDeadline now duration deadline)
    (hpos : 1 ≤ duration) (hfit : now.toNat + duration.toNat < 2 ^ 32) :
    deadline.toNat = now.toNat + duration.toNat := by
  have hsum := toNat_add_of_lt hfit
  have hpos' := UInt32.le_iff_toNat_le.1 hpos
  rw [UInt32.toNat_one] at hpos'
  rw [h fun hzero => ?_, hsum]
  rw [hzero, UInt32.toNat_zero] at hsum
  omega

/-- **A duration is kept** exactly if its deadline can be written in 32 bits. -/
theorem lastsFor_iff {now duration deadline : UInt32} (h : IsDeadline now duration deadline)
    (hpos : 1 ≤ duration) :
    LastsFor now duration (· < deadline) ↔ now.toNat + duration.toNat < 2 ^ 32 := by
  constructor
  · exact sum_lt_of_lastsFor
  · intro hfit x _ hlt
    rw [UInt32.lt_iff_toNat_lt, h.toNat_eq hpos hfit]
    exact hlt

/-! ## Commands that apply a duration -/

/-- The request applies its attributes, at this time, to the message with the id. -/
def Request.AppliesTo (r : Request) (b : Broker) (now : UInt32) (messageId : String) : Prop :=
  match r.name with
  | .createMessage => now = r.inputs.create.time ∧ messageId = r.cmd.messageId
  | .updateMessage =>
      now = r.inputs.message.time ∧ messageId = r.cmd.messageId ∧
        ∃ m, b.find r.cmd = some m ∧ ¬ m.Expired now
  | .updateMessages =>
      now = r.inputs.scan.time ∧
        ∃ m ∈ b.messageWindow r.cmd, m.Selected now r.cmd.matchHidden ∧ m.messageId = messageId
  | _ => False

/-- The message has the deadlines of the command's attributes. -/
structure Stamped (now : UInt32) (cmd : BackendCommand) (m : BurrowMessage) : Prop where
  ttl : ∀ ttl, cmd.ttl? = some ttl → 1 ≤ ttl → IsDeadline now ttl m.ttl
  hide : ∀ hide, cmd.hide? = some hide → 1 ≤ hide → IsDeadline now hide m.hide

theorem stamped_created (now : UInt32) (cmd : BackendCommand) :
    Stamped now cmd (createdMessage now cmd) := by
  constructor
  · intro ttl httl _ _
    rw [createdMessage, httl]
    rfl
  · intro hide hhide hpos _
    have hne : hide ≠ 0 := by
      rintro rfl
      exact absurd hpos (by decide)
    rw [createdMessage, hhide]
    exact if_pos hne

/-- A deadline other than `0` is written. -/
theorem isDeadline_of_ne_zero (now duration old : UInt32) :
    IsDeadline now duration
      (if deadline now (some duration) ≠ 0 then deadline now (some duration) else old) := by
  intro hne
  rw [deadline, UInt32.add_comm, if_pos hne]

theorem stamped_scanned (now : UInt32) (cmd : BackendCommand) (m : BurrowMessage) :
    Stamped now cmd (applyDeadlines (deadline now cmd.ttl?) (deadline now cmd.hide?) m) := by
  constructor
  · intro ttl httl _
    rw [httl]
    exact isDeadline_of_ne_zero now ttl m.ttl
  · intro hide hhide _
    rw [hhide]
    exact isDeadline_of_ne_zero now hide m.hide

theorem stamped_updated (now : UInt32) (cmd : BackendCommand) (m : BurrowMessage) :
    Stamped now cmd (updatedMessage now cmd m) := by
  constructor
  · intro ttl httl hpos
    have hfilter : Option.filter (fun ttl : UInt32 => decide (0 < ttl)) (some ttl) = some ttl := by
      rw [Option.filter_some, decide_eq_true (UInt32.lt_of_lt_of_le (by decide) hpos), if_pos rfl]
    rw [updatedMessage, httl, hfilter]
    exact isDeadline_of_ne_zero now ttl m.ttl
  · intro hide hhide _
    rw [updatedMessage, hhide]
    exact isDeadline_of_ne_zero now hide m.hide

/-- The message that a command applied its attributes to is stored with the deadlines. -/
theorem exists_stamped {holes : Prop} {s : AccountsSt} (h : StoreOk holes s) {r : Request}
    (hmem : r.inputs.AllocationsSucceed) {o : Outcome}
    (hrun : execute r.inputs r.name r.cmd s = .ok o) {now : UInt32} {messageId : String}
    (happlies : r.AppliesTo (view s) now messageId) :
    ∃ m, (view o.accounts).lookup r.cmd.account r.cmd.queue messageId = some m ∧
      Stamped now r.cmd m := by
  obtain ⟨hok, hanswer⟩ := execute_refines h hmem hrun
  have hview : view o.accounts = _ := congrArg Answer.broker hanswer
  obtain ⟨inputs, name, cmd⟩ := r
  dsimp only at hview ⊢
  rw [hview]
  cases name with
  | createMessage =>
      obtain ⟨rfl, rfl⟩ := happlies
      refine ⟨_, ?_, stamped_created inputs.create.time cmd⟩
      show (Broker.put _ _ _ _).lookup _ _ _ = _
      rw [Broker.lookup, Broker.put, Directory.rows_putRows_self]
      exact find?_putMessage_self (createdMessage inputs.create.time cmd) _
  | updateMessage =>
      obtain ⟨rfl, rfl, m, hfind, he⟩ := happlies
      refine ⟨_, ?_, stamped_updated inputs.message.time cmd m⟩
      have hfind' : Broker.find (view s) cmd = some m := hfind
      show (Broker.updateMessage _ _ _).broker.lookup _ _ _ = _
      rw [Broker.updateMessage, hfind']
      dsimp only
      rw [if_neg he, Broker.lookup, Broker.rewrite, Directory.rows_modifyRows_self _ _ _ rfl]
      have hid : (updatedMessage inputs.message.time cmd m).messageId = cmd.messageId :=
        (messageId_applyDeadlines _ _ m).trans (messageId_of_find hfind')
      rw [hid, find?_modify_self _ fun _ _ => hid]
      rw [Broker.find, Broker.lookup] at hfind'
      rw [hfind']
      rfl
  | updateMessages =>
      obtain ⟨rfl, m, hm, hselected, rfl⟩ := happlies
      refine ⟨_, ?_, stamped_scanned inputs.scan.time cmd m⟩
      show ((view s).scan cmd (scanLocals cmd .update .report inputs.scan.time)).lookup _ _ _ = _
      rw [lookup_scan_of_mem (nodup_queueMessages h cmd.account cmd.queue) _ hm,
        scanEffect_of_selected hselected]
      rfl
  | _ => exact happlies.elim

/-- **Deadlines do not wrap**, exactly if their sums are below `2^32`; the deadline is the
sum then. -/
theorem deadlines_kept {s : AccountsSt} (hs : Reachable s) {r : Request}
    (hmem : r.inputs.AllocationsSucceed) {o : Outcome}
    (hrun : execute r.inputs r.name r.cmd s = .ok o) {now : UInt32} {messageId : String}
    (happlies : r.AppliesTo (view s) now messageId) :
    ∃ m, (view o.accounts).lookup r.cmd.account r.cmd.queue messageId = some m ∧
      (∀ ttl, r.cmd.ttl? = some ttl → 1 ≤ ttl →
        (LastsFor now ttl (fun x => ¬ m.Expired x) ↔ now.toNat + ttl.toNat < 2 ^ 32) ∧
          (now.toNat + ttl.toNat < 2 ^ 32 → m.ttl.toNat = now.toNat + ttl.toNat)) ∧
      (∀ hide, r.cmd.hide? = some hide → 1 ≤ hide →
        (LastsFor now hide m.Hidden ↔ now.toNat + hide.toNat < 2 ^ 32) ∧
          (now.toNat + hide.toNat < 2 ^ 32 → m.hide.toNat = now.toNat + hide.toNat)) := by
  obtain ⟨m, hlookup, hstamped⟩ := exists_stamped hs.storeOk hmem hrun happlies
  refine ⟨m, hlookup, fun ttl httl hpos => ?_, fun hide hhide hpos => ?_⟩
  -- unexpired is the same comparison as hidden, with the other deadline
  · have hexpired : (fun x => ¬ m.Expired x) = (· < m.ttl) :=
      funext fun x => propext UInt32.not_le
    rw [hexpired]
    exact ⟨lastsFor_iff (hstamped.ttl ttl httl hpos) hpos,
      (hstamped.ttl ttl httl hpos).toNat_eq hpos⟩
  · exact ⟨lastsFor_iff (hstamped.hide hide hhide hpos) hpos,
      (hstamped.hide hide hhide hpos).toNat_eq hpos⟩

/-- A message that is created hidden for 100 seconds. -/
theorem deadlines_kept_hiding :
    ∃ o m, execute (ampleInputs 10) .createMessage (hidingCommand "a" "q" "m" 100)
        burrowBackendMemoryCreate = .ok o ∧
      (view o.accounts).lookup "a" "q" "m" = some m ∧ LastsFor 10 100 m.Hidden := by
  obtain ⟨m, hlookup, -, hhide⟩ := deadlines_kept (s := burrowBackendMemoryCreate) ⟨[], rfl⟩
    (r := createRequest 10 (hidingCommand "a" "q" "m" 100)) (ampleInputs_allocationsSucceed 10)
    rfl ⟨rfl, rfl⟩
  exact ⟨_, m, rfl, hlookup, ((hhide 100 rfl (by decide)).1).2 (by decide)⟩

/-- A command with a ttl. -/
def ttlCommand (account queue messageId : String) (ttl : UInt32) : BackendCommand :=
  { plainCommand account queue messageId [] with
    attributes := some (.live { set := burrowAttributesTtl, ttl := ttl, hide := 0 }) }

/-- A message that is created with the largest ttl has expired; and an update whose deadline
comes to `0` leaves the message as it is. -/
theorem long_ttl_lost :
    (∃ o m, execute (ampleInputs 10) .createMessage (ttlCommand "a" "q" "m" 4294967295)
        burrowBackendMemoryCreate = .ok o ∧
      (view o.accounts).lookup "a" "q" "m" = some m ∧ m.Expired 10 ∧
      ¬ LastsFor 10 4294967295 fun x => ¬ m.Expired x) ∧
    ∃ o, execute (ampleInputs 20) .updateMessage (ttlCommand "a" "q" "m" 4294967276)
        (singleStore "a" "q" (createdMessage 10 (plainCommand "a" "q" "m" []))) = .ok o ∧
      o.accounts = singleStore "a" "q" (createdMessage 10 (plainCommand "a" "q" "m" [])) := by
  refine ⟨⟨_, _, rfl, rfl, by decide, ?_⟩, _, rfl, by decide⟩
  intro hlasts
  exact hlasts 10 (UInt32.le_refl _) (by decide) (by decide)

end Burrow.Memory
