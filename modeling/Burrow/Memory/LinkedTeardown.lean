import Mathlib.Data.Multiset.OrderedMonoid
import Burrow.Memory.Deletion
import Burrow.Memory.LinkedStore

/-!
# The destroy function in memory

The destroy function deletes all accounts and frees its own blocks and the dictionary of the
accounts (`free_does`). The accounts that are not deleted stay, with no pointer to them: so
every block is free in the end exactly when none of the messages is hidden and unexpired as
its queue is swept, and none was overwritten in the run (`free_leaves_nothing_iff`).
-/

set_option autoImplicit false

namespace Burrow.Memory.Chained

open Ownership KeyedList

/-- The accounts without the dictionary that has them. -/
def leftBehind (x : PlacedAccounts) : Multiset Block :=
  ((addresses x.cells).map Block.node ++ (keyAddresses x.cells).map Block.text : List Block) +
    children x.nodes

theorem footprint_eq_leftBehind (x : PlacedAccounts) :
    footprint x = {.dictionary x.address} + leftBehind x := by
  change Block.dictionary x.address ::ₘ _ + _ = _
  rw [leftBehind, Multiset.singleton_add, Multiset.cons_add]

theorem leftBehind_eq_zero_iff (x : PlacedAccounts) :
    leftBehind x = 0 ↔ erase x = Memory.burrowBackendMemoryCreate := by
  have hnodes : leftBehind x = 0 ↔ x.nodes = [] := by
    rw [leftBehind]
    constructor
    · intro h
      have hspine := (add_eq_zero.1 h).1
      rw [Multiset.coe_eq_zero, List.append_eq_nil_iff, List.map_eq_nil_iff] at hspine
      exact List.map_eq_nil_iff.1 (List.map_eq_nil_iff.1 hspine.1)
    · intro h
      rw [Placed.cells, h]
      rfl
  rw [hnodes]
  constructor
  · intro h
    change Dictionary.ofNodes (x.nodes.map PlacedNode.erased) = Dictionary.ofNodes []
    rw [h]
    rfl
  · intro h
    exact List.map_eq_nil_iff.1 (congrArg Dictionary.nodes h)

section Free

variable {m : BackendHeap} {x : PlacedAccounts} {inputs : FreeInputs} {s : AccountsSt}
  {told : List Callback}

/-- **`burrow_backend_memory_free`** -/
theorem free_does (hx : Holds m x) (hm : Owns m (footprint x)) (hmem : inputs.AllocationsSucceed)
    (hspec : Memory.burrowBackendMemoryFree inputs (erase x) = .ok (s, told)) :
    ∃ m' x', burrowBackendMemoryFree x.address inputs m = .ok m' ∧
      Does m m' (footprint x) (leftBehind x') told ∧ erase x' = s := by
  obtain ⟨hcmd, hfilters, haccounts⟩ := hmem
  obtain ⟨eraseCmd, heraseCmd⟩ := Option.ne_none_iff_exists'.1 hcmd
  obtain ⟨filters, hprocess, -⟩ := processFilter_none hfilters
  obtain ⟨m₁, m₂, hmalloc, hprocess', hblocks⟩ := eraseBlocks_does hprocess hm.zero
  rw [Memory.burrowBackendMemoryFree, heraseCmd, hprocess] at hspec
  dsimp only at hspec
  split at hspec
  · exact absurd hspec (by simp)
  · next o ho =>
      cases hspec
      have hmade := (hblocks.frame (r := footprint x) (by rwa [Multiset.zero_add])).congr
        (Multiset.zero_add _) (Multiset.add_comm ..)
      have hx₂ := hblocks.toChanges.holds (by rwa [Multiset.zero_add]) hx
      obtain ⟨-, m₃, x', hdelete, hturns, haddress, herase⟩ :=
        deleteAccounts_ends haccounts hx₂ (by rw [Multiset.add_zero]; exact hmade.after.part)
          (means_ofUser m₂ 0 { eraseCmd with filters := some (.live filters) }) ho
      change burrowBackendMemoryDeleteAccounts x.address inputs.deleteAccounts
        { ofUser eraseCmd with filters := some (.live filters) } m₂ = .ok m₃ at hdelete
      obtain ⟨m₄, m₅, hfree, hfree', hfreed⟩ :=
        freeEraseBlocks_does (hturns.besides hmade.after).after.rest
      have hdeleted := (Turns.during hm hblocks hturns hfreed).toDoes.congr rfl
        (footprint_eq_leftBehind x')
      obtain ⟨m₆, hroot, hgone⟩ := freeDictionary_does hdeleted.after.part
      refine ⟨m₆, x', ?_, (hdeleted.seq_quiet hgone).congr rfl (Multiset.zero_add _), herase⟩
      rw [burrowBackendMemoryFree, heraseCmd]
      dsimp only
      rw [hmalloc]
      dsimp only
      rw [hprocess', ok_bind]
      dsimp only
      rw [hdelete, ok_bind, hfree, ok_bind, hfree', ok_bind, ← haddress]
      exact hroot

end Free

/-! ## After a run -/

theorem remains_eq_zero_iff (vs : List PlacedMessage) : remains vs = 0 ↔ vs = [] := by
  cases vs with
  | nil => exact iff_of_true rfl rfl
  | cons v vs =>
      refine iff_of_false (fun h => ?_) (List.cons_ne_nil v vs)
      have hmem := mem_remains (List.mem_cons_self (a := v) (l := vs))
        (Multiset.mem_add.2 (.inl (Multiset.mem_singleton_self (Block.text v.messageIdAt))))
      rw [h] at hmem
      exact Multiset.notMem_zero _ hmem

/-- **When nothing is left.** After a run of sound requests the destroy function frees every
block exactly when no message was overwritten and it deletes every account. -/
theorem free_leaves_nothing_iff {ls : List Request}
    (hls : ∀ r ∈ ls, r.cmd.IsLive ∧ r.inputs.AllocationsSucceed)
    (hsound : Machine.Along step Sound ls Memory.burrowBackendMemoryCreate) {free : FreeInputs}
    (hfree : free.AllocationsSucceed) :
    ∃ m s m', Machine.run (linkedStep burrowBackendMemoryCreate.1) ls
        burrowBackendMemoryCreate.2 = .ok m ∧
      Machine.run step ls Memory.burrowBackendMemoryCreate = .ok s ∧
      burrowBackendMemoryFree burrowBackendMemoryCreate.1 free m = .ok m' ∧
      m'.callbacks = m.callbacks ∧
      ((∀ b, ¬ Block.Live m' b) ↔
        Machine.trace step overwrites ls Memory.burrowBackendMemoryCreate = [] ∧
          Unhindered s (accountSweeps free.deleteAccounts.deleteQueues (queueNames s)
            s.keys 0)) := by
  obtain ⟨m, s, hrun', -, hshows, x, vs, hx, haddress, rfl, -, hvs, howned⟩ :=
    run_keeps hls (storeOk_create False) keeps_create hsound
  rw [List.nil_append] at hvs
  have hok : StoreOk False (erase x) := run_storeOk (storeOk_create False)
    (Machine.along_of_forall step (fun r hr s hhole => not_leavesHole (hls r hr).2 s hhole) _)
    hrun'
  obtain ⟨s', hspec, hafter⟩ := free_afterSweeps hok hfree
  obtain ⟨m', x', hfreed, hdoes, rfl⟩ := free_does hx howned.part hfree hspec
  have hleft := (hdoes.frame howned.toOwns).toChanges.owned howned
  rw [haddress] at hfreed
  refine ⟨m, erase x, m', hshows.run, hrun', hfreed, hdoes.told.trans (List.append_nil _), ?_⟩
  have hzero : (∀ b, ¬ Block.Live m' b) ↔ leftBehind x' + remains vs = 0 := by
    constructor
    · intro hdead
      exact Multiset.eq_zero_of_forall_notMem fun b hb => hdead b (hleft.live b hb)
    · intro hnone b hb
      exact Multiset.notMem_zero b (hnone ▸ hleft.all b hb)
  rw [hzero, add_eq_zero, leftBehind_eq_zero_iff, remains_eq_zero_iff, ← hvs,
    List.map_eq_nil_iff, eq_create_iff hafter]
  exact and_comm

/-- Of one message that is visible nothing is left. -/
theorem free_leaves_nothing_visible :
    ∃ m m', Machine.run (linkedStep burrowBackendMemoryCreate.1)
        [createRequest 10 (plainCommand "a" "q" "m" [])] burrowBackendMemoryCreate.2 = .ok m ∧
      burrowBackendMemoryFree burrowBackendMemoryCreate.1 (ampleFree 20) m = .ok m' ∧
      ∀ b, ¬ Block.Live m' b := by
  have hls : ∀ r ∈ [createRequest 10 (plainCommand "a" "q" "m" [])],
      r.cmd.IsLive ∧ r.inputs.AllocationsSucceed := by
    intro r hr
    rw [List.mem_singleton.1 hr]
    exact ⟨plainCommand_isLive _ _ _ _, ampleInputs_allocationsSucceed _⟩
  have hfree : (ampleFree 20).AllocationsSucceed :=
    ⟨by simp [ampleFree], by simp [ampleFree], (ampleInputs_allocationsSucceed 20).deleteAccounts⟩
  obtain ⟨m, s, m', hrun, hrun', hfreed, -, hleft⟩ :=
    free_leaves_nothing_iff hls (by decide) hfree
  obtain rfl : singleStore "a" "q" (createdMessage 10 (plainCommand "a" "q" "m" [])) = s :=
    Except.ok.inj ((show Machine.run step _ _ = _ from rfl).symm.trans hrun')
  refine ⟨m, m', hrun, hfreed, hleft.2 ⟨rfl, ?_⟩⟩
  intro sweep hsweep message hmessage
  rw [List.mem_singleton.1 hsweep] at hmessage ⊢
  rw [List.mem_singleton.1 hmessage]
  exact .inr (by decide)

end Burrow.Memory.Chained
