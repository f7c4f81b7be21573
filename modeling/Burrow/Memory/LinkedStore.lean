import Burrow.Memory.Runs
import Burrow.Memory.LinkedContainers
import Burrow.Memory.LinkedCreate

/-!
# Runs of the backend in memory

A request is `Sound` unless it gets a message that has expired, or creates one in a list that
an `int` cannot count any longer. Where the allocations succeed, a sound request does in memory
what it does in the list model (`execute_moves`), and any other ends in its `fault`.

Over a run this makes the backend in memory a refinement of the broker
(`run_meets_broker`), up to the first request that is not sound (`run_faults`), with nothing
lost but the ids and the bodies of the messages that were overwritten (`run_ledger`).
-/

set_option autoImplicit false

namespace Burrow.Memory.Chained

open Ownership KeyedList

/-! ## Requests -/

/-- The command function of the request meets no undefined behaviour. -/
def Sound (r : Request) (s : AccountsSt) : Prop :=
  match r.name with
  | .getMessage => ¬ GetsExpired r s
  | .createMessage => HasRoom s r.cmd
  | _ => True

instance (s : AccountsSt) (cmd : BackendCommand) : Decidable (HasRoom s cmd) :=
  inferInstanceAs (Decidable (∀ n ∈ appendedTo s cmd, _))

instance (r : Request) (s : AccountsSt) : Decidable (Sound r s) := by
  unfold Sound
  split <;> infer_instance

/-- The undefined behaviour that the command function can meet. -/
def fault (name : CommandName) : BackendFault :=
  match name with
  | .createMessage => .intOverflow
  | _ => .danglingPointer

/-- The message that the request overwrites. -/
def overwrites (r : Request) (s : AccountsSt) : List BurrowMessage :=
  if r.name = .createMessage then overwritten s r.cmd else []

section Execute

variable {m : BackendHeap} {x : PlacedAccounts} {r : Request} {o : Outcome}

/-- The request ends like this, and the id and the body of these messages remain. -/
def Meets (m : BackendHeap) (x : PlacedAccounts)
    (answer : Except BackendFault (Int × BackendHeap)) (o : Outcome)
    (lost : List BurrowMessage) : Prop :=
  ∃ m' x' vs, answer = .ok (o.result, m') ∧ Moves m m' x 0 x' (remains vs) o.callbacks ∧
    Remain m' vs ∧ x'.address = x.address ∧ vs.map erase = lost ∧ erase x' = o.accounts

theorem Returns.meets {answer : Except BackendFault (Int × BackendHeap)}
    (h : Returns m x answer o) : Meets m x answer o [] := by
  obtain ⟨m', x', hanswer, hturns, haddress, herase⟩ := h
  exact ⟨m', x', [], hanswer, hturns.moves, by simp [Remain], haddress, rfl, herase⟩

theorem Ends.meets {answer : Except BackendFault BackendHeap} (hresult : o.result = 0)
    (h : Ends m x answer o.accounts o.callbacks) :
    Meets m x (answer >>= fun m' => pure (0, m')) o [] := by
  obtain ⟨m', x', hanswer, hturns, haddress, herase⟩ := h
  refine ⟨m', x', [], ?_, hturns.moves, by simp [Remain], haddress, rfl, herase⟩
  rw [hanswer, hresult]
  rfl

theorem scanCommand_meets {scanType : ScanAction} {inputs : ScanInputs} {cmd : BackendCommand}
    (hx : Holds m x) (hm : Owns m (footprint x)) (hmem : inputs.AllocationsSucceed)
    (hspec : scanCommand scanType inputs cmd (erase x) = .ok o) :
    Meets m x (scanQueue x.address inputs (ofUser cmd) scanType .report m >>= fun m' =>
      pure (0, m')) o [] := by
  have hm₀ : Owns m (footprint x + 0) := by rwa [Multiset.add_zero]
  unfold scanCommand at hspec
  split at hspec
  · exact absurd hspec (by simp)
  · next hscan =>
      cases hspec
      have hends := scanQueue_turns hx hm₀ (means_ofUser m 0 cmd) hmem hscan
      exact Ends.meets (o := ⟨_, _, 0⟩) rfl hends

/-- **A sound request** does in memory what it does in the list model. -/
theorem execute_meets (hx : Holds m x) (hm : Owns m (footprint x))
    (hmem : r.inputs.AllocationsSucceed) (hsound : Sound r (erase x))
    (hspec : Memory.execute r.inputs r.name r.cmd (erase x) = .ok o) :
    Meets m x (execute x.address r.inputs r.name r.cmd m) o (overwrites r (erase x)) := by
  obtain ⟨inputs, name, cmd⟩ := r
  -- the strings of the user lie in none of the blocks
  have hm₀ : Owns m (footprint x + 0) := by rwa [Multiset.add_zero]
  have hcmd := means_ofUser m 0 cmd
  cases name with
  | getAccounts =>
      obtain ⟨hresult, hends⟩ := getAccounts_ends hmem.list hx hm hcmd.filters hspec
      exact hends.meets hresult
  | deleteAccounts =>
      obtain ⟨hresult, hends⟩ := deleteAccounts_ends hmem.deleteAccounts hx hm₀ hcmd hspec
      exact hends.meets hresult
  | getQueues =>
      obtain ⟨hresult, hends⟩ := getQueues_ends hmem.list hx hm₀ hcmd hspec
      exact hends.meets hresult
  | deleteQueues =>
      obtain ⟨hresult, hends⟩ := deleteQueues_ends hmem.deleteQueues hx hm₀ hcmd hspec
      exact hends.meets hresult
  | getMessages => exact scanCommand_meets hx hm hmem.scan hspec
  | updateMessages => exact scanCommand_meets hx hm hmem.scan hspec
  | deleteMessages => exact scanCommand_meets hx hm hmem.scan hspec
  | createMessage =>
      obtain ⟨m', x', vs, hcreate, hmoves, hremain, haddress, hvs, rfl⟩ :=
        createMessage_moves hx hm hmem.create hsound hspec
      refine ⟨m', x', vs, ?_, hmoves, hremain, haddress, hvs, rfl⟩
      rw [execute, hcreate]
      rfl
  | getMessage => exact (getMessage_returns hx hm hspec).meets
  | updateMessage => exact (updateMessage_returns hx hm hspec).meets
  | deleteMessage => exact (deleteMessage_returns hx hm hspec).meets

/-- **A request that is not sound** ends in its fault. -/
theorem execute_faults (hx : Holds m x) (hm : Owns m (footprint x))
    (hmem : r.inputs.AllocationsSucceed) (hs : StoreOk False (erase x))
    (hargs : ArgsLive r (erase x)) (hsound : ¬ Sound r (erase x)) :
    execute x.address r.inputs r.name r.cmd m = .error (fault r.name) := by
  obtain ⟨inputs, name, cmd⟩ := r
  cases name with
  | createMessage =>
      obtain ⟨o, hspec⟩ := (execute_reads hs fun he => absurd he.1 (by simp)).ok hargs
      rw [execute, createMessage_overflows hx hm hmem.create hsound hspec]
      rfl
  | getMessage => exact getMessage_faults hx (execute_getsExpired hs (not_not.1 hsound))
  | _ => exact absurd trivial hsound

end Execute

/-! ## Runs -/

/-- The backend's part in a command: the memory afterwards. -/
def linkedStep (self : Address) (r : Request) (m : BackendHeap) :
    Except BackendFault BackendHeap :=
  match execute self r.inputs r.name r.cmd m with
  | .error e => .error e
  | .ok (_, m') => .ok m'

/-- What a command function comes to for its user: the result, and what the callbacks tell. -/
abbrev Told := Int × List Report

def linkedAnswers (self : Address) (r : Request) (m : BackendHeap) : List Told :=
  match execute self r.inputs r.name r.cmd m with
  | .error _ => []
  | .ok (result, m') => [(result, (m'.callbacks.drop m.callbacks.length).map Callback.report)]

/-- The broker takes every request. -/
def brokerStep (r : Request) (b : Broker) : Except Empty Broker :=
  .ok (b.execute r.inputs r.name r.cmd).broker

def brokerAnswers (r : Request) (b : Broker) : List Told :=
  [((b.execute r.inputs r.name r.cmd).result, (b.execute r.inputs r.name r.cmd).reports)]

/-- The memory holds the store, and the rest of it is what remains of these messages. -/
def Keeps (self : Address) (m : BackendHeap) (s : AccountsSt) (lost : List BurrowMessage) : Prop :=
  ∃ x : PlacedAccounts, ∃ vs : List PlacedMessage, Holds m x ∧ x.address = self ∧ erase x = s ∧
    Remain m vs ∧ vs.map erase = lost ∧ Owned m (footprint x + remains vs)

section Runs

variable {self : Address} {m : BackendHeap} {s : AccountsSt} {lost : List BurrowMessage}
  {r : Request} {ls : List Request}

theorem remains_append (vs us : List PlacedMessage) :
    remains (vs ++ us) = remains vs + remains us := by
  rw [remains, List.map_append, List.sum_append]
  rfl

theorem mem_remains {vs : List PlacedMessage} {v : PlacedMessage} (hv : v ∈ vs) {b : Block}
    (hb : b ∈ v.contents) : b ∈ remains vs := by
  induction vs with
  | nil => exact absurd hv List.not_mem_nil
  | cons u vs ih =>
      rw [remains, List.map_cons, List.sum_cons, Multiset.mem_add]
      rcases List.mem_cons.1 hv with rfl | hv
      · exact .inl hb
      · exact .inr (ih hv)

/-- What a change leaves alone remains. -/
theorem Remain.congr {m' : BackendHeap} {vs : List PlacedMessage}
    (h : ∀ b ∈ remains vs, Block.Same m m' b) (hvs : Remain m vs) : Remain m' vs := by
  intro v hv
  have htext := h (.text v.messageIdAt)
    (mem_remains hv (Multiset.mem_add.2 (.inl (Multiset.mem_singleton_self _))))
  have hbody := h (.body v.bodyAt)
    (mem_remains hv (Multiset.mem_add.2 (.inr (Multiset.mem_singleton_self _))))
  exact ⟨htext.trans (hvs v hv).1, hbody.trans (hvs v hv).2⟩

/-- The new backend keeps the empty store. -/
theorem keeps_create : Keeps burrowBackendMemoryCreate.1 burrowBackendMemoryCreate.2
    Memory.burrowBackendMemoryCreate [] := by
  refine ⟨⟨0, []⟩, [], ?_, rfl, rfl, fun _ hv => absurd hv List.not_mem_nil, rfl, ?_⟩
  · exact ⟨represents_new _ 0, List.nodup_nil, by decide, fun _ hn => absurd hn List.not_mem_nil⟩
  · have hlive : ∀ b : Block, Block.Live burrowBackendMemoryCreate.2 b → b = .dictionary 0 := by
      intro b hb
      cases b with
      | dictionary a =>
          by_contra hne
          have hne : a ≠ 0 := fun heq => hne (congrArg Block.dictionary heq)
          exact hb (Function.update_of_ne hne ..)
      | _ => exact absurd rfl hb
    change Owned burrowBackendMemoryCreate.2 ({Block.dictionary 0} : Multiset Block)
    refine ⟨⟨Multiset.nodup_singleton _, fun b hb => ?_, fun b hb => ?_, fun b hfresh hb => ?_⟩,
      fun b hb => Multiset.mem_singleton.2 (hlive b hb)⟩
    · rw [Multiset.mem_singleton.1 hb]
      exact Option.some_ne_none DictionarySt.new
    · rw [Multiset.mem_singleton.1 hb]
      exact Nat.not_succ_le_zero 0
    · rw [hlive b hb] at hfresh
      exact Nat.not_succ_le_zero 0 hfresh

/-- A sound request gets no expired message. -/
theorem Sound.not_getsExpired (h : Sound r s) : ¬ GetsExpired r s := by
  obtain ⟨inputs, name, cmd⟩ := r
  rintro ⟨rfl, hfinds⟩
  exact h ⟨rfl, hfinds⟩

/-- One sound request. -/
theorem step_keeps (hk : Keeps self m s lost) (hmem : r.inputs.AllocationsSucceed) {o : Outcome}
    (hspec : Memory.execute r.inputs r.name r.cmd s = .ok o) (hsound : Sound r s) :
    ∃ m', linkedStep self r m = .ok m' ∧ Keeps self m' o.accounts (lost ++ overwrites r s) ∧
      linkedAnswers self r m = [(o.result, o.callbacks.map Callback.report)] := by
  obtain ⟨x, vs, hx, rfl, rfl, hremain, rfl, howned⟩ := hk
  obtain ⟨m', x', us, hrun, hmoves, hremain', haddress, hus, herase⟩ :=
    execute_meets hx howned.part hmem hsound hspec
  have hdoes := hmoves.toDoes.congr (Multiset.add_zero _) rfl
  have hend := (hdoes.frame howned.toOwns).congr rfl
    (show _ = footprint x' + remains (vs ++ us) by rw [remains_append]; abel)
  refine ⟨m', ?_, ⟨x', vs ++ us, hmoves.holds, haddress, herase, ?_, ?_, ?_⟩, ?_⟩
  · rw [linkedStep, hrun]
  · intro v hv
    rcases List.mem_append.1 hv with hv | hv
    · exact hremain.congr (fun b hb => hdoes.toChanges.same_rest howned.toOwns hb) v hv
    · exact hremain' v hv
  · rw [List.map_append, hus]
  · exact hend.toChanges.owned howned
  · rw [linkedAnswers, hrun]
    dsimp only
    rw [hmoves.told, List.drop_left]

/-- **The run rule.** While the requests are sound the backend keeps the store and what remains,
and its answers are those of the broker. -/
theorem run_keeps (hls : ∀ r ∈ ls, r.cmd.IsLive ∧ r.inputs.AllocationsSucceed)
    (hs : StoreOk False s) (hk : Keeps self m s lost) (hsound : Machine.Along step Sound ls s) :
    ∃ m' s', Machine.run step ls s = .ok s' ∧
      Machine.run brokerStep ls (view s) = .ok (view s') ∧
      Machine.Shows (linkedStep self) (linkedAnswers self) ls m
        (Machine.trace brokerStep brokerAnswers ls (view s)) m' ∧
      Keeps self m' s' (lost ++ Machine.trace step overwrites ls s) := by
  induction ls generalizing s m lost with
  | nil =>
      refine ⟨m, s, rfl, rfl, Machine.Shows.nil _ _ m, ?_⟩
      rwa [Machine.trace, List.append_nil]
  | cons r ls ih =>
      obtain ⟨hlive, hmem⟩ := hls r List.mem_cons_self
      obtain ⟨o, ho⟩ := (execute_reads hs hsound.1.not_getsExpired).ok (argsLive_of_isLive hlive s)
      obtain ⟨hok, hanswer⟩ := execute_refines hs hmem ho
      obtain ⟨m₁, hlinked, hkeeps, hanswers⟩ := step_keeps hk hmem ho hsound.1
      have hstep : step r s = .ok o.accounts := by rw [step, ho]
      have hbroker : brokerStep r (view s) = .ok (view o.accounts) := by
        rw [brokerStep, ← hanswer]
        rfl
      have htold : linkedAnswers self r m = brokerAnswers r (view s) := by
        rw [hanswers, brokerAnswers, ← hanswer]
        rfl
      obtain ⟨m', s', hrun, hrun', hshows, hkeeps'⟩ :=
        ih (fun r' hr' => hls r' (List.mem_cons_of_mem r hr')) hok hkeeps (hsound.2 _ hstep)
      refine ⟨m', s', ?_, ?_, ?_, ?_⟩
      · rwa [Machine.run_cons_of_ok step hstep]
      · rwa [Machine.run_cons_of_ok brokerStep hbroker]
      · rw [Machine.trace_cons_of_ok _ _ hbroker, ← htold]
        exact (Machine.Shows.single _ _ hlinked).append hshows
      · rwa [Machine.trace_cons_of_ok _ _ hstep, ← List.append_assoc]

/-- **The backend in memory is the broker.** A run of sound requests answers what the broker
answers, and leads to a memory that holds what the broker has then. -/
theorem linked_meets_broker (hls : ∀ r ∈ ls, r.cmd.IsLive ∧ r.inputs.AllocationsSucceed)
    (hsound : Machine.Along step Sound ls Memory.burrowBackendMemoryCreate) :
    ∃ m x, Machine.Shows (linkedStep burrowBackendMemoryCreate.1)
        (linkedAnswers burrowBackendMemoryCreate.1) ls burrowBackendMemoryCreate.2
        (Machine.trace brokerStep brokerAnswers ls (view Memory.burrowBackendMemoryCreate)) m ∧
      Holds m (x : PlacedAccounts) ∧ x.address = burrowBackendMemoryCreate.1 ∧
      Machine.run brokerStep ls (view Memory.burrowBackendMemoryCreate) =
        .ok (view (erase x)) := by
  obtain ⟨m, s, -, hbroker, hshows, x, vs, hx, haddress, rfl, -⟩ :=
    run_keeps hls (storeOk_create False) keeps_create hsound
  exact ⟨m, x, hshows, hx, haddress, hbroker⟩

/-- **Where a run fails.** It does at the first request that is not sound, and nowhere else. -/
theorem linked_fails_iff (hls : ∀ r ∈ ls, r.cmd.IsLive ∧ r.inputs.AllocationsSucceed)
    (e : BackendFault) :
    Machine.run (linkedStep burrowBackendMemoryCreate.1) ls burrowBackendMemoryCreate.2 =
        .error e ↔
      ∃ done r rest s, ls = done ++ r :: rest ∧
        Machine.Along step Sound done Memory.burrowBackendMemoryCreate ∧
        Machine.run step done Memory.burrowBackendMemoryCreate = .ok s ∧ ¬ Sound r s ∧
        e = fault r.name := by
  have hfails : ∀ done r rest s, ls = done ++ r :: rest →
      Machine.Along step Sound done Memory.burrowBackendMemoryCreate →
      Machine.run step done Memory.burrowBackendMemoryCreate = .ok s → ¬ Sound r s →
      Machine.run (linkedStep burrowBackendMemoryCreate.1) ls burrowBackendMemoryCreate.2 =
        .error (fault r.name) := by
    rintro done r rest s rfl hsound hrun hno
    have hdone : ∀ r ∈ done, r.cmd.IsLive ∧ r.inputs.AllocationsSucceed := fun r' hr' =>
      hls r' (List.mem_append_left _ hr')
    obtain ⟨hlive, hmem⟩ := hls r (List.mem_append_right _ List.mem_cons_self)
    obtain ⟨m, s', hrun', -, hshows, x, vs, hx, haddress, rfl, -, -, howned⟩ :=
      run_keeps hdone (storeOk_create False) keeps_create hsound
    obtain rfl : erase x = s := Except.ok.inj (hrun'.symm.trans hrun)
    have hok : StoreOk False (erase x) := run_storeOk (storeOk_create False)
      (Machine.along_of_forall step (fun r' hr' s hhole => not_leavesHole (hdone r' hr').2 s hhole)
        _) hrun
    have hfault := execute_faults hx howned.part hmem hok (argsLive_of_isLive hlive _) hno
    rw [haddress] at hfault
    exact (hshows.stop (by rw [linkedStep, hfault]) rest).1
  constructor
  · intro herror
    by_cases hsound : Machine.Along step Sound ls Memory.burrowBackendMemoryCreate
    · obtain ⟨m, s, -, -, hshows, -⟩ :=
        run_keeps hls (storeOk_create False) keeps_create hsound
      exact absurd (hshows.run.symm.trans herror) (by simp)
    · obtain ⟨done, r, rest, s, hsplit, hdone, hrun, hno⟩ := Machine.exists_first step hsound
      have hfault := hfails done r rest s hsplit hdone hrun hno
      exact ⟨done, r, rest, s, hsplit, hdone, hrun, hno,
        Except.error.inj (herror.symm.trans hfault)⟩
  · rintro ⟨done, r, rest, s, hsplit, hdone, hrun, hno, rfl⟩
    exact hfails done r rest s hsplit hdone hrun hno

/-- **Nothing is lost but what is overwritten.** After a run of sound requests every block is
one of the store, or the id or the body of a message that was overwritten. -/
theorem linked_ledger (hls : ∀ r ∈ ls, r.cmd.IsLive ∧ r.inputs.AllocationsSucceed)
    (hsound : Machine.Along step Sound ls Memory.burrowBackendMemoryCreate) :
    ∃ m s, Machine.run (linkedStep burrowBackendMemoryCreate.1) ls burrowBackendMemoryCreate.2 =
        .ok m ∧
      Machine.run step ls Memory.burrowBackendMemoryCreate = .ok s ∧
      Keeps burrowBackendMemoryCreate.1 m s
        (Machine.trace step overwrites ls Memory.burrowBackendMemoryCreate) := by
  obtain ⟨m, s, hrun, -, hshows, hkeeps⟩ :=
    run_keeps hls (storeOk_create False) keeps_create hsound
  exact ⟨m, s, hshows.run, hrun, hkeeps⟩

end Runs

/-! ## A run -/

/-- A message is created and then created once more, and read. -/
def overwritingRun : List Request :=
  [createRequest 10 (plainCommand "a" "q" "m" [1]), createRequest 20 (plainCommand "a" "q" "m" [2]),
    { inputs := ampleInputs 30, name := .getMessage, cmd := plainCommand "a" "q" "m" [] }]

theorem overwritingRun_live : ∀ r ∈ overwritingRun, r.cmd.IsLive ∧ r.inputs.AllocationsSucceed := by
  intro r hr
  simp only [overwritingRun, List.mem_cons, List.not_mem_nil, or_false] at hr
  rcases hr with rfl | rfl | rfl
  all_goals exact ⟨plainCommand_isLive _ _ _ _, ampleInputs_allocationsSucceed _⟩

theorem overwritingRun_sound :
    Machine.Along step Sound overwritingRun Memory.burrowBackendMemoryCreate := by
  decide

/-- The message is read as it was created last. -/
theorem linked_meets_broker_overwriting :
    Machine.trace (linkedStep burrowBackendMemoryCreate.1)
        (linkedAnswers burrowBackendMemoryCreate.1) overwritingRun burrowBackendMemoryCreate.2 =
      [(0, []), (0, []), (0, [.message "m" [2] 1 290 0])] := by
  obtain ⟨m, x, hshows, -⟩ := linked_meets_broker overwritingRun_live overwritingRun_sound
  rw [hshows.trace]
  rfl

/-- The first message has left its id and its body behind. -/
theorem linked_ledger_overwriting :
    ∃ m s, Machine.run (linkedStep burrowBackendMemoryCreate.1) overwritingRun
        burrowBackendMemoryCreate.2 = .ok m ∧
      Keeps burrowBackendMemoryCreate.1 m s
        [createdMessage 10 (plainCommand "a" "q" "m" [1])] := by
  obtain ⟨m, s, hrun, -, hkeeps⟩ := linked_ledger overwritingRun_live overwritingRun_sound
  exact ⟨m, s, hrun, hkeeps⟩

/-- To get a message that has expired. -/
def expiredGet : Request :=
  { inputs := ampleInputs 1000, name := .getMessage, cmd := plainCommand "a" "q" "m" [] }

/-- It is freed, and then read. -/
theorem linked_fails_expired :
    Machine.run (linkedStep burrowBackendMemoryCreate.1) (overwritingRun ++ [expiredGet])
      burrowBackendMemoryCreate.2 = .error .danglingPointer := by
  have hlive : ∀ r ∈ overwritingRun ++ [expiredGet],
      r.cmd.IsLive ∧ r.inputs.AllocationsSucceed := by
    intro r hr
    rcases List.mem_append.1 hr with hr | hr
    · exact overwritingRun_live r hr
    · rw [List.mem_singleton.1 hr]
      exact ⟨plainCommand_isLive _ _ _ _, ampleInputs_allocationsSucceed _⟩
  exact (linked_fails_iff hlive .danglingPointer).2 ⟨overwritingRun, expiredGet, [],
    singleStore "a" "q" (createdMessage 20 (plainCommand "a" "q" "m" [2])), rfl,
    overwritingRun_sound, rfl, by decide, rfl⟩

end Burrow.Memory.Chained
