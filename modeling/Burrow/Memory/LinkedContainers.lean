import Burrow.Memory.LinkedScan
import Burrow.Memory.Containers

/-!
# Lists and walks in memory

`get_accounts` and `get_queues` report the keys of a copied list (`listCommand_turns`), while
`delete_accounts` and `delete_queues` go along such a list and delete what its keys stand for
(`eraseCommand_ends`). Whatever is deleted on the way, the copy is not, and the store comes
to what the list model says.
-/

set_option autoImplicit false

namespace Burrow.Memory.Chained

open Ownership KeyedList

/-! ## Lists -/

section List

variable {α β : Type} [Pointed α β] {m : BackendHeap} {z : Placed α}

/-- The loop only makes callbacks. -/
theorem listLoop_eq {iterator : Address} (pre : List Cell) {post : List Cell}
    (h : m.toHeap.Represents iterator (pre ++ post)) (callback : String → Callback) :
    listLoop callback post.length (addresses post).head? m =
      .ok { m with callbacks := m.callbacks ++ post.map fun c => callback c.key } := by
  induction post generalizing pre m with
  | nil =>
      rw [List.map_nil, List.append_nil]
      rfl
  | cons c post ih =>
      have hmem := List.mem_append_right pre (List.mem_cons_self (a := c) (l := post))
      obtain ⟨node, hread, hkey, -, hnext⟩ := readNode_eq h hmem
      have htext := dictionaryRead_of_ok (f := (·.readText c.keyAt)) (h.readKey hmem)
      have hcurrent : (addresses (c :: post)).head? = some c.node := rfl
      have hpre : pre ++ c :: post = pre ++ [c] ++ post := by
        rw [List.append_assoc, List.singleton_append]
      rw [List.length_cons, listLoop, hcurrent, hread, ok_bind, hkey, htext, ok_bind, hnext,
        h.next_eq, ih (m := m.callback (callback c.key)) (pre ++ [c]) (hpre ▸ h), List.map_cons]
      change Except.ok { m with callbacks := m.callbacks ++ [_] ++ _ } = _
      rw [List.append_assoc, List.singleton_append]

/-- **`get_queues` and `get_accounts`**, once the list is found: the keys of the window are
reported, and all blocks are freed. -/
theorem listCommand_turns {inputs : ListInputs} (hmem : inputs.AllocationsSucceed)
    {cmd : BackendCommand} {linked : ContainerCommand} (hfilters : linked.filters = cmd.filters)
    (hz : Holds m z) (hm : Owns m (footprint z)) {callback : String → Callback} {s : AccountsSt}
    {o : Outcome} (hspec : Memory.listCommand inputs cmd (erase z) callback s = .ok o) :
    o.accounts = s ∧ o.result = 0 ∧
      ∃ m', listCommand inputs linked (some z.address) callback m = .ok m' ∧
        Turns m m' z z o.callbacks := by
  rw [Memory.listCommand] at hspec
  split at hspec
  · exact absurd hspec (by simp)
  · next hfilter =>
      obtain ⟨_, hno⟩ := processFilter_succeeds hmem.1 hfilter
      exact absurd hno (by simp)
  · next refFilters hfilter =>
      obtain ⟨m₁, m₂, copied, hprocess, -, hiter, hopen, hcopied⟩ :=
        openIterator_does hz hm hfilter hmem.2
      obtain ⟨dictionary, hdictionary, hlength, hhead⟩ := dataDictionary_eq hcopied.represents
      rw [dictionaryIter_of_succeeds (erase_wellFormed (Placed.Holds.keys hz)) hmem.2] at hspec
      cases hspec
      refine ⟨rfl, rfl, ?_⟩
      have hloop := listLoop_eq [] hcopied.represents callback
      have hm₀ : Owns m (0 + footprint z) := by rwa [Multiset.zero_add]
      have hz₂ : Holds m₂ z := hopen.toChanges.holds hm₀ hz
      have hm₂ := (hopen.frame hm₀).after
      have hturns : Turns m₂ { m₂ with
          callbacks := m₂.callbacks ++ copied.map fun c => callback c.key } z z
            (copied.map fun c => callback c.key) := by
        refine ⟨callbacks_does hm₂.rest _, Located.congr (fun b _ => ?_) hz₂⟩
        exact Block.same_refl m₂ b
      obtain ⟨m₄, m₅, hfree, hiterator, hclose⟩ := closeIterator_does
        (⟨hcopied.represents, hcopied.cells, hcopied.keys⟩ : Copied { m₂ with
          callbacks := m₂.callbacks ++ copied.map fun c => callback c.key } _ copied _)
        (callbacks_does hm₂.part _).after
      have htold : listKeys (Dictionary.ofNodes (window DictionaryNode.key refFilters.marker
          refFilters.limit.toNat (erase z).nodes)) callback =
            copied.map fun c => callback c.key := by
        have hkeys := congrArg (List.map callback) hcopied.keys_copied
        rw [List.map_map, List.map_map] at hkeys
        rw [listKeys, Dictionary.ofNodes, List.take_length, window_erase, List.map_map]
        exact hkeys.symm
      refine ⟨m₅, ?_, htold ▸ Turns.during hm hopen hturns hclose⟩
      rw [listCommand, hfilters, hprocess, ok_bind]
      dsimp only
      rw [hiter, ok_bind]
      dsimp only
      rw [hdictionary, ok_bind, hlength, hhead, Int.toNat_natCast]
      rw [hloop, ok_bind, hfree, ok_bind]
      exact hiterator

end List

/-! ## Walks -/

/-- The loops of the list model's walks are one: `step` is done to each key in turn. -/
def walkLoop (step : Nat → String → AccountsSt → Except Fault (AccountsSt × List Callback)) :
    List String → Nat → AccountsSt → Except Fault (AccountsSt × List Callback)
  | [], _, s => .ok (s, [])
  | key :: rest, i, s =>
      match step i key s with
      | .error e => .error e
      | .ok (s, told) =>
          match walkLoop step rest (i + 1) s with
          | .error e => .error e
          | .ok (s, told') => .ok (s, told ++ told')

theorem deleteQueuesLoop_eq (scan : Nat → ScanInputs) (eraseCmd : BackendCommand)
    (keys : List String) (i : Nat) :
    deleteQueuesLoop scan eraseCmd keys i =
      walkLoop (fun i key => Memory.scanQueue (scan i) { eraseCmd with queue := key } .delete
        .ignore) keys i := by
  induction keys generalizing i with
  | nil => rfl
  | cons key rest ih =>
      funext s
      rw [deleteQueuesLoop, walkLoop]
      cases Memory.scanQueue (scan i) { eraseCmd with queue := key } .delete .ignore s with
      | error e => rfl
      | ok r =>
          have hloop := congrFun (ih (i + 1)) r.1
          cases hwalk : deleteQueuesLoop scan eraseCmd rest (i + 1) r.1 with
          | error e =>
              dsimp only
              rw [← hloop, hwalk]
          | ok r' =>
              dsimp only
              rw [← hloop, hwalk]

theorem deleteAccountsLoop_eq (deleteQueues : Nat → DeleteQueuesInputs) (eraseCmd : BackendCommand)
    (keys : List String) (i : Nat) :
    deleteAccountsLoop deleteQueues eraseCmd keys i =
      walkLoop (fun i key s => (Memory.burrowBackendMemoryDeleteQueues (deleteQueues i)
        { eraseCmd with account := key } s).map fun o => (o.accounts, o.callbacks)) keys i := by
  induction keys generalizing i with
  | nil => rfl
  | cons key rest ih =>
      funext s
      rw [deleteAccountsLoop, walkLoop]
      simp only [ih]
      cases Memory.burrowBackendMemoryDeleteQueues (deleteQueues i)
        { eraseCmd with account := key } s <;> rfl

section Walk

variable {m : BackendHeap} {x : PlacedAccounts} {self : Address} {account : Chars} {name : String}
  {step : Nat → String → AccountsSt → Except Fault (AccountsSt × List Callback)}
  {erase' : Nat → Chars → BackendHeap → Except BackendFault BackendHeap}

/-- What is done to a key comes to what the list model says, where the key and the account of the
command lie apart from the store. -/
def Follows (self : Address) (account : Chars) (name : String)
    (erase' : Nat → Chars → BackendHeap → Except BackendFault BackendHeap)
    (step : Nat → String → AccountsSt → Except Fault (AccountsSt × List Callback)) : Prop :=
  ∀ i chars key m c (x : PlacedAccounts) s told, Holds m x → Owns m (footprint x + c) →
    ReadsAs m c account name → ReadsAs m c chars key → x.address = self →
    step i key (erase x) = .ok (s, told) → Ends m x (erase' i chars m) s told

/-- The loop of a walk: the copy is not touched by what is deleted, so that its keys can be
read. -/
theorem eraseLoop_ends (hfollows : Follows self account name erase' step) {iterator : Address}
    {c : Multiset Block} (pre : List Cell) {post : List Cell} {i : Nat} {s : AccountsSt}
    {told : List Callback} (hx : Holds m x)
    (hm : Owns m (footprint x + (spine iterator (pre ++ post) + c)))
    (haccount : ReadsAs m c account name) (hself : x.address = self)
    (hiterator : m.toHeap.Represents iterator (pre ++ post))
    (hspec : walkLoop step (post.map Cell.key) i (erase x) = .ok (s, told)) :
    Ends m x (eraseLoop erase' i post.length (addresses post).head? m) s told := by
  induction post generalizing pre i m x told with
  | nil =>
      cases hspec
      exact Ends.unchanged hx hm.part
  | cons cell post ih =>
      rw [List.map_cons, walkLoop] at hspec
      split at hspec
      · exact absurd hspec (by simp)
      · next s₁ told₁ hstep =>
          split at hspec
          · exact absurd hspec (by simp)
          · next s₂ told₂ hrest =>
              cases hspec
              have hmem := List.mem_append_right pre (List.mem_cons_self (a := cell) (l := post))
              obtain ⟨node, hread, hkey, -⟩ := readNode_eq hiterator hmem
              have hchars : ReadsAs m (spine iterator (pre ++ cell :: post) + c)
                  (.block cell.keyAt) cell.key := by
                refine ⟨fun b hb => Multiset.mem_add.2 (.inl ?_), hiterator.readKey hmem⟩
                rw [Multiset.mem_singleton.1 hb]
                exact text_mem_spine.2 (List.mem_map_of_mem hmem)
              obtain ⟨m₁, x₁, herase, hturns, haddress, rfl⟩ := hfollows i (.block cell.keyAt)
                cell.key m _ x s₁ told₁ hx hm
                (haccount.mono fun b hb => Multiset.mem_add.2 (.inr hb)) hchars hself hstep
              have hsame : ∀ b ∈ spine iterator (pre ++ cell :: post) + c, Block.Same m m₁ b :=
                fun b hb => hturns.toChanges.same_rest hm hb
              have hiterator₁ := represents_congr
                (fun b hb => hsame b (Multiset.mem_add.2 (.inl hb))) hiterator
              have haccount₁ := haccount.congr fun b hb => hsame b (Multiset.mem_add.2 (.inr hb))
              obtain ⟨node₁, hread₁, -, -, hnext₁⟩ := readNode_eq hiterator₁ hmem
              have hpre : pre ++ cell :: post = pre ++ [cell] ++ post := by
                rw [List.append_assoc, List.singleton_append]
              obtain ⟨m₂, x₂, hloop, hturns₂, haddress₂, herase₂⟩ := ih (pre ++ [cell])
                hturns.holds (hpre ▸ (hturns.toDoes.frame hm).after) haccount₁
                (haddress.trans hself) (hpre ▸ hiterator₁) hrest
              refine ⟨m₂, x₂, ?_, hturns.trans hturns₂, haddress₂.trans haddress, herase₂⟩
              have hcurrent : (addresses (cell :: post)).head? = some cell.node := rfl
              rw [List.length_cons, eraseLoop, hcurrent, hread, ok_bind, hkey, herase, ok_bind,
                hread₁, ok_bind, hnext₁, hiterator₁.next_eq]
              exact hloop

/-- `erase_cmd` with its filters, in two blocks. -/
theorem eraseBlocks_does {eraseFilters : Option BurrowFilters} {filters : BurrowFilters}
    (hfilter : Memory.processFilter eraseFilters none = .ok (some filters))
    (hm : Owns m (0 : Multiset Block)) :
    ∃ m₁ m₂, m.mallocScratch = (m.next, m₁) ∧
      processFilter eraseFilters none m₁ = .ok (some (m₁.next, filters), m₂) ∧
      Does m m₂ 0 ({.scratch m₁.next} + {.scratch m.next}) [] := by
  obtain ⟨m₁, hmalloc, hdoes₁, -⟩ := mallocScratch_does hm
  obtain ⟨m₂, hprocess, hdoes₂⟩ := processFilter_does hfilter hdoes₁.after.zero
  exact ⟨m₁, m₂, hmalloc, hprocess,
    (hdoes₁.congr rfl (Multiset.zero_add _).symm).seq_quiet hdoes₂⟩

theorem freeEraseBlocks_does {filtersBlock eraseBlock : Address}
    (hm : Owns m ({.scratch filtersBlock} + {.scratch eraseBlock} : Multiset Block)) :
    ∃ m₁ m₂, m.freeScratch filtersBlock = .ok m₁ ∧ m₁.freeScratch eraseBlock = .ok m₂ ∧
      Does m m₂ ({.scratch filtersBlock} + {.scratch eraseBlock}) 0 [] := by
  obtain ⟨m₁, hfilters, hdoes₁⟩ := freeScratch_does hm.part
  have hrest := (hdoes₁.frame hm).congr rfl (Multiset.zero_add _)
  obtain ⟨m₂, hfree, hdoes₂⟩ := freeScratch_does hrest.after
  exact ⟨m₁, m₂, hfilters, hfree, hrest.trans hdoes₂⟩

/-- **`delete_queues` and `delete_accounts`**, once the list is found. -/
theorem eraseCommand_ends {α β : Type} [Pointed α β] {z : Placed α} {inputs : EraseInputs}
    (hmem : inputs.AllocationsSucceed) {cmd : BackendCommand} {linked : ContainerCommand}
    {c : Multiset Block} (hcmd : linked.Means m c cmd) (hz : Holds m z)
    (hzm : Owns m (footprint z)) (hx : Holds m x) (hm : Owns m (footprint x + c))
    {erase' : ContainerCommand → Nat → Chars → BackendHeap → Except BackendFault BackendHeap}
    {step : BackendCommand → Nat → String → AccountsSt →
      Except Fault (AccountsSt × List Callback)}
    (hfollows : ∀ eraseCmd, Follows x.address linked.account cmd.account
      (erase' (ofUser eraseCmd)) (step eraseCmd)) {o : Outcome}
    (hspec : Memory.eraseCommand inputs cmd (erase z)
      (fun eraseCmd keys => walkLoop (step eraseCmd) keys 0) (erase x) = .ok o) :
    o.result = 0 ∧
      Ends m x (eraseCommand inputs linked (some z.address) erase' m) o.accounts
        o.callbacks := by
  obtain ⟨eraseCmd, heraseCmd⟩ := Option.ne_none_iff_exists'.1 hmem.2.1
  rw [Memory.eraseCommand, heraseCmd] at hspec
  split at hspec
  · exact absurd hspec (by simp)
  · next hfilter =>
      obtain ⟨_, hno⟩ := processFilter_succeeds hmem.1.1 hfilter
      exact absurd hno (by simp)
  · next refFilters hfilter =>
      rw [dictionaryIter_of_succeeds (erase_wellFormed (Placed.Holds.keys hz)) hmem.1.2] at hspec
      obtain ⟨filters, hfilters⟩ : ∃ filters,
          Memory.processFilter inputs.eraseFilters none = .ok (some filters) := by
        obtain ⟨block, hblock⟩ := Option.ne_none_iff_exists'.1 hmem.2.2
        rw [hblock]
        exact ⟨_, rfl⟩
      rw [hfilters] at hspec
      dsimp only at hspec
      split at hspec
      · exact absurd hspec (by simp)
      · next s told hwalk =>
          cases hspec
          refine ⟨rfl, ?_⟩
          obtain ⟨m₁, m₂, copied, hprocess, -, hiter, hopen, hcopied⟩ :=
            openIterator_does hz hzm hfilter hmem.1.2
          obtain ⟨m₃, m₄, hmalloc, hprocess', hblocks⟩ :=
            eraseBlocks_does hfilters hopen.after.zero
          have hmade := (hopen.congr rfl (Multiset.zero_add _).symm).seq_quiet hblocks
          have hm₀ : Owns m (0 + (footprint x + c)) := by rwa [Multiset.zero_add]
          have hsame₄ : ∀ b ∈ footprint x + c, Block.Same m m₄ b :=
            fun b hb => hmade.toChanges.same_rest hm₀ hb
          have hx₄ : Holds m₄ x :=
            Located.congr (fun b hb => hsame₄ b (Multiset.mem_add.2 (.inl hb))) hx
          have haccount₄ :=
            hcmd.account.congr fun b hb => hsame₄ b (Multiset.mem_add.2 (.inr hb))
          have hm₄ : Owns m₄ (footprint x + (spine m₁.next copied + c + ({.scratch m.next} +
              ({.scratch m₃.next} + {.scratch m₂.next})))) := by
            refine (congrArg (Owns m₄) ?_).mp (hmade.frame hm₀).after
            abel
          have hcopied₄ := hcopied.congr fun b hb => hblocks.toChanges.same_rest
            (by rw [Multiset.zero_add]; exact hopen.after) (Multiset.mem_add.2 (.inr hb))
          obtain ⟨dictionary, hdictionary, hlength, hhead⟩ :=
            dataDictionary_eq hcopied₄.represents
          have hkeys : ((Dictionary.ofNodes (window DictionaryNode.key refFilters.marker
              refFilters.limit.toNat (erase z).nodes)).nodes.take (Dictionary.ofNodes
                (window DictionaryNode.key refFilters.marker refFilters.limit.toNat
                  (erase z).nodes)).length).map DictionaryNode.key = copied.map Cell.key := by
            rw [Dictionary.ofNodes, List.take_length, window_erase, keys_erased,
              hcopied.keys_copied]
          rw [hkeys] at hwalk
          obtain ⟨m₅, x', hloop, hturns, haddress, herase⟩ := eraseLoop_ends (hfollows _)
            [] hx₄ (by rw [← Multiset.add_assoc] at hm₄; exact hm₄.part) haccount₄ rfl
            hcopied₄.represents hwalk
          change eraseLoop (erase' { ofUser eraseCmd with filters := some (.live filters) }) 0
            copied.length (addresses copied).head? m₄ = .ok m₅ at hloop
          have hcopied₅ := hcopied₄.congr fun b hb => hturns.toChanges.same_rest hm₄
            (Multiset.mem_add.2 (.inl (Multiset.mem_add.2 (.inl hb))))
          have hrest : Owns m₅ ({.scratch m.next} + spine m₁.next copied +
              ({.scratch m₃.next} + {.scratch m₂.next})) := by
            have hafter := (hturns.toDoes.frame hm₄).after.rest
            have hsplit : spine m₁.next copied + c + ({.scratch m.next} +
                ({.scratch m₃.next} + {.scratch m₂.next})) =
                  {.scratch m.next} + spine m₁.next copied +
                    ({.scratch m₃.next} + {.scratch m₂.next}) + c := by abel
            rw [hsplit] at hafter
            exact hafter.part
          obtain ⟨m₆, m₇, hfree, hiterator, hclose⟩ := closeIterator_does hcopied₅ hrest.part
          have hclosed := (hclose.frame hrest).congr rfl (Multiset.zero_add _)
          obtain ⟨m₈, m₉, hfree', hfree'', hfreed⟩ := freeEraseBlocks_does hclosed.after
          refine ⟨m₉, x', ?_, Turns.during hm.part hmade hturns ((hclosed.trans hfreed).congr
            (Multiset.add_comm ..) rfl), haddress, herase⟩
          rw [eraseCommand, hcmd.filters, hprocess, ok_bind]
          dsimp only
          rw [hiter, ok_bind, heraseCmd]
          dsimp only
          rw [hmalloc]
          dsimp only
          rw [hprocess', ok_bind]
          dsimp only
          rw [hdictionary, ok_bind, hlength, hhead, Int.toNat_natCast]
          rw [hloop, ok_bind, hfree, ok_bind, hiterator, ok_bind, hfree', ok_bind]
          exact hfree''

end Walk

/-! ## The commands on accounts and queues -/

section Commands

variable {m : BackendHeap} {x : PlacedAccounts} {cmd : BackendCommand} {linked : ContainerCommand}
  {c : Multiset Block} {o : Outcome}

/-- What a function does to the queues of the account that a command names, where there is one. -/
theorem withQueues_ends {body : QueuesSt → Except Fault Outcome}
    {body' : Option Address → BackendHeap → Except BackendFault BackendHeap} (hx : Holds m x)
    (hm : Owns m (footprint x + c)) (hcmd : linked.Means m c cmd)
    (hbody : ∀ y : Opened PlacedQueues, y.closed = x → y.node.key = cmd.account →
      body (erase y.node.data) = .ok o → o.result = 0 ∧
        Ends m x (body' (some y.node.data.address) m) o.accounts o.callbacks)
    (hspec : Memory.withQueues cmd (erase x) body = .ok o) :
    o.result = 0 ∧ Ends m x (withQueues x.address linked body' m) o.accounts o.callbacks := by
  rw [Memory.withQueues] at hspec
  rw [withQueues]
  rcases search_cases hx hcmd.account.read with ⟨hget, hget'⟩ | ⟨y, rfl, haccount, hget, hget'⟩
  · rw [hget] at hspec
    cases hspec
    rw [hget']
    exact ⟨rfl, Ends.unchanged hx hm.part⟩
  · rw [hget] at hspec
    obtain ⟨hresult, hends⟩ := hbody y rfl haccount hspec
    have hread : m.nodeData (some y.node.node) = .ok (some y.node.data.address) :=
      nodeData_opened (holds_opened hx).1
    refine ⟨hresult, ?_⟩
    rw [hget', ok_bind]
    dsimp only
    rw [hread, ok_bind]
    exact hends

theorem getQueues_ends {inputs : ListInputs} (hmem : inputs.AllocationsSucceed) (hx : Holds m x)
    (hm : Owns m (footprint x + c)) (hcmd : linked.Means m c cmd)
    (hspec : Memory.burrowBackendMemoryGetQueues inputs cmd (erase x) = .ok o) :
    o.result = 0 ∧
      Ends m x (burrowBackendMemoryGetQueues x.address inputs linked m) o.accounts
        o.callbacks := by
  refine withQueues_ends hx hm hcmd ?_ hspec
  rintro y rfl - hlist
  obtain ⟨haccounts, hresult, m', hrun, hturns⟩ :=
    listCommand_turns hmem hcmd.filters (holds_opened hx).2 (owns_opened hm.part).part hlist
  exact ⟨hresult, m', y.closed, hrun, hturns.lift rfl hx hm.part, rfl, haccounts.symm⟩

theorem getAccounts_ends {inputs : ListInputs} (hmem : inputs.AllocationsSucceed)
    (hx : Holds m x) (hm : Owns m (footprint x)) (hfilters : linked.filters = cmd.filters)
    (hspec : Memory.burrowBackendMemoryGetAccounts inputs cmd (erase x) = .ok o) :
    o.result = 0 ∧
      Ends m x (burrowBackendMemoryGetAccounts x.address inputs linked m) o.accounts
        o.callbacks := by
  obtain ⟨haccounts, hresult, m', hrun, hturns⟩ := listCommand_turns hmem hfilters hx hm hspec
  exact ⟨hresult, m', x, hrun, hturns, rfl, haccounts.symm⟩

theorem deleteQueues_ends {inputs : DeleteQueuesInputs} (hmem : inputs.AllocationsSucceed)
    (hx : Holds m x) (hm : Owns m (footprint x + c)) (hcmd : linked.Means m c cmd)
    (hspec : Memory.burrowBackendMemoryDeleteQueues inputs cmd (erase x) = .ok o) :
    o.result = 0 ∧
      Ends m x (burrowBackendMemoryDeleteQueues x.address inputs linked m) o.accounts
        o.callbacks := by
  refine withQueues_ends hx hm hcmd ?_ hspec
  rintro y rfl - herase
  simp only [deleteQueuesLoop_eq] at herase
  refine eraseCommand_ends hmem.1 hcmd (holds_opened hx).2 (owns_opened hm.part).part hx hm ?_
    herase
  intro eraseCmd i chars key m' c' x' s told hx' hm' haccount hqueue hself hscan
  have hmeans : ContainerCommand.Means m' c'
      { ofUser eraseCmd with attributes := none, account := linked.account, queue := chars }
      { eraseCmd with attributes := none, account := cmd.account, queue := key } :=
    ⟨haccount, hqueue, rfl, rfl⟩
  have hends := scanQueue_turns hx' hm' hmeans (hmem.2 i) hscan
  rw [hself] at hends
  exact hends

theorem deleteAccounts_ends {inputs : DeleteAccountsInputs} (hmem : inputs.AllocationsSucceed)
    (hx : Holds m x) (hm : Owns m (footprint x + c)) (hcmd : linked.Means m c cmd)
    (hspec : Memory.burrowBackendMemoryDeleteAccounts inputs cmd (erase x) = .ok o) :
    o.result = 0 ∧
      Ends m x (burrowBackendMemoryDeleteAccounts x.address inputs linked m) o.accounts
        o.callbacks := by
  rw [Memory.burrowBackendMemoryDeleteAccounts] at hspec
  simp only [deleteAccountsLoop_eq] at hspec
  refine eraseCommand_ends hmem.1 hcmd hx hm.part hx hm ?_ hspec
  rintro eraseCmd i chars key m' c' x' s told hx' hm' - hkey hself hstep
  obtain ⟨o', hdelete, hpair⟩ : ∃ o',
      Memory.burrowBackendMemoryDeleteQueues (inputs.deleteQueues i)
        { eraseCmd with account := key } (erase x') = .ok o' ∧
      (o'.accounts, o'.callbacks) = (s, told) := by
    dsimp only at hstep
    cases hrun : Memory.burrowBackendMemoryDeleteQueues (inputs.deleteQueues i)
        { eraseCmd with account := key } (erase x') with
    | error e =>
        rw [hrun] at hstep
        exact absurd hstep (by simp [Except.map])
    | ok o' =>
        rw [hrun] at hstep
        exact ⟨o', rfl, Except.ok.inj hstep⟩
  have hmeans : ContainerCommand.Means m' c' { ofUser eraseCmd with account := chars }
      { eraseCmd with account := key } :=
    ⟨hkey, readsAs_given m' c' eraseCmd.queue, rfl, rfl⟩
  have hends := (deleteQueues_ends (hmem.2 i) hx' hm' hmeans hdelete).2
  rw [hself] at hends
  cases hpair
  exact hends

end Commands

end Burrow.Memory.Chained
