import Burrow.Memory.Scan

/-!
# Linking a new message into the store

`create_message` links its message into the store together with the account and
the queue when they are new. `linkMessage_spec` says what can come of it for
every outcome of the allocations: the message is put, or the broker stays as it
was, or, exactly when `CreateInputs.Defect` holds, a container is left behind
that has nothing in it.
-/

set_option autoImplicit false

namespace Burrow.Memory

open KeyedList

/-! ## Putting a message -/

/-- The messages of a queue with `m` in the place of the message with its id, or
at the end. -/
def putMessage (m : BurrowMessage) (l : List BurrowMessage) : List BurrowMessage :=
  if m.messageId ∈ l.map BurrowMessage.messageId then
    KeyedList.modify BurrowMessage.messageId m.messageId (fun _ => m) l
  else l ++ [m]

/-- The broker with `m` stored in a queue. -/
def Broker.put (b : Broker) (account queue : String) (m : BurrowMessage) : Broker :=
  b.putRows account queue (putMessage m (b.rows account queue))

/-- The messages behind the queue names of an account. -/
def queueRows (queues : QueuesSt) (queue : String) : List BurrowMessage :=
  ((queues.data? queue).map contents).getD []

theorem view_put {holes : Prop} {s : AccountsSt} (h : StoreOk holes s) (account : String)
    (queues : QueuesSt) :
    view (s.put account queues) =
      { outer := if account ∈ s.keys then s.keys else s.keys ++ [account]
        inner := Function.update (queueNames s) account queues.keys
        rows := Function.update (queueMessages s) account (queueRows queues) } := by
  apply Directory.ext'
  · exact Dictionary.keys_put s account queues
  · intro a
    show queueNames (s.put account queues) a =
      Function.update (queueNames s) account queues.keys a
    by_cases ha : a = account
    · subst ha
      rw [Function.update_self, queueNames_eq (Dictionary.WellFormed.data?_put_self h a queues)]
    · rw [Function.update_of_ne ha, queueNames, Dictionary.WellFormed.data?_put_of_ne h queues ha]
      rfl
  · intro a q
    show queueMessages (s.put account queues) a q =
      Function.update (queueMessages s) account (queueRows queues) a q
    by_cases ha : a = account
    · subst ha
      rw [Function.update_self, queueMessages_eq (Dictionary.WellFormed.data?_put_self h a queues)]
      rfl
    · rw [Function.update_of_ne ha, queueMessages,
        Dictionary.WellFormed.data?_put_of_ne h queues ha]
      rfl

/-! ## When a container is left empty -/

/-- The allocations for linking a message succeed. -/
def CreateInputs.LinksSucceed (inputs : CreateInputs) : Prop :=
  inputs.account.Succeeds ∧ inputs.queue.Succeeds ∧ inputs.node.Succeeds

/-- Linking a message leaves a container behind that has nothing in it. In each
case a node was linked already when a later allocation failed. -/
inductive CreateInputs.Defect (inputs : CreateInputs) (s : AccountsSt) (cmd : BackendCommand) : Prop
  /-- the node of a new account, but not its list of queues -/
  | account (new : cmd.account ∉ s.keys) (add : inputs.account.add.Succeeds)
      (init : inputs.account.init = false)
  /-- the node of a new queue, but not its list of messages -/
  | queue (account : cmd.account ∈ s.keys ∨ inputs.account.Succeeds)
      (new : cmd.queue ∉ queueNames s cmd.account) (add : inputs.queue.add.Succeeds)
      (init : inputs.queue.init = false)
  /-- a new account and a new queue, but not the node of the message -/
  | message (new : cmd.account ∉ s.keys) (account : inputs.account.Succeeds)
      (queue : inputs.queue.Succeeds) (add : ¬ inputs.node.Succeeds)

theorem CreateInputs.Defect.not_linksSucceed {inputs : CreateInputs} {s : AccountsSt}
    {cmd : BackendCommand} (h : inputs.Defect s cmd) : ¬ inputs.LinksSucceed := by
  rintro ⟨haccount, hqueue, hnode⟩
  cases h with
  | account _ _ init => exact absurd haccount.2 (by simp [init])
  | queue _ _ _ init => exact absurd hqueue.2 (by simp [init])
  | message _ _ _ add => exact add hnode

/-- What linking a message can come to. -/
inductive Linked (holes : Prop) (inputs : CreateInputs) (s : AccountsSt) (cmd : BackendCommand)
    (m : BurrowMessage) (s' : AccountsSt) : Prop
  | stored (defect : ¬ inputs.Defect s cmd) (ok : StoreOk holes s')
      (view_eq : view s' = (view s).put cmd.account cmd.queue m)
  | kept (defect : ¬ inputs.Defect s cmd) (fails : ¬ inputs.LinksSucceed) (ok : StoreOk holes s')
      (rows_eq : queueMessages s' = queueMessages s) (view_eq : ¬ holes → view s' = view s)
  | hole (defect : inputs.Defect s cmd) (ok : StoreOk True s') (not_ok : ¬ StoreOk False s')
      (rows_eq : queueMessages s' = queueMessages s)

/-! ## Writing an account -/

section Account

variable {holes : Prop} {s : AccountsSt} (h : StoreOk holes s)
include h

theorem storeOk_put {account : String} {queues : QueuesSt}
    (hq : queues.WellFormed (QueueNodeOk holes)) (hne : queues.nodes = [] → holes) :
    StoreOk holes (s.put account queues) :=
  Dictionary.WellFormed.put h (Or.inr ⟨queues, rfl, hq, hne⟩)

theorem queueMessages_put {account : String} {queues : QueuesSt}
    (hrows : queueRows queues = queueMessages s account) :
    queueMessages (s.put account queues) = queueMessages s := by
  have hview := congrArg Directory.rows (view_put h account queues)
  rw [hrows, Function.update_eq_self] at hview
  exact hview

/-- Writing back what an account holds changes nothing. -/
theorem view_put_self {account : String} {queues : QueuesSt}
    (ha : s.data? account = some queues) : view (s.put account queues) = view s := by
  have hmem := (Dictionary.WellFormed.data?_eq_some h ha).1
  rw [view_put h, if_pos hmem, ← queueNames_eq ha, Function.update_eq_self,
    show queueRows queues = queueMessages s account from
      funext fun q => (queueMessages_eq ha q).symm, Function.update_eq_self]
  rfl

end Account

/-- A store with an account that has no list of queues, or an empty one, or one
with a queue that has no list of messages. -/
theorem not_storeOk_of_data? {s : AccountsSt} {account : String} (hmem : account ∈ s.keys)
    (hdata : ∀ queues, s.data? account = some queues →
      queues.nodes = [] ∨ ∃ q ∈ queues.keys, queues.data? q = none) :
    ¬ StoreOk False s := by
  intro h
  rcases Dictionary.WellFormed.exists_of_mem_keys h hmem with ⟨-, hf⟩ | ⟨queues, ha, hwf, hne⟩
  · exact hf
  · rcases hdata queues ha with hnil | ⟨q, hq, hnone⟩
    · exact hne hnil
    · rcases hwf.exists_of_mem_keys hq with ⟨-, hf⟩ | ⟨messages, hsome, -⟩
      · exact hf
      · rw [hnone] at hsome
        exact absurd hsome (by simp)

/-! ## The stages of linking -/

theorem nodup_putMessage {l : List BurrowMessage} (h : (l.map BurrowMessage.messageId).Nodup)
    (m : BurrowMessage) : ((putMessage m l).map BurrowMessage.messageId).Nodup := by
  unfold putMessage
  split
  · rw [map_modify _ fun _ _ => rfl]
    exact h
  · next hno =>
      rw [List.map_append, List.map_singleton, List.nodup_append]
      refine ⟨h, List.nodup_singleton _, ?_⟩
      intro a ha b hb heq
      rw [List.mem_singleton] at hb
      rw [heq, hb] at ha
      exact hno ha

theorem putMessage_ne_nil (m : BurrowMessage) (l : List BurrowMessage) : putMessage m l ≠ [] := by
  unfold putMessage
  split
  · next hmem =>
      intro hnil
      have hlen := congrArg List.length hnil
      rw [length_modify] at hlen
      rw [List.length_eq_zero_iff.1 hlen] at hmem
      exact absurd hmem List.not_mem_nil
  · exact List.append_ne_nil_of_right_ne_nil _ (List.cons_ne_nil _ _)

theorem setData_eq_putMessage {messages : MessagesSt} (hwf : messages.WellFormed MessageNodeOk)
    {m : BurrowMessage} {n : DictionaryNode BurrowMessage}
    (hget : dictionaryGet (some messages) (some m.messageId) = some n) :
    messages.setData n.key (some m) = ofMessages (putMessage m (contents messages)) := by
  obtain ⟨hmem, hkey, -⟩ := hwf.of_get hget
  have hids : m.messageId ∈ (contents messages).map BurrowMessage.messageId := by
    rw [← map_key_messageNode, ← hkey]
    rw [eq_ofMessages hwf] at hmem
    exact List.mem_map_of_mem hmem
  rw [hkey, putMessage, if_pos hids]
  conv_lhs => rw [eq_ofMessages hwf]
  exact setData_ofMessages _ m

theorem snoc_eq_putMessage {messages : MessagesSt} (hwf : messages.WellFormed MessageNodeOk)
    {m : BurrowMessage} (hget : dictionaryGet (some messages) (some m.messageId) = none) :
    messages.snoc m.messageId (some m) = ofMessages (putMessage m (contents messages)) := by
  have hids : m.messageId ∉ (contents messages).map BurrowMessage.messageId := by
    rw [← map_key_messageNode]
    have hno := (hwf.get_eq_none_iff m.messageId).1 hget
    rw [eq_ofMessages hwf] at hno
    exact hno
  rw [putMessage, if_neg hids]
  conv_lhs => rw [eq_ofMessages hwf]
  rw [ofMessages, ofMessages, List.map_append, List.map_singleton, Dictionary.ofNodes,
    Dictionary.ofNodes, Dictionary.snoc, List.length_append, List.length_singleton]
  rfl

/-- The account of a message after the first `dictionary_get(.., CREATE)`: `s₁` is
the store with its node, `queues` the list of queues behind it. -/
structure Entry (holes : Prop) (inputs : CreateInputs) (s s₁ : AccountsSt) (account : String)
    (queues : QueuesSt) : Prop where
  set_eq : ∀ x, s₁.setData account (some x) = s.put account x
  ok : queues.WellFormed (QueueNodeOk holes)
  names_eq : queueNames s account = queues.keys
  rows_eq : queueMessages s account = queueRows queues
  found_or_new : s.data? account = some queues ∧ (queues.nodes = [] → holes) ∨
    account ∉ s.keys ∧ inputs.account.Succeeds ∧ queues = Dictionary.ofNodes []

section Link

variable {holes : Prop} {inputs : CreateInputs} {s s₁ : AccountsSt} {cmd : BackendCommand}
  {m : BurrowMessage} {queues : QueuesSt}

theorem entry_found (h : StoreOk holes s) {account : String}
    (ha : s.data? account = some queues) : Entry holes inputs s s account queues := by
  obtain ⟨hmem, hnode⟩ := Dictionary.WellFormed.data?_eq_some h ha
  rcases hnode with ⟨hnone, -⟩ | ⟨_, hdata, hwf, hne⟩
  · exact absurd hnone (by simp)
  · cases hdata
    exact
      { set_eq := fun x => by rw [Dictionary.put, if_pos hmem]
        ok := hwf
        names_eq := queueNames_eq ha
        rows_eq := funext fun q => queueMessages_eq ha q
        found_or_new := Or.inl ⟨ha, hne⟩ }

theorem entry_new (h : StoreOk holes s) {account : String} (hnew : account ∉ s.keys)
    (hmem : inputs.account.Succeeds) :
    Entry holes inputs s (s.snoc account (some (Dictionary.ofNodes []))) account
      (Dictionary.ofNodes []) := by
  have ha := Dictionary.WellFormed.data?_eq_none_of_not_mem h hnew
  exact
    { set_eq := fun x => by rw [Dictionary.put, if_neg hnew, Dictionary.setData_snoc _ _ hnew]
      ok := wellFormed_empty _
      names_eq := by rw [queueNames, ha]; rfl
      rows_eq := by
        funext q
        rw [queueMessages, ha]
        rfl
      found_or_new := Or.inr ⟨hnew, hmem, rfl⟩ }

/-- The message is put into its queue, which may be new. -/
theorem Entry.stored (h : StoreOk holes s) (e : Entry holes inputs s s₁ cmd.account queues)
    (hdefect : ¬ inputs.Defect s cmd) :
    Linked holes inputs s cmd m (s.put cmd.account (queues.put cmd.queue
      (ofMessages (putMessage m (queueMessages s cmd.account cmd.queue))))) := by
  have hwf := wellFormed_ofMessages
    (nodup_putMessage (nodup_queueMessages h cmd.account cmd.queue) m)
  have hne := mt (nodes_ofMessages_eq_nil_iff _).1
    (putMessage_ne_nil m (queueMessages s cmd.account cmd.queue))
  -- the queue has the message now, and so neither it nor its account is empty
  refine Linked.stored hdefect (storeOk_put h (e.ok.put (Or.inr ⟨_, rfl, hwf, hne⟩)) ?_) ?_
  · intro hnil
    rw [← Dictionary.keys_eq_nil_iff, Dictionary.keys_put] at hnil
    split at hnil
    · next hmem => exact absurd hnil (List.ne_nil_of_mem hmem)
    · exact absurd hnil (by simp)
  · have hrows : queueRows (queues.put cmd.queue
        (ofMessages (putMessage m (queueMessages s cmd.account cmd.queue)))) =
          Function.update (queueMessages s cmd.account) cmd.queue
            (putMessage m (queueMessages s cmd.account cmd.queue)) := by
      funext q
      by_cases hq : q = cmd.queue
      · subst hq
        rw [Function.update_self, queueRows, e.ok.data?_put_self, Option.map_some, Option.getD_some,
          contents_ofMessages]
      · rw [Function.update_of_ne hq, queueRows, e.ok.data?_put_of_ne _ hq, e.rows_eq]
        rfl
    rw [view_put h, hrows, Dictionary.keys_put, ← e.names_eq]
    rfl

/-- The account is written back with the queues it had. -/
theorem Entry.kept (h : StoreOk holes s) (e : Entry holes inputs s s₁ cmd.account queues)
    (hfails : ¬ inputs.LinksSucceed) (hdefect : ¬ inputs.Defect s cmd)
    (hfound : s.data? cmd.account = some queues ∧ (queues.nodes = [] → holes)) :
    Linked holes inputs s cmd m (s.put cmd.account queues) :=
  Linked.kept hdefect hfails (storeOk_put h e.ok hfound.2) (queueMessages_put h e.rows_eq.symm)
    fun _ => view_put_self h hfound.1

/-- Unlinking the account again, where it has no queues. -/
theorem Entry.unlinked (h : StoreOk holes s) (e : Entry holes inputs s s₁ cmd.account queues)
    (hfails : ¬ inputs.LinksSucceed) (hdefect : ¬ inputs.Defect s cmd)
    (hnil : queues.nodes = []) :
    Linked holes inputs s cmd m (dictionaryDeleteNode (s.put cmd.account queues) cmd.account) := by
  rcases e.found_or_new with ⟨ha, hne⟩ | ⟨hnew, -, -⟩
  · have hmem := (Dictionary.WellFormed.data?_eq_some h ha).1
    have hrows : queueMessages s cmd.account = fun _ => [] := by
      rw [e.rows_eq]
      funext q
      rw [queueRows, Dictionary.data?_of_nodes_eq_nil hnil]
      rfl
    rw [Dictionary.put, if_pos hmem, Dictionary.WellFormed.deleteNode_setData h]
    refine Linked.kept hdefect hfails (Dictionary.WellFormed.deleteNode h _) ?_
      fun hholes => absurd (hne hnil) hholes
    funext a q
    by_cases hacc : a = cmd.account
    · subst hacc
      rw [hrows, queueMessages, Dictionary.WellFormed.data?_deleteNode_self h]
      rfl
    · rw [queueMessages, Dictionary.WellFormed.data?_deleteNode_of_ne h hacc]
      rfl
  · rw [Dictionary.put, if_neg hnew, Dictionary.WellFormed.deleteNode_snoc h _ hnew]
    exact Linked.kept hdefect hfails h rfl fun _ => rfl

theorem mem_keys_put (account : String) (queues : QueuesSt) :
    account ∈ (s.put account queues).keys := by
  rw [Dictionary.keys_put]
  split
  · next hmem => exact hmem
  · exact List.mem_append_right _ List.mem_cons_self

/-- The node of a new queue is left without a list of messages. -/
theorem Entry.queueHole (h : StoreOk holes s) (e : Entry holes inputs s s₁ cmd.account queues)
    (hnew : cmd.queue ∉ queues.keys) (hadd : inputs.queue.add.Succeeds)
    (hinit : inputs.queue.init = false) :
    Linked holes inputs s cmd m (s.put cmd.account (queues.snoc cmd.queue none)) := by
  -- the node of the queue was made, but its list was not: a hole
  have haccount : cmd.account ∈ s.keys ∨ inputs.account.Succeeds := by
    rcases e.found_or_new with ⟨ha, -⟩ | ⟨-, hsucceeds, -⟩
    · exact Or.inl (Dictionary.WellFormed.data?_eq_some h ha).1
    · exact Or.inr hsucceeds
  have hrows : queueRows (queues.snoc cmd.queue none) = queueMessages s cmd.account := by
    rw [e.rows_eq]
    funext q
    by_cases hq : q = cmd.queue
    · subst hq
      rw [queueRows, e.ok.data?_snoc_self _ hnew, queueRows, e.ok.data?_eq_none_of_not_mem hnew]
    · rw [queueRows, e.ok.data?_snoc_of_ne _ hnew hq]
      rfl
  refine Linked.hole (.queue haccount (e.names_eq ▸ hnew) hadd hinit) ?_ ?_
    (queueMessages_put h hrows)
  · exact storeOk_put (h.mono fun _ => trivial)
      ((e.ok.mono fun _ _ hn => hn.mono fun _ => trivial).snoc hnew (Or.inl ⟨rfl, trivial⟩))
      fun _ => trivial
  · refine not_storeOk_of_data? (mem_keys_put cmd.account _) fun queues' hdata => Or.inr ?_
    rw [Dictionary.WellFormed.data?_put_self h, Option.some.injEq] at hdata
    subst hdata
    refine ⟨cmd.queue, ?_, e.ok.data?_snoc_self _ hnew⟩
    rw [Dictionary.keys_snoc]
    exact List.mem_append_right _ List.mem_cons_self

/-- A new account is left without queues. -/
theorem linked_accountEmpty (h : StoreOk holes s) (hnew : cmd.account ∉ s.keys)
    (haccount : inputs.account.Succeeds) (hqueue : inputs.queue.Succeeds)
    (hnode : ¬ inputs.node.Succeeds) :
    Linked holes inputs s cmd m (s.put cmd.account (Dictionary.ofNodes [])) := by
  have hrows : queueRows (Dictionary.ofNodes []) = queueMessages s cmd.account := by
    funext q
    rw [queueMessages, Dictionary.WellFormed.data?_eq_none_of_not_mem h hnew]
    rfl
  refine Linked.hole (.message hnew haccount hqueue hnode) ?_ ?_ (queueMessages_put h hrows)
  · exact storeOk_put (h.mono fun _ => trivial) (wellFormed_empty _) fun _ => trivial
  · refine not_storeOk_of_data? (mem_keys_put cmd.account _) fun queues' hdata => Or.inl ?_
    rw [Dictionary.WellFormed.data?_put_self h, Option.some.injEq] at hdata
    subst hdata
    rfl

/-- A new account is left without a list of queues. -/
theorem linked_accountHole (h : StoreOk holes s) (hnew : cmd.account ∉ s.keys)
    (hadd : inputs.account.add.Succeeds) (hinit : inputs.account.init = false) :
    Linked holes inputs s cmd m (s.snoc cmd.account none) := by
  have hdata : (s.snoc cmd.account none).data? cmd.account = none :=
    Dictionary.WellFormed.data?_snoc_self h none hnew
  refine Linked.hole (.account hnew hadd hinit) ?_ ?_ ?_
  · exact Dictionary.WellFormed.snoc (h.mono fun _ => trivial) hnew (Or.inl ⟨rfl, trivial⟩)
  · refine not_storeOk_of_data? (?_ : cmd.account ∈ _) fun queues' hsome => ?_
    · rw [Dictionary.keys_snoc]
      exact List.mem_append_right _ List.mem_cons_self
    · rw [hdata] at hsome
      exact absurd hsome (by simp)
  · funext a q
    by_cases ha : a = cmd.account
    · subst ha
      rw [queueMessages, hdata, queueMessages,
        Dictionary.WellFormed.data?_eq_none_of_not_mem h hnew]
    · rw [queueMessages, Dictionary.WellFormed.data?_snoc_of_ne h _ hnew ha]
      rfl

/-- Behind the account only the queue and the message can leave a hole. -/
theorem Entry.not_defect (h : StoreOk holes s) (e : Entry holes inputs s s₁ cmd.account queues)
    (hqueue : cmd.queue ∉ queues.keys → inputs.queue.add.Succeeds → inputs.queue.init = true)
    (hnode : cmd.account ∉ s.keys → inputs.queue.Succeeds → inputs.node.Succeeds) :
    ¬ inputs.Defect s cmd := by
  intro hdefect
  cases hdefect with
  | account new add init =>
      rcases e.found_or_new with ⟨ha, -⟩ | ⟨-, hsucceeds, -⟩
      · exact new (Dictionary.WellFormed.data?_eq_some h ha).1
      · exact absurd hsucceeds.2 (by simp [init])
  | queue _ new add init =>
      rw [e.names_eq] at new
      exact absurd (hqueue new add) (by simp [init])
  | message new _ queue add => exact add (hnode new queue)

/-- The message goes into a queue that is there. -/
theorem Entry.linkQueue_found (h : StoreOk holes s)
    (e : Entry holes inputs s s₁ cmd.account queues) (hmem : cmd.queue ∈ queues.keys)
    (hget : dictionaryGetCreate inputs.queue (some queues) cmd.queue =
      (some queues, some { key := cmd.queue, data := queues.data? cmd.queue })) :
    linkQueue inputs cmd m (some queues) s₁ = .error .nullDereference ∧ holes ∨
      ∃ s', linkQueue inputs cmd m (some queues) s₁ = .ok ⟨s', [], 0⟩ ∧
        Linked holes inputs s cmd m s' := by
  unfold linkQueue
  rw [hget]
  rcases e.ok.exists_of_mem_keys hmem with ⟨hnone, hholes⟩ | ⟨messages, hdata, hwf, hne⟩
  -- a queue without a list is dereferenced by the next lookup
  · refine Or.inl ⟨?_, hholes⟩
    rw [show queues.data? cmd.queue = none from hnone]
  · rw [show queues.data? cmd.queue = some messages from hdata]
    simp only [e.set_eq, Dictionary.setData_put]
    refine Or.inr ?_
    have hput : ∀ x, queues.setData cmd.queue (some x) = queues.put cmd.queue x :=
      fun x => by rw [Dictionary.put, if_pos hmem]
    have hrows : contents messages = queueMessages s cmd.account cmd.queue := by
      rw [e.rows_eq, queueRows, show queues.data? cmd.queue = some messages from hdata]
      rfl
    have hfound : s.data? cmd.account = some queues ∧ (queues.nodes = [] → holes) := by
      rcases e.found_or_new with hfound | ⟨-, -, rfl⟩
      · exact hfound
      · exact absurd hmem List.not_mem_nil
    have hdefect := e.not_defect h (fun hnew => absurd hmem hnew)
      (fun hnew => absurd (Dictionary.WellFormed.data?_eq_some h hfound.1).1 hnew)
    cases hmessage : dictionaryGet (some messages) (some m.messageId) with
    | some n =>
        refine ⟨_, rfl, ?_⟩
        rw [hput, setData_eq_putMessage hwf hmessage, hrows]
        exact e.stored h hdefect
    | none =>
        simp only [dictionaryAdd_some]
        by_cases hnode : inputs.node.Succeeds
        · rw [if_pos hnode]
          refine ⟨_, rfl, ?_⟩
          rw [hput, snoc_eq_putMessage hwf hmessage, hrows]
          exact e.stored h hdefect
        -- the queue had messages before, so the failed addition leaves it there
        · rw [if_neg hnode, if_neg (mt hwf.length_eq_zero_iff.1 hne)]
          exact ⟨_, rfl, e.kept h (fun hs => hnode hs.2.2) hdefect hfound⟩

/-- The message goes into a queue that was added for it. -/
theorem Entry.linkQueue_new (h : StoreOk holes s)
    (e : Entry holes inputs s s₁ cmd.account queues) (hnew : cmd.queue ∉ queues.keys)
    (hsucceeds : inputs.queue.Succeeds)
    (hget : dictionaryGetCreate inputs.queue (some queues) cmd.queue =
      (some (queues.snoc cmd.queue (some (Dictionary.ofNodes []))),
        some { key := cmd.queue, data := some (Dictionary.ofNodes []) })) :
    ∃ s', linkQueue inputs cmd m (some queues) s₁ = .ok ⟨s', [], 0⟩ ∧
      Linked holes inputs s cmd m s' := by
  unfold linkQueue
  rw [hget]
  simp only [e.set_eq, Dictionary.setData_put]
  have hput : ∀ x, (queues.snoc cmd.queue (some (Dictionary.ofNodes []))).setData cmd.queue
      (some x) = queues.put cmd.queue x :=
    fun x => by rw [Dictionary.put, if_neg hnew, Dictionary.setData_snoc _ _ hnew]
  have hempty := wellFormed_empty MessageNodeOk
  have hrows : contents (Dictionary.ofNodes []) = queueMessages s cmd.account cmd.queue := by
    rw [e.rows_eq, queueRows, e.ok.data?_eq_none_of_not_mem hnew]
    rfl
  have hmessage : dictionaryGet (some (Dictionary.ofNodes [] : MessagesSt))
      (some m.messageId) = none := rfl
  rw [hmessage]
  simp only [dictionaryAdd_some]
  by_cases hnode : inputs.node.Succeeds
  · rw [if_pos hnode]
    refine ⟨_, rfl, ?_⟩
    rw [hput, snoc_eq_putMessage hempty hmessage, hrows]
    exact e.stored h (e.not_defect h (fun _ _ => hsucceeds.2) (fun _ _ => hnode))
  · rw [if_neg hnode, if_pos (show (Dictionary.ofNodes [] : MessagesSt).length = 0 from rfl),
      e.ok.deleteNode_snoc _ hnew]
    refine ⟨_, rfl, ?_⟩
    rcases e.found_or_new with hfound | ⟨hnew', haccount, rfl⟩
    · exact e.kept h (fun hs => hnode hs.2.2)
        (e.not_defect h (fun _ _ => hsucceeds.2)
          (fun hno => absurd (Dictionary.WellFormed.data?_eq_some h hfound.1).1 hno)) hfound
    · exact linked_accountEmpty h hnew' haccount hsucceeds hnode

/-- **The queue and the message**: `linkQueue` on an account with a list of
queues runs into a queue without a list of messages, or links the message as far
as the allocations allow. -/
theorem Entry.linkQueue_spec (h : StoreOk holes s)
    (e : Entry holes inputs s s₁ cmd.account queues) :
    linkQueue inputs cmd m (some queues) s₁ = .error .nullDereference ∧ holes ∨
      ∃ s', linkQueue inputs cmd m (some queues) s₁ = .ok ⟨s', [], 0⟩ ∧
        Linked holes inputs s cmd m s' := by
  rcases dictionaryGetCreate_cases e.ok inputs.queue cmd.queue with
    ⟨hmem, hget⟩ | ⟨hnew, hadd, hget⟩ | ⟨hnew, hadd, hinit, hget⟩ | ⟨hnew, hsucceeds, hget⟩
  -- the queue is there, no node for it could be made, its list could not be made, or it
  -- is new
  · exact e.linkQueue_found h hmem hget
  · unfold linkQueue
    rw [hget]
    simp only [e.set_eq]
    refine Or.inr ?_
    have hfails : ¬ inputs.LinksSucceed := fun hs => hadd hs.2.1.1
    have hdefect := e.not_defect h (fun _ hadd' => absurd hadd' hadd)
      (fun _ hq => absurd hq.1 hadd)
    by_cases hnil : queues.nodes = []
    · rw [if_pos (e.ok.length_eq_zero_iff.2 hnil)]
      exact ⟨_, rfl, e.unlinked h hfails hdefect hnil⟩
    · rw [if_neg (mt e.ok.length_eq_zero_iff.1 hnil)]
      refine ⟨_, rfl, ?_⟩
      rcases e.found_or_new with hfound | ⟨-, -, rfl⟩
      · exact e.kept h hfails hdefect hfound
      · exact absurd rfl hnil
  · unfold linkQueue
    rw [hget]
    simp only [e.set_eq]
    have hlen : (queues.snoc cmd.queue none).length ≠ 0 := Nat.succ_ne_zero _
    rw [if_neg hlen]
    exact Or.inr ⟨_, rfl, e.queueHole h hnew hadd hinit⟩
  · exact Or.inr (e.linkQueue_new h hnew hsucceeds hget)

end Link

/-- **Linking a message**, for every outcome of the allocations. -/
theorem linkMessage_spec {holes : Prop} {s : AccountsSt} (h : StoreOk holes s)
    (inputs : CreateInputs) (cmd : BackendCommand) (m : BurrowMessage) :
    linkMessage inputs cmd m s = .error .nullDereference ∧ holes ∨
      ∃ s', linkMessage inputs cmd m s = .ok ⟨s', [], 0⟩ ∧ Linked holes inputs s cmd m s' := by
  unfold linkMessage
  rcases dictionaryGetCreate_cases h inputs.account cmd.account with
    ⟨hmem, hget⟩ | ⟨hnew, hadd, hget⟩ | ⟨hnew, hadd, hinit, hget⟩ | ⟨hnew, hsucceeds, hget⟩
  · rw [hget]
    rcases Dictionary.WellFormed.exists_of_mem_keys h hmem with
      ⟨hnone, hholes⟩ | ⟨queues, hdata, -⟩
    · refine Or.inl ⟨?_, hholes⟩
      rw [show s.data? cmd.account = none from hnone]
      rfl
    · rw [show s.data? cmd.account = some queues from hdata]
      exact (entry_found h hdata).linkQueue_spec h
  · rw [hget]
    refine Or.inr ⟨s, rfl, Linked.kept ?_ (fun hs => hadd hs.1.1) h rfl fun _ => rfl⟩
    intro hdefect
    cases hdefect with
    | account _ add _ => exact hadd add
    | queue account _ _ _ => exact account.elim hnew fun hs => hadd hs.1
    | message _ account _ _ => exact hadd account.1
  · rw [hget]
    exact Or.inr ⟨_, rfl, linked_accountHole h hnew hadd hinit⟩
  · rw [hget]
    exact (entry_new h hnew hsucceeds).linkQueue_spec h

end Burrow.Memory
