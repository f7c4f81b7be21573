import Burrow.Lib.Directory
import Burrow.Memory.Backend

/-!
# The invariant of the store, and the broker it represents

`StoreOk` is the invariant every command keeps: at each of the three levels the
length field counts the nodes and no key occurs twice, a message lies under its
own id, and no container is empty. With `holes` it also admits what a failed
allocation in `create_message` can leave behind: container nodes whose data
pointer is `NULL` and accounts without queues.

`view` forgets the dictionaries: the names of the accounts, the names of the
queues of an account, and the messages of a queue, all in list order. The two
ways in which commands write a store, through `deleteIfEmpty` and through a
message pointer, are `Directory.setRows` on the view.
-/

set_option autoImplicit false

namespace Burrow.Memory

open KeyedList

/-! ## The invariant -/

/-- A message node points to a message with the node's key as its id. -/
def MessageNodeOk (n : DictionaryNode BurrowMessage) : Prop :=
  ∃ m, n.data = some m ∧ m.messageId = n.key

/-- A queue node points to a well-formed list of messages that is not empty. -/
def QueueNodeOk (holes : Prop) (n : DictionaryNode MessagesSt) : Prop :=
  n.data = none ∧ holes ∨
    ∃ messages, n.data = some messages ∧ messages.WellFormed MessageNodeOk ∧ messages.nodes ≠ []

/-- An account node points to a well-formed list of queues that is not empty. -/
def AccountNodeOk (holes : Prop) (n : DictionaryNode QueuesSt) : Prop :=
  n.data = none ∧ holes ∨
    ∃ queues, n.data = some queues ∧ queues.WellFormed (QueueNodeOk holes) ∧
      (queues.nodes = [] → holes)

/-- The invariant of the store. -/
def StoreOk (holes : Prop) (s : AccountsSt) : Prop := s.WellFormed (AccountNodeOk holes)

theorem QueueNodeOk.mono {holes holes' : Prop} (himp : holes → holes')
    {n : DictionaryNode MessagesSt} (h : QueueNodeOk holes n) : QueueNodeOk holes' n := by
  rcases h with ⟨hnone, hholes⟩ | h
  · exact Or.inl ⟨hnone, himp hholes⟩
  · exact Or.inr h

theorem StoreOk.mono {holes holes' : Prop} (himp : holes → holes') {s : AccountsSt}
    (h : StoreOk holes s) : StoreOk holes' s := by
  refine Dictionary.WellFormed.mono h fun n _ hn => ?_
  rcases hn with ⟨hnone, hholes⟩ | ⟨queues, hdata, hwf, hne⟩
  · exact Or.inl ⟨hnone, himp hholes⟩
  · exact Or.inr ⟨queues, hdata, hwf.mono fun q _ hq => hq.mono himp, fun h => himp (hne h)⟩

/-! ## Lists of messages -/

/-- The node of a stored message. -/
def messageNode (m : BurrowMessage) : DictionaryNode BurrowMessage :=
  { key := m.messageId, data := some m }

/-- The dictionary that holds these messages. -/
def ofMessages (l : List BurrowMessage) : MessagesSt := Dictionary.ofNodes (l.map messageNode)

/-- The messages in list order. -/
def contents (messages : MessagesSt) : List BurrowMessage :=
  messages.nodes.filterMap DictionaryNode.data

@[simp] theorem key_messageNode (m : BurrowMessage) : (messageNode m).key = m.messageId := rfl

@[simp] theorem data_messageNode (m : BurrowMessage) : (messageNode m).data = some m := rfl

@[simp] theorem contents_ofMessages (l : List BurrowMessage) : contents (ofMessages l) = l := by
  show (l.map messageNode).filterMap DictionaryNode.data = l
  rw [List.filterMap_map, show DictionaryNode.data ∘ messageNode = some from rfl,
    List.filterMap_some]

theorem map_key_messageNode (l : List BurrowMessage) :
    (l.map messageNode).map DictionaryNode.key = l.map BurrowMessage.messageId := by
  rw [List.map_map]
  rfl

theorem nodes_ofMessages_eq_nil_iff (l : List BurrowMessage) :
    (ofMessages l).nodes = [] ↔ l = [] :=
  List.map_eq_nil_iff

theorem wellFormed_ofMessages {l : List BurrowMessage}
    (h : (l.map BurrowMessage.messageId).Nodup) : (ofMessages l).WellFormed MessageNodeOk where
  length_eq := rfl
  nodup := by
    show ((l.map messageNode).map _).Nodup
    rw [map_key_messageNode]
    exact h
  all := by
    intro n hn
    obtain ⟨m, -, rfl⟩ := List.mem_map.1 hn
    exact ⟨m, rfl, rfl⟩

/-- A well-formed list of messages is given by its messages. -/
theorem eq_ofMessages {messages : MessagesSt} (h : messages.WellFormed MessageNodeOk) :
    messages = ofMessages (contents messages) := by
  have hnodes : ∀ nodes : List (DictionaryNode BurrowMessage), (∀ n ∈ nodes, MessageNodeOk n) →
      (nodes.filterMap DictionaryNode.data).map messageNode = nodes := by
    intro nodes hall
    induction nodes with
    | nil => rfl
    | cons n rest ih =>
        obtain ⟨m, hdata, hkey⟩ := hall n List.mem_cons_self
        rw [List.filterMap_cons_some hdata, List.map_cons,
          ih fun n' hn' => hall n' (List.mem_cons_of_mem _ hn')]
        cases n with
        | mk key data =>
            simp only at hdata hkey
            rw [messageNode, hkey, ← hdata]
  rw [ofMessages, contents, hnodes _ h.all]
  exact h.eq_ofNodes

theorem nodup_contents {messages : MessagesSt} (h : messages.WellFormed MessageNodeOk) :
    ((contents messages).map BurrowMessage.messageId).Nodup := by
  rw [← map_key_messageNode]
  have hnodup := h.nodup
  rw [eq_ofMessages h] at hnodup
  exact hnodup

theorem contents_ne_nil {messages : MessagesSt} (h : messages.WellFormed MessageNodeOk)
    (hne : messages.nodes ≠ []) : contents messages ≠ [] := by
  rw [eq_ofMessages h, Ne, nodes_ofMessages_eq_nil_iff] at hne
  exact hne

theorem window_ofMessages (marker : Option String) (limit : Nat) (l : List BurrowMessage) :
    window DictionaryNode.key marker limit (ofMessages l).nodes =
      (window BurrowMessage.messageId marker limit l).map messageNode :=
  window_map DictionaryNode.key messageNode marker limit l

section OfMessages

variable {l : List BurrowMessage} (h : (l.map BurrowMessage.messageId).Nodup)
include h

theorem dictionaryGet_ofMessages (id : String) :
    dictionaryGet (some (ofMessages l)) (some id) =
      (l.find? (hasKey BurrowMessage.messageId id)).map messageNode := by
  rw [(wellFormed_ofMessages h).get_eq]
  show (l.map messageNode).find? _ = _
  rw [List.find?_map]
  rfl

theorem deleteNode_ofMessages (id : String) :
    dictionaryDeleteNode (ofMessages l) id =
      ofMessages (l.eraseP (hasKey BurrowMessage.messageId id)) := by
  have hwf := wellFormed_ofMessages h
  rw [(hwf.deleteNode id).eq_ofNodes, hwf.deleteNode_nodes]
  show Dictionary.ofNodes ((l.map messageNode).eraseP _) = _
  rw [List.eraseP_map]
  rfl

end OfMessages

theorem setData_ofMessages (l : List BurrowMessage) (m : BurrowMessage) :
    (ofMessages l).setData m.messageId (some m) =
      ofMessages (modify BurrowMessage.messageId m.messageId (fun _ => m) l) := by
  have hnodes : KeyedList.modify DictionaryNode.key m.messageId (DictionaryNode.withData (some m))
      (l.map messageNode) =
        (KeyedList.modify BurrowMessage.messageId m.messageId (fun _ => m) l).map messageNode := by
    induction l with
    | nil => rfl
    | cons x xs ih =>
        by_cases hx : x.messageId = m.messageId
        · simp [KeyedList.modify, hx, DictionaryNode.withData, messageNode]
        · simp [KeyedList.modify, hx, ih]
  rw [Dictionary.setData, ofMessages, Dictionary.ofNodes]
  simp only [hnodes]
  rw [ofMessages, Dictionary.ofNodes, List.length_map, List.length_map, length_modify]

/-! ## The broker -/

/-- Accounts, their queues, and the messages of a queue. -/
abbrev Broker := Directory String BurrowMessage

/-- The names of the queues of an account. -/
def queueNames (s : AccountsSt) (account : String) : List String :=
  ((s.data? account).map Dictionary.keys).getD []

/-- The messages of a queue. -/
def queueMessages (s : AccountsSt) (account queue : String) : List BurrowMessage :=
  (((s.data? account).bind fun queues => queues.data? queue).map contents).getD []

/-- The broker a store represents. -/
def view (s : AccountsSt) : Broker :=
  { outer := s.keys, inner := queueNames s, rows := queueMessages s }

theorem queueNames_eq {s : AccountsSt} {account : String} {queues : QueuesSt}
    (h : s.data? account = some queues) : queueNames s account = queues.keys := by
  rw [queueNames, h, Option.map_some, Option.getD_some]

theorem queueNames_eq_nil {s : AccountsSt} {account : String} (h : s.data? account = none) :
    queueNames s account = [] := by
  rw [queueNames, h, Option.map_none, Option.getD_none]

theorem queueMessages_eq {s : AccountsSt} {account : String} {queues : QueuesSt}
    (h : s.data? account = some queues) (queue : String) :
    queueMessages s account queue = ((queues.data? queue).map contents).getD [] := by
  rw [queueMessages, h, Option.bind_some]

/-- The data pointers on the way to a queue. -/
structure Path (s : AccountsSt) (account queue : String) (queues : QueuesSt)
    (messages : MessagesSt) : Prop where
  account_data : s.data? account = some queues
  queue_data : queues.data? queue = some messages

/-- What the invariant says of the path to a queue. -/
structure PathOk (holes : Prop) (s : AccountsSt) (account queue : String) (queues : QueuesSt)
    (messages : MessagesSt) : Prop where
  path : Path s account queue queues messages
  account_mem : account ∈ s.keys
  queues_ok : queues.WellFormed (QueueNodeOk holes)
  queue_mem : queue ∈ queues.keys
  messages_ok : messages.WellFormed MessageNodeOk
  messages_ne : messages.nodes ≠ []

theorem Path.ok {holes : Prop} {s : AccountsSt} (h : StoreOk holes s) {account queue : String}
    {queues : QueuesSt} {messages : MessagesSt} (p : Path s account queue queues messages) :
    PathOk holes s account queue queues messages := by
  obtain ⟨hmem, hnode⟩ := Dictionary.WellFormed.data?_eq_some h p.account_data
  rcases hnode with ⟨hnone, -⟩ | ⟨queues', hdata, hqueues, -⟩
  · exact absurd hnone (by simp)
  · cases hdata
    obtain ⟨hqmem, hqnode⟩ := hqueues.data?_eq_some p.queue_data
    rcases hqnode with ⟨hnone, -⟩ | ⟨messages', hdata', hmessages, hne⟩
    · exact absurd hnone (by simp)
    · cases hdata'
      exact ⟨p, hmem, hqueues, hqmem, hmessages, hne⟩

theorem PathOk.rows_eq {holes : Prop} {s : AccountsSt} {account queue : String}
    {queues : QueuesSt} {messages : MessagesSt}
    (p : PathOk holes s account queue queues messages) :
    queueMessages s account queue = contents messages := by
  rw [queueMessages_eq p.path.account_data, p.path.queue_data, Option.map_some, Option.getD_some]

/-- No two messages of a queue share an id. -/
theorem nodup_queueMessages {holes : Prop} {s : AccountsSt} (h : StoreOk holes s)
    (account queue : String) :
    ((queueMessages s account queue).map BurrowMessage.messageId).Nodup := by
  unfold queueMessages
  cases hp : (s.data? account).bind fun queues => queues.data? queue with
  | none => exact List.nodup_nil
  | some messages =>
      obtain ⟨queues, ha, hq⟩ := Option.bind_eq_some_iff.1 hp
      exact nodup_contents (Path.ok h ⟨ha, hq⟩).messages_ok

/-- The searches of a command find the nodes on a path. -/
theorem PathOk.get_account {holes : Prop} {s : AccountsSt} (h : StoreOk holes s)
    {account queue : String} {queues : QueuesSt} {messages : MessagesSt}
    (p : PathOk holes s account queue queues messages) :
    dictionaryGet (some s) (some account) = some { key := account, data := some queues } :=
  Dictionary.WellFormed.get_of_data? h p.path.account_data

theorem PathOk.get_queue {holes : Prop} {s : AccountsSt} {account queue : String}
    {queues : QueuesSt} {messages : MessagesSt}
    (p : PathOk holes s account queue queues messages) :
    dictionaryGet (some queues) (some queue) = some { key := queue, data := some messages } :=
  p.queues_ok.get_of_data? p.path.queue_data

/-- Where there are messages there is a path to them. -/
theorem exists_path {s : AccountsSt} {account queue : String}
    (h : queueMessages s account queue ≠ []) :
    ∃ queues messages, Path s account queue queues messages := by
  unfold queueMessages at h
  cases ha : s.data? account with
  | none => exact absurd (by simp [ha]) h
  | some queues =>
      cases hq : queues.data? queue with
      | none => exact absurd (by simp [ha, hq]) h
      | some messages => exact ⟨queues, messages, ha, hq⟩

/-! ## Writing the messages of a queue -/

/-- `deleteIfEmpty` writes the queue and the account, or unlinks what is empty. -/
theorem deleteIfEmpty_eq {P : DictionaryNode QueuesSt → Prop} {Q : DictionaryNode MessagesSt → Prop}
    {R : DictionaryNode BurrowMessage → Prop} {s : AccountsSt} {queues : QueuesSt}
    {messages : MessagesSt} (hs : s.WellFormed P) (hq : queues.WellFormed Q)
    (hm : messages.WellFormed R) (account queue : String) :
    deleteIfEmpty s account queue queues messages =
      s.replace account (queues.replace queue messages.nonempty?).nonempty? := by
  have hreplace : (queues.replace queue messages.nonempty?).WellFormed fun _ => True :=
    (hq.mono fun _ _ _ => trivial).replace fun _ _ => trivial
  unfold deleteIfEmpty
  simp only [hq.replace_nonempty? hm]
  exact hs.replace_nonempty? hreplace account

theorem contents_nonempty? (messages : MessagesSt) :
    (messages.nonempty?.map contents).getD [] = contents messages := by
  unfold Dictionary.nonempty?
  split
  · next h =>
      rw [Option.map_none, Option.getD_none, contents, h, List.filterMap_nil]
  · rfl

section Write

variable {holes : Prop} {s : AccountsSt} {account queue : String} {queues : QueuesSt}
  {messages messages' : MessagesSt}

theorem PathOk.storeOk_deleteIfEmpty (h : StoreOk holes s)
    (p : PathOk holes s account queue queues messages)
    (hm : messages'.WellFormed MessageNodeOk) :
    StoreOk holes (deleteIfEmpty s account queue queues messages') := by
  rw [deleteIfEmpty_eq h p.queues_ok hm]
  refine Dictionary.WellFormed.replace h fun queues' hq' => ?_
  obtain ⟨hne, rfl⟩ := Dictionary.nonempty?_eq_some_iff.1 hq'
  refine Or.inr ⟨_, rfl, p.queues_ok.replace fun x hx => ?_, fun hnil => absurd hnil hne⟩
  obtain ⟨hxne, rfl⟩ := Dictionary.nonempty?_eq_some_iff.1 hx
  exact Or.inr ⟨messages', rfl, hm, hxne⟩

/-- Ending a command with `deleteIfEmpty` writes the messages of one queue. -/
theorem PathOk.view_deleteIfEmpty (h : StoreOk holes s)
    (p : PathOk holes s account queue queues messages)
    (hm : messages'.WellFormed MessageNodeOk) :
    view (deleteIfEmpty s account queue queues messages') =
      (view s).setRows account queue (contents messages') := by
  -- the queue leaves its account when its last message goes
  have hkeys : (queues.replace queue messages'.nonempty?).keys =
      if (contents messages').isEmpty then (queueNames s account).erase queue
      else queueNames s account := by
    have hnone : messages'.nonempty?.isNone = (contents messages').isEmpty := by
      rw [Dictionary.isNone_nonempty?, Dictionary.keys]
      conv_lhs => rw [eq_ofMessages hm]
      show ((List.map messageNode _).map _).isEmpty = _
      rw [List.isEmpty_map, List.isEmpty_map]
    rw [p.queues_ok.keys_replace, hnone, queueNames_eq p.path.account_data]
  have hdata : (deleteIfEmpty s account queue queues messages').data? account =
      (queues.replace queue messages'.nonempty?).nonempty? := by
    rw [deleteIfEmpty_eq h p.queues_ok hm,
      Dictionary.WellFormed.data?_replace_self h _ p.account_mem]
  have hother : ∀ account', account' ≠ account →
      (deleteIfEmpty s account queue queues messages').data? account' = s.data? account' := by
    intro account' hne
    rw [deleteIfEmpty_eq h p.queues_ok hm, Dictionary.WellFormed.data?_replace_of_ne h _ hne]
  have hnames : queueNames (deleteIfEmpty s account queue queues messages') account =
      if (contents messages').isEmpty then (queueNames s account).erase queue
      else queueNames s account := by
    rw [← hkeys, queueNames, hdata, Dictionary.keys_nonempty?]
  apply Directory.ext'
  · show (deleteIfEmpty s account queue queues messages').keys = _
    rw [deleteIfEmpty_eq h p.queues_ok hm, Dictionary.WellFormed.keys_replace h,
      Dictionary.isNone_nonempty?, hkeys]
    rfl
  · intro account'
    show queueNames _ account' = _
    by_cases ha : account' = account
    · rw [ha, hnames, Directory.inner_setRows_self]
      rfl
    · rw [Directory.inner_setRows_of_ne _ _ _ _ ha, queueNames, hother account' ha]
      rfl
  · intro account' queue'
    show queueMessages _ account' queue' = _
    by_cases ha : account' = account
    · subst ha
      rw [queueMessages, hdata, Dictionary.nonempty?_bind_data?]
      by_cases hq : queue' = queue
      · subst hq
        rw [p.queues_ok.data?_replace_self _ p.queue_mem, contents_nonempty?,
          Directory.rows_setRows_self]
      · rw [p.queues_ok.data?_replace_of_ne _ hq, ← queueMessages_eq p.path.account_data,
          Directory.rows_setRows_of_ne _ _ _ _ (Or.inr hq)]
        rfl
    · rw [Directory.rows_setRows_of_ne _ _ _ _ (Or.inl ha), queueMessages, hother account' ha]
      rfl

/-- Writing messages through the queue's pointer is the same while some are left. -/
theorem PathOk.write_eq_deleteIfEmpty (p : PathOk holes s account queue queues messages)
    (hm : messages'.WellFormed MessageNodeOk) (hne : messages'.nodes ≠ []) :
    s.setData account (some (queues.setData queue (some messages'))) =
      deleteIfEmpty s account queue queues messages' := by
  have hqueues : (queues.setData queue (some messages')).WellFormed fun _ => True :=
    (p.queues_ok.mono fun _ _ _ => trivial).setData trivial
  have hkeys : (queues.setData queue (some messages')).nodes ≠ [] := by
    rw [Ne, ← Dictionary.keys_eq_nil_iff, Dictionary.keys_setData]
    exact List.ne_nil_of_mem p.queue_mem
  unfold deleteIfEmpty
  simp only [hm.length_eq_zero_iff, hne, if_false, hqueues.length_eq_zero_iff, hkeys]

end Write

/-! ## Tidy stores -/

/-- No two queues of an account share a name. -/
theorem nodup_queueNames {holes : Prop} {s : AccountsSt} (h : StoreOk holes s) (account : String) :
    (queueNames s account).Nodup := by
  cases ha : s.data? account with
  | none =>
      rw [queueNames_eq_nil ha]
      exact List.nodup_nil
  | some queues =>
      rcases (Dictionary.WellFormed.data?_eq_some h ha).2 with ⟨hnone, -⟩ | ⟨_, hdata, hwf, -⟩
      · exact absurd hnone (by simp)
      · cases hdata
        rw [queueNames_eq ha]
        exact hwf.nodup

/-- In a store without holes there are no empty containers to see. -/
theorem tidy_view {s : AccountsSt} (h : StoreOk False s) : (view s).Tidy where
  outer_nodup := h.nodup
  inner_nodup := nodup_queueNames h
  mem_outer := by
    intro a
    show a ∈ s.keys ↔ queueNames s a ≠ []
    constructor
    -- an account without a queues dictionary would be a hole, and there is none
    · intro hmem
      rcases Dictionary.WellFormed.exists_of_mem_keys h hmem with ⟨-, hf⟩ | ⟨queues, hdata, -, hne⟩
      · exact hf.elim
      · rw [queueNames_eq hdata, Ne, Dictionary.keys_eq_nil_iff]
        exact hne
    · intro hne
      cases ha : s.data? a with
      | none => exact absurd (by rw [queueNames, ha]; rfl) hne
      | some queues => exact (Dictionary.WellFormed.data?_eq_some h ha).1
  mem_inner := by
    intro a q
    show q ∈ queueNames s a ↔ queueMessages s a q ≠ []
    constructor
    · intro hmem
      cases ha : s.data? a with
      | none =>
          rw [queueNames, ha] at hmem
          exact absurd hmem List.not_mem_nil
      | some queues =>
          rw [queueNames_eq ha] at hmem
          rcases (Dictionary.WellFormed.data?_eq_some h ha).2 with ⟨hnone, -⟩ | ⟨_, hdata, hwf, -⟩
          · exact absurd hnone (by simp)
          · cases hdata
            rcases hwf.exists_of_mem_keys hmem with ⟨-, hf⟩ | ⟨messages, hq, -, -⟩
            · exact hf.elim
            · have p := Path.ok h ⟨ha, hq⟩
              rw [p.rows_eq]
              exact contents_ne_nil p.messages_ok p.messages_ne
    · intro hne
      -- a message has a path to it, and the path goes through the queue
      obtain ⟨queues, messages, hpath⟩ := exists_path hne
      rw [queueNames_eq hpath.account_data]
      exact (hpath.ok h).queue_mem

/-- With holes the empty containers to see are those that the holes are in. -/
theorem tidyExcept_view {holes : Prop} {s : AccountsSt} (h : StoreOk holes s) :
    (view s).TidyExcept (fun a => a ∈ (view s).outer ∧ (view s).inner a = [])
      (fun a q => q ∈ (view s).inner a ∧ (view s).rows a q = []) where
  outer_nodup := h.nodup
  inner_nodup := nodup_queueNames h
  mem_outer := by
    intro a
    -- what may be a hole is an account with no queues, never one that has some
    have hmem : queueNames s a ≠ [] → a ∈ s.keys := by
      intro hne
      cases ha : s.data? a with
      | none => exact absurd (queueNames_eq_nil ha) hne
      | some queues => exact (Dictionary.WellFormed.data?_eq_some h ha).1
    constructor
    · intro ha
      by_cases hnil : (view s).inner a = []
      · exact Or.inr ⟨ha, hnil⟩
      · exact Or.inl hnil
    · rintro (hne | ⟨ha, -⟩)
      · exact hmem hne
      · exact ha
  mem_inner := by
    intro a q
    have hmem : queueMessages s a q ≠ [] → q ∈ queueNames s a := by
      intro hne
      obtain ⟨queues, messages, hpath⟩ := exists_path hne
      rw [queueNames_eq hpath.account_data]
      exact (hpath.ok h).queue_mem
    constructor
    · intro hq
      by_cases hnil : (view s).rows a q = []
      · exact Or.inr ⟨hq, hnil⟩
      · exact Or.inl hnil
    · rintro (hne | ⟨hq, -⟩)
      · exact hmem hne
      · exact hq
  inner_empty := fun _ ha => ha.2
  rows_empty := fun _ _ haq => haq.2

end Burrow.Memory
