import Burrow.Memory.Link

/-!
# The commands on one message

`create_message` puts a message under its triple of account, queue and id; the
three other commands find one there. Each is one change of the queue's messages
in the broker, or none.
-/

set_option autoImplicit false

namespace Burrow.Memory

open KeyedList

/-! ## Creating a message -/

/-- The message a command creates. -/
def createdMessage (now : UInt32) (cmd : BackendCommand) : BurrowMessage :=
  { messageId := cmd.messageId
    body := cmd.body.take cmd.bodySize
    bodySize := cmd.bodySize
    ttl := now + cmd.ttl?.getD 300
    hide :=
      match cmd.hide? with
      | none => 0
      | some hide => if hide ≠ 0 then now + hide else 0 }

/-- The allocations for the message itself succeed. -/
def CreateInputs.BlocksSucceed (inputs : CreateInputs) : Prop :=
  inputs.newMessage ≠ none ∧ inputs.body ≠ none ∧ inputs.messageId = true

/-- The allocations of `create_message` succeed. -/
def CreateInputs.AllocationsSucceed (inputs : CreateInputs) : Prop :=
  inputs.BlocksSucceed ∧ inputs.LinksSucceed

/-- Copying into a block of the right size leaves nothing of the block. -/
theorem memcpy_take (block src : List UInt8) (n : Nat) :
    memcpy (block.take n) src n = src.take n := by
  rw [memcpy, List.drop_take, Nat.sub_self, List.take_zero, List.append_nil]

/-- The times of a new message come from the command's attributes. -/
theorem createTimes_ok {now : UInt32} {cmd : BackendCommand} {r : UInt32 × UInt32}
    (h : createTimes now cmd.attributes = .ok r) :
    r = ((createdMessage now cmd).ttl, (createdMessage now cmd).hide) := by
  unfold createdMessage BackendCommand.ttl? BackendCommand.hide? BackendCommand.attributes?
  unfold createTimes at h
  cases ha : cmd.attributes with
  | none =>
      rw [ha] at h
      cases h
      rfl
  | some object =>
      rw [ha] at h
      cases object with
      | destroyed => exact absurd h (by simp)
      | live attributes =>
          cases h
          simp only [Option.bind_some, Object.value?]
          cases burrowAttributesIssetTtl attributes <;>
            cases burrowAttributesIssetHide attributes <;> rfl

theorem createTimes_reads (now : UInt32) (attributes : Option (Object BurrowAttributes)) :
    Reads (ArgLive attributes) (createTimes now attributes) := by
  cases attributes with
  | none => exact .of_ok rfl argLive_none
  | some object =>
      cases object with
      | live value => exact .of_ok rfl (by simp)
      | destroyed => exact .of_error rfl (by simp)

/-- `create_message` is its second part on the new message. -/
theorem createMessage_eq {inputs : CreateInputs} (hblocks : inputs.BlocksSucceed)
    (cmd : BackendCommand) (s : AccountsSt) :
    burrowBackendMemoryCreateMessage inputs cmd s =
      match createTimes inputs.time cmd.attributes with
      | .error e => .error e
      | .ok _ => linkMessage inputs cmd (createdMessage inputs.time cmd) s := by
  obtain ⟨hnew, hbody, hid⟩ := hblocks
  obtain ⟨block, hnew⟩ := Option.ne_none_iff_exists'.1 hnew
  obtain ⟨body, hbody⟩ := Option.ne_none_iff_exists'.1 hbody
  unfold burrowBackendMemoryCreateMessage
  rw [hnew, hbody, hid]
  simp only
  cases htimes : createTimes inputs.time cmd.attributes with
  | error e => rfl
  | ok times =>
      obtain ⟨ttl, hide⟩ := times
      obtain ⟨rfl, rfl⟩ := Prod.mk.inj (createTimes_ok htimes)
      simp only [memcpy_take]
      rfl

theorem createMessage_of_not_blocksSucceed {inputs : CreateInputs}
    (hblocks : ¬ inputs.BlocksSucceed) (cmd : BackendCommand) (s : AccountsSt) :
    burrowBackendMemoryCreateMessage inputs cmd s = .ok ⟨s, [], 0⟩ := by
  unfold burrowBackendMemoryCreateMessage
  split
  · next hnew hbody hid => exact absurd ⟨by simp [hnew], by simp [hbody], hid⟩ hblocks
  · rfl

section Command

variable {holes : Prop} {s : AccountsSt} {inputs : CreateInputs} {cmd : BackendCommand}

/-- **What `create_message` does**, for every outcome of the allocations. -/
theorem createMessage_spec (h : StoreOk holes s) {o : Outcome}
    (hrun : burrowBackendMemoryCreateMessage inputs cmd s = .ok o) :
    o.callbacks = [] ∧ o.result = 0 ∧
      (¬ inputs.BlocksSucceed ∧ o.accounts = s ∨
        inputs.BlocksSucceed ∧
          Linked holes inputs s cmd (createdMessage inputs.time cmd) o.accounts) := by
  by_cases hblocks : inputs.BlocksSucceed
  · rw [createMessage_eq hblocks] at hrun
    split at hrun
    · exact absurd hrun (by simp)
    · rcases linkMessage_spec h inputs cmd (createdMessage inputs.time cmd) with
        ⟨herror, -⟩ | ⟨s', hok, hlinked⟩
      · rw [herror] at hrun
        exact absurd hrun (by simp)
      · rw [hok] at hrun
        cases hrun
        exact ⟨rfl, rfl, Or.inr ⟨hblocks, hlinked⟩⟩
  · rw [createMessage_of_not_blocksSucceed hblocks] at hrun
    cases hrun
    exact ⟨rfl, rfl, Or.inl ⟨hblocks, rfl⟩⟩

/-- With memory for it, `create_message` puts the message. -/
theorem createMessage_succeeds (h : StoreOk holes s) (hmem : inputs.AllocationsSucceed)
    {o : Outcome} (hrun : burrowBackendMemoryCreateMessage inputs cmd s = .ok o) :
    StoreOk holes o.accounts ∧ view o.accounts =
      (view s).put cmd.account cmd.queue (createdMessage inputs.time cmd) := by
  obtain ⟨-, -, ⟨hno, -⟩ | ⟨-, hlinked⟩⟩ := createMessage_spec h hrun
  · exact absurd hmem.1 hno
  · cases hlinked with
    | stored _ ok view_eq => exact ⟨ok, view_eq⟩
    | kept _ fails _ _ _ => exact absurd hmem.2 fails
    | hole defect _ _ _ => exact absurd hmem.2 defect.not_linksSucceed

/-- `create_message` reads the attributes once it has the memory for a message;
after that it can only run into a hole. -/
theorem createMessage_reads_or (h : StoreOk holes s) :
    Reads (inputs.BlocksSucceed → ArgLive cmd.attributes)
        (burrowBackendMemoryCreateMessage inputs cmd s) ∨
      holes ∧ (inputs.BlocksSucceed → ArgLive cmd.attributes) ∧
        burrowBackendMemoryCreateMessage inputs cmd s = .error .nullDereference := by
  by_cases hblocks : inputs.BlocksSucceed
  · rw [createMessage_eq hblocks]
    have hreads := createTimes_reads inputs.time cmd.attributes
    by_cases hlive : ArgLive cmd.attributes
    · obtain ⟨times, htimes⟩ := hreads.ok hlive
      rw [htimes]
      rcases linkMessage_spec h inputs cmd (createdMessage inputs.time cmd) with
        ⟨herror, hholes⟩ | ⟨s', hok, -⟩
      · exact Or.inr ⟨hholes, fun _ => hlive, herror⟩
      · exact Or.inl (.of_ok hok fun _ => hlive)
    · rw [hreads.error hlive]
      exact Or.inl (.of_error rfl fun hyes => hlive (hyes hblocks))
  · rw [createMessage_of_not_blocksSucceed hblocks]
    exact Or.inl (.of_ok rfl fun hyes => absurd hyes hblocks)

end Command

/-! ## Finding a message -/

/-- The message under a triple of account, queue and id. -/
def Broker.lookup (b : Broker) (account queue messageId : String) : Option BurrowMessage :=
  (b.rows account queue).find? (hasKey BurrowMessage.messageId messageId)

/-- The message under the triple of a command. -/
def Broker.find (b : Broker) (cmd : BackendCommand) : Option BurrowMessage :=
  b.lookup cmd.account cmd.queue cmd.messageId

/-- The message under the triple of a command has expired. -/
def Broker.FindsExpired (b : Broker) (now : UInt32) (cmd : BackendCommand) : Prop :=
  ∃ m ∈ b.find cmd, m.Expired now

instance (b : Broker) (now : UInt32) (cmd : BackendCommand) : Decidable (b.FindsExpired now cmd) :=
  inferInstanceAs (Decidable (∃ m ∈ b.find cmd, m.Expired now))

/-- The broker without the message under the triple of a command. -/
def Broker.remove (b : Broker) (cmd : BackendCommand) : Broker :=
  b.modifyRows cmd.account cmd.queue
    fun l => l.eraseP (hasKey BurrowMessage.messageId cmd.messageId)

theorem rows_remove (b : Broker) (cmd : BackendCommand) :
    (b.remove cmd).rows cmd.account cmd.queue =
      (b.rows cmd.account cmd.queue).eraseP (hasKey BurrowMessage.messageId cmd.messageId) :=
  Directory.rows_modifyRows_self b _ _ rfl

/-- The broker with `m` in the place of the message with its id. -/
def Broker.rewrite (b : Broker) (account queue : String) (m : BurrowMessage) : Broker :=
  b.modifyRows account queue (KeyedList.modify BurrowMessage.messageId m.messageId fun _ => m)

section Find

variable {holes : Prop} {s : AccountsSt} {cmd : BackendCommand}

/-- The nested searches find what is in the broker. -/
theorem findMessage_cases (h : StoreOk holes s) (cmd : BackendCommand) :
    findMessage s cmd = none ∧ (view s).find cmd = none ∨
      ∃ queues messages m, findMessage s cmd = some ⟨queues, messages, m⟩ ∧
        PathOk holes s cmd.account cmd.queue queues messages ∧ (view s).find cmd = some m := by
  by_cases hpath : ∃ queues messages, Path s cmd.account cmd.queue queues messages
  · obtain ⟨queues, messages, hpath⟩ := hpath
    have p := hpath.ok h
    have hget := dictionaryGet_ofMessages (nodup_contents p.messages_ok) cmd.messageId
    rw [← eq_ofMessages p.messages_ok, ← p.rows_eq] at hget
    have hfind : findMessage s cmd = ((view s).find cmd).map fun m => ⟨queues, messages, m⟩ := by
      unfold findMessage
      simp only [p.get_account h, p.get_queue, hget]
      show _ = Option.map _ ((queueMessages s cmd.account cmd.queue).find? _)
      cases (queueMessages s cmd.account cmd.queue).find?
        (hasKey BurrowMessage.messageId cmd.messageId) with
      | none => rfl
      | some m => rfl
    cases hm : (view s).find cmd with
    | none =>
        rw [hm] at hfind
        exact Or.inl ⟨hfind, rfl⟩
    | some m =>
        rw [hm] at hfind
        exact Or.inr ⟨queues, messages, m, hfind, p, rfl⟩
  · have hrows : queueMessages s cmd.account cmd.queue = [] := by
      by_contra hne
      exact hpath (exists_path hne)
    refine Or.inl ⟨?_, ?_⟩
    -- without a path one of the four lookups fails, in the source's order
    · unfold findMessage
      split
      · rfl
      · next account hacc =>
          split
          · rfl
          · next queues hqueues =>
              split
              · rfl
              · next queue hqueue =>
                  split
                  · rfl
                  · next messages hmessages =>
                      exact absurd ⟨queues, messages, (Dictionary.data?_of_get hacc).trans hqueues,
                        (Dictionary.data?_of_get hqueue).trans hmessages⟩ hpath
    · show List.find? _ (queueMessages s cmd.account cmd.queue) = none
      rw [hrows]
      rfl

variable {queues : QueuesSt} {messages : MessagesSt}

theorem PathOk.modifyRows_eq (p : PathOk holes s cmd.account cmd.queue queues messages)
    (f : List BurrowMessage → List BurrowMessage) :
    (view s).modifyRows cmd.account cmd.queue f =
      (view s).setRows cmd.account cmd.queue (f (contents messages)) := by
  have hrows : (view s).rows cmd.account cmd.queue = contents messages := p.rows_eq
  rw [Directory.modifyRows, hrows,
    List.isEmpty_eq_false_iff.2 (contents_ne_nil p.messages_ok p.messages_ne)]
  rfl

/-- Unlinking the message a command found removes it from the broker. -/
theorem PathOk.unlink_spec (h : StoreOk holes s)
    (p : PathOk holes s cmd.account cmd.queue queues messages) (m : BurrowMessage) :
    StoreOk holes (FoundMessage.unlink ⟨queues, messages, m⟩ cmd s) ∧
      view (FoundMessage.unlink ⟨queues, messages, m⟩ cmd s) = (view s).remove cmd := by
  have hwf := p.messages_ok.deleteNode cmd.messageId
  have hcontents : contents (dictionaryDeleteNode messages cmd.messageId) =
      (contents messages).eraseP (hasKey BurrowMessage.messageId cmd.messageId) := by
    conv_lhs => rw [eq_ofMessages p.messages_ok]
    rw [deleteNode_ofMessages (nodup_contents p.messages_ok), contents_ofMessages]
  refine ⟨p.storeOk_deleteIfEmpty h hwf, ?_⟩
  rw [Broker.remove, p.modifyRows_eq, ← hcontents]
  exact p.view_deleteIfEmpty h hwf

/-- Writing through the pointer a command found rewrites the message. -/
theorem PathOk.write_spec (h : StoreOk holes s)
    (p : PathOk holes s cmd.account cmd.queue queues messages) (m : BurrowMessage)
    {m' : BurrowMessage} (hid : m'.messageId = cmd.messageId) :
    StoreOk holes (FoundMessage.write ⟨queues, messages, m⟩ cmd m' s) ∧
      view (FoundMessage.write ⟨queues, messages, m⟩ cmd m' s) =
        (view s).rewrite cmd.account cmd.queue m' := by
  have hdata : messages.setData cmd.messageId (some m') = ofMessages
      (KeyedList.modify BurrowMessage.messageId m'.messageId (fun _ => m')
        (contents messages)) := by
    conv_lhs => rw [eq_ofMessages p.messages_ok, ← hid]
    exact setData_ofMessages _ m'
  have hwf : (messages.setData cmd.messageId (some m')).WellFormed MessageNodeOk :=
    p.messages_ok.setData ⟨m', rfl, hid⟩
  have hne : (messages.setData cmd.messageId (some m')).nodes ≠ [] := by
    rw [Ne, ← Dictionary.keys_eq_nil_iff, Dictionary.keys_setData, Dictionary.keys_eq_nil_iff]
    exact p.messages_ne
  have hwrite : FoundMessage.write ⟨queues, messages, m⟩ cmd m' s =
      deleteIfEmpty s cmd.account cmd.queue queues (messages.setData cmd.messageId (some m')) :=
    p.write_eq_deleteIfEmpty hwf hne
  rw [hwrite]
  refine ⟨p.storeOk_deleteIfEmpty h hwf, ?_⟩
  rw [Broker.rewrite, p.modifyRows_eq, p.view_deleteIfEmpty h hwf, hdata, contents_ofMessages]

end Find

/-! ## Reading, updating and deleting a message -/

/-- What `update_message` makes of a message; a ttl of zero counts as not given. -/
def updatedMessage (now : UInt32) (cmd : BackendCommand) (m : BurrowMessage) : BurrowMessage :=
  applyDeadlines (deadline now (cmd.ttl?.filter fun ttl => 0 < ttl)) (deadline now cmd.hide?) m

/-- What `get_message` is for. -/
def Broker.getMessage (b : Broker) (now : UInt32) (cmd : BackendCommand) : Answer :=
  match b.find cmd with
  | none => ⟨b, [], EINVAL⟩
  | some m => if m.Expired now then ⟨b.remove cmd, [], 0⟩ else ⟨b, [m.report now], 0⟩

/-- What `update_message` is for. -/
def Broker.updateMessage (b : Broker) (now : UInt32) (cmd : BackendCommand) : Answer :=
  match b.find cmd with
  | none => ⟨b, [], EINVAL⟩
  | some m =>
      if m.Expired now then ⟨b.remove cmd, [], 0⟩
      else
        ⟨b.rewrite cmd.account cmd.queue (updatedMessage now cmd m),
          [(updatedMessage now cmd m).report now], 0⟩

/-- What `delete_message` is for. -/
def Broker.deleteMessage (b : Broker) (now : UInt32) (cmd : BackendCommand) : Answer :=
  match b.find cmd with
  | none => ⟨b, [], 0⟩
  | some m => ⟨b.remove cmd, if m.Expired now then [] else [m.report now], 0⟩

/-- What the commands on one message do. -/
inductive OneMessage (b : Broker) (now : UInt32) (cmd : BackendCommand) :
    CommandName → Answer → Prop
  /-- there is no such message -/
  | missing {name : CommandName} {result : Int} (find_eq : b.find cmd = none)
      (result_eq : result = 0 ∨ result = EINVAL) : OneMessage b now cmd name ⟨b, [], result⟩
  /-- the command comes across an expired message -/
  | expired {name : CommandName} {m : BurrowMessage} (find_eq : b.find cmd = some m)
      (expired : m.Expired now) : OneMessage b now cmd name ⟨b.remove cmd, [], 0⟩
  | got {m : BurrowMessage} (find_eq : b.find cmd = some m) (live : ¬ m.Expired now) :
      OneMessage b now cmd .getMessage ⟨b, [m.report now], 0⟩
  | updated {m : BurrowMessage} (find_eq : b.find cmd = some m) (live : ¬ m.Expired now) :
      OneMessage b now cmd .updateMessage
        ⟨b.rewrite cmd.account cmd.queue (updatedMessage now cmd m),
          [(updatedMessage now cmd m).report now], 0⟩
  | deleted {m : BurrowMessage} (find_eq : b.find cmd = some m) (live : ¬ m.Expired now) :
      OneMessage b now cmd .deleteMessage ⟨b.remove cmd, [m.report now], 0⟩

section OneMessage

variable {b : Broker} {now : UInt32} {cmd : BackendCommand} {name : CommandName} {x : Answer}

theorem oneMessage_getMessage : OneMessage b now cmd .getMessage (b.getMessage now cmd) := by
  unfold Broker.getMessage
  split
  · next hfind => exact .missing hfind (Or.inr rfl)
  · next m hfind =>
      split
      · next hexpired => exact .expired hfind hexpired
      · next hlive => exact .got hfind hlive

theorem oneMessage_updateMessage :
    OneMessage b now cmd .updateMessage (b.updateMessage now cmd) := by
  unfold Broker.updateMessage
  split
  · next hfind => exact .missing hfind (Or.inr rfl)
  · next m hfind =>
      split
      · next hexpired => exact .expired hfind hexpired
      · next hlive => exact .updated hfind hlive

theorem oneMessage_deleteMessage :
    OneMessage b now cmd .deleteMessage (b.deleteMessage now cmd) := by
  unfold Broker.deleteMessage
  split
  · next hfind => exact .missing hfind (Or.inl rfl)
  · next m hfind =>
      split
      · next hexpired => exact .expired hfind hexpired
      · next hlive => exact .deleted hfind hlive

theorem OneMessage.result (h : OneMessage b now cmd name x) :
    x.result = 0 ∨ x.result = EINVAL := by
  cases h with
  | missing _ result_eq => exact result_eq
  | _ => exact Or.inl rfl

/-- What is reported is the message that was found, or what the update made of it. -/
theorem OneMessage.reports (h : OneMessage b now cmd name x) :
    x.reports = [] ∨
      ∃ m m' : BurrowMessage, b.find cmd = some m ∧ ¬ m.Expired now ∧ m'.messageId = m.messageId ∧
        x.reports = [m'.report now] := by
  cases h with
  | missing _ _ | expired _ _ => exact Or.inl rfl
  | got find_eq live | deleted find_eq live => exact Or.inr ⟨_, _, find_eq, live, rfl, rfl⟩
  | updated find_eq live =>
      exact Or.inr ⟨_, _, find_eq, live, messageId_applyDeadlines _ _ _, rfl⟩

end OneMessage

/-- The deadlines of `update_message` come from the command's attributes. -/
theorem updateAttributes_ok {now : UInt32} {cmd : BackendCommand} {r : UInt32 × UInt32}
    (h : updateAttributes now cmd.attributes = .ok r) :
    r = (deadline now (cmd.ttl?.filter fun ttl => 0 < ttl), deadline now cmd.hide?) := by
  unfold BackendCommand.ttl? BackendCommand.hide? BackendCommand.attributes?
  unfold updateAttributes at h
  cases ha : cmd.attributes with
  | none =>
      rw [ha] at h
      cases h
      rfl
  | some object =>
      rw [ha] at h
      cases object with
      | destroyed => exact absurd h (by simp)
      | live attributes =>
          cases h
          simp only [Option.bind_some, Object.value?]
          -- a time to live of zero writes no deadline, as if it had not been given
          have httl : (if burrowAttributesIssetTtl attributes then
              if attributes.ttl > 0 then attributes.ttl + now else 0 else 0) =
              deadline now (Option.filter (fun ttl => decide (0 < ttl))
                (if burrowAttributesIssetTtl attributes then
                  some (burrowAttributesGetTtl attributes) else none)) := by
            cases burrowAttributesIssetTtl attributes with
            | false => rfl
            | true =>
                simp only [if_true, burrowAttributesGetTtl, Option.filter_some]
                by_cases hpos : 0 < attributes.ttl
                · rw [if_pos hpos, if_pos (by simpa using hpos)]
                  rfl
                · rw [if_neg hpos, if_neg (by simpa using hpos)]
                  rfl
          have hhide : (if burrowAttributesIssetHide attributes then attributes.hide + now else 0) =
              deadline now (if burrowAttributesIssetHide attributes then
                some (burrowAttributesGetHide attributes) else none) := by
            cases burrowAttributesIssetHide attributes <;> rfl
          rw [httl, hhide]

theorem updateAttributes_reads (now : UInt32) (attributes : Option (Object BurrowAttributes)) :
    Reads (ArgLive attributes) (updateAttributes now attributes) := by
  cases attributes with
  | none => exact .of_ok rfl argLive_none
  | some object =>
      cases object with
      | live value => exact .of_ok rfl (by simp)
      | destroyed => exact .of_error rfl (by simp)

section Commands

variable {holes : Prop} {s : AccountsSt} {inputs : MessageInputs} {cmd : BackendCommand}

theorem messageId_of_find {b : Broker} {m : BurrowMessage} (h : b.find cmd = some m) :
    m.messageId = cmd.messageId :=
  (find?_hasKey_some BurrowMessage.messageId h).2

/-- `get_message` reads an expired message after it has freed it. -/
theorem getMessage_expired (h : StoreOk holes s) (he : (view s).FindsExpired inputs.time cmd) :
    burrowBackendMemoryGetMessage inputs cmd s = .error .freedMessage := by
  obtain ⟨m, hm, he⟩ := he
  unfold burrowBackendMemoryGetMessage
  rcases findMessage_cases h cmd with ⟨-, hfind⟩ | ⟨queues, messages, m', hsome, -, hfind⟩
  · exact absurd (hfind.symm.trans hm) (by simp)
  · cases hfind.symm.trans hm
    rw [hsome]
    exact if_pos he

/-- On any other message it changes nothing. -/
theorem getMessage_spec (h : StoreOk holes s) (he : ¬ (view s).FindsExpired inputs.time cmd) :
    ∃ o, burrowBackendMemoryGetMessage inputs cmd s = .ok o ∧ o.accounts = s ∧
      o.answer = (view s).getMessage inputs.time cmd := by
  unfold burrowBackendMemoryGetMessage Broker.getMessage
  rcases findMessage_cases h cmd with ⟨hnone, hfind⟩ | ⟨queues, messages, m, hsome, p, hfind⟩
  · rw [hnone, hfind]
    exact ⟨_, rfl, rfl, rfl⟩
  · have hlive : ¬ m.Expired inputs.time := fun hm => he ⟨m, hfind, hm⟩
    rw [hsome, hfind]
    simp only [if_neg (show ¬ m.ttl ≤ inputs.time from hlive), if_neg hlive]
    exact ⟨_, rfl, rfl, rfl⟩

/-- A `get_message` that returns has found no expired message. -/
theorem getMessage_ok (h : StoreOk holes s) {o : Outcome}
    (hrun : burrowBackendMemoryGetMessage inputs cmd s = .ok o) :
    ¬ (view s).FindsExpired inputs.time cmd ∧ o.accounts = s ∧
      o.answer = (view s).getMessage inputs.time cmd := by
  have he : ¬ (view s).FindsExpired inputs.time cmd := by
    intro he
    rw [getMessage_expired h he] at hrun
    exact absurd hrun (by simp)
  obtain ⟨o', hrun', hs, hanswer⟩ := getMessage_spec h he
  cases hrun'.symm.trans hrun
  exact ⟨he, hs, hanswer⟩

theorem deleteMessage_spec (h : StoreOk holes s) (inputs : MessageInputs) (cmd : BackendCommand) :
    ∃ o, burrowBackendMemoryDeleteMessage inputs cmd s = .ok o ∧ StoreOk holes o.accounts ∧
      o.answer = (view s).deleteMessage inputs.time cmd := by
  unfold burrowBackendMemoryDeleteMessage Broker.deleteMessage
  rcases findMessage_cases h cmd with ⟨hnone, hfind⟩ | ⟨queues, messages, m, hsome, p, hfind⟩
  · rw [hnone, hfind]
    exact ⟨_, rfl, h, rfl⟩
  · rw [hsome, hfind]
    obtain ⟨hok, hview⟩ := p.unlink_spec h m
    refine ⟨_, rfl, hok, ?_⟩
    rw [Outcome.answer, hview]
    by_cases he : m.ttl ≤ inputs.time
    · simp only [if_pos (show m.Expired inputs.time from he), if_neg (UInt32.not_lt.2 he)]
      rfl
    · simp only [if_neg (show ¬ m.Expired inputs.time from he), if_pos (UInt32.not_le.1 he)]
      rfl

theorem updateMessage_spec (h : StoreOk holes s) {o : Outcome}
    (hrun : burrowBackendMemoryUpdateMessage inputs cmd s = .ok o) :
    StoreOk holes o.accounts ∧ o.answer = (view s).updateMessage inputs.time cmd := by
  unfold Broker.updateMessage
  unfold burrowBackendMemoryUpdateMessage at hrun
  rcases findMessage_cases h cmd with ⟨hnone, hfind⟩ | ⟨queues, messages, m, hsome, p, hfind⟩
  · rw [hnone] at hrun
    rw [hfind]
    cases hrun
    exact ⟨h, rfl⟩
  · rw [hsome] at hrun
    rw [hfind]
    by_cases he : m.ttl ≤ inputs.time
    · obtain ⟨hok, hview⟩ := p.unlink_spec h m
      simp only [if_pos he] at hrun
      simp only [if_pos (show m.Expired inputs.time from he)]
      cases hrun
      exact ⟨hok, by rw [Outcome.answer, hview]; rfl⟩
    · simp only [if_neg he] at hrun
      simp only [if_neg (show ¬ m.Expired inputs.time from he)]
      split at hrun
      · exact absurd hrun (by simp)
      · next ttl hide hattr =>
          obtain ⟨rfl, rfl⟩ := Prod.mk.inj (updateAttributes_ok hattr)
          cases hrun
          have hid : (updatedMessage inputs.time cmd m).messageId = cmd.messageId :=
            (messageId_applyDeadlines _ _ m).trans (messageId_of_find hfind)
          obtain ⟨hok, hview⟩ := p.write_spec h m hid
          exact ⟨hok, by rw [Outcome.answer, ← hview]; rfl⟩

/-- `update_message` reads the attributes where it finds a message to update. -/
theorem updateMessage_reads (h : StoreOk holes s) :
    Reads (∀ m, (view s).find cmd = some m → ¬ m.Expired inputs.time → ArgLive cmd.attributes)
      (burrowBackendMemoryUpdateMessage inputs cmd s) := by
  unfold burrowBackendMemoryUpdateMessage
  rcases findMessage_cases h cmd with ⟨hnone, hfind⟩ | ⟨queues, messages, m, hsome, p, hfind⟩
  · rw [hnone, hfind]
    exact .of_ok rfl fun m hm => absurd hm (by simp)
  · rw [hsome, hfind]
    by_cases he : m.ttl ≤ inputs.time
    · refine .of_ok (if_pos he) fun m' hm hne => absurd ?_ hne
      cases hm
      exact he
    · simp only [if_neg he]
      have hreads := updateAttributes_reads inputs.time cmd.attributes
      refine ⟨fun hlive => ?_, fun hno => ?_⟩
      · obtain ⟨deadlines, hok⟩ := hreads.ok (hlive m rfl he)
        rw [hok]
        exact ⟨_, rfl⟩
      · rw [hreads.error fun hlive => hno fun _ _ _ => hlive]

end Commands

end Burrow.Memory
