import Burrow.Memory.LinkedScan
import Burrow.Memory.Single

/-!
# Commands on one message in memory

`update_message`, `get_message` and `delete_message` follow the pointers from account to queue
to message (`PathTo`). The first and the last free an expired message as a whole before they
unlink its node (`remove_turns`). `get_message` frees the message first and reads its pointers
afterwards: on an expired message it runs into an error (`getMessage_expired`), and on any other
one it does what the list model says.
-/

set_option autoImplicit false

namespace Burrow.Memory.Chained

open Ownership KeyedList

/-! ## The way to a message -/

/-- The nodes that the searches of a command on one message lead to. -/
structure PathTo (x : PlacedAccounts) (cmd : BackendCommand) where
  account : Opened PlacedQueues
  queue : Opened PlacedMessages
  message : Opened PlacedMessage
  account_eq : account.closed = x
  queue_eq : queue.closed = account.node.data
  message_eq : message.closed = queue.node.data
  account_key : account.node.key = cmd.account
  queue_key : queue.node.key = cmd.queue
  message_key : message.node.key = cmd.messageId

namespace PathTo

variable {x : PlacedAccounts} {cmd : BackendCommand}

/-- What the pointers lead to. -/
def found (p : PathTo x cmd) : FoundMessage where
  account := p.account.node.node
  queue := p.queue.node.node
  message := p.message.node.data.address

/-- The same in the list model. -/
def foundErased (p : PathTo x cmd) : Memory.FoundMessage where
  queues := erase p.account.node.data
  messages := erase p.queue.node.data
  message := p.message.node.data.message

/-- The store with other messages in the queue. -/
def replace (p : PathTo x cmd) (z : PlacedMessages) : PlacedAccounts :=
  (inQueue p.account p.queue z).closed

end PathTo

section Path

variable {m m' : BackendHeap} {x : PlacedAccounts} {cmd : BackendCommand} {told : List Callback}

/-- All the dictionaries on the way, without what their nodes on the way lead to. -/
def PathTo.others (p : PathTo x cmd) : Multiset Block :=
  around p.message + (around p.queue + around p.account)

theorem PathTo.footprint_eq (p : PathTo x cmd) :
    footprint x = footprint p.message.node.data + p.others := by
  rw [← congrArg footprint p.account_eq, footprint_closed, ← congrArg footprint p.queue_eq,
    footprint_closed, ← congrArg footprint p.message_eq, footprint_closed, PathTo.others]
  abel

/-- What there is on the way. -/
structure PathHolds (m : BackendHeap) (p : PathTo x cmd) : Prop where
  account : Holds m p.account
  queue : Holds m p.queue
  message : Holds m p.message

theorem path_holds (p : PathTo x cmd) (hx : Holds m x) :
    PathHolds m p ∧ Holds m p.message.node.data := by
  have hclosed : Holds m p.account.closed := p.account_eq.symm ▸ hx
  obtain ⟨haccount, hqueues⟩ := holds_opened hclosed
  rw [← p.queue_eq] at hqueues
  obtain ⟨hqueue, hmessages⟩ := holds_opened hqueues
  rw [← p.message_eq] at hmessages
  obtain ⟨hmessage, hdata⟩ := holds_opened hmessages
  exact ⟨⟨haccount, hqueue, hmessage⟩, hdata⟩

/-- The way to the message is there whatever is done to the message. -/
theorem PathHolds.congr {p : PathTo x cmd} (h : PathHolds m p)
    (hsame : ∀ b ∈ p.others, Block.Same m m' b) : PathHolds m' p := by
  have hmem : ∀ {b : Block}, b ∈ p.others ↔
      b ∈ around p.message ∨ b ∈ around p.queue ∨ b ∈ around p.account := by
    intro b
    rw [PathTo.others, Multiset.mem_add, Multiset.mem_add]
  refine ⟨Located.congr (fun b hb => hsame b (hmem.2 (.inr (.inr hb)))) h.account,
    Located.congr (fun b hb => hsame b (hmem.2 (.inr (.inl hb)))) h.queue,
    Located.congr (fun b hb => hsame b (hmem.2 (.inl hb))) h.message⟩

/-- What is done to the messages of the queue is done to the store. -/
theorem Turns.atPath {p : PathTo x cmd} {z : PlacedMessages}
    (h : Turns m m' p.message.closed z told) (haddress : z.address = p.message.address)
    (hx : Holds m x) (hm : Owns m (footprint x)) : Turns m m' x (p.replace z) told := by
  have hxclosed : Holds m p.account.closed := p.account_eq.symm ▸ hx
  have hmclosed : Owns m (footprint p.account.closed) := by
    rw [p.account_eq]
    exact hm
  have hqueues : Holds m p.queue.closed := by
    rw [p.queue_eq]
    exact (holds_opened hxclosed).2
  have hmqueues : Owns m (footprint p.queue.closed) := by
    rw [p.queue_eq]
    exact (owns_opened hmclosed).part
  rw [p.message_eq] at h
  have hmessages : p.message.address = p.queue.node.data.address :=
    congrArg Placed.address p.message_eq
  have hqueueAddress : p.queue.address = p.account.node.data.address :=
    congrArg Placed.address p.queue_eq
  have hlift := h.lift (haddress.trans hmessages) hqueues hmqueues
  rw [p.queue_eq] at hlift
  have hlift := hlift.lift (x := p.account) hqueueAddress hxclosed hmclosed
  rw [p.account_eq] at hlift
  exact hlift

theorem readMessages_path {p : PathTo x cmd} (h : PathHolds m p) :
    m.nodeData (some p.found.queue) = .ok (some p.message.address) := by
  have hread := nodeData_opened h.queue
  rw [← p.message_eq] at hread
  exact hread

/-- The searches find what the list model finds. -/
theorem findMessage_cases (hx : Holds m x) (cmd : BackendCommand) :
    (∃ p : PathTo x cmd, Memory.findMessage (erase x) cmd = some p.foundErased ∧
      findMessage x.address cmd m = .ok (some p.found)) ∨
    Memory.findMessage (erase x) cmd = none ∧ findMessage x.address cmd m = .ok none := by
  rw [Memory.findMessage, findMessage]
  rcases search_cases hx (given_read m cmd.account) with
    ⟨hget, hget'⟩ | ⟨y, hy, haccount, hget, hget'⟩
  · rw [hget, hget']
    exact .inr ⟨rfl, rfl⟩
  rw [hget, hget', ok_bind]
  dsimp only [PlacedNode.erased]
  rw [← hy] at hx
  obtain ⟨hopened, hqueues⟩ := holds_opened hx
  have hread : m.nodeData (some y.node.node) = .ok (some y.node.data.address) :=
    nodeData_opened hopened
  rw [hread, ok_bind]
  rcases search_cases hqueues (given_read m cmd.queue) with
    ⟨hget, hget'⟩ | ⟨z, hz, hqueue, hget, hget'⟩
  · rw [hget, hget']
    exact .inr ⟨rfl, rfl⟩
  rw [hget, hget', ok_bind]
  dsimp only [PlacedNode.erased]
  rw [← hz] at hqueues
  obtain ⟨hopenedQueue, hmessages⟩ := holds_opened hqueues
  have hreadQueue : m.nodeData (some z.node.node) = .ok (some z.node.data.address) :=
    nodeData_opened hopenedQueue
  rw [hreadQueue, ok_bind]
  rcases search_cases hmessages (given_read m cmd.messageId) with
    ⟨hget, hget'⟩ | ⟨w, hw, hmessage, hget, hget'⟩
  · rw [hget, hget']
    exact .inr ⟨rfl, rfl⟩
  rw [hget, hget', ok_bind]
  rw [← hw] at hmessages
  have hreadMessage : m.nodeData (some w.node.node) = .ok (some w.node.data.address) :=
    nodeData_opened (holds_opened hmessages).1
  dsimp only
  rw [hreadMessage]
  exact .inl ⟨⟨y, z, w, hy, hz, hw, haccount, hqueue, hmessage⟩, rfl, rfl⟩

theorem owns_path {p : PathTo x cmd} (hm : Owns m (footprint x)) :
    Owns m (footprint p.message.node.data + p.others) := by
  rw [← p.footprint_eq]
  exact hm

theorem owns_messages {p : PathTo x cmd} (hm : Owns m (footprint x)) :
    Owns m (footprint p.message.closed) := by
  have hm' := owns_path (p := p) hm
  rw [PathTo.others, ← Multiset.add_assoc] at hm'
  rw [footprint_closed]
  exact hm'.part

theorem holds_messages {p : PathTo x cmd} (hx : Holds m x) : Holds m p.message.closed :=
  holds_closed (path_holds p hx).1.message (path_holds p hx).2

/-- What is done to the message is done to the store. -/
theorem Turns.atMessage {p : PathTo x cmd} {v : PlacedMessage}
    (h : Turns m m' p.message.node.data v told) (haddress : v.address = p.message.node.data.address)
    (hx : Holds m x) (hm : Owns m (footprint x)) :
    Turns m m' x (p.replace (p.message.withData v).closed) told :=
  (h.lift haddress (holds_messages hx) (owns_messages hm)).atPath rfl hx hm

theorem keys_account {p : PathTo x cmd} (hx : Holds m x) :
    (p.account.closed.nodes.map PlacedNode.key).Nodup := by
  rw [p.account_eq]
  exact Placed.Holds.keys hx

theorem keys_queue {p : PathTo x cmd} (hx : Holds m x) :
    (p.queue.closed.nodes.map PlacedNode.key).Nodup :=
  Opened.Holds.keys (path_holds p hx).1.queue

/-- The store with other messages in the queue, in the list model. -/
theorem erase_replace {p : PathTo x cmd} (hx : Holds m x) (z : PlacedMessages) :
    erase (p.replace z) = (erase x).setData cmd.account
      (some (p.foundErased.queues.setData cmd.queue (some (erase z)))) := by
  have hqueue := erase_withData (keys_queue (p := p) hx) z
  have haccount := erase_withData (keys_account (p := p) hx) (p.queue.withData z).closed
  rw [← hqueue, p.account_key, p.queue_key, p.account_eq, p.queue_eq] at haccount
  exact haccount.symm

theorem erase_write {p : PathTo x cmd} (hx : Holds m x) (v : PlacedMessage) :
    erase (p.message.withData v).closed =
      p.foundErased.messages.setData cmd.messageId (some v.message) := by
  have hmessage := erase_withData (Placed.Holds.keys (holds_messages (p := p) hx)) v
  rw [p.message_key, p.message_eq] at hmessage
  exact hmessage.symm

/-! ## Taking a message out -/

/-- The queue without the message, and what becomes of the containers. -/
theorem erase_unlink {p : PathTo x cmd} (hx : Holds m x) :
    p.foundErased.unlink cmd (erase x) =
      Memory.deleteIfEmpty (erase p.account.closed) p.account.node.key p.queue.node.key
        (erase p.queue.closed) (erase p.message.without) := by
  have hdelete := erase_without (Placed.Holds.keys (holds_messages (p := p) hx))
  rw [p.message_key, p.message_eq] at hdelete
  rw [Memory.FoundMessage.unlink, PathTo.foundErased, hdelete, p.account_key, p.queue_key,
    p.account_eq, p.queue_eq]

/-- **A message is freed as a whole, and its node is unlinked** with the containers that this
empties. -/
theorem remove_turns (p : PathTo x cmd) (hx : Holds m x) (hm : Owns m (footprint x)) :
    ∃ m₁ m₂ x', m.freeWhole (some p.found.message) = .ok m₁ ∧
      p.found.unlink x.address cmd m₁ = .ok m₂ ∧ Turns m m₂ x x' [] ∧ x'.address = x.address ∧
      erase x' = p.foundErased.unlink cmd (erase x) := by
  obtain ⟨hpath, hdata⟩ := path_holds p hx
  have hm' := owns_path (p := p) hm
  obtain ⟨m₁, hfree, hfreed⟩ := freeWhole_does hdata hm'.part
  have hpath₁ := hpath.congr fun b hb => hfreed.toChanges.same_rest hm' hb
  have hrest := owns_opened (owns_messages (p := p) hm)
  have hgone := (hfreed.frame hrest).congr (footprint_closed _).symm (Multiset.zero_add _)
  obtain ⟨m₂, hdelete, hdeleted, hwithout⟩ := unlink_does hpath₁.message
    hgone.after (readChars_given m₁.toHeap cmd.messageId p.message_key)
  have hturns : Turns m m₂ p.message.closed p.message.without [] :=
    ⟨hgone.trans hdeleted, hwithout⟩
  have hlift := hturns.atPath (p := p) rfl hx hm
  have hqueueKey : ∀ m' : BackendHeap,
      m'.toHeap.readChars (.given cmd.queue) = .ok p.queue.node.key :=
    fun m' => readChars_given m'.toHeap cmd.queue p.queue_key
  have haccountKey : ReadsAs m₂ 0 (.given cmd.account) p.account.node.key :=
    ⟨(readsAs_given m₂ 0 cmd.account).blocks,
      readChars_given m₂.toHeap cmd.account p.account_key⟩
  obtain ⟨m₃, m₄, x', hqueue, haccount, hpruned, haddress, herase⟩ := prune_turns
    (x := p.account) (y := p.queue) (z := p.message.without) hlift.holds
    (by rw [Multiset.add_zero]; exact hlift.after) (fun m => m.nodeData (some p.found.account))
    (.given cmd.queue) (fun m' hm' _ _ => ⟨nodeData_opened hm', hqueueKey m'⟩) haccountKey
  have hself : p.account.address = x.address := congrArg Placed.address p.account_eq
  rw [hself] at haccount
  refine ⟨m₁, m₄, x', hfree, ?_, hlift.trans hpruned, haddress.trans hself, ?_⟩
  · rw [FoundMessage.unlink, readMessages_path hpath₁, ok_bind, hdelete, ok_bind]
    change (deleteIfEmpty p.queue.node.node _ (.given cmd.queue) m₂ >>= _) = _
    rw [hqueue, ok_bind]
    exact haccount
  · rw [herase, erase_unlink hx]

end Path

/-! ## The commands -/

section Commands

variable {m : BackendHeap} {x : PlacedAccounts} {inputs : MessageInputs} {cmd : BackendCommand}
  {o : Outcome}

/-- What a command that returns a result answers is what the list model says. -/
def Returns (m : BackendHeap) (x : PlacedAccounts)
    (answer : Except BackendFault (Int × BackendHeap)) (o : Outcome) : Prop :=
  ∃ m' x', answer = .ok (o.result, m') ∧ Turns m m' x x' o.callbacks ∧ x'.address = x.address ∧
    erase x' = o.accounts

theorem deleteMessage_returns (hx : Holds m x) (hm : Owns m (footprint x))
    (hspec : Memory.burrowBackendMemoryDeleteMessage inputs cmd (erase x) = .ok o) :
    Returns m x (burrowBackendMemoryDeleteMessage x.address inputs cmd m) o := by
  rw [Memory.burrowBackendMemoryDeleteMessage] at hspec
  rw [burrowBackendMemoryDeleteMessage]
  rcases findMessage_cases hx cmd with ⟨p, hfind, hfind'⟩ | ⟨hfind, hfind'⟩
  · have hdata := (path_holds p hx).2
    have hread : m.readMessage (some p.found.message) = .ok p.message.node.data.block :=
      readMessage_placed hdata
    rw [hfind] at hspec
    rw [hfind', ok_bind]
    dsimp only
    rw [hread, ok_bind]
    dsimp only at hspec
    by_cases hlive : p.foundErased.message.ttl > inputs.time
    · have hlive' : p.message.node.data.block.ttl > inputs.time := hlive
      rw [if_pos hlive] at hspec
      cases hspec
      have hcallback := callbackMessage_placed hdata
        (Memory.remainingTimes inputs.time p.foundErased.message inputs.attributes)
      have hturns := callback_turns hx hm (messageCallback p.foundErased.message
        (Memory.remainingTimes inputs.time p.foundErased.message inputs.attributes))
      obtain ⟨m₂, m₃, x', hfree, hunlink, hremove, haddress, herase⟩ :=
        remove_turns p hturns.holds hturns.after
      refine ⟨m₃, x', ?_, hturns.trans hremove, haddress, herase⟩
      rw [if_pos hlive']
      refine (congrArg (· >>= _) hcallback).trans ?_
      rw [ok_bind]
      refine (congrArg (· >>= _) hfree).trans ?_
      rw [ok_bind, hunlink]
      rfl
    · have hlive' : ¬ p.message.node.data.block.ttl > inputs.time := hlive
      rw [if_neg hlive] at hspec
      cases hspec
      obtain ⟨m₂, m₃, x', hfree, hunlink, hremove, haddress, herase⟩ := remove_turns p hx hm
      refine ⟨m₃, x', ?_, hremove, haddress, herase⟩
      rw [if_neg hlive', pure_bind, hfree, ok_bind, hunlink]
      rfl
  · rw [hfind] at hspec
    cases hspec
    rw [hfind']
    exact ⟨m, x, rfl, Turns.refl hx hm, rfl, rfl⟩

theorem updateMessage_returns (hx : Holds m x) (hm : Owns m (footprint x))
    (hspec : Memory.burrowBackendMemoryUpdateMessage inputs cmd (erase x) = .ok o) :
    Returns m x (burrowBackendMemoryUpdateMessage x.address inputs cmd m) o := by
  rw [Memory.burrowBackendMemoryUpdateMessage] at hspec
  rw [burrowBackendMemoryUpdateMessage]
  rcases findMessage_cases hx cmd with ⟨p, hfind, hfind'⟩ | ⟨hfind, hfind'⟩
  · have hdata := (path_holds p hx).2
    have hread : m.readMessage (some p.found.message) = .ok p.message.node.data.block :=
      readMessage_placed hdata
    rw [hfind] at hspec
    rw [hfind', ok_bind]
    dsimp only
    rw [hread, ok_bind]
    dsimp only at hspec
    by_cases hexpired : p.foundErased.message.ttl ≤ inputs.time
    · have hexpired' : p.message.node.data.block.ttl ≤ inputs.time := hexpired
      rw [if_pos hexpired] at hspec
      cases hspec
      obtain ⟨m₂, m₃, x', hfree, hunlink, hremove, haddress, herase⟩ := remove_turns p hx hm
      refine ⟨m₃, x', ?_, hremove, haddress, herase⟩
      rw [if_pos hexpired', hfree, ok_bind, hunlink]
      rfl
    · have hexpired' : ¬ p.message.node.data.block.ttl ≤ inputs.time := hexpired
      rw [if_neg hexpired] at hspec
      split at hspec
      · exact absurd hspec (by simp)
      · next ttl hide hattributes =>
          cases hspec
          have hdataTurns := writeMessage_turns hdata (owns_path (p := p) hm).part
            (show (Memory.applyDeadlines ttl hide p.foundErased.message).messageId = _ from rfl)
            rfl
          have hturns := hdataTurns.atMessage (p := p) rfl hx hm
          have hcallback := callbackMessage_placed hdataTurns.holds (Memory.remainingTimes
            inputs.time (Memory.applyDeadlines ttl hide p.foundErased.message) inputs.attributes)
          have htold := callback_turns hturns.holds hturns.after (messageCallback
            (Memory.applyDeadlines ttl hide p.foundErased.message) (Memory.remainingTimes
              inputs.time (Memory.applyDeadlines ttl hide p.foundErased.message)
                inputs.attributes))
          have hself : p.account.address = x.address := congrArg Placed.address p.account_eq
          refine ⟨_, _, ?_, hturns.trans htold, hself, ?_⟩
          · rw [if_neg hexpired', hattributes, fromArguments, Except.mapError, ok_bind]
            exact congrArg (· >>= fun m => pure ((0 : Int), m)) hcallback
          · rw [erase_replace hx, erase_write hx]
            rfl
  · rw [hfind] at hspec
    cases hspec
    rw [hfind']
    exact ⟨m, x, rfl, Turns.refl hx hm, rfl, rfl⟩

theorem getMessage_returns (hx : Holds m x) (hm : Owns m (footprint x))
    (hspec : Memory.burrowBackendMemoryGetMessage inputs cmd (erase x) = .ok o) :
    Returns m x (burrowBackendMemoryGetMessage x.address inputs cmd m) o := by
  rw [Memory.burrowBackendMemoryGetMessage] at hspec
  rw [burrowBackendMemoryGetMessage]
  rcases findMessage_cases hx cmd with ⟨p, hfind, hfind'⟩ | ⟨hfind, hfind'⟩
  · have hdata := (path_holds p hx).2
    have hread : m.readMessage (some p.found.message) = .ok p.message.node.data.block :=
      readMessage_placed hdata
    rw [hfind] at hspec
    dsimp only at hspec
    have hlive : ¬ p.foundErased.message.ttl ≤ inputs.time := fun hle => by
      rw [if_pos hle] at hspec
      exact absurd hspec (by simp)
    have hlive' : ¬ p.message.node.data.block.ttl ≤ inputs.time := hlive
    rw [if_neg hlive] at hspec
    cases hspec
    have hcallback := callbackMessage_placed hdata
      (Memory.remainingTimes inputs.time p.foundErased.message inputs.attributes)
    refine ⟨_, x, ?_, callback_turns hx hm _, rfl, rfl⟩
    rw [hfind', ok_bind]
    dsimp only
    rw [hread, ok_bind, if_neg hlive']
    exact congrArg (· >>= fun m => pure ((0 : Int), m)) hcallback
  · rw [hfind] at hspec
    cases hspec
    rw [hfind']
    exact ⟨m, x, rfl, Turns.refl hx hm, rfl, rfl⟩

/-- **An expired message is read after it was freed.** -/
theorem getMessage_faults {e : Fault} (hx : Holds m x)
    (hspec : Memory.burrowBackendMemoryGetMessage inputs cmd (erase x) = .error e) :
    burrowBackendMemoryGetMessage x.address inputs cmd m = .error .danglingPointer := by
  rw [Memory.burrowBackendMemoryGetMessage] at hspec
  rw [burrowBackendMemoryGetMessage]
  rcases findMessage_cases hx cmd with ⟨p, hfind, hfind'⟩ | ⟨hfind, -⟩
  · rw [hfind] at hspec
    dsimp only at hspec
    have hexpired : p.foundErased.message.ttl ≤ inputs.time := by
      by_contra hlive
      rw [if_neg hlive] at hspec
      exact absurd hspec (by simp)
    have hdata := (path_holds p hx).2
    have hread : m.readMessage (some p.found.message) = .ok p.message.node.data.block :=
      readMessage_placed hdata
    have hexpired' : p.message.node.data.block.ttl ≤ inputs.time := hexpired
    have hfree : m.freeMessage p.found.message = .ok { m with
        messages := Function.update m.messages p.found.message none } := by
      have hthere : m.messages p.found.message = some _ := PlacedMessage.Holds.message hdata
      rw [BackendHeap.freeMessage, hthere]
    have hgone : BackendHeap.readMessage (some p.found.message) { m with
        messages := Function.update m.messages p.found.message none } =
          .error .danglingPointer := by
      rw [BackendHeap.readMessage]
      dsimp only
      rw [Function.update_self]
    rw [hfind', ok_bind]
    dsimp only
    rw [hread, ok_bind, if_pos hexpired', hfree, ok_bind, hgone]
    rfl
  · rw [hfind] at hspec
    exact absurd hspec (by simp)

end Commands

end Burrow.Memory.Chained
