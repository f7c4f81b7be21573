import Burrow.Memory.LinkedSingle

/-!
# `create_message` in memory

The message, its id and its body are three new blocks (`newMessage_does`). They are linked into
the queue, which is made with its account where these are not there (`getCreate_cases`). Where
the queue has a message with the id, that message is freed but neither its id nor its body:
these two blocks are lost (`linkQueue_moves`).

A node is appended where `HasRoom` says that an `int` can count it.
-/

set_option autoImplicit false

namespace Burrow.Memory.Chained

open Ownership KeyedList

/-! ## A new message -/

section New

variable {m : BackendHeap}

/-- The message that `create_message` makes in three new blocks. -/
def newPlaced (m : BackendHeap) (message : BurrowMessage) : PlacedMessage where
  address := m.next
  bodyAt := m.next + 1
  messageIdAt := m.next + 2
  message := message

/-- The memory behind the new message. -/
def withMessage (m : BackendHeap) (body : List UInt8) (message : BurrowMessage) : BackendHeap :=
  let (_, m₁) := mallocMessage true
    { messageId := 0, body := 0, bodySize := 0, ttl := 0, hide := 0 } m
  let (_, m₂) := mallocBody true body m₁
  let (_, m₃) := mallocText true "" m₂
  let m₄ : BackendHeap :=
    { m₃ with
      bodies := Function.update m₃.bodies (m.next + 1) (some message.body)
      texts := Function.update m₃.texts (m.next + 2) (some message.messageId) }
  m₄.writeMessage m.next (newPlaced m message).block

/-- The three blocks are new, and hold the message in the end. -/
theorem newMessage_does (hm : Owns m (0 : Multiset Block)) (body : List UInt8)
    (message : BurrowMessage) :
    Does m (withMessage m body message) 0 (footprint (newPlaced m message)) [] ∧
      Holds (withMessage m body message) (newPlaced m message) := by
  have hholds : Holds (withMessage m body message) (newPlaced m message) :=
    ⟨Function.update_self .., Function.update_self .., Function.update_self ..⟩
  have hmem : ∀ b : Block, b ∈ footprint (newPlaced m message) ↔
      b = .message m.next ∨ b = .text (m.next + 2) ∨ b = .body (m.next + 1) := by
    intro b
    change b ∈ ({Block.message m.next} + ({.text (m.next + 2)} + {.body (m.next + 1)}) :
      Multiset Block) ↔ _
    simp only [Multiset.mem_add, Multiset.mem_singleton]
  refine ⟨does_of hm ?_ ?_ ?_ ?_ ?_ ?_ ?_ rfl, hholds⟩
  · change (Block.message m.next ::ₘ Block.text (m.next + 2) ::ₘ {Block.body (m.next + 1)}).Nodup
    simp
  · intro b _ hb
    rw [hmem, not_or, not_or] at hb
    cases b with
    | message a =>
        have hne : a ≠ m.next := fun heq => hb.1 (congrArg Block.message heq)
        exact (Function.update_of_ne hne ..).trans (Function.update_of_ne hne ..)
    | text a =>
        have hne : a ≠ m.next + 2 := fun heq => hb.2.1 (congrArg Block.text heq)
        exact (Function.update_of_ne hne ..).trans (Function.update_of_ne hne ..)
    | body a =>
        have hne : a ≠ m.next + 1 := fun heq => hb.2.2 (congrArg Block.body heq)
        exact (Function.update_of_ne hne ..).trans (Function.update_of_ne hne ..)
    | _ => rfl
  · intro b hb
    rcases (hmem b).1 hb with rfl | rfl | rfl
    · exact .inr (Nat.le_refl _)
    · exact .inr (Nat.le_add_right _ 2)
    · exact .inr (Nat.le_add_right _ 1)
  · intro b hb
    rcases (hmem b).1 hb with rfl | rfl | rfl
    · exact fun hno => Option.some_ne_none _ ((PlacedMessage.Holds.message hholds).symm.trans hno)
    · exact fun hno => Option.some_ne_none _ ((PlacedMessage.Holds.text hholds).symm.trans hno)
    · exact fun hno => Option.some_ne_none _ ((PlacedMessage.Holds.body hholds).symm.trans hno)
  · intro b hb
    change b.address < m.next + 3
    rcases (hmem b).1 hb with rfl | rfl | rfl
    · exact Nat.lt_add_of_pos_right (Nat.succ_pos 2)
    · exact Nat.lt_succ_self (m.next + 2)
    · exact Nat.lt_succ_of_lt (Nat.lt_succ_self (m.next + 1))
  · exact fun b hb => absurd hb (Multiset.notMem_zero b)
  · exact Nat.le_add_right _ 3

end New

/-! ## Accounts and queues -/

section GetCreate

variable {α β : Type} [Pointed α β] {m : BackendHeap} {x : Placed (Placed α)} {key : String}

/-- A dictionary with a new node at the end. -/
def Placed.opened (x : Placed α) (n : PlacedNode α) : Opened α := ⟨x.address, x.nodes, n, []⟩

theorem getCreate_erase_new (hkeys : (x.nodes.map PlacedNode.key).Nodup)
    (hno : Memory.dictionaryGet (some (erase x)) (some key) = none) {mem : CreateMemory}
    (hmem : mem.Succeeds) (m : BackendHeap) (d : Address) :
    Memory.dictionaryGetCreate mem (some (erase x)) key =
      (some (erase (x.snoc (newNode m key ⟨d, []⟩))),
        some (PlacedNode.erased (newNode m key (⟨d, []⟩ : Placed α)))) := by
  have hk : key ∉ (erase x).keys := ((erase_wellFormed hkeys).get_eq_none_iff key).1 hno
  have hsnoc : erase (x.snoc (newNode m key ⟨d, []⟩)) =
      (erase x).snoc key (some (Dictionary.ofNodes [])) := by
    change Dictionary.ofNodes (List.map _ (x.nodes ++ [_])) = _
    rw [List.map_append, Dictionary.ofNodes, List.length_append]
    rfl
  rw [Memory.dictionaryGetCreate, hno]
  dsimp only
  rw [dictionaryAdd_some, if_pos hmem.1, hmem.2, hsnoc]
  exact congrArg (fun d => (some d, _)) (Dictionary.setData_snoc none _ hk)

/-- **`dictionary_get(.., CREATE)`** answers a node with the key, in a dictionary that has it. -/
theorem getCreate_cases (hx : Holds m x) (hm : Owns m (footprint x))
    {chars : Chars} (hchars : m.toHeap.readChars chars = .ok key)
    (hroom : Memory.dictionaryGet (some (erase x)) (some key) = none →
      (x.nodes.length : Int) < intMax) {mem : CreateMemory} (hmem : mem.Succeeds) :
    ∃ m', ∃ y : Opened (Placed α),
      m.getCreate mem (some x.address) chars = .ok (some y.node.node, m') ∧
      Turns m m' x y.closed [] ∧ y.address = x.address ∧ y.node.key = key ∧
      Memory.dictionaryGetCreate mem (some (erase x)) key =
        (some (erase y.closed), some y.node.erased) ∧
      (Memory.dictionaryGet (some (erase x)) (some key) = some y.node.erased ∨
        Memory.dictionaryGet (some (erase x)) (some key) = none ∧ y.node.data.nodes = []) := by
  have hkeys := Placed.Holds.keys hx
  rcases search_cases hx hchars with ⟨hget, -⟩ | ⟨y, rfl, rfl, hget, -⟩
  · have hno : key ∉ x.nodes.map PlacedNode.key := by
      have hk := ((erase_wellFormed hkeys).get_eq_none_iff key).1 hget
      change key ∉ (x.nodes.map PlacedNode.erased).map DictionaryNode.key at hk
      rwa [keys_erased] at hk
    obtain ⟨m', hcreate, hturns⟩ := getCreate_new hx hm hchars hno (hroom hget) hmem
    exact ⟨m', x.opened (newNode m key ⟨m.next + 2, []⟩), hcreate, hturns, rfl, rfl,
      getCreate_erase_new hkeys hget hmem m (m.next + 2), .inr ⟨hget, rfl⟩⟩
  · refine ⟨_, y, getCreate_mem hx (node_mem_closed y) hchars hmem, ⟨does_skip hm 3, ?_⟩, rfl,
      rfl, ?_, .inl hget⟩
    · exact Located.congr (fun b _ => Block.same_refl m b) hx
    · rw [Memory.dictionaryGetCreate, hget]

end GetCreate

/-! ## Into the queue -/

/-- How many nodes the list has that `create_message` appends to; it appends to none where the
message is there. A list that it makes itself is empty. -/
def appendedTo (s : AccountsSt) (cmd : BackendCommand) : Option Nat :=
  match Memory.dictionaryGet (some s) (some cmd.account) with
  | none => some s.nodes.length
  | some account =>
      account.data.bind fun queues =>
        match Memory.dictionaryGet (some queues) (some cmd.queue) with
        | none => some queues.nodes.length
        | some queue =>
            queue.data.bind fun messages =>
              match Memory.dictionaryGet (some messages) (some cmd.messageId) with
              | none => some messages.nodes.length
              | some _ => none

section AppendedTo

variable {s : AccountsSt} {queues : QueuesSt} {messages : MessagesSt} {cmd : BackendCommand}
  {account : DictionaryNode QueuesSt} {queue : DictionaryNode MessagesSt}

theorem appendedTo_accounts
    (haccount : Memory.dictionaryGet (some s) (some cmd.account) = none) :
    appendedTo s cmd = some s.nodes.length := by
  rw [appendedTo, haccount]

theorem appendedTo_queues
    (haccount : Memory.dictionaryGet (some s) (some cmd.account) = some account)
    (hqueues : account.data = some queues)
    (hqueue : Memory.dictionaryGet (some queues) (some cmd.queue) = none) :
    appendedTo s cmd = some queues.nodes.length := by
  rw [appendedTo, haccount]
  dsimp only
  rw [hqueues, Option.bind_some, hqueue]

/-- The message is looked up in a queue that is there. -/
theorem appendedTo_messages
    (haccount : Memory.dictionaryGet (some s) (some cmd.account) = some account)
    (hqueues : account.data = some queues)
    (hqueue : Memory.dictionaryGet (some queues) (some cmd.queue) = some queue)
    (hmessages : queue.data = some messages) :
    appendedTo s cmd =
      if (Memory.dictionaryGet (some messages) (some cmd.messageId)).isSome then none
      else some messages.nodes.length := by
  rw [appendedTo, haccount]
  dsimp only
  rw [hqueues, Option.bind_some, hqueue]
  dsimp only
  rw [hmessages, Option.bind_some]
  cases Memory.dictionaryGet (some messages) (some cmd.messageId) <;> rfl

end AppendedTo

/-- An `int` can count a node more. -/
def HasRoom (s : AccountsSt) (cmd : BackendCommand) : Prop :=
  ∀ n ∈ appendedTo s cmd, (n : Int) < intMax

/-- The message that `create_message` takes out of its node, where one is there. -/
def overwritten (s : AccountsSt) (cmd : BackendCommand) : List BurrowMessage :=
  ((Memory.findMessage s cmd).map Memory.FoundMessage.message).toList

/-- What is left of overwritten messages: their ids and their bodies. -/
def remains (vs : List PlacedMessage) : Multiset Block := (vs.map PlacedMessage.contents).sum

/-- The id and the body of each are there still. -/
def Remain (m : BackendHeap) (vs : List PlacedMessage) : Prop :=
  ∀ v ∈ vs, m.texts v.messageIdAt = some v.message.messageId ∧
    m.bodies v.bodyAt = some v.message.body

section Link

variable {m : BackendHeap} {z : PlacedMessages} {v : PlacedMessage} {inputs : CreateInputs}
  {cmd : BackendCommand}

theorem readNode_congr {m m' : BackendHeap} {a : Address} (h : Block.Same m m' (.node a)) :
    m'.dictionaryRead (·.readNode (some a)) = m.dictionaryRead (·.readNode (some a)) := by
  have hnode : m'.nodes a = m.nodes a := h
  rw [BackendHeap.dictionaryRead, BackendHeap.dictionaryRead, Heap.readNode, Heap.readNode, hnode]

/-- The message of a node is freed, and the node is given another one; the id and the body of
the first are left where they are. -/
theorem overwrite_moves {w : Opened PlacedMessage} (hw : Holds m w.closed) (hv : Holds m v)
    (hm : Owns m (footprint w.closed + footprint v)) :
    ∃ node m₁ m₂, m.dictionaryRead (·.readNode (some w.node.node)) = .ok node ∧
      node.data = some w.node.data.address ∧ m.freeMessage w.node.data.address = .ok m₁ ∧
      m₂ = { m₁ with
        toHeap := m₁.writeNode w.node.node { node with data := some v.address } } ∧
      Moves m m₂ w.closed (footprint v) (w.withData v).closed (remains [w.node.data]) [] ∧
      Remain m₂ [w.node.data] := by
  obtain ⟨hopened, hdata⟩ := holds_opened hw
  obtain ⟨node, hread, -, hpointer⟩ := readNode_opened hopened
  have hm' : Owns m ({.message w.node.data.address} +
      (around w + (footprint v + w.node.data.contents))) := by
    refine (congrArg (Owns m) ?_).mp hm
    rw [footprint_closed]
    change {.message w.node.data.address} + w.node.data.contents + _ + _ = _
    abel
  obtain ⟨m₁, hfree, hfreed⟩ := freeMessage_does hm'.part
  have hrest := (hfreed.frame hm').congr rfl (Multiset.zero_add _)
  have hopened₁ := hfreed.toChanges.holds (by rw [← Multiset.add_assoc] at hm'; exact hm'.part)
    hopened
  have hsame : ∀ b ∈ around w + (footprint v + w.node.data.contents), Block.Same m m₁ b :=
    fun b hb => hfreed.toChanges.same_rest hm' hb
  obtain ⟨node₁, hread₁, -, hretarget, hholds⟩ := retarget_does hopened₁ hrest.after.part v
  obtain rfl : node₁ = node := Except.ok.inj (hread₁.symm.trans
    ((readNode_congr (hsame _ (Multiset.mem_add.2 (.inl (node_mem_around w))))).trans hread))
  have hv₁ : Holds m₁ v := Located.congr
    (fun b hb => hsame b (Multiset.mem_add.2 (.inr (Multiset.mem_add.2 (.inl hb))))) hv
  have hv₂ := hretarget.toChanges.holds (x := v)
    (by have hafter := hrest.after; rw [← Multiset.add_assoc] at hafter; exact hafter.part) hv₁
  refine ⟨node₁, m₁, _, hread, hpointer, hfree, rfl, ⟨?_, holds_closed hholds hv₂⟩, ?_⟩
  · refine (hrest.seq_quiet hretarget).congr ?_ ?_
    · rw [footprint_closed]
      change _ = {.message w.node.data.address} + w.node.data.contents + _ + _
      abel
    · rw [footprint_closed]
      change _ = footprint v + _ + (w.node.data.contents + 0)
      abel
  · intro u hu
    rw [List.mem_singleton] at hu
    subst hu
    have hcontents : ∀ b ∈ w.node.data.contents, Block.Same m m₁ b := fun b hb =>
      hsame b (Multiset.mem_add.2 (.inr (Multiset.mem_add.2 (.inr hb))))
    exact ⟨(hcontents _ (Multiset.mem_add.2 (.inl (Multiset.mem_singleton_self _)))).trans
        (PlacedMessage.Holds.text hdata),
      (hcontents _ (Multiset.mem_add.2 (.inr (Multiset.mem_singleton_self _)))).trans
        (PlacedMessage.Holds.body hdata)⟩

/-- **The message goes into the queue**; of one with its id that was there the id and the body
remain. -/
theorem linkQueue_moves (hz : Holds m z) (hv : Holds m v)
    (hm : Owns m (footprint z + footprint v)) (hid : v.message.messageId = cmd.messageId)
    (hroom : Memory.dictionaryGet (some (erase z)) (some cmd.messageId) = none →
      (z.nodes.length : Int) < intMax) (hmem : inputs.node.Succeeds) (account : Address)
    {queue : Address} (hqueue : m.nodeData (some queue) = .ok (some z.address)) :
    ∃ m' z' vs, linkQueue inputs cmd account queue v.address m = .ok m' ∧
      Moves m m' z (footprint v) z' (remains vs) [] ∧ Remain m' vs ∧ z'.address = z.address ∧
      vs.map erase =
        ((Memory.dictionaryGet (some (erase z)) (some cmd.messageId)).bind (·.data)).toList ∧
      (match Memory.dictionaryGet (some (erase z)) (some v.message.messageId) with
        | some node => some ((erase z).setData node.key (some v.message))
        | none => Memory.dictionaryAdd inputs.node (some (erase z)) v.message.messageId
            (some v.message)) = some (erase z') := by
  have hchars := readId_placed hv
  rw [hid] at hchars
  rw [linkQueue, hqueue, ok_bind, readMessage_placed hv, ok_bind, hid]
  change ∃ m' z' vs, (m.get (some z.address) (.block v.messageIdAt) >>= _) = _ ∧ _
  rcases search_cases hz hchars with ⟨hget, hget'⟩ | ⟨w, rfl, hkey, hget, hget'⟩
  · have hno : cmd.messageId ∉ z.nodes.map PlacedNode.key := by
      have hk := ((erase_wellFormed (Placed.Holds.keys hz)).get_eq_none_iff _).1 hget
      change cmd.messageId ∉ (z.nodes.map PlacedNode.erased).map DictionaryNode.key at hk
      rwa [keys_erased] at hk
    obtain ⟨m', hadd, hdoes, hholds⟩ := add_placed hz hv hm hchars hno (hroom hget)
      hmem
    refine ⟨m', z.snoc (newNode m cmd.messageId v), [], ?_, ⟨hdoes.congr rfl
      (Multiset.add_zero _).symm, hholds⟩, by simp [Remain], rfl, ?_, ?_⟩
    · rw [hget', ok_bind]
      dsimp only
      change (m.add inputs.node (some z.address) (.block v.messageIdAt) (some v.address) >>= _) = _
      rw [show m.add inputs.node (some z.address) (.block v.messageIdAt) (some v.address) = _
        from hadd, ok_bind]
      rfl
    · rw [hget]
      rfl
    · rw [hget, dictionaryAdd_some, if_pos hmem]
      change _ = some (Dictionary.ofNodes (List.map _ (z.nodes ++ [_])))
      rw [List.map_append, Dictionary.ofNodes, List.length_append]
      rfl
  · obtain ⟨node, m₁, m₂, hread, hdata, hfree, hm₂, hmoves, hremain⟩ := overwrite_moves hz hv hm
    refine ⟨m₂, (w.withData v).closed, [w.node.data], ?_, hmoves, hremain, rfl, ?_, ?_⟩
    · rw [show m.get (some w.closed.address) (.block v.messageIdAt) = _ from hget', ok_bind]
      dsimp only
      rw [hread, ok_bind, hdata]
      change (m.freeMessage w.node.data.address >>= _) = _
      rw [hfree, ok_bind, hm₂]
      rfl
    · rw [hget]
      rfl
    · rw [hget]
      exact congrArg some (erase_withData (Placed.Holds.keys hz) v)

/-- What the list model stores, where the allocations succeed. -/
theorem linkMessage_eq {message : BurrowMessage} {s : AccountsSt} {accounts : AccountsSt}
    {queues : QueuesSt} {account : DictionaryNode QueuesSt} {accountData : QueuesSt}
    {queue : DictionaryNode MessagesSt} {messages stored : MessagesSt}
    (haccount : Memory.dictionaryGetCreate inputs.account (some s) cmd.account =
      (some accounts, some account)) (hdata : account.data = some accountData)
    (hqueue : Memory.dictionaryGetCreate inputs.queue (some accountData) cmd.queue =
      (some queues, some queue)) (hmessages : queue.data = some messages)
    (hstored : (match Memory.dictionaryGet (some messages) (some message.messageId) with
      | some node => some (messages.setData node.key (some message))
      | none => Memory.dictionaryAdd inputs.node (some messages) message.messageId
          (some message)) = some stored) :
    Memory.linkMessage inputs cmd message s =
      .ok ⟨accounts.setData cmd.account (some (queues.setData cmd.queue (some stored))), [],
        0⟩ := by
  rw [Memory.linkMessage, haccount]
  dsimp only [Option.getD_some]
  rw [Memory.linkQueue, hdata, hqueue]
  dsimp only
  rw [hmessages]
  dsimp only
  cases hget : Memory.dictionaryGet (some messages) (some message.messageId) with
  | some node =>
      rw [hget] at hstored
      cases hstored
      dsimp only
      rw [Dictionary.setData_setData]
  | none =>
      rw [hget] at hstored
      dsimp only at hstored ⊢
      rw [hstored]
      dsimp only
      rw [Dictionary.setData_setData]

theorem dictionaryGet_nil {α β : Type} [Pointed α β] {x : Placed α} (h : x.nodes = [])
    (key : String) : Memory.dictionaryGet (some (erase x)) (some key) = none := by
  change Memory.dictionaryGet (some (Dictionary.ofNodes (x.nodes.map _))) _ = _
  rw [h]
  rfl

/-- The message with the id is the one in the queue; a queue that is made has none. -/
theorem found_there {x : PlacedAccounts} {y : Opened PlacedQueues} {z : Opened PlacedMessages}
    (haccount : Memory.dictionaryGet (some (erase x)) (some cmd.account) = some y.node.erased ∨
      Memory.dictionaryGet (some (erase x)) (some cmd.account) = none ∧ y.node.data.nodes = [])
    (hqueue : Memory.dictionaryGet (some (erase y.node.data)) (some cmd.queue) =
        some z.node.erased ∨
      Memory.dictionaryGet (some (erase y.node.data)) (some cmd.queue) = none ∧
        z.node.data.nodes = [])
    (hroom : HasRoom (erase x) cmd) (hkeys : (z.node.data.nodes.map PlacedNode.key).Nodup) :
    overwritten (erase x) cmd = ((Memory.dictionaryGet (some (erase z.node.data))
        (some cmd.messageId)).bind (·.data)).toList ∧
      (Memory.dictionaryGet (some (erase z.node.data)) (some cmd.messageId) = none →
        (z.node.data.nodes.length : Int) < intMax) := by
  rw [overwritten, Memory.findMessage]
  rcases hqueue with hqueue | ⟨hqueue, hnil⟩
  · rcases haccount with haccount | ⟨-, hnil⟩
    · have hmessages : z.node.erased.data = some (erase z.node.data) := rfl
      have hqueues : y.node.erased.data = some (erase y.node.data) := rfl
      have hget := erase_get hkeys cmd.messageId
      rw [haccount]
      dsimp only
      rw [hqueues]
      dsimp only
      rw [hqueue]
      dsimp only
      rw [hmessages]
      dsimp only
      refine ⟨?_, fun hno => hroom _ ?_⟩
      · rw [hget]
        cases z.node.data.nodes.find? (hasKey PlacedNode.key cmd.messageId) <;> rfl
      · rw [appendedTo_messages haccount hqueues hqueue hmessages, hno]
        exact congrArg some (List.length_map _)
    · rw [dictionaryGet_nil hnil] at hqueue
      exact absurd hqueue (by simp)
  · rw [dictionaryGet_nil hnil, hnil]
    refine ⟨?_, fun _ => by decide⟩
    rcases haccount with haccount | ⟨haccount, -⟩
    · have hqueues : y.node.erased.data = some (erase y.node.data) := rfl
      rw [haccount]
      dsimp only
      rw [hqueues]
      dsimp only
      rw [hqueue]
      rfl
    · rw [haccount]
      rfl

/-- **The second part of `create_message`**, with the account and the queue. -/
theorem linkMessage_moves {x : PlacedAccounts} (hx : Holds m x) (hv : Holds m v)
    (hm : Owns m (footprint x + footprint v)) (hid : v.message.messageId = cmd.messageId)
    (hroom : HasRoom (erase x) cmd) (hmem : inputs.LinksSucceed) (body messageId : Address) :
    ∃ m' x' vs, linkMessage x.address inputs cmd v.address body messageId m = .ok m' ∧
      Moves m m' x (footprint v) x' (remains vs) [] ∧ Remain m' vs ∧ x'.address = x.address ∧
      vs.map erase = overwritten (erase x) cmd ∧
      Memory.linkMessage inputs cmd v.message (erase x) = .ok ⟨erase x', [], 0⟩ := by
  have hroomAccount : Memory.dictionaryGet (some (erase x)) (some cmd.account) = none →
      (x.nodes.length : Int) < intMax := by
    intro hno
    refine hroom _ ?_
    rw [appendedTo_accounts hno]
    exact congrArg some (List.length_map _)
  obtain ⟨m₁, y, hcreate, hturns, haddress, hkey, haccount, hfound⟩ :=
    getCreate_cases hx hm.part (given_read m cmd.account) hroomAccount hmem.1
  have hm₁ := (hturns.besides hm).after
  have hv₁ : Holds m₁ v := hturns.toChanges.holds hm hv
  obtain ⟨hopened, hqueues⟩ := holds_opened hturns.holds
  have hread : m₁.nodeData (some y.node.node) = .ok (some y.node.data.address) :=
    nodeData_opened hopened
  have hroomQueue : Memory.dictionaryGet (some (erase y.node.data)) (some cmd.queue) = none →
      (y.node.data.nodes.length : Int) < intMax := by
    intro hno
    rcases hfound with hfound | ⟨-, hnil⟩
    · refine hroom _ ?_
      rw [appendedTo_queues hfound rfl hno]
      exact congrArg some (List.length_map _)
    · rw [hnil]
      decide
  obtain ⟨m₂, z, hcreate', hturns', haddress', hkey', hqueue, hfound'⟩ :=
    getCreate_cases hqueues (owns_opened hm₁.part).part (given_read m₁ cmd.queue) hroomQueue
      hmem.2.1
  have hlift := hturns'.lift haddress' hturns.holds hm₁.part
  have hm₂ := (hlift.besides hm₁).after
  have hv₂ : Holds m₂ v := hlift.toChanges.holds hm₁ hv₁
  have hzclosed : Holds m₂ z.closed := hturns'.holds
  obtain ⟨hopened', hmessages⟩ := holds_opened hzclosed
  have hread' : m₂.nodeData (some z.node.node) = .ok (some z.node.data.address) :=
    nodeData_opened hopened'
  have hmz : Owns m₂ (footprint z.closed + footprint v + around (y.withData z.closed)) := by
    refine (congrArg (Owns m₂) ?_).mp hm₂
    rw [footprint_closed]
    change footprint z.closed + _ + _ = _
    abel
  have hmd : Owns m₂ (footprint z.node.data + footprint v + around z) := by
    refine (congrArg (Owns m₂) ?_).mp hmz.part
    rw [footprint_closed]
    abel
  have hthere := found_there hfound hfound' hroom (Placed.Holds.keys hmessages)
  obtain ⟨m₃, z', vs, hlink, hmoves, hremain, haddress'', hvs, hstored⟩ := linkQueue_moves
    hmessages hv₂ hmd.part hid hthere.2 hmem.2.2 y.node.node hread'
  have hlifted := (hmoves.lift haddress'' hzclosed hmz.part).lift (x := y.withData z.closed) rfl
    hlift.holds hm₂
  refine ⟨m₃, _, vs, ?_, (hturns.besides hm).trans ((hlift.besides hm₁).trans hlifted), hremain,
    haddress, hvs.trans hthere.1.symm, ?_⟩
  · rw [linkMessage, hcreate, ok_bind]
    dsimp only
    rw [hread, ok_bind, hcreate', ok_bind]
    exact hlink
  · rw [linkMessage_eq haccount rfl hqueue rfl hstored, ← hkey', ← hkey,
      erase_withData (Placed.Holds.keys hzclosed)]
    exact congrArg (fun s => Except.ok (Outcome.mk s [] 0))
      (erase_withData (Placed.Holds.keys hturns.holds) _)

/-- **`create_message`**: no callback, and of an overwritten message the id and the body
remain. -/
theorem createMessage_moves {x : PlacedAccounts} {o : Outcome} (hx : Holds m x)
    (hm : Owns m (footprint x)) (hmem : inputs.AllocationsSucceed) (hroom : HasRoom (erase x) cmd)
    (hspec : Memory.burrowBackendMemoryCreateMessage inputs cmd (erase x) = .ok o) :
    ∃ m' x' vs, burrowBackendMemoryCreateMessage x.address inputs cmd m = .ok m' ∧
      Moves m m' x 0 x' (remains vs) [] ∧ Remain m' vs ∧ x'.address = x.address ∧
      vs.map erase = overwritten (erase x) cmd ∧ o = ⟨erase x', [], 0⟩ := by
  obtain ⟨⟨hnew, hbody, hid⟩, hlinks⟩ := hmem
  obtain ⟨newMessage, hnew⟩ := Option.ne_none_iff_exists'.1 hnew
  obtain ⟨body, hbody⟩ := Option.ne_none_iff_exists'.1 hbody
  rw [Memory.burrowBackendMemoryCreateMessage, hnew, hbody, hid] at hspec
  dsimp only at hspec
  split at hspec
  · exact absurd hspec (by simp)
  · next ttl hide htimes =>
      generalize hmessage : (BurrowMessage.mk cmd.messageId
        (memcpy (body.take cmd.bodySize) cmd.body cmd.bodySize) cmd.bodySize ttl hide) = message
        at hspec
      obtain ⟨hdoes, hv⟩ := newMessage_does hm.zero (body.take cmd.bodySize) message
      have hm₀ : Owns m (0 + footprint x) := by rwa [Multiset.zero_add]
      have hmade := (hdoes.frame hm₀).congr (Multiset.zero_add _) (Multiset.add_comm ..)
      have hx₁ := hdoes.toChanges.holds hm₀ hx
      obtain ⟨m', x', vs, hlink, hmoves, hremain, haddress, hvs, hstored⟩ := linkMessage_moves
        hx₁ hv hmade.after (by rw [← hmessage]; rfl) hroom hlinks (m.next + 1) (m.next + 2)
      refine ⟨m', x', vs, ?_, ⟨(hmade.trans hmoves.toDoes).congr (Multiset.add_zero _).symm rfl,
        hmoves.holds⟩, hremain, haddress, hvs, Except.ok.inj (hspec.symm.trans hstored)⟩
      rw [burrowBackendMemoryCreateMessage, hnew, hbody, hid, htimes]
      rw [← hmessage] at hlink
      exact hlink

end Link

/-! ## Lists that are full -/

section Overflow

variable {m : BackendHeap} {inputs : CreateInputs} {cmd : BackendCommand}

theorem add_overflows {α β : Type} [Pointed α β] {x : Placed α} (hx : Holds m x)
    (hm : Owns m (footprint x)) (hfull : (x.nodes.length : Int) = intMax) {mem : AddMemory}
    (hmem : mem.Succeeds) {chars : Chars} {key : String}
    (hchars : m.toHeap.readChars chars = .ok key) (data : Option Address) :
    m.add mem (some x.address) chars data = .error .intOverflow := by
  have hadd := dictionaryAdd_overflows (Placed.Holds.represents hx)
    (nodes_of_fresh hm (Nat.le_refl m.next)) (texts_of_fresh hm (Nat.le_succ m.next))
    (by rwa [length_cells]) hchars data
  rw [BackendHeap.add, mallocNode_of_succeeds hmem]
  exact dictionaryCall_of_error (m := { m with next := m.next + 2 }) hadd

theorem getCreate_overflows {α β : Type} [Pointed α β] {x : Placed (Placed α)} (hx : Holds m x)
    (hm : Owns m (footprint x)) {chars : Chars} {key : String}
    (hchars : m.toHeap.readChars chars = .ok key)
    (hno : Memory.dictionaryGet (some (erase x)) (some key) = none)
    (hfull : (x.nodes.length : Int) = intMax) {mem : CreateMemory} (hmem : mem.Succeeds) :
    m.getCreate mem (some x.address) chars = .error .intOverflow := by
  have hadd := dictionaryAdd_overflows (Placed.Holds.represents hx)
    (nodes_of_fresh hm (Nat.le_refl m.next)) (texts_of_fresh hm (Nat.le_succ m.next))
    (by rwa [length_cells]) hchars none
  have hfind : x.cells.find? (hasKey Cell.key key) = none := by
    have hk := ((erase_wellFormed (Placed.Holds.keys hx)).get_eq_none_iff key).1 hno
    change key ∉ (x.nodes.map PlacedNode.erased).map DictionaryNode.key at hk
    rw [keys_erased] at hk
    rw [find?_hasKey_eq_none_iff, Placed.cells, keys_cells]
    exact hk
  have hget := dictionaryGet_eq (Placed.Holds.represents hx) hchars
  rw [hfind] at hget
  have hcreate : dictionaryGetCreate ⟨some m.next, some (m.next + 1)⟩ (some (m.next + 2))
      (some x.address) (some chars) m.toHeap = .error .intOverflow := by
    rw [dictionaryGetCreate, hget]
    dsimp only [Option.map_none]
    rw [ok_bind]
    dsimp only
    rw [hadd]
    rfl
  rw [BackendHeap.getCreate, mallocNode_of_succeeds hmem.1]
  dsimp only
  rw [malloc_of_true hmem.2]
  exact dictionaryCall_of_error (m := { m with next := m.next + 3 }) hcreate

/-- Where the list has `INT_MAX` nodes, the count of them leaves its range. -/
theorem linkMessage_overflows {x : PlacedAccounts} {v : PlacedMessage} (hx : Holds m x)
    (hv : Holds m v) (hm : Owns m (footprint x)) (hid : v.message.messageId = cmd.messageId)
    (hroom : ¬ HasRoom (erase x) cmd) (hmem : inputs.LinksSucceed) (body messageId : Address) :
    linkMessage x.address inputs cmd v.address body messageId m = .error .intOverflow := by
  obtain ⟨n, hn, hfull⟩ : ∃ n, appendedTo (erase x) cmd = some n ∧ ¬ (n : Int) < intMax := by
    by_contra hno
    exact hroom fun n hn => not_not.1 fun hlt => hno ⟨n, hn, hlt⟩
  have hexact : ∀ {α β : Type} [Pointed α β] {y : Placed α} {m : BackendHeap}, Holds m y →
      (erase y).nodes.length = n → (y.nodes.length : Int) = intMax := by
    intro α β _ y m hy hlength
    have hsize := Placed.Holds.size hy
    have hlength' : y.nodes.length = n := (List.length_map _).symm.trans hlength
    omega
  rw [linkMessage]
  rcases search_cases hx (given_read m cmd.account) with ⟨hget, -⟩ | ⟨y, rfl, haccount, hfound, -⟩
  · rw [appendedTo_accounts hget] at hn
    rw [getCreate_overflows hx hm (given_read m cmd.account) hget
      (hexact hx (Option.some.inj hn)) hmem.1]
    rfl
  · have hx₁ : Holds { m with next := m.next + 3 } y.closed :=
      Located.congr (fun b _ => Block.same_refl m b) hx
    have hm₁ := (does_skip hm 3).after
    obtain ⟨hopened, hqueues⟩ := holds_opened hx₁
    have hread : BackendHeap.nodeData (some y.node.node) { m with next := m.next + 3 } =
        .ok (some y.node.data.address) := nodeData_opened hopened
    have hcreate := getCreate_mem hx (node_mem_closed y)
      (readChars_given m.toHeap cmd.account haccount) hmem.1
    rw [hcreate, ok_bind]
    dsimp only
    rw [hread, ok_bind]
    rcases search_cases hqueues (given_read _ cmd.queue) with
      ⟨hget, -⟩ | ⟨z, hz, hqueue, hfound', -⟩
    · rw [appendedTo_queues hfound rfl hget] at hn
      rw [getCreate_overflows hqueues (owns_opened hm₁).part (given_read _ cmd.queue) hget
        (hexact hqueues (Option.some.inj hn)) hmem.2.1]
      rfl
    · rw [appendedTo_messages hfound rfl hfound' rfl] at hn
      have hclosed : Holds { m with next := m.next + 3 } z.closed := by rwa [hz]
      have hclosed₂ : Holds { m with next := m.next + 3 + 3 } z.closed :=
        Located.congr (m := { m with next := m.next + 3 }) (fun b _ => Block.same_refl m b) hclosed
      have hm₂ : Owns { m with next := m.next + 3 } (footprint z.closed) := by
        rw [hz]
        exact (owns_opened hm₁).part
      have hm₃ := (does_skip hm₂ 3).after
      obtain ⟨hopened', hmessages⟩ := holds_opened hclosed₂
      have hread' : BackendHeap.nodeData (some z.node.node) { m with next := m.next + 3 + 3 } =
          .ok (some z.node.data.address) := nodeData_opened hopened'
      have hcreate' := getCreate_mem hclosed (node_mem_closed z)
        (readChars_given m.toHeap cmd.queue hqueue) hmem.2.1
      rw [hz] at hcreate'
      have hv₂ : Holds { m with next := m.next + 3 + 3 } v :=
        Located.congr (fun b _ => Block.same_refl m b) hv
      have hchars := readId_placed hv₂
      rw [hid] at hchars
      rw [hcreate', ok_bind]
      dsimp only
      rw [linkQueue, hread', ok_bind, readMessage_placed hv₂, ok_bind]
      change (BackendHeap.get (some z.node.data.address) (.block v.messageIdAt) _ >>= _) = _
      rcases search_cases hmessages hchars with ⟨hget, hget'⟩ | ⟨w, -, -, hget, -⟩
      · rw [hget] at hn
        rw [hget', ok_bind]
        dsimp only
        have hadd := add_overflows hmessages (owns_opened hm₃).part
          (hexact hmessages (Option.some.inj hn)) hmem.2.2 hchars (some v.address)
        refine (congrArg (· >>= _) hadd).trans ?_
        rfl
      · rw [hget] at hn
        exact absurd hn (by simp)

/-- `create_message` where there is no room. -/
theorem createMessage_overflows {x : PlacedAccounts} {o : Outcome} (hx : Holds m x)
    (hm : Owns m (footprint x)) (hmem : inputs.AllocationsSucceed)
    (hroom : ¬ HasRoom (erase x) cmd)
    (hspec : Memory.burrowBackendMemoryCreateMessage inputs cmd (erase x) = .ok o) :
    burrowBackendMemoryCreateMessage x.address inputs cmd m = .error .intOverflow := by
  obtain ⟨⟨hnew, hbody, hid⟩, hlinks⟩ := hmem
  obtain ⟨newMessage, hnew⟩ := Option.ne_none_iff_exists'.1 hnew
  obtain ⟨body, hbody⟩ := Option.ne_none_iff_exists'.1 hbody
  rw [Memory.burrowBackendMemoryCreateMessage, hnew, hbody, hid] at hspec
  dsimp only at hspec
  split at hspec
  · exact absurd hspec (by simp)
  · next ttl hide htimes =>
      obtain ⟨hdoes, hv⟩ := newMessage_does hm.zero (body.take cmd.bodySize)
        (BurrowMessage.mk cmd.messageId
          (memcpy (body.take cmd.bodySize) cmd.body cmd.bodySize) cmd.bodySize ttl hide)
      have hm₀ : Owns m (0 + footprint x) := by rwa [Multiset.zero_add]
      have hx₁ := hdoes.toChanges.holds hm₀ hx
      have hm₁ := (hdoes.frame hm₀).congr rfl (Multiset.add_comm ..)
      rw [burrowBackendMemoryCreateMessage, hnew, hbody, hid, htimes]
      exact linkMessage_overflows hx₁ hv hm₁.after.part rfl hroom hlinks (m.next + 1) (m.next + 2)

end Overflow

end Burrow.Memory.Chained
