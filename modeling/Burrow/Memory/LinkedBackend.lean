import Burrow.Memory.Backend
import Burrow.Memory.LinkedDictionary

/-!
# The memory backend in memory

`backends/memory/memory.c` once more, with every block at its address: the accounts are a
dictionary whose nodes point to dictionaries of queues, the nodes of these to dictionaries of
messages, and the nodes of those to messages, which point to their id and their body; a node
points to its key, too. Here `burrow_free` takes the block away; to read or to free what is not
there (any more) is an error, and so is to follow `NULL`. The account and the queue of a command
are pointers: those of `erase_cmd` lead to the keys of a copied list.

An address is handed out once (`next`), so that a pointer to a freed block leads to nothing.
Whether a `burrow_malloc` succeeds, what the clock says and what uninitialised memory holds is
in the inputs of `Memory.Backend`. What a function keeps in a block of its own that nobody
else has a pointer to (filters, a command) is in a variable here, and `scratch` says that the
block is there. The callbacks made are kept in the order of the calls.
-/

set_option autoImplicit false

namespace Burrow.Memory.Chained

/-! ## Blocks -/

/-- `burrow_message_st` -/
structure MessageSt where
  messageId : Address
  body : Address
  bodySize : Nat
  ttl : UInt32
  hide : UInt32
deriving DecidableEq, Repr

/-- The blocks of the backend, and the callbacks made so far. The ids of messages are strings
like the keys of nodes. -/
structure BackendHeap extends Heap where
  messages : Address → Option MessageSt
  bodies : Address → Option (List UInt8)
  /-- filters and commands that a function has made for itself -/
  scratch : Address → Bool
  next : Address
  callbacks : List Callback

/-- Undefined behaviour that the functions can run into. -/
inductive BackendFault where
  | nullDereference
  /-- what is read or freed is not there, or not any more -/
  | danglingPointer
  | intOverflow
  | destroyedObject
deriving DecidableEq, Repr

def DictionaryFault.backendFault : DictionaryFault → BackendFault
  | .nullDereference => .nullDereference
  | .danglingPointer => .danglingPointer
  | .intOverflow => .intOverflow

/-- A fault of what takes no pointers into the store. -/
def argumentFault : Fault → BackendFault
  | .destroyedObject => .destroyedObject
  | .nullDereference => .nullDereference
  | .freedMessage | .freedPfds => .danglingPointer

/-- What is computed from the arguments alone. -/
def fromArguments {α : Type} (x : Except Fault α) : Except BackendFault α :=
  x.mapError argumentFault

namespace BackendHeap

def empty : BackendHeap :=
  { Heap.empty with
    messages := fun _ => none
    bodies := fun _ => none
    scratch := fun _ => false
    next := 0
    callbacks := [] }

/-- `burrow_malloc` -/
def malloc (succeeds : Bool) (m : BackendHeap) : Option Address × BackendHeap :=
  if succeeds then (some m.next, { m with next := m.next + 1 }) else (none, m)

/-! ### Dictionaries -/

/-- A function of the dictionary that changes the heap. -/
def dictionaryCall {α : Type} (f : Heap → Except DictionaryFault (α × Heap)) (m : BackendHeap) :
    Except BackendFault (α × BackendHeap) :=
  match f m.toHeap with
  | .error e => .error e.backendFault
  | .ok (x, heap) => .ok (x, { m with toHeap := heap })

/-- A function of the dictionary that reads the heap. -/
def dictionaryRead {α : Type} (f : Heap → Except DictionaryFault α) (m : BackendHeap) :
    Except BackendFault α :=
  (f m.toHeap).mapError DictionaryFault.backendFault

/-- `dictionary_get(self, key, SEARCH)` -/
def get (self : Option Address) (key : Chars) (m : BackendHeap) :
    Except BackendFault (Option Address) :=
  m.dictionaryRead (dictionaryGet self (some key))

/-- The blocks that `dictionary_add` asks for. -/
def mallocNode (mem : AddMemory) (m : BackendHeap) : AddBlocks × BackendHeap :=
  let (node, m) := m.malloc mem.newNode
  let (key, m) := m.malloc mem.key
  (⟨node, key⟩, m)

/-- `dictionary_get(self, key, CREATE)`. Where the key is found, the addresses for the new
node, its key and the new dictionary remain unused. -/
def getCreate (mem : CreateMemory) (self : Option Address) (key : Chars) (m : BackendHeap) :
    Except BackendFault (Option Address × BackendHeap) :=
  let (blocks, m) := m.mallocNode mem.add
  let (messages, m) := m.malloc mem.init
  m.dictionaryCall (dictionaryGetCreate blocks messages self (some key))

/-- `dictionary_add` -/
def add (mem : AddMemory) (self : Option Address) (key : Chars) (data : Option Address)
    (m : BackendHeap) : Except BackendFault (Option Address × BackendHeap) :=
  let (blocks, m) := m.mallocNode mem
  m.dictionaryCall (dictionaryAdd blocks self key data)

/-- `dictionary_delete_node` -/
def deleteNode (self : Option Address) (key : Chars) (m : BackendHeap) :
    Except BackendFault BackendHeap := do
  let (_, m) ← m.dictionaryCall fun heap => do
    let heap ← dictionaryDeleteNode self (some key) heap
    pure ((), heap)
  pure m

/-- `dictionary_delete(self, NULL, u_bound)` -/
def delete (self : Option Address) (uBound : Int) (m : BackendHeap) :
    Except BackendFault BackendHeap := do
  let (_, m) ← m.dictionaryCall fun heap => do
    let heap ← dictionaryDelete self none uBound heap
    pure ((), heap)
  pure m

/-- How many nodes there are to copy. -/
def length (self : Option Address) (m : BackendHeap) : Nat :=
  ((self.bind m.dictionaries).map fun dictionary => dictionary.length.toNat).getD 0

/-- `dictionary_iter`. As many addresses are set aside as there can be nodes in the copy, with a
key each. -/
def iter (mem : IterMemory) (self : Option Address) (lBoundKey : Option String) (uBound : UInt32)
    (m : BackendHeap) : Except BackendFault (Option Address × BackendHeap) :=
  let count := m.length self
  let (dictionary, m) := m.malloc mem.init
  let blocks := (List.range count).map fun i =>
    ({ m with next := m.next + 2 * i }.mallocNode (mem.add i)).1
  { m with next := m.next + 2 * count }.dictionaryCall
    (dictionaryIter dictionary blocks self (lBoundKey.map .given) uBound)

/-- The dictionary that a data pointer leads to. -/
def dataDictionary (self : Option Address) (m : BackendHeap) :
    Except BackendFault DictionarySt :=
  match self with
  | none => .error .nullDereference
  | some self => m.dictionaryRead (·.readDictionary self)

/-- `node->data` -/
def nodeData (node : Option Address) (m : BackendHeap) : Except BackendFault (Option Address) := do
  let node ← m.dictionaryRead (·.readNode node)
  pure node.data

/-- `burrow_free` of a dictionary that has no nodes to free. -/
def freeDictionary (self : Option Address) (m : BackendHeap) : Except BackendFault BackendHeap :=
  match self with
  | none => .ok m
  | some self =>
      match m.dictionaries self with
      | none => .error .danglingPointer
      | some _ => .ok { m with dictionaries := Function.update m.dictionaries self none }

/-! ### Messages -/

def readMessage (x : Option Address) (m : BackendHeap) : Except BackendFault MessageSt :=
  match x with
  | none => .error .nullDereference
  | some a =>
      match m.messages a with
      | some message => .ok message
      | none => .error .danglingPointer

def writeMessage (a : Address) (message : MessageSt) (m : BackendHeap) : BackendHeap :=
  { m with messages := Function.update m.messages a (some message) }

def freeMessage (a : Address) (m : BackendHeap) : Except BackendFault BackendHeap :=
  match m.messages a with
  | none => .error .danglingPointer
  | some _ => .ok { m with messages := Function.update m.messages a none }

def freeText (a : Address) (m : BackendHeap) : Except BackendFault BackendHeap :=
  match m.texts a with
  | none => .error .danglingPointer
  | some _ => .ok { m with texts := Function.update m.texts a none }

def freeBody (a : Address) (m : BackendHeap) : Except BackendFault BackendHeap :=
  match m.bodies a with
  | none => .error .danglingPointer
  | some _ => .ok { m with bodies := Function.update m.bodies a none }

/-- The id, the body and the message itself, in this order. -/
def freeWhole (x : Option Address) (m : BackendHeap) : Except BackendFault BackendHeap := do
  let message ← m.readMessage x
  let m ← m.freeText message.messageId
  let m ← m.freeBody message.body
  m.freeMessage (x.getD 0)

/-! ### Filters, commands and callbacks -/

/-- A block for filters or a command. -/
def mallocScratch (m : BackendHeap) : Address × BackendHeap :=
  (m.next, { m with scratch := Function.update m.scratch m.next true, next := m.next + 1 })

def freeScratch (a : Address) (m : BackendHeap) : Except BackendFault BackendHeap :=
  if m.scratch a then .ok { m with scratch := Function.update m.scratch a false }
  else .error .danglingPointer

def callback (callback : Callback) (m : BackendHeap) : BackendHeap :=
  { m with callbacks := m.callbacks ++ [callback] }

/-- `burrow_callback_message`; the user reads the id and the body. -/
def callbackMessage (message : MessageSt) (attributes : BurrowAttributes) (m : BackendHeap) :
    Except BackendFault BackendHeap :=
  match m.texts message.messageId, m.bodies message.body with
  | some messageId, some body =>
      .ok (m.callback (.message messageId body message.bodySize attributes))
  | _, _ => .error .danglingPointer

end BackendHeap

/-! ## Scanning a queue -/

/-- The remaining times of a message, written into an attributes structure. -/
def remainingTimes (currentTime : UInt32) (message : MessageSt) (attributes : BurrowAttributes) :
    BurrowAttributes :=
  { attributes with
    ttl := message.ttl - currentTime
    hide := if message.hide > currentTime then message.hide - currentTime else 0 }

/-- `_scan_queue` also sets the two bits. -/
def reportTimes (currentTime : UInt32) (message : MessageSt) (attributes : BurrowAttributes) :
    BurrowAttributes :=
  let attributes := remainingTimes currentTime message attributes
  { attributes with set := attributes.set ||| burrowAttributesTtl ||| burrowAttributesHide }

/-- `if(attributes_ttl) message->ttl = attributes_ttl;`, and the same for hide. -/
def applyDeadlines (attributesTtl attributesHide : UInt32) (message : MessageSt) : MessageSt :=
  { message with
    ttl := if attributesTtl ≠ 0 then attributesTtl else message.ttl
    hide := if attributesHide ≠ 0 then attributesHide else message.hide }

/-- `_process_filter`, with the block of the filters. -/
def processFilter (outFilters : Option BurrowFilters) (inFilters : Option (Object BurrowFilters))
    (m : BackendHeap) : Except BackendFault (Option (Address × BurrowFilters) × BackendHeap) := do
  match ← fromArguments (Memory.processFilter outFilters inFilters) with
  | none => pure (none, m)
  | some filters =>
      let (block, m) := m.mallocScratch
      pure (some (block, filters), m)

/-- What the functions on containers read of a command. -/
structure ContainerCommand where
  account : Chars
  queue : Chars
  filters : Option (Object BurrowFilters)
  attributes : Option (Object BurrowAttributes)

/-- A command of the user, whose strings are the user's. -/
def ofUser (cmd : BackendCommand) : ContainerCommand where
  account := .given cmd.account
  queue := .given cmd.queue
  filters := cmd.filters
  attributes := cmd.attributes

/-- The body of the loop in `_scan_queue` on a node of the copied list. -/
def scanItem (locals : ScanLocals) (queue : Address) (item : Node) (reference : BurrowAttributes)
    (m : BackendHeap) : Except BackendFault (BurrowAttributes × BackendHeap) := do
  let message ← m.readMessage item.data
  if message.ttl ≤ locals.currentTime then
    let m ← m.deleteNode (← m.nodeData (some queue)) (.block item.key)
    let m ← m.freeWhole item.data
    pure (reference, m)
  else if locals.matchHidden = false ∧ message.hide > locals.currentTime then
    pure (reference, m)
  else
    match locals.scanType with
    | .update =>
        let message := applyDeadlines locals.attributesTtl locals.attributesHide message
        let m := m.writeMessage (item.data.getD 0) message
        let reference := reportTimes locals.currentTime message reference
        let m ← m.callbackMessage message reference
        pure (reference, m)
    | .get =>
        let reference := reportTimes locals.currentTime message reference
        let m ← m.callbackMessage message reference
        pure (reference, m)
    | .delete =>
        let m ← m.deleteNode (← m.nodeData (some queue)) (.block item.key)
        match locals.deleteAction with
        | .report =>
            let reference := reportTimes locals.currentTime message reference
            let m ← m.callbackMessage message reference
            let m ← m.freeWhole item.data
            pure (reference, m)
        | .ignore =>
            let m ← m.freeWhole item.data
            pure (reference, m)

/-- The loop of `_scan_queue`: `left` is `iterator->length - i`. -/
def scanLoop (locals : ScanLocals) (queue : Address) :
    Nat → Option Address → BurrowAttributes → BackendHeap → Except BackendFault BackendHeap
  | 0, _, _, m => .ok m
  | left + 1, item, reference, m => do
      let node ← m.dictionaryRead (·.readNode item)
      let (reference, m) ← scanItem locals queue node reference m
      let node ← m.dictionaryRead (·.readNode item)
      scanLoop locals queue left node.next reference m

/-- `dictionary_delete(iterator, NULL, iterator->length); burrow_free(iterator);` -/
def freeIterator (iterator : Address) (m : BackendHeap) : Except BackendFault BackendHeap := do
  let dictionary ← m.dataDictionary (some iterator)
  let m ← m.delete (some iterator) dictionary.length
  m.freeDictionary (some iterator)

/-- A node whose dictionary is empty is deleted with it; the parent is looked up after the
dictionary has been freed. -/
def deleteIfEmpty (node : Address) (parent : BackendHeap → Except BackendFault (Option Address))
    (key : Chars) (m : BackendHeap) : Except BackendFault BackendHeap := do
  let data ← m.nodeData (some node)
  let dictionary ← m.dataDictionary data
  if dictionary.length = 0 then
    let m ← m.freeDictionary data
    let self ← parent m
    m.deleteNode self key
  else pure m

/-- `_scan_queue`, without its return value, which is `0` on every path. -/
def scanQueue (self : Address) (inputs : ScanInputs) (cmd : ContainerCommand)
    (scanType : ScanAction) (deleteAction : DeleteAction) (m : BackendHeap) :
    Except BackendFault BackendHeap := do
  match ← m.get (some self) cmd.account with
  | none => pure m
  | some account =>
      match ← m.get (← m.nodeData (some account)) cmd.queue with
      | none => pure m
      | some queue =>
          let (attributesTtl, attributesHide) ←
            fromArguments (scanAttributes inputs.time cmd.attributes)
          let (refFilters, m) ← processFilter inputs.outFilters cmd.filters m
          match refFilters with
          -- `malloc` failed: logged, and `0` all the same
          | none => pure m
          | some (block, refFilters) =>
              let (iterator, m) ← m.iter inputs.iter (← m.nodeData (some queue))
                refFilters.marker refFilters.limit
              match iterator with
              | none => m.freeScratch block
              | some iterator =>
                  let dictionary ← m.dataDictionary (some iterator)
                  let locals : ScanLocals :=
                    { scanType := scanType
                      deleteAction := deleteAction
                      currentTime := inputs.time
                      attributesTtl := attributesTtl
                      attributesHide := attributesHide
                      matchHidden := refFilters.matchHidden }
                  let m ← scanLoop locals queue dictionary.length.toNat dictionary.first
                    inputs.referenceAttributes m
                  let m ← m.freeScratch block
                  let m ← freeIterator iterator m
                  let node ← m.dictionaryRead (·.readNode (some queue))
                  -- here the account is looked up once more
                  let m ← deleteIfEmpty queue
                    (fun m => do m.nodeData (← m.get (some self) cmd.account))
                    (.block node.key) m
                  deleteIfEmpty account (fun _ => pure (some self)) cmd.account m

/-! ## Commands on lists -/

/-- The loop of `get_queues` and `get_accounts` over the copied list. -/
def listLoop (callback : String → Callback) :
    Nat → Option Address → BackendHeap → Except BackendFault BackendHeap
  | 0, _, m => .ok m
  | left + 1, item, m => do
      let node ← m.dictionaryRead (·.readNode item)
      let key ← m.dictionaryRead (·.readText node.key)
      listLoop callback left node.next (m.callback (callback key))

/-- What `get_queues` and `get_accounts` share once the list is found. -/
def listCommand (inputs : ListInputs) (cmd : ContainerCommand) (self : Option Address)
    (callback : String → Callback) (m : BackendHeap) : Except BackendFault BackendHeap := do
  let (refFilters, m) ← processFilter inputs.outFilters cmd.filters m
  match refFilters with
  | none => pure m
  | some (block, refFilters) =>
      let (iterator, m) ← m.iter inputs.iter self refFilters.marker refFilters.limit
      match iterator with
      | none => m.freeScratch block
      | some iterator =>
          let dictionary ← m.dataDictionary (some iterator)
          let m ← listLoop callback dictionary.length.toNat dictionary.first m
          let m ← m.freeScratch block
          freeIterator iterator m

/-- The loop of `delete_queues` and `delete_accounts` over the copied list: `erase` is done
to the key of the `i`-th node. -/
def eraseLoop (erase : Nat → Chars → BackendHeap → Except BackendFault BackendHeap) :
    Nat → Nat → Option Address → BackendHeap → Except BackendFault BackendHeap
  | _, 0, _, m => .ok m
  | i, left + 1, item, m => do
      let node ← m.dictionaryRead (·.readNode item)
      let m ← erase i (.block node.key) m
      let node ← m.dictionaryRead (·.readNode item)
      eraseLoop erase (i + 1) left node.next m

/-- What `delete_queues` and `delete_accounts` share once the list is found: `erase` takes
`erase_cmd`, of which only the filters are written here. -/
def eraseCommand (inputs : EraseInputs) (cmd : ContainerCommand) (self : Option Address)
    (erase : ContainerCommand → Nat → Chars → BackendHeap → Except BackendFault BackendHeap)
    (m : BackendHeap) : Except BackendFault BackendHeap := do
  let (refFilters, m) ← processFilter inputs.outFilters cmd.filters m
  match refFilters with
  | none => pure m
  | some (block, refFilters) =>
      let (iterator, m) ← m.iter inputs.iter self refFilters.marker refFilters.limit
      match iterator with
      | none => m.freeScratch block
      | some iterator =>
          match inputs.eraseCmd with
          | none =>
              let m ← m.freeScratch block
              freeIterator iterator m
          | some eraseCmd =>
              let (eraseBlock, m) := m.mallocScratch
              let (filters, m) ← processFilter inputs.eraseFilters none m
              match filters with
              | none =>
                  let m ← m.freeScratch block
                  let m ← freeIterator iterator m
                  m.freeScratch eraseBlock
              | some (filtersBlock, filters) =>
                  let dictionary ← m.dataDictionary (some iterator)
                  let eraseCmd := { ofUser eraseCmd with filters := some (.live filters) }
                  let m ← eraseLoop (erase eraseCmd) 0 dictionary.length.toNat dictionary.first m
                  let m ← m.freeScratch block
                  let m ← freeIterator iterator m
                  let m ← m.freeScratch filtersBlock
                  m.freeScratch eraseBlock

/-- The search for the account that `get_queues` and `delete_queues` begin with. -/
def withQueues (self : Address) (cmd : ContainerCommand)
    (body : Option Address → BackendHeap → Except BackendFault BackendHeap) (m : BackendHeap) :
    Except BackendFault BackendHeap := do
  match ← m.get (some self) cmd.account with
  | none => pure m
  | some account =>
      match ← m.nodeData (some account) with
      | none => pure m
      | some queues => body (some queues) m

def burrowBackendMemoryGetQueues (self : Address) (inputs : ListInputs) (cmd : ContainerCommand) :
    BackendHeap → Except BackendFault BackendHeap :=
  withQueues self cmd fun queues => listCommand inputs cmd queues .queue

def burrowBackendMemoryDeleteQueues (self : Address) (inputs : DeleteQueuesInputs)
    (cmd : ContainerCommand) : BackendHeap → Except BackendFault BackendHeap :=
  withQueues self cmd fun queues =>
    eraseCommand inputs.toEraseInputs cmd queues fun eraseCmd i key =>
      scanQueue self (inputs.scan i)
        { eraseCmd with attributes := none, account := cmd.account, queue := key } .delete .ignore

def burrowBackendMemoryGetAccounts (self : Address) (inputs : ListInputs)
    (cmd : ContainerCommand) : BackendHeap → Except BackendFault BackendHeap :=
  listCommand inputs cmd (some self) .account

/-- Here the attributes and the queue of `erase_cmd` keep what the block held; `delete_queues`
reads neither. -/
def burrowBackendMemoryDeleteAccounts (self : Address) (inputs : DeleteAccountsInputs)
    (cmd : ContainerCommand) : BackendHeap → Except BackendFault BackendHeap :=
  eraseCommand inputs.toEraseInputs cmd (some self) fun eraseCmd i key =>
    burrowBackendMemoryDeleteQueues self (inputs.deleteQueues i) { eraseCmd with account := key }

/-! ## Commands on the messages of a queue -/

def burrowBackendMemoryGetMessages (self : Address) (inputs : ScanInputs)
    (cmd : ContainerCommand) : BackendHeap → Except BackendFault BackendHeap :=
  scanQueue self inputs cmd .get .report

def burrowBackendMemoryUpdateMessages (self : Address) (inputs : ScanInputs)
    (cmd : ContainerCommand) : BackendHeap → Except BackendFault BackendHeap :=
  scanQueue self inputs cmd .update .report

def burrowBackendMemoryDeleteMessages (self : Address) (inputs : ScanInputs)
    (cmd : ContainerCommand) : BackendHeap → Except BackendFault BackendHeap :=
  scanQueue self inputs cmd .delete .report

/-! ## Commands on one message -/

/-- The three frees of `create_message` where it fails; `NULL` is not freed. -/
def freeNew (newMessage body messageId : Option Address) (m : BackendHeap) :
    Except BackendFault BackendHeap := do
  let m ← newMessage.elim (pure m) m.freeMessage
  let m ← body.elim (pure m) m.freeBody
  messageId.elim (pure m) m.freeText

/-- The last part of `create_message`: the message into the queue. -/
def linkQueue (inputs : CreateInputs) (cmd : BackendCommand) (account queue : Address)
    (newMessage : Address) (m : BackendHeap) : Except BackendFault BackendHeap := do
  let data ← m.nodeData (some queue)
  let message ← m.readMessage (some newMessage)
  match ← m.get data (.block message.messageId) with
  | some messageNode =>
      let node ← m.dictionaryRead (·.readNode (some messageNode))
      -- the message that was there, but neither its id nor its body
      let m ← node.data.elim (pure m) m.freeMessage
      pure { m with toHeap := m.writeNode messageNode { node with data := some newMessage } }
  | none =>
      let (added, m) ← m.add inputs.node data (.block message.messageId) (some newMessage)
      match added with
      | some _ => pure m
      | none =>
          let dictionary ← m.dataDictionary data
          if dictionary.length = 0 then
            m.deleteNode (← m.nodeData (some account)) (.given cmd.queue)
          else pure m

/-- The second part of `create_message`: the account and the queue. -/
def linkMessage (self : Address) (inputs : CreateInputs) (cmd : BackendCommand)
    (newMessage body messageId : Address) (m : BackendHeap) : Except BackendFault BackendHeap := do
  let (account, m) ← m.getCreate inputs.account (some self) (.given cmd.account)
  match account with
  | none => freeNew (some newMessage) (some body) (some messageId) m
  | some account =>
      let (queue, m) ← m.getCreate inputs.queue (← m.nodeData (some account)) (.given cmd.queue)
      match queue with
      | none =>
          let dictionary ← m.dataDictionary (← m.nodeData (some account))
          let m ←
            if dictionary.length = 0 then m.deleteNode (some self) (.given cmd.account) else pure m
          freeNew (some newMessage) (some body) (some messageId) m
      | some queue => linkQueue inputs cmd account queue newMessage m

/-- A block with this content, where its `burrow_malloc` succeeds. -/
def mallocMessage (succeeds : Bool) (message : MessageSt) (m : BackendHeap) :
    Option Address × BackendHeap :=
  let (a, m) := m.malloc succeeds
  (a, a.elim m fun a => m.writeMessage a message)

def mallocBody (succeeds : Bool) (body : List UInt8) (m : BackendHeap) :
    Option Address × BackendHeap :=
  let (a, m) := m.malloc succeeds
  (a, a.elim m fun a => { m with bodies := Function.update m.bodies a (some body) })

def mallocText (succeeds : Bool) (text : String) (m : BackendHeap) :
    Option Address × BackendHeap :=
  let (a, m) := m.malloc succeeds
  (a, a.elim m fun a => { m with texts := Function.update m.texts a (some text) })

/-- The fields of a new message are written once its three blocks are there. -/
def burrowBackendMemoryCreateMessage (self : Address) (inputs : CreateInputs)
    (cmd : BackendCommand) (m : BackendHeap) : Except BackendFault BackendHeap := do
  let block := (inputs.body.getD []).take cmd.bodySize
  let (newMessage, m) := mallocMessage inputs.newMessage.isSome
    { messageId := 0, body := 0, bodySize := 0, ttl := 0, hide := 0 } m
  let (body, m) := mallocBody inputs.body.isSome block m
  let (messageId, m) := mallocText inputs.messageId "" m
  match newMessage, body, messageId with
  | some newMessage, some body, some messageId =>
      let (ttl, hide) ← fromArguments (createTimes inputs.time cmd.attributes)
      let m : BackendHeap :=
        { m with
          bodies := Function.update m.bodies body (some (memcpy block cmd.body cmd.bodySize))
          texts := Function.update m.texts messageId (some cmd.messageId) }
      let m := m.writeMessage newMessage
        { messageId := messageId
          body := body
          bodySize := cmd.bodySize
          ttl := ttl
          hide := hide }
      linkMessage self inputs cmd newMessage body messageId m
  | _, _, _ => freeNew newMessage body messageId m

/-- What the nested searches of a command on one message lead to. -/
structure FoundMessage where
  account : Address
  queue : Address
  message : Address

/-- The searches for account, queue and message node, and the test of the node's data
pointer. -/
def findMessage (self : Address) (cmd : BackendCommand) (m : BackendHeap) :
    Except BackendFault (Option FoundMessage) := do
  match ← m.get (some self) (.given cmd.account) with
  | none => pure none
  | some account =>
      match ← m.get (← m.nodeData (some account)) (.given cmd.queue) with
      | none => pure none
      | some queue =>
          match ← m.get (← m.nodeData (some queue)) (.given cmd.messageId) with
          | none => pure none
          | some messageNode =>
              match ← m.nodeData (some messageNode) with
              | none => pure none
              | some message => pure (some ⟨account, queue, message⟩)

/-- The node of the message is deleted, with the containers this empties. -/
def FoundMessage.unlink (self : Address) (cmd : BackendCommand) (found : FoundMessage)
    (m : BackendHeap) : Except BackendFault BackendHeap := do
  let m ← m.deleteNode (← m.nodeData (some found.queue)) (.given cmd.messageId)
  let m ← deleteIfEmpty found.queue (fun m => m.nodeData (some found.account)) (.given cmd.queue) m
  deleteIfEmpty found.account (fun _ => pure (some self)) (.given cmd.account) m

/-- The `set` field of the attributes handed to the callback is not written. -/
def burrowBackendMemoryUpdateMessage (self : Address) (inputs : MessageInputs)
    (cmd : BackendCommand) (m : BackendHeap) : Except BackendFault (Int × BackendHeap) := do
  match ← findMessage self cmd m with
  | none => pure (EINVAL, m)
  | some found =>
      let message ← m.readMessage (some found.message)
      if message.ttl ≤ inputs.time then
        let m ← m.freeWhole (some found.message)
        let m ← found.unlink self cmd m
        pure (0, m)
      else
        let (attributesTtl, attributesHide) ←
          fromArguments (updateAttributes inputs.time cmd.attributes)
        let message := applyDeadlines attributesTtl attributesHide message
        let m := m.writeMessage found.message message
        let m ← m.callbackMessage message (remainingTimes inputs.time message inputs.attributes)
        pure (0, m)

/-- Here the message is freed first, and its id and its body are to be freed through it. -/
def burrowBackendMemoryGetMessage (self : Address) (inputs : MessageInputs)
    (cmd : BackendCommand) (m : BackendHeap) : Except BackendFault (Int × BackendHeap) := do
  match ← findMessage self cmd m with
  | none => pure (EINVAL, m)
  | some found =>
      let message ← m.readMessage (some found.message)
      if message.ttl ≤ inputs.time then
        let m ← m.freeMessage found.message
        let message ← m.readMessage (some found.message)
        let m ← m.freeText message.messageId
        let message ← m.readMessage (some found.message)
        let m ← m.freeBody message.body
        let m ← found.unlink self cmd m
        pure (0, m)
      else
        let m ← m.callbackMessage message (remainingTimes inputs.time message inputs.attributes)
        pure (0, m)

def burrowBackendMemoryDeleteMessage (self : Address) (inputs : MessageInputs)
    (cmd : BackendCommand) (m : BackendHeap) : Except BackendFault (Int × BackendHeap) := do
  match ← findMessage self cmd m with
  | none => pure (0, m)
  | some found =>
      let message ← m.readMessage (some found.message)
      let m ←
        if message.ttl > inputs.time then
          m.callbackMessage message (remainingTimes inputs.time message inputs.attributes)
        else pure m
      let m ← m.freeWhole (some found.message)
      let m ← found.unlink self cmd m
      pure (0, m)

/-! ## The backend -/

/-- `burrow_backend_memory_create`, in a block that is there; the accounts are an empty
dictionary. -/
def burrowBackendMemoryCreate : Address × BackendHeap :=
  let (self, m) := BackendHeap.empty.malloc true
  (self.getD 0, { m with toHeap := m.writeDictionary (self.getD 0) DictionarySt.new })

/-- `burrow_backend_memory_free` -/
def burrowBackendMemoryFree (self : Address) (inputs : FreeInputs) (m : BackendHeap) :
    Except BackendFault BackendHeap := do
  match inputs.eraseCmd with
  | none => pure m
  | some eraseCmd =>
      let (eraseBlock, m) := m.mallocScratch
      let (filters, m) ← processFilter inputs.eraseFilters none m
      match filters with
      | none => pure m
      | some (block, filters) =>
          let m ← burrowBackendMemoryDeleteAccounts self inputs.deleteAccounts
            { ofUser eraseCmd with filters := some (.live filters) } m
          let m ← m.freeScratch block
          let m ← m.freeScratch eraseBlock
          m.freeDictionary (some self)

/-- The command functions of `burrow_backend_memory_functions`. -/
def execute (self : Address) (inputs : Inputs) (name : CommandName) (cmd : BackendCommand)
    (m : BackendHeap) : Except BackendFault (Int × BackendHeap) :=
  let done (x : Except BackendFault BackendHeap) : Except BackendFault (Int × BackendHeap) := do
    pure (0, ← x)
  match name with
  | .getAccounts => done (burrowBackendMemoryGetAccounts self inputs.list (ofUser cmd) m)
  | .deleteAccounts =>
      done (burrowBackendMemoryDeleteAccounts self inputs.deleteAccounts (ofUser cmd) m)
  | .getQueues => done (burrowBackendMemoryGetQueues self inputs.list (ofUser cmd) m)
  | .deleteQueues => done (burrowBackendMemoryDeleteQueues self inputs.deleteQueues (ofUser cmd) m)
  | .getMessages => done (burrowBackendMemoryGetMessages self inputs.scan (ofUser cmd) m)
  | .updateMessages => done (burrowBackendMemoryUpdateMessages self inputs.scan (ofUser cmd) m)
  | .deleteMessages => done (burrowBackendMemoryDeleteMessages self inputs.scan (ofUser cmd) m)
  | .createMessage => done (burrowBackendMemoryCreateMessage self inputs.create cmd m)
  | .getMessage => burrowBackendMemoryGetMessage self inputs.message cmd m
  | .updateMessage => burrowBackendMemoryUpdateMessage self inputs.message cmd m
  | .deleteMessage => burrowBackendMemoryDeleteMessage self inputs.message cmd m

end Burrow.Memory.Chained
