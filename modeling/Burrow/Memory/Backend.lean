import Burrow.Memory.Dictionary

/-!
# The memory backend

`backends/memory/memory.c`, function by function. A command function takes the
store (`self->accounts`) and answers the store afterwards, the callbacks it makes
in order, and its return code; running into undefined behaviour is the error
branch.

What the functions do not decide is an argument, one record for each function:
the readings of `time(NULL)`, the outcome of each `burrow_malloc` (`none` for
`NULL`), and, for a structure that is not written as a whole before it is read,
what the block held before. `burrow_free` has no counterpart where nothing reads
the block any more: it does not change the store. What is read after it was freed
is undefined behaviour.

Writing through a pointer into the store is an assignment under the key of the
node (`Dictionary.setData`); a message is reached by one node only, so its copy
in the list that `dictionary_iter` makes is the message itself.
-/

set_option autoImplicit false

namespace Burrow.Memory

open KeyedList

/-! ## Data -/

/-- `burrow_message_st` -/
structure BurrowMessage where
  messageId : String
  body : List UInt8
  bodySize : Nat
  ttl : UInt32
  hide : UInt32
deriving DecidableEq, Repr, Inhabited

/-- The messages of a queue, under their ids. -/
abbrev MessagesSt := Dictionary BurrowMessage

/-- `queues_st` -/
abbrev QueuesSt := Dictionary MessagesSt

/-- `accounts_st` -/
abbrev AccountsSt := Dictionary QueuesSt

/-- `scan_action_t` -/
inductive ScanAction where
  | update | get | delete
deriving DecidableEq, Repr

/-- `delete_action_t` -/
inductive DeleteAction where
  | report | ignore
deriving DecidableEq, Repr

/-- A call of one of the user's callbacks with its arguments. -/
inductive Callback where
  | message (messageId : String) (body : List UInt8) (bodySize : Nat)
      (attributes : BurrowAttributes)
  | queue (queue : String)
  | account (account : String)
deriving DecidableEq, Repr

/-- What a command function leaves behind. -/
structure Outcome where
  accounts : AccountsSt
  callbacks : List Callback
  result : Int
deriving DecidableEq, Repr

/-! ## What the functions do not decide -/

/-- For `_scan_queue`: the clock, the automatic `reference_attributes`, the block
of `_process_filter` and the allocations of `dictionary_iter`. -/
structure ScanInputs where
  time : UInt32
  referenceAttributes : BurrowAttributes
  outFilters : Option BurrowFilters
  iter : IterMemory

/-- For the listings: the block of `_process_filter` and `dictionary_iter`. -/
structure ListInputs where
  outFilters : Option BurrowFilters
  iter : IterMemory

/-- For a walk that deletes: besides the listing, `erase_cmd` and the block of
its filters. -/
structure EraseInputs extends ListInputs where
  eraseCmd : Option BackendCommand
  eraseFilters : Option BurrowFilters

/-- For `delete_queues`: the scan of the `i`-th queue. -/
structure DeleteQueuesInputs extends EraseInputs where
  scan : Nat → ScanInputs

/-- For `delete_accounts`: `delete_queues` on the `i`-th account. -/
structure DeleteAccountsInputs extends EraseInputs where
  deleteQueues : Nat → DeleteQueuesInputs

/-- For `create_message`: the clock and its allocations in order. -/
structure CreateInputs where
  time : UInt32
  newMessage : Option BurrowMessage
  body : Option (List UInt8)
  messageId : Bool
  account : CreateMemory
  queue : CreateMemory
  node : AddMemory

/-- For the commands on one message: the clock and the automatic `attributes`. -/
structure MessageInputs where
  time : UInt32
  attributes : BurrowAttributes

/-- For the backend's destroy function. -/
structure FreeInputs where
  eraseCmd : Option BackendCommand
  eraseFilters : Option BurrowFilters
  deleteAccounts : DeleteAccountsInputs

/-- For any command. -/
structure Inputs where
  scan : ScanInputs
  list : ListInputs
  deleteQueues : DeleteQueuesInputs
  deleteAccounts : DeleteAccountsInputs
  create : CreateInputs
  message : MessageInputs

/-! ## Filters -/

/-- `_process_filter`, on the block its `burrow_malloc` returned. -/
def processFilter (outFilters : Option BurrowFilters)
    (inFilters : Option (Object BurrowFilters)) : Except Fault (Option BurrowFilters) :=
  match outFilters with
  | none => .ok none
  | some block =>
      let out : BurrowFilters :=
        { block with
          set := block.set ||| (burrowFiltersLimit ||| burrowFiltersMatchHidden)
          marker := none
          limit := 0
          matchHidden := false }
      match inFilters with
      | none => .ok (some out)
      | some object =>
          match object.deref with
          | .error e => .error e
          | .ok filters =>
              .ok (some
                { out with
                  marker := if filters.marker.isSome then filters.marker else out.marker
                  limit := if burrowFiltersIssetLimit filters then filters.limit else out.limit
                  matchHidden :=
                    if burrowFiltersIssetMatchHidden filters then filters.matchHidden
                    else out.matchHidden })

/-! ## Scanning a queue -/

/-- The deadlines `attributes_ttl` and `attributes_hide` of `_scan_queue`; `0`
where an attribute is not given. -/
def scanAttributes (currentTime : UInt32) (attributes : Option (Object BurrowAttributes)) :
    Except Fault (UInt32 × UInt32) :=
  match attributes with
  | none => .ok (0, 0)
  | some object =>
      match object.deref with
      | .error e => .error e
      | .ok attributes =>
          .ok (if burrowAttributesIssetTtl attributes then attributes.ttl + currentTime else 0,
            if burrowAttributesIssetHide attributes then attributes.hide + currentTime else 0)

/-- The remaining times of a message, written into an attributes structure. -/
def remainingTimes (currentTime : UInt32) (message : BurrowMessage)
    (attributes : BurrowAttributes) : BurrowAttributes :=
  { attributes with
    ttl := message.ttl - currentTime
    hide := if message.hide > currentTime then message.hide - currentTime else 0 }

/-- `_scan_queue` also sets the two bits. -/
def reportTimes (currentTime : UInt32) (message : BurrowMessage) (attributes : BurrowAttributes) :
    BurrowAttributes :=
  let attributes := remainingTimes currentTime message attributes
  { attributes with set := attributes.set ||| burrowAttributesTtl ||| burrowAttributesHide }

/-- `if(attributes_ttl) message->ttl = attributes_ttl;`, and the same for hide. -/
def applyDeadlines (attributesTtl attributesHide : UInt32) (message : BurrowMessage) :
    BurrowMessage :=
  { message with
    ttl := if attributesTtl ≠ 0 then attributesTtl else message.ttl
    hide := if attributesHide ≠ 0 then attributesHide else message.hide }

/-- `burrow_callback_message` for a stored message. -/
def messageCallback (message : BurrowMessage) (attributes : BurrowAttributes) : Callback :=
  .message message.messageId message.body message.bodySize attributes

/-- The local variables of `_scan_queue` that its loop reads. -/
structure ScanLocals where
  scanType : ScanAction
  deleteAction : DeleteAction
  currentTime : UInt32
  attributesTtl : UInt32
  attributesHide : UInt32
  matchHidden : Bool

/-- The body of the loop in `_scan_queue` on a message: the live list, the
structure `reference_attributes` and the callbacks made. -/
def scanMessage (locals : ScanLocals) (key : String) (message : BurrowMessage)
    (reference : BurrowAttributes) (messages : MessagesSt) :
    MessagesSt × BurrowAttributes × List Callback :=
  if message.ttl ≤ locals.currentTime then
    -- deleted without a report, whatever the scan is for
    (dictionaryDeleteNode messages key, reference, [])
  else if locals.matchHidden = false ∧ message.hide > locals.currentTime then
    (messages, reference, [])
  else
    match locals.scanType with
    | .update =>
        -- UPDATE falls through into GET, on the message just written
        let message := applyDeadlines locals.attributesTtl locals.attributesHide message
        let reference := reportTimes locals.currentTime message reference
        (messages.setData key (some message), reference, [messageCallback message reference])
    | .get =>
        let reference := reportTimes locals.currentTime message reference
        (messages, reference, [messageCallback message reference])
    | .delete =>
        match locals.deleteAction with
        | .report =>
            let reference := reportTimes locals.currentTime message reference
            (dictionaryDeleteNode messages key, reference, [messageCallback message reference])
        | .ignore => (dictionaryDeleteNode messages key, reference, [])

/-- The loop of `_scan_queue` over the copied list. -/
def scanLoop (locals : ScanLocals) :
    List (DictionaryNode BurrowMessage) → BurrowAttributes → MessagesSt →
      Except Fault (MessagesSt × List Callback)
  | [], _, messages => .ok (messages, [])
  | item :: rest, reference, messages =>
      match item.data with
      | none => .error .nullDereference
      | some message =>
          let step := scanMessage locals item.key message reference messages
          match scanLoop locals rest step.2.1 step.1 with
          | .error e => .error e
          | .ok (messages, callbacks) => .ok (messages, step.2.2 ++ callbacks)

/-- The end of every command that takes messages out of a queue: a queue without
messages is unlinked from its account, an account without queues from the store. -/
def deleteIfEmpty (accounts : AccountsSt) (account queue : String) (queues : QueuesSt)
    (messages : MessagesSt) : AccountsSt :=
  let queues := queues.setData queue (some messages)
  let queues := if messages.length = 0 then dictionaryDeleteNode queues queue else queues
  let accounts := accounts.setData account (some queues)
  if queues.length = 0 then dictionaryDeleteNode accounts account else accounts

/-- `_scan_queue`, without its return value, which is `0` on every path. -/
def scanQueue (inputs : ScanInputs) (cmd : BackendCommand) (scanType : ScanAction)
    (deleteAction : DeleteAction) (accounts : AccountsSt) :
    Except Fault (AccountsSt × List Callback) :=
  match dictionaryGet (some accounts) (some cmd.account) with
  | none => .ok (accounts, [])
  | some account =>
      match dictionaryGet account.data (some cmd.queue) with
      | none => .ok (accounts, [])
      | some queue =>
          match scanAttributes inputs.time cmd.attributes with
          | .error e => .error e
          | .ok (attributesTtl, attributesHide) =>
              match processFilter inputs.outFilters cmd.filters with
              | .error e => .error e
              -- `malloc` failed: logged, and `0` all the same
              | .ok none => .ok (accounts, [])
              | .ok (some refFilters) =>
                  match dictionaryIter inputs.iter queue.data refFilters.marker
                      refFilters.limit.toNat, account.data, queue.data with
                  | some iterator, some queues, some messages =>
                      let locals : ScanLocals :=
                        { scanType := scanType
                          deleteAction := deleteAction
                          currentTime := inputs.time
                          attributesTtl := attributesTtl
                          attributesHide := attributesHide
                          matchHidden := refFilters.matchHidden }
                      match scanLoop locals (iterator.nodes.take iterator.length)
                          inputs.referenceAttributes messages with
                      | .error e => .error e
                      | .ok (messages, callbacks) =>
                          .ok (deleteIfEmpty accounts cmd.account queue.key queues messages,
                            callbacks)
                  | _, _, _ => .ok (accounts, [])

/-! ## Commands on lists -/

/-- The walk of `get_queues` and `get_accounts` over the copied list. -/
def listKeys {α : Type} (iterator : Dictionary α) (callback : String → Callback) :
    List Callback :=
  (iterator.nodes.take iterator.length).map fun item => callback item.key

/-- What `get_queues` and `get_accounts` share once the list is found. -/
def listCommand {α : Type} (inputs : ListInputs) (cmd : BackendCommand)
    (dictionary : Dictionary α) (callback : String → Callback) (accounts : AccountsSt) :
    Except Fault Outcome :=
  match processFilter inputs.outFilters cmd.filters with
  | .error e => .error e
  | .ok none => .ok ⟨accounts, [], 0⟩
  | .ok (some refFilters) =>
      match dictionaryIter inputs.iter (some dictionary) refFilters.marker
          refFilters.limit.toNat with
      | none => .ok ⟨accounts, [], 0⟩
      | some iterator => .ok ⟨accounts, listKeys iterator callback, 0⟩

/-- What `delete_queues` and `delete_accounts` share once the list is found:
`walk` takes `erase_cmd`, of which only the filters are written here, and the
keys of the copied list. -/
def eraseCommand {α : Type} (inputs : EraseInputs) (cmd : BackendCommand)
    (dictionary : Dictionary α)
    (walk : BackendCommand → List String → AccountsSt → Except Fault (AccountsSt × List Callback))
    (accounts : AccountsSt) : Except Fault Outcome :=
  match processFilter inputs.outFilters cmd.filters with
  | .error e => .error e
  | .ok none => .ok ⟨accounts, [], 0⟩
  | .ok (some refFilters) =>
      match dictionaryIter inputs.iter (some dictionary) refFilters.marker
          refFilters.limit.toNat, inputs.eraseCmd, processFilter inputs.eraseFilters none with
      | some iterator, some block, .ok (some filters) =>
          match walk { block with filters := some (.live filters) }
              ((iterator.nodes.take iterator.length).map DictionaryNode.key) accounts with
          | .error e => .error e
          | .ok (accounts, callbacks) => .ok ⟨accounts, callbacks, 0⟩
      | _, _, _ => .ok ⟨accounts, [], 0⟩

/-- The search for the account that `get_queues` and `delete_queues` begin with. -/
def withQueues (cmd : BackendCommand) (accounts : AccountsSt)
    (body : QueuesSt → Except Fault Outcome) : Except Fault Outcome :=
  match dictionaryGet (some accounts) (some cmd.account) with
  | none => .ok ⟨accounts, [], 0⟩
  | some account =>
      match account.data with
      | none => .ok ⟨accounts, [], 0⟩
      | some queues => body queues

def burrowBackendMemoryGetQueues (inputs : ListInputs) (cmd : BackendCommand)
    (accounts : AccountsSt) : Except Fault Outcome :=
  withQueues cmd accounts fun queues => listCommand inputs cmd queues .queue accounts

/-- The loop of `delete_queues`: a scan of each queue of the copied list that
deletes without reporting. -/
def deleteQueuesLoop (scan : Nat → ScanInputs) (eraseCmd : BackendCommand) :
    List String → Nat → AccountsSt → Except Fault (AccountsSt × List Callback)
  | [], _, accounts => .ok (accounts, [])
  | key :: rest, i, accounts =>
      match scanQueue (scan i) { eraseCmd with queue := key } .delete .ignore accounts with
      | .error e => .error e
      | .ok (accounts, callbacks) =>
          match deleteQueuesLoop scan eraseCmd rest (i + 1) accounts with
          | .error e => .error e
          | .ok (accounts, callbacks') => .ok (accounts, callbacks ++ callbacks')

def burrowBackendMemoryDeleteQueues (inputs : DeleteQueuesInputs) (cmd : BackendCommand)
    (accounts : AccountsSt) : Except Fault Outcome :=
  withQueues cmd accounts fun queues =>
    eraseCommand inputs.toEraseInputs cmd queues
      (fun eraseCmd keys =>
        deleteQueuesLoop inputs.scan { eraseCmd with attributes := none, account := cmd.account }
          keys 0)
      accounts

def burrowBackendMemoryGetAccounts (inputs : ListInputs) (cmd : BackendCommand)
    (accounts : AccountsSt) : Except Fault Outcome :=
  listCommand inputs cmd accounts .account accounts

/-- The loop of `delete_accounts`. -/
def deleteAccountsLoop (deleteQueues : Nat → DeleteQueuesInputs) (eraseCmd : BackendCommand) :
    List String → Nat → AccountsSt → Except Fault (AccountsSt × List Callback)
  | [], _, accounts => .ok (accounts, [])
  | key :: rest, i, accounts =>
      match burrowBackendMemoryDeleteQueues (deleteQueues i) { eraseCmd with account := key }
          accounts with
      | .error e => .error e
      | .ok outcome =>
          match deleteAccountsLoop deleteQueues eraseCmd rest (i + 1) outcome.accounts with
          | .error e => .error e
          | .ok (accounts, callbacks) => .ok (accounts, outcome.callbacks ++ callbacks)

/-- Here the attributes of `erase_cmd` keep what the block held. -/
def burrowBackendMemoryDeleteAccounts (inputs : DeleteAccountsInputs) (cmd : BackendCommand)
    (accounts : AccountsSt) : Except Fault Outcome :=
  eraseCommand inputs.toEraseInputs cmd accounts
    (fun eraseCmd keys => deleteAccountsLoop inputs.deleteQueues eraseCmd keys 0) accounts

/-! ## Commands on the messages of a queue -/

/-- The three commands differ in the action of the scan only. -/
def scanCommand (scanType : ScanAction) (inputs : ScanInputs) (cmd : BackendCommand)
    (accounts : AccountsSt) : Except Fault Outcome :=
  match scanQueue inputs cmd scanType .report accounts with
  | .error e => .error e
  | .ok (accounts, callbacks) => .ok ⟨accounts, callbacks, 0⟩

def burrowBackendMemoryGetMessages := scanCommand .get

def burrowBackendMemoryUpdateMessages := scanCommand .update

def burrowBackendMemoryDeleteMessages := scanCommand .delete

/-! ## Commands on one message -/

/-- `memcpy` of `n` bytes to the start of a block. -/
def memcpy (dest src : List UInt8) (n : Nat) : List UInt8 := src.take n ++ dest.drop n

/-- The deadlines of a new message: five minutes and not hidden by default. -/
def createTimes (creationTime : UInt32) (attributes : Option (Object BurrowAttributes)) :
    Except Fault (UInt32 × UInt32) :=
  match attributes with
  | none => .ok (creationTime + 300, 0)
  | some object =>
      match object.deref with
      | .error e => .error e
      | .ok attributes =>
          .ok
            (if burrowAttributesIssetTtl attributes then creationTime + attributes.ttl
              else creationTime + 300,
            if burrowAttributesIssetHide attributes then
              if attributes.hide ≠ 0 then creationTime + attributes.hide else 0
            else 0)

/-- The last part of `create_message`: the message into the queue, and the queue,
if it is new, into the account whose data pointer is `accountData`. -/
def linkQueue (inputs : CreateInputs) (cmd : BackendCommand) (newMessage : BurrowMessage)
    (accountData : Option QueuesSt) (accounts : AccountsSt) : Except Fault Outcome :=
  let (data, queue) := dictionaryGetCreate inputs.queue accountData cmd.queue
  match data with
  | none => .error .nullDereference
  | some queues =>
      -- account->data after the call; the node itself is already linked
      let accounts := accounts.setData cmd.account (some queues)
      match queue with
      | none =>
          if queues.length = 0 then .ok ⟨dictionaryDeleteNode accounts cmd.account, [], 0⟩
          else .ok ⟨accounts, [], 0⟩
      | some queue =>
          let store (messages : MessagesSt) : AccountsSt :=
            accounts.setData cmd.account (some (queues.setData cmd.queue (some messages)))
          match queue.data with
          | none => .error .nullDereference
          | some messages =>
              match dictionaryGet (some messages) (some newMessage.messageId) with
              | some messageNode =>
                  .ok ⟨store (messages.setData messageNode.key (some newMessage)), [], 0⟩
              | none =>
                  match dictionaryAdd inputs.node (some messages) newMessage.messageId
                      (some newMessage) with
                  | some messages => .ok ⟨store messages, [], 0⟩
                  | none =>
                      if messages.length = 0 then
                        .ok ⟨accounts.setData cmd.account
                          (some (dictionaryDeleteNode queues cmd.queue)), [], 0⟩
                      else .ok ⟨accounts, [], 0⟩

/-- The second part of `create_message`: linking the new message into the store. -/
def linkMessage (inputs : CreateInputs) (cmd : BackendCommand) (newMessage : BurrowMessage)
    (accounts : AccountsSt) : Except Fault Outcome :=
  let (found, account) := dictionaryGetCreate inputs.account (some accounts) cmd.account
  let accounts := found.getD accounts
  match account with
  | none => .ok ⟨accounts, [], 0⟩
  | some account => linkQueue inputs cmd newMessage account.data accounts

def burrowBackendMemoryCreateMessage (inputs : CreateInputs) (cmd : BackendCommand)
    (accounts : AccountsSt) : Except Fault Outcome :=
  match inputs.newMessage, inputs.body, inputs.messageId with
  | some newMessage, some body, true =>
      match createTimes inputs.time cmd.attributes with
      | .error e => .error e
      | .ok (ttl, hide) =>
          let newMessage : BurrowMessage :=
            { newMessage with
              body := memcpy (body.take cmd.bodySize) cmd.body cmd.bodySize
              messageId := cmd.messageId
              bodySize := cmd.bodySize
              ttl := ttl
              hide := hide }
          linkMessage inputs cmd newMessage accounts
  | _, _, _ => .ok ⟨accounts, [], 0⟩

/-- What the nested searches of a command on one message lead to. -/
structure FoundMessage where
  queues : QueuesSt
  messages : MessagesSt
  message : BurrowMessage

/-- The searches for account, queue and message node, and the test of the node's
data pointer. -/
def findMessage (accounts : AccountsSt) (cmd : BackendCommand) : Option FoundMessage :=
  match dictionaryGet (some accounts) (some cmd.account) with
  | none => none
  | some account =>
      match account.data with
      | none => none
      | some queues =>
          match dictionaryGet (some queues) (some cmd.queue) with
          | none => none
          | some queue =>
              match queue.data with
              | none => none
              | some messages =>
                  match dictionaryGet (some messages) (some cmd.messageId) with
                  | none => none
                  | some messageNode =>
                      messageNode.data.map fun message => ⟨queues, messages, message⟩

/-- The message node unlinked, with the containers this empties. -/
def FoundMessage.unlink (found : FoundMessage) (cmd : BackendCommand) (accounts : AccountsSt) :
    AccountsSt :=
  deleteIfEmpty accounts cmd.account cmd.queue found.queues
    (dictionaryDeleteNode found.messages cmd.messageId)

/-- The message written through its pointer. -/
def FoundMessage.write (found : FoundMessage) (cmd : BackendCommand) (message : BurrowMessage)
    (accounts : AccountsSt) : AccountsSt :=
  accounts.setData cmd.account
    (some (found.queues.setData cmd.queue
      (some (found.messages.setData cmd.messageId (some message)))))

/-- The deadlines of `update_message`, where a ttl of zero counts as not given. -/
def updateAttributes (currentTime : UInt32) (attributes : Option (Object BurrowAttributes)) :
    Except Fault (UInt32 × UInt32) :=
  match attributes with
  | none => .ok (0, 0)
  | some object =>
      match object.deref with
      | .error e => .error e
      | .ok attributes =>
          .ok
            (if burrowAttributesIssetTtl attributes then
              if attributes.ttl > 0 then attributes.ttl + currentTime else 0
            else 0,
            if burrowAttributesIssetHide attributes then attributes.hide + currentTime else 0)

/-- The `set` field of the attributes handed to the callback is not written. -/
def burrowBackendMemoryUpdateMessage (inputs : MessageInputs) (cmd : BackendCommand)
    (accounts : AccountsSt) : Except Fault Outcome :=
  match findMessage accounts cmd with
  | none => .ok ⟨accounts, [], EINVAL⟩
  | some found =>
      if found.message.ttl ≤ inputs.time then .ok ⟨found.unlink cmd accounts, [], 0⟩
      else
        match updateAttributes inputs.time cmd.attributes with
        | .error e => .error e
        | .ok (attributesTtl, attributesHide) =>
            let message := applyDeadlines attributesTtl attributesHide found.message
            let attributes := remainingTimes inputs.time message inputs.attributes
            .ok ⟨found.write cmd message accounts, [messageCallback message attributes], 0⟩

/-- As in `update_message`, `set` is not written. An expired message is freed first, and
its id and its body are then to be freed through the pointers in it. -/
def burrowBackendMemoryGetMessage (inputs : MessageInputs) (cmd : BackendCommand)
    (accounts : AccountsSt) : Except Fault Outcome :=
  match findMessage accounts cmd with
  | none => .ok ⟨accounts, [], EINVAL⟩
  | some found =>
      if found.message.ttl ≤ inputs.time then .error .freedMessage
      else
        let attributes := remainingTimes inputs.time found.message inputs.attributes
        .ok ⟨accounts, [messageCallback found.message attributes], 0⟩

/-- As in `update_message`, `set` is not written. -/
def burrowBackendMemoryDeleteMessage (inputs : MessageInputs) (cmd : BackendCommand)
    (accounts : AccountsSt) : Except Fault Outcome :=
  match findMessage accounts cmd with
  | none => .ok ⟨accounts, [], 0⟩
  | some found =>
      let attributes := remainingTimes inputs.time found.message inputs.attributes
      let callbacks :=
        if found.message.ttl > inputs.time then [messageCallback found.message attributes] else []
      .ok ⟨found.unlink cmd accounts, callbacks, 0⟩

/-! ## The backend -/

/-- `burrow_backend_memory_create`, where its allocations succeed: the empty
store. -/
def burrowBackendMemoryCreate : AccountsSt := Dictionary.ofNodes []

/-- `burrow_backend_memory_free` up to the point where it frees the dictionary of
accounts: what is then still linked is lost. -/
def burrowBackendMemoryFree (inputs : FreeInputs) (accounts : AccountsSt) :
    Except Fault (AccountsSt × List Callback) :=
  match inputs.eraseCmd, processFilter inputs.eraseFilters none with
  | some block, .ok (some filters) =>
      match burrowBackendMemoryDeleteAccounts inputs.deleteAccounts
          { block with filters := some (.live filters) } accounts with
      | .error e => .error e
      | .ok outcome => .ok (outcome.accounts, outcome.callbacks)
  | _, _ => .ok (accounts, [])

/-- The command functions of `burrow_backend_memory_functions`. -/
def execute (inputs : Inputs) (name : CommandName) (cmd : BackendCommand)
    (accounts : AccountsSt) : Except Fault Outcome :=
  match name with
  | .getAccounts => burrowBackendMemoryGetAccounts inputs.list cmd accounts
  | .deleteAccounts => burrowBackendMemoryDeleteAccounts inputs.deleteAccounts cmd accounts
  | .getQueues => burrowBackendMemoryGetQueues inputs.list cmd accounts
  | .deleteQueues => burrowBackendMemoryDeleteQueues inputs.deleteQueues cmd accounts
  | .getMessages => burrowBackendMemoryGetMessages inputs.scan cmd accounts
  | .updateMessages => burrowBackendMemoryUpdateMessages inputs.scan cmd accounts
  | .deleteMessages => burrowBackendMemoryDeleteMessages inputs.scan cmd accounts
  | .createMessage => burrowBackendMemoryCreateMessage inputs.create cmd accounts
  | .getMessage => burrowBackendMemoryGetMessage inputs.message cmd accounts
  | .updateMessage => burrowBackendMemoryUpdateMessage inputs.message cmd accounts
  | .deleteMessage => burrowBackendMemoryDeleteMessage inputs.message cmd accounts

end Burrow.Memory
