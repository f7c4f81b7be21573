import Burrow.Http.Query

/-!
# Requests

The command functions of `curl_backend.c`, up to the call of
`burrow_backend_http_process`: they put together a URL in a block whose size they have
computed before, and hand it to libcurl. `curl_easy_escape` is a parameter, and so is
what a block that is asked for comes to; `uninit` is what an uninitialised `int` holds.
-/

set_option autoImplicit false

namespace Burrow.Http

open CBuffer (Cell zeros)

inductive Method where
  | get | put | post | delete
deriving DecidableEq, Repr

/-- What libcurl is told to do. -/
structure Request where
  url : String
  method : Method
  payload : List UInt8
deriving DecidableEq, Repr

/-- A command function fails, or a request is set up. -/
inductive Prepared where
  | fails (code : Int)
  | sends (request : Request)
deriving DecidableEq, Repr

/-- The blocks that a command function asks for, and whether it gets them. -/
structure Allocations where
  filterStr : Bool
  attributeStr : Bool
  url : Bool

def Allocations.all : Allocations := { filterStr := true, attributeStr := true, url := true }

/-- The commands that `burrow_backend_http_common_getting` finds to be on one message. -/
def namesMessage : Option CommandName → Bool
  | some .updateMessage | some .deleteMessage | some .getMessage => true
  | _ => false

/-- The commands that `burrow_backend_http_common_getting` finds to be updates. -/
def updates : Option CommandName → Bool
  | some .updateMessages | some .updateMessage => true
  | _ => false

/-- The method that `burrow_backend_http_common_getting` sets. -/
def methodOf : Option CommandName → Method
  | some .updateMessages | some .updateMessage => .post
  | some .deleteMessages | some .deleteMessage => .delete
  | _ => .get

/-- `snprintf(url, urllen, "%s/%s...", backend->baseurl, backend->proto_version, ...)` -/
def startUrl (backend : BurrowBackend) (urllen : Nat) (rest : String) :
    Except HttpFault (List Cell × Nat) :=
  match backend.baseurl with
  | none => .error (.fault .nullDereference)
  | some baseurl =>
      snprintf (zeros urllen) 0 urllen (baseurl ++ "/" ++ backend.protoVersion ++ rest)

section Commands

variable (escape : String → String) (alloc : Allocations) (uninit : Int)
  (backend : BurrowBackend) (cmd : BackendCommand)

/-- `burrow_backend_http_create_message` -/
def burrowBackendHttpCreateMessage : Except HttpFault Prepared := do
  let account := escape cmd.account
  let queue := escape cmd.queue
  let messageId := escape cmd.messageId
  let (attrString, attrStrLen) ←
    burrowBackendHttpAttributesToString cmd.attributes alloc.attributeStr uninit
  -- a length without a string is an error code
  if attrString.isNone ∧ attrStrLen ≠ 0 then return .fails attrStrLen
  let urllen := backend.baseurlLen + backend.protoVersionLen + account.length + queue.length +
    messageId.length + attrStrLen.toNat + 20
  if alloc.url = false then return .fails ENOMEM
  let state ← startUrl backend urllen ("/" ++ account ++ "/" ++ queue ++ "/" ++ messageId)
  let state ← appendIf attrString.isSome (appendText urllen ("?" ++ attrString.getD "")) state
  return .sends
    { url := readString state.1, method := .put, payload := cmd.body.take cmd.bodySize }

/-- `burrow_backend_http_common_getting` -/
def burrowBackendHttpCommonGetting : Except HttpFault Prepared := do
  let account := escape cmd.account
  let queue := escape cmd.queue
  let messageId := if namesMessage cmd.command then escape cmd.messageId else ""
  let (filterStr, filterStrLen) ←
    burrowBackendHttpFiltersToString escape cmd.filters alloc.filterStr
  if filterStr.isNone ∧ filterStrLen ≠ 0 then return .fails filterStrLen
  let (attributeStr, attributeStrLen) ←
    (if updates cmd.command then
      burrowBackendHttpAttributesToString cmd.attributes alloc.attributeStr 0
    else .ok (none, 0))
  if attributeStr.isNone ∧ attributeStrLen ≠ 0 then return .fails attributeStrLen
  let urllen := backend.baseurlLen + backend.protoVersionLen + account.length + queue.length +
    messageId.length + filterStrLen.toNat + attributeStrLen.toNat + 128
  if alloc.url = false then return .fails ENOMEM
  let state ← startUrl backend urllen ("/" ++ account ++ "/" ++ queue)
  let state ← appendIf (namesMessage cmd.command) (appendText urllen ("/" ++ messageId)) state
  let state ← appendIf (filterStrLen ≠ 0) (appendText urllen ("?" ++ filterStr.getD "")) state
  let state ← appendIf (attributeStrLen ≠ 0)
    (appendText urllen ((if filterStr.isSome then "&" else "?") ++ attributeStr.getD "")) state
  return .sends { url := readString state.1, method := methodOf cmd.command, payload := [] }

/-- `burrow_backend_http_common_getlists` -/
def burrowBackendHttpCommonGetlists : Except HttpFault Prepared := do
  let account := if cmd.command = some .getQueues then escape cmd.account else ""
  let (filterStr, filterStrLen) ←
    burrowBackendHttpFiltersToString escape cmd.filters alloc.filterStr
  if filterStr.isNone ∧ filterStrLen ≠ 0 then return .fails filterStrLen
  let urllen := backend.baseurlLen + backend.protoVersionLen + account.length +
    filterStrLen.toNat + 128
  if alloc.url = false then return .fails ENOMEM
  let state ← startUrl backend urllen ""
  let state ← appendIf (cmd.command = some .getQueues) (appendText urllen ("/" ++ account)) state
  -- `filter_str` has room in the URL, and is not appended
  return .sends { url := readString state.1, method := .get, payload := [] }

/-- `burrow_backend_http_common_delete` -/
def burrowBackendHttpCommonDelete : Except HttpFault Prepared := do
  let account := if cmd.command = some .deleteQueues then escape cmd.account else ""
  let (filterStr, filterStrLen) ←
    burrowBackendHttpFiltersToString escape cmd.filters alloc.filterStr
  if filterStr.isNone ∧ filterStrLen ≠ 0 then return .fails filterStrLen
  let urllen := backend.baseurlLen + backend.protoVersionLen + account.length +
    filterStrLen.toNat + 128
  if alloc.url = false then return .fails ENOMEM
  let state ← startUrl backend urllen ""
  let state ← appendIf (cmd.command = some .deleteQueues) (appendText urllen ("/" ++ account)) state
  let state ← appendIf filterStr.isSome (appendText urllen ("?" ++ filterStr.getD "")) state
  return .sends { url := readString state.1, method := .delete, payload := [] }

def burrowBackendHttpGetMessage := burrowBackendHttpCommonGetting escape alloc backend cmd

def burrowBackendHttpGetMessages := burrowBackendHttpCommonGetting escape alloc backend cmd

def burrowBackendHttpUpdateMessage := burrowBackendHttpCommonGetting escape alloc backend cmd

def burrowBackendHttpUpdateMessages := burrowBackendHttpCommonGetting escape alloc backend cmd

def burrowBackendHttpDeleteMessage := burrowBackendHttpCommonGetting escape alloc backend cmd

def burrowBackendHttpDeleteMessages := burrowBackendHttpCommonGetting escape alloc backend cmd

def burrowBackendHttpGetAccounts := burrowBackendHttpCommonGetlists escape alloc backend cmd

def burrowBackendHttpGetQueues := burrowBackendHttpCommonGetlists escape alloc backend cmd

def burrowBackendHttpDeleteAccounts := burrowBackendHttpCommonDelete escape alloc backend cmd

def burrowBackendHttpDeleteQueues := burrowBackendHttpCommonDelete escape alloc backend cmd

/-- The command function that `burrow_backend_http_functions` has for a command. -/
def burrowBackendHttpCommand (name : CommandName) : Except HttpFault Prepared :=
  match name with
  | .getAccounts => burrowBackendHttpGetAccounts escape alloc backend cmd
  | .deleteAccounts => burrowBackendHttpDeleteAccounts escape alloc backend cmd
  | .getQueues => burrowBackendHttpGetQueues escape alloc backend cmd
  | .deleteQueues => burrowBackendHttpDeleteQueues escape alloc backend cmd
  | .getMessages => burrowBackendHttpGetMessages escape alloc backend cmd
  | .updateMessages => burrowBackendHttpUpdateMessages escape alloc backend cmd
  | .deleteMessages => burrowBackendHttpDeleteMessages escape alloc backend cmd
  | .getMessage => burrowBackendHttpGetMessage escape alloc backend cmd
  | .updateMessage => burrowBackendHttpUpdateMessage escape alloc backend cmd
  | .deleteMessage => burrowBackendHttpDeleteMessage escape alloc backend cmd
  | .createMessage => burrowBackendHttpCreateMessage escape alloc uninit backend cmd

end Commands

end Burrow.Http
