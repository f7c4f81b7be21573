import Burrow.Objects
import Burrow.Lib.Machine

/-!
# Decoding a response

`json_processing.c`: the callback that the JSON parser calls for everything it has
parsed, and the structure it keeps between two calls. `curl_easy_unescape` is outside; a
string is the list of its bytes, and the parser delivers it with a zero byte behind them.
Every call of the callback allocates at most one block; `alloc` says whether it gets it. To
copy more to a block than there is room for is an error.
-/

set_option autoImplicit false

namespace Burrow.Http

/-! ## C strings -/

/-- The bytes of a string as far as `strlen` and `strcmp` see them. -/
def cString (s : List UInt8) : List UInt8 := s.takeWhile (· ≠ 0)

/-- `"id"` -/
def keyId : List UInt8 := [105, 100]

/-- `"body"` -/
def keyBody : List UInt8 := [98, 111, 100, 121]

/-- `"ttl"` -/
def keyTtl : List UInt8 := [116, 116, 108]

/-- `"hide"` -/
def keyHide : List UInt8 := [104, 105, 100, 101]

/-! ## Attributes -/

/-- `burrow_attributes_create`, for an object that is not managed: a block that is there
is used again. -/
def burrowAttributesCreate (dest : Option BurrowAttributes) (alloc : Bool) :
    Option BurrowAttributes :=
  if dest.isSome || alloc then some { set := 0, ttl := 0, hide := 0 } else none

def burrowAttributesUnsetAll (attributes : BurrowAttributes) : BurrowAttributes :=
  { attributes with set := 0 }

def burrowAttributesSetTtl (attributes : BurrowAttributes) (ttl : UInt32) : BurrowAttributes :=
  { attributes with ttl := ttl, set := attributes.set ||| burrowAttributesTtl }

def burrowAttributesSetHide (attributes : BurrowAttributes) (hide : UInt32) : BurrowAttributes :=
  { attributes with hide := hide, set := attributes.set ||| burrowAttributesHide }

/-! ## The parser -/

/-- What the parser has parsed. -/
inductive JsonEvent where
  | arrayBegin
  | arrayEnd
  | objectBegin
  | objectEnd
  | integer (value : Int)
  | float
  | null
  | true
  | false
  | string (value : List UInt8)
  | key (value : List UInt8)
deriving DecidableEq, Repr

/-- `json_processing_st`, without the backend. -/
structure JsonProcessing where
  body : Option (List UInt8)
  bodySize : Nat
  messageId : Option (List UInt8)
  isKey : Bool
  key : Option (List UInt8)
  attributes : Option BurrowAttributes
deriving DecidableEq, Repr

/-- `burrow_easy_json_st_create` -/
def burrowEasyJsonStCreate (alloc : Bool) : JsonProcessing :=
  { body := none
    bodySize := 0
    messageId := none
    isKey := false
    key := none
    attributes := burrowAttributesCreate none alloc }

/-- What a message callback is called with. -/
structure Message where
  messageId : Option (List UInt8)
  body : Option (List UInt8)
  bodySize : Nat
  attributes : Option BurrowAttributes
deriving DecidableEq, Repr

/-- A call of one of the user's callbacks. -/
inductive Reported where
  | message (message : Message)
  | queue (name : List UInt8)
  | account (name : List UInt8)
deriving DecidableEq, Repr

/-- The result of the callback: the code is `1` if `accepted`. -/
structure JsonResult where
  accepted : Bool
  jproc : JsonProcessing
  reported : Option Reported
deriving DecidableEq, Repr

def JsonResult.accept (jproc : JsonProcessing) : JsonResult :=
  { accepted := true, jproc := jproc, reported := none }

def JsonResult.reject (jproc : JsonProcessing) : JsonResult :=
  { accepted := false, jproc := jproc, reported := none }

/-- Undefined behaviour that the callback can run into. -/
inductive JsonFault where
  | nullDereference
  /-- a copy goes behind the end of its block -/
  | overrun
deriving DecidableEq, Repr

/-- `memcpy` of `n` bytes to a block that was allocated with `size` bytes. -/
def copied (size n : Nat) : Except JsonFault Unit :=
  if n ≤ size then .ok () else .error .overrun

theorem copied_self (n : Nat) : copied n n = .ok () := if_pos (Nat.le_refl n)

/-- There is no room for one byte more. -/
theorem copied_succ (n : Nat) : copied n (n + 1) = .error .overrun :=
  if_neg (Nat.not_succ_le_self n)

/-- The commands whose response is a list of messages. -/
def returnsMessages : CommandName → Bool
  | .getMessage | .getMessages | .updateMessage | .updateMessages | .deleteMessage
  | .deleteMessages => true
  | _ => false

/-! ## The callback -/

/-- The value of a key is a string. -/
def stringValue (unescape : List UInt8 → List UInt8) (alloc : Bool) (value : List UInt8)
    (jproc : JsonProcessing) : Except JsonFault JsonResult :=
  if jproc.isKey then
    let jproc := { jproc with isKey := false }
    match jproc.key with
    | none => .error .nullDereference
    | some key =>
        if cString key = keyId then
          let messageId := cString (unescape (cString value))
          if alloc then do
            copied (messageId.length + 1) (messageId.length + 1)
            return .accept { jproc with messageId := some messageId }
          else .ok (.reject { jproc with messageId := none })
        else if cString key = keyBody then
          let jproc := { jproc with bodySize := value.length }
          if alloc then do
            -- the zero byte is copied too, and there is no room for it
            copied value.length (value.length + 1)
            return .accept { jproc with body := some value }
          else .ok (.reject { jproc with body := none })
        else .ok (.reject jproc)
  else .ok (.reject jproc)

/-- An integer is parsed, as the value of a key or on its own. -/
def integerValue (value : Int) (jproc : JsonProcessing) : Except JsonFault JsonResult :=
  if jproc.isKey then
    let jproc := { jproc with isKey := false }
    match jproc.key with
    | none => .error .nullDereference
    | some key =>
        if cString key = keyHide then
          match jproc.attributes with
          | none => .error .nullDereference
          | some attributes =>
              .ok (.accept { jproc with
                attributes := some (burrowAttributesSetHide attributes (UInt32.ofInt value)) })
        else if cString key = keyTtl then
          match jproc.attributes with
          | none => .error .nullDereference
          | some attributes =>
              .ok (.accept { jproc with
                attributes := some (burrowAttributesSetTtl attributes (UInt32.ofInt value)) })
        else .ok (.reject jproc)
  else .ok (.accept jproc)

/-- An object ends: the message is reported, and the structure made ready for the
next one. -/
def objectEnd (alloc : Bool) (jproc : JsonProcessing) : JsonResult :=
  { accepted := true
    jproc :=
      { jproc with
        messageId := none
        body := none
        bodySize := 0
        attributes :=
          match jproc.attributes with
          | some attributes => some (burrowAttributesUnsetAll attributes)
          | none => burrowAttributesCreate none alloc }
    reported := some (.message
      { messageId := jproc.messageId
        body := jproc.body
        bodySize := jproc.bodySize
        attributes := jproc.attributes }) }

/-- `burrow_backend_http_json_callback` -/
def burrowBackendHttpJsonCallback (unescape : List UInt8 → List UInt8)
    (command : Option CommandName) (alloc : Bool) (event : JsonEvent) (jproc : JsonProcessing) :
    Except JsonFault JsonResult :=
  if command.any returnsMessages then
    match event with
    | .arrayBegin | .arrayEnd => .ok (.accept jproc)
    | .objectBegin =>
        .ok (.accept { jproc with attributes := burrowAttributesCreate jproc.attributes alloc })
    | .objectEnd => .ok (objectEnd alloc jproc)
    | .key value =>
        let jproc := { jproc with isKey := true }
        if alloc then do
          copied (value.length + 1) (value.length + 1)
          return .accept { jproc with key := some value }
        else .ok (.reject { jproc with key := none })
    | .string value => stringValue unescape alloc value jproc
    | .integer value => integerValue value jproc
    | .float | .null | .true | .false => .ok (.reject jproc)
  else if command = some .getQueues ∨ command = some .getAccounts then
    match event with
    | .arrayBegin | .arrayEnd => .ok (.accept jproc)
    | .string value =>
        let name := cString (unescape (cString value))
        let reported : Reported :=
          if command = some .getAccounts then .account name else .queue name
        .ok { JsonResult.accept jproc with reported := some reported }
    | _ => .ok (.reject jproc)
  else .ok (.accept jproc)

/-! ## Streams of events -/

/-- Why the parser is stopped. -/
inductive JsonStop where
  | rejected
  | fault (fault : JsonFault)
deriving DecidableEq, Repr

section Stream

variable (unescape : List UInt8 → List UInt8) (command : Option CommandName)

/-- The parser delivers an event, and every allocation succeeds. -/
def jsonStep (event : JsonEvent) (jproc : JsonProcessing) : Except JsonStop JsonProcessing :=
  match burrowBackendHttpJsonCallback unescape command true event jproc with
  | .error fault => .error (.fault fault)
  | .ok result => if result.accepted then .ok result.jproc else .error .rejected

/-- What the user is called with. -/
def jsonReports (event : JsonEvent) (jproc : JsonProcessing) : List Reported :=
  match burrowBackendHttpJsonCallback unescape command true event jproc with
  | .error _ => []
  | .ok result => result.reported.toList

end Stream

end Burrow.Http
