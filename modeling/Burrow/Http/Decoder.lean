import Burrow.Http.Json

/-!
# The steps of the decoder

A flat object is a list of pairs, of which each key counts with its last value, and
`ofObject` is the message that it stands for. Between two objects the structure is `Clean`,
and within one it holds what the pairs so far come to (`Gathers`).
-/

set_option autoImplicit false

namespace Burrow.Http

/-! ## Flat objects -/

/-- A key with a value of the kind that belongs to it. -/
inductive Pair where
  | id (value : List UInt8)
  | body (value : List UInt8)
  | ttl (value : UInt32)
  | hide (value : UInt32)
deriving DecidableEq, Repr

def Pair.events : Pair → List JsonEvent
  | .id value => [.key keyId, .string value]
  | .body value => [.key keyBody, .string value]
  | .ttl value => [.key keyTtl, .integer value.toNat]
  | .hide value => [.key keyHide, .integer value.toNat]

def objectEvents (pairs : List Pair) : List JsonEvent :=
  [.objectBegin] ++ pairs.flatMap Pair.events ++ [.objectEnd]

/-- The events of some objects, on their own or in an array. -/
def messageEvents (inArray : Bool) (objects : List (List Pair)) : List JsonEvent :=
  if inArray then [.arrayBegin] ++ objects.flatMap objectEvents ++ [.arrayEnd]
  else objects.flatMap objectEvents

def Pair.id? : Pair → Option (List UInt8)
  | .id value => some value
  | _ => none

def Pair.body? : Pair → Option (List UInt8)
  | .body value => some value
  | _ => none

def Pair.ttl? : Pair → Option UInt32
  | .ttl value => some value
  | _ => none

def Pair.hide? : Pair → Option UInt32
  | .hide value => some value
  | _ => none

/-- The last value of a key. -/
def lastOf {α : Type} (value? : Pair → Option α) (pairs : List Pair) : Option α :=
  (pairs.filterMap value?).getLast?

/-- The attributes that some pairs come to. -/
def attributesOf (pairs : List Pair) : BurrowAttributes :=
  { set :=
      (if (lastOf Pair.ttl? pairs).isSome then burrowAttributesTtl else 0) |||
        (if (lastOf Pair.hide? pairs).isSome then burrowAttributesHide else 0)
    ttl := (lastOf Pair.ttl? pairs).getD 0
    hide := (lastOf Pair.hide? pairs).getD 0 }

/-- The message that an object stands for. -/
def ofObject (unescape : List UInt8 → List UInt8) (pairs : List Pair) : Message :=
  { messageId := (lastOf Pair.id? pairs).map fun value => cString (unescape (cString value))
    body := lastOf Pair.body? pairs
    bodySize := ((lastOf Pair.body? pairs).getD []).length
    attributes := some (attributesOf pairs) }

/-- What the user is called with for some objects. -/
def reportsOf (unescape : List UInt8 → List UInt8) (objects : List (List Pair)) : List Reported :=
  objects.map fun pairs => .message (ofObject unescape pairs)

/-- A value that is neither an array nor an object. -/
def isScalar : JsonEvent → Bool
  | .integer _ | .float | .null | .true | .false | .string _ => true
  | .arrayBegin | .arrayEnd | .objectBegin | .objectEnd | .key _ => false

/-- The value is of the kind that belongs to the key, and the key is one of the four. -/
def fits (key : List UInt8) : JsonEvent → Bool
  | .string _ => decide (cString key = keyId ∨ cString key = keyBody)
  | .integer _ => decide (cString key = keyTtl ∨ cString key = keyHide)
  | _ => false

/-- A string for the key `body`. -/
def isBody (key : List UInt8) : JsonEvent → Bool
  | .string _ => decide (cString key = keyBody)
  | _ => false

/-- What the run ends with at the value of a key: it does not fit, or it is a body. -/
def valueStop (key : List UInt8) (value : JsonEvent) : Option JsonStop :=
  if fits key value = false then some .rejected
  else if isBody key value = true then some (.fault .overrun)
  else none

theorem valueStop_of_misfit {key : List UInt8} {value : JsonEvent} (h : fits key value = false) :
    valueStop key value = some .rejected :=
  if_pos h

theorem valueStop_id {key : List UInt8} (h : cString key = keyId) (value : List UInt8) :
    valueStop key (.string value) = none := by
  simp only [valueStop, fits, isBody, h]
  decide

theorem valueStop_body {key : List UInt8} (h : cString key = keyBody) (value : List UInt8) :
    valueStop key (.string value) = some (.fault .overrun) := by
  simp only [valueStop, fits, isBody, h]
  decide

theorem valueStop_integer {key : List UInt8} (h : cString key = keyTtl ∨ cString key = keyHide)
    (value : Int) : valueStop key (.integer value) = none := by
  simp [valueStop, fits, isBody, h]

section Last

variable {α : Type} (value? : Pair → Option α) (pairs : List Pair) (pair : Pair)

theorem lastOf_append_some {a : α} (h : value? pair = some a) :
    lastOf value? (pairs ++ [pair]) = some a := by
  rw [lastOf, List.filterMap_append, List.filterMap_cons_some h]
  exact List.getLast?_concat

theorem lastOf_append_none (h : value? pair = none) :
    lastOf value? (pairs ++ [pair]) = lastOf value? pairs := by
  rw [lastOf, List.filterMap_append, List.filterMap_cons_none h, List.filterMap_nil,
    List.append_nil]
  rfl

end Last

theorem attributesOf_append_ttl (pairs : List Pair) (value : UInt32) :
    attributesOf (pairs ++ [.ttl value]) = burrowAttributesSetTtl (attributesOf pairs) value := by
  have hset : ∀ ttl hide : Bool,
      (burrowAttributesTtl ||| if hide then burrowAttributesHide else 0) =
        ((if ttl then burrowAttributesTtl else 0) ||| if hide then burrowAttributesHide else 0) |||
          burrowAttributesTtl := by decide
  unfold attributesOf burrowAttributesSetTtl
  rw [lastOf_append_some Pair.ttl? pairs (.ttl value) rfl,
    lastOf_append_none Pair.hide? pairs (.ttl value) rfl]
  rw [← hset]
  rfl

theorem attributesOf_append_hide (pairs : List Pair) (value : UInt32) :
    attributesOf (pairs ++ [.hide value]) = burrowAttributesSetHide (attributesOf pairs) value := by
  have hset : ∀ ttl hide : Bool,
      ((if ttl then burrowAttributesTtl else 0) ||| burrowAttributesHide) =
        ((if ttl then burrowAttributesTtl else 0) ||| if hide then burrowAttributesHide else 0) |||
          burrowAttributesHide := by decide
  unfold attributesOf burrowAttributesSetHide
  rw [lastOf_append_some Pair.hide? pairs (.hide value) rfl,
    lastOf_append_none Pair.ttl? pairs (.hide value) rfl]
  rw [← hset]
  rfl

theorem attributesOf_append_other (pairs : List Pair) (pair : Pair) (httl : pair.ttl? = none)
    (hhide : pair.hide? = none) : attributesOf (pairs ++ [pair]) = attributesOf pairs := by
  rw [attributesOf, lastOf_append_none Pair.ttl? pairs pair httl,
    lastOf_append_none Pair.hide? pairs pair hhide]
  rfl

section Append

variable (unescape : List UInt8 → List UInt8) (pairs : List Pair)

theorem ofObject_append_id (value : List UInt8) :
    ofObject unescape (pairs ++ [.id value]) =
      { ofObject unescape pairs with
        messageId := some (cString (unescape (cString value))) } := by
  rw [ofObject, lastOf_append_some Pair.id? pairs (.id value) rfl,
    lastOf_append_none Pair.body? pairs (.id value) rfl,
    attributesOf_append_other pairs (.id value) rfl rfl]
  rfl

theorem ofObject_append_ttl (value : UInt32) :
    ofObject unescape (pairs ++ [.ttl value]) =
      { ofObject unescape pairs with
        attributes := some (burrowAttributesSetTtl (attributesOf pairs) value) } := by
  rw [ofObject, lastOf_append_none Pair.id? pairs (.ttl value) rfl,
    lastOf_append_none Pair.body? pairs (.ttl value) rfl, attributesOf_append_ttl]
  rfl

theorem ofObject_append_hide (value : UInt32) :
    ofObject unescape (pairs ++ [.hide value]) =
      { ofObject unescape pairs with
        attributes := some (burrowAttributesSetHide (attributesOf pairs) value) } := by
  rw [ofObject, lastOf_append_none Pair.id? pairs (.hide value) rfl,
    lastOf_append_none Pair.body? pairs (.hide value) rfl, attributesOf_append_hide]
  rfl

end Append

/-! ## The structure between two calls -/

/-- What the end of an object reports. -/
def JsonProcessing.message (jproc : JsonProcessing) : Message :=
  { messageId := jproc.messageId
    body := jproc.body
    bodySize := jproc.bodySize
    attributes := jproc.attributes }

/-- Nothing is left of the last object; its key and the values of its attributes are,
but no event reads them. -/
structure Clean (jproc : JsonProcessing) : Prop where
  messageId : jproc.messageId = none
  body : jproc.body = none
  bodySize : jproc.bodySize = 0
  attributes : jproc.attributes.isSome = true
  isKey : jproc.isKey = false

/-- Within an object: the pairs so far have been taken in. -/
structure Gathers (unescape : List UInt8 → List UInt8) (pairs : List Pair)
    (jproc : JsonProcessing) : Prop where
  message : jproc.message = ofObject unescape pairs
  isKey : jproc.isKey = false

theorem create_clean : Clean (burrowEasyJsonStCreate true) := by
  constructor <;> rfl

section Steps

variable {unescape : List UInt8 → List UInt8} {command : Option CommandName}

/-- Between two states the parser delivers events, and the user is called. -/
def Decodes (unescape : List UInt8 → List UInt8) (command : Option CommandName)
    (events : List JsonEvent) (jproc : JsonProcessing) (reported : List Reported)
    (jproc' : JsonProcessing) : Prop :=
  Machine.Shows (jsonStep unescape command) (jsonReports unescape command) events jproc reported
    jproc'

/-- The parser is stopped at an event that is not accepted. -/
def Stops (unescape : List UInt8 → List UInt8) (command : Option CommandName)
    (events : List JsonEvent) (jproc : JsonProcessing) (reported : List Reported) : Prop :=
  Machine.run (jsonStep unescape command) events jproc = .error .rejected ∧
    Machine.trace (jsonStep unescape command) (jsonReports unescape command) events jproc =
      reported

/-- The run ends within these events. -/
def Ends (unescape : List UInt8 → List UInt8) (command : Option CommandName)
    (events : List JsonEvent) (jproc : JsonProcessing) (stop : JsonStop) : Prop :=
  Machine.run (jsonStep unescape command) events jproc = .error stop

theorem Ends.not_decodes {events : List JsonEvent} {jproc : JsonProcessing} {stop : JsonStop}
    (h : Ends unescape command events jproc stop) (reported : List Reported)
    (jproc' : JsonProcessing) : ¬ Decodes unescape command events jproc reported jproc' := by
  rintro ⟨hrun, -⟩
  exact absurd (hrun.symm.trans h) (by simp)

theorem Ends.append {events : List JsonEvent} {jproc : JsonProcessing} {stop : JsonStop}
    (h : Ends unescape command events jproc stop) (rest : List JsonEvent) :
    Ends unescape command (events ++ rest) jproc stop := by
  rw [Ends, Machine.run_append_of_error _ h]

theorem Ends.behind {events rest : List JsonEvent} {reported : List Reported}
    {jproc jproc' : JsonProcessing} {stop : JsonStop}
    (h : Decodes unescape command events jproc reported jproc')
    (hrest : Ends unescape command rest jproc' stop) :
    Ends unescape command (events ++ rest) jproc stop := by
  rw [Ends, Machine.run_append_of_ok _ h.run]
  exact hrest

theorem decodes_of_call (result : JsonResult) {event : JsonEvent} {jproc : JsonProcessing}
    (hcall : burrowBackendHttpJsonCallback unescape command true event jproc = .ok result)
    (haccepted : result.accepted = true) :
    Decodes unescape command [event] jproc result.reported.toList result.jproc := by
  have hstep : jsonStep unescape command event jproc = .ok result.jproc := by
    rw [jsonStep, hcall]
    exact if_pos haccepted
  have hshows := Machine.Shows.single _ (jsonReports unescape command) hstep
  rw [jsonReports, hcall] at hshows
  exact hshows

variable (hcommand : command.any returnsMessages = true)
include hcommand

theorem arrayBegin_decodes (jproc : JsonProcessing) :
    Decodes unescape command [.arrayBegin] jproc [] jproc :=
  decodes_of_call (.accept jproc) (if_pos hcommand) rfl

theorem arrayEnd_decodes (jproc : JsonProcessing) :
    Decodes unescape command [.arrayEnd] jproc [] jproc :=
  decodes_of_call (.accept jproc) (if_pos hcommand) rfl

theorem objectBegin_decodes {jproc : JsonProcessing} (h : Clean jproc) :
    ∃ jproc', Decodes unescape command [.objectBegin] jproc [] jproc' ∧
      Gathers unescape [] jproc' := by
  obtain ⟨hmessageId, hbody, hbodySize, -, hisKey⟩ := h
  refine ⟨_, decodes_of_call (.accept { jproc with
    attributes := burrowAttributesCreate jproc.attributes true }) (if_pos hcommand) rfl, ?_, hisKey⟩
  show (⟨jproc.messageId, jproc.body, jproc.bodySize, _⟩ : Message) = _
  rw [hmessageId, hbody, hbodySize, burrowAttributesCreate, Bool.or_true]
  rfl

/-- The message is reported, and nothing of it is kept. -/
theorem objectEnd_decodes {pairs : List Pair} {jproc : JsonProcessing}
    (h : Gathers unescape pairs jproc) :
    ∃ jproc', Decodes unescape command [.objectEnd] jproc [.message (ofObject unescape pairs)]
      jproc' ∧ Clean jproc' := by
  have hdecodes : Decodes unescape command [.objectEnd] jproc [.message jproc.message]
      (objectEnd true jproc).jproc :=
    decodes_of_call (objectEnd true jproc) (if_pos hcommand) rfl
  rw [h.message] at hdecodes
  refine ⟨_, hdecodes, rfl, rfl, rfl, ?_, h.isKey⟩
  have hattributes : jproc.attributes = some (attributesOf pairs) :=
    congrArg Message.attributes h.message
  simp only [objectEnd, hattributes, Option.isSome_some]

/-- The structure after a key. -/
def withKey (key : List UInt8) (jproc : JsonProcessing) : JsonProcessing :=
  { jproc with isKey := true, key := some key }

theorem key_decodes (key : List UInt8) (jproc : JsonProcessing) :
    Decodes unescape command [.key key] jproc [] (withKey key jproc) := by
  have hcopy : burrowBackendHttpJsonCallback unescape command true (.key key) jproc =
      (copied (key.length + 1) (key.length + 1) >>= fun _ => .ok _) := if_pos hcommand
  rw [copied_self] at hcopy
  exact decodes_of_call (.accept (withKey key jproc)) hcopy rfl

/-! ## The value of a key -/

omit hcommand in
theorem stringValue_id {key : List UInt8} (hkey : cString key = keyId) (value : List UInt8)
    (jproc : JsonProcessing) :
    stringValue unescape true value (withKey key jproc) = .ok (.accept { withKey key jproc with
      isKey := false
      messageId := some (cString (unescape (cString value))) }) := by
  have hcopy : stringValue unescape true value (withKey key jproc) =
      (copied ((cString (unescape (cString value))).length + 1) _ >>= fun _ => .ok _) :=
    if_pos hkey
  rw [hcopy, copied_self]
  rfl

omit hcommand in
/-- The zero byte behind a body has no room in its block. -/
theorem stringValue_body {key : List UInt8} (hkey : cString key = keyBody) (value : List UInt8)
    (jproc : JsonProcessing) :
    stringValue unescape true value (withKey key jproc) = .error .overrun := by
  have hid : ¬ cString key = keyId := by
    rw [hkey]
    decide
  have hcopy : stringValue unescape true value (withKey key jproc) =
      (copied value.length (value.length + 1) >>= fun _ => .ok _) :=
    (if_neg hid).trans (if_pos hkey)
  rw [hcopy, copied_succ]
  rfl

theorem value_decodes {key : List UInt8} {value : JsonEvent} {jproc jproc' : JsonProcessing}
    (h : burrowBackendHttpJsonCallback unescape command true value (withKey key jproc) =
      .ok (.accept jproc')) :
    Decodes unescape command [.key key, value] jproc [] jproc' :=
  (key_decodes hcommand key jproc).append (decodes_of_call (.accept jproc') h rfl)

/-- A value that the callback does not take ends the run. -/
theorem value_ends {key : List UInt8} {value : JsonEvent} {stop : JsonStop}
    {jproc : JsonProcessing} (hscalar : isScalar value = true)
    (hstop : valueStop key value = some stop) :
    jsonStep unescape command value (withKey key jproc) = .error stop := by
  have hrejected : ∀ {event : JsonEvent} {jproc' : JsonProcessing},
      burrowBackendHttpJsonCallback unescape command true event (withKey key jproc) =
        .ok (.reject jproc') →
      jsonStep unescape command event (withKey key jproc) = .error .rejected := by
    intro event jproc' hcall
    rw [jsonStep, hcall]
    rfl
  cases value with
  | arrayBegin | arrayEnd | objectBegin | objectEnd | key => cases hscalar
  | float | null | true | false =>
      cases hstop
      exact hrejected (if_pos hcommand)
  | string value =>
      by_cases hid : cString key = keyId
      · rw [valueStop_id hid] at hstop
        cases hstop
      · by_cases hbody : cString key = keyBody
        · rw [valueStop_body hbody] at hstop
          cases hstop
          have hcall : burrowBackendHttpJsonCallback unescape command true (.string value)
              (withKey key jproc) = .error .overrun :=
            (if_pos hcommand).trans (stringValue_body hbody value jproc)
          rw [jsonStep, hcall]
        · have hfits : fits key (.string value) = false :=
            decide_eq_false (not_or.2 ⟨hid, hbody⟩)
          rw [valueStop_of_misfit hfits] at hstop
          cases hstop
          exact hrejected ((if_pos hcommand).trans ((if_neg hid).trans (if_neg hbody)))
  | integer value =>
      by_cases hhide : cString key = keyHide
      · rw [valueStop_integer (Or.inr hhide)] at hstop
        cases hstop
      · by_cases httl : cString key = keyTtl
        · rw [valueStop_integer (Or.inl httl)] at hstop
          cases hstop
        · have hfits : fits key (.integer value) = false :=
            decide_eq_false (not_or.2 ⟨httl, hhide⟩)
          rw [valueStop_of_misfit hfits] at hstop
          cases hstop
          exact hrejected ((if_pos hcommand).trans ((if_neg hhide).trans (if_neg httl)))

end Steps

end Burrow.Http
