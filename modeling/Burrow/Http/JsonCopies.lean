import Burrow.Http.Json
import Burrow.Lib.CBlock

/-!
# The copies of the response decoder

`burrow_backend_http_json_callback` once more, with the blocks that it allocates: the
key, the message id and the body are arrays of the size that was asked for, and a copy
that goes outside of its array ends the run.

The copies of a key and of a message id fit. The copy of a body takes the terminator
along, which its block has no room for: what the blocks come to is what the callback keeps
(`copyStep_eq`), and a stream of events is decoded within the allocations just if it never
comes to the value of a body (`copies_fit_iff`).
-/

set_option autoImplicit false

namespace Burrow.Http

open CBlock

/-! ## The callback -/

/-- An event, and whether there is memory for what its call of the callback allocates. -/
structure Delivery where
  event : JsonEvent
  alloc : Bool
deriving DecidableEq, Repr

/-- `json_processing_st`, with its blocks. -/
structure JsonBlocks where
  body : Option (Block UInt8)
  bodySize : Nat
  messageId : Option (Block UInt8)
  isKey : Bool
  key : Option (Block UInt8)
  attributes : Option BurrowAttributes
deriving DecidableEq, Repr

/-- Why no more events are delivered. -/
inductive CopyStop where
  | rejected
  | nullDereference
  | misuse (misuse : Misuse)
deriving DecidableEq, Repr

/-- `burrow_easy_json_st_create` -/
def createBlocks (alloc : Bool) : JsonBlocks :=
  { body := none
    bodySize := 0
    messageId := none
    isKey := false
    key := none
    attributes := burrowAttributesCreate none alloc }

/-- `malloc(size)`, and a `memcpy` of `n` bytes to it. Without memory the callback
returns `0`. -/
def copyTo (alloc : Bool) (size : Nat) (src : Block UInt8) (n : Nat) :
    Except CopyStop (Block UInt8) :=
  match malloc alloc size with
  | none => .error .rejected
  | some block => (memcpy block 0 src 0 n).mapError .misuse

/-- The copy of `curl_easy_unescape`'s result to `jproc->message_id`. -/
def copyMessageId (alloc : Bool) (unescaped : Block UInt8) (jproc : JsonBlocks) :
    Except CopyStop JsonBlocks :=
  match strlen 0 unescaped with
  | .error misuse => .error (.misuse misuse)
  | .ok len =>
      (copyTo alloc (len + 1) unescaped (len + 1)).map fun block =>
        { jproc with messageId := some block }

/-- The copy of the parser's string to `jproc->body`. -/
def copyBody (alloc : Bool) (value : Block UInt8) (length : Nat) (jproc : JsonBlocks) :
    Except CopyStop JsonBlocks :=
  (copyTo alloc length value (length + 1)).map fun block =>
    { jproc with bodySize := length, body := some block }

/-- The copy of the parser's string to `jproc->key`. -/
def copyKey (alloc : Bool) (value : Block UInt8) (length : Nat) (jproc : JsonBlocks) :
    Except CopyStop JsonBlocks :=
  (copyTo alloc (length + 1) value (length + 1)).map fun block =>
    { jproc with isKey := true, key := some block }

/-- The string in `jproc->key`, which `strcmp` reads. -/
def readKey (jproc : JsonBlocks) : Except CopyStop (List UInt8) :=
  match jproc.key with
  | none => .error .nullDereference
  | some key => (cstring 0 key).mapError .misuse

def stringCopies (unescape : List UInt8 → List UInt8) (alloc : Bool) (value : List UInt8)
    (jproc : JsonBlocks) : Except CopyStop JsonBlocks :=
  if jproc.isKey then
    let jproc := { jproc with isKey := false }
    match readKey jproc with
    | .error stop => .error stop
    | .ok key =>
        if key = keyId then
          copyMessageId alloc (terminated 0 (unescape (cString value))) jproc
        else if key = keyBody then copyBody alloc (terminated 0 value) value.length jproc
        else .error .rejected
  else .error .rejected

/-- An attribute is set, where there are attributes. -/
def setAttribute (set : BurrowAttributes → BurrowAttributes) (jproc : JsonBlocks) :
    Except CopyStop JsonBlocks :=
  match jproc.attributes with
  | none => .error .nullDereference
  | some attributes => .ok { jproc with attributes := some (set attributes) }

def integerCopies (value : Int) (jproc : JsonBlocks) : Except CopyStop JsonBlocks :=
  if jproc.isKey then
    let jproc := { jproc with isKey := false }
    match readKey jproc with
    | .error stop => .error stop
    | .ok key =>
        if key = keyHide then
          setAttribute (burrowAttributesSetHide · (UInt32.ofInt value)) jproc
        else if key = keyTtl then
          setAttribute (burrowAttributesSetTtl · (UInt32.ofInt value)) jproc
        else .error .rejected
  else .ok jproc

/-- The end of an object: the blocks of the message are freed. -/
def endCopies (alloc : Bool) (jproc : JsonBlocks) : JsonBlocks :=
  { jproc with
    messageId := none
    body := none
    bodySize := 0
    attributes :=
      match jproc.attributes with
      | some attributes => some (burrowAttributesUnsetAll attributes)
      | none => burrowAttributesCreate none alloc }

/-- `burrow_backend_http_json_callback`, as long as it returns `1`. -/
def copyStep (unescape : List UInt8 → List UInt8) (command : Option CommandName)
    (delivery : Delivery) (jproc : JsonBlocks) : Except CopyStop JsonBlocks :=
  if command.any returnsMessages then
    match delivery.event with
    | .arrayBegin | .arrayEnd => .ok jproc
    | .objectBegin =>
        .ok { jproc with attributes := burrowAttributesCreate jproc.attributes delivery.alloc }
    | .objectEnd => .ok (endCopies delivery.alloc jproc)
    | .key value => copyKey delivery.alloc (terminated 0 value) value.length jproc
    | .string value => stringCopies unescape delivery.alloc value jproc
    | .integer value => integerCopies value jproc
    | .float | .null | .true | .false => .error .rejected
  else if command = some .getQueues ∨ command = some .getAccounts then
    match delivery.event with
    | .arrayBegin | .arrayEnd | .string _ => .ok jproc
    | _ => .error .rejected
  else .ok jproc

/-! ## What the blocks hold -/

/-- The event is delivered to `burrow_backend_http_json_callback`. -/
def deliver (unescape : List UInt8 → List UInt8) (command : Option CommandName)
    (delivery : Delivery) (jproc : JsonProcessing) : Except JsonStop JsonProcessing :=
  match burrowBackendHttpJsonCallback unescape command delivery.alloc delivery.event jproc with
  | .error fault => .error (.fault fault)
  | .ok result => if result.accepted then .ok result.jproc else .error .rejected

/-- The blocks in which the structure has its strings. -/
def blocksOf (jproc : JsonProcessing) : JsonBlocks :=
  { body := jproc.body.map holding
    bodySize := jproc.bodySize
    messageId := jproc.messageId.map (terminated 0)
    isKey := jproc.isKey
    key := jproc.key.map (terminated 0)
    attributes := jproc.attributes }

/-- The stops of the callback, on blocks. -/
def CopyStop.ofJson : JsonStop → CopyStop
  | .rejected => .rejected
  | .fault .nullDereference => .nullDereference
  | .fault .overrun => .misuse .writesOutside

/-- The value of a body is delivered, and there is memory for it. -/
def BodyDue (command : Option CommandName) (delivery : Delivery) (jproc : JsonProcessing) : Prop :=
  command.any returnsMessages = true ∧ delivery.alloc = true ∧
    (∃ value, delivery.event = .string value) ∧
    jproc.isKey = true ∧ jproc.key.map cString = some keyBody

theorem copyTo_fits {size n : Nat} {src : Block UInt8} (hn : n = size) (hsrc : n ≤ src.length)
    (alloc : Bool) :
    copyTo alloc size src n = if alloc then .ok (src.take n) else .error .rejected := by
  cases alloc with
  | true =>
      rw [copyTo, malloc, if_pos rfl, ← hn]
      dsimp only
      rw [memcpy_fresh hsrc]
      rfl
  | false => rfl

/-- A copy of the terminator into a block that is made for the string alone. -/
theorem copyTo_overruns (value : List UInt8) :
    copyTo true value.length (terminated 0 value) (value.length + 1) =
      .error (.misuse .writesOutside) := by
  have hsrc : ¬ (terminated 0 value).length < 0 + (value.length + 1) := by simp
  have hdest : (fresh value.length : Block UInt8).length < 0 + (value.length + 1) := by simp
  rw [copyTo, malloc, if_pos rfl]
  dsimp only
  rw [memcpy, if_neg hsrc, if_pos hdest]
  rfl

/-- `strcmp` reads the key as far as the callback does. -/
theorem readKey_blocksOf {jproc : JsonProcessing} {key : List UInt8} (h : jproc.key = some key) :
    readKey (blocksOf jproc) = .ok (cString key) := by
  rw [readKey, blocksOf, h]
  change (cstring 0 (terminated 0 key)).mapError CopyStop.misuse = _
  rw [cstring_terminated]
  rfl

/-! ## One event -/

section Step

variable (unescape : List UInt8 → List UInt8) (command : Option CommandName)

/-- What the callback returns on the values, on the blocks that hold them. -/
def onBlocks (result : Except JsonStop JsonProcessing) : Except CopyStop JsonBlocks :=
  (result.map blocksOf).mapError CopyStop.ofJson

/-- The result of the callback as a step. -/
def settle : Except JsonFault JsonResult → Except JsonStop JsonProcessing
  | .error fault => .error (.fault fault)
  | .ok result => if result.accepted then .ok result.jproc else .error .rejected

theorem deliver_eq (delivery : Delivery) (jproc : JsonProcessing) :
    deliver unescape command delivery jproc = settle
      (burrowBackendHttpJsonCallback unescape command delivery.alloc delivery.event jproc) := by
  rw [deliver, settle.eq_def]

theorem copyKey_blocksOf (alloc : Bool) (value : List UInt8) (jproc : JsonProcessing) :
    copyKey alloc (terminated 0 value) value.length (blocksOf jproc) =
      if alloc then .ok (blocksOf { jproc with isKey := true, key := some value })
      else .error .rejected := by
  rw [copyKey, copyTo_fits rfl (by simp)]
  cases alloc with
  | true =>
      rw [if_pos rfl, if_pos rfl, List.take_of_length_le (by simp)]
      rfl
  | false => rfl

theorem copyMessageId_blocksOf (alloc : Bool) (unescaped : List UInt8) (jproc : JsonProcessing) :
    copyMessageId alloc (terminated 0 unescaped) (blocksOf jproc) =
      if alloc then .ok (blocksOf { jproc with messageId := some (cString unescaped) })
      else .error .rejected := by
  have hle : (cString unescaped).length ≤ unescaped.length :=
    (List.takeWhile_prefix _).length_le
  rw [copyMessageId, strlen, cstring_terminated]
  change (copyTo alloc ((cString unescaped).length + 1) (terminated 0 unescaped)
    ((cString unescaped).length + 1)).map _ = _
  rw [copyTo_fits rfl (by rw [length_terminated]; omega)]
  cases alloc with
  | true =>
      rw [if_pos rfl, if_pos rfl, cString, take_terminated]
      rfl
  | false => rfl

theorem copyBody_blocksOf (alloc : Bool) (value : List UInt8) (jproc : JsonProcessing) :
    copyBody alloc (terminated 0 value) value.length (blocksOf jproc) =
      if alloc then .error (.misuse .writesOutside) else .error .rejected := by
  cases alloc with
  | true =>
      rw [copyBody, copyTo_overruns]
      rfl
  | false => rfl

theorem setAttribute_blocksOf (set : BurrowAttributes → BurrowAttributes)
    (jproc : JsonProcessing) :
    setAttribute set (blocksOf jproc) = onBlocks (settle
      (match jproc.attributes with
        | none => .error .nullDereference
        | some attributes =>
            .ok (.accept { jproc with attributes := some (set attributes) }))) := by
  obtain ⟨body, bodySize, messageId, isKey, key, attributes⟩ := jproc
  cases attributes with
  | none => rfl
  | some attributes => rfl

/-- An integer, behind a key. -/
theorem integerCopies_of_key {value : Int} {key : List UInt8} {jproc : JsonProcessing}
    (hisKey : jproc.isKey = true) (hkey : jproc.key = some key) :
    integerCopies value (blocksOf jproc) =
      if cString key = keyHide then
        setAttribute (burrowAttributesSetHide · (UInt32.ofInt value))
          (blocksOf { jproc with isKey := false })
      else if cString key = keyTtl then
        setAttribute (burrowAttributesSetTtl · (UInt32.ofInt value))
          (blocksOf { jproc with isKey := false })
      else .error .rejected := by
  have hread : readKey (blocksOf { jproc with isKey := false }) = .ok (cString key) :=
    readKey_blocksOf hkey
  have hisKey' : (blocksOf jproc).isKey = true := hisKey
  rw [integerCopies, if_pos hisKey']
  -- the key is read before the attributes are looked at
  change (match readKey (blocksOf { jproc with isKey := false }) with
    | .error stop => _
    | .ok key => _) = _
  rw [hread]
  rfl

theorem integerCopies_blocksOf (value : Int) (jproc : JsonProcessing) :
    integerCopies value (blocksOf jproc) = onBlocks (settle (integerValue value jproc)) := by
  by_cases hisKey : jproc.isKey = true
  · cases hkey : jproc.key with
    | none =>
        obtain ⟨body, bodySize, messageId, isKey, key, attributes⟩ := jproc
        cases hisKey
        cases hkey
        rfl
    | some key =>
        rw [integerCopies_of_key hisKey hkey, integerValue, if_pos hisKey]
        dsimp only
        rw [hkey]
        dsimp only
        by_cases hhide : cString key = keyHide
        · rw [if_pos hhide, if_pos hhide]
          exact setAttribute_blocksOf _ { jproc with isKey := false, key := some key }
        · rw [if_neg hhide, if_neg hhide]
          by_cases httl : cString key = keyTtl
          · rw [if_pos httl, if_pos httl]
            exact setAttribute_blocksOf _ { jproc with isKey := false, key := some key }
          · rw [if_neg httl, if_neg httl]
            rfl
  · have hisKey' : ¬ (blocksOf jproc).isKey = true := hisKey
    rw [integerCopies, if_neg hisKey', integerValue, if_neg hisKey]
    rfl

/-- The value of a string, behind a key. -/
theorem stringCopies_of_key {alloc : Bool} {value key : List UInt8} {jproc : JsonProcessing}
    (hisKey : jproc.isKey = true) (hkey : jproc.key = some key) :
    stringCopies unescape alloc value (blocksOf jproc) =
      if cString key = keyId then
        copyMessageId alloc (terminated 0 (unescape (cString value)))
          (blocksOf { jproc with isKey := false })
      else if cString key = keyBody then
        copyBody alloc (terminated 0 value) value.length (blocksOf { jproc with isKey := false })
      else .error .rejected := by
  have hread : readKey (blocksOf { jproc with isKey := false }) = .ok (cString key) :=
    readKey_blocksOf hkey
  have hisKey' : (blocksOf jproc).isKey = true := hisKey
  rw [stringCopies, if_pos hisKey']
  change (match readKey (blocksOf { jproc with isKey := false }) with
    | .error stop => _
    | .ok key => _) = _
  rw [hread]
  rfl

/-- The value of a string is copied as the callback says. -/
theorem stringCopies_blocksOf (alloc : Bool) (value : List UInt8) (jproc : JsonProcessing) :
    stringCopies unescape alloc value (blocksOf jproc) =
      onBlocks (settle (stringValue unescape alloc value jproc)) := by
  by_cases hisKey : jproc.isKey = true
  · cases hkey : jproc.key with
    | none =>
        obtain ⟨body, bodySize, messageId, isKey, key, attributes⟩ := jproc
        cases hisKey
        cases hkey
        rfl
    | some key =>
        rw [stringCopies_of_key unescape hisKey hkey, stringValue, if_pos hisKey]
        dsimp only
        rw [hkey]
        dsimp only
        by_cases hid : cString key = keyId
        · rw [if_pos hid, if_pos hid, copyMessageId_blocksOf]
          cases alloc with
          | true =>
              rw [if_pos rfl, if_pos rfl, copied_self]
              rfl
          | false => rfl
        · rw [if_neg hid, if_neg hid]
          by_cases hbody : cString key = keyBody
          · rw [if_pos hbody, if_pos hbody, copyBody_blocksOf]
            cases alloc with
            | true =>
                rw [if_pos rfl, if_pos rfl, copied_succ]
                rfl
            | false => rfl
          · rw [if_neg hbody, if_neg hbody]
            rfl
  · have hisKey' : ¬ (blocksOf jproc).isKey = true := hisKey
    rw [stringCopies, if_neg hisKey', stringValue, if_neg hisKey]
    rfl

/-- **One event.** The blocks hold what the callback keeps, and are misused where it overruns
its allocation. -/
theorem copyStep_eq (delivery : Delivery) (jproc : JsonProcessing) :
    copyStep unescape command delivery (blocksOf jproc) =
      onBlocks (deliver unescape command delivery jproc) := by
  obtain ⟨event, alloc⟩ := delivery
  rw [deliver_eq, copyStep, burrowBackendHttpJsonCallback.eq_def]
  dsimp only
  by_cases hmessages : command.any returnsMessages = true
  · rw [if_pos hmessages, if_pos hmessages]
    cases event with
    | arrayBegin => rfl
    | arrayEnd => rfl
    | objectBegin => rfl
    | objectEnd => rfl
    | integer value => exact integerCopies_blocksOf value jproc
    | float => rfl
    | null => rfl
    | true => rfl
    | false => rfl
    | string value => exact stringCopies_blocksOf unescape alloc value jproc
    | key value =>
        refine (copyKey_blocksOf alloc value jproc).trans ?_
        cases alloc with
        | true =>
            dsimp only
            rw [if_pos rfl, if_pos rfl, copied_self]
            rfl
        | false => rfl
  · rw [if_neg hmessages, if_neg hmessages]
    by_cases hnames : command = some .getQueues ∨ command = some .getAccounts
    · rw [if_pos hnames, if_pos hnames]
      cases event <;> rfl
    · rw [if_neg hnames, if_neg hnames]
      rfl

theorem settle_overrun_iff (result : Except JsonFault JsonResult) :
    settle result = .error (.fault .overrun) ↔ result = .error .overrun := by
  cases result with
  | error fault => simp [settle]
  | ok result =>
      rw [settle]
      split <;> simp

theorem stringValue_overruns_iff (alloc : Bool) (value : List UInt8) (jproc : JsonProcessing) :
    stringValue unescape alloc value jproc = .error .overrun ↔
      alloc = true ∧ jproc.isKey = true ∧ jproc.key.map cString = some keyBody := by
  by_cases hisKey : jproc.isKey = true
  · rw [stringValue, if_pos hisKey]
    cases hkey : jproc.key with
    | none => simp
    | some key =>
        dsimp only
        by_cases hid : cString key = keyId
        · have hbody : ¬ cString key = keyBody := by
            rw [hid]
            decide
          rw [if_pos hid, copied_self]
          cases alloc <;> simp [hbody]
        · rw [if_neg hid]
          by_cases hbody : cString key = keyBody
          · rw [if_pos hbody, copied_succ]
            cases alloc <;> simp [hbody, hisKey]
          · rw [if_neg hbody]
            simp [hbody]
  · rw [stringValue, if_neg hisKey]
    simp [hisKey]

theorem integerValue_ne_overrun (value : Int) (jproc : JsonProcessing) :
    integerValue value jproc ≠ .error .overrun := by
  rw [integerValue]
  dsimp only
  repeat' split
  all_goals simp

/-- The callback overruns a block just at the value of a body. -/
theorem deliver_overruns_iff (delivery : Delivery) (jproc : JsonProcessing) :
    deliver unescape command delivery jproc = .error (.fault .overrun) ↔
      BodyDue command delivery jproc := by
  obtain ⟨event, alloc⟩ := delivery
  rw [deliver_eq, settle_overrun_iff, burrowBackendHttpJsonCallback.eq_def, BodyDue]
  dsimp only
  by_cases hmessages : command.any returnsMessages = true
  · rw [if_pos hmessages]
    cases event with
    | arrayBegin | arrayEnd | objectBegin | objectEnd => simp
    | float | null | true | false => simp
    | integer value =>
        refine iff_of_false (integerValue_ne_overrun value jproc) ?_
        rintro ⟨-, -, ⟨_, hstring⟩, -⟩
        cases hstring
    | string value =>
        rw [stringValue_overruns_iff]
        simp [hmessages]
    | key value =>
        dsimp only
        rw [copied_self]
        cases alloc <;> simp
  · rw [if_neg hmessages]
    refine iff_of_false ?_ fun h => hmessages h.1
    repeat' split
    all_goals simp

/-! ## Streams of events -/

/-- What a run on the blocks comes to, from what the callback keeps. -/
theorem run_copies (alloc : Bool) (deliveries : List Delivery) :
    Machine.run (copyStep unescape command) deliveries (createBlocks alloc) =
      onBlocks (Machine.run (deliver unescape command) deliveries
        (burrowEasyJsonStCreate alloc)) :=
  Machine.run_image _ (copyStep_eq unescape command) deliveries (burrowEasyJsonStCreate alloc)

theorem onBlocks_overrun_iff (result : Except JsonStop JsonProcessing) :
    onBlocks result = .error (.misuse .writesOutside) ↔ result = .error (.fault .overrun) := by
  cases result with
  | ok jproc => simp [onBlocks, Except.map, Except.mapError]
  | error stop =>
      cases stop with
      | rejected => simp [onBlocks, Except.map, Except.mapError, CopyStop.ofJson]
      | fault fault =>
          cases fault <;> simp [onBlocks, Except.map, Except.mapError, CopyStop.ofJson]

/-- **The copies fit.** In a stream of events, no copy writes outside of the block that it
was allocated, just if no value of a body is delivered before the stream is stopped. -/
theorem copies_fit_iff (alloc : Bool) (deliveries : List Delivery) :
    Machine.run (copyStep unescape command) deliveries (createBlocks alloc) ≠
        .error (.misuse .writesOutside) ↔
      Machine.Along (deliver unescape command)
        (fun delivery jproc => ¬ BodyDue command delivery jproc) deliveries
        (burrowEasyJsonStCreate alloc) := by
  rw [run_copies, ne_eq, onBlocks_overrun_iff]
  apply Machine.run_ne_error_iff
  intro delivery jproc
  rw [deliver_overruns_iff, not_not]

/-- The reply to a request for messages, `[{"body":"hi"}]`. -/
theorem copies_overrun :
    Machine.run (copyStep id (some .getMessages))
        [⟨.arrayBegin, true⟩, ⟨.objectBegin, true⟩, ⟨.key keyBody, true⟩,
          ⟨.string [104, 105], true⟩, ⟨.objectEnd, true⟩, ⟨.arrayEnd, true⟩]
        (createBlocks true) = .error (.misuse .writesOutside) := by
  decide

end Step

end Burrow.Http
