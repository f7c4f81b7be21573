import Burrow.Http.Json

/-!
# The JSON parser

`JSON_parser.c`, the parser that `json_processing.c` hands a response to: an automaton
over classes of characters, with a stack of modes for the nesting and a buffer for the
string or number that is being read. It is called with one character at a time, and calls
back with what it has parsed.

`callback` is the callback with its context, `malloc` says which blocks there is memory
for. The error code in the parser and the character it is kept for are left out, since
`json_processing.c` does not ask for them. Assertions are enabled, as they are by default;
one that fails ends the process.
-/

set_option autoImplicit false

namespace Burrow.Http

/-! ## Classes, states and actions -/

/-- `enum classes` -/
inductive JsonClass where
  | space
  | white
  /-- `{` -/
  | lcurb
  | rcurb
  /-- `[` -/
  | lsqrb
  | rsqrb
  | colon
  | comma
  | quote
  | backs
  | slash
  | plus
  | minus
  | point
  | zero
  /-- `1` to `9` -/
  | digit
  | lowA
  | lowB
  | lowC
  | lowD
  | lowE
  | lowF
  | lowL
  | lowN
  | lowR
  | lowS
  | lowT
  | lowU
  /-- `A`, `B`, `C`, `D` and `F` -/
  | abcdf
  /-- `E` -/
  | e
  /-- everything else -/
  | etc
  | star
deriving DecidableEq, Repr

open JsonClass in
/-- `ascii_class`; `none` is an error. -/
def asciiClass : List (Option JsonClass) :=
  List.flatten
    [[none, none, none, none, none, none, none, none],
      [none, white, white, none, none, white, none, none],
      [none, none, none, none, none, none, none, none],
      [none, none, none, none, none, none, none, none],
      [space, etc, quote, etc, etc, etc, etc, etc],
      [etc, etc, star, plus, comma, minus, point, slash],
      [zero, digit, digit, digit, digit, digit, digit, digit],
      [digit, digit, colon, etc, etc, etc, etc, etc],
      [etc, abcdf, abcdf, abcdf, abcdf, e, abcdf, etc],
      [etc, etc, etc, etc, etc, etc, etc, etc],
      [etc, etc, etc, etc, etc, etc, etc, etc],
      [etc, etc, etc, lsqrb, backs, rsqrb, etc, etc],
      [etc, lowA, lowB, lowC, lowD, lowE, lowF, etc],
      [etc, etc, etc, etc, lowL, etc, lowN, etc],
      [etc, etc, lowR, lowS, lowT, lowU, etc, etc],
      [etc, etc, etc, lcurb, etc, rcurb, etc, etc]]

/-- `enum states` -/
inductive JsonState where
  /-- start -/
  | go
  | ok
  /-- object -/
  | ob
  /-- key -/
  | ke
  /-- colon -/
  | co
  /-- value -/
  | va
  /-- array -/
  | ar
  /-- string -/
  | st
  /-- escape -/
  | es
  | u1 | u2 | u3 | u4
  /-- minus -/
  | mi
  /-- zero -/
  | ze
  /-- integer -/
  | it
  /-- fraction -/
  | fr
  /-- exponent -/
  | e1 | e2 | e3
  /-- `true` -/
  | t1 | t2 | t3
  /-- `false` -/
  | f1 | f2 | f3 | f4
  /-- `null` -/
  | n1 | n2 | n3
  /-- comment -/
  | c1 | c2 | c3
  /-- the character behind the point -/
  | fx
  /-- the second half of a surrogate pair -/
  | d1 | d2
deriving DecidableEq, Repr

/-- `enum actions`, and the actions without a name; `m9` is `-9`. -/
inductive JsonAction where
  /-- comment begin -/
  | cb
  /-- comment end -/
  | ce
  /-- `false` -/
  | fa
  /-- `true` -/
  | tr
  /-- `null` -/
  | nu
  /-- floating point number, by its exponent -/
  | de
  /-- floating point number, by its fraction -/
  | df
  /-- string begin -/
  | sb
  /-- integer, by its minus -/
  | mx
  /-- integer, by its zero -/
  | zx
  /-- integer -/
  | ix
  /-- the next character is escaped -/
  | ex
  /-- Unicode character -/
  | uc
  /-- `}` of an empty object -/
  | m9
  /-- `}` -/
  | m8
  /-- `]` -/
  | m7
  /-- `{` -/
  | m6
  /-- `[` -/
  | m5
  /-- string end -/
  | m4
  /-- `,` -/
  | m3
  /-- `:` -/
  | m2
deriving DecidableEq, Repr

/-- An entry of the state transition table. -/
inductive JsonTransition where
  | state (state : JsonState)
  | action (action : JsonAction)
  /-- `__` -/
  | xx
deriving DecidableEq, Repr

instance : Coe JsonState JsonTransition := ⟨.state⟩

instance : Coe JsonAction JsonTransition := ⟨.action⟩

open JsonState JsonAction JsonTransition in
/-- A row of `state_transition_table`. -/
def stateTransitionRow : JsonState → List JsonTransition
  | .go =>
      [go, go, m6, xx, m5, xx, xx, xx, xx, xx, cb, xx, xx, xx, xx, xx,
        xx, xx, xx, xx, xx, xx, xx, xx, xx, xx, xx, xx, xx, xx, xx, xx]
  | .ok =>
      [ok, ok, xx, m8, xx, m7, xx, m3, xx, xx, cb, xx, xx, xx, xx, xx,
        xx, xx, xx, xx, xx, xx, xx, xx, xx, xx, xx, xx, xx, xx, xx, xx]
  | .ob =>
      [ob, ob, xx, m9, xx, xx, xx, xx, sb, xx, cb, xx, xx, xx, xx, xx,
        xx, xx, xx, xx, xx, xx, xx, xx, xx, xx, xx, xx, xx, xx, xx, xx]
  | .ke =>
      [ke, ke, xx, xx, xx, xx, xx, xx, sb, xx, cb, xx, xx, xx, xx, xx,
        xx, xx, xx, xx, xx, xx, xx, xx, xx, xx, xx, xx, xx, xx, xx, xx]
  | .co =>
      [co, co, xx, xx, xx, xx, m2, xx, xx, xx, cb, xx, xx, xx, xx, xx,
        xx, xx, xx, xx, xx, xx, xx, xx, xx, xx, xx, xx, xx, xx, xx, xx]
  | .va =>
      [va, va, m6, xx, m5, xx, xx, xx, sb, xx, cb, xx, mx, xx, zx, ix,
        xx, xx, xx, xx, xx, fa, xx, nu, xx, xx, tr, xx, xx, xx, xx, xx]
  | .ar =>
      [ar, ar, m6, xx, m5, m7, xx, xx, sb, xx, cb, xx, mx, xx, zx, ix,
        xx, xx, xx, xx, xx, fa, xx, nu, xx, xx, tr, xx, xx, xx, xx, xx]
  | .st =>
      [st, xx, st, st, st, st, st, st, m4, ex, st, st, st, st, st, st,
        st, st, st, st, st, st, st, st, st, st, st, st, st, st, st, st]
  | .es =>
      [xx, xx, xx, xx, xx, xx, xx, xx, st, st, st, xx, xx, xx, xx, xx,
        xx, st, xx, xx, xx, st, xx, st, st, xx, st, u1, xx, xx, xx, xx]
  | .u1 =>
      [xx, xx, xx, xx, xx, xx, xx, xx, xx, xx, xx, xx, xx, xx, u2, u2,
        u2, u2, u2, u2, u2, u2, xx, xx, xx, xx, xx, xx, u2, u2, xx, xx]
  | .u2 =>
      [xx, xx, xx, xx, xx, xx, xx, xx, xx, xx, xx, xx, xx, xx, u3, u3,
        u3, u3, u3, u3, u3, u3, xx, xx, xx, xx, xx, xx, u3, u3, xx, xx]
  | .u3 =>
      [xx, xx, xx, xx, xx, xx, xx, xx, xx, xx, xx, xx, xx, xx, u4, u4,
        u4, u4, u4, u4, u4, u4, xx, xx, xx, xx, xx, xx, u4, u4, xx, xx]
  | .u4 =>
      [xx, xx, xx, xx, xx, xx, xx, xx, xx, xx, xx, xx, xx, xx, uc, uc,
        uc, uc, uc, uc, uc, uc, xx, xx, xx, xx, xx, xx, uc, uc, xx, xx]
  | .mi =>
      [xx, xx, xx, xx, xx, xx, xx, xx, xx, xx, xx, xx, xx, xx, ze, it,
        xx, xx, xx, xx, xx, xx, xx, xx, xx, xx, xx, xx, xx, xx, xx, xx]
  | .ze =>
      [ok, ok, xx, m8, xx, m7, xx, m3, xx, xx, cb, xx, xx, df, xx, xx,
        xx, xx, xx, xx, xx, xx, xx, xx, xx, xx, xx, xx, xx, xx, xx, xx]
  | .it =>
      [ok, ok, xx, m8, xx, m7, xx, m3, xx, xx, cb, xx, xx, df, it, it,
        xx, xx, xx, xx, de, xx, xx, xx, xx, xx, xx, xx, xx, de, xx, xx]
  | .fr =>
      [ok, ok, xx, m8, xx, m7, xx, m3, xx, xx, cb, xx, xx, xx, fr, fr,
        xx, xx, xx, xx, e1, xx, xx, xx, xx, xx, xx, xx, xx, e1, xx, xx]
  | .e1 =>
      [xx, xx, xx, xx, xx, xx, xx, xx, xx, xx, xx, e2, e2, xx, e3, e3,
        xx, xx, xx, xx, xx, xx, xx, xx, xx, xx, xx, xx, xx, xx, xx, xx]
  | .e2 =>
      [xx, xx, xx, xx, xx, xx, xx, xx, xx, xx, xx, xx, xx, xx, e3, e3,
        xx, xx, xx, xx, xx, xx, xx, xx, xx, xx, xx, xx, xx, xx, xx, xx]
  | .e3 =>
      [ok, ok, xx, m8, xx, m7, xx, m3, xx, xx, xx, xx, xx, xx, e3, e3,
        xx, xx, xx, xx, xx, xx, xx, xx, xx, xx, xx, xx, xx, xx, xx, xx]
  | .t1 =>
      [xx, xx, xx, xx, xx, xx, xx, xx, xx, xx, xx, xx, xx, xx, xx, xx,
        xx, xx, xx, xx, xx, xx, xx, xx, t2, xx, xx, xx, xx, xx, xx, xx]
  | .t2 =>
      [xx, xx, xx, xx, xx, xx, xx, xx, xx, xx, xx, xx, xx, xx, xx, xx,
        xx, xx, xx, xx, xx, xx, xx, xx, xx, xx, xx, t3, xx, xx, xx, xx]
  | .t3 =>
      [xx, xx, xx, xx, xx, xx, xx, xx, xx, xx, cb, xx, xx, xx, xx, xx,
        xx, xx, xx, xx, ok, xx, xx, xx, xx, xx, xx, xx, xx, xx, xx, xx]
  | .f1 =>
      [xx, xx, xx, xx, xx, xx, xx, xx, xx, xx, xx, xx, xx, xx, xx, xx,
        f2, xx, xx, xx, xx, xx, xx, xx, xx, xx, xx, xx, xx, xx, xx, xx]
  | .f2 =>
      [xx, xx, xx, xx, xx, xx, xx, xx, xx, xx, xx, xx, xx, xx, xx, xx,
        xx, xx, xx, xx, xx, xx, f3, xx, xx, xx, xx, xx, xx, xx, xx, xx]
  | .f3 =>
      [xx, xx, xx, xx, xx, xx, xx, xx, xx, xx, xx, xx, xx, xx, xx, xx,
        xx, xx, xx, xx, xx, xx, xx, xx, xx, f4, xx, xx, xx, xx, xx, xx]
  | .f4 =>
      [xx, xx, xx, xx, xx, xx, xx, xx, xx, xx, cb, xx, xx, xx, xx, xx,
        xx, xx, xx, xx, ok, xx, xx, xx, xx, xx, xx, xx, xx, xx, xx, xx]
  | .n1 =>
      [xx, xx, xx, xx, xx, xx, xx, xx, xx, xx, xx, xx, xx, xx, xx, xx,
        xx, xx, xx, xx, xx, xx, xx, xx, xx, xx, xx, n2, xx, xx, xx, xx]
  | .n2 =>
      [xx, xx, xx, xx, xx, xx, xx, xx, xx, xx, xx, xx, xx, xx, xx, xx,
        xx, xx, xx, xx, xx, xx, n3, xx, xx, xx, xx, xx, xx, xx, xx, xx]
  | .n3 =>
      [xx, xx, xx, xx, xx, xx, xx, xx, xx, xx, cb, xx, xx, xx, xx, xx,
        xx, xx, xx, xx, xx, xx, ok, xx, xx, xx, xx, xx, xx, xx, xx, xx]
  | .c1 =>
      [xx, xx, xx, xx, xx, xx, xx, xx, xx, xx, xx, xx, xx, xx, xx, xx,
        xx, xx, xx, xx, xx, xx, xx, xx, xx, xx, xx, xx, xx, xx, xx, c2]
  | .c2 =>
      [c2, c2, c2, c2, c2, c2, c2, c2, c2, c2, c2, c2, c2, c2, c2, c2,
        c2, c2, c2, c2, c2, c2, c2, c2, c2, c2, c2, c2, c2, c2, c2, c3]
  | .c3 =>
      [c2, c2, c2, c2, c2, c2, c2, c2, c2, c2, ce, c2, c2, c2, c2, c2,
        c2, c2, c2, c2, c2, c2, c2, c2, c2, c2, c2, c2, c2, c2, c2, c3]
  | .fx =>
      [ok, ok, xx, m8, xx, m7, xx, m3, xx, xx, xx, xx, xx, xx, fr, fr,
        xx, xx, xx, xx, e1, xx, xx, xx, xx, xx, xx, xx, xx, e1, xx, xx]
  | .d1 =>
      [xx, xx, xx, xx, xx, xx, xx, xx, xx, d2, xx, xx, xx, xx, xx, xx,
        xx, xx, xx, xx, xx, xx, xx, xx, xx, xx, xx, xx, xx, xx, xx, xx]
  | .d2 =>
      [xx, xx, xx, xx, xx, xx, xx, xx, xx, xx, xx, xx, xx, xx, xx, xx,
        xx, xx, xx, xx, xx, xx, xx, xx, xx, xx, xx, u1, xx, xx, xx, xx]

/-- `state_transition_table` -/
def stateTransitionTable (state : JsonState) (nextClass : JsonClass) : JsonTransition :=
  (stateTransitionRow state).getD nextClass.ctorIdx .xx

/-- Every class has an entry in every row. -/
theorem getElem?_stateTransitionRow (state : JsonState) (nextClass : JsonClass) :
    (stateTransitionRow state)[nextClass.ctorIdx]? =
      some (stateTransitionTable state nextClass) := by
  have hindex : nextClass.ctorIdx < 32 := by cases nextClass <;> decide
  have hrow : (stateTransitionRow state).length = 32 := by cases state <;> rfl
  rw [stateTransitionTable, List.getD_eq_getElem?_getD,
    List.getElem?_eq_getElem (Nat.lt_of_lt_of_eq hindex hrow.symm), Option.getD_some]

/-! ## The parser -/

/-- `enum modes` -/
inductive JsonMode where
  | array
  | done
  | key
  | object
deriving DecidableEq, Repr

/-- The types of values. -/
inductive JsonType where
  | none
  | integer
  | float
  | null
  | true
  | false
  | string
deriving DecidableEq, Repr

/-- `JSON_config`, with a limit of the nesting. -/
structure JsonConfig where
  depth : Nat
  allowComments : Bool
  handleFloatsManually : Bool
deriving DecidableEq, Repr

/-- `JSON_parser_struct`. The last of `stack[0]` to `stack[top]` is the head of the list. -/
structure JsonParser (σ : Type) where
  ctx : σ
  state : JsonState
  beforeCommentState : JsonState
  type : JsonType
  escaped : Bool
  comment : Bool
  allowComments : Bool
  handleFloatsManually : Bool
  decimalPoint : UInt8
  utf16HighSurrogate : UInt16
  depth : Nat
  stack : List JsonMode
  parseBuffer : List UInt8
  parseBufferCapacity : Nat
deriving DecidableEq, Repr

/-- Why the parser does not go on. -/
inductive ParserStop where
  /-- `JSON_parser_char` returns `0` -/
  | rejected
  | fault (fault : JsonFault)
  /-- an assertion fails -/
  | aborted
deriving DecidableEq, Repr

/-- What becomes of a callback that does not return `1`. -/
def JsonStop.parserStop : JsonStop → ParserStop
  | .rejected => .rejected
  | .fault reason => .fault reason

def jsonAssert (p : Prop) [Decidable p] : Except ParserStop Unit :=
  if p then .ok () else .error .aborted

section Parser

variable {σ : Type}

/-- `new_JSON_parser`; `decimalPoint` is that of the locale. -/
def newJsonParser (alloc : Bool) (decimalPoint : UInt8) (config : JsonConfig) (ctx : σ) :
    Option (JsonParser σ) :=
  if alloc then
    some
      { ctx := ctx
        state := .go
        beforeCommentState := .go
        type := .none
        escaped := false
        comment := false
        allowComments := config.allowComments
        handleFloatsManually := config.handleFloatsManually
        decimalPoint := decimalPoint
        utf16HighSurrogate := 0
        depth := if config.depth = 0 then 1 else config.depth
        stack := [.done]
        parseBuffer := []
        parseBufferCapacity := 3500 }
  else none

namespace JsonParser

/-! ### The stack -/

def push (mode : JsonMode) (jc : JsonParser σ) : Except ParserStop (JsonParser σ) :=
  if jc.stack.length = jc.depth + 1 then .error .rejected
  else .ok { jc with stack := mode :: jc.stack }

def pop (mode : JsonMode) (jc : JsonParser σ) : Except ParserStop (JsonParser σ) :=
  match jc.stack with
  | [] => .error .rejected
  | top :: rest => if top = mode then .ok { jc with stack := rest } else .error .rejected

/-! ### The parse buffer -/

def parseBufferClear (jc : JsonParser σ) : JsonParser σ := { jc with parseBuffer := [] }

def parseBufferPopBackChar (jc : JsonParser σ) : Except ParserStop (JsonParser σ) := do
  jsonAssert (1 ≤ jc.parseBuffer.length)
  return { jc with parseBuffer := jc.parseBuffer.dropLast }

/-- There is room for so many characters and the terminator. -/
def parseBufferHasSpaceFor (jc : JsonParser σ) (count : Nat) : Prop :=
  jc.parseBuffer.length + count + 1 ≤ jc.parseBufferCapacity

instance (jc : JsonParser σ) (count : Nat) : Decidable (jc.parseBufferHasSpaceFor count) :=
  inferInstanceAs (Decidable (_ ≤ _))

def parseBufferPushBackChar (c : UInt8) (jc : JsonParser σ) :
    Except ParserStop (JsonParser σ) := do
  jsonAssert (jc.parseBufferHasSpaceFor 1)
  return { jc with parseBuffer := jc.parseBuffer ++ [c] }

/-- `parse_buffer_reserve_for(jc, 1)`. The buffer is doubled once if at all, since there
is always room for the terminator. -/
def parseBufferReserveFor (malloc : Nat → Bool) (jc : JsonParser σ) :
    Except ParserStop (JsonParser σ) :=
  if jc.parseBufferHasSpaceFor 1 then .ok jc
  else if malloc (jc.parseBufferCapacity * 2) then
    .ok { jc with parseBufferCapacity := jc.parseBufferCapacity * 2 }
  else .error .rejected

/-! ### Values -/

/-- `sscanf` of an integer, which answers the nearest that there is. -/
def sscanfInteger (buffer : List UInt8) : Int :=
  let value (digits : List UInt8) : Nat :=
    (digits.takeWhile fun c => 48 ≤ c && c ≤ 57).foldl (fun n c => n * 10 + (c.toNat - 48)) 0
  let read : Int :=
    match buffer with
    | 45 :: digits => -(value digits : Int)
    | digits => value digits
  max (-9223372036854775808) (min read 9223372036854775807)

/-- A call of the callback. -/
def deliver (callback : JsonEvent → σ → Except JsonStop σ) (event : JsonEvent)
    (jc : JsonParser σ) : Except ParserStop (JsonParser σ) :=
  match callback event jc.ctx with
  | .error stop => .error stop.parserStop
  | .ok ctx => .ok { jc with ctx := ctx }

/-- `parse_parse_buffer` -/
def parseParseBuffer (callback : JsonEvent → σ → Except JsonStop σ) (jc : JsonParser σ) :
    Except ParserStop (JsonParser σ) := do
  let jc ←
    match jc.type with
    | .none => pure jc
    | .float => jc.deliver callback .float
    | .integer => jc.deliver callback (.integer (sscanfInteger jc.parseBuffer))
    | .string => jc.deliver callback (.string jc.parseBuffer)
    -- no case of the switch is for these, and its default is `assert(0==1)`
    | .null | .true | .false => .error .aborted
  return jc.parseBufferClear

/-! ### Characters behind a backslash -/

/-- `(unsigned)*p` of a hexadecimal digit, and its value. -/
def hexDigit (c : UInt8) : UInt32 :=
  let x := c.toInt8.toInt32.toUInt32
  if x ≥ 97 then x - 87 else if x ≥ 65 then x - 55 else x &&& ~~~0x30

def isHighSurrogate (uc : UInt32) : Bool := uc &&& 0xFC00 = 0xD800

def isLowSurrogate (uc : UInt32) : Bool := uc &&& 0xFC00 = 0xDC00

def decodeSurrogatePair (hi lo : UInt32) : UInt32 :=
  ((hi &&& 0x3FF) <<< 10) + (lo &&& 0x3FF) + 0x10000

/-- The bytes of a character, the first of them with its `utf8_lead_bits`. -/
def encodeUtf8 (leadBits : UInt32) (trailBytes : Nat) (uc : UInt32) : List UInt8 :=
  ((uc >>> UInt32.ofNat (trailBytes * 6)) ||| leadBits).toUInt8 ::
    (List.range trailBytes).reverse.map fun i =>
      (((uc >>> UInt32.ofNat (i * 6)) &&& 0x3F) ||| 0x80).toUInt8

/-- `decode_unicode_char` -/
def decodeUnicodeChar (jc : JsonParser σ) : Except ParserStop (JsonParser σ) := do
  jsonAssert (6 ≤ jc.parseBuffer.length)
  let digits := (jc.parseBuffer.drop (jc.parseBuffer.length - 4)).map hexDigit
  jsonAssert (digits.all (· < 16))
  let uc : UInt32 := digits.foldl (fun uc x => (uc <<< 4) ||| x) (0 : UInt32)
  let buffer := jc.parseBuffer.take (jc.parseBuffer.length - 6)
  if jc.utf16HighSurrogate ≠ 0 then
    if isLowSurrogate uc then
      let pair := decodeSurrogatePair jc.utf16HighSurrogate.toUInt32 uc
      return { jc with
        utf16HighSurrogate := 0
        parseBuffer := buffer ++ encodeUtf8 0xF0 3 pair }
    else .error .rejected
  else if uc < 0x80 then return { jc with parseBuffer := buffer ++ encodeUtf8 0x00 0 uc }
  else if uc < 0x800 then return { jc with parseBuffer := buffer ++ encodeUtf8 0xC0 1 uc }
  else if isHighSurrogate uc then
    -- the low surrogate is waited for
    return { jc with utf16HighSurrogate := uc.toUInt16, parseBuffer := buffer }
  else if isLowSurrogate uc then .error .rejected
  else return { jc with parseBuffer := buffer ++ encodeUtf8 0xE0 2 uc }

/-- What an escaped character stands for; the digits behind `u` are still to come. -/
def escapedChar : Int → Option (List UInt8)
  | 98 => some [8]
  | 102 => some [12]
  | 110 => some [10]
  | 114 => some [13]
  | 116 => some [9]
  | 34 => some [34]
  | 92 => some [92]
  | 47 => some [47]
  | 117 => some [92, 117]
  | _ => none

/-- `add_escaped_char_to_parse_buffer` -/
def addEscapedCharToParseBuffer (nextChar : Int) (jc : JsonParser σ) :
    Except ParserStop (JsonParser σ) := do
  jsonAssert (jc.parseBufferHasSpaceFor 1)
  let jc ← { jc with escaped := false }.parseBufferPopBackChar
  match escapedChar nextChar with
  | none => .error .rejected
  | some chars => chars.foldlM (fun jc c => jc.parseBufferPushBackChar c) jc

/-- `add_char_to_parse_buffer` -/
def addCharToParseBuffer (malloc : Nat → Bool) (nextChar : Int) (nextClass : JsonClass)
    (jc : JsonParser σ) : Except ParserStop (JsonParser σ) := do
  let jc ← jc.parseBufferReserveFor malloc
  if jc.escaped then jc.addEscapedCharToParseBuffer nextChar
  else if jc.comment then return jc
  else if jc.type ≠ .none ∨ ¬ (nextClass = .space ∨ nextClass = .white) then
    jc.parseBufferPushBackChar (UInt8.ofNat nextChar.toNat)
  else return jc

/-! ### Actions -/

/-- The actions of the state transition table. -/
def act (callback : JsonEvent → σ → Except JsonStop σ) (jc : JsonParser σ) :
    JsonAction → Except ParserStop (JsonParser σ)
  | .uc => do
      let jc ← jc.decodeUnicodeChar
      return { jc with state := if jc.utf16HighSurrogate ≠ 0 then .d1 else .st }
  | .ex => return { jc with escaped := true, state := .es }
  | .mx => return { jc with type := .integer, state := .mi }
  | .zx => return { jc with type := .integer, state := .ze }
  | .ix => return { jc with type := .integer, state := .it }
  | .de => do
      jsonAssert (jc.type ≠ .false ∧ jc.type ≠ .true ∧ jc.type ≠ .null ∧ jc.type ≠ .string)
      return { jc with type := .float, state := .e1 }
  | .df => do
      jsonAssert (jc.type ≠ .false ∧ jc.type ≠ .true ∧ jc.type ≠ .null ∧ jc.type ≠ .string)
      if jc.handleFloatsManually then return { jc with type := .float, state := .fx }
      else do
        jsonAssert (jc.parseBuffer.getLast? = some 46)
        return { jc with
          parseBuffer := jc.parseBuffer.dropLast ++ [jc.decimalPoint]
          type := .float
          state := .fx }
  | .sb => do
      let jc := jc.parseBufferClear
      jsonAssert (jc.type = .none)
      return { jc with type := .string, state := .st }
  | .nu => do
      jsonAssert (jc.type = .none)
      return { jc with type := .null, state := .n1 }
  | .fa => do
      jsonAssert (jc.type = .none)
      return { jc with type := .false, state := .f1 }
  | .tr => do
      jsonAssert (jc.type = .none)
      return { jc with type := .true, state := .t1 }
  | .ce => do
      jsonAssert (jc.parseBuffer.length = 0)
      jsonAssert (jc.type = .none)
      return { jc with comment := false, state := jc.beforeCommentState }
  | .cb =>
      if jc.allowComments then do
        let jc ← jc.parseBufferPopBackChar
        let jc ← jc.parseParseBuffer callback
        jsonAssert (jc.parseBuffer.length = 0)
        jsonAssert (jc.type ≠ .string)
        let beforeCommentState :=
          match jc.stack.head? with
          | some .array | some .object =>
              if jc.state = .va ∨ jc.state = .ar then jc.state else .ok
          | _ => jc.state
        return { jc with
          beforeCommentState := beforeCommentState
          type := .none
          state := .c1
          comment := true }
      else .error .rejected
  | .m9 => do
      let jc ← jc.parseBufferClear.deliver callback .objectEnd
      let jc ← jc.pop .key
      return { jc with state := .ok }
  | .m8 => do
      let jc ← jc.parseBufferPopBackChar
      let jc ← jc.parseParseBuffer callback
      let jc ← jc.deliver callback .objectEnd
      let jc ← jc.pop .object
      return { jc with type := .none, state := .ok }
  | .m7 => do
      let jc ← jc.parseBufferPopBackChar
      let jc ← jc.parseParseBuffer callback
      let jc ← jc.deliver callback .arrayEnd
      let jc ← jc.pop .array
      return { jc with type := .none, state := .ok }
  | .m6 => do
      let jc ← jc.parseBufferPopBackChar
      let jc ← jc.deliver callback .objectBegin
      let jc ← jc.push .key
      jsonAssert (jc.type = .none)
      return { jc with state := .ob }
  | .m5 => do
      let jc ← jc.parseBufferPopBackChar
      let jc ← jc.deliver callback .arrayBegin
      let jc ← jc.push .array
      jsonAssert (jc.type = .none)
      return { jc with state := .ar }
  | .m4 => do
      let jc ← jc.parseBufferPopBackChar
      match jc.stack.head? with
      | some .key =>
          jsonAssert (jc.type = .string)
          let jc ← { jc with type := .none, state := .co }.deliver callback (.key jc.parseBuffer)
          return jc.parseBufferClear
      | some .array | some .object =>
          jsonAssert (jc.type = .string)
          let jc ← jc.parseParseBuffer callback
          return { jc with type := .none, state := .ok }
      | _ => .error .rejected
  | .m3 => do
      let jc ← jc.parseBufferPopBackChar
      let jc ← jc.parseParseBuffer callback
      match jc.stack.head? with
      | some .object =>
          let jc ← jc.pop .object
          let jc ← jc.push .key
          jsonAssert (jc.type ≠ .string)
          return { jc with type := .none, state := .ke }
      | some .array =>
          jsonAssert (jc.type ≠ .string)
          return { jc with type := .none, state := .va }
      | _ => .error .rejected
  | .m2 => do
      let jc ← jc.parseBufferPopBackChar
      let jc ← jc.pop .key
      let jc ← jc.push .object
      jsonAssert (jc.type = .none)
      return { jc with state := .va }

end JsonParser

/-- The value of a byte. -/
def byteValue (byte : UInt8) : Int := byte.toNat

/-- The class of a character; `none` is an error. -/
def characterClass (nextChar : Int) : Option JsonClass :=
  if nextChar ≥ 128 then some .etc else asciiClass.getD nextChar.toNat none

/-- `JSON_parser_char`, as long as it returns `1`. -/
def jsonParserChar (malloc : Nat → Bool) (callback : JsonEvent → σ → Except JsonStop σ)
    (nextChar : Int) (jc : JsonParser σ) : Except ParserStop (JsonParser σ) :=
  if nextChar < 0 then .error .rejected
  else
    match characterClass nextChar with
    | none => .error .rejected
    | some nextClass => do
        let jc ← jc.addCharToParseBuffer malloc nextChar nextClass
        match stateTransitionTable jc.state nextClass with
        | .state state => return { jc with state := state }
        | .action action => jc.act callback action
        | .xx => .error .rejected

/-- `JSON_parser_done` -/
def jsonParserDone (jc : JsonParser σ) : Bool :=
  (jc.state = .ok ∨ jc.state = .go) ∧ jc.stack.head? = some .done

/-! ## Strings

Inside of a string every character stands for itself, but for the control characters, the
quote and the backslash; that includes every one of `128` or more.
-/

/-- The byte stands for itself. -/
def Ordinary (c : UInt8) : Prop := 32 ≤ c ∧ c ≠ 34 ∧ c ≠ 92

instance (c : UInt8) : Decidable (Ordinary c) := inferInstanceAs (Decidable (_ ∧ _))

/-- A negative character is not accepted. -/
theorem jsonParserChar_neg (malloc : Nat → Bool) (callback : JsonEvent → σ → Except JsonStop σ)
    {nextChar : Int} (h : nextChar < 0) (jc : JsonParser σ) :
    jsonParserChar malloc callback nextChar jc = .error .rejected := by
  rw [jsonParserChar, if_pos h]

theorem characterClass_ordinary {c : UInt8} (h : Ordinary c) :
    ∃ nextClass, characterClass (byteValue c) = some nextClass ∧
      stateTransitionTable .st nextClass = .state .st := by
  by_cases hascii : c.toNat < 128
  · have hclasses : ∀ n < 128, 32 ≤ n → n ≠ 34 → n ≠ 92 →
        (asciiClass.getD n none).map (stateTransitionTable .st) = some (.state .st) := by
      decide +kernel
    have hentry := hclasses c.toNat hascii (UInt8.le_iff_toNat_le.1 h.1)
      (fun hn => h.2.1 (UInt8.toNat_inj.1 hn)) (fun hn => h.2.2 (UInt8.toNat_inj.1 hn))
    obtain ⟨nextClass, hclass, hstate⟩ := Option.map_eq_some_iff.1 hentry
    refine ⟨nextClass, ?_, hstate⟩
    rw [byteValue, characterClass, if_neg (by omega), Int.toNat_natCast]
    exact hclass
  · refine ⟨.etc, ?_, rfl⟩
    rw [byteValue, characterClass, if_pos (by omega)]

section Strings

variable {malloc : Nat → Bool} {callback : JsonEvent → σ → Except JsonStop σ}
  {jc : JsonParser σ}

/-- The table says which state is next. -/
theorem jsonParserChar_state {nextChar : Int} (hsign : ¬ nextChar < 0) {nextClass : JsonClass}
    (hclass : characterClass nextChar = some nextClass) {jc' : JsonParser σ}
    (hadd : jc.addCharToParseBuffer malloc nextChar nextClass = .ok jc') {state : JsonState}
    (htable : stateTransitionTable jc'.state nextClass = .state state) :
    jsonParserChar malloc callback nextChar jc = .ok { jc' with state := state } := by
  rw [jsonParserChar, if_neg hsign, hclass]
  dsimp only
  rw [hadd]
  dsimp only [bind, Except.bind]
  rw [htable]
  rfl

/-- The table says what is to be done. -/
theorem jsonParserChar_action {nextChar : Int} (hsign : ¬ nextChar < 0) {nextClass : JsonClass}
    (hclass : characterClass nextChar = some nextClass) {jc' : JsonParser σ}
    (hadd : jc.addCharToParseBuffer malloc nextChar nextClass = .ok jc') {action : JsonAction}
    (htable : stateTransitionTable jc'.state nextClass = .action action) :
    jsonParserChar malloc callback nextChar jc = jc'.act callback action := by
  rw [jsonParserChar, if_neg hsign, hclass]
  dsimp only
  rw [hadd]
  dsimp only [bind, Except.bind]
  rw [htable]

theorem JsonParser.addChar_push {jc' : JsonParser σ}
    (hreserve : jc.parseBufferReserveFor malloc = .ok jc') (hescaped : ¬ jc'.escaped = true)
    (hcomment : ¬ jc'.comment = true) (htype : jc'.type ≠ .none)
    (hspace : jc'.parseBufferHasSpaceFor 1) (nextChar : Int) (nextClass : JsonClass) :
    jc.addCharToParseBuffer malloc nextChar nextClass =
      .ok { jc' with parseBuffer := jc'.parseBuffer ++ [UInt8.ofNat nextChar.toNat] } := by
  rw [addCharToParseBuffer, hreserve]
  dsimp only [bind, Except.bind]
  rw [if_neg hescaped, if_neg hcomment, if_pos (.inl htype), parseBufferPushBackChar, jsonAssert,
    if_pos hspace]
  rfl

end Strings

end Parser

end Burrow.Http
