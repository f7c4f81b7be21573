import Burrow.Http.JsonParser
import Burrow.Http.Process
import Mathlib.Data.List.TakeWhile

/-!
# `burrow_backend_http_parse_json`

The loop that hands a response to the JSON parser, byte by byte. A byte is read through a
plain `char`, which is signed, so that one of `128` or more arrives as a negative number:
the parser takes it for an invalid character, and the reply is lost with `EINVAL`. The
bytes arrive as they are just if the text is ASCII as far as the parser reads it
(`bytes_reach_parser_iff`).
-/

set_option autoImplicit false

namespace Burrow.Http

/-! ## The callback and its context -/

/-- What the callback works on: the structure for the message, which is missing without
memory, the number of calls before, and what the user has been called with. -/
structure JsonContext where
  jproc : Option JsonProcessing
  calls : Nat
  reported : List Reported
deriving DecidableEq, Repr

/-- What there is memory for: the two structures, the attributes, the blocks that the
callback copies to, and a larger parse buffer. -/
structure ParseMemory where
  processing : Bool
  attributes : Bool
  parser : Bool
  callback : Nat → Bool
  parseBuffer : Nat → Bool

/-- `burrow_backend_http_json_callback`, as the parser calls it. -/
def parserCallback (unescape : List UInt8 → List UInt8) (command : Option CommandName)
    (alloc : Nat → Bool) (event : JsonEvent) (context : JsonContext) :
    Except JsonStop JsonContext :=
  match context.jproc with
  | none => .error (.fault .nullDereference)
  | some jproc =>
      match burrowBackendHttpJsonCallback unescape command (alloc context.calls) event jproc with
      | .error fault => .error (.fault fault)
      | .ok result =>
          if result.accepted then
            .ok
              { jproc := some result.jproc
                calls := context.calls + 1
                reported := context.reported ++ result.reported.toList }
          else .error .rejected

/-- `JSON_parser_char`, for a pointer to the parser. -/
def parserChar {σ : Type} (malloc : Nat → Bool) (callback : JsonEvent → σ → Except JsonStop σ)
    (nextChar : Int) (jc : Option (JsonParser σ)) : Except ParserStop (Option (JsonParser σ)) :=
  match jc with
  | none => .error (.fault .nullDereference)
  | some jc => (jsonParserChar malloc callback nextChar jc).map some

/-! ## The function -/

/-- What a reply is parsed with. -/
structure ParseEnvironment where
  memory : ParseMemory
  /-- the decimal point of the locale -/
  decimalPoint : UInt8
  unescape : List UInt8 → List UInt8
  command : Option CommandName

namespace ParseEnvironment

variable (env : ParseEnvironment)

/-- A call of `JSON_parser_char` in the loop. -/
def char (nextChar : Int) (jc : Option (JsonParser JsonContext)) :
    Except ParserStop (Option (JsonParser JsonContext)) :=
  parserChar env.memory.parseBuffer
    (parserCallback env.unescape env.command env.memory.callback) nextChar jc

/-- The parser before the loop. -/
def start : Option (JsonParser JsonContext) :=
  newJsonParser env.memory.parser env.decimalPoint
    { depth := 19, allowComments := true, handleFloatsManually := false }
    { jproc :=
        if env.memory.processing then some (burrowEasyJsonStCreate env.memory.attributes)
        else none
      calls := 0
      reported := [] }

end ParseEnvironment

/-- A call of `burrow_backend_http_parse_json`: what it calls `JSON_parser_char` with, in
order, and its code, `none` where the process has ended. -/
structure ParseCall where
  passed : List Int
  code : Option Int
deriving DecidableEq, Repr

/-- The code behind the loop. -/
def parseEnd (jc : Option (JsonParser JsonContext)) : Option Int :=
  match jc with
  -- `JSON_parser_done(NULL)`
  | none => none
  | some jc =>
      match jc.ctx.jproc with
      -- `burrow_easy_json_st_destroy(NULL)`
      | none => none
      | some _ => some (if jsonParserDone jc then 0 else EINVAL)

/-- The loop over some characters, and what follows it. -/
def parseChars (env : ParseEnvironment) (chars : List Int) : ParseCall :=
  { passed := Machine.attempted env.char chars env.start
    code :=
      match Machine.run env.char chars env.start with
      | .ok jc => parseEnd jc
      | .error .rejected => some EINVAL
      | .error (.fault _) | .error .aborted => none }

/-- `int nextchar = jsontext[i]` -/
def nextchar (byte : UInt8) : Int := byte.toInt8.toInt

/-- `burrow_backend_http_parse_json`. The index of the loop is compared with
`(int)jsonsize`. -/
def burrowBackendHttpParseJson (env : ParseEnvironment) (jsontext : List UInt8) : ParseCall :=
  parseChars env
    ((jsontext.take (Int32.ofNat jsontext.length).toInt.toNat).map nextchar)

/-! ## Bytes and characters -/

/-- The part of a text in front of its first byte of `128` or more. -/
def asciiPart (text : List UInt8) : List UInt8 := text.takeWhile (· < 128)

theorem nextchar_of_lt {byte : UInt8} (h : byte < 128) : nextchar byte = byteValue byte := by
  have hlt : byte.toNat < 128 := UInt8.lt_iff_toNat_lt.1 h
  rw [nextchar, byteValue, Int8.toInt, UInt8.toBitVec_toInt8, BitVec.toInt_eq_toNat_of_lt]
  · rfl
  · show 2 * byte.toNat < 2 ^ 8
    omega

theorem nextchar_neg {byte : UInt8} (h : ¬ byte < 128) : nextchar byte < 0 := by
  have hle : 128 ≤ byte.toNat := by
    have hnot := mt UInt8.lt_iff_toNat_lt.2 h
    exact Nat.not_lt.1 hnot
  have hlt : byte.toNat < 256 := byte.toNat_lt
  have hvalue : nextchar byte = (byte.toNat : Int) - 256 := by
    rw [nextchar, Int8.toInt, UInt8.toBitVec_toInt8, BitVec.toInt_eq_toNat_cond, if_neg]
    · rfl
    · show ¬ 2 * byte.toNat < 2 ^ 8
      omega
  omega

theorem byteValue_nonneg (byte : UInt8) : 0 ≤ byteValue byte := Int.natCast_nonneg _

theorem lt_of_mem_asciiPart {text : List UInt8} {byte : UInt8} (h : byte ∈ asciiPart text) :
    byte < 128 := by
  have hdecide := List.mem_takeWhile_imp h
  exact of_decide_eq_true hdecide

/-- A text has only bytes of less than `128`, or one that is not stands behind the part
that has. -/
theorem asciiPart_cases (text : List UInt8) :
    asciiPart text = text ∨
      ∃ byte rest, text = asciiPart text ++ byte :: rest ∧ ¬ byte < 128 := by
  have hparts := List.takeWhile_append_dropWhile (p := fun byte : UInt8 => byte < 128) (l := text)
  cases hrest : text.dropWhile (fun byte : UInt8 => byte < 128) with
  | nil =>
      rw [hrest, List.append_nil] at hparts
      exact .inl hparts
  | cons byte rest =>
      rw [hrest] at hparts
      have hfirst := List.head_dropWhile_not (fun byte : UInt8 => byte < 128)
        (l := text) (by rw [hrest]; exact List.cons_ne_nil byte rest)
      refine .inr ⟨byte, rest, hparts.symm, ?_⟩
      simpa [hrest] using hfirst

/-- In the part that is ASCII, a `char` has the value of the byte. -/
theorem map_nextchar_asciiPart (text : List UInt8) :
    (asciiPart text).map nextchar = (asciiPart text).map byteValue := by
  apply List.map_congr_left
  intro byte hmem
  exact nextchar_of_lt (lt_of_mem_asciiPart hmem)

/-- A text that fits is read as a whole. -/
theorem parse_of_length_lt (env : ParseEnvironment) {text : List UInt8}
    (h : text.length < 2 ^ 31) :
    burrowBackendHttpParseJson env text = parseChars env (text.map nextchar) := by
  have hsize : (Int32.ofNat text.length).toInt = text.length := by
    rw [Int32.toInt_ofNat_of_lt h]
  rw [burrowBackendHttpParseJson, hsize, Int.toNat_natCast, List.take_length]

/-! ## Bytes that arrive -/

/-- A negative character is not accepted. -/
theorem char_neg (env : ParseEnvironment) {nextChar : Int} (h : nextChar < 0)
    (jc : Option (JsonParser JsonContext)) : ∃ stop, env.char nextChar jc = .error stop := by
  cases jc with
  | none => exact ⟨_, rfl⟩
  | some jc =>
      refine ⟨.rejected, ?_⟩
      rw [ParseEnvironment.char, parserChar, jsonParserChar_neg _ _ h]
      rfl

/-- **What is asked of a call.** `JSON_parser_char` is called with the bytes of the text,
one after the other as they are, up to the end or to a call that is not accepted; and a
text that the parser takes when it is given its bytes is not rejected. -/
structure ReachesParser (env : ParseEnvironment) (jsontext : List UInt8) (call : ParseCall) :
    Prop where
  bytes : call.passed <+: jsontext.map byteValue
  stops : call.passed ≠ jsontext.map byteValue →
    ∃ stop, Machine.run env.char call.passed env.start = .error stop
  accepted : (parseChars env (jsontext.map byteValue)).code = some 0 → call.code = some 0

/-- It is what a loop over the bytes does. -/
theorem reachesParser_parseChars (env : ParseEnvironment) (jsontext : List UInt8) :
    ReachesParser env jsontext (parseChars env (jsontext.map byteValue)) := by
  refine ⟨Machine.attempted_prefix env.char _ env.start, ?_, id⟩
  intro hne
  cases hrun : Machine.run env.char (jsontext.map byteValue) env.start with
  | ok jc => exact absurd (Machine.attempted_of_ok env.char hrun) hne
  | error stop =>
      refine ⟨stop, ?_⟩
      rw [← hrun]
      exact Machine.run_attempted env.char (jsontext.map byteValue) env.start

/-- Characters behind the one that ends the run make no difference. -/
theorem parseChars_append (env : ParseEnvironment) {chars : List Int} {stop : ParserStop}
    (h : Machine.run env.char chars env.start = .error stop) (rest : List Int) :
    parseChars env (chars ++ rest) = parseChars env chars := by
  rw [parseChars, parseChars, Machine.attempted_append_of_error env.char h,
    Machine.run_append_of_error env.char h, h]

/-- The parser comes to a byte of `128` or more: it is called with a negative number. -/
theorem parse_nonAscii (env : ParseEnvironment) {text rest : List UInt8} {byte : UInt8}
    (hlength : text.length < 2 ^ 31) (htext : text = asciiPart text ++ byte :: rest)
    (hbyte : ¬ byte < 128) {jc : Option (JsonParser JsonContext)}
    (hrun : Machine.run env.char ((asciiPart text).map byteValue) env.start = .ok jc) :
    (burrowBackendHttpParseJson env text).passed =
        (asciiPart text).map byteValue ++ [nextchar byte] ∧
      (jc.isSome → (burrowBackendHttpParseJson env text).code = some EINVAL) := by
  have hchars : text.map nextchar =
      (asciiPart text).map byteValue ++ nextchar byte :: rest.map nextchar := by
    conv => lhs; rw [htext]
    rw [List.map_append, map_nextchar_asciiPart, List.map_cons]
  obtain ⟨stop, hstop⟩ := char_neg env (nextchar_neg hbyte) jc
  rw [parse_of_length_lt env hlength, hchars, parseChars]
  dsimp only
  rw [Machine.attempted_append_of_ok env.char hrun,
    Machine.attempted_cons_of_error env.char hstop, Machine.run_append_of_ok env.char hrun,
    Machine.run_cons_of_error env.char hstop]
  refine ⟨rfl, ?_⟩
  intro hsome
  obtain ⟨parser, rfl⟩ := Option.isSome_iff_exists.1 hsome
  rw [ParseEnvironment.char, parserChar, jsonParserChar_neg _ _ (nextchar_neg hbyte)] at hstop
  cases hstop
  rfl

/-- **The bytes of a reply reach the parser as they are** just if it is ASCII, or the
parser does not accept a byte in front of the first that is not. -/
theorem bytes_reach_parser_iff (env : ParseEnvironment) {text : List UInt8}
    (hlength : text.length < 2 ^ 31) :
    ReachesParser env text (burrowBackendHttpParseJson env text) ↔
      (∀ byte ∈ text, byte < 128) ∨
        ∃ stop, Machine.run env.char ((asciiPart text).map byteValue) env.start = .error stop := by
  constructor
  · intro hreaches
    rcases asciiPart_cases text with hall | ⟨byte, rest, htext, hbyte⟩
    · left
      intro byte hmem
      rw [← hall] at hmem
      exact lt_of_mem_asciiPart hmem
    · right
      cases hrun : Machine.run env.char ((asciiPart text).map byteValue) env.start with
      | error stop => exact ⟨stop, rfl⟩
      | ok jc =>
          -- the byte would be among those that are handed over, as a negative number
          have hpassed := (parse_nonAscii env hlength htext hbyte hrun).1
          have hmem : nextchar byte ∈ text.map byteValue := by
            apply hreaches.bytes.subset
            rw [hpassed]
            exact List.mem_append_right _ List.mem_cons_self
          obtain ⟨other, -, hother⟩ := List.mem_map.1 hmem
          have hneg := nextchar_neg hbyte
          have hnonneg := byteValue_nonneg other
          omega
  · intro hcases
    suffices hsame : burrowBackendHttpParseJson env text =
        parseChars env (text.map byteValue) by
      rw [hsame]
      exact reachesParser_parseChars env text
    rw [parse_of_length_lt env hlength]
    rcases hcases with hall | ⟨stop, hstop⟩
    · have hvalues : text.map nextchar = text.map byteValue := by
        apply List.map_congr_left
        intro byte hmem
        exact nextchar_of_lt (hall byte hmem)
      rw [hvalues]
    · have hparts : asciiPart text ++ text.dropWhile (fun byte : UInt8 => byte < 128) = text :=
        List.takeWhile_append_dropWhile
      rw [← hparts, List.map_append, List.map_append, map_nextchar_asciiPart,
        parseChars_append env hstop, parseChars_append env hstop]

/-! ## A reply that is lost -/

/-- A reply to a command, with memory for everything. -/
def ParseEnvironment.reply (command : CommandName) : ParseEnvironment :=
  { memory :=
      { processing := true
        attributes := true
        parser := true
        callback := fun _ => true
        parseBuffer := fun _ => true }
    decimalPoint := 46
    unescape := id
    command := some command }

/-- `[]` -/
theorem bytes_reach_parser_ascii :
    ReachesParser (.reply .getMessages) [91, 93]
      (burrowBackendHttpParseJson (.reply .getMessages) [91, 93]) :=
  (bytes_reach_parser_iff (.reply .getMessages) (by decide)).2 (.inl (by simp))

/-- `[{"id":"é"}]` -/
def accentedReply : List UInt8 := [91, 123, 34, 105, 100, 34, 58, 34, 195, 169, 34, 125, 93]

/-- A message is lost for the accent in its id. -/
theorem accent_rejected :
    burrowBackendHttpParseJson (.reply .getMessages) accentedReply =
        { passed := [91, 123, 34, 105, 100, 34, 58, 34, -61], code := some EINVAL } ∧
      (parseChars (.reply .getMessages) (accentedReply.map byteValue)).code = some 0 ∧
      ¬ ReachesParser (.reply .getMessages) accentedReply
        (burrowBackendHttpParseJson (.reply .getMessages) accentedReply) := by
  have hcall : burrowBackendHttpParseJson (.reply .getMessages) accentedReply =
      { passed := [91, 123, 34, 105, 100, 34, 58, 34, -61], code := some EINVAL } := by decide
  have hvalues : (parseChars (.reply .getMessages) (accentedReply.map byteValue)).code =
      some 0 := by decide
  refine ⟨hcall, hvalues, ?_⟩
  intro hreaches
  have hzero := hreaches.accepted hvalues
  rw [hcall] at hzero
  exact absurd hzero (by decide)

end Burrow.Http
