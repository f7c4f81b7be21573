import Burrow.Http.JsonActions
import Burrow.Http.JsonText

/-!
# The JSON parser character by character

`JsonParser.At` is a place that the parser has come to, and `Feeds` what it delivers over a part
of a text to come to another place. There is a rule for each kind of character at each place:
one that only changes the state, white space, and those that the table has an action for.
-/

set_option autoImplicit false

namespace Burrow.Http

variable {σ : Type}

/-- The parser of `burrow_backend_http_parse_json` at a place outside of escapes and comments;
`half` is the first half of a surrogate pair. -/
structure JsonParser.At (jc : JsonParser σ) (state : JsonState) (type : JsonType)
    (stack : List JsonMode) (buffer : List UInt8) (half : UInt16) : Prop where
  state : jc.state = state
  type : jc.type = type
  stack : jc.stack = stack
  buffer : jc.parseBuffer = buffer
  half : jc.utf16HighSurrogate = half
  escaped : jc.escaped = false
  comment : jc.comment = false
  room : jc.parseBuffer.length < jc.parseBufferCapacity
  depth : jc.depth = 19
  allowComments : jc.allowComments = true
  handleFloatsManually : jc.handleFloatsManually = false

/-- Over the text the parser delivers the events, and comes to a place with `P`, unless the
callback stops it. -/
def Feeds (malloc : Nat → Bool) (callback : JsonEvent → σ → Except JsonStop σ)
    (text : List UInt8) (events : List JsonEvent) (P : JsonParser σ → Prop)
    (jc : JsonParser σ) : Prop :=
  Machine.Drives (jsonParserChar malloc callback) callback JsonParser.ctx JsonStop.parserStop
    (text.map byteValue) events P jc

/-- A part of what `JSON_parser_char` does delivers the events. -/
def Delivers (callback : JsonEvent → σ → Except JsonStop σ)
    (x : Except ParserStop (JsonParser σ)) (events : List JsonEvent) (P : JsonParser σ → Prop)
    (ctx : σ) : Prop :=
  Machine.Makes callback JsonParser.ctx JsonStop.parserStop x events P ctx

section Reading

variable {malloc : Nat → Bool} {callback : JsonEvent → σ → Except JsonStop σ}
  {jc : JsonParser σ} {state : JsonState} {type : JsonType} {stack : List JsonMode}
  {buffer : List UInt8} {half : UInt16} {events events' : List JsonEvent}
  {P Q : JsonParser σ → Prop} {text text' : List UInt8} {c : UInt8}

/-! ## Parts of a text -/

theorem Feeds.nil (h : P jc) : Feeds malloc callback [] [] P jc := Machine.Drives.nil h

theorem Feeds.mono (h : Feeds malloc callback text events P jc) (hP : ∀ jc', P jc' → Q jc') :
    Feeds malloc callback text events Q jc := Machine.Drives.mono h hP

theorem Feeds.append (h : Feeds malloc callback text events P jc)
    (h' : ∀ jc', P jc' → Feeds malloc callback text' events' Q jc') :
    Feeds malloc callback (text ++ text') (events ++ events') Q jc := by
  rw [Feeds, List.map_append]
  exact Machine.Drives.append h h'

/-- One character in front. -/
theorem Feeds.cons (h : Feeds malloc callback [c] events P jc)
    (h' : ∀ jc', P jc' → Feeds malloc callback text events' Q jc') :
    Feeds malloc callback (c :: text) (events ++ events') Q jc := h.append h'

/-- The part behind has nothing to deliver. -/
theorem Feeds.append_quiet (h : Feeds malloc callback text events P jc)
    (h' : ∀ jc', P jc' → Feeds malloc callback text' [] Q jc') :
    Feeds malloc callback (text ++ text') events Q jc := by
  have happend := h.append h'
  rwa [List.append_nil] at happend

/-! ## Parts of an action -/

theorem jsonAssert_bind {α : Type} {p : Prop} [Decidable p] (h : p)
    (f : Unit → Except ParserStop α) : (jsonAssert p >>= f) = f () := by
  rw [jsonAssert, if_pos h]
  rfl

theorem Delivers.bind {x : Except ParserStop (JsonParser σ)}
    {f : JsonParser σ → Except ParserStop (JsonParser σ)} {ctx : σ}
    (h : Delivers callback x events P ctx)
    (hf : ∀ jc', P jc' → Delivers callback (f jc') events' Q jc'.ctx) :
    Delivers callback (x >>= f) (events ++ events') Q ctx := Machine.Makes.bind h hf

theorem Delivers.bind_quiet {x : Except ParserStop (JsonParser σ)}
    {f : JsonParser σ → Except ParserStop (JsonParser σ)} {ctx : σ}
    (h : Delivers callback x events P ctx)
    (hf : ∀ jc', P jc' → Delivers callback (f jc') [] Q jc'.ctx) :
    Delivers callback (x >>= f) events Q ctx := by
  have hbind := h.bind hf
  rwa [List.append_nil] at hbind

theorem JsonParser.At.deliver (h : jc.At state type stack buffer half) (event : JsonEvent) :
    Delivers callback (jc.deliver callback event) [event] (·.At state type stack buffer half)
      jc.ctx := by
  rw [Delivers, Machine.Makes, JsonParser.deliver]
  cases hcall : callback event jc.ctx with
  | ok ctx =>
      rw [Machine.run_cons_of_ok callback hcall, Machine.run_nil]
      exact ⟨_, rfl, rfl, { h with }⟩
  | error stop =>
      rw [Machine.run_cons_of_error callback hcall]

theorem JsonParser.At.popBackChar (h : jc.At state type stack (buffer ++ [c]) half) :
    Delivers callback jc.parseBufferPopBackChar [] (·.At state type stack buffer half) jc.ctx := by
  have hlength : 1 ≤ jc.parseBuffer.length := by
    rw [h.buffer]
    exact length_push buffer c
  have hroom := h.room
  rw [h.buffer, List.length_append] at hroom
  rw [JsonParser.parseBufferPopBackChar, jsonAssert_bind hlength]
  refine Machine.Makes.ok rfl { h with buffer := ?_, room := ?_ }
  · dsimp only
    rw [h.buffer, List.dropLast_concat]
  · dsimp only
    rw [h.buffer, List.dropLast_concat]
    exact Nat.lt_of_succ_lt hroom

theorem JsonParser.At.parseParseBuffer (h : jc.At state type stack buffer half)
    (hliteral : ¬ IsLiteral type) :
    Delivers callback (jc.parseParseBuffer callback) (pendingEvents type buffer)
      (·.At state type stack [] half) jc.ctx := by
  have hclear : ∀ jc' : JsonParser σ, jc'.At state type stack buffer half →
      Delivers callback (.ok jc'.parseBufferClear) [] (·.At state type stack [] half) jc'.ctx :=
    fun jc' h' => Machine.Makes.ok rfl
      { h' with buffer := rfl, room := Nat.zero_lt_of_lt h'.room }
  rw [JsonParser.parseParseBuffer, h.type]
  cases type with
  | none => exact hclear jc h
  | integer =>
      rw [h.buffer]
      exact (h.deliver _).bind hclear
  | float => exact (h.deliver _).bind hclear
  | string =>
      rw [h.buffer]
      exact (h.deliver _).bind hclear
  | null | true | false => exact absurd (by decide) hliteral

theorem JsonParser.At.pop {mode : JsonMode}
    (h : jc.At state type (mode :: stack) buffer half) :
    Delivers callback (jc.pop mode) [] (·.At state type stack buffer half) jc.ctx := by
  rw [JsonParser.pop, h.stack]
  dsimp only
  rw [if_pos rfl]
  exact Machine.Makes.ok rfl { h with stack := rfl }

theorem JsonParser.At.push {mode : JsonMode} (h : jc.At state type stack buffer half)
    (hdepth : stack.length < 20) :
    Delivers callback (jc.push mode) [] (·.At state type (mode :: stack) buffer half) jc.ctx := by
  have hroom : ¬ jc.stack.length = jc.depth + 1 := by
    rw [h.stack, h.depth]
    omega
  rw [JsonParser.push, if_neg hroom]
  refine Machine.Makes.ok rfl { h with stack := ?_ }
  dsimp only
  rw [h.stack]

theorem JsonParser.At.set (h : jc.At state type stack buffer half) (type' : JsonType)
    (state' : JsonState) :
    { jc with type := type', state := state' }.At state' type' stack buffer half :=
  { h with state := rfl, type := rfl }

/-! ## Characters -/

/-- What the character makes of the buffer; white space between values is not kept. -/
def keptIn (type : JsonType) (nextClass : JsonClass) (buffer : List UInt8) (c : UInt8) :
    List UInt8 :=
  if type ≠ .none ∨ ¬ (nextClass = .space ∨ nextClass = .white) then buffer ++ [c] else buffer

theorem JsonParser.At.add (h : jc.At state type stack buffer half)
    (hmalloc : ∀ size, malloc size = true) (c : UInt8) (nextClass : JsonClass) :
    ∃ jc', jc.addCharToParseBuffer malloc (byteValue c) nextClass = .ok jc' ∧
      jc'.ctx = jc.ctx ∧
      jc'.At state type stack (keptIn type nextClass buffer c) half := by
  obtain rfl := h.type
  obtain rfl := h.buffer
  have hhas : jc.HasRoom malloc := .inr (hmalloc _)
  obtain ⟨capacity, hreserve, hspace⟩ := hhas.reserve h.room
  have hat : ∀ buffer' : List UInt8, buffer'.length ≤ jc.parseBuffer.length + 1 →
      { jc with parseBuffer := buffer', parseBufferCapacity := capacity }.At state jc.type stack
        buffer' half :=
    fun buffer' hlength =>
      { h with buffer := rfl, room := Nat.lt_of_le_of_lt hlength hspace }
  have hbyte : UInt8.ofNat (byteValue c).toNat = c := by
    rw [byteValue, Int.toNat_natCast, UInt8.ofNat_toNat]
  have hescaped : ¬ jc.escaped = true := Bool.not_eq_true _ ▸ h.escaped
  have hcomment : ¬ jc.comment = true := Bool.not_eq_true _ ▸ h.comment
  rw [JsonParser.addCharToParseBuffer, hreserve]
  dsimp only [bind, Except.bind]
  rw [if_neg hescaped, if_neg hcomment, keptIn]
  by_cases hkept : jc.type ≠ .none ∨ ¬ (nextClass = .space ∨ nextClass = .white)
  · rw [if_pos hkept, if_pos hkept, JsonParser.parseBufferPushBackChar, hbyte]
    refine ⟨_, jsonAssert_bind hspace _, rfl, ?_⟩
    exact hat (jc.parseBuffer ++ [c]) (Nat.le_of_eq List.length_append)
  · rw [if_neg hkept, if_neg hkept]
    refine ⟨_, rfl, rfl, ?_⟩
    exact hat jc.parseBuffer (Nat.le_succ _)

theorem byteValue_not_neg (c : UInt8) : ¬ byteValue c < 0 := Int.not_lt.2 (Int.natCast_nonneg _)

/-- A character that only changes the state. -/
theorem JsonParser.At.pass (h : jc.At state type stack buffer half)
    (hmalloc : ∀ size, malloc size = true) {nextClass : JsonClass} {next : JsonState}
    (hclass : characterClass (byteValue c) = some nextClass)
    (htable : stateTransitionTable state nextClass = .state next) :
    Feeds malloc callback [c] [] (·.At next type stack (keptIn type nextClass buffer c) half)
      jc := by
  obtain ⟨jc', hadd, hctx, h'⟩ := h.add hmalloc c nextClass
  rw [← h'.state] at htable
  have hchar : jsonParserChar malloc callback (byteValue c) jc = _ :=
    jsonParserChar_state (byteValue_not_neg c) hclass hadd htable
  apply Machine.Drives.single
  rw [hchar]
  exact Machine.Makes.ok hctx { h' with state := rfl }

/-- A character that the table has an action for. -/
theorem JsonParser.At.act (h : jc.At state type stack buffer half)
    (hmalloc : ∀ size, malloc size = true) {nextClass : JsonClass} {action : JsonAction}
    (hclass : characterClass (byteValue c) = some nextClass)
    (htable : stateTransitionTable state nextClass = .action action)
    (hact : ∀ jc' : JsonParser σ,
      jc'.At state type stack (keptIn type nextClass buffer c) half →
      Delivers callback (jc'.act callback action) events P jc'.ctx) :
    Feeds malloc callback [c] events P jc := by
  obtain ⟨jc', hadd, hctx, h'⟩ := h.add hmalloc c nextClass
  rw [← h'.state] at htable
  have hchar : jsonParserChar malloc callback (byteValue c) jc = _ :=
    jsonParserChar_action (byteValue_not_neg c) hclass hadd htable
  apply Machine.Drives.single
  rw [hchar]
  have hdelivers := hact jc' h'
  rw [hctx] at hdelivers
  exact hdelivers

end Reading

end Burrow.Http
