import Burrow.Http.JsonParser
import Burrow.Lib.Nesting
import Burrow.Lib.Outcome

/-!
# The invariant of the JSON parser

Over any text, whatever the callback makes of it, the parser stays in step with a stream of
nested values (`JsonParser.Reads`): its stack is that of the levels around the place, and the
state says what can stand there. The buffer has room for a character, and in an escape the
digits that `decode_unicode_char` asserts.

What the functions of the parser end with is said by `Outcome.Meets`; none of them ends the
process (`AbortsOnly`) but `parse_parse_buffer` on a literal.
-/

set_option autoImplicit false

namespace Burrow.Http

open Nesting Outcome

abbrev JsonToken := Token (List UInt8) JsonEvent

/-- An event in a stream of nested values. -/
def JsonEvent.token : JsonEvent → JsonToken
  | .arrayBegin => .beginArray
  | .arrayEnd => .endArray
  | .objectBegin => .beginObject
  | .objectEnd => .endObject
  | .key value => .key value
  | event => .scalar event

/-! ## Places -/

/-- What the states have in common that the parser can be in at a place. -/
inductive JsonPhase where
  | start
  | value
  | array
  /-- in a number or a literal -/
  | scalar
  | string
  | key
  | colon
  | behind
  | comment
deriving DecidableEq, Repr

def JsonState.phase : JsonState → JsonPhase
  | .go => .start
  | .ok => .behind
  | .ob | .ke => .key
  | .co => .colon
  | .va => .value
  | .ar => .array
  | .st | .es | .u1 | .u2 | .u3 | .u4 | .d1 | .d2 => .string
  | .mi | .ze | .it | .fr | .e1 | .e2 | .e3 | .fx => .scalar
  | .t1 | .t2 | .t3 | .f1 | .f2 | .f3 | .f4 | .n1 | .n2 | .n3 => .scalar
  | .c1 | .c2 | .c3 => .comment

/-- The type of what is being read in a state; behind it a scalar can wait to be delivered. -/
def JsonState.admits : JsonState → JsonType → Bool
  | .ok, type => type ≠ .string
  | .go, type | .ob, type | .ke, type | .co, type | .va, type | .ar, type => type = .none
  | .c1, type | .c2, type | .c3, type => type = .none
  | .st, type | .es, type | .u1, type | .u2, type | .u3, type | .u4, type | .d1, type
  | .d2, type => type = .string
  | .mi, type | .ze, type | .it, type => type = .integer
  | .fr, type | .e1, type | .e2, type | .e3, type | .fx, type => type = .float
  | .t1, type | .t2, type | .t3, type => type = .true
  | .f1, type | .f2, type | .f3, type | .f4, type => type = .false
  | .n1, type | .n2, type | .n3, type => type = .null

/-- A comment can stand here, and what was there goes on behind it. -/
def JsonState.resumable : JsonState → Bool
  | .go | .ok | .ob | .ke | .co | .va | .ar => true
  | _ => false

/-- The modes of the levels around a place. -/
def modesOf : List Level → List JsonMode
  | [] => [.done]
  | .array :: levels => .array :: modesOf levels
  | .member :: levels => .object :: modesOf levels

/-- Within an array or behind a key. -/
def Enclosed (stack : List JsonMode) (told : List JsonToken) : Prop :=
  ∃ level levels, stack = modesOf (level :: levels) ∧ Context (level :: levels) told

/-- A value ends here. -/
def Behind (stack : List JsonMode) (told : List JsonToken) : Prop :=
  ∃ levels, stack = modesOf levels ∧ Nesting.Filled levels told

def AtKey (stack : List JsonMode) (told : List JsonToken) : Prop :=
  ∃ levels, stack = .key :: modesOf levels ∧ Keyed levels told

/-- What a phase says about the stack and what was told. -/
def Stands (phase : JsonPhase) (type : JsonType) (stack : List JsonMode)
    (told : List JsonToken) : Prop :=
  match phase with
  | .start => stack = [.done] ∧ told = []
  | .value | .scalar => Enclosed stack told
  | .array =>
      ∃ levels, stack = modesOf (.array :: levels) ∧ Context (.array :: levels) told
  | .string => Enclosed stack told ∨ AtKey stack told
  | .key => AtKey stack told
  | .colon =>
      ∃ levels k, ∃ told' : List JsonToken, stack = .key :: modesOf levels ∧
        Keyed levels told' ∧ told = told' ++ [.key k]
  | .behind =>
      if type = .none then Behind stack told else Enclosed stack told
  | .comment => False

/-! ## Escapes -/

/-- How much of an escape there is in the buffer at least. -/
def JsonState.collected : JsonState → Nat
  | .es | .d2 => 1
  | .u1 => 2
  | .u2 => 3
  | .u3 => 4
  | .u4 => 5
  | _ => 0

/-- How many of its hexadecimal digits have been read. -/
def JsonState.digits : JsonState → Nat
  | .u2 => 1
  | .u3 => 2
  | .u4 => 3
  | _ => 0

variable {σ : Type}

/-- **The invariant of the parser.** -/
structure JsonParser.Reads (jc : JsonParser σ) (told : List JsonToken) : Prop where
  type : jc.state.admits jc.type
  escaped : jc.escaped = true ↔ jc.state = .es
  comment : jc.comment = true ↔ jc.state.phase = .comment
  room : jc.parseBuffer.length < jc.parseBufferCapacity
  collected : jc.state.collected ≤ jc.parseBuffer.length
  digits : ∀ c ∈ jc.parseBuffer.drop (jc.parseBuffer.length - jc.state.digits), hexDigit c < 16
  resumes : jc.comment = true → jc.beforeCommentState.resumable ∧ jc.parseBuffer = []
  stands : Stands (if jc.comment then jc.beforeCommentState else jc.state).phase jc.type jc.stack
    told

/-- The parser of `burrow_backend_http_parse_json` before the text. -/
theorem newJsonParser_reads {alloc : Bool} {decimalPoint : UInt8} {config : JsonConfig} {ctx : σ}
    {jc : JsonParser σ} (h : newJsonParser alloc decimalPoint config ctx = some jc) :
    jc.Reads [] := by
  rw [newJsonParser] at h
  split at h
  · cases h
    exact
      { type := rfl
        escaped := by simp
        comment := by simp [JsonState.phase]
        room := by simp
        collected := Nat.zero_le _
        digits := by simp
        resumes := by simp
        stands := ⟨rfl, rfl⟩ }
  · exact absurd h (by simp)

/-! ## The table -/

/-- A hexadecimal digit, by the index of its class. -/
def isHexClass (index : Nat) : Bool := 14 ≤ index && index ≤ 21 || 28 ≤ index && index ≤ 29

/-- What a state has to do with the next one, where there is no action. -/
structure Passes (state : JsonState) (index : Nat) (next : JsonState) : Prop where
  phase : next.phase = state.phase ∨ state.phase = .scalar ∧ next = .ok
  admits : ∀ type ∈ [JsonType.none, .integer, .float, .null, .true, .false, .string],
    state.admits type → next.admits type
  escapes : next ≠ .es
  escaped : state = .es → next.collected = (if index = 27 then 2 else 0) ∧ next.digits = 0
  collected : state ≠ .es → next.collected ≤ state.collected + 1
  digits : state ≠ .es → next.digits ≤ state.digits + 1 ∧ (0 < next.digits → isHexClass index)

instance (state : JsonState) (index : Nat) (next : JsonState) :
    Decidable (Passes state index next) :=
  decidable_of_iff
    ((next.phase = state.phase ∨ state.phase = .scalar ∧ next = .ok) ∧
      (∀ type ∈ [JsonType.none, .integer, .float, .null, .true, .false, .string],
        state.admits type → next.admits type) ∧
      next ≠ .es ∧
      (state = .es → next.collected = (if index = 27 then 2 else 0) ∧ next.digits = 0) ∧
      (state ≠ .es → next.collected ≤ state.collected + 1) ∧
      (state ≠ .es → next.digits ≤ state.digits + 1 ∧ (0 < next.digits → isHexClass index)))
    ⟨fun ⟨h₁, h₂, h₃, h₄, h₅, h₆⟩ => ⟨h₁, h₂, h₃, h₄, h₅, h₆⟩,
      fun h => ⟨h.1, h.2, h.3, h.4, h.5, h.6⟩⟩

/-- The states that an action is found in, and the index of the class. -/
def JsonAction.entry : JsonAction → List JsonState × (Nat → Bool)
  | .uc => ([.u4], isHexClass)
  | .ex => ([.st], (· = 9))
  | .mx => ([.va, .ar], (· = 12))
  | .zx => ([.va, .ar], (· = 14))
  | .ix => ([.va, .ar], (· = 15))
  | .de => ([.it], fun index => index = 20 || index = 29)
  | .df => ([.ze, .it], (· = 13))
  | .sb => ([.ob, .ke, .va, .ar], (· = 8))
  | .fa => ([.va, .ar], (· = 21))
  | .tr => ([.va, .ar], (· = 26))
  | .nu => ([.va, .ar], (· = 23))
  | .ce => ([.c3], (· = 10))
  | .cb => ([.go, .ok, .ob, .ke, .co, .va, .ar, .ze, .it, .fr, .t3, .f4, .n3], (· = 10))
  | .m9 => ([.ob], (· = 3))
  | .m8 => ([.ok, .ze, .it, .fr, .e3, .fx], (· = 3))
  | .m7 => ([.ok, .ze, .it, .fr, .e3, .fx, .ar], (· = 5))
  | .m6 => ([.go, .va, .ar], (· = 2))
  | .m5 => ([.go, .va, .ar], (· = 4))
  | .m4 => ([.st], (· = 8))
  | .m3 => ([.ok, .ze, .it, .fr, .e3, .fx], (· = 7))
  | .m2 => ([.co], (· = 6))

/-- What there is to check of an entry of the table. -/
def EntryOk (state : JsonState) (index : Nat) : JsonTransition → Prop
  | .state next => Passes state index next
  | .action action => state ∈ action.entry.1 ∧ action.entry.2 index
  | .xx => True

instance (state : JsonState) (index : Nat) (entry : JsonTransition) :
    Decidable (EntryOk state index entry) := by
  unfold EntryOk
  split <;> infer_instance

theorem row_entriesOk (state : JsonState) :
    ∀ entry ∈ (stateTransitionRow state).zipIdx, EntryOk state entry.2 entry.1 := by
  cases state <;> decide

/-- **The table**, entry by entry. -/
theorem table_entryOk (state : JsonState) (nextClass : JsonClass) :
    EntryOk state nextClass.ctorIdx (stateTransitionTable state nextClass) := by
  apply row_entriesOk state (stateTransitionTable state nextClass, nextClass.ctorIdx)
  rw [List.mk_mem_zipIdx_iff_getElem?]
  exact getElem?_stateTransitionRow state nextClass

/-! ## The functions of the parser -/

/-- Where the process is ended, this is so. -/
def AbortsOnly (A : Prop) (stop : ParserStop) : Prop := stop = .aborted → A

section Functions

variable {malloc : Nat → Bool} {callback : JsonEvent → σ → Except JsonStop σ}
  {jc : JsonParser σ} {told : List JsonToken} {A : Prop}

theorem rejected_meets {α : Type} {P : α → Prop} :
    Meets (.error .rejected : Except ParserStop α) P (AbortsOnly A) :=
  Meets.error fun hstop => absurd hstop (by decide)

theorem jsonAssert_meets {p : Prop} [Decidable p] (h : p) :
    Meets (jsonAssert p) (fun _ => True) (AbortsOnly A) := by
  rw [jsonAssert, if_pos h]
  exact trivial

/-- The callback is called. -/
theorem deliver_meets (event : JsonEvent) :
    Meets (jc.deliver callback event)
      (fun jc' => ∃ ctx, callback event jc.ctx = .ok ctx ∧ jc' = { jc with ctx := ctx })
      (AbortsOnly A) := by
  rw [JsonParser.deliver]
  cases hcall : callback event jc.ctx with
  | ok ctx => exact ⟨ctx, rfl, rfl⟩
  | error stop =>
      apply Meets.error
      intro hstop
      cases stop <;> exact absurd hstop (by simp [JsonStop.parserStop])

theorem popBackChar_meets (jc : JsonParser σ) (h : 1 ≤ jc.parseBuffer.length) :
    Meets jc.parseBufferPopBackChar
      (fun jc' => jc' = { jc with parseBuffer := jc.parseBuffer.dropLast }) (AbortsOnly A) := by
  rw [JsonParser.parseBufferPopBackChar, jsonAssert, if_pos h]
  exact rfl

theorem pushBackChar_meets (jc : JsonParser σ) (h : jc.parseBufferHasSpaceFor 1) (c : UInt8) :
    Meets (jc.parseBufferPushBackChar c)
      (fun jc' => jc' = { jc with parseBuffer := jc.parseBuffer ++ [c] }) (AbortsOnly A) := by
  rw [JsonParser.parseBufferPushBackChar, jsonAssert, if_pos h]
  exact rfl

theorem reserveFor_meets (h : jc.parseBuffer.length < jc.parseBufferCapacity) :
    Meets (jc.parseBufferReserveFor malloc)
      (fun jc' => ∃ capacity, jc' = { jc with parseBufferCapacity := capacity } ∧
        jc.parseBuffer.length + 1 < capacity) (AbortsOnly A) := by
  rw [JsonParser.parseBufferReserveFor]
  split
  · next hspace => exact ⟨jc.parseBufferCapacity, rfl, hspace⟩
  · split
    · refine ⟨jc.parseBufferCapacity * 2, rfl, ?_⟩
      omega
    · exact rejected_meets

/-- What a character makes of the buffer. -/
def JsonParser.bufferWith (jc : JsonParser σ) (nextChar : Int) (nextClass : JsonClass) :
    Option (List UInt8) :=
  if jc.escaped then (escapedChar nextChar).map (jc.parseBuffer.dropLast ++ ·)
  else if jc.comment then some jc.parseBuffer
  else if jc.type ≠ .none ∨ ¬ (nextClass = .space ∨ nextClass = .white) then
    some (jc.parseBuffer ++ [UInt8.ofNat nextChar.toNat])
  else some jc.parseBuffer

/-- An escaped character takes the place of the backslash. -/
theorem addEscapedChar_meets (jc : JsonParser σ) (h : jc.parseBufferHasSpaceFor 1)
    (hlength : 1 ≤ jc.parseBuffer.length) (nextChar : Int) :
    Meets (jc.addEscapedCharToParseBuffer nextChar)
      (fun jc' => ∃ chars, JsonParser.escapedChar nextChar = some chars ∧ chars.length ≤ 2 ∧
        jc' = { jc with escaped := false, parseBuffer := jc.parseBuffer.dropLast ++ chars })
      (AbortsOnly A) := by
  rw [JsonParser.parseBufferHasSpaceFor] at h
  have hlast : jc.parseBuffer.dropLast.length = jc.parseBuffer.length - 1 :=
    List.length_dropLast
  refine (jsonAssert_meets h).bind fun _ _ => ?_
  refine (popBackChar_meets { jc with escaped := false } hlength).bind ?_
  rintro jc₁ rfl
  dsimp only
  cases hchars : JsonParser.escapedChar nextChar with
  | none => exact rejected_meets
  | some chars =>
      have htwo : (∃ c, chars = [c]) ∨ chars = [92, 117] := by
        unfold JsonParser.escapedChar at hchars
        split at hchars <;> cases hchars <;> simp
      rcases htwo with ⟨c, rfl⟩ | rfl
      · refine (pushBackChar_meets _ ?_ c).bind ?_
        · rw [JsonParser.parseBufferHasSpaceFor]
          dsimp only
          omega
        · rintro jc₂ rfl
          exact ⟨[c], rfl, by simp, rfl⟩
      · refine (pushBackChar_meets _ ?_ 92).bind ?_
        · rw [JsonParser.parseBufferHasSpaceFor]
          dsimp only
          omega
        · rintro jc₂ rfl
          refine (pushBackChar_meets _ ?_ 117).bind ?_
          · rw [JsonParser.parseBufferHasSpaceFor]
            dsimp only
            rw [List.length_append, List.length_singleton]
            omega
          · rintro jc₃ rfl
            refine ⟨[92, 117], rfl, by simp, ?_⟩
            dsimp only
            rw [List.append_assoc]
            rfl

/-- **A character goes to the buffer.** -/
theorem addChar_meets (h : jc.Reads told) (nextChar : Int) (nextClass : JsonClass) :
    Meets (jc.addCharToParseBuffer malloc nextChar nextClass)
      (fun jc' => ∃ buffer capacity, jc.bufferWith nextChar nextClass = some buffer ∧
        buffer.length < capacity ∧
        jc' = { jc with
          escaped := false
          parseBuffer := buffer
          parseBufferCapacity := capacity }) (AbortsOnly A) := by
  refine (reserveFor_meets h.room).bind ?_
  rintro jc₁ ⟨capacity, rfl, hspace⟩
  rw [JsonParser.bufferWith]
  dsimp only
  split
  · next hescaped =>
      have hlength : 1 ≤ jc.parseBuffer.length := by
        have hcollected := h.collected
        rw [h.escaped.1 hescaped] at hcollected
        exact hcollected
      refine (addEscapedChar_meets { jc with parseBufferCapacity := capacity } hspace
        hlength nextChar).mono ?_ fun _ hstop => hstop
      rintro jc₂ ⟨chars, hchars, htwo, rfl⟩
      refine ⟨_, capacity, by rw [hchars]; rfl, ?_, rfl⟩
      dsimp only
      rw [List.length_append, List.length_dropLast]
      omega
  · next hescaped =>
      have hfalse : jc.escaped = false := Bool.not_eq_true _ ▸ hescaped
      split
      · exact ⟨_, capacity, rfl, Nat.lt_of_succ_lt hspace, by rw [← hfalse]⟩
      · split
        · refine (pushBackChar_meets { jc with parseBufferCapacity := capacity } hspace
            _).mono ?_ fun _ hstop => hstop
          rintro jc₂ rfl
          refine ⟨_, capacity, rfl, ?_, by rw [← hfalse]⟩
          rw [List.length_append]
          exact hspace
        · exact ⟨_, capacity, rfl, Nat.lt_of_succ_lt hspace, by rw [← hfalse]⟩

/-- `true`, `false` and `null`. -/
def IsLiteral (type : JsonType) : Prop := type = .true ∨ type = .false ∨ type = .null

instance (type : JsonType) : Decidable (IsLiteral type) := inferInstanceAs (Decidable (_ ∨ _))

/-- What `parse_parse_buffer` has to deliver. -/
def pendingEvents (type : JsonType) (buffer : List UInt8) : List JsonEvent :=
  match type with
  | .integer => [.integer (JsonParser.sscanfInteger buffer)]
  | .float => [.float]
  | .string => [.string buffer]
  | _ => []

/-- What waits is delivered, unless it is a literal. -/
theorem parseParseBuffer_meets (jc : JsonParser σ) (hA : IsLiteral jc.type → A) :
    Meets (jc.parseParseBuffer callback)
      (fun jc' => ¬ IsLiteral jc.type ∧ ∃ ctx,
        Machine.run callback (pendingEvents jc.type jc.parseBuffer) jc.ctx = .ok ctx ∧
        jc' = { jc with ctx := ctx, parseBuffer := [] }) (AbortsOnly A) := by
  rw [JsonParser.parseParseBuffer]
  have hdeliver : ∀ event, Meets (jc.deliver callback event)
      (fun jc' => ∃ ctx, Machine.run callback [event] jc.ctx = .ok ctx ∧
        jc' = { jc with ctx := ctx }) (AbortsOnly A) := by
    intro event
    refine (deliver_meets event).mono ?_ fun _ hstop => hstop
    rintro jc' ⟨ctx, hcall, rfl⟩
    exact ⟨ctx, Machine.run_cons_of_ok callback hcall [], rfl⟩
  cases htype : jc.type with
  | none => exact ⟨by decide, jc.ctx, rfl, by rw [← htype]; rfl⟩
  | integer | float | string =>
      refine (hdeliver _).bind ?_
      rintro jc' ⟨ctx, hrun, rfl⟩
      exact ⟨by decide, ctx, hrun, by rw [← htype]; rfl⟩
  | null | true | false => exact Meets.error fun _ => hA (by rw [htype]; decide)

theorem pop_meets (mode : JsonMode) :
    Meets (jc.pop mode)
      (fun jc' => ∃ rest, jc.stack = mode :: rest ∧ jc' = { jc with stack := rest })
      (AbortsOnly A) := by
  rw [JsonParser.pop]
  split
  · exact rejected_meets
  · next top rest hstack =>
      split
      · next htop =>
          subst htop
          exact ⟨rest, hstack, rfl⟩
      · exact rejected_meets

theorem push_meets (mode : JsonMode) :
    Meets (jc.push mode) (fun jc' => jc' = { jc with stack := mode :: jc.stack })
      (AbortsOnly A) := by
  rw [JsonParser.push]
  split
  · exact rejected_meets
  · exact rfl

theorem length_encodeUtf8 (leadBits : UInt32) (trailBytes : Nat) (uc : UInt32) :
    (JsonParser.encodeUtf8 leadBits trailBytes uc).length = trailBytes + 1 := by
  rw [JsonParser.encodeUtf8, List.length_cons, List.length_map, List.length_reverse,
    List.length_range]

theorem length_encodeUtf8_le {leadBits : UInt32} {trailBytes : Nat} {uc : UInt32}
    (h : trailBytes ≤ 3) : (JsonParser.encodeUtf8 leadBits trailBytes uc).length ≤ 4 := by
  rw [length_encodeUtf8]
  omega

/-- Six characters of the buffer have become at most four. -/
theorem decodeUnicodeChar_meets (hlength : 6 ≤ jc.parseBuffer.length)
    (hdigits : ∀ c ∈ jc.parseBuffer.drop (jc.parseBuffer.length - 4),
      JsonParser.hexDigit c < 16) :
    Meets jc.decodeUnicodeChar
      (fun jc' => ∃ buffer half, buffer.length < jc.parseBuffer.length ∧
        jc' = { jc with parseBuffer := buffer, utf16HighSurrogate := half })
      (AbortsOnly A) := by
  have hall : ((jc.parseBuffer.drop (jc.parseBuffer.length - 4)).map
      JsonParser.hexDigit).all (· < 16) = true := by
    rw [List.all_eq_true]
    intro x hx
    obtain ⟨c, hc, rfl⟩ := List.mem_map.1 hx
    exact decide_eq_true (hdigits c hc)
  have hshorter : ∀ bytes : List UInt8, bytes.length ≤ 4 →
      (jc.parseBuffer.take (jc.parseBuffer.length - 6) ++ bytes).length <
        jc.parseBuffer.length := by
    intro bytes hbytes
    rw [List.length_append, List.length_take]
    omega
  rw [JsonParser.decodeUnicodeChar]
  refine (jsonAssert_meets hlength).bind fun _ _ => ?_
  refine (jsonAssert_meets hall).bind fun _ _ => ?_
  dsimp only
  split
  · split
    · exact ⟨_, _, hshorter _ (length_encodeUtf8_le (by decide)), rfl⟩
    · exact rejected_meets
  · split
    · exact ⟨_, _, hshorter _ (length_encodeUtf8_le (by decide)), rfl⟩
    · split
      · exact ⟨_, _, hshorter _ (length_encodeUtf8_le (by decide)), rfl⟩
      · split
        · refine ⟨_, _, ?_, rfl⟩
          have htake := hshorter [] (by decide)
          rwa [List.append_nil] at htake
        · split
          · exact rejected_meets
          · exact ⟨_, _, hshorter _ (length_encodeUtf8_le (by decide)), rfl⟩

end Functions

end Burrow.Http
