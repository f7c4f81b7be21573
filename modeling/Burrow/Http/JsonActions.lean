import Burrow.Http.JsonInvariant

/-!
# What the actions of the JSON parser do to the invariant

A character that only changes the state keeps the invariant (`JsonParser.Reads.pass`). For each
action of the table there is a rule, from the parser with the character in the buffer (`Pushed`)
to one that has gone on (`GoesOn`): the events it delivers lead on in the stream of nested
values, and its assertions hold.
-/

set_option autoImplicit false

namespace Burrow.Http

open Nesting Outcome

variable {σ : Type}

/-! ## Places -/

section Places

variable {stack : List JsonMode} {told : List JsonToken}

theorem modesOf_eq_array {levels : List Level} {rest : List JsonMode}
    (h : modesOf levels = .array :: rest) :
    ∃ levels', levels = .array :: levels' ∧ rest = modesOf levels' := by
  cases levels with
  | nil => exact absurd h (by simp [modesOf])
  | cons level levels =>
      cases level with
      | array => exact ⟨levels, rfl, (List.cons.inj h).2.symm⟩
      | member => exact absurd h (by simp [modesOf])

theorem modesOf_eq_object {levels : List Level} {rest : List JsonMode}
    (h : modesOf levels = .object :: rest) :
    ∃ levels', levels = .member :: levels' ∧ rest = modesOf levels' := by
  cases levels with
  | nil => exact absurd h (by simp [modesOf])
  | cons level levels =>
      cases level with
      | array => exact absurd h (by simp [modesOf])
      | member => exact ⟨levels, rfl, (List.cons.inj h).2.symm⟩

theorem Enclosed.behind (h : Enclosed stack told) {event : JsonEvent}
    (hscalar : event.token = .scalar event) : Behind stack (told ++ [event.token]) := by
  obtain ⟨level, levels, rfl, hcontext⟩ := h
  rw [hscalar]
  exact ⟨_, rfl, hcontext.fill (.scalar event)⟩

theorem Behind.endArray {rest : List JsonMode} (h : Behind (.array :: rest) told) :
    Behind rest (told ++ [.endArray]) := by
  obtain ⟨levels, hstack, hfilled⟩ := h
  obtain ⟨levels', rfl, rfl⟩ := modesOf_eq_array hstack.symm
  exact ⟨levels', rfl, hfilled.nextItem.endArray⟩

theorem Behind.nextItem {rest : List JsonMode} (h : Behind (.array :: rest) told) :
    Enclosed (.array :: rest) told := by
  obtain ⟨levels, hstack, hfilled⟩ := h
  obtain ⟨levels', rfl, rfl⟩ := modesOf_eq_array hstack.symm
  exact ⟨.array, levels', rfl, hfilled.nextItem⟩

theorem Behind.nextMember {rest : List JsonMode} (h : Behind (.object :: rest) told) :
    AtKey (.key :: rest) told := by
  obtain ⟨levels, hstack, hfilled⟩ := h
  obtain ⟨levels', rfl, rfl⟩ := modesOf_eq_object hstack.symm
  exact ⟨levels', rfl, hfilled.nextMember⟩

theorem AtKey.endObject {rest : List JsonMode} (h : AtKey (.key :: rest) told) :
    Behind rest (told ++ [.endObject]) := by
  obtain ⟨levels, hstack, hkeyed⟩ := h
  obtain rfl : rest = modesOf levels := (List.cons.inj hstack).2
  exact ⟨levels, rfl, hkeyed.endObject⟩

theorem Behind.endObject {rest : List JsonMode} (h : Behind (.object :: rest) told) :
    Behind rest (told ++ [.endObject]) := h.nextMember.endObject

end Places

/-! ## Characters -/

section Characters

variable {malloc : Nat → Bool} {callback : JsonEvent → σ → Except JsonStop σ}
  {jc : JsonParser σ} {told : List JsonToken} {A : Prop}

/-- The parser has gone on, and the callback has been told some more. -/
def GoesOn (callback : JsonEvent → σ → Except JsonStop σ) (jc : JsonParser σ)
    (told : List JsonToken) (jc' : JsonParser σ) : Prop :=
  ∃ events, Machine.run callback events jc.ctx = .ok jc'.ctx ∧
    jc'.Reads (told ++ events.map JsonEvent.token)

/-- The buffer can take a character. -/
def JsonParser.HasRoom (malloc : Nat → Bool) (jc : JsonParser σ) : Prop :=
  jc.parseBufferHasSpaceFor 1 ∨ malloc (jc.parseBufferCapacity * 2) = true

theorem JsonParser.HasRoom.reserve (hroom : jc.HasRoom malloc)
    (hlength : jc.parseBuffer.length < jc.parseBufferCapacity) :
    ∃ capacity, jc.parseBufferReserveFor malloc =
        .ok { jc with parseBufferCapacity := capacity } ∧
      jc.parseBuffer.length + 1 < capacity := by
  rw [JsonParser.parseBufferReserveFor]
  by_cases hspace : jc.parseBufferHasSpaceFor 1
  · exact ⟨jc.parseBufferCapacity, if_pos hspace, hspace⟩
  · rw [if_neg hspace, if_pos (hroom.resolve_left hspace)]
    exact ⟨jc.parseBufferCapacity * 2, rfl, by omega⟩

/-- What is to be shown where no escape is being read, and no comment. -/
theorem JsonParser.Reads.plain (hescaped : jc.escaped = false) (hcomment : jc.comment = false)
    (hstate : jc.state.collected = 0 ∧ jc.state.digits = 0 ∧ jc.state.phase ≠ .comment)
    (htype : jc.state.admits jc.type) (hroom : jc.parseBuffer.length < jc.parseBufferCapacity)
    (hstands : Stands jc.state.phase jc.type jc.stack told) : jc.Reads told where
  type := htype
  escaped := by
    rw [hescaped]
    refine iff_of_false Bool.false_ne_true fun hes => ?_
    rw [hes] at hstate
    exact absurd hstate.1 (by decide)
  comment := by
    rw [hcomment]
    exact iff_of_false Bool.false_ne_true hstate.2.2
  room := hroom
  collected := by
    rw [hstate.1]
    exact Nat.zero_le _
  digits := by
    rw [hstate.2.1, Nat.sub_zero, List.drop_length]
    exact fun c hc => absurd hc List.not_mem_nil
  resumes := fun h => absurd (hcomment.symm.trans h) Bool.false_ne_true
  stands := by
    rw [hcomment]
    exact hstands

/-- What the class of a hexadecimal digit says about the character. -/
theorem hexDigit_of_class {nextChar : Int} {nextClass : JsonClass}
    (hclass : characterClass nextChar = some nextClass)
    (hhex : isHexClass nextClass.ctorIdx = true) :
    JsonParser.hexDigit (UInt8.ofNat nextChar.toNat) < 16 := by
  rw [characterClass] at hclass
  split at hclass
  · cases hclass
    exact absurd hhex (by decide)
  · next hascii =>
      have hall : ∀ n < 128, ∀ nextClass ∈ asciiClass.getD n none,
          isHexClass nextClass.ctorIdx = true → JsonParser.hexDigit (UInt8.ofNat n) < 16 := by
        decide +kernel
      exact hall nextChar.toNat (by omega) nextClass hclass hhex

theorem JsonParser.Reads.comment_eq_false (h : jc.Reads told)
    (hphase : jc.state.phase ≠ .comment) : jc.comment = false :=
  Bool.eq_false_iff.2 fun hcomment => hphase (h.comment.1 hcomment)

theorem JsonParser.Reads.escaped_eq_false (h : jc.Reads told) (hstate : jc.state ≠ .es) :
    jc.escaped = false :=
  Bool.eq_false_iff.2 fun hescaped => hstate (h.escaped.1 hescaped)

/-- The character is kept. -/
theorem JsonParser.Reads.bufferWith_push (h : jc.Reads told) (hphase : jc.state.phase ≠ .comment)
    (hstate : jc.state ≠ .es) (nextChar : Int) (nextClass : JsonClass)
    (hkept : jc.type ≠ .none ∨ ¬ (nextClass = .space ∨ nextClass = .white)) :
    jc.bufferWith nextChar nextClass =
      some (jc.parseBuffer ++ [UInt8.ofNat nextChar.toNat]) := by
  rw [JsonParser.bufferWith, h.escaped_eq_false hstate, h.comment_eq_false hphase,
    if_neg Bool.false_ne_true, if_neg Bool.false_ne_true, if_pos hkept]

theorem JsonParser.Reads.type_of_string (h : jc.Reads told) (hphase : jc.state.phase = .string) :
    jc.type = .string := by
  have htype := h.type
  cases hstate : jc.state with
  | st | es | u1 | u2 | u3 | u4 | d1 | d2 =>
      rw [hstate] at htype
      exact of_decide_eq_true htype
  | _ =>
      rw [hstate] at hphase
      exact absurd hphase (by decide)

/-- Only in a string there is an escape. -/
theorem phase_of_collected {state : JsonState} (h : 0 < state.collected) :
    state.phase = .string := by
  cases state <;> first | rfl | exact absurd h (by decide)

theorem collected_of_digits {state : JsonState} (h : 0 < state.digits) :
    0 < state.collected := by
  cases state <;> first | exact absurd h (by decide) | decide

/-- A class that only one ASCII character is of says which one it is. -/
theorem char_of_class {nextChar : Int} (hsign : ¬ nextChar < 0) {nextClass : JsonClass}
    (hclass : characterClass nextChar = some nextClass) {index n : Nat}
    (hindex : nextClass.ctorIdx = index) (hetc : index ≠ JsonClass.etc.ctorIdx)
    (hone : ∀ m < 128, ∀ nextClass ∈ asciiClass.getD m none, nextClass.ctorIdx = index → m = n) :
    nextChar = n := by
  rw [characterClass] at hclass
  split at hclass
  · cases hclass
    exact absurd hindex.symm hetc
  · have hvalue := hone nextChar.toNat (by omega) nextClass hclass hindex
    omega

/-- Only `u` is of its class. -/
theorem lowU_of_index : ∀ m < 128, ∀ nextClass ∈ asciiClass.getD m none,
    nextClass.ctorIdx = 27 → m = 117 := by decide +kernel

/-- The last characters with one more. -/
theorem mem_drop_concat {l : List UInt8} {x c : UInt8} {d d' : Nat} (hle : d' ≤ d + 1)
    (hpos : 0 < d') (hc : c ∈ (l ++ [x]).drop ((l ++ [x]).length - d')) :
    c ∈ l.drop (l.length - d) ∨ c = x := by
  rw [List.length_append, List.length_singleton,
    List.drop_append_of_le_length (by omega), List.mem_append, List.mem_singleton] at hc
  refine hc.imp_left fun hmem => ?_
  exact List.drop_subset_drop_left l (by omega) hmem

/-- **No action**: the state is the next one. -/
theorem JsonParser.Reads.pass (h : jc.Reads told) {nextChar : Int} (hsign : ¬ nextChar < 0)
    {nextClass : JsonClass} (hclass : characterClass nextChar = some nextClass)
    {buffer : List UInt8} {capacity : Nat}
    (hbuffer : jc.bufferWith nextChar nextClass = some buffer)
    (hroom : buffer.length < capacity) {next : JsonState}
    (hpass : Passes jc.state nextClass.ctorIdx next) :
    { jc with
      escaped := false
      parseBuffer := buffer
      parseBufferCapacity := capacity
      state := next }.Reads told := by
  have hphase : next.phase = .string → jc.state.phase = .string := by
    intro hstring
    rcases hpass.phase with hsame | ⟨-, rfl⟩
    · rw [← hsame, hstring]
    · exact absurd hstring (by decide)
  -- in a string that is not behind a backslash the character is kept
  have hpush : jc.state ≠ .es → 0 < next.collected →
      buffer = jc.parseBuffer ++ [UInt8.ofNat nextChar.toNat] := by
    intro hes hcollected
    have hstring := hphase (phase_of_collected hcollected)
    have hkept := h.bufferWith_push (by rw [hstring]; decide) hes nextChar nextClass
      (.inl (by rw [h.type_of_string hstring]; decide))
    exact Option.some.inj (hbuffer.symm.trans hkept)
  have hcomment : jc.comment = true ↔ next.phase = .comment := by
    rw [h.comment]
    rcases hpass.phase with hsame | ⟨hscalar, rfl⟩
    · rw [hsame]
    · rw [hscalar]
      decide
  refine
    { type := ?_
      escaped := iff_of_false Bool.false_ne_true hpass.escapes
      comment := hcomment
      room := hroom
      collected := ?_
      digits := ?_
      resumes := ?_
      stands := ?_ }
  · exact hpass.admits jc.type (by cases jc.type <;> decide) h.type
  · change next.collected ≤ buffer.length
    by_cases hes : jc.state = .es
    · rw [(hpass.escaped hes).1]
      split
      · next hindex =>
          rw [JsonParser.bufferWith, if_pos (h.escaped.2 hes),
            char_of_class hsign hclass hindex (by decide) lowU_of_index] at hbuffer
          obtain rfl : jc.parseBuffer.dropLast ++ [92, 117] = buffer := Option.some.inj hbuffer
          rw [List.length_append]
          exact Nat.le_add_left 2 _
      · exact Nat.zero_le _
    · rcases Nat.eq_zero_or_pos next.collected with hzero | hpos
      · rw [hzero]
        exact Nat.zero_le _
      · rw [hpush hes hpos, List.length_append, List.length_singleton]
        exact Nat.le_trans (hpass.collected hes) (Nat.succ_le_succ h.collected)
  · intro c hc
    change c ∈ buffer.drop (buffer.length - next.digits) at hc
    rcases Nat.eq_zero_or_pos next.digits with hzero | hpos
    · rw [hzero, Nat.sub_zero, List.drop_length] at hc
      exact absurd hc List.not_mem_nil
    · have hes : jc.state ≠ .es := by
        intro hes
        rw [(hpass.escaped hes).2] at hpos
        exact absurd hpos (Nat.lt_irrefl 0)
      obtain ⟨hle, hhex⟩ := hpass.digits hes
      rw [hpush hes (collected_of_digits hpos)] at hc
      rcases mem_drop_concat hle hpos hc with hmem | rfl
      · exact h.digits c hmem
      · exact hexDigit_of_class hclass (hhex hpos)
  · intro hcom
    change jc.comment = true at hcom
    obtain ⟨hresumable, hempty⟩ := h.resumes hcom
    have hes : jc.state ≠ .es := by
      intro hes
      have hphase' := h.comment.1 hcom
      rw [hes] at hphase'
      exact absurd hphase' (by decide)
    rw [JsonParser.bufferWith, h.escaped_eq_false hes, hcom, if_neg Bool.false_ne_true,
      if_pos rfl] at hbuffer
    exact ⟨hresumable, (Option.some.inj hbuffer).symm.trans hempty⟩
  · have hstands := h.stands
    change Stands (if jc.comment then jc.beforeCommentState else next).phase jc.type jc.stack told
    cases hcom : jc.comment with
    | true =>
        rw [hcom] at hstands
        exact hstands
    | false =>
        rw [hcom] at hstands
        change Stands jc.state.phase jc.type jc.stack told at hstands
        change Stands next.phase jc.type jc.stack told
        rcases hpass.phase with hsame | ⟨hscalar, rfl⟩
        · rwa [hsame]
        · have htype : jc.type ≠ .none := by
            intro hnone
            have hadmits := h.type
            rw [hnone] at hadmits
            cases hstate : jc.state <;> rw [hstate] at hadmits hscalar <;>
              first | exact absurd hadmits (by decide) | exact absurd hscalar (by decide)
          rw [hscalar] at hstands
          exact (if_neg htype).mpr hstands

/-! ### Actions -/

/-- The parser has not called back. -/
theorem GoesOn.quiet {jc' : JsonParser σ} (hctx : jc'.ctx = jc.ctx) (h : jc'.Reads told) :
    GoesOn callback jc told jc' := by
  refine ⟨[], ?_, ?_⟩
  · rw [hctx]
    rfl
  · rwa [List.map_nil, List.append_nil]

/-- The parser with the character in the buffer. -/
structure Pushed (jc : JsonParser σ) (told : List JsonToken) (c : UInt8) (jc' : JsonParser σ) :
    Prop where
  reads : jc.Reads told
  comment : jc.comment = false
  eq : ∃ capacity, jc.parseBuffer.length + 1 < capacity ∧
    jc' = { jc with
      escaped := false
      parseBuffer := jc.parseBuffer ++ [c]
      parseBufferCapacity := capacity }

theorem Pushed.stands {c : UInt8} {jc' : JsonParser σ} (h : Pushed jc told c jc') :
    Stands jc.state.phase jc.type jc.stack told := by
  have hstands := h.reads.stands
  rw [h.comment] at hstands
  exact hstands

theorem length_push (l : List UInt8) (c : UInt8) : 1 ≤ (l ++ [c]).length := by
  rw [List.length_append]
  exact Nat.le_add_left 1 _

/-- A value can begin. -/
theorem Pushed.value {c : UInt8} {jc' : JsonParser σ} (h : Pushed jc told c jc')
    (hstate : jc.state ∈ [JsonState.va, .ar]) : jc.type = .none ∧ Enclosed jc.stack told := by
  have htype := h.reads.type
  have hstands := h.stands
  simp only [List.mem_cons, List.not_mem_nil, or_false] at hstate
  rcases hstate with hstate | hstate
  · rw [hstate] at htype hstands
    exact ⟨of_decide_eq_true htype, hstands⟩
  · rw [hstate] at htype hstands
    obtain ⟨levels, hstack, hcontext⟩ := hstands
    exact ⟨of_decide_eq_true htype, .array, levels, hstack, hcontext⟩

/-- A number or a literal begins. -/
theorem Pushed.scalar {c : UInt8} {jc' : JsonParser σ} (h : Pushed jc told c jc')
    (hstate : jc.state ∈ [JsonState.va, .ar]) {type : JsonType} {state : JsonState}
    (hphase : state.phase = .scalar) (hadmits : state.admits type) :
    GoesOn callback jc told { jc' with type := type, state := state } := by
  obtain ⟨-, henclosed⟩ := h.value hstate
  obtain ⟨capacity, hroom, rfl⟩ := h.eq
  refine GoesOn.quiet rfl (JsonParser.Reads.plain rfl h.comment ?_ hadmits ?_ ?_)
  · change state.collected = 0 ∧ state.digits = 0 ∧ state.phase ≠ .comment
    cases state <;> first | decide | exact absurd hphase (by decide)
  · rwa [List.length_append]
  · change Stands state.phase type jc.stack told
    rw [hphase]
    exact henclosed

/-- A string begins. -/
theorem Pushed.string {c : UInt8} {jc' : JsonParser σ} (h : Pushed jc told c jc')
    (hstate : jc.state ∈ [JsonState.ob, .ke, .va, .ar]) :
    jc.type = .none ∧ GoesOn callback jc told
      { jc'.parseBufferClear with type := .string, state := .st } := by
  obtain ⟨hnone, hstring⟩ : jc.type = .none ∧ (Enclosed jc.stack told ∨ AtKey jc.stack told) := by
    have htype := h.reads.type
    have hstands := h.stands
    simp only [List.mem_cons, List.not_mem_nil, or_false] at hstate
    rcases hstate with hstate | hstate | hstate
    · rw [hstate] at htype hstands
      exact ⟨of_decide_eq_true htype, .inr hstands⟩
    · rw [hstate] at htype hstands
      exact ⟨of_decide_eq_true htype, .inr hstands⟩
    · have hvalue := h.value (by simp [hstate])
      exact ⟨hvalue.1, .inl hvalue.2⟩
  obtain ⟨capacity, hroom, rfl⟩ := h.eq
  refine ⟨hnone, GoesOn.quiet rfl (JsonParser.Reads.plain rfl h.comment ?_ rfl ?_ ?_)⟩
  · exact (by decide : JsonState.st.collected = 0 ∧ JsonState.st.digits = 0 ∧
      JsonState.st.phase ≠ .comment)
  · exact Nat.lt_of_le_of_lt (Nat.zero_le _) hroom
  · exact hstring

/-- A number gets a fraction or an exponent. -/
theorem Pushed.float {c : UInt8} {jc' : JsonParser σ} (h : Pushed jc told c jc')
    (hstate : jc.state ∈ [JsonState.ze, .it]) {buffer : List UInt8}
    (hbuffer : buffer.length = jc'.parseBuffer.length) {state : JsonState}
    (hphase : state.phase = .scalar) (hadmits : state.admits .float) :
    jc.type = .integer ∧ GoesOn callback jc told
      { jc' with parseBuffer := buffer, type := .float, state := state } := by
  obtain ⟨hinteger, henclosed⟩ : jc.type = .integer ∧ Enclosed jc.stack told := by
    have htype := h.reads.type
    have hstands := h.stands
    simp only [List.mem_cons, List.not_mem_nil, or_false] at hstate
    rcases hstate with hstate | hstate <;> rw [hstate] at htype hstands
    · exact ⟨of_decide_eq_true htype, hstands⟩
    · exact ⟨of_decide_eq_true htype, hstands⟩
  obtain ⟨capacity, hroom, rfl⟩ := h.eq
  refine ⟨hinteger, GoesOn.quiet rfl (JsonParser.Reads.plain rfl h.comment ?_ hadmits ?_ ?_)⟩
  · change state.collected = 0 ∧ state.digits = 0 ∧ state.phase ≠ .comment
    cases state <;> first | decide | exact absurd hphase (by decide)
  · change buffer.length < capacity
    rw [hbuffer]
    exact Nat.lt_of_le_of_lt (Nat.le_of_eq List.length_append) hroom
  · change Stands state.phase _ jc.stack told
    rw [hphase]
    exact henclosed

/-- A number that waits is a value. -/
theorem Enclosed.pending {stack : List JsonMode} (h : Enclosed stack told) {type : JsonType}
    (hnone : type ≠ .none) (hliteral : ¬ IsLiteral type) (buffer : List UInt8) :
    Behind stack (told ++ (pendingEvents type buffer).map JsonEvent.token) := by
  cases type with
  | none => exact absurd rfl hnone
  | integer => exact h.behind rfl
  | float => exact h.behind rfl
  | string => exact h.behind rfl
  | null | true | false => exact absurd (by decide) hliteral

/-- A scalar that waits is delivered, and a value ends. -/
theorem Pushed.deliver {c : UInt8} {jc' : JsonParser σ} (h : Pushed jc told c jc')
    (hstate : jc.state ∈ [JsonState.ok, .ze, .it, .fr, .e3, .fx, .ar])
    (hA : IsLiteral jc.type → A) :
    Meets (jc'.parseBufferPopBackChar >>= fun jc => jc.parseParseBuffer callback)
      (fun jc'' => ∃ ctx capacity events, Machine.run callback events jc.ctx = .ok ctx ∧
        Behind jc.stack (told ++ events.map JsonEvent.token) ∧ 0 < capacity ∧
        jc'' = { jc with
          ctx := ctx
          escaped := false
          parseBuffer := []
          parseBufferCapacity := capacity }) (AbortsOnly A) := by
  obtain ⟨capacity, hroom, rfl⟩ := h.eq
  refine (popBackChar_meets _ (length_push _ c)).bind ?_
  rintro jc₁ rfl
  refine (parseParseBuffer_meets { jc with
    escaped := false
    parseBuffer := (jc.parseBuffer ++ [c]).dropLast
    parseBufferCapacity := capacity } hA).mono ?_ fun _ hstop => hstop
  rintro jc₂ ⟨hliteral, ctx, hrun, rfl⟩
  refine ⟨ctx, capacity, _, hrun, ?_, Nat.zero_lt_of_lt hroom, rfl⟩
  have htype := h.reads.type
  have hstands := h.stands
  change ¬ IsLiteral jc.type at hliteral
  have hnothing : jc.type = .none → Behind jc.stack told →
      Behind jc.stack (told ++ (pendingEvents jc.type
        (jc.parseBuffer ++ [c]).dropLast).map JsonEvent.token) := by
    intro hnone hbehind
    rw [hnone]
    change Behind jc.stack (told ++ [])
    rwa [List.append_nil]
  by_cases hok : jc.state = .ok
  · rw [hok] at hstands
    by_cases hnone : jc.type = .none
    · exact hnothing hnone ((if_pos hnone).mp hstands)
    · exact Enclosed.pending ((if_neg hnone).mp hstands) hnone hliteral _
  by_cases har : jc.state = .ar
  · rw [har] at hstands htype
    obtain ⟨levels, hstack, hcontext⟩ := hstands
    refine hnothing (of_decide_eq_true htype) ⟨.array :: levels, hstack, ?_⟩
    cases hcontext with
    | array hc hi => exact .array hc hi
  · have hphase : jc.state.phase = .scalar ∧ jc.type ≠ .none := by
      simp only [List.mem_cons, List.not_mem_nil, or_false] at hstate
      rcases hstate with hstate | hstate | hstate | hstate | hstate | hstate | hstate
      · exact absurd hstate hok
      · rw [hstate] at htype ⊢
        rw [of_decide_eq_true htype]
        decide
      · rw [hstate] at htype ⊢
        rw [of_decide_eq_true htype]
        decide
      · rw [hstate] at htype ⊢
        rw [of_decide_eq_true htype]
        decide
      · rw [hstate] at htype ⊢
        rw [of_decide_eq_true htype]
        decide
      · rw [hstate] at htype ⊢
        rw [of_decide_eq_true htype]
        decide
      · exact absurd hstate har
    rw [hphase.1] at hstands
    exact Enclosed.pending hstands hphase.2 hliteral _

/-- The parser after an event, behind a value. -/
theorem goesOn_behind {ctx ctx' : σ} {capacity : Nat} {events : List JsonEvent} {event : JsonEvent}
    {stack : List JsonMode} (hcomment : jc.comment = false)
    (hrun : Machine.run callback events jc.ctx = .ok ctx) (hcall : callback event ctx = .ok ctx')
    (hcapacity : 0 < capacity)
    (hbehind : Behind stack (told ++ events.map JsonEvent.token ++ [event.token])) :
    GoesOn callback jc told { jc with
      ctx := ctx'
      escaped := false
      type := .none
      state := .ok
      stack := stack
      parseBuffer := []
      parseBufferCapacity := capacity } := by
  refine ⟨events ++ [event], ?_, JsonParser.Reads.plain rfl hcomment ?_ rfl hcapacity ?_⟩
  · rw [Machine.run_append_of_ok _ hrun]
    exact Machine.run_cons_of_ok callback hcall []
  · exact (by decide : JsonState.ok.collected = 0 ∧ JsonState.ok.digits = 0 ∧
      JsonState.ok.phase ≠ .comment)
  · rw [List.map_append, ← List.append_assoc]
    exact hbehind

/-- `}` and `]` -/
theorem Pushed.close {c : UInt8} {jc' : JsonParser σ} (h : Pushed jc told c jc')
    (hstate : jc.state ∈ [JsonState.ok, .ze, .it, .fr, .e3, .fx, .ar])
    (hA : IsLiteral jc.type → A) {event : JsonEvent} {mode : JsonMode}
    (hclose : ∀ rest told', Behind (mode :: rest) told' → Behind rest (told' ++ [event.token])) :
    Meets (do
        let jc ← jc'.parseBufferPopBackChar
        let jc ← jc.parseParseBuffer callback
        let jc ← jc.deliver callback event
        let jc ← jc.pop mode
        return { jc with type := .none, state := .ok })
      (GoesOn callback jc told) (AbortsOnly A) := by
  rw [← bind_assoc]
  refine (h.deliver hstate hA).bind ?_
  rintro jc₁ ⟨ctx, capacity, events, hrun, hbehind, hcapacity, rfl⟩
  refine (deliver_meets event).bind ?_
  rintro jc₂ ⟨ctx', hcall, rfl⟩
  refine (pop_meets mode).bind ?_
  rintro jc₃ ⟨rest, hstack, rfl⟩
  change jc.stack = mode :: rest at hstack
  rw [hstack] at hbehind
  exact goesOn_behind h.comment hrun hcall hcapacity (hclose rest _ hbehind)

/-- `{` and `[` -/
theorem Pushed.open {c : UInt8} {jc' : JsonParser σ} (h : Pushed jc told c jc')
    (hstate : jc.state ∈ [JsonState.go, .va, .ar]) {event : JsonEvent} {mode : JsonMode}
    {state : JsonState}
    (hrest : state.collected = 0 ∧ state.digits = 0 ∧ state.phase ≠ .comment)
    (hadmits : state.admits .none)
    (hopen : ∀ levels, Context levels told →
      Stands state.phase .none (mode :: modesOf levels) (told ++ [event.token])) :
    Meets (do
        let jc ← jc'.parseBufferPopBackChar
        let jc ← jc.deliver callback event
        let jc ← jc.push mode
        jsonAssert (jc.type = .none)
        return { jc with state := state })
      (GoesOn callback jc told) (AbortsOnly A) := by
  obtain ⟨hnone, levels, hstack, hcontext⟩ :
      jc.type = .none ∧ ∃ levels, jc.stack = modesOf levels ∧ Context levels told := by
    have htype := h.reads.type
    have hstands := h.stands
    by_cases hgo : jc.state = .go
    · rw [hgo] at htype hstands
      obtain ⟨hstack, rfl⟩ := hstands
      exact ⟨of_decide_eq_true htype, [], hstack, .top⟩
    · have hvalue : jc.state ∈ [JsonState.va, .ar] := (List.mem_cons.1 hstate).resolve_left hgo
      obtain ⟨hnone, level, levels, hstack, hcontext⟩ := h.value hvalue
      exact ⟨hnone, level :: levels, hstack, hcontext⟩
  obtain ⟨capacity, hroom, rfl⟩ := h.eq
  refine (popBackChar_meets _ (length_push _ c)).bind ?_
  rintro jc₁ rfl
  refine (deliver_meets event).bind ?_
  rintro jc₂ ⟨ctx, hcall, rfl⟩
  refine (push_meets mode).bind ?_
  rintro jc₃ rfl
  refine (jsonAssert_meets (show jc.type = .none from hnone)).bind fun _ _ => ?_
  refine ⟨[event], Machine.run_cons_of_ok callback hcall [], JsonParser.Reads.plain rfl h.comment
    hrest ?_ ?_ ?_⟩
  · change state.admits jc.type
    rwa [hnone]
  · change (jc.parseBuffer ++ [c]).dropLast.length < capacity
    rw [List.dropLast_concat]
    exact Nat.lt_of_succ_lt hroom
  · change Stands state.phase jc.type (mode :: jc.stack) _
    rw [hnone, hstack]
    exact hopen levels hcontext

/-- `}` of an empty object -/
theorem Pushed.closeEmpty {c : UInt8} {jc' : JsonParser σ} (h : Pushed jc told c jc')
    (hstate : jc.state = .ob) :
    Meets (do
        let jc ← jc'.parseBufferClear.deliver callback .objectEnd
        let jc ← jc.pop .key
        return { jc with state := .ok })
      (GoesOn callback jc told) (AbortsOnly A) := by
  have htype := h.reads.type
  have hstands := h.stands
  rw [hstate] at htype hstands
  have hnone : jc.type = .none := of_decide_eq_true htype
  obtain ⟨capacity, hroom, rfl⟩ := h.eq
  refine (deliver_meets .objectEnd).bind ?_
  rintro jc₁ ⟨ctx, hcall, rfl⟩
  refine (pop_meets .key).bind ?_
  rintro jc₂ ⟨rest, hstack, rfl⟩
  change jc.stack = .key :: rest at hstack
  rw [hstack] at hstands
  have hbehind : Behind rest (told ++ [JsonEvent.objectEnd.token]) := AtKey.endObject hstands
  have hend : GoesOn callback jc told _ :=
    goesOn_behind h.comment rfl hcall (Nat.zero_lt_of_lt hroom)
      (by rwa [List.map_nil, List.append_nil])
  rw [← hnone] at hend
  exact hend

/-- `,` -/
theorem Pushed.comma {c : UInt8} {jc' : JsonParser σ} (h : Pushed jc told c jc')
    (hstate : jc.state ∈ [JsonState.ok, .ze, .it, .fr, .e3, .fx])
    (hA : IsLiteral jc.type → A) :
    Meets (jc'.act callback .m3) (GoesOn callback jc told) (AbortsOnly A) := by
  have hstring : jc.type ≠ .string := by
    intro hstring
    have htype := h.reads.type
    rw [hstring] at htype
    simp only [List.mem_cons, List.not_mem_nil, or_false] at hstate
    rcases hstate with hstate | hstate | hstate | hstate | hstate | hstate <;>
      rw [hstate] at htype <;> exact absurd htype (by decide)
  have hmore : jc.state ∈ [JsonState.ok, .ze, .it, .fr, .e3, .fx] ++ [.ar] :=
    List.mem_append_left _ hstate
  rw [JsonParser.act, ← bind_assoc]
  refine (h.deliver hmore hA).bind ?_
  rintro jc₁ ⟨ctx, capacity, events, hrun, hbehind, hcapacity, rfl⟩
  dsimp only
  split
  · next hhead =>
      refine (pop_meets .object).bind ?_
      rintro jc₂ ⟨rest, hstack, rfl⟩
      change jc.stack = .object :: rest at hstack
      rw [hstack] at hbehind
      refine (push_meets .key).bind ?_
      rintro jc₃ rfl
      refine (jsonAssert_meets (show jc.type ≠ .string from hstring)).bind fun _ _ => ?_
      exact ⟨events, hrun, JsonParser.Reads.plain rfl h.comment
        ⟨rfl, rfl, by simp [JsonState.phase]⟩ rfl hcapacity hbehind.nextMember⟩
  · next hhead =>
      obtain ⟨rest, hstack⟩ : ∃ rest, jc.stack = .array :: rest := by
        cases hjc : jc.stack with
        | nil =>
            rw [hjc] at hhead
            exact absurd hhead (by simp)
        | cons top rest =>
            rw [hjc] at hhead
            exact ⟨rest, by rw [Option.some.inj hhead]⟩
      rw [hstack] at hbehind
      refine (jsonAssert_meets (show jc.type ≠ .string from hstring)).bind fun _ _ => ?_
      refine ⟨events, hrun, JsonParser.Reads.plain rfl h.comment
        ⟨rfl, rfl, by simp [JsonState.phase]⟩ rfl hcapacity ?_⟩
      change Enclosed jc.stack _
      rw [hstack]
      exact hbehind.nextItem
  · exact rejected_meets

/-- `:` -/
theorem Pushed.colon {c : UInt8} {jc' : JsonParser σ} (h : Pushed jc told c jc')
    (hstate : jc.state = .co) :
    Meets (jc'.act callback .m2) (GoesOn callback jc told) (AbortsOnly A) := by
  have htype := h.reads.type
  have hstands := h.stands
  rw [hstate] at htype hstands
  have hnone : jc.type = .none := of_decide_eq_true htype
  obtain ⟨levels, k, told', hlevels, hkeyed, rfl⟩ := hstands
  obtain ⟨capacity, hroom, rfl⟩ := h.eq
  rw [JsonParser.act]
  refine (popBackChar_meets _ (length_push _ c)).bind ?_
  rintro jc₁ rfl
  refine (pop_meets .key).bind ?_
  rintro jc₂ ⟨rest, hstack, rfl⟩
  change jc.stack = .key :: rest at hstack
  obtain rfl : rest = modesOf levels := (List.cons.inj (hstack.symm.trans hlevels)).2
  refine (push_meets .object).bind ?_
  rintro jc₃ rfl
  refine (jsonAssert_meets (show jc.type = .none from hnone)).bind fun _ _ => ?_
  refine GoesOn.quiet rfl (JsonParser.Reads.plain rfl h.comment
    ⟨rfl, rfl, by simp [JsonState.phase]⟩ ?_ ?_ ?_)
  · exact decide_eq_true hnone
  · change (jc.parseBuffer ++ [c]).dropLast.length < capacity
    rw [List.dropLast_concat]
    exact Nat.lt_of_succ_lt hroom
  · exact ⟨.member, levels, rfl, hkeyed.key k⟩

/-- The quote behind a string. -/
theorem Pushed.quote {c : UInt8} {jc' : JsonParser σ} (h : Pushed jc told c jc')
    (hstate : jc.state = .st) :
    Meets (jc'.act callback .m4) (GoesOn callback jc told) (AbortsOnly A) := by
  have hstands := h.stands
  rw [hstate] at hstands
  have hstring : jc.type = .string := h.reads.type_of_string (by rw [hstate]; rfl)
  have hliteral : ¬ IsLiteral jc.type := by rw [hstring]; decide
  obtain ⟨capacity, hroom, rfl⟩ := h.eq
  rw [JsonParser.act]
  refine (popBackChar_meets _ (length_push _ c)).bind ?_
  rintro jc₁ rfl
  dsimp only
  -- the value of a string where a value can stand
  have hvalue : (∀ rest, jc.stack ≠ .key :: rest) →
      Meets (do
          jsonAssert (jc.type = .string)
          let jc ← JsonParser.parseParseBuffer callback { jc with
            escaped := false
            parseBuffer := (jc.parseBuffer ++ [c]).dropLast
            parseBufferCapacity := capacity }
          return { jc with type := .none, state := .ok })
        (GoesOn callback jc told) (AbortsOnly A) := by
    intro hkey
    have henclosed : Enclosed jc.stack told := by
      rcases hstands with henclosed | ⟨levels, hstack, -⟩
      · exact henclosed
      · exact absurd hstack (hkey _)
    refine (jsonAssert_meets hstring).bind fun _ _ => ?_
    refine (parseParseBuffer_meets { jc with
      escaped := false
      parseBuffer := (jc.parseBuffer ++ [c]).dropLast
      parseBufferCapacity := capacity } fun hA => absurd hA hliteral).bind ?_
    rintro jc₂ ⟨-, ctx, hrun, rfl⟩
    refine ⟨_, hrun, JsonParser.Reads.plain rfl h.comment ⟨rfl, rfl, by simp [JsonState.phase]⟩ rfl
      (Nat.zero_lt_of_lt hroom) ?_⟩
    dsimp only
    rw [hstring]
    exact @Enclosed.behind _ _ henclosed (.string _) rfl
  split
  · next hhead =>
      refine (jsonAssert_meets (show jc.type = .string from hstring)).bind fun _ _ => ?_
      refine (deliver_meets _).bind ?_
      rintro jc₂ ⟨ctx, hcall, rfl⟩
      obtain ⟨levels, hstack, hkeyed⟩ : AtKey jc.stack told := by
        rcases hstands with ⟨level, levels, hstack, -⟩ | hkey
        · rw [hstack] at hhead
          cases level <;> exact absurd hhead (by simp [modesOf])
        · exact hkey
      refine ⟨[.key _], Machine.run_cons_of_ok callback hcall [], JsonParser.Reads.plain rfl
        h.comment ⟨rfl, rfl, by simp [JsonState.phase, JsonParser.parseBufferClear]⟩ rfl
        (Nat.zero_lt_of_lt hroom) ?_⟩
      exact ⟨levels, _, told, hstack, hkeyed, rfl⟩
  · next hhead =>
      refine hvalue fun rest hstack => ?_
      rw [hstack] at hhead
      exact absurd hhead (by simp)
  · next hhead =>
      refine hvalue fun rest hstack => ?_
      rw [hstack] at hhead
      exact absurd hhead (by simp)
  · exact rejected_meets

/-- A backslash in a string. -/
theorem Pushed.escape {c : UInt8} {jc' : JsonParser σ} (h : Pushed jc told c jc')
    (hstate : jc.state = .st) :
    GoesOn callback jc told { jc' with escaped := true, state := .es } := by
  have hstands := h.stands
  rw [hstate] at hstands
  have hstring : jc.type = .string := h.reads.type_of_string (by rw [hstate]; rfl)
  obtain ⟨capacity, hroom, rfl⟩ := h.eq
  refine GoesOn.quiet rfl
    { type := decide_eq_true hstring
      escaped := iff_of_true rfl rfl
      comment := ?_
      room := ?_
      collected := length_push _ c
      digits := ?_
      resumes := fun hcom => absurd (h.comment.symm.trans hcom) Bool.false_ne_true
      stands := ?_ }
  · exact iff_of_false (fun hcom => absurd (h.comment.symm.trans hcom) Bool.false_ne_true)
      (by simp [JsonState.phase])
  · exact Nat.lt_of_le_of_lt (Nat.le_of_eq List.length_append) hroom
  · intro c' hc
    change c' ∈ (jc.parseBuffer ++ [c]).drop ((jc.parseBuffer ++ [c]).length - 0) at hc
    rw [Nat.sub_zero, List.drop_length] at hc
    exact absurd hc List.not_mem_nil
  · change Stands (if jc.comment then _ else JsonState.es).phase jc.type jc.stack told
    rw [h.comment]
    exact hstands

/-- The last digit of an escape. -/
theorem Pushed.unicode {c : UInt8} {jc' : JsonParser σ} (h : Pushed jc told c jc')
    (hstate : jc.state = .u4) (hhex : JsonParser.hexDigit c < 16) :
    Meets (jc'.act callback .uc) (GoesOn callback jc told) (AbortsOnly A) := by
  have hstands := h.stands
  have hcollected := h.reads.collected
  have hdigits := h.reads.digits
  rw [hstate] at hstands hcollected hdigits
  have hstring : jc.type = .string := h.reads.type_of_string (by rw [hstate]; rfl)
  obtain ⟨capacity, hroom, rfl⟩ := h.eq
  rw [JsonParser.act]
  refine (decodeUnicodeChar_meets ?_ ?_).bind ?_
  · change 6 ≤ (jc.parseBuffer ++ [c]).length
    rw [List.length_append]
    exact Nat.succ_le_succ hcollected
  · intro c' hc
    rcases mem_drop_concat (d := 3) (Nat.le_refl 4) (by decide) hc with hmem | rfl
    · exact hdigits c' hmem
    · exact hhex
  · rintro jc₁ ⟨buffer, half, hshorter, rfl⟩
    have hbuffer : buffer.length < capacity := by
      rw [List.length_append] at hshorter
      exact Nat.lt_trans hshorter hroom
    refine GoesOn.quiet rfl (JsonParser.Reads.plain rfl h.comment ?_ ?_ hbuffer ?_)
    all_goals dsimp only
    · split <;> exact ⟨rfl, rfl, by simp [JsonState.phase]⟩
    · split <;> exact decide_eq_true hstring
    · split <;> exact hstands

/-- The parser in a comment, behind what waited in front of it. -/
theorem goesOn_comment {ctx : σ} {capacity : Nat} {events : List JsonEvent} {before : JsonState}
    (hrun : Machine.run callback events jc.ctx = .ok ctx) (hcapacity : 0 < capacity)
    (hresumable : before.resumable)
    (hstands : Stands before.phase .none jc.stack (told ++ events.map JsonEvent.token)) :
    GoesOn callback jc told { jc with
      ctx := ctx
      beforeCommentState := before
      type := .none
      state := .c1
      escaped := false
      comment := true
      parseBuffer := []
      parseBufferCapacity := capacity } :=
  ⟨events, hrun,
    { type := rfl
      escaped := iff_of_false Bool.false_ne_true (by simp)
      comment := iff_of_true rfl rfl
      room := hcapacity
      collected := Nat.zero_le _
      digits := fun _ hc => absurd hc (by simp)
      resumes := fun _ => ⟨hresumable, rfl⟩
      stands := hstands }⟩

/-- The head of the stack where a value is read. -/
theorem Enclosed.head? {stack : List JsonMode} (h : Enclosed stack told) :
    stack.head? = some .array ∨ stack.head? = some .object := by
  obtain ⟨level, levels, rfl, -⟩ := h
  cases level
  · exact .inl rfl
  · exact .inr rfl

/-- What the source says about the state behind a comment. -/
def resumedState (state : JsonState) (stack : List JsonMode) : JsonState :=
  match stack.head? with
  | some .array | some .object => if state = .va ∨ state = .ar then state else .ok
  | _ => state

theorem resumedState_ok (stack : List JsonMode) : resumedState .ok stack = .ok := by
  unfold resumedState
  split <;> rfl

theorem resumedState_enclosed {state : JsonState} {stack : List JsonMode}
    (h : Enclosed stack told) :
    resumedState state stack = if state = .va ∨ state = .ar then state else .ok := by
  unfold resumedState
  rcases h.head? with hhead | hhead <;> rw [hhead]

theorem resumedState_atKey {state : JsonState} {levels : List Level} :
    resumedState state (.key :: modesOf levels) = state := rfl

/-- What waited is delivered in front of the comment, and the place is as it was. -/
theorem Pushed.resumed {c : UInt8} {jc' : JsonParser σ} (h : Pushed jc told c jc')
    (hstate : jc.state ∈ [JsonState.go, .ok, .ob, .ke, .co, .va, .ar, .ze, .it, .fr, .t3, .f4, .n3])
    (hliteral : ¬ IsLiteral jc.type) (buffer : List UInt8) :
    jc.type ≠ .string ∧ (resumedState jc.state jc.stack).resumable = true ∧
      Stands (resumedState jc.state jc.stack).phase .none jc.stack
        (told ++ (pendingEvents jc.type buffer).map JsonEvent.token) := by
  have htype := h.reads.type
  have hstands := h.stands
  have hnothing : told ++ (pendingEvents .none buffer).map JsonEvent.token = told :=
    List.append_nil told
  cases hjc : jc.state with
  | go =>
      rw [hjc] at htype hstands
      obtain ⟨hstack, htold⟩ := hstands
      rw [show jc.type = .none from of_decide_eq_true htype, hnothing, hstack]
      exact ⟨by decide, rfl, rfl, htold⟩
  | ok =>
      rw [hjc] at htype hstands
      rw [resumedState_ok]
      refine ⟨of_decide_eq_true htype, rfl, ?_⟩
      by_cases hnone : jc.type = .none
      · rw [hnone, hnothing]
        exact (if_pos hnone).mp hstands
      · exact Enclosed.pending ((if_neg hnone).mp hstands) hnone hliteral buffer
  | ob | ke =>
      rw [hjc] at htype hstands
      obtain ⟨levels, hstack, hkeyed⟩ := hstands
      rw [show jc.type = .none from of_decide_eq_true htype, hnothing, hstack,
        resumedState_atKey]
      exact ⟨by decide, rfl, levels, rfl, hkeyed⟩
  | co =>
      rw [hjc] at htype hstands
      obtain ⟨levels, k, told', hstack, hkeyed, htold⟩ := hstands
      rw [show jc.type = .none from of_decide_eq_true htype, hnothing, hstack,
        resumedState_atKey]
      exact ⟨by decide, rfl, levels, k, told', rfl, hkeyed, htold⟩
  | va =>
      rw [hjc] at htype hstands
      rw [show jc.type = .none from of_decide_eq_true htype, hnothing,
        resumedState_enclosed hstands]
      exact ⟨by decide, rfl, hstands⟩
  | ar =>
      rw [hjc] at htype hstands
      obtain ⟨levels, hstack, hcontext⟩ := hstands
      rw [show jc.type = .none from of_decide_eq_true htype, hnothing, hstack]
      exact ⟨by decide, rfl, levels, rfl, hcontext⟩
  | ze | it =>
      rw [hjc] at htype hstands
      have hinteger : jc.type = .integer := of_decide_eq_true htype
      rw [resumedState_enclosed hstands, hinteger]
      exact ⟨by decide, rfl, Enclosed.pending hstands (by decide) (by decide) buffer⟩
  | fr =>
      rw [hjc] at htype hstands
      have hfloat : jc.type = .float := of_decide_eq_true htype
      rw [resumedState_enclosed hstands, hfloat]
      exact ⟨by decide, rfl, Enclosed.pending hstands (by decide) (by decide) buffer⟩
  | t3 | f4 | n3 =>
      rw [hjc] at htype
      rw [of_decide_eq_true htype] at hliteral
      exact absurd (by decide) hliteral
  | _ =>
      rw [hjc] at hstate
      exact absurd hstate (by decide)

/-- A comment begins. -/
theorem Pushed.commentBegin {c : UInt8} {jc' : JsonParser σ} (h : Pushed jc told c jc')
    (hstate : jc.state ∈ [JsonState.go, .ok, .ob, .ke, .co, .va, .ar, .ze, .it, .fr, .t3, .f4, .n3])
    (hA : IsLiteral jc.type → jc.allowComments = true → A) :
    Meets (jc'.act callback .cb) (GoesOn callback jc told) (AbortsOnly A) := by
  have heq := h.eq
  obtain ⟨capacity, hroom, rfl⟩ := heq
  rw [JsonParser.act]
  split
  · next hallow =>
      refine (popBackChar_meets _ (length_push _ c)).bind ?_
      rintro jc₁ rfl
      refine (parseParseBuffer_meets { jc with
        escaped := false
        parseBuffer := (jc.parseBuffer ++ [c]).dropLast
        parseBufferCapacity := capacity } fun hliteral => hA hliteral hallow).bind ?_
      rintro jc₂ ⟨hliteral, ctx, hrun, rfl⟩
      change ¬ IsLiteral jc.type at hliteral
      obtain ⟨hstring, hresumed⟩ := h.resumed hstate hliteral (jc.parseBuffer ++ [c]).dropLast
      refine (jsonAssert_meets rfl).bind fun _ _ => ?_
      refine (jsonAssert_meets (show jc.type ≠ .string from hstring)).bind fun _ _ => ?_
      exact goesOn_comment hrun (Nat.zero_lt_of_lt hroom) hresumed.1 hresumed.2
  · exact rejected_meets

/-- A comment ends. -/
theorem JsonParser.Reads.commentEnd (h : jc.Reads told) (hstate : jc.state = .c3)
    {capacity : Nat} (hroom : jc.parseBuffer.length < capacity) :
    Meets ({ jc with escaped := false, parseBufferCapacity := capacity }.act callback .ce)
      (GoesOn callback jc told) (AbortsOnly A) := by
  have hcomment := h.comment.2 (by rw [hstate]; rfl)
  obtain ⟨hresumable, hempty⟩ := h.resumes hcomment
  have htype := h.type
  have hstands := h.stands
  rw [hstate] at htype
  have hnone : jc.type = .none := of_decide_eq_true htype
  rw [hcomment] at hstands
  rw [JsonParser.act]
  refine (jsonAssert_meets (show jc.parseBuffer.length = 0 by rw [hempty]; rfl)).bind fun _ _ => ?_
  refine (jsonAssert_meets (show jc.type = .none from hnone)).bind fun _ _ => ?_
  have hrest : jc.beforeCommentState.collected = 0 ∧ jc.beforeCommentState.digits = 0 ∧
      jc.beforeCommentState.phase ≠ .comment ∧ jc.beforeCommentState.admits .none := by
    cases hbefore : jc.beforeCommentState <;> rw [hbefore] at hresumable <;>
      first | decide | exact absurd hresumable (by decide)
  refine GoesOn.quiet rfl (JsonParser.Reads.plain rfl rfl ⟨hrest.1, hrest.2.1, hrest.2.2.1⟩ ?_
    hroom hstands)
  change jc.beforeCommentState.admits jc.type
  rw [hnone]
  exact hrest.2.2.2

end Characters

end Burrow.Http
