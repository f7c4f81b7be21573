import Burrow.Http.JsonActions

/-!
# What the JSON parser tells, and where it ends the process

What the callback is called with is a part of one value, and all of it where the parser is done
(`delivered_nested`). No assertion fails but the one in `parse_parse_buffer` for a literal: the
process is ended by the character that delivers `true`, `false` or `null`, and by no other
(`aborts_iff`).
-/

set_option autoImplicit false

namespace Burrow.Http

open Nesting Outcome

variable {σ : Type} {malloc : Nat → Bool} {callback : JsonEvent → σ → Except JsonStop σ}
  {jc : JsonParser σ} {told : List JsonToken}

/-! ## One character -/

/-- The character has a literal delivered. -/
def JsonParser.EndsLiteral (jc : JsonParser σ) (nextChar : Int) : Prop :=
  IsLiteral jc.type ∧
    (jc.state = .ok ∧ nextChar ∈ [(44 : Int), 93, 125] ∨
      jc.allowComments = true ∧ jc.state ∈ [JsonState.ok, .t3, .f4, .n3] ∧ nextChar = 47)

instance (jc : JsonParser σ) (nextChar : Int) : Decidable (jc.EndsLiteral nextChar) :=
  inferInstanceAs (Decidable (_ ∧ _))

/-- A literal that waits has been read as far as there are letters. -/
theorem JsonParser.Reads.state_of_literal (h : jc.Reads told)
    (hstate : jc.state ∈ [JsonState.ok, .ze, .it, .fr, .e3, .fx, .ar])
    (hliteral : IsLiteral jc.type) : jc.state = .ok := by
  have htype := h.type
  simp only [List.mem_cons, List.not_mem_nil, or_false] at hstate
  rcases hstate with hstate | hstate | hstate | hstate | hstate | hstate | hstate
  · exact hstate
  all_goals
    rw [hstate] at htype
    rw [show jc.type = _ from of_decide_eq_true htype] at hliteral
    exact absurd hliteral (by decide)

theorem JsonParser.Reads.state_of_comment (h : jc.Reads told)
    (hstate : jc.state ∈
      [JsonState.go, .ok, .ob, .ke, .co, .va, .ar, .ze, .it, .fr, .t3, .f4, .n3])
    (hliteral : IsLiteral jc.type) : jc.state ∈ [JsonState.ok, .t3, .f4, .n3] := by
  have htype := h.type
  cases hjc : jc.state with
  | ok | t3 | f4 | n3 => simp
  | go | ob | ke | co | va | ar | ze | it | fr =>
      rw [hjc] at htype
      rw [show jc.type = _ from of_decide_eq_true htype] at hliteral
      exact absurd hliteral (by decide)
  | _ =>
      rw [hjc] at hstate
      exact absurd hstate (by decide)

section Act

variable {nextChar : Int} {nextClass : JsonClass} {jc' : JsonParser σ}

/-- The bytes of which the table has an action for literals. -/
theorem comma_of_index : ∀ m < 128, ∀ nextClass ∈ asciiClass.getD m none,
    nextClass.ctorIdx = 7 → m = 44 := by decide +kernel

theorem rsqrb_of_index : ∀ m < 128, ∀ nextClass ∈ asciiClass.getD m none,
    nextClass.ctorIdx = 5 → m = 93 := by decide +kernel

theorem rcurb_of_index : ∀ m < 128, ∀ nextClass ∈ asciiClass.getD m none,
    nextClass.ctorIdx = 3 → m = 125 := by decide +kernel

theorem slash_of_index : ∀ m < 128, ∀ nextClass ∈ asciiClass.getD m none,
    nextClass.ctorIdx = 10 → m = 47 := by decide +kernel

theorem point_of_index : ∀ m < 128, ∀ nextClass ∈ asciiClass.getD m none,
    nextClass.ctorIdx = 13 → m = 46 := by decide +kernel

/-- **An action** keeps the invariant, and its assertions hold. -/
theorem Pushed.act (h : Pushed jc told (UInt8.ofNat nextChar.toNat) jc') (hsign : ¬ nextChar < 0)
    (hclass : characterClass nextChar = some nextClass) {action : JsonAction}
    (htable : stateTransitionTable jc.state nextClass = .action action) (hce : action ≠ .ce) :
    Meets (jc'.act callback action) (GoesOn callback jc told)
      (AbortsOnly (jc.EndsLiteral nextChar)) := by
  have hentry := table_entryOk jc.state nextClass
  rw [htable] at hentry
  obtain ⟨hstate, hindex⟩ := hentry
  have hdelivers : ∀ {index n : Nat}, nextClass.ctorIdx = index →
      (∀ m < 128, ∀ nextClass ∈ asciiClass.getD m none, nextClass.ctorIdx = index → m = n) →
      (n : Int) ∈ [(44 : Int), 93, 125] → index ≠ JsonClass.etc.ctorIdx →
      jc.state ∈ [JsonState.ok, .ze, .it, .fr, .e3, .fx, .ar] → IsLiteral jc.type →
      jc.EndsLiteral nextChar := by
    intro index n hindex hone hmem hetc hstate hliteral
    rw [← char_of_class hsign hclass hindex hetc hone] at hmem
    exact ⟨hliteral, .inl ⟨h.reads.state_of_literal hstate hliteral, hmem⟩⟩
  have hmore : ∀ state ∈ JsonAction.m8.entry.1, state ∈ JsonAction.m7.entry.1 := by decide
  cases action with
  | uc =>
      apply h.unicode (List.mem_singleton.1 hstate)
      exact hexDigit_of_class hclass hindex
  | ex => exact h.escape (List.mem_singleton.1 hstate)
  | mx | zx | ix => exact h.scalar hstate rfl rfl
  | de =>
      have hgoes : jc.type = .integer ∧
          GoesOn callback jc told { jc' with type := .float, state := .e1 } :=
        h.float (List.mem_cons_of_mem _ hstate) rfl rfl rfl
      obtain ⟨capacity, hroom, rfl⟩ := h.eq
      rw [JsonParser.act]
      refine (jsonAssert_meets ?_).bind fun _ _ => hgoes.2
      dsimp only
      rw [hgoes.1]
      decide
  | df =>
      have hgoes : ∀ buffer : List UInt8, buffer.length = jc'.parseBuffer.length →
          jc.type = .integer ∧ GoesOn callback jc told
            { jc' with parseBuffer := buffer, type := .float, state := .fx } :=
        fun buffer hbuffer => h.float hstate hbuffer rfl rfl
      have hpoint := char_of_class hsign hclass (of_decide_eq_true hindex) (by decide)
        point_of_index
      obtain ⟨capacity, hroom, rfl⟩ := h.eq
      rw [JsonParser.act]
      refine (jsonAssert_meets ?_).bind fun _ _ => ?_
      · dsimp only
        rw [(hgoes _ rfl).1]
        decide
      split
      · exact (hgoes _ rfl).2
      · refine (jsonAssert_meets ?_).bind fun _ _ => (hgoes _ ?_).2
        · dsimp only
          rw [List.getLast?_concat, hpoint]
          rfl
        · dsimp only
          rw [List.dropLast_concat, List.length_append, List.length_append]
          rfl
  | sb =>
      obtain ⟨hnone, hgoes⟩ : jc.type = .none ∧ GoesOn callback jc told _ := h.string hstate
      obtain ⟨capacity, hroom, rfl⟩ := h.eq
      rw [JsonParser.act]
      exact (jsonAssert_meets (show jc.type = .none from hnone)).bind fun _ _ => hgoes
  | nu | fa | tr =>
      have hnone := (h.value hstate).1
      have hgoes : ∀ {type : JsonType} {state : JsonState}, state.phase = .scalar →
          state.admits type → GoesOn callback jc told { jc' with type := type, state := state } :=
        h.scalar hstate
      obtain ⟨capacity, hroom, rfl⟩ := h.eq
      rw [JsonParser.act]
      exact (jsonAssert_meets (show jc.type = .none from hnone)).bind fun _ _ => hgoes rfl rfl
  | ce => exact absurd rfl hce
  | cb =>
      apply h.commentBegin hstate
      intro hliteral hallow
      refine ⟨hliteral, .inr ⟨hallow, h.reads.state_of_comment hstate hliteral, ?_⟩⟩
      exact char_of_class hsign hclass (of_decide_eq_true hindex) (by decide) slash_of_index
  | m9 => exact h.closeEmpty (List.mem_singleton.1 hstate)
  | m8 =>
      apply h.close (hmore _ hstate)
      · exact hdelivers (of_decide_eq_true hindex) rcurb_of_index (by decide) (by decide)
          (hmore _ hstate)
      · exact fun rest told' => Behind.endObject
  | m7 =>
      apply h.close hstate
      · exact hdelivers (of_decide_eq_true hindex) rsqrb_of_index (by decide) (by decide) hstate
      · exact fun rest told' => Behind.endArray
  | m6 =>
      apply h.open hstate ⟨rfl, rfl, by decide⟩ rfl
      exact fun levels hcontext => ⟨levels, rfl, hcontext.beginObject⟩
  | m5 =>
      apply h.open hstate ⟨rfl, rfl, by decide⟩ rfl
      exact fun levels hcontext => ⟨levels, rfl, hcontext.beginArray⟩
  | m4 => exact h.quote (List.mem_singleton.1 hstate)
  | m3 =>
      apply h.comma hstate
      exact hdelivers (of_decide_eq_true hindex) comma_of_index (by decide) (by decide)
        (hmore _ hstate)
  | m2 => exact h.colon (List.mem_singleton.1 hstate)

/-- No action is for white space, or where an escape or a comment is read. -/
theorem entry_plain : ∀ action : JsonAction, action ≠ .ce →
    (∀ state ∈ action.entry.1, state.phase ≠ .comment ∧ state ≠ .es) ∧
      action.entry.2 0 = false ∧ action.entry.2 1 = false := by
  intro action hce
  cases action <;> first | decide | exact absurd rfl hce

/-- **A character**, whichever it is. -/
theorem JsonParser.Reads.char (h : jc.Reads told) (nextChar : Int) :
    Meets (jsonParserChar malloc callback nextChar jc) (GoesOn callback jc told)
      (AbortsOnly (jc.EndsLiteral nextChar)) := by
  rw [jsonParserChar]
  split
  · exact rejected_meets
  next hsign =>
  cases hclass : characterClass nextChar with
  | none => exact rejected_meets
  | some nextClass =>
      refine (addChar_meets h nextChar nextClass).bind ?_
      rintro jc' ⟨buffer, capacity, hbuffer, hroom, rfl⟩
      dsimp only
      have hentry := table_entryOk jc.state nextClass
      cases htable : stateTransitionTable jc.state nextClass with
      | state next =>
          rw [htable] at hentry
          exact GoesOn.quiet rfl (h.pass hsign hclass hbuffer hroom hentry)
      | xx => exact rejected_meets
      | action action =>
          rw [htable] at hentry
          by_cases hce : action = .ce
          · subst hce
            have hstate : jc.state = .c3 := List.mem_singleton.1 hentry.1
            have hescaped := h.escaped_eq_false (by rw [hstate]; decide)
            have hcomment := h.comment.2 (by rw [hstate]; rfl)
            rw [JsonParser.bufferWith, hescaped, hcomment, if_neg Bool.false_ne_true,
              if_pos rfl] at hbuffer
            obtain rfl := Option.some.inj hbuffer
            exact h.commentEnd hstate hroom
          · obtain ⟨hstates, hspace, hwhite⟩ := entry_plain action hce
            obtain ⟨hphase, hes⟩ := hstates jc.state hentry.1
            have hpushed := h.bufferWith_push hphase hes nextChar nextClass (.inr (by
              rintro (rfl | rfl)
              · exact Bool.false_ne_true (hspace.symm.trans hentry.2)
              · exact Bool.false_ne_true (hwhite.symm.trans hentry.2)))
            obtain rfl := Option.some.inj (hbuffer.symm.trans hpushed)
            rw [List.length_append] at hroom
            have hp : Pushed jc told (UInt8.ofNat nextChar.toNat) _ :=
              ⟨h, h.comment_eq_false hphase, capacity, hroom, rfl⟩
            exact hp.act hsign hclass htable hce

/-- Without room for it the character is rejected. -/
theorem char_without_room (hroom : ¬ jc.HasRoom malloc) (nextChar : Int) :
    jsonParserChar malloc callback nextChar jc = .error .rejected := by
  obtain ⟨hspace, hmalloc⟩ := not_or.1 hroom
  have hreserve : jc.parseBufferReserveFor malloc = .error .rejected := by
    rw [JsonParser.parseBufferReserveFor, if_neg hspace, if_neg hmalloc]
  rw [jsonParserChar]
  split
  · rfl
  · cases characterClass nextChar with
    | none => rfl
    | some nextClass =>
        dsimp only
        rw [JsonParser.addCharToParseBuffer, hreserve]
        rfl

/-- A literal is not delivered. -/
theorem parseParseBuffer_literal (h : IsLiteral jc.type) :
    jc.parseParseBuffer callback = .error .aborted := by
  rw [JsonParser.parseParseBuffer]
  rcases h with h | h | h <;> rw [h] <;> rfl

/-- An action that has what waits delivered ends the process for a literal. -/
theorem act_literal (hbuffer : 1 ≤ jc.parseBuffer.length) (hliteral : IsLiteral jc.type)
    {action : JsonAction}
    (haction : action ∈ [JsonAction.m3, .m7, .m8] ∨ action = .cb ∧ jc.allowComments = true) :
    jc.act callback action = .error .aborted := by
  have hpop : jc.parseBufferPopBackChar =
      .ok { jc with parseBuffer := jc.parseBuffer.dropLast } := by
    rw [JsonParser.parseBufferPopBackChar, jsonAssert, if_pos hbuffer]
    rfl
  have habort : { jc with parseBuffer := jc.parseBuffer.dropLast }.parseParseBuffer callback =
      .error .aborted := parseParseBuffer_literal hliteral
  simp only [List.mem_cons, List.not_mem_nil, or_false] at haction
  rcases haction with (rfl | rfl | rfl) | ⟨rfl, hallow⟩
  all_goals rw [JsonParser.act]
  · rw [hpop]
    dsimp only [bind, Except.bind]
    rw [habort]
  · rw [hpop]
    dsimp only [bind, Except.bind]
    rw [habort]
  · rw [hpop]
    dsimp only [bind, Except.bind]
    rw [habort]
  · rw [if_pos hallow, hpop]
    dsimp only [bind, Except.bind]
    rw [habort]

/-- What has a literal delivered ends the process. -/
theorem JsonParser.Reads.char_literal (h : jc.Reads told) (hroom : jc.HasRoom malloc)
    {nextChar : Int} (hends : jc.EndsLiteral nextChar) :
    jsonParserChar malloc callback nextChar jc = .error .aborted := by
  obtain ⟨hliteral, hplace⟩ := hends
  obtain ⟨capacity, hreserve, hspace⟩ := hroom.reserve h.room
  have hstate : jc.state.phase ≠ .comment ∧ jc.state ≠ .es := by
    rcases hplace with ⟨hok, -⟩ | ⟨-, hmem, -⟩
    · rw [hok]
      decide
    · exact (by decide : ∀ state ∈ [JsonState.ok, .t3, .f4, .n3],
        state.phase ≠ .comment ∧ state ≠ .es) jc.state hmem
  have htype : jc.type ≠ .none := by
    intro hnone
    rw [hnone] at hliteral
    exact absurd hliteral (by decide)
  have hescaped := h.escaped_eq_false hstate.2
  have hcomment := h.comment_eq_false hstate.1
  have hadd := JsonParser.addChar_push hreserve (Bool.not_eq_true _ ▸ hescaped)
    (Bool.not_eq_true _ ▸ hcomment) htype hspace nextChar
  have habort : ∀ {nextClass : JsonClass} {action : JsonAction}, ¬ nextChar < 0 →
      characterClass nextChar = some nextClass →
      stateTransitionTable jc.state nextClass = .action action →
      (action ∈ [JsonAction.m3, .m7, .m8] ∨ action = .cb ∧ jc.allowComments = true) →
      jsonParserChar malloc callback nextChar jc = .error .aborted := by
    intro nextClass action hsign hclass htable haction
    rw [jsonParserChar_action hsign hclass (hadd nextClass) htable]
    apply act_literal
    · exact length_push _ _
    · exact hliteral
    · exact haction
  rcases hplace with ⟨hok, hchar⟩ | ⟨hallow, hmem, rfl⟩
  · rw [hok] at habort
    simp only [List.mem_cons, List.not_mem_nil, or_false] at hchar
    rcases hchar with rfl | rfl | rfl
    · exact habort (by decide) rfl rfl (.inl (by decide))
    · exact habort (by decide) rfl rfl (.inl (by decide))
    · exact habort (by decide) rfl rfl (.inl (by decide))
  · have htable : ∀ state ∈ [JsonState.ok, .t3, .f4, .n3],
        stateTransitionTable state .slash = .action .cb := by decide
    exact habort (by decide) rfl (htable jc.state hmem) (.inr ⟨rfl, hallow⟩)

/-- **The assertion for literals** is the one that a character can make fail. -/
theorem JsonParser.Reads.char_aborts_iff (h : jc.Reads told) (nextChar : Int) :
    jsonParserChar malloc callback nextChar jc = .error .aborted ↔
      jc.EndsLiteral nextChar ∧ jc.HasRoom malloc := by
  constructor
  · intro habort
    refine ⟨(h.char nextChar).of_eq_error habort rfl, ?_⟩
    by_contra hroom
    rw [char_without_room hroom] at habort
    exact absurd habort (by simp)
  · intro hends
    exact h.char_literal hends.2 hends.1

end Act

/-! ## Runs -/

/-- The invariant of a run. -/
theorem JsonParser.Reads.run (h : jc.Reads told) {jc' : JsonParser σ} {chars : List Int}
    (hrun : Machine.run (jsonParserChar malloc callback) chars jc = .ok jc') :
    GoesOn callback jc told jc' := by
  induction chars generalizing jc told with
  | nil =>
      cases hrun
      exact GoesOn.quiet rfl h
  | cons nextChar chars ih =>
      obtain ⟨jc₁, hchar, hrest⟩ := Machine.run_cons_ok _ hrun
      obtain ⟨events, hevents, hreads⟩ := (h.char nextChar).of_eq_ok hchar
      obtain ⟨events', hevents', hreads'⟩ := ih hreads hrest
      refine ⟨events ++ events', ?_, ?_⟩
      · rw [Machine.run_append_of_ok callback hevents, hevents']
      · rwa [List.map_append, ← List.append_assoc]

/-- The parser is within one value. -/
theorem JsonParser.Reads.nested (h : jc.Reads told) : ∃ rest, Value (told ++ rest) := by
  have hstands := h.stands
  generalize (if jc.comment then jc.beforeCommentState else jc.state) = state at hstands
  have hcontext : ∀ {levels}, Context levels told → ∃ rest, Value (told ++ rest) := by
    intro levels hcontext
    obtain ⟨rest, hvalue⟩ := hcontext.completes (.scalar .null)
    exact ⟨_, hvalue⟩
  have henclosed : Enclosed jc.stack told → ∃ rest, Value (told ++ rest) :=
    fun ⟨_, _, _, h⟩ => hcontext h
  have hkey : AtKey jc.stack told → ∃ rest, Value (told ++ rest) :=
    fun ⟨_, _, h⟩ => h.completes
  cases hphase : state.phase with
  | start =>
      rw [hphase] at hstands
      rw [hstands.2] at hcontext ⊢
      exact hcontext .top
  | value | scalar =>
      rw [hphase] at hstands
      exact henclosed hstands
  | array =>
      rw [hphase] at hstands
      obtain ⟨levels, -, h⟩ := hstands
      exact hcontext h
  | string =>
      rw [hphase] at hstands
      exact hstands.elim henclosed hkey
  | key =>
      rw [hphase] at hstands
      exact hkey hstands
  | colon =>
      rw [hphase] at hstands
      obtain ⟨levels, k, told', -, hkeyed, rfl⟩ := hstands
      exact hcontext (hkeyed.key k)
  | behind =>
      rw [hphase] at hstands
      by_cases hnone : jc.type = .none
      · obtain ⟨levels, -, h⟩ := (if_pos hnone).mp hstands
        exact h.completes
      · exact henclosed ((if_neg hnone).mp hstands)
  | comment =>
      rw [hphase] at hstands
      exact hstands.elim

/-- At the end the value is complete, if there is one. -/
theorem JsonParser.Reads.done (h : jc.Reads told) (hdone : jsonParserDone jc = true) :
    told = [] ∨ Value told := by
  obtain ⟨hstate, htop⟩ : (jc.state = .ok ∨ jc.state = .go) ∧ jc.stack.head? = some .done := by
    rw [jsonParserDone] at hdone
    exact of_decide_eq_true hdone
  have hstands := h.stands
  rcases hstate with hstate | hstate
  · rw [h.comment_eq_false (by rw [hstate]; decide), hstate] at hstands
    by_cases hnone : jc.type = .none
    · obtain ⟨levels, hstack, hfilled⟩ := (if_pos hnone).mp hstands
      cases hfilled with
      | top hvalue => exact .inr hvalue
      | array hc hi =>
          rw [hstack] at htop
          exact absurd htop (by simp [modesOf])
      | member hc hm =>
          rw [hstack] at htop
          exact absurd htop (by simp [modesOf])
    · have henclosed : Enclosed jc.stack told := (if_neg hnone).mp hstands
      rcases henclosed.head? with hhead | hhead <;> rw [hhead] at htop <;>
        exact absurd htop (by simp)
  · rw [h.comment_eq_false (by rw [hstate]; decide), hstate] at hstands
    exact .inl hstands.2

/-- A callback that keeps what it is called with. -/
def logged (callback : JsonEvent → σ → Except JsonStop σ) (event : JsonEvent)
    (ctx : σ × List JsonEvent) : Except JsonStop (σ × List JsonEvent) :=
  (callback event ctx.1).map fun s => (s, ctx.2 ++ [event])

theorem run_logged {events : List JsonEvent} {ctx ctx' : σ × List JsonEvent}
    (hrun : Machine.run (logged callback) events ctx = .ok ctx') : ctx'.2 = ctx.2 ++ events := by
  induction events generalizing ctx with
  | nil =>
      cases hrun
      rw [List.append_nil]
  | cons event events ih =>
      obtain ⟨ctx₁, hcall, hrest⟩ := Machine.run_cons_ok _ hrun
      have hlog : ctx₁.2 = ctx.2 ++ [event] := by
        rw [logged] at hcall
        cases hresult : callback event ctx.1 with
        | error stop =>
            rw [hresult] at hcall
            exact absurd hcall (by simp [Except.map])
        | ok s =>
            rw [hresult] at hcall
            cases hcall
            rfl
      rw [ih hrest, hlog, List.append_assoc, List.singleton_append]

/-- **What the callback is told.** As long as the characters of a text are accepted, whatever
the callback answers and whether there is memory, the calls so far are the beginning of one
nested value; when the parser is done there were none, or they are one value. -/
theorem delivered_nested (malloc : Nat → Bool) (callback : JsonEvent → σ → Except JsonStop σ)
    {alloc : Bool} {decimalPoint : UInt8} {allowComments handleFloatsManually : Bool} {s : σ}
    {jc jc' : JsonParser (σ × List JsonEvent)}
    (hnew : newJsonParser alloc decimalPoint { depth := 19, allowComments, handleFloatsManually }
      (s, []) = some jc) {text : List Int}
    (hrun : Machine.run (jsonParserChar malloc (logged callback)) text jc = .ok jc') :
    (∃ rest, Value (jc'.ctx.2.map JsonEvent.token ++ rest)) ∧
      (jsonParserDone jc' = true →
        jc'.ctx.2 = [] ∨ Value (jc'.ctx.2.map JsonEvent.token)) := by
  obtain ⟨events, hevents, hreads⟩ := (newJsonParser_reads hnew).run hrun
  have hlog : jc'.ctx.2 = events := by
    have hctx : jc.ctx = (s, []) := by
      rw [newJsonParser] at hnew
      split at hnew
      · cases hnew
        rfl
      · exact absurd hnew (by simp)
    rw [run_logged hevents, hctx, List.nil_append]
  rw [hlog]
  refine ⟨hreads.nested, fun hdone => ?_⟩
  exact (hreads.done hdone).imp_left fun hnil => List.map_eq_nil_iff.1 hnil

/-- `[{"k":7}]` -/
theorem delivered_nested_item :
    Value ([JsonEvent.arrayBegin, .objectBegin, .key [107], .integer 7, .objectEnd,
      .arrayEnd].map JsonEvent.token) :=
  have hdelivered := @delivered_nested Unit (fun _ => true) (fun _ s => .ok s) true 46 true
    false () _ _ rfl
    [91, 123, 34, 107, 34, 58, 55, 125, 93] rfl
  (hdelivered.2 rfl).resolve_left (by decide)

/-- **What ends the process.** Of all assertions of the parser only the one in
`parse_parse_buffer` can fail, and it does just where a character follows `true`, `false` or
`null` that has what waits delivered: `,`, `]` or `}`, or the `/` of a comment. -/
theorem aborts_iff (malloc : Nat → Bool) (callback : JsonEvent → σ → Except JsonStop σ)
    {alloc : Bool} {decimalPoint : UInt8} {allowComments handleFloatsManually : Bool} {s : σ}
    {jc : JsonParser σ}
    (hnew : newJsonParser alloc decimalPoint { depth := 19, allowComments, handleFloatsManually }
      s = some jc) (text : List Int) :
    Machine.run (jsonParserChar malloc callback) text jc = .error .aborted ↔
      ∃ done nextChar rest jc', text = done ++ nextChar :: rest ∧
        Machine.run (jsonParserChar malloc callback) done jc = .ok jc' ∧
        jc'.EndsLiteral nextChar ∧ jc'.HasRoom malloc := by
  have hreads := newJsonParser_reads hnew
  rw [Machine.run_error_iff]
  constructor
  · rintro ⟨done, nextChar, rest, jc', rfl, hdone, habort⟩
    obtain ⟨events, -, hreads'⟩ := hreads.run hdone
    exact ⟨done, nextChar, rest, jc', rfl, hdone, (hreads'.char_aborts_iff nextChar).1 habort⟩
  · rintro ⟨done, nextChar, rest, jc', rfl, hdone, hends⟩
    obtain ⟨events, -, hreads'⟩ := hreads.run hdone
    exact ⟨done, nextChar, rest, jc', rfl, hdone, (hreads'.char_aborts_iff nextChar).2 hends⟩

/-- `[true]` -/
theorem aborts_at_bracket :
    Machine.run (jsonParserChar (fun _ => true) fun _ (s : Unit) => .ok s)
      [91, 116, 114, 117, 101, 93]
      { ctx := ()
        state := .go
        beforeCommentState := .go
        type := .none
        escaped := false
        comment := false
        allowComments := true
        handleFloatsManually := false
        decimalPoint := 46
        utf16HighSurrogate := 0
        depth := 19
        stack := [.done]
        parseBuffer := []
        parseBufferCapacity := 3500 } = .error .aborted :=
  (@aborts_iff Unit (fun _ => true) (fun _ s => .ok s) true 46 true false () _ rfl _).2
      ⟨[91, 116, 114, 117, 101], 93, [], _, rfl, rfl, by decide, .inl (by decide)⟩

end Burrow.Http
