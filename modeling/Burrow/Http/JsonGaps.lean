import Burrow.Http.JsonReading

/-!
# White space, comments and what follows a value

Where white space can stand, the parser skips gaps; behind a value what waits is delivered by a
comment, or by the comma, bracket or brace behind the gap.
-/

set_option autoImplicit false

namespace Burrow.Http

section Gaps

variable {σ : Type} {malloc : Nat → Bool} {callback : JsonEvent → σ → Except JsonStop σ}
  {jc : JsonParser σ} {state before : JsonState} {type : JsonType} {stack : List JsonMode}
  {buffer : List UInt8} {c : UInt8} {pending : List JsonEvent}

theorem class_of_space (h : IsSpace c) :
    ∃ nextClass, characterClass (byteValue c) = some nextClass ∧
      (nextClass = .space ∨ nextClass = .white) := by
  have hall : [(32 : UInt8), 9, 10, 13].all (fun c => (characterClass (byteValue c)).any
      (fun nextClass => nextClass = .space ∨ nextClass = .white)) = true := by decide
  have hc := List.all_eq_true.1 hall c h
  obtain ⟨nextClass, hclass, hwhite⟩ := (Option.any_eq_true _ _).1 hc
  exact ⟨nextClass, hclass, of_decide_eq_true hwhite⟩

theorem keptIn_push {nextClass : JsonClass} (h : ¬ (nextClass = .space ∨ nextClass = .white))
    (type : JsonType) (buffer : List UInt8) (c : UInt8) :
    keptIn type nextClass buffer c = buffer ++ [c] := if_pos (.inr h)

theorem keptIn_skip {nextClass : JsonClass} (h : nextClass = .space ∨ nextClass = .white)
    (buffer : List UInt8) (c : UInt8) : keptIn .none nextClass buffer c = buffer :=
  if_neg fun hkept => hkept.elim (fun hnone => hnone rfl) fun hno => hno h

/-! ## Comments -/

/-- The parser in a comment. -/
structure JsonParser.InComment (jc : JsonParser σ) (state before : JsonState)
    (stack : List JsonMode) : Prop where
  comment : jc.comment = true
  before : jc.beforeCommentState = before
  at_ : { jc with comment := false }.At state .none stack [] 0

/-- The characters of a comment are not kept. -/
theorem JsonParser.InComment.add (hmalloc : ∀ size, malloc size = true)
    (h : jc.InComment state before stack) (nextChar : Int) (nextClass : JsonClass) :
    ∃ jc', jc.addCharToParseBuffer malloc nextChar nextClass = .ok jc' ∧ jc'.ctx = jc.ctx ∧
      jc'.InComment state before stack := by
  have hhas : jc.HasRoom malloc := .inr (hmalloc _)
  obtain ⟨capacity, hreserve, hspace⟩ := hhas.reserve h.at_.room
  have hescaped : ¬ jc.escaped = true := Bool.not_eq_true _ ▸ h.at_.escaped
  refine ⟨{ jc with parseBufferCapacity := capacity }, ?_, rfl, ?_⟩
  · rw [JsonParser.addCharToParseBuffer, hreserve]
    dsimp only [bind, Except.bind]
    rw [if_neg hescaped, if_pos h.comment]
    rfl
  · exact
      { comment := h.comment
        before := h.before
        at_ := { h.at_ with room := Nat.lt_of_succ_lt hspace } }

theorem JsonParser.InComment.pass (hmalloc : ∀ size, malloc size = true)
    (h : jc.InComment state before stack) {nextClass : JsonClass} {next : JsonState}
    (hclass : characterClass (byteValue c) = some nextClass)
    (htable : stateTransitionTable state nextClass = .state next) :
    Feeds malloc callback [c] [] (·.InComment next before stack) jc := by
  obtain ⟨jc', hadd, hctx, h'⟩ := h.add hmalloc (byteValue c) nextClass
  have hstate : jc'.state = state := h'.at_.state
  rw [← hstate] at htable
  have hchar : jsonParserChar malloc callback (byteValue c) jc = _ :=
    jsonParserChar_state (byteValue_not_neg c) hclass hadd htable
  apply Machine.Drives.single
  rw [hchar]
  exact Machine.Makes.ok hctx
    { comment := h'.comment
      before := h'.before
      at_ := { h'.at_ with state := rfl } }

/-- The `/` behind a `*`. -/
theorem JsonParser.InComment.close (hmalloc : ∀ size, malloc size = true)
    (h : jc.InComment .c3 before stack) :
    Feeds malloc callback [47] [] (·.At before .none stack [] 0) jc := by
  obtain ⟨jc', hadd, hctx, h'⟩ := h.add hmalloc (byteValue 47) .slash
  have hstate : jc'.state = .c3 := h'.at_.state
  have htable : stateTransitionTable jc'.state .slash = .action .ce := by
    rw [hstate]
    rfl
  have hchar : jsonParserChar malloc callback (byteValue 47) jc = _ :=
    jsonParserChar_action (byteValue_not_neg 47) rfl hadd htable
  have hbuffer : jc'.parseBuffer = [] := h'.at_.buffer
  have htype : jc'.type = .none := h'.at_.type
  apply Machine.Drives.single
  rw [hchar, JsonParser.act, jsonAssert_bind (by rw [hbuffer]; rfl), jsonAssert_bind htype]
  exact Machine.Makes.ok hctx { h'.at_ with state := h'.before }

/-- The characters of a comment, by their classes. -/
theorem class_of_char (h : IsChar c) :
    ∃ nextClass, characterClass (byteValue c) = some nextClass ∧ (nextClass = .star ↔ c = 42) ∧
      (nextClass = .slash ↔ c = 47) := by
  have hall : ∀ n < 256, IsChar (UInt8.ofNat n) →
      (characterClass (byteValue (UInt8.ofNat n))).any (fun nextClass =>
        (nextClass = .star ↔ UInt8.ofNat n = 42) ∧
        (nextClass = .slash ↔ UInt8.ofNat n = 47)) = true := by
    decide +kernel
  have hc := hall c.toNat (UInt8.toNat_lt c)
  rw [UInt8.ofNat_toNat] at hc
  obtain ⟨nextClass, hclass, hiff⟩ := (Option.any_eq_true _ _).1 (hc h)
  exact ⟨nextClass, hclass, of_decide_eq_true hiff⟩

theorem JsonParser.InComment.rest (hmalloc : ∀ size, malloc size = true) {starred : Bool}
    {body : List UInt8} (hbody : CommentRest starred body)
    (h : jc.InComment (if starred then .c3 else .c2) before stack) :
    Feeds malloc callback body [] (·.At before .none stack [] 0) jc := by
  induction hbody generalizing jc with
  | close => exact h.close hmalloc
  | @star starred rest _ ih =>
      have hstar : Feeds malloc callback [42] [] (·.InComment .c3 before stack) jc :=
        h.pass hmalloc rfl (by cases starred <;> rfl)
      exact hstar.cons fun jc₁ h₁ => ih h₁
  | @char starred c rest hc hstar hslash _ ih =>
      obtain ⟨nextClass, hclass, hiff, hiff'⟩ := class_of_char hc
      have hstar' := mt hiff.1 hstar
      have hchar : Feeds malloc callback [c] [] (·.InComment .c2 before stack) jc := by
        apply h.pass hmalloc hclass
        cases starred with
        | false => cases nextClass <;> first | rfl | exact absurd rfl hstar'
        | true =>
            have hslash' := mt hiff'.1 (hslash rfl)
            cases nextClass <;> first | rfl | exact absurd rfl hstar' | exact absurd rfl hslash'
      exact hchar.cons fun jc₁ h₁ => ih h₁

/-- What waits is delivered in front of a comment. -/
theorem JsonParser.At.beginComment (hmalloc : ∀ size, malloc size = true)
    (h : jc.At state type stack buffer 0)
    (htable : stateTransitionTable state .slash = .action .cb) (hliteral : ¬ IsLiteral type)
    (hstring : type ≠ .string) :
    Feeds malloc callback [47] (pendingEvents type buffer)
      (·.InComment .c1 (resumedState state stack) stack) jc := by
  refine h.act hmalloc rfl htable fun jc₁ h₁ => ?_
  rw [keptIn_push (by decide)] at h₁
  rw [JsonParser.act, if_pos h₁.allowComments]
  refine Delivers.bind h₁.popBackChar fun jc₂ h₂ => ?_
  refine Delivers.bind_quiet (h₂.parseParseBuffer hliteral) fun jc₃ h₃ => ?_
  have hempty : jc₃.parseBuffer.length = 0 := by rw [h₃.buffer]; rfl
  rw [jsonAssert_bind hempty, jsonAssert_bind (by rw [h₃.type]; exact hstring)]
  refine Machine.Makes.ok rfl { comment := rfl, before := ?_, at_ := ?_ }
  · dsimp only
    rw [h₃.state, h₃.stack]
    rfl
  · exact { h₃ with state := rfl, type := rfl, comment := rfl }

theorem JsonParser.At.skipComment (hmalloc : ∀ size, malloc size = true)
    (h : jc.At state type stack buffer 0)
    (htable : stateTransitionTable state .slash = .action .cb) (hliteral : ¬ IsLiteral type)
    (hstring : type ≠ .string) {body : List UInt8} (hbody : CommentRest false body) :
    Feeds malloc callback (47 :: 42 :: body) (pendingEvents type buffer)
      (·.At (resumedState state stack) .none stack [] 0) jc := by
  refine (h.beginComment hmalloc htable hliteral hstring).append_quiet fun jc₁ h₁ => ?_
  refine Feeds.cons (h₁.pass hmalloc rfl rfl) fun jc₂ h₂ => ?_
  exact @JsonParser.InComment.rest _ _ _ _ _ _ hmalloc false _ hbody h₂

/-! ## Gaps -/

/-- **A gap where no value waits.** -/
theorem JsonParser.At.gap (hmalloc : ∀ size, malloc size = true)
    (hstate : state ∈ [JsonState.go, .ok, .ob, .ke, .co, .va, .ar])
    (hresumed : resumedState state stack = state) {gap : List UInt8} (hgap : Gap gap)
    (h : jc.At state .none stack [] 0) :
    Feeds malloc callback gap [] (·.At state .none stack [] 0) jc := by
  induction hgap generalizing jc with
  | nil => exact Feeds.nil h
  | @space c rest hc _ ih =>
      obtain ⟨nextClass, hclass, hwhite⟩ := class_of_space hc
      have htable : ∀ state ∈ [JsonState.go, .ok, .ob, .ke, .co, .va, .ar],
          stateTransitionTable state .space = .state state ∧
          stateTransitionTable state .white = .state state := by decide
      have hskip : Feeds malloc callback [c] [] (·.At state .none stack [] 0) jc := by
        rw [← keptIn_skip hwhite [] c]
        rcases hwhite with rfl | rfl
        · exact h.pass hmalloc hclass (htable state hstate).1
        · exact h.pass hmalloc hclass (htable state hstate).2
      exact hskip.cons fun jc₁ h₁ => ih h₁
  | @comment body rest hbody _ ih =>
      have htable : ∀ state ∈ [JsonState.go, .ok, .ob, .ke, .co, .va, .ar],
          stateTransitionTable state .slash = .action .cb := by decide
      have hskip : Feeds malloc callback (47 :: 42 :: body) [] _ jc :=
        h.skipComment hmalloc (htable state hstate) (by decide) (by decide) hbody
      rw [hresumed] at hskip
      exact hskip.append fun jc₁ h₁ => ih h₁

/-- Behind a value, of which there are events still to be delivered. -/
structure JsonParser.Waiting (jc : JsonParser σ) (state : JsonState) (type : JsonType)
    (stack : List JsonMode) (buffer : List UInt8) (pending : List JsonEvent) : Prop where
  place : jc.At state type stack buffer 0
  ends : state ∈ [JsonState.ok, .ze, .it, .fr, .e3, .fx]
  number : type ∈ [JsonType.none, .integer, .float]
  nothing : type = .none → state = .ok ∧ buffer = []
  enclosed : type = .none ∨ stack.head? = some .array ∨ stack.head? = some .object
  spaces : ∀ spaces, (∀ c ∈ spaces, IsSpace c) → pendingEvents type (buffer ++ spaces) = pending

/-- The same, whatever it is that waits; a comment can follow at once or not. -/
def JsonParser.Waits (jc : JsonParser σ) (stack : List JsonMode) (pending : List JsonEvent)
    (commentable : Bool) : Prop :=
  ∃ state type buffer, jc.Waiting state type stack buffer pending ∧
    (commentable = true → state ∈ [JsonState.ok, .ze, .it, .fr])

/-- Nothing waits. -/
theorem JsonParser.At.waiting (h : jc.At .ok .none stack [] 0) :
    jc.Waiting .ok .none stack [] [] where
  place := h
  ends := by decide
  number := by decide
  nothing := fun _ => ⟨rfl, rfl⟩
  enclosed := .inl rfl
  spaces := fun _ _ => rfl

theorem JsonParser.At.waits (h : jc.At .ok .none stack [] 0) : jc.Waits stack [] true :=
  ⟨.ok, .none, [], h.waiting, fun _ => by decide⟩

theorem JsonParser.Waiting.space (hmalloc : ∀ size, malloc size = true)
    (h : jc.Waiting state type stack buffer pending) (hc : IsSpace c) :
    Feeds malloc callback [c] [] (fun jc => ∃ buffer, jc.Waiting .ok type stack buffer pending)
      jc := by
  obtain ⟨nextClass, hclass, hwhite⟩ := class_of_space hc
  have htable : ∀ state ∈ [JsonState.ok, .ze, .it, .fr, .e3, .fx],
      stateTransitionTable state .space = .state .ok ∧
      stateTransitionTable state .white = .state .ok := by decide
  have hpass : Feeds malloc callback [c] []
      (·.At .ok type stack (keptIn type nextClass buffer c) 0) jc := by
    rcases hwhite with rfl | rfl
    · exact h.place.pass hmalloc hclass (htable state h.ends).1
    · exact h.place.pass hmalloc hclass (htable state h.ends).2
  refine hpass.mono fun jc₁ h₁ => ⟨keptIn type nextClass buffer c, ?_⟩
  by_cases hnone : type = .none
  · obtain ⟨-, rfl⟩ := h.nothing hnone
    subst hnone
    rw [keptIn_skip hwhite] at h₁ ⊢
    exact { h with place := h₁, ends := by decide, nothing := fun _ => ⟨rfl, rfl⟩ }
  · have hkept : keptIn type nextClass buffer c = buffer ++ [c] := if_pos (.inl hnone)
    rw [hkept] at h₁ ⊢
    refine { h with place := h₁, ends := by decide, nothing := ?_, spaces := ?_ }
    · exact fun htype => absurd htype hnone
    · intro spaces hspaces
      rw [List.append_assoc]
      exact h.spaces _ (List.forall_mem_cons.2 ⟨hc, hspaces⟩)

theorem JsonParser.Waiting.plain (h : jc.Waiting state type stack buffer pending) :
    ¬ IsLiteral type ∧ type ≠ .string :=
  (by decide : ∀ type ∈ [JsonType.none, .integer, .float], ¬ IsLiteral type ∧ type ≠ .string)
    type h.number

/-- What waits is what `parse_parse_buffer` delivers. -/
theorem JsonParser.Waiting.pending_eq (h : jc.Waiting state type stack buffer pending) :
    pendingEvents type buffer = pending := by
  have hspaces := h.spaces [] (fun c hc => absurd hc List.not_mem_nil)
  rwa [List.append_nil] at hspaces

/-- Outside of all arrays and objects nothing waits. -/
theorem JsonParser.Waiting.pending_nil (h : jc.Waiting state type [.done] buffer pending) :
    pending = [] := by
  have hnone : type = .none := h.enclosed.resolve_right (by decide)
  rw [← h.pending_eq, hnone]
  rfl

/-- Behind a comment the parser is behind the value. -/
theorem JsonParser.Waiting.resumed (h : jc.Waiting state type stack buffer pending) :
    resumedState state stack = .ok := by
  rcases h.enclosed with hnone | hhead
  · rw [(h.nothing hnone).1, resumedState_ok]
  · have hends : ∀ state ∈ [JsonState.ok, .ze, .it, .fr, .e3, .fx],
        ¬ (state = .va ∨ state = .ar) := by decide
    unfold resumedState
    rcases hhead with hhead | hhead <;> rw [hhead] <;> exact if_neg (hends state h.ends)

theorem table_commented : ∀ state ∈ [JsonState.ok, .ze, .it, .fr],
    stateTransitionTable state .slash = .action .cb := by decide

theorem JsonParser.Waits.space (hmalloc : ∀ size, malloc size = true) {commentable : Bool}
    (h : jc.Waits stack pending commentable) (hc : IsSpace c) :
    Feeds malloc callback [c] [] (·.Waits stack pending true) jc := by
  obtain ⟨state, type, buffer, hw, -⟩ := h
  exact (hw.space hmalloc hc).mono fun jc₁ ⟨buffer', h₁⟩ =>
    ⟨.ok, type, buffer', h₁, fun _ => by decide⟩

theorem JsonParser.Waits.comment (hmalloc : ∀ size, malloc size = true)
    (h : jc.Waits stack pending true) {body : List UInt8} (hbody : CommentRest false body) :
    Feeds malloc callback (47 :: 42 :: body) pending (·.Waits stack [] true) jc := by
  obtain ⟨state, type, buffer, hw, hcomment⟩ := h
  obtain ⟨hliteral, hstring⟩ := hw.plain
  have hskip : Feeds malloc callback (47 :: 42 :: body) (pendingEvents type buffer) _ jc :=
    hw.place.skipComment hmalloc (table_commented state (hcomment rfl)) hliteral hstring hbody
  rw [hw.pending_eq, hw.resumed] at hskip
  exact hskip.mono fun jc₁ h₁ => h₁.waits

/-- **A gap behind a value** has what waits delivered if there is a comment in it. -/
theorem follows_delivers (hmalloc : ∀ size, malloc size = true) {commentable : Bool}
    {gap : List UInt8} (hgap : Follows commentable gap) :
    ∃ commented : Bool, ∀ (jc : JsonParser σ) stack pending, jc.Waits stack pending commentable →
      Feeds malloc callback gap (if commented then pending else [])
        (·.Waits stack (if commented then [] else pending) false) jc := by
  obtain ⟨hgap, hcomment⟩ := hgap
  have hless : ∀ (jc : JsonParser σ) stack pending commentable,
      jc.Waits stack pending commentable → jc.Waits stack pending false :=
    fun _ _ _ _ ⟨state, type, buffer, hw, _⟩ =>
      ⟨state, type, buffer, hw, fun h => absurd h Bool.false_ne_true⟩
  induction hgap generalizing commentable with
  | nil => exact ⟨false, fun jc stack pending h => Feeds.nil (hless _ _ _ _ h)⟩
  | @space c gap hc _ ih =>
      obtain ⟨commented, hrest⟩ := @ih true fun h => absurd h.symm Bool.false_ne_true
      refine ⟨commented, fun jc stack pending h => ?_⟩
      exact (h.space hmalloc hc).append fun jc₁ h₁ => hrest jc₁ stack pending h₁
  | @comment body gap hbody _ ih =>
      obtain ⟨commented, hrest⟩ := @ih true fun h => absurd h.symm Bool.false_ne_true
      refine ⟨true, fun jc stack pending h => ?_⟩
      cases commentable with
      | false => exact absurd rfl (hcomment rfl)
      | true =>
          refine (h.comment hmalloc hbody).append_quiet fun jc₁ h₁ => ?_
          have hnothing := hrest jc₁ stack [] h₁
          rwa [ite_self] at hnothing

/-! ## Behind the gap -/

/-- The character behind has what waits delivered. -/
theorem JsonParser.Waiting.deliver (h : jc.Waiting state type stack buffer pending)
    {jc' : JsonParser σ} (h' : jc'.At state type stack (buffer ++ [c]) 0) :
    Delivers callback (jc'.parseBufferPopBackChar >>= fun jc => jc.parseParseBuffer callback)
      pending (·.At state type stack [] 0) jc'.ctx := by
  rw [← h.pending_eq]
  exact Delivers.bind h'.popBackChar fun jc₁ h₁ => h₁.parseParseBuffer h.plain.1

theorem table_behind : ∀ state ∈ [JsonState.ok, .ze, .it, .fr, .e3, .fx],
    stateTransitionTable state .comma = .action .m3 ∧
      stateTransitionTable state .rsqrb = .action .m7 ∧
      stateTransitionTable state .rcurb = .action .m8 := by decide

/-- A comma in an array. -/
theorem JsonParser.Waits.nextItem (hmalloc : ∀ size, malloc size = true)
    (h : jc.Waits (.array :: stack) pending false) :
    Feeds malloc callback [44] pending (·.At .va .none (.array :: stack) [] 0) jc := by
  obtain ⟨state, type, buffer, hw, -⟩ := h
  refine hw.place.act hmalloc rfl (table_behind state hw.ends).1 fun jc₁ h₁ => ?_
  rw [keptIn_push (by decide)] at h₁
  rw [JsonParser.act, ← bind_assoc]
  refine Delivers.bind_quiet (hw.deliver h₁) fun jc₂ h₂ => ?_
  rw [h₂.stack]
  dsimp only [List.head?]
  rw [jsonAssert_bind (by rw [h₂.type]; exact hw.plain.2)]
  exact Machine.Makes.ok rfl { h₂ with state := rfl, type := rfl, stack := rfl }

/-- A comma in an object. -/
theorem JsonParser.Waits.nextMember (hmalloc : ∀ size, malloc size = true)
    (h : jc.Waits (.object :: stack) pending false) (hdepth : stack.length < 20) :
    Feeds malloc callback [44] pending (·.At .ke .none (.key :: stack) [] 0) jc := by
  obtain ⟨state, type, buffer, hw, -⟩ := h
  refine hw.place.act hmalloc rfl (table_behind state hw.ends).1 fun jc₁ h₁ => ?_
  rw [keptIn_push (by decide)] at h₁
  rw [JsonParser.act, ← bind_assoc]
  refine Delivers.bind_quiet (hw.deliver h₁) fun jc₂ h₂ => ?_
  rw [h₂.stack]
  dsimp only [List.head?]
  refine Delivers.bind h₂.pop fun jc₃ h₃ => Delivers.bind (h₃.push hdepth) fun jc₄ h₄ => ?_
  rw [jsonAssert_bind (by rw [h₄.type]; exact hw.plain.2)]
  exact Machine.Makes.ok rfl (h₄.set _ _)

/-- An array ends. -/
theorem JsonParser.Waits.endArray (hmalloc : ∀ size, malloc size = true)
    (h : jc.Waits (.array :: stack) pending false) :
    Feeds malloc callback [93] (pending ++ [.arrayEnd]) (·.At .ok .none stack [] 0) jc := by
  obtain ⟨state, type, buffer, hw, -⟩ := h
  refine hw.place.act hmalloc rfl (table_behind state hw.ends).2.1 fun jc₁ h₁ => ?_
  rw [keptIn_push (by decide)] at h₁
  rw [JsonParser.act, ← bind_assoc]
  refine Delivers.bind (hw.deliver h₁) fun jc₂ h₂ => ?_
  refine Delivers.bind_quiet (h₂.deliver .arrayEnd) fun jc₃ h₃ => ?_
  refine Delivers.bind h₃.pop fun jc₄ h₄ => ?_
  exact Machine.Makes.ok rfl (h₄.set _ _)

/-- An object ends. -/
theorem JsonParser.Waits.endObject (hmalloc : ∀ size, malloc size = true)
    (h : jc.Waits (.object :: stack) pending false) :
    Feeds malloc callback [125] (pending ++ [.objectEnd]) (·.At .ok .none stack [] 0) jc := by
  obtain ⟨state, type, buffer, hw, -⟩ := h
  refine hw.place.act hmalloc rfl (table_behind state hw.ends).2.2 fun jc₁ h₁ => ?_
  rw [keptIn_push (by decide)] at h₁
  rw [JsonParser.act, ← bind_assoc]
  refine Delivers.bind (hw.deliver h₁) fun jc₂ h₂ => ?_
  refine Delivers.bind_quiet (h₂.deliver .objectEnd) fun jc₃ h₃ => ?_
  refine Delivers.bind h₃.pop fun jc₄ h₄ => ?_
  exact Machine.Makes.ok rfl (h₄.set _ _)

end Gaps

end Burrow.Http
