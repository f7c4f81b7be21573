import Burrow.Http.JsonNumbers

/-!
# Every text of the JSON parser is accepted

Whatever the callback makes of it, the parser delivers over a `Document` the events of the
document, and is done at its end (`document_fed`).
-/

set_option autoImplicit false

namespace Burrow.Http

section Accepts

variable {σ : Type} {malloc : Nat → Bool} {callback : JsonEvent → σ → Except JsonStop σ}
  {jc : JsonParser σ} {state : JsonState} {stack : List JsonMode} {text bytes : List UInt8}
  {depth : Nat}

/-! ## Strings and brackets -/

/-- The quote in front of a string. -/
theorem JsonParser.At.beginString (hmalloc : ∀ size, malloc size = true)
    (hstate : state ∈ [JsonState.ob, .ke, .va, .ar]) (h : jc.At state .none stack [] 0) :
    Feeds malloc callback [34] [] (·.At .st .string stack [] 0) jc := by
  have htable : ∀ state ∈ [JsonState.ob, .ke, .va, .ar],
      stateTransitionTable state .quote = .action .sb := by decide
  refine h.act hmalloc rfl (htable state hstate) fun jc₁ h₁ => ?_
  have htype : jc₁.parseBufferClear.type = .none := h₁.type
  rw [JsonParser.act, jsonAssert_bind htype]
  exact Machine.Makes.ok rfl
    { h₁ with state := rfl, type := rfl, buffer := rfl, room := Nat.zero_lt_of_lt h₁.room }

/-- The quote behind a string that is a value. -/
theorem JsonParser.At.endString (hmalloc : ∀ size, malloc size = true)
    (hhead : stack.head? = some .array ∨ stack.head? = some .object)
    (h : jc.At .st .string stack bytes 0) :
    Feeds malloc callback [34] [.string bytes] (·.At .ok .none stack [] 0) jc := by
  refine h.act hmalloc rfl rfl fun jc₁ h₁ => ?_
  rw [keptIn_push (by decide)] at h₁
  rw [JsonParser.act]
  refine Delivers.bind h₁.popBackChar fun jc₂ h₂ => ?_
  have hvalue : Delivers callback (do
      jsonAssert (jc₂.type = .string)
      let jc ← jc₂.parseParseBuffer callback
      return { jc with type := .none, state := .ok }) [.string bytes]
      (·.At .ok .none stack [] 0) jc₂.ctx := by
    rw [jsonAssert_bind h₂.type]
    refine Delivers.bind_quiet (h₂.parseParseBuffer (by decide)) fun jc₃ h₃ => ?_
    exact Machine.Makes.ok rfl (h₃.set .none .ok)
  rw [h₂.stack]
  rcases hhead with hhead | hhead <;> rw [hhead] <;> exact hvalue

/-- The quote behind a key. -/
theorem JsonParser.At.endKey (hmalloc : ∀ size, malloc size = true)
    (h : jc.At .st .string (.key :: stack) bytes 0) :
    Feeds malloc callback [34] [.key bytes] (·.At .co .none (.key :: stack) [] 0) jc := by
  refine h.act hmalloc rfl rfl fun jc₁ h₁ => ?_
  rw [keptIn_push (by decide)] at h₁
  rw [JsonParser.act]
  refine Delivers.bind h₁.popBackChar fun jc₂ h₂ => ?_
  rw [h₂.stack]
  dsimp only [List.head?]
  rw [jsonAssert_bind h₂.type, h₂.buffer]
  have hroom := h₂.room
  rw [h₂.buffer] at hroom
  have hset : { jc₂ with
      type := .none
      state := .co
      stack := .key :: stack
      parseBuffer := bytes }.At .co .none (.key :: stack) bytes 0 :=
    { h₂ with state := rfl, type := rfl, stack := rfl, buffer := rfl, room := hroom }
  refine Delivers.bind_quiet (hset.deliver (.key bytes)) fun jc₃ h₃ => ?_
  exact Machine.Makes.ok rfl { h₃ with buffer := rfl, room := Nat.zero_lt_of_lt h₃.room }

/-- The colon behind a key. -/
theorem JsonParser.At.colon (hmalloc : ∀ size, malloc size = true) (hdepth : stack.length < 20)
    (h : jc.At .co .none (.key :: stack) [] 0) :
    Feeds malloc callback [58] [] (·.At .va .none (.object :: stack) [] 0) jc := by
  refine h.act hmalloc rfl rfl fun jc₁ h₁ => ?_
  rw [keptIn_push (by decide)] at h₁
  rw [JsonParser.act]
  refine Delivers.bind h₁.popBackChar fun jc₂ h₂ => Delivers.bind h₂.pop fun jc₃ h₃ => ?_
  refine Delivers.bind (h₃.push hdepth) fun jc₄ h₄ => ?_
  rw [jsonAssert_bind h₄.type]
  exact Machine.Makes.ok rfl { h₄ with state := rfl }

theorem table_open : ∀ state ∈ [JsonState.go, .va, .ar],
    stateTransitionTable state .lsqrb = .action .m5 ∧
      stateTransitionTable state .lcurb = .action .m6 := by decide

theorem JsonParser.At.beginArray (hmalloc : ∀ size, malloc size = true)
    (hstate : state ∈ [JsonState.go, .va, .ar]) (hdepth : stack.length < 20)
    (h : jc.At state .none stack [] 0) :
    Feeds malloc callback [91] [.arrayBegin] (·.At .ar .none (.array :: stack) [] 0) jc := by
  refine h.act hmalloc rfl (table_open state hstate).1 fun jc₁ h₁ => ?_
  rw [keptIn_push (by decide)] at h₁
  rw [JsonParser.act]
  refine Delivers.bind h₁.popBackChar fun jc₂ h₂ => ?_
  refine Delivers.bind_quiet (h₂.deliver .arrayBegin) fun jc₃ h₃ => ?_
  refine Delivers.bind (h₃.push hdepth) fun jc₄ h₄ => ?_
  rw [jsonAssert_bind h₄.type]
  exact Machine.Makes.ok rfl { h₄ with state := rfl }

theorem JsonParser.At.beginObject (hmalloc : ∀ size, malloc size = true)
    (hstate : state ∈ [JsonState.go, .va, .ar]) (hdepth : stack.length < 20)
    (h : jc.At state .none stack [] 0) :
    Feeds malloc callback [123] [.objectBegin] (·.At .ob .none (.key :: stack) [] 0) jc := by
  refine h.act hmalloc rfl (table_open state hstate).2 fun jc₁ h₁ => ?_
  rw [keptIn_push (by decide)] at h₁
  rw [JsonParser.act]
  refine Delivers.bind h₁.popBackChar fun jc₂ h₂ => ?_
  refine Delivers.bind_quiet (h₂.deliver .objectBegin) fun jc₃ h₃ => ?_
  refine Delivers.bind (h₃.push hdepth) fun jc₄ h₄ => ?_
  rw [jsonAssert_bind h₄.type]
  exact Machine.Makes.ok rfl { h₄ with state := rfl }

theorem JsonParser.At.endEmptyArray (hmalloc : ∀ size, malloc size = true)
    (h : jc.At .ar .none (.array :: stack) [] 0) :
    Feeds malloc callback [93] [.arrayEnd] (·.At .ok .none stack [] 0) jc := by
  refine h.act hmalloc rfl rfl fun jc₁ h₁ => ?_
  rw [keptIn_push (by decide)] at h₁
  rw [JsonParser.act]
  refine Delivers.bind h₁.popBackChar fun jc₂ h₂ => ?_
  refine Delivers.bind (h₂.parseParseBuffer (by decide)) fun jc₃ h₃ => ?_
  refine Delivers.bind_quiet (h₃.deliver .arrayEnd) fun jc₄ h₄ => ?_
  refine Delivers.bind h₄.pop fun jc₅ h₅ => ?_
  exact Machine.Makes.ok rfl (h₅.set .none .ok)

theorem JsonParser.At.endEmptyObject (hmalloc : ∀ size, malloc size = true)
    (h : jc.At .ob .none (.key :: stack) [] 0) :
    Feeds malloc callback [125] [.objectEnd] (·.At .ok .none stack [] 0) jc := by
  refine h.act hmalloc rfl rfl fun jc₁ h₁ => ?_
  have hclear : jc₁.parseBufferClear.At .ob .none (.key :: stack) [] 0 :=
    { h₁ with buffer := rfl, room := Nat.zero_lt_of_lt h₁.room }
  rw [JsonParser.act]
  refine Delivers.bind_quiet (hclear.deliver .objectEnd) fun jc₂ h₂ => ?_
  refine Delivers.bind h₂.pop fun jc₃ h₃ => ?_
  exact Machine.Makes.ok rfl { h₃ with state := rfl }

/-! ## Parts of a text -/

/-- A value is within an array or behind a key. -/
def InValue (stack : List JsonMode) : Prop :=
  stack.head? = some .array ∨ stack.head? = some .object

variable (malloc callback) in
/-- Where a value can stand, the parser delivers the events, up to some that wait. -/
def ValueFed (depth : Nat) (text : List UInt8) (events : List JsonEvent) (commentable : Bool) :
    Prop :=
  ∃ done rest, done ++ rest = events ∧
    ∀ (jc : JsonParser σ) state stack, state ∈ [JsonState.va, .ar] → InValue stack →
      stack.length + depth ≤ 20 → jc.At state .none stack [] 0 →
      Feeds malloc callback text done (·.Waits stack rest commentable) jc

variable (malloc callback) in
/-- The same for an array, which can stand in front of all values too. -/
def BracketFed (depth : Nat) (text : List UInt8) (events : List JsonEvent) : Prop :=
  ∀ (jc : JsonParser σ) state stack, state ∈ [JsonState.go, .va, .ar] →
    stack.length + depth ≤ 20 → jc.At state .none stack [] 0 →
    Feeds malloc callback text events (·.Waits stack [] true) jc

variable (malloc callback) in
/-- Behind the bracket of an array. -/
def ItemsFed (depth : Nat) (text : List UInt8) (events : List JsonEvent) : Prop :=
  ∀ (jc : JsonParser σ) stack, (JsonMode.array :: stack).length + depth ≤ 20 →
    jc.At .ar .none (.array :: stack) [] 0 →
    Feeds malloc callback (text ++ [93]) (events ++ [.arrayEnd]) (·.Waits stack [] true) jc

variable (malloc callback) in
/-- Some items of an array. -/
def ItemListFed (depth : Nat) (text : List UInt8) (events : List JsonEvent) : Prop :=
  ∃ done rest, done ++ rest = events ∧
    ∀ (jc : JsonParser σ) stack, (JsonMode.array :: stack).length + depth ≤ 20 →
      jc.At .ar .none (.array :: stack) [] 0 →
      Feeds malloc callback text done (·.Waits (.array :: stack) rest false) jc

variable (malloc callback) in
/-- Behind the brace of an object. -/
def MembersFed (depth : Nat) (text : List UInt8) (events : List JsonEvent) : Prop :=
  ∀ (jc : JsonParser σ) stack, (JsonMode.key :: stack).length + depth ≤ 20 →
    jc.At .ob .none (.key :: stack) [] 0 →
    Feeds malloc callback (text ++ [125]) (events ++ [.objectEnd]) (·.Waits stack [] true) jc

variable (malloc callback) in
/-- A member of an object. -/
def MemberFed (depth : Nat) (text : List UInt8) (events : List JsonEvent) : Prop :=
  ∃ done rest, done ++ rest = events ∧
    ∀ (jc : JsonParser σ) state stack, state ∈ [JsonState.ob, .ke] →
      (JsonMode.key :: stack).length + depth ≤ 20 → jc.At state .none (.key :: stack) [] 0 →
      Feeds malloc callback text done (·.Waits (.object :: stack) rest false) jc

variable (malloc callback) in
/-- Some members of an object. -/
def MemberListFed (depth : Nat) (text : List UInt8) (events : List JsonEvent) : Prop :=
  ∃ done rest, done ++ rest = events ∧
    ∀ (jc : JsonParser σ) stack, (JsonMode.key :: stack).length + depth ≤ 20 →
      jc.At .ob .none (.key :: stack) [] 0 →
      Feeds malloc callback text done (·.Waits (.object :: stack) rest false) jc

theorem BracketFed.value {events : List JsonEvent}
    (h : BracketFed malloc callback depth text events) :
    ValueFed malloc callback depth text events true :=
  ⟨events, [], List.append_nil events, fun jc state stack hstate _ hdepth h' =>
    h jc state stack (List.mem_cons_of_mem _ hstate) hdepth h'⟩

/-- White space does not change the place of a value. -/
theorem resumed_value {stack : List JsonMode} (hvalue : InValue stack)
    (hstate : state ∈ [JsonState.va, .ar]) : resumedState state stack = state := by
  have hva : state = .va ∨ state = .ar := by simpa using hstate
  unfold resumedState
  rcases hvalue with hhead | hhead <;> rw [hhead] <;> exact if_pos hva

theorem itemList_one {events : List JsonEvent}
    (hitem : ValueFed malloc callback depth text events false) :
    ItemListFed malloc callback depth text events := by
  obtain ⟨done, rest, heq, hitem⟩ := hitem
  exact ⟨done, rest, heq, fun jc stack hdepth h =>
    hitem jc .ar (.array :: stack) (by decide) (.inl rfl) hdepth h⟩

theorem memberList_one {events : List JsonEvent}
    (hmember : MemberFed malloc callback depth text events) :
    MemberListFed malloc callback depth text events := by
  obtain ⟨done, rest, heq, hmember⟩ := hmember
  exact ⟨done, rest, heq, fun jc stack hdepth h =>
    hmember jc .ob stack (by decide) hdepth h⟩

section Parts

variable {events events' : List JsonEvent} {commentable : Bool} {text' gap : List UInt8}
  (hmalloc : ∀ size, malloc size = true)

include hmalloc

theorem string_fed (hchars : Chars text bytes) :
    ValueFed malloc callback depth (34 :: (text ++ [34])) [.string bytes] true := by
  refine ⟨[.string bytes], [], rfl, fun jc state stack hstate hvalue _ h => ?_⟩
  have hstate' : state ∈ [JsonState.ob, .ke, .va, .ar] :=
    List.mem_cons_of_mem _ (List.mem_cons_of_mem _ hstate)
  refine (h.beginString hmalloc hstate').cons fun jc₁ h₁ => ?_
  refine (h₁.chars hmalloc hchars).append fun jc₂ h₂ => ?_
  exact (h₂.endString hmalloc hvalue).mono fun _ h₃ => h₃.waits

theorem number_fed {event : JsonEvent} (hnumber : Number text event commentable) :
    ValueFed malloc callback depth text [event] commentable :=
  ⟨[], [event], rfl, fun _ _ _ hstate hvalue _ h => h.number hmalloc hstate hnumber hvalue⟩

theorem array_fed (hitems : ItemsFed malloc callback depth text events) :
    BracketFed malloc callback (depth + 1) (91 :: (text ++ [93]))
      (.arrayBegin :: (events ++ [.arrayEnd])) := by
  intro jc state stack hstate hdepth h
  refine Feeds.cons (h.beginArray hmalloc hstate (by omega)) fun jc₁ h₁ => hitems jc₁ stack ?_ h₁
  rw [List.length_cons]
  omega

theorem object_fed (hmembers : MembersFed malloc callback depth text events) :
    BracketFed malloc callback (depth + 1) (123 :: (text ++ [125]))
      (.objectBegin :: (events ++ [.objectEnd])) := by
  intro jc state stack hstate hdepth h
  refine Feeds.cons (h.beginObject hmalloc hstate (by omega)) fun jc₁ h₁ =>
    hmembers jc₁ stack ?_ h₁
  rw [List.length_cons]
  omega

/-- **A value between gaps.** -/
theorem item_fed {before behind : List UInt8} (hbefore : Gap before)
    (hvalue : ValueFed malloc callback depth text events commentable)
    (hbehind : Follows commentable behind) :
    ValueFed malloc callback depth (before ++ (text ++ behind)) events false := by
  obtain ⟨done, rest, rfl, hvalue⟩ := hvalue
  obtain ⟨commented, hfollows⟩ := follows_delivers hmalloc hbehind
  refine ⟨done ++ if commented then rest else [], if commented then [] else rest, ?_, ?_⟩
  · cases commented <;> simp
  · intro jc state stack hstate hin hdepth h
    have hplace : state ∈ [JsonState.go, .ok, .ob, .ke, .co, .va, .ar] :=
      (by decide : ∀ state ∈ [JsonState.va, .ar],
        state ∈ [JsonState.go, .ok, .ob, .ke, .co, .va, .ar]) state hstate
    refine (h.gap hmalloc hplace (resumed_value hin hstate) hbefore).append fun jc₁ h₁ => ?_
    refine (hvalue jc₁ state stack hstate hin hdepth h₁).append fun jc₂ h₂ => ?_
    exact hfollows jc₂ stack rest h₂

theorem itemList_more (hlist : ItemListFed malloc callback depth text events)
    (hitem : ValueFed malloc callback depth text' events' false) :
    ItemListFed malloc callback depth (text ++ 44 :: text') (events ++ events') := by
  obtain ⟨done, rest, rfl, hlist⟩ := hlist
  obtain ⟨done', rest', rfl, hitem⟩ := hitem
  refine ⟨done ++ (rest ++ done'), rest', by simp, fun jc stack hdepth h => ?_⟩
  refine (hlist jc stack hdepth h).append fun jc₁ h₁ => ?_
  refine (h₁.nextItem hmalloc).cons fun jc₂ h₂ => ?_
  exact hitem jc₂ .va (.array :: stack) (by decide) (.inl rfl) hdepth h₂

theorem items_empty (hgap : Gap gap) : ItemsFed malloc callback depth gap [] := by
  intro jc stack _ h
  refine (h.gap hmalloc (by decide) rfl hgap).append fun jc₁ h₁ => ?_
  exact (h₁.endEmptyArray hmalloc).mono fun _ h₂ => h₂.waits

theorem items_list (hlist : ItemListFed malloc callback depth text events) :
    ItemsFed malloc callback depth text events := by
  obtain ⟨done, rest, rfl, hlist⟩ := hlist
  intro jc stack hdepth h
  rw [List.append_assoc]
  refine (hlist jc stack hdepth h).append fun jc₁ h₁ => ?_
  exact (h₁.endArray hmalloc).mono fun _ h₂ => h₂.waits

/-- **A member.** -/
theorem member_fed {before key behind : List UInt8} (hbefore : Gap before)
    (hkey : Chars key bytes) (hbehind : Gap behind)
    (hitem : ValueFed malloc callback depth text events false) :
    MemberFed malloc callback depth (before ++ 34 :: (key ++ 34 :: (behind ++ 58 :: text)))
      (.key bytes :: events) := by
  obtain ⟨done, rest, rfl, hitem⟩ := hitem
  refine ⟨.key bytes :: done, rest, rfl, fun jc state stack hstate hdepth h => ?_⟩
  have hplace : ∀ state ∈ [JsonState.ob, .ke],
      state ∈ [JsonState.go, .ok, .ob, .ke, .co, .va, .ar] ∧
        state ∈ [JsonState.ob, .ke, .va, .ar] := by decide
  have hlength : stack.length < 20 := by
    rw [List.length_cons] at hdepth
    omega
  refine Feeds.append (h.gap hmalloc (hplace state hstate).1 rfl hbefore) fun jc₁ h₁ => ?_
  refine (h₁.beginString hmalloc (hplace state hstate).2).cons fun jc₂ h₂ => ?_
  refine (h₂.chars hmalloc hkey).append fun jc₃ h₃ => ?_
  refine (h₃.endKey hmalloc).cons fun jc₄ h₄ => ?_
  refine (h₄.gap hmalloc (by decide) rfl hbehind).append fun jc₅ h₅ => ?_
  refine (h₅.colon hmalloc hlength).cons fun jc₆ h₆ => ?_
  exact hitem jc₆ .va (.object :: stack) (by decide) (.inr rfl) hdepth h₆

theorem memberList_more (hlist : MemberListFed malloc callback depth text events)
    (hmember : MemberFed malloc callback depth text' events') :
    MemberListFed malloc callback depth (text ++ 44 :: text') (events ++ events') := by
  obtain ⟨done, rest, rfl, hlist⟩ := hlist
  obtain ⟨done', rest', rfl, hmember⟩ := hmember
  refine ⟨done ++ (rest ++ done'), rest', by simp, fun jc stack hdepth h => ?_⟩
  have hlength : stack.length < 20 := by
    rw [List.length_cons] at hdepth
    omega
  refine (hlist jc stack hdepth h).append fun jc₁ h₁ => ?_
  refine (h₁.nextMember hmalloc hlength).cons fun jc₂ h₂ => ?_
  exact hmember jc₂ .ke stack (by decide) hdepth h₂

theorem members_empty (hgap : Gap gap) : MembersFed malloc callback depth gap [] := by
  intro jc stack _ h
  refine (h.gap hmalloc (by decide) rfl hgap).append fun jc₁ h₁ => ?_
  exact (h₁.endEmptyObject hmalloc).mono fun _ h₂ => h₂.waits

theorem members_list (hlist : MemberListFed malloc callback depth text events) :
    MembersFed malloc callback depth text events := by
  obtain ⟨done, rest, rfl, hlist⟩ := hlist
  intro jc stack hdepth h
  rw [List.append_assoc]
  refine (hlist jc stack hdepth h).append fun jc₁ h₁ => ?_
  exact (h₁.endObject hmalloc).mono fun _ h₂ => h₂.waits

end Parts

/-! ## Texts -/

mutual

/-- **Every value** is read where one can stand. -/
theorem value_fed (hmalloc : ∀ size, malloc size = true) :
    ∀ {depth text events commentable}, ValueText depth text events commentable →
      ValueFed malloc callback depth text events commentable
  | _, _, _, _, .string hchars => string_fed hmalloc hchars
  | _, _, _, _, .number hnumber => number_fed hmalloc hnumber
  | _, _, _, _, .array hitems => (array_fed hmalloc (items_fed hmalloc hitems)).value
  | _, _, _, _, .object hmembers => (object_fed hmalloc (members_fed hmalloc hmembers)).value

theorem items_fed (hmalloc : ∀ size, malloc size = true) :
    ∀ {depth text events}, ItemsText depth text events →
      ItemsFed malloc callback depth text events
  | _, _, _, .empty hgap => items_empty hmalloc hgap
  | _, _, _, .list hlist => items_list hmalloc (itemList_fed hmalloc hlist)

theorem itemList_fed (hmalloc : ∀ size, malloc size = true) :
    ∀ {depth text events}, ItemList depth text events →
      ItemListFed malloc callback depth text events
  | _, _, _, .one hitem => itemList_one (itemText_fed hmalloc hitem)
  | _, _, _, .more hlist hitem =>
      itemList_more hmalloc (itemList_fed hmalloc hlist) (itemText_fed hmalloc hitem)

theorem itemText_fed (hmalloc : ∀ size, malloc size = true) :
    ∀ {depth text events}, ItemText depth text events →
      ValueFed malloc callback depth text events false
  | _, _, _, .intro hbefore hvalue hbehind =>
      item_fed hmalloc hbefore (value_fed hmalloc hvalue) hbehind

theorem members_fed (hmalloc : ∀ size, malloc size = true) :
    ∀ {depth text events}, MembersText depth text events →
      MembersFed malloc callback depth text events
  | _, _, _, .empty hgap => members_empty hmalloc hgap
  | _, _, _, .list hlist => members_list hmalloc (memberList_fed hmalloc hlist)

theorem memberList_fed (hmalloc : ∀ size, malloc size = true) :
    ∀ {depth text events}, MemberList depth text events →
      MemberListFed malloc callback depth text events
  | _, _, _, .one hmember => memberList_one (memberText_fed hmalloc hmember)
  | _, _, _, .more hlist hmember =>
      memberList_more hmalloc (memberList_fed hmalloc hlist) (memberText_fed hmalloc hmember)

theorem memberText_fed (hmalloc : ∀ size, malloc size = true) :
    ∀ {depth text events}, MemberText depth text events →
      MemberFed malloc callback depth text events
  | _, _, _, .intro hbefore hkey hbehind hitem =>
      member_fed hmalloc hbefore hkey hbehind (itemText_fed hmalloc hitem)

end

/-! ## Documents -/

theorem newJsonParser_at {alloc : Bool} {decimalPoint : UInt8} {s : σ} {jc : JsonParser σ}
    (hnew : newJsonParser alloc decimalPoint
      { depth := 19, allowComments := true, handleFloatsManually := false } s = some jc) :
    jc.At .go .none [.done] [] 0 ∧ jc.ctx = s := by
  cases alloc with
  | false => exact absurd hnew (by simp [newJsonParser])
  | true =>
  obtain rfl := Option.some.inj hnew
  exact
    ⟨{ state := rfl
       type := rfl
       stack := rfl
       buffer := rfl
       half := rfl
       escaped := rfl
       comment := rfl
       room := Nat.zero_lt_succ 3499
       depth := rfl
       allowComments := rfl
       handleFloatsManually := rfl }, rfl⟩

/-- A number is not an array or an object. -/
theorem Number.not_begin {event : JsonEvent} {commentable : Bool}
    (h : Number text event commentable) :
    [event].head? ∉ [some .arrayBegin, some .objectBegin] := by
  have hevent : (∃ value, event = .integer value) ∨ event = .float := by
    induction h with
    | integer => exact .inl ⟨_, rfl⟩
    | fraction => exact .inr rfl
    | exponent => exact .inr rfl
    | both => exact .inr rfl
  rcases hevent with ⟨value, rfl⟩ | rfl
  · simp
  · simp

/-- Outside of all arrays and objects nothing waits. -/
theorem JsonParser.Waits.done (h : jc.Waits [.done] [] false) : jsonParserDone jc = true := by
  obtain ⟨state, type, buffer, hw, -⟩ := h
  have hnone : type = .none := hw.enclosed.resolve_right (by decide)
  rw [jsonParserDone, hw.place.state, hw.place.stack, (hw.nothing hnone).1]
  rfl

/-- **Every document** is read, whatever the callback makes of it. -/
theorem document_fed (hmalloc : ∀ size, malloc size = true) {events : List JsonEvent}
    (hdocument : Document text events) (h : jc.At .go .none [.done] [] 0) :
    Feeds malloc callback text events (jsonParserDone · = true) jc := by
  cases hdocument with
  | empty hgap =>
      refine (h.gap hmalloc (by decide) rfl hgap).mono fun jc₁ h₁ => ?_
      rw [jsonParserDone, h₁.state, h₁.stack]
      rfl
  | @value before value behind _ hbefore hvalue hhead hbehind =>
      have hbracket : BracketFed malloc callback 19 value events := by
        cases hvalue with
        | string => exact absurd hhead (by simp)
        | number hnumber => exact absurd hhead hnumber.not_begin
        | array hitems => exact array_fed hmalloc (items_fed hmalloc hitems)
        | object hmembers => exact object_fed hmalloc (members_fed hmalloc hmembers)
      have hfollows : Follows true behind := ⟨hbehind, fun h => absurd h.symm Bool.false_ne_true⟩
      obtain ⟨commented, hgap⟩ := follows_delivers hmalloc hfollows
      refine (h.gap hmalloc (by decide) rfl hbefore).append fun jc₁ h₁ => ?_
      have hread := hbracket jc₁ .go [.done] (by decide) (by decide) h₁
      refine hread.append_quiet fun jc₂ h₂ => ?_
      have hend := hgap jc₂ [.done] [] h₂
      rw [ite_self] at hend
      exact hend.mono fun jc₃ h₃ => h₃.done

end Accepts

theorem ItemText.bare {depth : Nat} {text : List UInt8} {events : List JsonEvent}
    (h : ValueText depth text events true) : ItemText depth ([] ++ (text ++ [])) events :=
  .intro .nil h ⟨.nil, fun hfalse => absurd hfalse Bool.noConfusion⟩

/-- `{"a":[-7, "\n"]}` -/
theorem nestedDocument :
    Document [123, 34, 97, 34, 58, 91, 45, 55, 44, 32, 34, 92, 110, 34, 93, 125]
      [.objectBegin, .key [97], .arrayBegin, .integer (-7), .string [10], .arrayEnd,
        .objectEnd] := by
  have hnumber : Number [45, 55] (.integer (-7)) true :=
    .integer (.minus (.digits (by decide) (by decide) (List.forall_mem_nil _)))
  have hseven : ItemText 17 ([] ++ ([45, 55] ++ [])) [.integer (-7)] := .bare (.number hnumber)
  have hstring : ValueText 17 (34 :: ([92, 110] ++ [34])) [.string [10]] true :=
    .string (.short (by decide) .nil)
  have hline : ItemText 17 ([32] ++ ((34 :: ([92, 110] ++ [34])) ++ [])) [.string [10]] :=
    .intro (.space (by decide) .nil) hstring ⟨.nil, by simp⟩
  have harray := ValueText.array (.list (.more (.one hseven) hline))
  have hmember := MemberText.intro .nil (.byte (by decide) .nil : Chars [97] [97]) .nil
    (.bare harray)
  exact Document.value .nil (.object (.list (.one hmember))) (by simp) .nil

end Burrow.Http
