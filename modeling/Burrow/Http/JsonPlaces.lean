import Burrow.Http.JsonAccepts

/-!
# The beginnings of the texts of the JSON parser

What a text has come to where the parser is in the middle of it: `Before` a value, `Keying` in an
object, `Behind` a value, or in one of the states in which there can be a gap (`Rests`). With what
follows there, each becomes another, and the last of them is a `Document`.
-/

set_option autoImplicit false

namespace Burrow.Http

/-! ## Parts that are put together -/

theorem Gap.append {gap gap' : List UInt8} (h : Gap gap) (h' : Gap gap') : Gap (gap ++ gap') := by
  induction h with
  | nil => exact h'
  | space hc _ ih => exact .space hc ih
  | @comment body rest hbody _ ih =>
      have hmore := Gap.comment hbody ih
      rwa [← List.append_assoc] at hmore

theorem Chars.append {text text' bytes bytes' : List UInt8} (h : Chars text bytes)
    (h' : Chars text' bytes') : Chars (text ++ text') (bytes ++ bytes') := by
  induction h with
  | nil => exact h'
  | byte hc _ ih => exact .byte hc ih
  | short hc _ ih => exact .short hc ih
  | @unicode digits text bytes char hhex _ ih =>
      have hmore := Chars.unicode char hhex ih
      rwa [← List.append_assoc, ← List.append_assoc] at hmore
  | @pair high low text bytes char hlarge hhigh hlow _ ih =>
      have hmore := Chars.pair char hlarge hhigh hlow ih
      simpa using hmore

/-- What stands in front of an item or a member: none, or some and a comma. -/
inductive Begun (parts : List UInt8 → List JsonEvent → Prop) :
    List UInt8 → List JsonEvent → Prop
  | first : Begun parts [] []
  | next {text : List UInt8} {events : List JsonEvent} : parts text events →
      Begun parts (text ++ [44]) events

theorem Begun.item {depth : Nat} {begun text : List UInt8} {events events' : List JsonEvent}
    (h : Begun (ItemList depth) begun events) (h' : ItemText depth text events') :
    ItemList depth (begun ++ text) (events ++ events') := by
  cases h with
  | first => exact .one h'
  | next hlist =>
      rw [List.append_assoc]
      exact .more hlist h'

theorem Begun.member {depth : Nat} {begun text : List UInt8} {events events' : List JsonEvent}
    (h : Begun (MemberList depth) begun events) (h' : MemberText depth text events') :
    MemberList depth (begun ++ text) (events ++ events') := by
  cases h with
  | first => exact .one h'
  | next hlist =>
      rw [List.append_assoc]
      exact .more hlist h'

/-! ## Places -/

/-- A value of so many levels at most can begin here. -/
inductive Before : List JsonMode → Nat → List UInt8 → List JsonEvent → Prop
  | top {gap : List UInt8} : Gap gap → Before [.done] 19 gap []
  | item {stack : List JsonMode} {depth : Nat} {text begun gap : List UInt8}
      {events events' : List JsonEvent} : Before stack (depth + 1) text events →
      Begun (ItemList depth) begun events' → Gap gap →
      Before (.array :: stack) depth (text ++ 91 :: (begun ++ gap))
        (events ++ .arrayBegin :: events')
  | member {stack : List JsonMode} {depth : Nat}
      {text begun before key bytes behind gap : List UInt8} {events events' : List JsonEvent} :
      Before stack (depth + 1) text events → Begun (MemberList depth) begun events' →
      Gap before → Chars key bytes → Gap behind → Gap gap →
      Before (.object :: stack) depth
        (text ++ 123 :: (begun ++ (before ++ 34 :: (key ++ 34 :: (behind ++ 58 :: gap)))))
        (events ++ .objectBegin :: (events' ++ [.key bytes]))

/-- A member can begin here. -/
inductive Keying : List JsonMode → Nat → List UInt8 → List JsonEvent → Prop
  | intro {stack : List JsonMode} {depth : Nat} {text begun : List UInt8}
      {events events' : List JsonEvent} : Before stack (depth + 1) text events →
      Begun (MemberList depth) begun events' →
      Keying stack depth (text ++ 123 :: begun) (events ++ .objectBegin :: events')

/-- A value ends in front of the gap here; a comment can follow at once. -/
inductive Ended : List JsonMode → List UInt8 → List JsonEvent → Bool → Prop
  | intro {stack : List JsonMode} {depth : Nat} {before value gap : List UInt8}
      {told events : List JsonEvent} {ready commentable : Bool} :
      Before stack depth before told → ValueText depth value events ready → Follows ready gap →
      (commentable = true → ready = true ∨ gap ≠ []) →
      (stack = [.done] → events.head? ∈ [some .arrayBegin, some .objectBegin]) →
      Ended stack (before ++ (value ++ gap)) (told ++ events) commentable

section Places

variable {stack : List JsonMode} {depth : Nat} {text more : List UInt8}
  {events : List JsonEvent} {commentable : Bool} {c : UInt8}

theorem Before.length (h : Before stack depth text events) : stack.length + depth = 20 := by
  induction h with
  | top => rfl
  | item _ _ _ ih | member _ _ _ _ _ _ ih =>
      rw [List.length_cons]
      omega

theorem Before.stack_cases (h : Before stack depth text events) :
    stack = [.done] ∨ InValue stack := by
  cases h with
  | top => exact .inl rfl
  | item => exact .inr (.inl rfl)
  | member => exact .inr (.inr rfl)

theorem Before.gap (h : Before stack depth text events) (hgap : Gap more) :
    Before stack depth (text ++ more) events := by
  cases h with
  | top h => exact .top (h.append hgap)
  | item hbefore hbegun h =>
      have hmore := Before.item hbefore hbegun (h.append hgap)
      simpa using hmore
  | member hbefore hbegun hgap' hkey hbehind h =>
      have hmore := Before.member hbefore hbegun hgap' hkey hbehind (h.append hgap)
      simpa using hmore

/-- Behind the colon. -/
theorem Keying.value {before key bytes behind : List UInt8} (h : Keying stack depth text events)
    (hbefore : Gap before) (hkey : Chars key bytes) (hbehind : Gap behind) :
    Before (.object :: stack) depth
      (text ++ (before ++ 34 :: (key ++ 34 :: (behind ++ [58])))) (events ++ [.key bytes]) := by
  cases h with
  | intro hplace hbegun =>
      have hvalue := Before.member hplace hbegun hbefore hkey hbehind .nil
      simpa using hvalue

/-! ### Behind a value -/

theorem Ended.gap (h : Ended stack text events true) (hgap : Gap more) :
    Ended stack (text ++ more) events true := by
  cases h with
  | @intro _ before value gap _ _ ready _ hbefore hvalue hfollows hready hhead =>
      rw [List.append_assoc, List.append_assoc]
      refine .intro hbefore hvalue ⟨hfollows.1.append hgap, ?_⟩ ?_ hhead
      · intro hnot
        rw [hnot] at hready
        have hne := (hready rfl).resolve_left Bool.false_ne_true
        cases gap with
        | nil => exact absurd rfl hne
        | cons c gap => exact hfollows.2 hnot
      · intro _
        refine (hready rfl).imp_right fun hne => ?_
        exact List.append_ne_nil_of_left_ne_nil hne more

theorem Ended.space (h : Ended stack text events commentable) (hc : IsSpace c) :
    Ended stack (text ++ [c]) events true := by
  cases h with
  | @intro _ before value gap _ _ ready _ hbefore hvalue hfollows _ hhead =>
      rw [List.append_assoc, List.append_assoc]
      refine .intro hbefore hvalue ⟨hfollows.1.append (.space hc .nil), ?_⟩ ?_ hhead
      · intro hnot
        cases gap with
        | nil =>
            intro hslash
            obtain rfl := Option.some.inj hslash
            exact absurd hc (by decide)
        | cons c' gap => exact hfollows.2 hnot
      · exact fun _ => .inr (List.append_ne_nil_of_right_ne_nil gap (List.cons_ne_nil c []))

/-- Behind a value in an array there are some items of it. -/
theorem Ended.items (h : Ended (.array :: stack) text events commentable) :
    ∃ depth before told list events', Before stack (depth + 1) before told ∧
      ItemList depth list events' ∧ text = before ++ 91 :: list ∧
      events = told ++ .arrayBegin :: events' := by
  cases h with
  | intro hbefore hvalue hfollows =>
      cases hbefore with
      | item hbefore hbegun hgap =>
          refine ⟨_, _, _, _, _, hbefore, hbegun.item (.intro hgap hvalue hfollows), ?_, ?_⟩
          · simp
          · simp

theorem Ended.members (h : Ended (.object :: stack) text events commentable) :
    ∃ depth before told list events', Before stack (depth + 1) before told ∧
      MemberList depth list events' ∧ text = before ++ 123 :: list ∧
      events = told ++ .objectBegin :: events' := by
  cases h with
  | intro hbefore hvalue hfollows =>
      cases hbefore with
      | member hbefore hbegun hgap hkey hbehind hgap' =>
          refine ⟨_, _, _, _, _, hbefore,
            hbegun.member (.intro hgap hkey hbehind (.intro hgap' hvalue hfollows)), ?_, ?_⟩
          · simp
          · simp

/-- Where a value has ended, and nothing follows it. -/
theorem Before.ends {value : List UInt8} {events' : List JsonEvent}
    (h : Before stack depth text events) (hvalue : ValueText depth value events' commentable)
    (hhead : stack = [.done] → events'.head? ∈ [some .arrayBegin, some .objectBegin]) :
    Ended stack (text ++ value) (events ++ events') commentable := by
  have hbehind : Ended stack (text ++ (value ++ [])) (events ++ events') commentable :=
    .intro h hvalue ⟨.nil, fun _ => by simp⟩ .inl hhead
  rwa [List.append_nil] at hbehind

/-- The bracket behind an array. -/
theorem Before.endArray {items : List UInt8} {events' : List JsonEvent}
    (h : Before stack (depth + 1) text events) (hitems : ItemsText depth items events') :
    Ended stack (text ++ 91 :: (items ++ [93]))
      (events ++ .arrayBegin :: (events' ++ [.arrayEnd])) true :=
  h.ends (.array hitems) fun _ => by simp

theorem Before.endObject {members : List UInt8} {events' : List JsonEvent}
    (h : Before stack (depth + 1) text events) (hmembers : MembersText depth members events') :
    Ended stack (text ++ 123 :: (members ++ [125]))
      (events ++ .objectBegin :: (events' ++ [.objectEnd])) true :=
  h.ends (.object hmembers) fun _ => by simp

theorem Ended.top (h : Ended stack text events commentable) (hhead : stack.head? = some .done) :
    stack = [.done] := by
  cases h with
  | intro hbefore =>
      rcases hbefore.stack_cases with hstack | hvalue
      · exact hstack
      · rw [InValue, hhead] at hvalue
        exact absurd hvalue (by simp)

/-- **At the end** there is a document. -/
theorem Ended.document (h : Ended [.done] text events commentable) :
    Document text events := by
  cases h with
  | intro hbefore hvalue hfollows _ hhead =>
      cases hbefore with
      | top hgap =>
          have hhead := hhead rfl
          cases hvalue with
          | string => exact absurd hhead (by simp)
          | number hnumber => exact absurd hhead hnumber.not_begin
          | array hitems => exact .value hgap (.array hitems) hhead hfollows.1
          | object hmembers => exact .value hgap (.object hmembers) hhead hfollows.1

end Places

/-! ## Where there can be a gap -/

/-- The parser is between two parts of the text. -/
inductive Rests : JsonState → List JsonMode → List UInt8 → List JsonEvent → Prop
  | start {gap : List UInt8} : Gap gap → Rests .go [.done] gap []
  | behind {stack : List JsonMode} {text : List UInt8} {events : List JsonEvent} :
      Ended stack text events true → Rests .ok stack text events
  | firstKey {stack : List JsonMode} {depth : Nat} {text gap : List UInt8}
      {events : List JsonEvent} : Before stack (depth + 1) text events → Gap gap →
      Rests .ob (.key :: stack) (text ++ 123 :: gap) (events ++ [.objectBegin])
  | nextKey {stack : List JsonMode} {depth : Nat} {text list gap : List UInt8}
      {events events' : List JsonEvent} : Before stack (depth + 1) text events →
      MemberList depth list events' → Gap gap →
      Rests .ke (.key :: stack) (text ++ 123 :: (list ++ 44 :: gap))
        (events ++ .objectBegin :: events')
  | colon {stack : List JsonMode} {depth : Nat} {text before key bytes behind : List UInt8}
      {events : List JsonEvent} : Keying stack depth text events → Gap before →
      Chars key bytes → Gap behind →
      Rests .co (.key :: stack) (text ++ (before ++ 34 :: (key ++ 34 :: behind)))
        (events ++ [.key bytes])
  | value {stack : List JsonMode} {depth : Nat} {text : List UInt8} {events : List JsonEvent} :
      Before stack depth text events → InValue stack → Rests .va stack text events
  | array {stack : List JsonMode} {depth : Nat} {text gap : List UInt8}
      {events : List JsonEvent} : Before stack (depth + 1) text events → Gap gap →
      Rests .ar (.array :: stack) (text ++ 91 :: gap) (events ++ [.arrayBegin])

section Rests

variable {state : JsonState} {stack : List JsonMode} {text more : List UInt8}
  {events : List JsonEvent}

theorem Rests.gap (h : Rests state stack text events) (hgap : Gap more) :
    Rests state stack (text ++ more) events := by
  cases h with
  | start h => exact .start (h.append hgap)
  | behind h => exact .behind (h.gap hgap)
  | firstKey hbefore h =>
      have hmore := Rests.firstKey hbefore (h.append hgap)
      simpa using hmore
  | nextKey hbefore hlist h =>
      have hmore := Rests.nextKey hbefore hlist (h.append hgap)
      simpa using hmore
  | colon hkeying hgap' hkey h =>
      have hmore := Rests.colon hkeying hgap' hkey (h.append hgap)
      simpa using hmore
  | value hbefore hvalue => exact .value (hbefore.gap hgap) hvalue
  | array hbefore h =>
      have hmore := Rests.array hbefore (h.append hgap)
      simpa using hmore

theorem Rests.state_mem (h : Rests state stack text events) :
    state ∈ [JsonState.go, .ok, .ob, .ke, .co, .va, .ar] := by
  cases h <;> decide

theorem Rests.resumed (h : Rests state stack text events) : resumedState state stack = state := by
  cases h with
  | start | firstKey | nextKey | colon | array => rfl
  | behind => exact resumedState_ok stack
  | value _ hvalue => exact resumed_value hvalue (by decide)

/-- A member can begin. -/
theorem Rests.keying (h : Rests state (.key :: stack) text events) (hstate : state ≠ .co)
    (hok : state ≠ .ok) :
    ∃ depth before gap, Keying stack depth before events ∧ Gap gap ∧ text = before ++ gap := by
  cases h with
  | behind => exact absurd rfl hok
  | firstKey hbefore hgap =>
      refine ⟨_, _, _, .intro hbefore .first, hgap, ?_⟩
      simp
  | nextKey hbefore hlist hgap =>
      refine ⟨_, _, _, .intro hbefore (.next hlist), hgap, ?_⟩
      simp
  | colon => exact absurd rfl hstate
  | value _ hvalue => exact absurd hvalue (by simp [InValue])

end Rests

/-! ## Parts of values -/

/-- A number that an exponent can follow. -/
inductive Mantissa : List UInt8 → Prop
  | whole {text : List UInt8} {value : Int} : Whole false text value → Mantissa text
  | fraction {zero : Bool} {text digits : List UInt8} {value : Int} : Whole zero text value →
      (∀ d ∈ digits, IsDigit d) → Mantissa (text ++ 46 :: digits)

/-- The beginning of a number. -/
inductive NumberBegun : JsonState → List UInt8 → Prop
  | minus : NumberBegun .mi [45]
  | whole {zero : Bool} {text : List UInt8} {value : Int} : Whole zero text value →
      NumberBegun (afterWhole zero) text
  | point {zero : Bool} {text : List UInt8} {value : Int} : Whole zero text value →
      NumberBegun .fx (text ++ [46])
  | fraction {zero : Bool} {text digits : List UInt8} {value : Int} : Whole zero text value →
      digits ≠ [] → (∀ d ∈ digits, IsDigit d) → NumberBegun .fr (text ++ 46 :: digits)
  | letter {text : List UInt8} {e : UInt8} : Mantissa text → e ∈ [(69 : UInt8), 101] →
      NumberBegun .e1 (text ++ [e])
  | sign {text : List UInt8} {e sign : UInt8} : Mantissa text → e ∈ [(69 : UInt8), 101] →
      sign ∈ [(43 : UInt8), 45] → NumberBegun .e2 (text ++ [e, sign])
  | exponent {text exponent : List UInt8} : Mantissa text → Exponent exponent →
      NumberBegun .e3 (text ++ exponent)

/-- The type of a number that has begun. -/
def numberType (state : JsonState) : JsonType :=
  if state ∈ [JsonState.mi, .ze, .it] then .integer else .float

theorem Unsigned.first {c : UInt8} (hc : IsDigit c) : ∃ n, Unsigned (c = 48) [c] n := by
  by_cases hzero : c = 48
  · subst hzero
    exact ⟨0, .zero⟩
  · rw [decide_eq_false hzero]
    exact ⟨_, .digits hc hzero fun d hd => absurd hd List.not_mem_nil⟩

theorem Whole.digit {text : List UInt8} {value : Int} {d : UInt8} (h : Whole false text value)
    (hd : IsDigit d) : ∃ value, Whole false (text ++ [d]) value := by
  have hmore : ∀ {text : List UInt8} {n : Nat}, Unsigned false text n →
      ∃ n, Unsigned false (text ++ [d]) n := by
    rintro _ _ (_ | ⟨hc, hne, hrest⟩)
    refine ⟨_, .digits hc hne fun d' hd' => ?_⟩
    rcases List.mem_append.1 hd' with hmem | hmem
    · exact hrest d' hmem
    · rwa [List.mem_singleton.1 hmem]
  cases h with
  | plain hn =>
      obtain ⟨n, hn⟩ := hmore hn
      exact ⟨n, .plain hn⟩
  | minus hn =>
      obtain ⟨n, hn⟩ := hmore hn
      exact ⟨_, .minus hn⟩

theorem Exponent.digit {exponent : List UInt8} {d : UInt8} (h : Exponent exponent)
    (hd : IsDigit d) : Exponent (exponent ++ [d]) := by
  obtain @⟨e, sign, digits, he, hsign, -, hdigits⟩ := h
  rw [List.cons_append, List.append_assoc]
  refine .intro he hsign (List.append_ne_nil_of_right_ne_nil digits (List.cons_ne_nil d [])) ?_
  intro d' hd'
  rcases List.mem_append.1 hd' with hmem | hmem
  · exact hdigits d' hmem
  · rwa [List.mem_singleton.1 hmem]

theorem Mantissa.number {text exponent : List UInt8} (h : Mantissa text)
    (hexponent : Exponent exponent) : Number (text ++ exponent) .float false := by
  cases h with
  | whole h => exact .exponent h hexponent
  | fraction h hdigits =>
      rw [List.append_assoc]
      exact .both h hdigits hexponent

/-- The last of four digits. -/
theorem Hex.last {digits : List UInt8} {c : UInt8} {n : Nat} (h : Hex (digits ++ [c]) n) :
    ∃ value, hexValue c = some value := by
  generalize hfour : digits ++ [c] = four at h
  obtain @⟨_, _, _, d, _, _, _, z, -, -, -, hd⟩ := h
  have hlast := congrArg List.getLast? hfour
  rw [List.getLast?_concat] at hlast
  obtain rfl : c = d := Option.some.inj hlast
  exact ⟨z, hd⟩

theorem hex_of_length {digits : List UInt8} (hlength : digits.length = 4)
    (hdigits : ∀ d ∈ digits, (hexValue d).isSome = true) : ∃ n, Hex digits n := by
  obtain ⟨a, b, c, d, rfl⟩ : ∃ a b c d, digits = [a, b, c, d] := by
    rcases digits with _ | ⟨a, _ | ⟨b, _ | ⟨c, _ | ⟨d, rest⟩⟩⟩⟩
    · exact absurd hlength (by decide)
    · exact absurd hlength (by simp)
    · exact absurd hlength (by simp)
    · exact absurd hlength (by simp)
    · have hrest : rest = [] := List.length_eq_zero_iff.1 (by simpa using hlength)
      exact ⟨a, b, c, d, by rw [hrest]⟩
  have hvalue : ∀ x ∈ [a, b, c, d], ∃ value, hexValue x = some value :=
    fun x hx => Option.isSome_iff_exists.1 (hdigits x hx)
  obtain ⟨w, hw⟩ := hvalue a (by simp)
  obtain ⟨x, hx⟩ := hvalue b (by simp)
  obtain ⟨y, hy⟩ := hvalue c (by simp)
  obtain ⟨z, hz⟩ := hvalue d (by simp)
  exact ⟨_, .intro hw hx hy hz⟩

/-- What is not a half is a character. -/
theorem exists_char {n : Nat} (h : n < 0xD800 ∨ 0xDFFF < n ∧ n < 0x110000) :
    ∃ char : Char, char.toNat = n :=
  ⟨Char.ofNatAux n h, rfl⟩

/-- The characters of a string, and the first half of a pair that they end with. -/
inductive Halved : List UInt8 → List UInt8 → UInt16 → Prop
  | none {text bytes : List UInt8} : Chars text bytes → Halved text bytes 0
  | half {text bytes digits : List UInt8} {n : Nat} : Chars text bytes → Hex digits n →
      0xD800 ≤ n → n < 0xDC00 → Halved (text ++ 92 :: 117 :: digits) bytes (UInt16.ofNat n)

/-- In front of the digits of an escape, or behind some of them. -/
def digitState : Nat → JsonState
  | 0 => .u1
  | 1 => .u2
  | 2 => .u3
  | _ => .u4

/-- The beginning of a string behind its quote. -/
inductive StringBegun : JsonState → List UInt8 → List UInt8 → UInt16 → Prop
  | chars {text bytes : List UInt8} : Chars text bytes → StringBegun .st text bytes 0
  | digits {text bytes digits : List UInt8} {half : UInt16} : Halved text bytes half →
      digits.length < 4 → (∀ d ∈ digits, (hexValue d).isSome = true) →
      StringBegun (digitState digits.length) (text ++ 92 :: 117 :: digits)
        (bytes ++ 92 :: 117 :: digits) half
  | half {text bytes : List UInt8} {half : UInt16} : Halved text bytes half → half ≠ 0 →
      StringBegun .d1 text bytes half
  | backslash {text bytes : List UInt8} {half : UInt16} : Halved text bytes half → half ≠ 0 →
      StringBegun .d2 (text ++ [92]) (bytes ++ [92]) half

/-- A string can begin here. -/
inductive Quotes : List JsonMode → List UInt8 → List JsonEvent → Prop
  | value {stack : List JsonMode} {depth : Nat} {text : List UInt8} {events : List JsonEvent} :
      Before stack depth text events → InValue stack → Quotes stack text events
  | key {stack : List JsonMode} {depth : Nat} {text gap : List UInt8} {events : List JsonEvent} :
      Keying stack depth text events → Gap gap → Quotes (.key :: stack) (text ++ gap) events

/-- The beginning of a comment. -/
inductive CommentBegun : JsonState → List UInt8 → Prop
  | slash : CommentBegun .c1 [47]
  | body {text : List UInt8} :
      (∀ body, CommentRest false body → CommentRest false (text ++ body)) →
      CommentBegun .c2 (47 :: 42 :: text)
  | star {text : List UInt8} :
      (∀ body, CommentRest true body → CommentRest false (text ++ body)) →
      CommentBegun .c3 (47 :: 42 :: text)

end Burrow.Http
