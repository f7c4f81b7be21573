import Burrow.Http.JsonGaps
import Burrow.Http.JsonEscapes
import Mathlib.Data.List.TakeWhile

/-!
# Numbers in the texts of the JSON parser

A number is read where a value can stand, and waits to be delivered.
-/

set_option autoImplicit false

namespace Burrow.Http

/-! ## What `sscanf` reads -/

theorem takeWhile_digits {digits spaces : List UInt8} (hdigits : ∀ d ∈ digits, IsDigit d)
    (hspaces : ∀ c ∈ spaces, IsSpace c) :
    (digits ++ spaces).takeWhile (fun c => 48 ≤ c && c ≤ 57) = digits := by
  rw [List.takeWhile_append_of_pos]
  · cases spaces with
    | nil => rw [List.takeWhile_nil, List.append_nil]
    | cons c spaces =>
        have hno : [(32 : UInt8), 9, 10, 13].all (fun c => !(48 ≤ c && c ≤ 57)) = true := by
          decide
        have hnot := List.all_eq_true.1 hno c (hspaces c List.mem_cons_self)
        have hc := Bool.eq_false_iff.1 (Bool.not_eq_true' _ ▸ hnot)
        rw [List.takeWhile_cons, if_neg hc, List.append_nil]
  · intro d hd
    obtain ⟨hlow, hhigh⟩ := hdigits d hd
    rw [decide_eq_true hlow, decide_eq_true hhigh]
    rfl

theorem Unsigned.all_digits {zero : Bool} {text : List UInt8} {n : Nat} (h : Unsigned zero text n) :
    (∀ d ∈ text, IsDigit d) ∧ decimal text = n ∧ text.head? ≠ some 45 := by
  cases h with
  | zero => exact ⟨List.forall_mem_singleton.2 (by decide), rfl, by decide⟩
  | @digits c rest hc hzero hrest =>
      refine ⟨List.forall_mem_cons.2 ⟨hc, hrest⟩, rfl, ?_⟩
      rw [List.head?_cons]
      intro hminus
      rw [Option.some.inj hminus] at hc
      exact absurd hc (by decide)

theorem sscanfInteger_plain {buffer : List UInt8} (h : buffer.head? ≠ some 45) :
    JsonParser.sscanfInteger buffer =
      nearest (decimal (buffer.takeWhile fun c => 48 ≤ c && c ≤ 57)) := by
  rw [JsonParser.sscanfInteger]
  · rfl
  · rintro digits rfl
    exact h rfl

/-- White space behind a number is not read. -/
theorem sscanfInteger_whole {zero : Bool} {text spaces : List UInt8} {value : Int}
    (h : Whole zero text value) (hspaces : ∀ c ∈ spaces, IsSpace c) :
    JsonParser.sscanfInteger (text ++ spaces) = nearest value := by
  cases h with
  | plain hn =>
      obtain ⟨hdigits, rfl, hhead⟩ := hn.all_digits
      rw [sscanfInteger_plain, takeWhile_digits hdigits hspaces]
      cases text with
      | nil => cases hn
      | cons c text => exact hhead
  | minus hn =>
      obtain ⟨hdigits, rfl, -⟩ := hn.all_digits
      rename_i text
      have hread := takeWhile_digits hdigits hspaces
      have hminus : JsonParser.sscanfInteger (45 :: (text ++ spaces)) = nearest
          (-(decimal ((text ++ spaces).takeWhile fun c => 48 ≤ c && c ≤ 57) : Int)) := rfl
      rw [List.cons_append, hminus, hread]

/-! ## Digit by digit -/

section Numbers

variable {σ : Type} {malloc : Nat → Bool} {callback : JsonEvent → σ → Except JsonStop σ}
  {jc : JsonParser σ} {state : JsonState} {type : JsonType} {stack : List JsonMode}
  {buffer digits text : List UInt8} {c : UInt8} {zero : Bool} {value : Int}

theorem class_of_digit (h : IsDigit c) :
    characterClass (byteValue c) = some (if c = 48 then .zero else .digit) := by
  have hall : ∀ n < 256, IsDigit (UInt8.ofNat n) →
      characterClass (byteValue (UInt8.ofNat n)) =
        some (if UInt8.ofNat n = 48 then .zero else .digit) := by decide +kernel
  have hc := hall c.toNat (UInt8.toNat_lt c)
  rw [UInt8.ofNat_toNat] at hc
  exact hc h

theorem not_white_of_digit :
    ¬ ((if c = 48 then JsonClass.zero else .digit) = .space ∨
      (if c = 48 then JsonClass.zero else .digit) = .white) := by
  split <;> decide

/-- A digit that leads on to a state. -/
theorem JsonParser.At.digit (hmalloc : ∀ size, malloc size = true) {next : JsonState}
    (hzero : stateTransitionTable state .zero = .state next)
    (hdigit : stateTransitionTable state .digit = .state next)
    (hc : IsDigit c) (h : jc.At state type stack buffer 0) :
    Feeds malloc callback [c] [] (·.At next type stack (buffer ++ [c]) 0) jc := by
  have hpass : Feeds malloc callback [c] [] (·.At next type stack
      (keptIn type (if c = 48 then .zero else .digit) buffer c) 0) jc := by
    apply h.pass hmalloc (class_of_digit hc)
    split
    · exact hzero
    · exact hdigit
  rwa [keptIn_push not_white_of_digit] at hpass

/-- More digits, in a state that they do not lead on from. -/
theorem JsonParser.At.moreDigits (hmalloc : ∀ size, malloc size = true)
    (hzero : stateTransitionTable state .zero = .state state)
    (hdigit : stateTransitionTable state .digit = .state state)
    (hdigits : ∀ d ∈ digits, IsDigit d) (h : jc.At state type stack buffer 0) :
    Feeds malloc callback digits [] (·.At state type stack (buffer ++ digits) 0) jc := by
  induction digits generalizing jc buffer with
  | nil =>
      rw [List.append_nil]
      exact Feeds.nil h
  | cons d digits ih =>
      obtain ⟨hd, hrest⟩ := List.forall_mem_cons.1 hdigits
      refine (h.digit hmalloc hzero hdigit hd).cons fun jc₁ h₁ => ?_
      have hmore := ih hrest h₁
      rwa [List.append_assoc] at hmore

/-- Some digits, the first of which leads on. -/
theorem JsonParser.At.someDigits (hmalloc : ∀ size, malloc size = true) {next : JsonState}
    (hzero : stateTransitionTable state .zero = .state next)
    (hdigit : stateTransitionTable state .digit = .state next)
    (hzero' : stateTransitionTable next .zero = .state next)
    (hdigit' : stateTransitionTable next .digit = .state next)
    (hdigits : ∀ d ∈ digits, IsDigit d) (hne : digits ≠ [])
    (h : jc.At state type stack buffer 0) :
    Feeds malloc callback digits [] (·.At next type stack (buffer ++ digits) 0) jc := by
  cases digits with
  | nil => exact absurd rfl hne
  | cons d digits =>
      obtain ⟨hd, hrest⟩ := List.forall_mem_cons.1 hdigits
      refine (h.digit hmalloc hzero hdigit hd).cons fun jc₁ h₁ => ?_
      have hmore : Feeds malloc callback digits [] _ jc₁ :=
        h₁.moreDigits hmalloc hzero' hdigit' hrest
      rwa [List.append_assoc] at hmore

/-- Behind a whole number. -/
def afterWhole (zero : Bool) : JsonState := if zero then .ze else .it

/-- A whole number without its sign, from where its first digit leads on. -/
theorem unsigned_fed (buffer : List UInt8) (hmalloc : ∀ size, malloc size = true) {n : Nat}
    (htext : Unsigned zero text n)
    (hdigit : ∀ c, IsDigit c → Feeds malloc callback [c] []
      (·.At (afterWhole (c = 48)) .integer stack (buffer ++ [c]) 0) jc) :
    Feeds malloc callback text []
      (·.At (afterWhole zero) .integer stack (buffer ++ text) 0) jc := by
  cases htext with
  | zero => exact hdigit 48 (by decide)
  | @digits c rest hc hne hrest =>
      refine (hdigit c hc).cons fun jc₁ h₁ => ?_
      rw [decide_eq_false hne] at h₁
      have hmore : Feeds malloc callback rest [] _ jc₁ := h₁.moreDigits hmalloc rfl rfl hrest
      rwa [List.append_assoc] at hmore

theorem table_value : ∀ state ∈ [JsonState.va, .ar],
    stateTransitionTable state .minus = .action .mx ∧
      stateTransitionTable state .zero = .action .zx ∧
      stateTransitionTable state .digit = .action .ix := by decide

theorem JsonParser.At.minus (hmalloc : ∀ size, malloc size = true)
    (hstate : state ∈ [JsonState.va, .ar]) (h : jc.At state .none stack [] 0) :
    Feeds malloc callback [45] [] (·.At .mi .integer stack [45] 0) jc :=
  h.act hmalloc rfl (table_value state hstate).1 fun _ h₁ =>
    Machine.Makes.ok rfl (h₁.set .integer .mi)

/-- The first digit of a number. -/
theorem JsonParser.At.firstDigit (hmalloc : ∀ size, malloc size = true)
    (hstate : state ∈ [JsonState.va, .ar]) (hc : IsDigit c) (h : jc.At state .none stack [] 0) :
    Feeds malloc callback [c] [] (·.At (afterWhole (c = 48)) .integer stack [c] 0) jc := by
  obtain ⟨-, hzero, hdigit⟩ := table_value state hstate
  by_cases hne : c = 48
  · subst hne
    exact h.act hmalloc rfl hzero fun _ h₁ => Machine.Makes.ok rfl (h₁.set .integer .ze)
  · rw [decide_eq_false hne]
    refine h.act hmalloc (class_of_digit hc) (by rwa [if_neg hne]) fun jc₁ h₁ => ?_
    rw [keptIn_push not_white_of_digit] at h₁
    exact Machine.Makes.ok rfl (h₁.set .integer .it)

/-- The first digit behind a sign. -/
theorem JsonParser.At.signedDigit (hmalloc : ∀ size, malloc size = true) (hc : IsDigit c)
    (h : jc.At .mi .integer stack buffer 0) :
    Feeds malloc callback [c] []
      (·.At (afterWhole (c = 48)) .integer stack (buffer ++ [c]) 0) jc := by
  rw [← keptIn_push (@not_white_of_digit c) .integer buffer c]
  apply h.pass hmalloc (class_of_digit hc)
  by_cases hne : c = 48
  · rw [if_pos hne, decide_eq_true hne]
    rfl
  · rw [if_neg hne, decide_eq_false hne]
    rfl

/-- **A whole number.** -/
theorem JsonParser.At.whole (hmalloc : ∀ size, malloc size = true)
    (hstate : state ∈ [JsonState.va, .ar]) (htext : Whole zero text value)
    (h : jc.At state .none stack [] 0) :
    Feeds malloc callback text [] (·.At (afterWhole zero) .integer stack text 0) jc := by
  cases htext with
  | plain hn => exact unsigned_fed [] hmalloc hn fun c hc => h.firstDigit hmalloc hstate hc
  | minus hn =>
      refine (h.minus hmalloc hstate).cons fun jc₁ h₁ => ?_
      exact unsigned_fed [45] hmalloc hn fun c hc => h₁.signedDigit hmalloc hc

/-- The point behind a whole number. -/
theorem JsonParser.At.point (hmalloc : ∀ size, malloc size = true)
    (h : jc.At (afterWhole zero) .integer stack buffer 0) :
    Feeds malloc callback [46] [] (fun jc => ∃ buffer, jc.At .fx .float stack buffer 0) jc := by
  have htable : stateTransitionTable (afterWhole zero) .point = .action .df := by
    cases zero <;> rfl
  refine h.act hmalloc rfl htable fun jc₁ h₁ => ?_
  rw [keptIn_push (by decide)] at h₁
  have hlast : jc₁.parseBuffer.getLast? = some 46 := by
    rw [h₁.buffer, List.getLast?_concat]
  have hroom := h₁.room
  rw [JsonParser.act, jsonAssert_bind (by rw [h₁.type]; decide),
    if_neg (by rw [h₁.handleFloatsManually]; decide), jsonAssert_bind hlast]
  refine Machine.Makes.ok rfl ⟨jc₁.parseBuffer.dropLast ++ [jc₁.decimalPoint],
    { h₁ with state := rfl, type := rfl, buffer := rfl, room := ?_ }⟩
  rw [h₁.buffer, List.length_append] at hroom
  dsimp only
  rwa [h₁.buffer, List.dropLast_concat, List.length_append]

/-- An exponent, from where its letter leads on. -/
theorem exponent_fed (hmalloc : ∀ size, malloc size = true) {exponent : List UInt8}
    (hexponent : Exponent exponent)
    (hletter : ∀ c ∈ [(69 : UInt8), 101],
      Feeds malloc callback [c] [] (fun jc => ∃ buffer, jc.At .e1 .float stack buffer 0) jc) :
    Feeds malloc callback exponent [] (fun jc => ∃ buffer, jc.At .e3 .float stack buffer 0) jc := by
  obtain @⟨e, sign, digits, he, hsign, hne, hdigits⟩ := hexponent
  refine (hletter e he).cons fun jc₁ ⟨buffer, h₁⟩ => ?_
  have hrest : ∀ {state buffer} {jc : JsonParser σ},
      stateTransitionTable state .zero = .state .e3 →
      stateTransitionTable state .digit = .state .e3 → jc.At state .float stack buffer 0 →
      Feeds malloc callback digits [] (fun jc => ∃ buffer, jc.At .e3 .float stack buffer 0) jc :=
    fun hzero hdigit h =>
      (h.someDigits hmalloc hzero hdigit rfl rfl hdigits hne).mono fun _ h' => ⟨_, h'⟩
  simp only [List.mem_cons, List.not_mem_nil, or_false] at hsign
  rcases hsign with rfl | rfl | rfl
  · exact hrest rfl rfl h₁
  · have hplus : Feeds malloc callback [43] [] _ jc₁ := h₁.pass hmalloc rfl rfl
    exact hplus.append fun jc₂ h₂ => hrest rfl rfl h₂
  · have hminus : Feeds malloc callback [45] [] _ jc₁ := h₁.pass hmalloc rfl rfl
    exact hminus.append fun jc₂ h₂ => hrest rfl rfl h₂

theorem class_of_exponent (h : c ∈ [(69 : UInt8), 101]) :
    ∃ nextClass, characterClass (byteValue c) = some nextClass ∧
      (nextClass = .lowE ∨ nextClass = .e) := by
  simp only [List.mem_cons, List.not_mem_nil, or_false] at h
  rcases h with rfl | rfl
  · exact ⟨.e, rfl, .inr rfl⟩
  · exact ⟨.lowE, rfl, .inl rfl⟩

/-- The letter of an exponent at once behind a whole number. -/
theorem JsonParser.At.wholeExponent (hmalloc : ∀ size, malloc size = true)
    (hc : c ∈ [(69 : UInt8), 101]) (h : jc.At .it .integer stack buffer 0) :
    Feeds malloc callback [c] [] (fun jc => ∃ buffer, jc.At .e1 .float stack buffer 0) jc := by
  obtain ⟨nextClass, hclass, hletter⟩ := class_of_exponent hc
  have htable : stateTransitionTable .it nextClass = .action .de := by
    rcases hletter with rfl | rfl <;> rfl
  refine h.act hmalloc hclass htable fun jc₁ h₁ => ?_
  rw [JsonParser.act, jsonAssert_bind (by rw [h₁.type]; decide)]
  exact Machine.Makes.ok rfl ⟨_, h₁.set .float .e1⟩

/-- The letter of an exponent behind a fraction. -/
theorem JsonParser.At.fractionExponent (hmalloc : ∀ size, malloc size = true)
    (hc : c ∈ [(69 : UInt8), 101]) (hstate : state = .fx ∨ state = .fr)
    (h : jc.At state .float stack buffer 0) :
    Feeds malloc callback [c] [] (fun jc => ∃ buffer, jc.At .e1 .float stack buffer 0) jc := by
  obtain ⟨nextClass, hclass, hletter⟩ := class_of_exponent hc
  have htable : stateTransitionTable state nextClass = .state .e1 := by
    rcases hstate with rfl | rfl <;> rcases hletter with rfl | rfl <;> rfl
  exact (h.pass hmalloc hclass htable).mono fun jc₁ h₁ => ⟨_, h₁⟩

/-- A point, and the digits behind it. -/
theorem JsonParser.At.fraction (hmalloc : ∀ size, malloc size = true)
    (hdigits : ∀ d ∈ digits, IsDigit d) (h : jc.At (afterWhole zero) .integer stack buffer 0) :
    Feeds malloc callback (46 :: digits) [] (fun jc => ∃ buffer,
      jc.At (if digits = [] then .fx else .fr) .float stack buffer 0) jc := by
  refine (h.point hmalloc).cons fun jc₁ ⟨buffer₁, h₁⟩ => ?_
  by_cases hnil : digits = []
  · rw [hnil, if_pos rfl]
    exact Feeds.nil ⟨buffer₁, h₁⟩
  · rw [if_neg hnil]
    exact (h₁.someDigits hmalloc rfl rfl rfl rfl hdigits hnil).mono fun jc₂ h₂ => ⟨_, h₂⟩

/-- A number that has been read waits. -/
theorem JsonParser.At.number_waiting {event : JsonEvent} (h : jc.At state type stack buffer 0)
    (hends : state ∈ [JsonState.ze, .it, .fr, .e3, .fx]) (htype : type = .integer ∨ type = .float)
    (hhead : stack.head? = some .array ∨ stack.head? = some .object)
    (hevent : ∀ spaces, (∀ c ∈ spaces, IsSpace c) →
      pendingEvents type (buffer ++ spaces) = [event]) :
    jc.Waiting state type stack buffer [event] where
  place := h
  ends := List.mem_cons_of_mem _ hends
  number := List.mem_cons_of_mem _ (by simpa using htype)
  nothing := by
    rintro rfl
    exact absurd htype (by decide)
  enclosed := .inr hhead
  spaces := hevent

theorem JsonParser.At.integer_waiting (htext : Whole zero text value)
    (hhead : stack.head? = some .array ∨ stack.head? = some .object)
    (h : jc.At (afterWhole zero) .integer stack text 0) :
    jc.Waiting (afterWhole zero) .integer stack text [.integer (nearest value)] := by
  apply h.number_waiting _ (.inl rfl) hhead
  · intro spaces hspaces
    rw [← sscanfInteger_whole htext hspaces]
    rfl
  · cases zero <;> decide

theorem JsonParser.At.float_waiting (hends : state ∈ [JsonState.fr, .e3, .fx])
    (hhead : stack.head? = some .array ∨ stack.head? = some .object)
    (h : jc.At state .float stack buffer 0) : jc.Waiting state .float stack buffer [.float] :=
  h.number_waiting (List.mem_cons_of_mem _ (List.mem_cons_of_mem _ hends)) (.inr rfl) hhead
    fun _ _ => rfl

/-- **A number waits.** -/
theorem JsonParser.At.number (hmalloc : ∀ size, malloc size = true)
    (hstate : state ∈ [JsonState.va, .ar]) {event : JsonEvent} {commentable : Bool}
    (htext : Number text event commentable)
    (hhead : stack.head? = some .array ∨ stack.head? = some .object)
    (h : jc.At state .none stack [] 0) :
    Feeds malloc callback text [] (·.Waits stack [event] commentable) jc := by
  cases htext with
  | @integer zero text value hwhole =>
      refine (h.whole hmalloc hstate hwhole).mono fun jc₁ h₁ => ?_
      refine ⟨_, _, _, h₁.integer_waiting hwhole hhead, fun _ => ?_⟩
      cases zero <;> decide
  | @fraction zero text digits value hwhole hdigits =>
      refine (h.whole hmalloc hstate hwhole).append fun jc₁ h₁ => ?_
      refine (h₁.fraction hmalloc hdigits).mono fun jc₂ ⟨buffer, h₂⟩ => ?_
      refine ⟨_, _, _, h₂.float_waiting ?_ hhead, fun hne => ?_⟩
      · split <;> decide
      · rw [if_neg (of_decide_eq_true hne)]
        decide
  | @exponent text exponent value hwhole hexponent =>
      refine (h.whole hmalloc hstate hwhole).append fun jc₁ h₁ => ?_
      refine (exponent_fed hmalloc hexponent fun c hc => h₁.wholeExponent hmalloc hc).mono
        fun jc₂ ⟨buffer, h₂⟩ => ?_
      exact ⟨_, _, _, h₂.float_waiting (by decide) hhead,
        fun hfalse => absurd hfalse Bool.false_ne_true⟩
  | @both zero text digits exponent value hwhole hdigits hexponent =>
      refine (h.whole hmalloc hstate hwhole).append fun jc₁ h₁ => ?_
      refine (h₁.fraction hmalloc hdigits).append fun jc₂ ⟨buffer, h₂⟩ => ?_
      have hstate₂ : (if digits = [] then JsonState.fx else .fr) = .fx ∨
          (if digits = [] then JsonState.fx else .fr) = .fr := by
        split
        · exact .inl rfl
        · exact .inr rfl
      refine (exponent_fed hmalloc hexponent fun c hc =>
        h₂.fractionExponent hmalloc hc hstate₂).mono fun jc₃ ⟨buffer, h₃⟩ => ?_
      exact ⟨_, _, _, h₃.float_waiting (by decide) hhead,
        fun hfalse => absurd hfalse Bool.false_ne_true⟩

end Numbers

end Burrow.Http
