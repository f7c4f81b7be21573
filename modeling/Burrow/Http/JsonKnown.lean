import Burrow.Http.JsonAccepts

/-!
# What the JSON parser does not accept

A character that is accepted is one that the state knows (`knows_of_ok`), and some actions ask
for the innermost level on the stack, or for room on it.
-/

set_option autoImplicit false

namespace Burrow.Http

open Outcome

/-! ## The characters that a state knows -/

/-- What the table has an entry for; the letters of the literals do not matter. -/
def JsonState.Knows (state : JsonState) (c : UInt8) : Prop :=
  match state with
  | .go => IsSpace c ∨ c ∈ [(91 : UInt8), 123, 47]
  | .ok => IsSpace c ∨ c ∈ [(44 : UInt8), 93, 125, 47]
  | .ob => IsSpace c ∨ c ∈ [(34 : UInt8), 125, 47]
  | .ke => IsSpace c ∨ c ∈ [(34 : UInt8), 47]
  | .co => IsSpace c ∨ c ∈ [(58 : UInt8), 47]
  | .va => IsSpace c ∨ IsDigit c ∨ c ∈ [(91 : UInt8), 123, 34, 45, 102, 110, 116, 47]
  | .ar => IsSpace c ∨ IsDigit c ∨ c ∈ [(91 : UInt8), 123, 34, 45, 102, 110, 116, 47, 93]
  | .st => Ordinary c ∨ c ∈ [(34 : UInt8), 92]
  | .es => c ∈ shortEscapes.map Prod.fst ∨ c = 117
  | .u1 | .u2 | .u3 | .u4 => (hexValue c).isSome = true
  | .mi | .e2 => IsDigit c
  | .ze => IsSpace c ∨ c ∈ [(44 : UInt8), 93, 125, 47, 46]
  | .it => IsSpace c ∨ IsDigit c ∨ c ∈ [(44 : UInt8), 93, 125, 47, 46, 69, 101]
  | .fr => IsSpace c ∨ IsDigit c ∨ c ∈ [(44 : UInt8), 93, 125, 47, 69, 101]
  | .fx => IsSpace c ∨ IsDigit c ∨ c ∈ [(44 : UInt8), 93, 125, 69, 101]
  | .e1 => IsDigit c ∨ c ∈ [(43 : UInt8), 45]
  | .e3 => IsSpace c ∨ IsDigit c ∨ c ∈ [(44 : UInt8), 93, 125]
  | .c1 => c = 42
  | .c2 | .c3 => IsChar c
  | .d1 => c = 92
  | .d2 => c = 117
  | .t1 | .t2 | .t3 | .f1 | .f2 | .f3 | .f4 | .n1 | .n2 | .n3 => True

instance (state : JsonState) (c : UInt8) : Decidable (state.Knows c) := by
  unfold JsonState.Knows
  cases state <;> infer_instance

theorem knows_of_entry {state : JsonState} {c : UInt8} {nextClass : JsonClass}
    (hclass : characterClass (byteValue c) = some nextClass)
    (hentry : stateTransitionTable state nextClass ≠ .xx) : state.Knows c := by
  have hall : ∀ n < 256, (characterClass (byteValue (UInt8.ofNat n))).all (fun nextClass =>
      stateTransitionTable state nextClass ≠ .xx → state.Knows (UInt8.ofNat n)) = true := by
    cases state <;> decide +kernel
  have hc := hall c.toNat (UInt8.toNat_lt c)
  rw [UInt8.ofNat_toNat, hclass] at hc
  exact of_decide_eq_true hc hentry

section Accepted

variable {σ : Type} {malloc : Nat → Bool} {callback : JsonEvent → σ → Except JsonStop σ}
  {jc jc' : JsonParser σ} {state : JsonState} {stack : List JsonMode} {text : List UInt8}
  {told : List JsonEvent} {c : UInt8}

/-- A function of the parser leaves the state to the table. -/
def KeepsState (x : Except ParserStop (JsonParser σ)) (jc : JsonParser σ) : Prop :=
  Meets x (fun jc' => jc'.state = jc.state) fun _ => True

theorem pushBackChar_keeps (jc : JsonParser σ) (c : UInt8) :
    KeepsState (jc.parseBufferPushBackChar c) jc := by
  rw [JsonParser.parseBufferPushBackChar, jsonAssert]
  split
  · exact rfl
  · exact trivial

theorem addEscapedChar_keeps (jc : JsonParser σ) (nextChar : Int) :
    KeepsState (jc.addEscapedCharToParseBuffer nextChar) jc := by
  have hfold : ∀ (chars : List UInt8) (jc : JsonParser σ),
      KeepsState (chars.foldlM (fun jc c => jc.parseBufferPushBackChar c) jc) jc := by
    intro chars
    induction chars with
    | nil => exact fun jc => rfl
    | cons c chars ih =>
        intro jc
        rw [List.foldlM_cons]
        refine (pushBackChar_keeps jc c).bind fun jc₁ h₁ => ?_
        exact (ih jc₁).mono (fun jc₂ h₂ => h₂.trans h₁) fun _ => id
  have hassert : ∀ (p : Prop) [Decidable p],
      Meets (jsonAssert p) (fun _ => True) fun _ => True := by
    intro p _
    rw [jsonAssert]
    split
    · exact trivial
    · exact trivial
  refine (hassert _).bind fun _ _ => ?_
  refine Meets.bind (P := fun jc' => jc'.state = jc.state) ?_ fun jc₁ h₁ => ?_
  · rw [JsonParser.parseBufferPopBackChar]
    exact (hassert _).bind fun _ _ => rfl
  · split
    · exact trivial
    · exact (hfold _ jc₁).mono (fun jc₂ h₂ => h₂.trans h₁) fun _ => id

theorem addChar_keeps (jc : JsonParser σ) (nextChar : Int) (nextClass : JsonClass) :
    KeepsState (jc.addCharToParseBuffer malloc nextChar nextClass) jc := by
  have hreserve : KeepsState (jc.parseBufferReserveFor malloc) jc := by
    rw [JsonParser.parseBufferReserveFor]
    split
    · exact rfl
    · split
      · exact rfl
      · exact trivial
  refine hreserve.bind fun jc₁ h₁ => ?_
  rw [← h₁]
  split
  · exact addEscapedChar_keeps jc₁ nextChar
  · split
    · exact rfl
    · split
      · exact pushBackChar_keeps jc₁ _
      · exact rfl

/-- For a character that is accepted there is an entry in the table. -/
theorem entry_of_ok {nextChar : Int} (h : jsonParserChar malloc callback nextChar jc = .ok jc') :
    ∃ nextClass, characterClass nextChar = some nextClass ∧
      stateTransitionTable jc.state nextClass ≠ .xx := by
  rw [jsonParserChar] at h
  split at h
  · exact absurd h (by simp)
  cases hclass : characterClass nextChar with
  | none =>
      rw [hclass] at h
      exact absurd h (by simp)
  | some nextClass =>
      refine ⟨nextClass, rfl, fun hxx => ?_⟩
      rw [hclass] at h
      dsimp only at h
      cases hadd : jc.addCharToParseBuffer malloc nextChar nextClass with
      | error stop =>
          rw [hadd] at h
          exact absurd h (by simp [bind, Except.bind])
      | ok jc₁ =>
          have hstate := (addChar_keeps jc nextChar nextClass).of_eq_ok hadd
          rw [hadd] at h
          dsimp only [bind, Except.bind] at h
          rw [hstate, hxx] at h
          exact absurd h (by simp)

/-- A character that is accepted is one that the state knows. -/
theorem knows_of_ok (h : jsonParserChar malloc callback (byteValue c) jc = .ok jc') :
    jc.state.Knows c := by
  obtain ⟨nextClass, hclass, hne⟩ := entry_of_ok h
  exact knows_of_entry hclass hne

/-! ## What an action asks of the stack -/

/-- A function of the parser does not push or pop. -/
def KeepsStack (x : Except ParserStop (JsonParser σ)) (jc : JsonParser σ) : Prop :=
  Meets x (fun jc' => jc'.stack = jc.stack ∧ jc'.depth = jc.depth) fun _ => True

theorem KeepsStack.bind {x : Except ParserStop (JsonParser σ)}
    {f : JsonParser σ → Except ParserStop (JsonParser σ)} {P : JsonParser σ → Prop}
    (h : KeepsStack x jc)
    (hf : ∀ jc', jc'.stack = jc.stack → jc'.depth = jc.depth → Meets (f jc') P fun _ => True) :
    Meets (x >>= f) P fun _ => True :=
  Meets.bind h fun jc' hjc' => hf jc' hjc'.1 hjc'.2

theorem popBackChar_keepsStack (jc : JsonParser σ) : KeepsStack jc.parseBufferPopBackChar jc := by
  rw [JsonParser.parseBufferPopBackChar, jsonAssert]
  split
  · exact ⟨rfl, rfl⟩
  · exact trivial

theorem deliver_keepsStack (jc : JsonParser σ) (event : JsonEvent) :
    KeepsStack (jc.deliver callback event) jc := by
  rw [JsonParser.deliver]
  split
  · exact trivial
  · exact ⟨rfl, rfl⟩

theorem parseParseBuffer_keepsStack (jc : JsonParser σ) :
    KeepsStack (jc.parseParseBuffer callback) jc := by
  rw [JsonParser.parseParseBuffer]
  split
  · exact ⟨rfl, rfl⟩
  · exact (deliver_keepsStack jc _).bind fun _ hstack hdepth => ⟨hstack, hdepth⟩
  · exact (deliver_keepsStack jc _).bind fun _ hstack hdepth => ⟨hstack, hdepth⟩
  · exact (deliver_keepsStack jc _).bind fun _ hstack hdepth => ⟨hstack, hdepth⟩
  · exact trivial
  · exact trivial
  · exact trivial

/-- What waits is delivered, and the innermost level is left. -/
theorem close_stack {mode : JsonMode} {event : JsonEvent} (jc : JsonParser σ)
    {f : JsonParser σ → Except ParserStop (JsonParser σ)} :
    Meets (do
        let jc ← jc.parseBufferPopBackChar
        let jc ← jc.parseParseBuffer callback
        let jc ← jc.deliver callback event
        let jc ← jc.pop mode
        f jc)
      (fun _ => ∃ rest, jc.stack = mode :: rest) fun _ => True := by
  refine (popBackChar_keepsStack jc).bind fun jc₁ h₁ _ => ?_
  refine (parseParseBuffer_keepsStack jc₁).bind fun jc₂ h₂ _ => ?_
  refine (deliver_keepsStack jc₂ event).bind fun jc₃ h₃ _ => ?_
  rw [JsonParser.pop]
  cases hstack : jc₃.stack with
  | nil => exact trivial
  | cons top rest =>
      dsimp only
      split
      · next htop =>
          refine Meets.const ⟨rest, ?_⟩ fun _ => trivial
          rw [← h₁, ← h₂, ← h₃, hstack, htop]
      · exact trivial

/-- A level is entered. -/
theorem open_stack {mode : JsonMode} {event : JsonEvent} (jc : JsonParser σ)
    {f : JsonParser σ → Except ParserStop (JsonParser σ)} :
    Meets (do
        let jc ← jc.parseBufferPopBackChar
        let jc ← jc.deliver callback event
        let jc ← jc.push mode
        f jc)
      (fun _ => jc.stack.length ≠ jc.depth + 1) fun _ => True := by
  refine (popBackChar_keepsStack jc).bind fun jc₁ h₁ hdepth₁ => ?_
  refine (deliver_keepsStack jc₁ event).bind fun jc₂ h₂ hdepth₂ => ?_
  rw [JsonParser.push]
  split
  · exact trivial
  · next hroom =>
      rw [h₂, h₁, hdepth₂, hdepth₁] at hroom
      exact Meets.const hroom fun _ => trivial

/-- There is a next item or member. -/
theorem comma_stack (jc : JsonParser σ) :
    Meets (jc.act callback .m3) (fun _ => InValue jc.stack) fun _ => True := by
  rw [JsonParser.act]
  refine (popBackChar_keepsStack jc).bind fun jc₁ h₁ _ => ?_
  refine (parseParseBuffer_keepsStack jc₁).bind fun jc₂ h₂ _ => ?_
  rw [InValue, ← h₁, ← h₂]
  split
  · next hhead => exact Meets.const (.inr hhead) fun _ => trivial
  · next hhead => exact Meets.const (.inl hhead) fun _ => trivial
  · exact trivial

/-- The action of the table that a character has had taken. -/
theorem JsonParser.At.act_of_ok {type : JsonType} {buffer : List UInt8} {half : UInt16}
    (h : jc.At state type stack buffer half) (hmalloc : ∀ size, malloc size = true)
    {nextClass : JsonClass} {action : JsonAction}
    (hclass : characterClass (byteValue c) = some nextClass)
    (htable : stateTransitionTable state nextClass = .action action)
    (hok : jsonParserChar malloc callback (byteValue c) jc = .ok jc') :
    ∃ jc₁ : JsonParser σ, jc₁.At state type stack (keptIn type nextClass buffer c) half ∧
      jc₁.act callback action = .ok jc' := by
  obtain ⟨jc₁, hadd, -, h₁⟩ := h.add hmalloc c nextClass
  refine ⟨jc₁, h₁, ?_⟩
  rw [← h₁.state] at htable
  rw [← hok]
  exact (jsonParserChar_action (byteValue_not_neg c) hclass hadd htable).symm

/-- Where a character feeds the parser events and is accepted, the callback has accepted them. -/
theorem Feeds.of_ok {events : List JsonEvent} {P : JsonParser σ → Prop}
    (hfeeds : Feeds malloc callback text events P jc)
    (h : Machine.run (jsonParserChar malloc callback) (text.map byteValue) jc = .ok jc') :
    Machine.run callback events jc.ctx = .ok jc'.ctx ∧ P jc' := by
  rw [Feeds, Machine.Drives, Machine.Makes] at hfeeds
  cases hrun : Machine.run callback events jc.ctx with
  | ok ctx =>
      rw [hrun] at hfeeds
      obtain ⟨jc₁, hok, rfl, hp⟩ := hfeeds
      obtain rfl := Except.ok.inj (hok.symm.trans h)
      exact ⟨rfl, hp⟩
  | error stop =>
      rw [hrun] at hfeeds
      exact absurd (hfeeds.symm.trans h) (by simp)

end Accepted

end Burrow.Http
