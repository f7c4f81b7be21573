import Burrow.Http.JsonPlaces
import Burrow.Http.JsonKnown
import Burrow.Http.JsonNesting
import Mathlib.Tactic.Tauto

/-!
# Every text that the JSON parser accepts is a document

With each character that the parser accepts, what it has read is the beginning of a document up
to a place that its state stands for (`Place`), and what it has delivered belongs to that
beginning. With `document_fed`, the documents are the texts that it accepts (`accepts_iff`).
-/

set_option autoImplicit false

namespace Burrow.Http

open Outcome

section Accepted

variable {σ : Type} {malloc : Nat → Bool} {callback : JsonEvent → σ → Except JsonStop σ}
  {jc jc' : JsonParser σ} {state : JsonState} {stack : List JsonMode} {text : List UInt8}
  {told : List JsonEvent} {c : UInt8}

/-! ## Places -/

/-- **What the text has come to** where the parser is. -/
inductive Place : List UInt8 → List JsonEvent → JsonParser σ → Prop
  | rests {jc : JsonParser σ} {state : JsonState} {stack : List JsonMode} {text : List UInt8}
      {told : List JsonEvent} : Rests state stack text told → jc.At state .none stack [] 0 →
      Place text told jc
  | waits {jc : JsonParser σ} {type : JsonType} {stack : List JsonMode}
      {text buffer : List UInt8} {told pending : List JsonEvent} :
      Ended stack text (told ++ pending) true → jc.Waiting .ok type stack buffer pending →
      Place text told jc
  | comment {jc : JsonParser σ} {state before : JsonState} {stack : List JsonMode}
      {text part : List UInt8} {told : List JsonEvent} : Rests before stack text told →
      CommentBegun state part → jc.InComment state before stack → Place (text ++ part) told jc
  | number {jc : JsonParser σ} {state : JsonState} {stack : List JsonMode} {depth : Nat}
      {text part buffer : List UInt8} {told : List JsonEvent} : Before stack depth text told →
      InValue stack → NumberBegun state part → jc.At state (numberType state) stack buffer 0 →
      (numberType state = .integer → buffer = part) → Place (text ++ part) told jc
  | string {jc : JsonParser σ} {state : JsonState} {stack : List JsonMode}
      {text part buffer : List UInt8} {half : UInt16} {told : List JsonEvent} :
      Quotes stack text told → StringBegun state part buffer half →
      jc.At state .string stack buffer half → Place (text ++ 34 :: part) told jc
  | escape {jc : JsonParser σ} {stack : List JsonMode} {text part bytes : List UInt8}
      {told : List JsonEvent} : Quotes stack text told → Chars part bytes →
      jc.AtEscape stack bytes → Place (text ++ 34 :: (part ++ [92])) told jc
  | literal {jc : JsonParser σ} {state : JsonState} {type : JsonType} {stack : List JsonMode}
      {text buffer : List UInt8} {told : List JsonEvent} : IsLiteral type →
      state ∈ [JsonState.ok, .t1, .t2, .t3, .f1, .f2, .f3, .f4, .n1, .n2, .n3] →
      InValue stack → jc.At state type stack buffer 0 → Place text told jc

theorem Place.of_eq {text' : List UInt8} {told' : List JsonEvent} (h : Place text told jc)
    (htext : text = text') (htold : told = told') : Place text' told' jc := by
  rw [← htext, ← htold]
  exact h

/-- The parser has gone on to another place. -/
def Leads (callback : JsonEvent → σ → Except JsonStop σ) (text : List UInt8)
    (told : List JsonEvent) (jc jc' : JsonParser σ) : Prop :=
  ∃ events, Machine.run callback events jc.ctx = .ok jc'.ctx ∧ Place text (told ++ events) jc'

/-- A character that is accepted leads where it feeds the parser. -/
theorem Feeds.leads {events : List JsonEvent} {P : JsonParser σ → Prop}
    (h : Feeds malloc callback [c] events P jc)
    (hok : jsonParserChar malloc callback (byteValue c) jc = .ok jc')
    (hplace : ∀ jc', P jc' → Place (text ++ [c]) (told ++ events) jc') :
    Leads callback (text ++ [c]) told jc jc' := by
  have hrun := Machine.run_cons_of_ok (jsonParserChar malloc callback) hok []
  obtain ⟨hcall, hp⟩ := h.of_ok hrun
  exact ⟨events, hcall, hplace jc' hp⟩

/-- The same where nothing is delivered. -/
theorem Feeds.leads_quiet {P : JsonParser σ → Prop} (h : Feeds malloc callback [c] [] P jc)
    (hok : jsonParserChar malloc callback (byteValue c) jc = .ok jc')
    (hplace : ∀ jc', P jc' → Place (text ++ [c]) told jc') :
    Leads callback (text ++ [c]) told jc jc' := by
  refine h.leads hok fun jc₁ h₁ => ?_
  rw [List.append_nil]
  exact hplace jc₁ h₁

variable (hmalloc : ∀ size, malloc size = true)
  (hok : jsonParserChar malloc callback (byteValue c) jc = .ok jc')

include hmalloc hok

/-! ## Behind a value -/

/-- A comma behind a value. -/
theorem comma_leads {type : JsonType} {buffer : List UInt8} {pending : List JsonEvent}
    {commentable : Bool} (hended : Ended stack text (told ++ pending) commentable)
    (h : jc.Waiting state type stack buffer pending) (hc : c = 44) :
    Leads callback (text ++ [c]) told jc jc' := by
  subst hc
  have hwaits : jc.Waits stack pending false :=
    ⟨state, type, buffer, h, fun hfalse => absurd hfalse Bool.false_ne_true⟩
  obtain ⟨jc₁, h₁, hact⟩ := h.place.act_of_ok hmalloc rfl (table_behind state h.ends).1 hok
  have hvalue : InValue stack := by
    have hstack := (comma_stack jc₁).of_eq_ok hact
    rwa [h₁.stack] at hstack
  cases stack with
  | nil => exact absurd hvalue (by simp [InValue])
  | cons mode rest =>
      rcases hvalue with hhead | hhead
      · obtain rfl := Option.some.inj hhead
        obtain ⟨depth, before, told', list, events, hbefore, hlist, rfl, htold⟩ := hended.items
        refine (hwaits.nextItem hmalloc).leads hok fun jc₂ h₂ => ?_
        have hplace := Rests.value (.item hbefore (.next hlist) .nil) (.inl rfl)
        refine (Place.rests hplace h₂).of_eq ?_ htold.symm
        simp
      · obtain rfl := Option.some.inj hhead
        obtain ⟨depth, before, told', list, events, hbefore, hlist, rfl, htold⟩ := hended.members
        have hlength := hbefore.length
        refine (hwaits.nextMember hmalloc (by omega)).leads hok fun jc₂ h₂ => ?_
        refine (Place.rests (.nextKey hbefore hlist .nil) h₂).of_eq ?_ htold.symm
        simp

/-- A bracket behind a value. -/
theorem rsqrb_leads {type : JsonType} {buffer : List UInt8} {pending : List JsonEvent}
    {commentable : Bool} (hended : Ended stack text (told ++ pending) commentable)
    (h : jc.Waiting state type stack buffer pending) (hc : c = 93) :
    Leads callback (text ++ [c]) told jc jc' := by
  subst hc
  obtain ⟨jc₁, h₁, hact⟩ := h.place.act_of_ok hmalloc rfl (table_behind state h.ends).2.1 hok
  obtain ⟨rest, hstack⟩ := (close_stack jc₁).of_eq_ok hact
  obtain rfl := h₁.stack.symm.trans hstack
  have hwaits : jc.Waits (.array :: rest) pending false :=
    ⟨state, type, buffer, h, fun hfalse => absurd hfalse Bool.false_ne_true⟩
  obtain ⟨depth, before, told', list, events, hbefore, hlist, rfl, htold⟩ := hended.items
  refine (hwaits.endArray hmalloc).leads hok fun jc₂ h₂ => ?_
  refine (Place.rests (.behind (hbefore.endArray (.list hlist))) h₂).of_eq ?_ ?_
  · simp
  · rw [← List.append_assoc, htold]
    simp

/-- A brace behind a value. -/
theorem rcurb_leads {type : JsonType} {buffer : List UInt8} {pending : List JsonEvent}
    {commentable : Bool} (hended : Ended stack text (told ++ pending) commentable)
    (h : jc.Waiting state type stack buffer pending) (hc : c = 125) :
    Leads callback (text ++ [c]) told jc jc' := by
  subst hc
  obtain ⟨jc₁, h₁, hact⟩ := h.place.act_of_ok hmalloc rfl (table_behind state h.ends).2.2 hok
  obtain ⟨rest, hstack⟩ := (close_stack jc₁).of_eq_ok hact
  obtain rfl := h₁.stack.symm.trans hstack
  have hwaits : jc.Waits (.object :: rest) pending false :=
    ⟨state, type, buffer, h, fun hfalse => absurd hfalse Bool.false_ne_true⟩
  obtain ⟨depth, before, told', list, events, hbefore, hlist, rfl, htold⟩ := hended.members
  refine (hwaits.endObject hmalloc).leads hok fun jc₂ h₂ => ?_
  refine (Place.rests (.behind (hbefore.endObject (.list hlist))) h₂).of_eq ?_ ?_
  · simp
  · rw [← List.append_assoc, htold]
    simp

/-- **Behind a value** there is white space, a comment, a comma or a bracket. -/
theorem waiting_leads {type : JsonType} {buffer : List UInt8} {pending : List JsonEvent}
    {commentable : Bool} (hended : Ended stack text (told ++ pending) commentable)
    (h : jc.Waiting state type stack buffer pending)
    (hcomment : commentable = true → state ∈ [JsonState.ok, .ze, .it, .fr])
    (hc : IsSpace c ∨ c ∈ [(44 : UInt8), 93, 125] ∨ commentable = true ∧ c = 47) :
    Leads callback (text ++ [c]) told jc jc' := by
  rcases hc with hspace | hmem | ⟨rfl, rfl⟩
  · exact (h.space hmalloc hspace).leads_quiet hok fun jc₁ ⟨buffer', h₁⟩ =>
      .waits (hended.space hspace) h₁
  · simp only [List.mem_cons, List.not_mem_nil, or_false] at hmem
    rcases hmem with hc | hc | hc
    · exact comma_leads hmalloc hok hended h hc
    · exact rsqrb_leads hmalloc hok hended h hc
    · exact rcurb_leads hmalloc hok hended h hc
  · have hbegin : Feeds malloc callback [47] (pendingEvents type buffer) _ jc :=
      h.place.beginComment hmalloc (table_commented state (hcomment rfl)) h.plain.1 h.plain.2
    rw [h.pending_eq, h.resumed] at hbegin
    exact hbegin.leads hok fun jc₁ h₁ => .comment (.behind hended) .slash h₁

/-! ## Where a value can begin -/

theorem bracket_leads {depth : Nat} (hbefore : Before stack depth text told)
    (h : jc.At state .none stack [] 0) (hstate : state ∈ [JsonState.go, .va, .ar])
    (hc : c = 91 ∨ c = 123) : Leads callback (text ++ [c]) told jc jc' := by
  have hlength := hbefore.length
  -- without room on the stack the parser does not go on
  have hroom : ∀ jc₁ : JsonParser σ, ∀ {buffer}, jc₁.At state .none stack buffer 0 →
      jc₁.stack.length ≠ jc₁.depth + 1 → 0 < depth := by
    intro jc₁ buffer h₁ hne
    rw [h₁.stack, h₁.depth] at hne
    omega
  rcases hc with rfl | rfl
  · obtain ⟨jc₁, h₁, hact⟩ := h.act_of_ok hmalloc rfl (table_open state hstate).1 hok
    have hpos := hroom jc₁ h₁ ((open_stack jc₁).of_eq_ok hact)
    obtain ⟨depth, rfl⟩ := Nat.exists_eq_succ_of_ne_zero (Nat.ne_of_gt hpos)
    refine (h.beginArray hmalloc hstate (by omega)).leads hok fun jc₂ h₂ => ?_
    exact .rests (.array hbefore .nil) h₂
  · obtain ⟨jc₁, h₁, hact⟩ := h.act_of_ok hmalloc rfl (table_open state hstate).2 hok
    have hpos := hroom jc₁ h₁ ((open_stack jc₁).of_eq_ok hact)
    obtain ⟨depth, rfl⟩ := Nat.exists_eq_succ_of_ne_zero (Nat.ne_of_gt hpos)
    refine (h.beginObject hmalloc hstate (by omega)).leads hok fun jc₂ h₂ => ?_
    exact .rests (.firstKey hbefore .nil) h₂

theorem quote_leads (hquotes : Quotes stack text told) (h : jc.At state .none stack [] 0)
    (hstate : state ∈ [JsonState.ob, .ke, .va, .ar]) (hc : c = 34) :
    Leads callback (text ++ [c]) told jc jc' := by
  subst hc
  refine (h.beginString hmalloc hstate).leads_quiet hok fun jc₁ h₁ => ?_
  exact .string hquotes (.chars .nil) h₁

theorem literal_leads (hvalue : InValue stack) (h : jc.At state .none stack [] 0)
    (hstate : state ∈ [JsonState.va, .ar]) (hc : c ∈ [(102 : UInt8), 110, 116]) :
    Leads callback (text ++ [c]) told jc jc' := by
  have htable : ∀ state ∈ [JsonState.va, .ar],
      stateTransitionTable state .lowF = .action .fa ∧
        stateTransitionTable state .lowN = .action .nu ∧
        stateTransitionTable state .lowT = .action .tr := by decide
  obtain ⟨hfalse, hnull, htrue⟩ := htable state hstate
  have hbegin : ∀ {action type next}, (∀ jc : JsonParser σ,
      jc.act callback action = do
        jsonAssert (jc.type = .none)
        return { jc with type := type, state := next }) →
      ∀ {nextClass}, characterClass (byteValue c) = some nextClass →
      stateTransitionTable state nextClass = .action action →
      Feeds malloc callback [c] [] (fun jc => ∃ buffer, jc.At next type stack buffer 0) jc := by
    intro action type next hact nextClass hclass htable
    refine h.act hmalloc hclass htable fun jc₁ h₁ => ?_
    rw [hact, jsonAssert_bind h₁.type]
    exact Machine.Makes.ok rfl ⟨_, h₁.set type next⟩
  simp only [List.mem_cons, List.not_mem_nil, or_false] at hc
  rcases hc with rfl | rfl | rfl
  · refine (hbegin (fun _ => rfl) rfl hfalse).leads_quiet hok fun jc₁ ⟨buffer, h₁⟩ => ?_
    exact .literal (.inr (.inl rfl)) (by decide) hvalue h₁
  · refine (hbegin (fun _ => rfl) rfl hnull).leads_quiet hok fun jc₁ ⟨buffer, h₁⟩ => ?_
    exact .literal (.inr (.inr rfl)) (by decide) hvalue h₁
  · refine (hbegin (fun _ => rfl) rfl htrue).leads_quiet hok fun jc₁ ⟨buffer, h₁⟩ => ?_
    exact .literal (.inl rfl) (by decide) hvalue h₁

theorem digit_leads {depth : Nat} (hbefore : Before stack depth text told)
    (hvalue : InValue stack) (h : jc.At state .none stack [] 0)
    (hstate : state ∈ [JsonState.va, .ar]) (hc : IsDigit c) :
    Leads callback (text ++ [c]) told jc jc' := by
  refine (h.firstDigit hmalloc hstate hc).leads_quiet hok fun jc₁ h₁ => ?_
  obtain ⟨n, hn⟩ := Unsigned.first hc
  have htype : numberType (afterWhole (c = 48)) = .integer := by
    cases decide (c = 48) <;> rfl
  rw [← htype] at h₁
  exact .number hbefore hvalue (.whole (.plain hn)) h₁ fun _ => rfl

theorem minus_leads {depth : Nat} (hbefore : Before stack depth text told)
    (hvalue : InValue stack) (h : jc.At state .none stack [] 0)
    (hstate : state ∈ [JsonState.va, .ar]) (hc : c = 45) :
    Leads callback (text ++ [c]) told jc jc' := by
  subst hc
  refine (h.minus hmalloc hstate).leads_quiet hok fun jc₁ h₁ => ?_
  exact .number hbefore hvalue .minus h₁ fun _ => rfl

/-- **A value begins.** -/
theorem value_leads {depth : Nat} (hbefore : Before stack depth text told)
    (hvalue : InValue stack) (h : jc.At state .none stack [] 0)
    (hstate : state ∈ [JsonState.va, .ar])
    (hc : IsDigit c ∨ c ∈ [(91 : UInt8), 123, 34, 45, 102, 110, 116]) :
    Leads callback (text ++ [c]) told jc jc' := by
  have hstring : state ∈ [JsonState.ob, .ke, .va, .ar] :=
    List.mem_cons_of_mem _ (List.mem_cons_of_mem _ hstate)
  rcases hc with hdigit | hc
  · exact digit_leads hmalloc hok hbefore hvalue h hstate hdigit
  · simp only [List.mem_cons, List.not_mem_nil, or_false] at hc
    have hbracket : c = 91 ∨ c = 123 → Leads callback (text ++ [c]) told jc jc' :=
      bracket_leads hmalloc hok hbefore h (List.mem_cons_of_mem _ hstate)
    have hliteral : c ∈ [(102 : UInt8), 110, 116] → Leads callback (text ++ [c]) told jc jc' :=
      literal_leads hmalloc hok hvalue h hstate
    rcases hc with hc | hc | hc | hc | hc | hc | hc
    · exact hbracket (.inl hc)
    · exact hbracket (.inr hc)
    · exact quote_leads hmalloc hok (.value hbefore hvalue) h hstring hc
    · exact minus_leads hmalloc hok hbefore hvalue h hstate hc
    · exact hliteral (by simp [hc])
    · exact hliteral (by simp [hc])
    · exact hliteral (by simp [hc])

/-! ## Where there can be a gap -/

/-- White space, or the `/` of a comment. -/
theorem gap_leads (hrests : Rests state stack text told) (h : jc.At state .none stack [] 0)
    (hc : IsSpace c ∨ c = 47) : Leads callback (text ++ [c]) told jc jc' := by
  rcases hc with hspace | rfl
  · have hgap : Gap [c] := .space hspace .nil
    refine (h.gap hmalloc hrests.state_mem hrests.resumed hgap).leads_quiet hok fun jc₁ h₁ => ?_
    exact .rests (hrests.gap hgap) h₁
  · have htable : ∀ state ∈ [JsonState.go, .ok, .ob, .ke, .co, .va, .ar],
        stateTransitionTable state .slash = .action .cb := by decide
    have hbegin : Feeds malloc callback [47] [] _ jc :=
      h.beginComment hmalloc (htable state hrests.state_mem) (by decide) (by decide)
    rw [hrests.resumed] at hbegin
    exact hbegin.leads_quiet hok fun jc₁ h₁ => .comment hrests .slash h₁

/-- The brace of an empty object. -/
theorem emptyObject_leads (hrests : Rests .ob (.key :: stack) text told)
    (h : jc.At .ob .none (.key :: stack) [] 0) (hc : c = 125) :
    Leads callback (text ++ [c]) told jc jc' := by
  subst hc
  cases hrests with
  | firstKey hbefore hgap =>
      refine (h.endEmptyObject hmalloc).leads hok fun jc₁ h₁ => ?_
      refine (Place.rests (.behind (hbefore.endObject (.empty hgap))) h₁).of_eq ?_ ?_
      · simp
      · simp

/-- The bracket of an empty array. -/
theorem emptyArray_leads (hrests : Rests .ar (.array :: stack) text told)
    (h : jc.At .ar .none (.array :: stack) [] 0) (hc : c = 93) :
    Leads callback (text ++ [c]) told jc jc' := by
  subst hc
  cases hrests with
  | array hbefore hgap =>
      refine (h.endEmptyArray hmalloc).leads hok fun jc₁ h₁ => ?_
      refine (Place.rests (.behind (hbefore.endArray (.empty hgap))) h₁).of_eq ?_ ?_
      · simp
      · simp

/-- The colon behind a key. -/
theorem colon_leads (hrests : Rests .co (.key :: stack) text told)
    (h : jc.At .co .none (.key :: stack) [] 0) (hc : c = 58) :
    Leads callback (text ++ [c]) told jc jc' := by
  subst hc
  cases hrests with
  | colon hkeying hbefore hkey hbehind =>
      have hplace := hkeying.value hbefore hkey hbehind
      have hlength := hplace.length
      rw [List.length_cons] at hlength
      refine (h.colon hmalloc (by omega)).leads_quiet hok fun jc₁ h₁ => ?_
      refine (Place.rests (.value hplace (.inr rfl)) h₁).of_eq ?_ rfl
      simp

/-- The quote of a key. -/
theorem key_leads (hrests : Rests state (.key :: stack) text told)
    (h : jc.At state .none (.key :: stack) [] 0) (hstate : state = .ob ∨ state = .ke)
    (hc : c = 34) : Leads callback (text ++ [c]) told jc jc' := by
  have hplaces : ∀ state, state = JsonState.ob ∨ state = .ke →
      state ≠ .co ∧ state ≠ .ok ∧ state ∈ [JsonState.ob, .ke, .va, .ar] := by
    rintro _ (rfl | rfl) <;> decide
  obtain ⟨hco, hne, hmem⟩ := hplaces state hstate
  obtain ⟨depth, before, gap, hkeying, hgap, rfl⟩ := hrests.keying hco hne
  exact quote_leads hmalloc hok (.key hkeying hgap) h hmem hc

/-- **Between two parts of a text.** -/
theorem rests_leads (hrests : Rests state stack text told) (h : jc.At state .none stack [] 0) :
    Leads callback (text ++ [c]) told jc jc' := by
  have hknows := knows_of_ok hok
  rw [h.state] at hknows
  have hgap : IsSpace c ∨ c = 47 → Leads callback (text ++ [c]) told jc jc' :=
    gap_leads hmalloc hok hrests h
  cases hrests with
  | start hstart =>
      have hc : IsSpace c ∨ c ∈ [(91 : UInt8), 123, 47] := hknows
      simp only [List.mem_cons, List.not_mem_nil, or_false] at hc
      have hbracket : c = 91 ∨ c = 123 → Leads callback (text ++ [c]) [] jc jc' :=
        bracket_leads hmalloc hok (.top hstart) h (by decide)
      tauto
  | behind hended =>
      have hc : IsSpace c ∨ c ∈ [(44 : UInt8), 93, 125, 47] := hknows
      rw [← List.append_nil told] at hended
      refine waiting_leads hmalloc hok hended h.waiting (fun _ => by decide) ?_
      simp only [List.mem_cons, List.not_mem_nil, or_false] at hc ⊢
      tauto
  | firstKey hbefore hstart =>
      have hc : IsSpace c ∨ c ∈ [(34 : UInt8), 125, 47] := hknows
      simp only [List.mem_cons, List.not_mem_nil, or_false] at hc
      have hkey := key_leads hmalloc hok (.firstKey hbefore hstart) h (.inl rfl)
      have hempty := emptyObject_leads hmalloc hok (.firstKey hbefore hstart) h
      tauto
  | nextKey hbefore hlist hstart =>
      have hc : IsSpace c ∨ c ∈ [(34 : UInt8), 47] := hknows
      simp only [List.mem_cons, List.not_mem_nil, or_false] at hc
      have hkey := key_leads hmalloc hok (.nextKey hbefore hlist hstart) h (.inr rfl)
      tauto
  | colon hkeying hbefore hkey hbehind =>
      have hc : IsSpace c ∨ c ∈ [(58 : UInt8), 47] := hknows
      simp only [List.mem_cons, List.not_mem_nil, or_false] at hc
      have hcolon := colon_leads hmalloc hok (.colon hkeying hbefore hkey hbehind) h
      tauto
  | value hbefore hvalue =>
      have hc : IsSpace c ∨ IsDigit c ∨ c ∈ [(91 : UInt8), 123, 34, 45, 102, 110, 116, 47] :=
        hknows
      have hbegin := value_leads hmalloc hok hbefore hvalue h (by decide)
      simp only [List.mem_cons, List.not_mem_nil, or_false] at hc hbegin
      tauto
  | array hbefore hstart =>
      have hc : IsSpace c ∨ IsDigit c ∨
          c ∈ [(91 : UInt8), 123, 34, 45, 102, 110, 116, 47, 93] := hknows
      have hbegin := value_leads hmalloc hok (.item hbefore .first hstart) (.inl rfl) h (by decide)
      have hempty := emptyArray_leads hmalloc hok (.array hbefore hstart) h
      simp only [List.mem_cons, List.not_mem_nil, or_false, List.nil_append] at hc hbegin
      tauto

/-! ## Numbers -/

section Numbers

variable {depth : Nat} {part buffer : List UInt8} {zero : Bool} {value : Int}
  (hbefore : Before stack depth text told) (hvalue : InValue stack)

include hbefore hvalue

/-- What can stand behind a number. -/
theorem number_ends {type : JsonType} {event : JsonEvent} {commentable : Bool}
    (hnumber : Number part event commentable)
    (h : jc.Waiting state type stack buffer [event])
    (hcomment : commentable = true → state ∈ [JsonState.ok, .ze, .it, .fr])
    (hc : IsSpace c ∨ c ∈ [(44 : UInt8), 93, 125] ∨ commentable = true ∧ c = 47) :
    Leads callback (text ++ part ++ [c]) told jc jc' := by
  have hended : Ended stack (text ++ part) (told ++ [event]) commentable := by
    apply hbefore.ends (.number hnumber)
    rintro rfl
    exact absurd hvalue (by simp [InValue])
  exact waiting_leads hmalloc hok hended h hcomment hc

omit hmalloc hok in
/-- A floating point number that has begun. -/
theorem float_place {number : List UInt8} (hbegun : NumberBegun state number)
    (htype : numberType state = .float) (h : jc.At state .float stack buffer 0) :
    Place (text ++ number) told jc := by
  rw [← htype] at h
  refine .number hbefore hvalue hbegun h fun hinteger => ?_
  rw [htype] at hinteger
  exact absurd hinteger (by decide)

theorem signed_leads (h : jc.At .mi .integer stack [45] 0) :
    Leads callback (text ++ [45] ++ [c]) told jc jc' := by
  have hknows := knows_of_ok hok
  rw [h.state] at hknows
  obtain ⟨n, hn⟩ := Unsigned.first hknows
  refine (h.signedDigit hmalloc hknows).leads_quiet hok fun jc₁ h₁ => ?_
  have htype : numberType (afterWhole (c = 48)) = .integer := by
    cases decide (c = 48) <;> rfl
  rw [← htype] at h₁
  refine (Place.number hbefore hvalue (.whole (.minus hn)) h₁ fun _ => rfl).of_eq ?_ rfl
  simp

/-- The point behind a whole number. -/
theorem point_leads (hwhole : Whole zero part value)
    (h : jc.At (afterWhole zero) .integer stack part 0) (hc : c = 46) :
    Leads callback (text ++ part ++ [c]) told jc jc' := by
  subst hc
  refine (h.point hmalloc).leads_quiet hok fun jc₁ ⟨buffer, h₁⟩ => ?_
  rw [List.append_assoc]
  exact float_place hbefore hvalue (.point hwhole) rfl h₁

theorem whole_leads (hwhole : Whole zero part value)
    (h : jc.At (afterWhole zero) .integer stack part 0) :
    Leads callback (text ++ part ++ [c]) told jc jc' := by
  have hknows := knows_of_ok hok
  rw [h.state] at hknows
  have hends : IsSpace c ∨ c ∈ [(44 : UInt8), 93, 125] ∨ true = true ∧ c = 47 →
      Leads callback (text ++ part ++ [c]) told jc jc' :=
    number_ends hmalloc hok hbefore hvalue (.integer hwhole) (h.integer_waiting hwhole hvalue)
      fun _ => by cases zero <;> decide
  have hpoint := point_leads hmalloc hok hbefore hvalue hwhole h
  simp only [List.mem_cons, List.not_mem_nil, or_false, true_and] at hends
  cases zero with
  | true =>
      have hc : IsSpace c ∨ c ∈ [(44 : UInt8), 93, 125, 47, 46] := hknows
      simp only [List.mem_cons, List.not_mem_nil, or_false] at hc
      tauto
  | false =>
      have hc : IsSpace c ∨ IsDigit c ∨ c ∈ [(44 : UInt8), 93, 125, 47, 46, 69, 101] := hknows
      have hdigit : IsDigit c → Leads callback (text ++ part ++ [c]) told jc jc' := by
        intro hc
        obtain ⟨value', hmore⟩ := hwhole.digit hc
        have hfeeds : Feeds malloc callback [c] [] _ jc := h.digit hmalloc rfl rfl hc
        refine hfeeds.leads_quiet hok fun jc₁ h₁ => ?_
        rw [List.append_assoc]
        exact .number hbefore hvalue (.whole hmore) h₁ fun _ => rfl
      have hletter : c ∈ [(69 : UInt8), 101] →
          Leads callback (text ++ part ++ [c]) told jc jc' := by
        intro hc
        refine (h.wholeExponent hmalloc hc).leads_quiet hok fun jc₁ ⟨buffer, h₁⟩ => ?_
        rw [List.append_assoc]
        exact float_place hbefore hvalue (.letter (.whole hwhole) hc) rfl h₁
      simp only [List.mem_cons, List.not_mem_nil, or_false] at hc hletter
      tauto

/-- A digit behind a point. -/
theorem fraction_leads {digits : List UInt8} (hwhole : Whole zero part value)
    (hdigits : ∀ d ∈ digits, IsDigit d) (h : jc.At state .float stack buffer 0)
    (hstate : state = .fx ∨ state = .fr) (hc : IsDigit c) :
    Leads callback (text ++ (part ++ 46 :: digits) ++ [c]) told jc jc' := by
  have hfeeds : Feeds malloc callback [c] [] (·.At .fr .float stack (buffer ++ [c]) 0) jc := by
    rcases hstate with rfl | rfl
    · exact h.digit hmalloc rfl rfl hc
    · exact h.digit hmalloc rfl rfl hc
  refine hfeeds.leads_quiet hok fun jc₁ h₁ => ?_
  have hmore : ∀ d ∈ digits ++ [c], IsDigit d := by
    intro d hd
    rcases List.mem_append.1 hd with hmem | hmem
    · exact hdigits d hmem
    · rwa [List.mem_singleton.1 hmem]
  have hne := List.append_ne_nil_of_right_ne_nil digits (List.cons_ne_nil c [])
  refine (float_place hbefore hvalue (.fraction hwhole hne hmore) rfl h₁).of_eq ?_ rfl
  simp

/-- The letter of an exponent behind a fraction. -/
theorem fractionLetter_leads {digits : List UInt8} (hwhole : Whole zero part value)
    (hdigits : ∀ d ∈ digits, IsDigit d) (h : jc.At state .float stack buffer 0)
    (hstate : state = .fx ∨ state = .fr) (hc : c ∈ [(69 : UInt8), 101]) :
    Leads callback (text ++ (part ++ 46 :: digits) ++ [c]) told jc jc' := by
  refine (h.fractionExponent hmalloc hc hstate).leads_quiet hok fun jc₁ ⟨buffer, h₁⟩ => ?_
  rw [List.append_assoc]
  exact float_place hbefore hvalue (.letter (.fraction hwhole hdigits) hc) rfl h₁

/-- A digit of an exponent. -/
theorem exponent_leads {exponent : List UInt8} (hmantissa : Mantissa part)
    (hexponent : Exponent (exponent ++ [c])) (h : jc.At state .float stack buffer 0)
    (hstate : state ∈ [JsonState.e1, .e2, .e3]) (hc : IsDigit c) :
    Leads callback (text ++ (part ++ exponent) ++ [c]) told jc jc' := by
  have htable : ∀ state ∈ [JsonState.e1, .e2, .e3],
      stateTransitionTable state .zero = .state .e3 ∧
        stateTransitionTable state .digit = .state .e3 := by decide
  obtain ⟨hzero, hdigit⟩ := htable state hstate
  refine (h.digit hmalloc hzero hdigit hc).leads_quiet hok fun jc₁ h₁ => ?_
  refine (float_place hbefore hvalue (.exponent hmantissa hexponent) rfl h₁).of_eq ?_ rfl
  simp

/-- **In a number.** -/
theorem number_leads (hbegun : NumberBegun state part)
    (h : jc.At state (numberType state) stack buffer 0)
    (hbuffer : numberType state = .integer → buffer = part) :
    Leads callback (text ++ part ++ [c]) told jc jc' := by
  have hknows := knows_of_ok hok
  rw [h.state] at hknows
  cases hbegun with
  | minus =>
      obtain rfl := hbuffer rfl
      exact signed_leads hmalloc hok hbefore hvalue h
  | @whole zero _ _ hwhole =>
      have htype : numberType (afterWhole zero) = .integer := by
        cases zero <;> rfl
      obtain rfl := hbuffer htype
      rw [htype] at h
      exact whole_leads hmalloc hok hbefore hvalue hwhole h
  | point hwhole =>
      have hc : IsSpace c ∨ IsDigit c ∨ c ∈ [(44 : UInt8), 93, 125] ++ [69, 101] := hknows
      have hnone : ∀ d ∈ ([] : List UInt8), IsDigit d := List.forall_mem_nil _
      have hends := @number_ends _ _ _ _ _ _ _ _ _ _ hmalloc hok _ _ _ hbefore hvalue _ _ _
        (.fraction hwhole hnone) (h.float_waiting (by decide) hvalue) (fun h => absurd h (by simp))
      rcases hc with hspace | hdigit | hother
      · exact hends (.inl hspace)
      · exact fraction_leads hmalloc hok hbefore hvalue hwhole hnone h (.inl rfl) hdigit
      · rcases List.mem_append.1 hother with hend | hletter
        · exact hends (.inr (.inl hend))
        · exact fractionLetter_leads hmalloc hok hbefore hvalue hwhole hnone h (.inl rfl) hletter
  | @fraction _ _ digits _ hwhole hne hdigits =>
      have hc : IsSpace c ∨ IsDigit c ∨ c ∈ [(44 : UInt8), 93, 125] ++ 47 :: [69, 101] := hknows
      have hnumber := Number.fraction hwhole hdigits
      rw [decide_eq_true hne] at hnumber
      have hends := number_ends hmalloc hok hbefore hvalue hnumber
        (h.float_waiting (by decide) hvalue) (fun _ => by decide)
      rcases hc with hspace | hdigit | hother
      · exact hends (.inl hspace)
      · exact fraction_leads hmalloc hok hbefore hvalue hwhole hdigits h (.inr rfl) hdigit
      · rcases List.mem_append.1 hother with hend | hbehind
        · exact hends (.inr (.inl hend))
        · rcases List.mem_cons.1 hbehind with hslash | hletter
          · exact hends (.inr (.inr ⟨rfl, hslash⟩))
          · exact fractionLetter_leads hmalloc hok hbefore hvalue hwhole hdigits h (.inr rfl)
              hletter
  | @letter _ e hmantissa he =>
      have hc : IsDigit c ∨ c ∈ [(43 : UInt8), 45] := hknows
      rcases hc with hdigit | hsign
      · have hexponent : Exponent ([e] ++ [c]) :=
          @Exponent.intro e [] [c] he (by decide) (List.cons_ne_nil c [])
            (List.forall_mem_singleton.2 hdigit)
        exact exponent_leads hmalloc hok hbefore hvalue hmantissa hexponent h (by decide) hdigit
      · have hfeeds : Feeds malloc callback [c] []
            (fun jc => ∃ buffer, jc.At .e2 .float stack buffer 0) jc := by
          have hmem := hsign
          simp only [List.mem_cons, List.not_mem_nil, or_false] at hmem
          rcases hmem with rfl | rfl
          · exact Feeds.mono (h.pass hmalloc rfl rfl) fun _ h₁ => ⟨_, h₁⟩
          · exact Feeds.mono (h.pass hmalloc rfl rfl) fun _ h₁ => ⟨_, h₁⟩
        refine hfeeds.leads_quiet hok fun jc₁ ⟨buffer, h₁⟩ => ?_
        refine (float_place hbefore hvalue (.sign hmantissa he hsign) rfl h₁).of_eq ?_ rfl
        simp
  | @sign _ e sign hmantissa he hsign =>
      have hdigit : IsDigit c := hknows
      have hsigns : [sign] ∈ [[], [43], [(45 : UInt8)]] := by
        simpa using hsign
      have hexponent : Exponent ([e, sign] ++ [c]) :=
        @Exponent.intro e [sign] [c] he hsigns (List.cons_ne_nil c [])
          (List.forall_mem_singleton.2 hdigit)
      exact exponent_leads hmalloc hok hbefore hvalue hmantissa hexponent h (by decide) hdigit
  | exponent hmantissa hexponent =>
      have hc : IsSpace c ∨ IsDigit c ∨ c ∈ [(44 : UInt8), 93, 125] := hknows
      have hends := number_ends hmalloc hok hbefore hvalue (hmantissa.number hexponent)
        (h.float_waiting (by decide) hvalue) (fun h => absurd h Bool.false_ne_true)
      have hmore : IsDigit c → Leads callback _ told jc jc' := fun hdigit =>
        exponent_leads hmalloc hok hbefore hvalue hmantissa (hexponent.digit hdigit) h (by decide)
          hdigit
      simp only [List.mem_cons, List.not_mem_nil, or_false] at hc hends
      tauto

end Numbers

/-! ## Comments -/

theorem comment_leads {before : JsonState} {part : List UInt8}
    (hrests : Rests before stack text told) (hbegun : CommentBegun state part)
    (h : jc.InComment state before stack) :
    Leads callback (text ++ part ++ [c]) told jc jc' := by
  have hknows := knows_of_ok hok
  have hstate : jc.state = state := h.at_.state
  rw [hstate] at hknows
  -- within the comment there is a shorter rest to be read
  have hmove : ∀ {next nextClass} {part' : List UInt8},
      characterClass (byteValue c) = some nextClass →
      stateTransitionTable state nextClass = .state next → CommentBegun next part' →
      part' = part ++ [c] → Leads callback (text ++ part ++ [c]) told jc jc' := by
    intro next nextClass part' hclass htable hbegun' hpart
    refine (h.pass hmalloc hclass htable).leads_quiet hok fun jc₁ h₁ => ?_
    rw [List.append_assoc, ← hpart]
    exact .comment hrests hbegun' h₁
  cases hbegun with
  | slash =>
      obtain rfl : c = 42 := hknows
      exact hmove rfl rfl (@CommentBegun.body [] fun _ hbody => hbody) rfl
  | @body read hrest =>
      obtain ⟨nextClass, hclass, hstar, -⟩ := class_of_char hknows
      by_cases hc : c = 42
      · obtain rfl := hstar.2 hc
        refine hmove hclass rfl (@CommentBegun.star (read ++ [c]) fun body hbody => ?_) rfl
        rw [List.append_assoc, hc]
        exact hrest _ (.star hbody)
      · have htable : stateTransitionTable .c2 nextClass = .state .c2 := by
          have hno := mt hstar.1 hc
          cases nextClass <;> first | rfl | exact absurd rfl hno
        refine hmove hclass htable (@CommentBegun.body (read ++ [c]) fun body hbody => ?_) rfl
        rw [List.append_assoc]
        exact hrest _ (.char hknows hc (fun h => absurd h Bool.false_ne_true) hbody)
  | @star read hrest =>
      obtain ⟨nextClass, hclass, hstar, hslash⟩ := class_of_char hknows
      by_cases hend : c = 47
      · subst hend
        refine (h.close hmalloc).leads_quiet hok fun jc₁ h₁ => ?_
        have hgap := Gap.comment (hrest _ .close) .nil
        refine (Place.rests (hrests.gap hgap) h₁).of_eq ?_ rfl
        simp
      by_cases hc : c = 42
      · obtain rfl := hstar.2 hc
        refine hmove hclass rfl (@CommentBegun.star (read ++ [c]) fun body hbody => ?_) rfl
        rw [List.append_assoc, hc]
        exact hrest _ (.star hbody)
      · have htable : stateTransitionTable .c3 nextClass = .state .c2 := by
          have hno := mt hstar.1 hc
          have hno' := mt hslash.1 hend
          cases nextClass <;> first | rfl | exact absurd rfl hno | exact absurd rfl hno'
        refine hmove hclass htable (@CommentBegun.body (read ++ [c]) fun body hbody => ?_) rfl
        rw [List.append_assoc]
        exact hrest _ (.char hknows hc (fun _ => hend) hbody)

/-! ## Strings -/

section Strings

variable {part bytes buffer : List UInt8} {half : UInt16} (hquotes : Quotes stack text told)

include hquotes

/-- The string is one character longer. -/
theorem string_moves {next : JsonState} {nextClass : JsonClass} {part' : List UInt8}
    (h : jc.At state .string stack buffer half)
    (hclass : characterClass (byteValue c) = some nextClass)
    (htable : stateTransitionTable state nextClass = .state next)
    (hbegun : StringBegun next part' (buffer ++ [c]) half) (hpart : part' = part ++ [c]) :
    Leads callback (text ++ 34 :: part ++ [c]) told jc jc' := by
  refine (h.pass hmalloc hclass htable).leads_quiet hok fun jc₁ h₁ => ?_
  rw [keptIn_of_type (by decide)] at h₁
  refine (Place.string hquotes hbegun h₁).of_eq ?_ rfl
  rw [hpart]
  simp

/-- The quote behind a string. -/
theorem endQuote_leads (hchars : Chars part bytes) (h : jc.At .st .string stack bytes 0)
    (hc : c = 34) : Leads callback (text ++ 34 :: part ++ [c]) told jc jc' := by
  subst hc
  cases hquotes with
  | value hbefore hvalue =>
      refine (h.endString hmalloc hvalue).leads hok fun jc₁ h₁ => ?_
      have hended := hbefore.ends (.string hchars) (fun hdone => by
        rw [hdone] at hvalue
        exact absurd hvalue (by simp [InValue]))
      refine (Place.rests (.behind hended) h₁).of_eq ?_ rfl
      simp
  | key hkeying hgap =>
      refine (h.endKey hmalloc).leads hok fun jc₁ h₁ => ?_
      refine (Place.rests (.colon hkeying hgap hchars .nil) h₁).of_eq ?_ rfl
      simp

/-- The last digit of an escape: of a character, of a half, or of the other half. -/
theorem lastDigit_leads {digits : List UInt8} {n : Nat} (hhalved : Halved part bytes half)
    (hhex : Hex (digits ++ [c]) n)
    (h : jc.At .u4 .string stack (bytes ++ 92 :: 117 :: digits) half) :
    Leads callback (text ++ 34 :: (part ++ 92 :: 117 :: digits) ++ [c]) told jc jc' := by
  obtain ⟨-, hlt, -⟩ := foldl_hexDigit hhex
  obtain ⟨value, hvalue⟩ := hhex.last
  obtain ⟨_, hclass, -, -, -, htable⟩ := class_of_hex hvalue
  obtain ⟨jc₁, h₁, hact⟩ := h.act_of_ok hmalloc hclass htable hok
  have hbuffer : ∀ jc : JsonParser σ,
      jc.At .u4 .string stack (bytes ++ 92 :: 117 :: digits ++ [c]) half →
      jc.At .u4 .string stack (bytes ++ 92 :: 117 :: (digits ++ [c])) half := by
    intro jc hjc
    rwa [List.append_assoc] at hjc
  rw [keptIn_of_type (by decide)] at h₁
  have hdecode := (hbuffer jc₁ h₁).decode_eq hhex
  have haccepts : jc₁.decodeUnicodeChar ≠ .error .rejected := by
    intro hrejected
    rw [JsonParser.act, hrejected] at hact
    exact absurd hact (by simp [bind, Except.bind])
  have htext : text ++ 34 :: (part ++ 92 :: 117 :: digits) ++ [c] =
      text ++ 34 :: (part ++ 92 :: 117 :: (digits ++ [c])) := by simp
  rw [htext]
  have hleads : ∀ {bytes' : List UInt8} {half' : UInt16},
      (∀ jc : JsonParser σ,
        jc.At .u4 .string stack (bytes ++ 92 :: 117 :: (digits ++ [c])) half →
        Delivers callback jc.decodeUnicodeChar [] (·.At .u4 .string stack bytes' half') jc.ctx) →
      StringBegun (if half' ≠ 0 then .d1 else .st) (part ++ 92 :: 117 :: (digits ++ [c])) bytes'
        half' →
      Leads callback (text ++ 34 :: (part ++ 92 :: 117 :: (digits ++ [c]))) told jc jc' := by
    intro bytes' half' hdelivers hbegun
    rw [← htext]
    refine (h.lastDigit hmalloc hvalue fun jc hjc => hdelivers jc (hbuffer jc hjc)).leads_quiet hok
      fun jc₂ h₂ => ?_
    rw [htext]
    exact .string hquotes hbegun h₂
  cases hhalved with
  | none hchars =>
      by_cases hhigh : 0xD800 ≤ n ∧ n < 0xDC00
      · refine hleads (fun jc hjc => hjc.decode_high hhex hhigh.1 hhigh.2) ?_
        have hhalf := half_ne_zero hhigh.1 hhigh.2
        rw [if_pos hhalf]
        exact .half (.half hchars hhex hhigh.1 hhigh.2) hhalf
      by_cases hlow : 0xDC00 ≤ n ∧ n < 0xE000
      · refine absurd ?_ haccepts
        have hless : ∀ m : UInt32, m.toNat ≤ 0xD800 → ¬ UInt32.ofNat n < m := by
          intro m hm hless
          have hless' := UInt32.lt_iff_toNat_lt.1 hless
          rw [toNat_ofNat_lt hlt] at hless'
          omega
        rw [hdecode, if_neg (by decide), if_neg (hless 0x80 (by decide)),
          if_neg (hless 0x800 (by decide)), if_neg (mt (isHighSurrogate_iff hlt).1 hhigh),
          if_pos ((isLowSurrogate_iff hlt).2 hlow)]
      · obtain ⟨char, rfl⟩ := @exists_char n (by omega)
        refine hleads (fun jc hjc => hjc.decode_char hhex) ?_
        have hmore := hchars.append (.unicode char hhex .nil)
        rw [List.append_nil, List.append_nil] at hmore
        exact .chars hmore
  | @half read _ highDigits high hchars hhexHigh hhigh hhigh' =>
      by_cases hlow : 0xDC00 ≤ n ∧ n < 0xE000
      · obtain ⟨char, hchar⟩ :=
          @exists_char (0x10000 + (high - 0xD800) * 0x400 + (n - 0xDC00)) (by omega)
        refine hleads (fun jc hjc => hjc.decode_low char hhigh hhigh' hhex hlow.1 hlow.2 hchar) ?_
        have hfirst : 0xD800 + (char.toNat - 0x10000) / 0x400 = high := by omega
        have hsecond : 0xDC00 + (char.toNat - 0x10000) % 0x400 = n := by omega
        rw [← hfirst] at hhexHigh
        rw [← hsecond] at hhex
        have hmore := hchars.append (.pair char (by omega) hhexHigh hhex .nil)
        rw [List.append_nil, List.append_nil] at hmore
        rw [List.append_assoc]
        exact .chars hmore
      · refine absurd ?_ haccepts
        rw [hdecode, if_pos (half_ne_zero hhigh hhigh'),
          if_neg (mt (isLowSurrogate_iff hlt).1 hlow)]

/-- A digit of an escape. -/
theorem digit_of_escape_leads {digits : List UInt8} (hhalved : Halved part bytes half)
    (hlength : digits.length < 4) (hdigits : ∀ d ∈ digits, (hexValue d).isSome = true)
    (h : jc.At (digitState digits.length) .string stack (bytes ++ 92 :: 117 :: digits) half)
    (hc : (hexValue c).isSome = true) :
    Leads callback (text ++ 34 :: (part ++ 92 :: 117 :: digits) ++ [c]) told jc jc' := by
  have hmore : ∀ d ∈ digits ++ [c], (hexValue d).isSome = true := by
    intro d hd
    rcases List.mem_append.1 hd with hmem | hmem
    · exact hdigits d hmem
    · rwa [List.mem_singleton.1 hmem]
  by_cases hlast : digits.length = 3
  · rw [hlast] at h
    have hfour : (digits ++ [c]).length = 4 := by
      rw [List.length_append, hlast]
      rfl
    obtain ⟨n, hhex⟩ := hex_of_length hfour hmore
    exact lastDigit_leads hmalloc hok hquotes hhalved hhex h
  · obtain ⟨value, hvalue⟩ := Option.isSome_iff_exists.1 hc
    obtain ⟨nextClass, hclass, h₁, h₂, h₃, -⟩ := class_of_hex hvalue
    have hnext : stateTransitionTable (digitState digits.length) nextClass =
        .state (digitState (digits ++ [c]).length) := by
      rw [List.length_append, List.length_singleton]
      obtain hn | hn | hn : digits.length = 0 ∨ digits.length = 1 ∨ digits.length = 2 := by omega
      · rw [hn]
        exact h₁
      · rw [hn]
        exact h₂
      · rw [hn]
        exact h₃
    have hbegun := StringBegun.digits hhalved
      (by rw [List.length_append, List.length_singleton]; omega) hmore
    have hbuffer : bytes ++ 92 :: 117 :: (digits ++ [c]) =
        bytes ++ 92 :: 117 :: digits ++ [c] := by simp
    rw [hbuffer] at hbegun
    refine string_moves hmalloc hok hquotes h hclass hnext hbegun ?_
    simp

/-- **In a string.** -/
theorem string_leads (hbegun : StringBegun state part buffer half)
    (h : jc.At state .string stack buffer half) :
    Leads callback (text ++ 34 :: part ++ [c]) told jc jc' := by
  have hknows := knows_of_ok hok
  rw [h.state] at hknows
  cases hbegun with
  | chars hchars =>
      have hc : Ordinary c ∨ c ∈ [(34 : UInt8), 92] := hknows
      simp only [List.mem_cons, List.not_mem_nil, or_false] at hc
      rcases hc with hordinary | hc | rfl
      · obtain ⟨nextClass, hclass, htable⟩ := characterClass_ordinary hordinary
        have hmore := hchars.append (.byte hordinary .nil)
        exact string_moves hmalloc hok hquotes h hclass htable (.chars hmore) rfl
      · exact endQuote_leads hmalloc hok hquotes hchars h hc
      · refine (h.backslash hmalloc).leads_quiet hok fun jc₁ h₁ => ?_
        refine (Place.escape hquotes hchars h₁).of_eq ?_ rfl
        simp
  | digits hhalved hlength hdigits =>
      have hc : (hexValue c).isSome = true := by
        revert hknows
        generalize hn : digitState _ = state
        intro hknows
        unfold digitState at hn
        split at hn <;> subst hn <;> exact hknows
      exact digit_of_escape_leads hmalloc hok hquotes hhalved hlength hdigits h hc
  | half hhalved hne =>
      obtain rfl : c = 92 := hknows
      exact string_moves hmalloc hok hquotes h rfl rfl (.backslash hhalved hne) rfl
  | @backslash read bytes _ hhalved hne =>
      obtain rfl : c = 117 := hknows
      have hbegun := @StringBegun.digits read bytes [] half hhalved (Nat.zero_lt_succ 3)
        (List.forall_mem_nil _)
      have hbuffer : bytes ++ [92, 117] = bytes ++ [92] ++ [117] := by simp
      rw [hbuffer] at hbegun
      refine string_moves hmalloc hok hquotes h rfl rfl hbegun ?_
      simp

/-- Behind a backslash. -/
theorem escape_leads (hchars : Chars part bytes) (h : jc.AtEscape stack bytes) :
    Leads callback (text ++ 34 :: (part ++ [92]) ++ [c]) told jc jc' := by
  have hknows := knows_of_ok hok
  have hstate : jc.state = .es := h.at_.state
  rw [hstate] at hknows
  have hc : c ∈ shortEscapes.map Prod.fst ∨ c = 117 := hknows
  rcases hc with hshort | rfl
  · obtain ⟨⟨_, b⟩, hmem, rfl⟩ := List.mem_map.1 hshort
    obtain ⟨nextClass, hclass, htable, hescape⟩ := short_escape hmem
    refine (h.char hmalloc hclass htable hescape (Nat.le_succ 1)).leads_quiet hok fun jc₁ h₁ => ?_
    have hmore := hchars.append (.short hmem .nil)
    refine (Place.string hquotes (.chars hmore) h₁).of_eq ?_ rfl
    simp
  · have hfeeds : Feeds malloc callback [117] [] _ jc :=
      h.char hmalloc rfl rfl rfl (Nat.le_refl 2)
    refine hfeeds.leads_quiet hok fun jc₁ h₁ => ?_
    have hbegun := @StringBegun.digits part bytes [] 0 (.none hchars) (Nat.zero_lt_succ 3)
      (List.forall_mem_nil _)
    refine (Place.string hquotes hbegun h₁).of_eq ?_ rfl
    simp

end Strings

/-! ## Literals -/

/-- **In a literal**, or behind one: there is no way on but white space, since what has it
delivered ends the process. -/
theorem behindLiteral_leads {type : JsonType} {buffer : List UInt8} (hliteral : IsLiteral type)
    (hstate : state ∈ [JsonState.ok, .t1, .t2, .t3, .f1, .f2, .f3, .f4, .n1, .n2, .n3])
    (hvalue : InValue stack) (h : jc.At state type stack buffer 0) :
    Leads callback (text ++ [c]) told jc jc' := by
  have hrows : ∀ state ∈ [JsonState.ok, .t1, .t2, .t3, .f1, .f2, .f3, .f4, .n1, .n2, .n3],
      ∀ entry ∈ stateTransitionRow state, entry = .xx ∨
        (entry ∈ [JsonAction.m3, .m7, .m8, .cb].map JsonTransition.action ∨
          entry ∈ [JsonState.ok, .t1, .t2, .t3, .f1, .f2, .f3, .f4, .n1, .n2, .n3].map
            JsonTransition.state) := by decide
  obtain ⟨nextClass, hclass, hne⟩ := entry_of_ok hok
  rw [h.state] at hne
  have hentry := hrows state hstate _
    (List.mem_of_getElem? (getElem?_stateTransitionRow state nextClass))
  rcases hentry.resolve_left hne with haction | hnext
  · obtain ⟨action, hmem, htable⟩ := List.mem_map.1 haction
    obtain ⟨jc₁, h₁, hact⟩ := h.act_of_ok hmalloc hclass htable.symm hok
    have hnone : type ≠ .none := by
      rintro rfl
      exact absurd hliteral (by decide)
    rw [keptIn_of_type hnone] at h₁
    have haborted : jc₁.act callback action = .error .aborted := by
      apply act_literal
      · rw [h₁.buffer]
        exact length_push buffer c
      · rwa [h₁.type]
      · simp only [List.mem_cons, List.not_mem_nil, or_false] at hmem ⊢
        have hallow := h₁.allowComments
        tauto
    exact absurd (hact.symm.trans haborted) (by simp)
  · obtain ⟨next, hmem, htable⟩ := List.mem_map.1 hnext
    refine (h.pass hmalloc hclass htable.symm).leads_quiet hok fun jc₁ h₁ => ?_
    exact .literal hliteral hmem hvalue h₁

/-! ## Texts -/

/-- **A character that is accepted** leads on to a place. -/
theorem Place.leads (h : Place text told jc) : Leads callback (text ++ [c]) told jc jc' := by
  cases h with
  | rests hrests h => exact rests_leads hmalloc hok hrests h
  | waits hended h =>
      have hknows := knows_of_ok hok
      rw [h.place.state] at hknows
      have hc : IsSpace c ∨ c ∈ [(44 : UInt8), 93, 125, 47] := hknows
      refine waiting_leads hmalloc hok hended h (fun _ => by decide) ?_
      simp only [List.mem_cons, List.not_mem_nil, or_false] at hc ⊢
      tauto
  | comment hrests hbegun h => exact comment_leads hmalloc hok hrests hbegun h
  | number hbefore hvalue hbegun h hbuffer =>
      exact number_leads hmalloc hok hbefore hvalue hbegun h hbuffer
  | string hquotes hbegun h => exact string_leads hmalloc hok hquotes hbegun h
  | escape hquotes hchars h => exact escape_leads hmalloc hok hquotes hchars h
  | literal hliteral hstate hvalue h =>
      exact behindLiteral_leads hmalloc hok hliteral hstate hvalue h

omit hok

theorem Place.run {more : List UInt8} (h : Place text told jc)
    (hrun : Machine.run (jsonParserChar malloc callback) (more.map byteValue) jc = .ok jc') :
    Leads callback (text ++ more) told jc jc' := by
  induction more generalizing jc text told with
  | nil =>
      cases hrun
      refine ⟨[], rfl, ?_⟩
      rwa [List.append_nil, List.append_nil]
  | cons c more ih =>
      obtain ⟨jc₁, hchar, hrest⟩ := Machine.run_cons_ok _ hrun
      obtain ⟨events, hcall, hplace⟩ := h.leads hmalloc hchar
      obtain ⟨events', hcall', hplace'⟩ := ih hplace hrest
      refine ⟨events ++ events', ?_, ?_⟩
      · rw [Machine.run_append_of_ok callback hcall, hcall']
      · rw [List.append_assoc] at hplace'
        rwa [← List.append_assoc]

omit hmalloc in
/-- Where the parser is done, the text is a document. -/
theorem Place.document (h : Place text told jc) (hdone : jsonParserDone jc = true) :
    Document text told := by
  obtain ⟨hstate, hhead⟩ : (jc.state = .ok ∨ jc.state = .go) ∧ jc.stack.head? = some .done := by
    rw [jsonParserDone] at hdone
    exact of_decide_eq_true hdone
  have hother : ∀ {state : JsonState}, jc.state = state → state ≠ .ok → state ≠ .go →
      Document text told := by
    rintro state rfl hok hgo
    exact absurd hstate (by simp [hok, hgo])
  have houter : ∀ {stack : List JsonMode}, jc.stack = stack → InValue stack →
      Document text told := by
    rintro stack rfl hvalue
    rw [InValue, hhead] at hvalue
    exact absurd hvalue (by simp)
  cases h with
  | rests hrests h =>
      rw [h.stack] at hhead
      cases hrests with
      | start hgap => exact .empty hgap
      | behind hended =>
          obtain rfl := hended.top hhead
          exact hended.document
      | firstKey | nextKey | colon | value | array => exact hother h.state (by decide) (by decide)
  | waits hended h =>
      rw [h.place.stack] at hhead
      obtain rfl := hended.top hhead
      have hpending := h.pending_nil
      rw [hpending, List.append_nil] at hended
      exact hended.document
  | comment _ hbegun h =>
      have hstate : jc.state = _ := h.at_.state
      cases hbegun <;> exact hother hstate (by decide) (by decide)
  | number _ hvalue _ h => exact houter h.stack hvalue
  | string _ hbegun h =>
      cases hbegun with
      | digits =>
          refine hother h.state ?_ ?_ <;> unfold digitState <;> split <;> decide
      | _ => exact hother h.state (by decide) (by decide)
  | escape _ _ h =>
      have hstate : jc.state = .es := h.at_.state
      exact hother hstate (by decide) (by decide)
  | literal _ _ hvalue h => exact houter h.stack hvalue

end Accepted

/-- From its start on, the parser accepts a text and is done at its end just if the text is a
document of which the callback takes the events. -/
theorem text_accepted_iff {σ : Type} {malloc : Nat → Bool}
    {callback : JsonEvent → σ → Except JsonStop σ} (hmalloc : ∀ size, malloc size = true)
    {jc : JsonParser σ} (hat : jc.At .go .none [.done] [] 0) {text : List UInt8} {ctx : σ} :
    (∃ jc', Machine.run (jsonParserChar malloc callback) (text.map byteValue) jc = .ok jc' ∧
        jc'.ctx = ctx ∧ jsonParserDone jc' = true) ↔
      ∃ events, Document text events ∧ Machine.run callback events jc.ctx = .ok ctx := by
  constructor
  · rintro ⟨jc', hrun, rfl, hdone⟩
    have hplace : Place [] [] jc := .rests (.start .nil) hat
    obtain ⟨events, hcall, hplace'⟩ := hplace.run hmalloc hrun
    exact ⟨events, hplace'.document hdone, hcall⟩
  · rintro ⟨events, hdocument, hcall⟩
    have hfed : Feeds malloc callback text events (jsonParserDone · = true) jc :=
      document_fed hmalloc hdocument hat
    rw [Feeds, Machine.Drives, Machine.Makes, hcall] at hfed
    exact hfed

/-- **What the JSON parser accepts.** With memory for its buffer, the parser accepts a text and
is done at its end just if the text is a document of which the callback takes the events, and it
has then called the callback with these. -/
theorem accepts_iff {σ : Type} (malloc : Nat → Bool)
    (callback : JsonEvent → σ → Except JsonStop σ) (hmalloc : ∀ size, malloc size = true)
    {alloc : Bool} {decimalPoint : UInt8} {s : σ} {jc : JsonParser σ}
    (hnew : newJsonParser alloc decimalPoint
      { depth := 19, allowComments := true, handleFloatsManually := false } s = some jc)
    (text : List UInt8) (ctx : σ) :
    (∃ jc', Machine.run (jsonParserChar malloc callback) (text.map byteValue) jc = .ok jc' ∧
        jc'.ctx = ctx ∧ jsonParserDone jc' = true) ↔
      ∃ events, Document text events ∧ Machine.run callback events s = .ok ctx := by
  obtain ⟨hat, rfl⟩ := newJsonParser_at hnew
  exact text_accepted_iff hmalloc hat

/-- A callback that keeps what it is called with, over `{"a":[-7, "\n"]}`. -/
theorem accepts_iff_nested :
    ∃ jc', Machine.run
        (jsonParserChar (fun _ => true) fun event told => .ok (told ++ [event]))
        ([123, 34, 97, 34, 58, 91, 45, 55, 44, 32, 34, 92, 110, 34, 93, 125].map byteValue)
        { ctx := []
          state := .go
          beforeCommentState := .go
          type := .none
          escaped := false
          comment := false
          allowComments := true
          handleFloatsManually := false
          decimalPoint := 46
          utf16HighSurrogate := 0
          depth := 19
          stack := [.done]
          parseBuffer := []
          parseBufferCapacity := 3500 } = .ok jc' ∧
      jc'.ctx = [.objectBegin, .key [97], .arrayBegin, .integer (-7), .string [10], .arrayEnd,
        .objectEnd] ∧ jsonParserDone jc' = true :=
  (@accepts_iff (List JsonEvent) (fun _ => true) (fun event told => .ok (told ++ [event]))
    (fun _ => rfl) true 46 [] _ rfl _ _).2 ⟨_, nestedDocument, rfl⟩

/-! ## One reading -/

/-- A callback that keeps the events. -/
def recordEvent (event : JsonEvent) (told : List JsonEvent) : Except JsonStop (List JsonEvent) :=
  .ok (told ++ [event])

theorem run_recordEvent (events told : List JsonEvent) :
    Machine.run recordEvent events told = .ok (told ++ events) := by
  induction events generalizing told with
  | nil => rw [List.append_nil, Machine.run_nil]
  | cons event events ih =>
      have hstep : recordEvent event told = .ok (told ++ [event]) := rfl
      rw [Machine.run_cons_of_ok _ hstep, ih, List.append_assoc, List.singleton_append]

/-- **A document is read in one way.** -/
theorem Document.unique {text : List UInt8} {events events' : List JsonEvent}
    (h : Document text events) (h' : Document text events') : events = events' := by
  have hnew : newJsonParser true 46
      { depth := 19, allowComments := true, handleFloatsManually := false }
      ([] : List JsonEvent) = some _ := rfl
  have hmalloc : ∀ size : Nat, (fun _ => true) size = true := fun _ => rfl
  obtain ⟨jc, hrun, rfl, -⟩ := (text_accepted_iff hmalloc (newJsonParser_at hnew).1).2
    ⟨events, h, run_recordEvent events []⟩
  obtain ⟨jc', hrun', rfl, -⟩ := (text_accepted_iff hmalloc (newJsonParser_at hnew).1).2
    ⟨events', h', run_recordEvent events' []⟩
  rw [hrun] at hrun'
  cases hrun'
  rfl

end Burrow.Http
