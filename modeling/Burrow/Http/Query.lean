import Burrow.Http.Backend

/-!
# Query strings

`burrow_backend_http_attributes_to_string` and `burrow_backend_http_filters_to_string`
put together a query string in a buffer of 1024 characters, part by part, and hand out
a copy of it. `curl_easy_escape` is a parameter. Where the whole string fits in the
buffer it is exactly the parts with an `&` between them (`attributes_to_string`,
`filters_to_string`).
-/

set_option autoImplicit false

namespace Burrow.Http

open CBuffer (Cell zeros)

/-! ## The functions -/

/-- `sizeof(buf)` -/
def sizeofBuf : Nat := 1024

/-- A part is put at the start of the buffer if `len` is `0`, and behind an `&`
otherwise. -/
def appendPart (part : String) : List Cell × Nat → Except HttpFault (List Cell × Nat)
  | (buf, len) =>
      if len > 0 then appendText sizeofBuf ("&" ++ part) (buf, len)
      else snprintf buf 0 sizeofBuf part

/-- The copy that is handed out, and its size. -/
def copyBuf (alloc : Bool) : List Cell × Nat → Except HttpFault (Option String × Int)
  | (buf, len) =>
      if alloc then
        if len + 1 ≤ buf.length then .ok (some (readString (buf.take (len + 1))), len)
        else .error (.memory .outOfBounds)
      else .ok (none, ENOMEM)

def ttlPart (attributes : BurrowAttributes) : String :=
  "ttl=" ++ toString (burrowAttributesGetTtl attributes).toNat

def hidePart (attributes : BurrowAttributes) : String :=
  "hide=" ++ toString (burrowAttributesGetHide attributes).toNat

/-- `burrow_backend_http_attributes_to_string`: the string, and `*size`, which is `size`
before the call. The numbers are printed in decimal. -/
def burrowBackendHttpAttributesToString (attributes : Option (Object BurrowAttributes))
    (alloc : Bool) (size : Int) : Except HttpFault (Option String × Int) :=
  match attributes with
  | none => .ok (none, 0)
  | some .destroyed => .error (.fault .destroyedObject)
  | some (.live attributes) => do
      let state := (zeros sizeofBuf, 0)
      let state ← appendIf (burrowAttributesIssetTtl attributes) (appendPart (ttlPart attributes))
        state
      let state ← appendIf (burrowAttributesIssetHide attributes) (appendPart (hidePart attributes))
        state
      if state.2 = 0 then return (none, size) else copyBuf alloc state

def matchHiddenPart (filters : BurrowFilters) : String :=
  if filters.matchHidden then "match_hidden=true" else "match_hidden=false"

/-- A 32-bit value as `%d` prints it. -/
def printInt (value : UInt32) : String := toString value.toInt32.toInt

def limitPart (filters : BurrowFilters) : String := "limit=" ++ printInt filters.limit

def waitPart (filters : BurrowFilters) : String := "wait=" ++ printInt filters.wait

def detailPart (filters : BurrowFilters) : String :=
  match filters.detail with
  | .none => "detail=none"
  | .id => "detail=id"
  | .attributes => "detail=attributes"
  | .body => "detail=body"
  | .all => "detail=all"

/-- The `&` before the detail is formatted on its own. -/
def appendDetail (filters : BurrowFilters) (state : List Cell × Nat) :
    Except HttpFault (List Cell × Nat) := do
  let state ← appendIf (state.2 > 0) (appendText sizeofBuf "&") state
  appendText sizeofBuf (detailPart filters) state

def markerPart (escape : String → String) (filters : BurrowFilters) : String :=
  "marker=" ++ escape (filters.marker.getD "")

/-- `burrow_backend_http_filters_to_string` -/
def burrowBackendHttpFiltersToString (escape : String → String)
    (filters : Option (Object BurrowFilters)) (alloc : Bool) :
    Except HttpFault (Option String × Int) :=
  match filters with
  | none => .ok (none, 0)
  | some .destroyed => .error (.fault .destroyedObject)
  | some (.live filters) => do
      let state := (zeros sizeofBuf, 0)
      let state ← appendIf (burrowFiltersIssetMatchHidden filters)
        (appendPart (matchHiddenPart filters)) state
      let state ← appendIf (burrowFiltersIssetLimit filters) (appendPart (limitPart filters)) state
      let state ← appendIf (burrowFiltersIssetWait filters) (appendPart (waitPart filters)) state
      let state ← appendIf (burrowFiltersIssetDetail filters) (appendDetail filters) state
      let state ← appendIf filters.marker.isSome (appendPart (markerPart escape filters)) state
      if state.2 = 0 then return (none, 0) else copyBuf alloc state

/-! ## Numbers -/

theorem toInt_toInt32 (value : UInt32) :
    value.toInt32.toInt =
      if 2 * value.toNat < 2 ^ 32 then (value.toNat : Int) else value.toNat - (2 ^ 32 : Nat) :=
  BitVec.toInt_eq_toNat_cond value.toBitVec

/-- `%d` prints a small number in decimal. -/
theorem printInt_of_lt {value : UInt32} (h : value.toNat < 2 ^ 31) :
    (printInt value).toList = Nat.toDigits 10 value.toNat := by
  rw [printInt, toInt_toInt32, if_pos (by omega), Int.toString_eq_repr, Int.repr_eq_if,
    if_pos (Int.natCast_nonneg _), Int.toNat_natCast, Nat.toList_repr]

/-- `%d` prints a large number with a sign. -/
theorem printInt_of_le {value : UInt32} (h : 2 ^ 31 ≤ value.toNat) :
    (printInt value).toList = '-' :: Nat.toDigits 10 (2 ^ 32 - value.toNat) := by
  have hlt := value.toNat_lt
  obtain ⟨n, hn⟩ : ∃ n, 2 ^ 32 - value.toNat = n + 1 := ⟨2 ^ 32 - value.toNat - 1, by omega⟩
  have hnegative : (value.toNat : Int) - (2 ^ 32 : Nat) = Int.negSucc n := by omega
  rw [printInt, toInt_toInt32, if_neg (by omega), hnegative, hn, Int.toString_eq_repr, Int.repr,
    String.toList_append, Nat.toList_repr]
  rfl

theorem length_toDigits_le {n : Nat} (h : n < 2 ^ 32) : (Nat.toDigits 10 n).length ≤ 10 :=
  (Nat.length_toDigits_le_iff (by decide) (by decide)).2 (by omega)

theorem length_printInt_le (value : UInt32) : (printInt value).length ≤ 11 := by
  have hlt := value.toNat_lt
  rw [← String.length_toList]
  by_cases hsmall : value.toNat < 2 ^ 31
  · rw [printInt_of_lt hsmall]
    exact Nat.le_succ_of_le (length_toDigits_le hlt)
  · rw [printInt_of_le (Nat.not_lt.1 hsmall), List.length_cons]
    exact Nat.succ_le_succ (length_toDigits_le (by omega))

/-! ## What they hand out -/

def attributesParts (attributes : BurrowAttributes) : List String :=
  (if burrowAttributesIssetTtl attributes then [ttlPart attributes] else []) ++
    (if burrowAttributesIssetHide attributes then [hidePart attributes] else [])

def filtersParts (escape : String → String) (filters : BurrowFilters) : List String :=
  (if burrowFiltersIssetMatchHidden filters then [matchHiddenPart filters] else []) ++
    (if burrowFiltersIssetLimit filters then [limitPart filters] else []) ++
    (if burrowFiltersIssetWait filters then [waitPart filters] else []) ++
    (if burrowFiltersIssetDetail filters then [detailPart filters] else []) ++
    (if filters.marker.isSome then [markerPart escape filters] else [])

/-- The parts without the marker. -/
def fieldsParts (filters : BurrowFilters) : List String :=
  (if burrowFiltersIssetMatchHidden filters then [matchHiddenPart filters] else []) ++
    (if burrowFiltersIssetLimit filters then [limitPart filters] else []) ++
    (if burrowFiltersIssetWait filters then [waitPart filters] else []) ++
    (if burrowFiltersIssetDetail filters then [detailPart filters] else [])

/-- The parts, with an `&` between them. -/
def queryText (parts : List String) : String := "&".intercalate parts

/-- No part is `NULL`. -/
def queryString (parts : List String) : Option String :=
  if parts = [] then none else some (queryText parts)

theorem queryText_append {parts parts' : List String} (h : parts ≠ []) (h' : parts' ≠ []) :
    queryText (parts ++ parts') = queryText parts ++ "&" ++ queryText parts' :=
  String.intercalate_append_of_ne_nil h h'

theorem queryText_singleton (part : String) : queryText [part] = part :=
  String.intercalate_singleton

theorem length_queryText_le (parts parts' : List String) :
    (queryText parts).length ≤ (queryText (parts ++ parts')).length := by
  by_cases h : parts = []
  · rw [h]
    exact Nat.zero_le _
  · by_cases h' : parts' = []
    · have hnil : parts ++ parts' = parts := by rw [h', List.append_nil]
      exact Nat.le_of_eq (congrArg (fun parts => (queryText parts).length) hnil.symm)
    · rw [queryText_append h h', String.length_append, String.length_append]
      omega

theorem length_queryText_le_sum (parts : List String) :
    (queryText parts).length ≤ (parts.map fun part => part.length + 1).sum := by
  induction parts with
  | nil => exact Nat.zero_le _
  | cons part parts ih =>
      by_cases hparts : parts = []
      · rw [hparts, queryText_singleton]
        simp
      · rw [queryText, String.intercalate_cons_of_ne_nil hparts, String.length_append,
          String.length_append, List.map_cons, List.sum_cons]
        have hseparator : "&".length = 1 := rfl
        rw [queryText] at ih
        omega

theorem sum_optional_le (b : Bool) {part : String} {n : Nat} (h : part.length < n) :
    ((if b then [part] else []).map fun part => part.length + 1).sum ≤ n := by
  cases b with
  | true => simpa using Nat.succ_le_of_lt h
  | false => exact Nat.zero_le _

theorem append_ne_empty {s : String} (h : s ≠ "") (t : String) : s ++ t ≠ "" :=
  fun hempty => h (String.append_eq_empty_iff.1 hempty).1

theorem queryText_ne_empty {parts : List String} (h : ∀ part ∈ parts, part ≠ "")
    (hne : parts ≠ []) : queryText parts ≠ "" := by
  cases parts with
  | nil => exact absurd rfl hne
  | cons part parts =>
      intro hempty
      refine h part List.mem_cons_self ?_
      by_cases hrest : parts = []
      · rw [hrest] at hempty
        exact (queryText_singleton part).symm.trans hempty
      · rw [queryText, String.intercalate_cons_of_ne_nil hrest] at hempty
        exact (String.append_eq_empty_iff.1 (String.append_eq_empty_iff.1 hempty).1).1

theorem ttlPart_ne_empty (attributes : BurrowAttributes) : ttlPart attributes ≠ "" :=
  append_ne_empty (by decide) _

theorem hidePart_ne_empty (attributes : BurrowAttributes) : hidePart attributes ≠ "" :=
  append_ne_empty (by decide) _

theorem matchHiddenPart_ne_empty (filters : BurrowFilters) : matchHiddenPart filters ≠ "" := by
  rw [matchHiddenPart]
  cases filters.matchHidden <;> decide

theorem limitPart_ne_empty (filters : BurrowFilters) : limitPart filters ≠ "" :=
  append_ne_empty (by decide) _

theorem waitPart_ne_empty (filters : BurrowFilters) : waitPart filters ≠ "" :=
  append_ne_empty (by decide) _

theorem detailPart_ne_empty (filters : BurrowFilters) : detailPart filters ≠ "" := by
  rw [detailPart]
  cases filters.detail <;> decide

theorem markerPart_ne_empty (escape : String → String) (filters : BurrowFilters) :
    markerPart escape filters ≠ "" :=
  append_ne_empty (by decide) _

theorem optional_nonempty {b : Bool} {part : String} (h : part ≠ "") :
    ∀ p ∈ if b then [part] else [], p ≠ "" := by
  cases b with
  | true => exact List.forall_mem_singleton.2 h
  | false => exact fun _ hp => absurd hp List.not_mem_nil

theorem attributesParts_nonempty (attributes : BurrowAttributes) :
    ∀ part ∈ attributesParts attributes, part ≠ "" :=
  List.forall_mem_append.2
    ⟨optional_nonempty (ttlPart_ne_empty _), optional_nonempty (hidePart_ne_empty _)⟩

theorem filtersParts_nonempty (escape : String → String) (filters : BurrowFilters) :
    ∀ part ∈ filtersParts escape filters, part ≠ "" := by
  rw [filtersParts, List.forall_mem_append, List.forall_mem_append, List.forall_mem_append,
    List.forall_mem_append]
  exact ⟨⟨⟨⟨optional_nonempty (matchHiddenPart_ne_empty _),
    optional_nonempty (limitPart_ne_empty _)⟩, optional_nonempty (waitPart_ne_empty _)⟩,
    optional_nonempty (detailPart_ne_empty _)⟩, optional_nonempty (markerPart_ne_empty _ _)⟩

theorem filtersParts_eq (escape : String → String) (filters : BurrowFilters) :
    filtersParts escape filters =
      fieldsParts filters ++ if filters.marker.isSome then [markerPart escape filters] else [] :=
  rfl

/-- Only the marker can be long. -/
theorem length_fieldsParts (filters : BurrowFilters) :
    (queryText (fieldsParts filters)).length ≤ 72 := by
  have hmatch : (matchHiddenPart filters).length < 19 := by
    rw [matchHiddenPart]
    cases filters.matchHidden <;> decide
  have hlimit : (limitPart filters).length < 18 := by
    have hkey : "limit=".length = 6 := rfl
    have hvalue := length_printInt_le filters.limit
    rw [limitPart, String.length_append]
    omega
  have hwait : (waitPart filters).length < 17 := by
    have hkey : "wait=".length = 5 := rfl
    have hvalue := length_printInt_le filters.wait
    rw [waitPart, String.length_append]
    omega
  have hdetail : (detailPart filters).length < 18 := by
    rw [detailPart]
    cases filters.detail <;> decide
  refine Nat.le_trans (length_queryText_le_sum _) ?_
  have h₁ := sum_optional_le (burrowFiltersIssetMatchHidden filters) hmatch
  have h₂ := sum_optional_le (burrowFiltersIssetLimit filters) hlimit
  have h₃ := sum_optional_le (burrowFiltersIssetWait filters) hwait
  have h₄ := sum_optional_le (burrowFiltersIssetDetail filters) hdetail
  rw [fieldsParts, List.map_append, List.map_append, List.map_append, List.sum_append,
    List.sum_append, List.sum_append]
  omega

theorem length_attributesParts (attributes : BurrowAttributes) :
    (queryText (attributesParts attributes)).length ≤ 31 := by
  have hprint : ∀ value : UInt32, (toString value.toNat).length ≤ 10 := by
    intro value
    rw [← String.length_toList, Nat.toString_eq_repr, Nat.toList_repr]
    exact length_toDigits_le value.toNat_lt
  have httl : (ttlPart attributes).length < 15 := by
    have hkey : "ttl=".length = 4 := rfl
    have hvalue := hprint (burrowAttributesGetTtl attributes)
    rw [ttlPart, String.length_append]
    omega
  have hhide : (hidePart attributes).length < 16 := by
    have hkey : "hide=".length = 5 := rfl
    have hvalue := hprint (burrowAttributesGetHide attributes)
    rw [hidePart, String.length_append]
    omega
  refine Nat.le_trans (length_queryText_le_sum _) ?_
  have h₁ := sum_optional_le (burrowAttributesIssetTtl attributes) httl
  have h₂ := sum_optional_le (burrowAttributesIssetHide attributes) hhide
  rw [attributesParts, List.map_append, List.sum_append]
  omega

/-- The parts so far are in the buffer. -/
structure Written (parts : List String) (state : List Cell × Nat) : Prop
    extends Filled sizeofBuf (queryText parts) state where
  nonempty : ∀ part ∈ parts, part ≠ ""

theorem Written.zeros : Written [] (zeros sizeofBuf, 0) :=
  ⟨Filled.zeros (by decide), fun _ hpart => absurd hpart List.not_mem_nil⟩

theorem Written.len_pos_iff {parts : List String} {state : List Cell × Nat}
    (h : Written parts state) : 0 < state.2 ↔ parts ≠ [] := by
  rw [h.len]
  constructor
  · rintro hpos rfl
    exact absurd hpos (by decide)
  · intro hne
    rw [Nat.pos_iff_ne_zero]
    exact fun hzero => queryText_ne_empty h.nonempty hne (String.length_eq_zero_iff.1 hzero)

theorem Written.append {parts : List String} {state state' : List Cell × Nat}
    (h : Written parts state) {part : String} (hpart : part ≠ "")
    (hfilled : Filled sizeofBuf (queryText (parts ++ [part])) state') :
    Written (parts ++ [part]) state' := by
  refine ⟨hfilled, fun p hp => ?_⟩
  rcases List.mem_append.1 hp with hp | hp
  · exact h.nonempty p hp
  · rw [List.mem_singleton.1 hp]
    exact hpart

theorem queryText_append_singleton {parts : List String} (h : parts ≠ []) (part : String) :
    queryText (parts ++ [part]) = queryText parts ++ "&" ++ part := by
  rw [queryText_append h (List.cons_ne_nil _ _), queryText_singleton]

/-- A piece of the buffer is short. -/
theorem le_intMax {s t : String} (h : (s ++ t).length < sizeofBuf) : t.length ≤ CBuffer.intMax := by
  have hsizeof : sizeofBuf ≤ CBuffer.intMax := by decide
  rw [String.length_append] at h
  omega

theorem appendPart_written (part : String) (hpart : part ≠ "") {parts : List String}
    {state : List Cell × Nat} (h : Written parts state)
    (hlen : (queryText (parts ++ [part])).length < sizeofBuf) :
    ∃ state', appendPart part state = .ok state' ∧ Written (parts ++ [part]) state' := by
  have happend := fun state' => @Written.append parts state state' h part hpart
  by_cases hparts : parts = []
  · have hzero : ¬ state.2 > 0 := fun hpos => h.len_pos_iff.1 hpos hparts
    subst hparts
    rw [List.nil_append, queryText_singleton] at happend hlen
    have hroom : (queryText []).length + part.length < sizeofBuf := by
      rwa [queryText, String.intercalate_nil, String.length_empty, Nat.zero_add]
    have hint : part.length ≤ CBuffer.intMax := Nat.le_of_lt (Nat.lt_trans hlen (by decide))
    obtain ⟨buf, hok, hholds⟩ := snprintf_append h.holds hlen hroom hint
    refine ⟨_, ?_, happend (buf, part.length) ⟨hholds, rfl⟩⟩
    rw [appendPart, if_neg hzero]
    exact hok
  · have hpos : state.2 > 0 := h.len_pos_iff.2 hparts
    rw [queryText_append_singleton hparts, String.append_assoc] at happend hlen
    obtain ⟨state', hok, hfilled⟩ := appendText_filled _ h.toFilled hlen (le_intMax hlen)
    refine ⟨_, ?_, happend state' hfilled⟩
    rw [appendPart, if_pos hpos]
    exact hok

/-- The detail, with its `&` formatted on its own, is a part like the others. -/
theorem appendDetail_written {parts : List String} {filters : BurrowFilters}
    {state : List Cell × Nat} (h : Written parts state)
    (hlen : (queryText (parts ++ [detailPart filters])).length < sizeofBuf) :
    ∃ state', appendDetail filters state = .ok state' ∧
      Written (parts ++ [detailPart filters]) state' := by
  have hpart := detailPart_ne_empty filters
  have happend := fun state' => @Written.append parts state state' h _ hpart
  -- the detail is printed behind a separator only if something was printed before
  by_cases hparts : parts = []
  · have hzero : ¬ state.2 > 0 := fun hpos => h.len_pos_iff.1 hpos hparts
    subst hparts
    rw [List.nil_append, queryText_singleton] at happend hlen
    have hempty : queryText [] ++ detailPart filters = detailPart filters := String.empty_append
    rw [← hempty] at hlen
    obtain ⟨state', hok, hfilled⟩ := appendText_filled _ h.toFilled hlen (le_intMax hlen)
    rw [hempty] at hfilled
    refine ⟨state', ?_, happend state' hfilled⟩
    rw [appendDetail, appendIf, decide_eq_false hzero]
    exact hok
  · have hpos : state.2 > 0 := h.len_pos_iff.2 hparts
    rw [queryText_append_singleton hparts] at happend hlen
    have hless : (queryText parts ++ "&").length < sizeofBuf := by
      rw [String.length_append] at hlen
      omega
    obtain ⟨state₁, hok₁, h₁⟩ := appendText_filled _ h.toFilled hless (le_intMax hless)
    obtain ⟨state', hok, hfilled⟩ := appendText_filled _ h₁ hlen (le_intMax hlen)
    refine ⟨state', ?_, happend state' hfilled⟩
    rw [appendDetail, appendIf, decide_eq_true hpos, if_pos rfl, ok_bind hok₁]
    exact hok

theorem copyBuf_written {parts : List String} {state : List Cell × Nat} (h : Written parts state) :
    copyBuf true state = .ok (some (queryText parts), (queryText parts).length) := by
  obtain ⟨buf, len⟩ := state
  obtain ⟨⟨⟨hholds, -⟩, rfl⟩, -⟩ := h
  have hlt : (queryText parts).length < buf.length := hholds.length_lt
  have htake : Holds (buf.take ((queryText parts).length + 1)) _ (queryText parts) :=
    ⟨hholds.take (Nat.lt_succ_self _), rfl⟩
  rw [copyBuf, if_pos rfl, if_pos (Nat.succ_le_of_lt hlt), htake.readString_eq]

theorem appendIf_written {parts : List String} {part : String} {state : List Cell × Nat}
    (b : Bool) {append : List Cell × Nat → Except HttpFault (List Cell × Nat)}
    (happend : (queryText (parts ++ [part])).length < sizeofBuf →
      ∃ state', append state = .ok state' ∧ Written (parts ++ [part]) state')
    (h : Written parts state)
    (hlen : (queryText (parts ++ if b then [part] else [])).length < sizeofBuf) :
    ∃ state', appendIf b append state = .ok state' ∧
      Written (parts ++ if b then [part] else []) state' := by
  cases b with
  | true => exact happend hlen
  | false => exact ⟨state, rfl, (List.append_nil parts).symm ▸ h⟩

/-- The end of both functions. -/
theorem handOut_written {parts : List String} {state : List Cell × Nat} (h : Written parts state)
    (size : Int) :
    (if state.2 = 0 then pure (none, size) else copyBuf true state) =
      (.ok (queryString parts, if parts = [] then size else (queryText parts).length) :
        Except HttpFault (Option String × Int)) := by
  by_cases hparts : parts = []
  · have hzero : state.2 = 0 := Nat.eq_zero_of_not_pos fun hpos => h.len_pos_iff.1 hpos hparts
    rw [if_pos hzero, queryString, if_pos hparts, if_pos hparts]
    rfl
  · rw [if_neg (Nat.ne_of_gt (h.len_pos_iff.2 hparts)), queryString, if_neg hparts, if_neg hparts]
    exact copyBuf_written h

/-- **The attributes string.** It is exactly the parts that are set; if none is, `*size`
is left as it is. -/
theorem attributes_to_string (attributes : BurrowAttributes) (size : Int)
    (hlen : (queryText (attributesParts attributes)).length < sizeofBuf) :
    burrowBackendHttpAttributesToString (some (.live attributes)) true size =
      .ok (queryString (attributesParts attributes),
        if attributesParts attributes = [] then size
        else (queryText (attributesParts attributes)).length) := by
  obtain ⟨state₁, hok₁, h₁⟩ := appendIf_written (burrowAttributesIssetTtl attributes)
    (appendPart_written _ (ttlPart_ne_empty _) Written.zeros) Written.zeros
    (Nat.lt_of_le_of_lt (length_queryText_le _ _) hlen)
  obtain ⟨state₂, hok₂, h₂⟩ := appendIf_written (burrowAttributesIssetHide attributes)
    (appendPart_written _ (hidePart_ne_empty _) h₁) h₁ hlen
  refine Eq.trans ?_ (handOut_written h₂ size)
  unfold burrowBackendHttpAttributesToString
  dsimp only
  rw [ok_bind hok₁, ok_bind hok₂]

/-- The fields are in the buffer, and the marker is still to be put behind them. -/
theorem fields_written (escape : String → String) (filters : BurrowFilters) (alloc : Bool) :
    ∃ state, Written (fieldsParts filters) state ∧
      burrowBackendHttpFiltersToString escape (some (.live filters)) alloc =
        (do
          let state ← appendIf filters.marker.isSome (appendPart (markerPart escape filters)) state
          if state.2 = 0 then return (none, 0) else copyBuf alloc state) := by
  have hlen₄ : (queryText (fieldsParts filters)).length < sizeofBuf :=
    Nat.lt_of_le_of_lt (length_fieldsParts filters) (by decide)
  have hlen₃ := Nat.lt_of_le_of_lt (length_queryText_le _ _) hlen₄
  have hlen₂ := Nat.lt_of_le_of_lt (length_queryText_le _ _) hlen₃
  have hlen₁ := Nat.lt_of_le_of_lt (length_queryText_le _ _) hlen₂
  obtain ⟨state₁, hok₁, h₁⟩ := appendIf_written (burrowFiltersIssetMatchHidden filters)
    (appendPart_written _ (matchHiddenPart_ne_empty _) Written.zeros) Written.zeros hlen₁
  obtain ⟨state₂, hok₂, h₂⟩ := appendIf_written (burrowFiltersIssetLimit filters)
    (appendPart_written _ (limitPart_ne_empty _) h₁) h₁ hlen₂
  obtain ⟨state₃, hok₃, h₃⟩ := appendIf_written (burrowFiltersIssetWait filters)
    (appendPart_written _ (waitPart_ne_empty _) h₂) h₂ hlen₃
  obtain ⟨state₄, hok₄, h₄⟩ := appendIf_written (burrowFiltersIssetDetail filters)
    (appendDetail_written h₃) h₃ hlen₄
  refine ⟨state₄, h₄, ?_⟩
  unfold burrowBackendHttpFiltersToString
  dsimp only
  rw [ok_bind hok₁, ok_bind hok₂, ok_bind hok₃, ok_bind hok₄]

/-- **The filters string.** It is exactly the parts that are set, in the order of the
source. -/
theorem filters_to_string (escape : String → String) (filters : BurrowFilters)
    (hlen : (queryText (filtersParts escape filters)).length < sizeofBuf) :
    burrowBackendHttpFiltersToString escape (some (.live filters)) true =
      .ok (queryString (filtersParts escape filters),
        (queryText (filtersParts escape filters)).length) := by
  obtain ⟨state₄, h₄, hchain⟩ := fields_written escape filters true
  obtain ⟨state₅, hok₅, h₅⟩ := appendIf_written filters.marker.isSome
    (appendPart_written _ (markerPart_ne_empty _ _) h₄) h₄ hlen
  have hout := handOut_written h₅ 0
  have hsize : (if filtersParts escape filters = [] then (0 : Int)
      else (queryText (filtersParts escape filters)).length) =
      (queryText (filtersParts escape filters)).length := by
    split
    · next hparts => rw [hparts, queryText, String.intercalate_nil, String.length_empty]; rfl
    · rfl
  rw [hchain, ok_bind hok₅, ← hsize]
  exact hout

/-! ## The strings of a command -/

/-- What `burrow_backend_http_attributes_to_string` makes of an argument. -/
def attributesString : Option (Object BurrowAttributes) → Option String
  | some (.live attributes) => queryString (attributesParts attributes)
  | _ => none

/-- What `burrow_backend_http_filters_to_string` makes of an argument. -/
def filtersString (escape : String → String) : Option (Object BurrowFilters) → Option String
  | some (.live filters) => queryString (filtersParts escape filters)
  | _ => none

theorem getD_queryString (parts : List String) :
    (queryString parts).getD "" = queryText parts := by
  rw [queryString]
  split
  · next h => rw [h, Option.getD_none, queryText, String.intercalate_nil]
  · rfl

/-- No string that is handed out is empty. -/
theorem length_ne_zero_iff {parts : List String} (h : ∀ part ∈ parts, part ≠ "") :
    (((queryString parts).getD "").length : Int) ≠ 0 ↔ (queryString parts).isSome = true := by
  rw [getD_queryString, queryString, Int.natCast_ne_zero]
  by_cases hparts : parts = []
  · rw [if_pos hparts, hparts]
    decide
  · rw [if_neg hparts]
    refine iff_of_true (fun hzero => ?_) rfl
    exact queryText_ne_empty h hparts (String.length_eq_zero_iff.1 hzero)

theorem length_attributesString_ne_zero_iff (attributes : Option (Object BurrowAttributes)) :
    (((attributesString attributes).getD "").length : Int) ≠ 0 ↔
      (attributesString attributes).isSome = true :=
  match attributes with
  | some (.live attributes) => length_ne_zero_iff (attributesParts_nonempty attributes)
  | some .destroyed | none => by decide

theorem length_filtersString_ne_zero_iff (escape : String → String)
    (filters : Option (Object BurrowFilters)) :
    (((filtersString escape filters).getD "").length : Int) ≠ 0 ↔
      (filtersString escape filters).isSome = true :=
  match filters with
  | some (.live filters) => length_ne_zero_iff (filtersParts_nonempty escape filters)
  | some .destroyed | none => by simp [filtersString]

/-- An argument is `NULL` or has a field that is set. -/
def SetsAttribute (attributes : Option (Object BurrowAttributes)) : Prop :=
  ∀ value, attributes = some (.live value) →
    burrowAttributesIssetTtl value = true ∨ burrowAttributesIssetHide value = true

theorem attributesParts_ne_nil {attributes : BurrowAttributes}
    (h : burrowAttributesIssetTtl attributes = true ∨
      burrowAttributesIssetHide attributes = true) : attributesParts attributes ≠ [] := by
  rw [attributesParts]
  rcases h with h | h
  · simp [h]
  · simp [h]

theorem attributesToString_eq {attributes : Option (Object BurrowAttributes)} {size : Int}
    (hlive : ArgLive attributes)
    (hlen : ((attributesString attributes).getD "").length < sizeofBuf)
    (hset : size = 0 ∨ SetsAttribute attributes) :
    burrowBackendHttpAttributesToString attributes true size =
      .ok (attributesString attributes, ((attributesString attributes).getD "").length) := by
  cases attributes with
  | none => rfl
  | some object =>
      obtain ⟨attributes, rfl⟩ := Object.exists_of_isLive (hlive object rfl)
      rw [attributesString, getD_queryString] at hlen ⊢
      rw [attributes_to_string attributes size hlen]
      split
      · next hparts =>
          rcases hset with rfl | hset
          · rw [hparts]
            rfl
          · exact absurd hparts (attributesParts_ne_nil (hset attributes rfl))
      · rfl

theorem filtersToString_eq (escape : String → String) {filters : Option (Object BurrowFilters)}
    (hlive : ArgLive filters)
    (hlen : ((filtersString escape filters).getD "").length < sizeofBuf) :
    burrowBackendHttpFiltersToString escape filters true =
      .ok (filtersString escape filters, ((filtersString escape filters).getD "").length) := by
  cases filters with
  | none => rfl
  | some object =>
      obtain ⟨filters, rfl⟩ := Object.exists_of_isLive (hlive object rfl)
      rw [filtersString, getD_queryString] at hlen ⊢
      exact filters_to_string escape filters hlen

end Burrow.Http
