import Burrow.Http.Query
import Burrow.Lib.QueryString

/-!
# What a filters string says

The string that `burrow_backend_http_filters_to_string` hands out, as a reader of the
query takes it: the fields are split at `&` and `=`, and numbers are decimal. The
fields that are set are read back exactly when the numbers are below `2^31`, since they
are printed with `%d` (`filters_round_trip`). The string is whole exactly when the
marker leaves room in the buffer (`filters_whole`).
-/

set_option autoImplicit false

namespace Burrow.Http

open CBuffer (Cell)
open QueryString (Field Plain)

/-! ## The fields of filters -/

/-- A field of filters that has been set. -/
inductive FilterField where
  | matchHidden (value : Bool)
  | limit (value : UInt32)
  | wait (value : UInt32)
  | detail (value : BurrowDetail)
deriving DecidableEq, Repr

/-- The fields that are set, each once. -/
def setFields (filters : BurrowFilters) : List FilterField :=
  (if burrowFiltersIssetMatchHidden filters then [.matchHidden filters.matchHidden] else []) ++
    (if burrowFiltersIssetLimit filters then [.limit filters.limit] else []) ++
    (if burrowFiltersIssetWait filters then [.wait filters.wait] else []) ++
    (if burrowFiltersIssetDetail filters then [.detail filters.detail] else [])

def detailName : BurrowDetail → List Char
  | .none => "none".toList
  | .id => "id".toList
  | .attributes => "attributes".toList
  | .body => "body".toList
  | .all => "all".toList

/-- The key and the value of a field, as they are printed. -/
def FilterField.printed : FilterField → Field
  | .matchHidden value => ("match_hidden".toList, if value then "true".toList else "false".toList)
  | .limit value => ("limit".toList, (printInt value).toList)
  | .wait value => ("wait".toList, (printInt value).toList)
  | .detail value => ("detail".toList, detailName value)

/-- A decimal number of 32 bits. -/
def readUInt32 (s : List Char) : Option UInt32 :=
  (QueryString.readDecimal s).bind fun n => if n < 2 ^ 32 then some (UInt32.ofNat n) else none

def readBool (s : List Char) : Option Bool :=
  if s = "true".toList then some true else if s = "false".toList then some false else none

def readDetail (s : List Char) : Option BurrowDetail :=
  [.none, .id, .attributes, .body, .all].find? fun detail => detailName detail = s

/-- What a reader of the query takes a field for. -/
def readField (field : Field) : Option FilterField :=
  if field.1 = "match_hidden".toList then (readBool field.2).map .matchHidden
  else if field.1 = "limit".toList then (readUInt32 field.2).map .limit
  else if field.1 = "wait".toList then (readUInt32 field.2).map .wait
  else if field.1 = "detail".toList then (readDetail field.2).map .detail
  else none

/-- What a string that is handed out says; `NULL` says nothing. -/
def readFilters : Option String → Option (List FilterField)
  | none => some []
  | some s => QueryString.decode readField s.toList

/-- The number of the field, if it has one, is below `2^31`. -/
def FilterField.Small : FilterField → Prop
  | .limit value | .wait value => value.toNat < 2 ^ 31
  | _ => True

/-! ## Fields one by one -/

theorem readUInt32_printInt_iff (value : UInt32) :
    readUInt32 (printInt value).toList = some value ↔ value.toNat < 2 ^ 31 := by
  by_cases h : value.toNat < 2 ^ 31
  · refine iff_of_true ?_ h
    rw [printInt_of_lt h, readUInt32, QueryString.readDecimal_toDigits, Option.bind_some,
      if_pos value.toNat_lt, UInt32.ofNat_toNat]
  · refine iff_of_false ?_ h
    rw [printInt_of_le (Nat.not_lt.1 h), readUInt32, QueryString.readDecimal_minus,
      Option.bind_none]
    exact nofun

theorem map_eq_some_iff_of_injective {α β : Type} {f : α → β} {o : Option α} {a : α}
    (hf : Function.Injective f) : o.map f = some (f a) ↔ o = some a := by
  rw [← Option.map_some, (Option.map_injective hf).eq_iff]

/-- **A field is read back** exactly if its number is small. -/
theorem readField_printed_iff (field : FilterField) :
    readField field.printed = some field ↔ field.Small := by
  cases field with
  | matchHidden value => exact iff_of_true (by cases value <;> decide) trivial
  | detail value => exact iff_of_true (by cases value <;> decide) trivial
  | limit value =>
      have hread : readField (FilterField.limit value).printed =
          (readUInt32 (printInt value).toList).map .limit := rfl
      rw [hread, FilterField.Small, ← readUInt32_printInt_iff]
      exact map_eq_some_iff_of_injective fun _ _ heq => FilterField.limit.inj heq
  | wait value =>
      have hread : readField (FilterField.wait value).printed =
          (readUInt32 (printInt value).toList).map .wait := rfl
      rw [hread, FilterField.Small, ← readUInt32_printInt_iff]
      exact map_eq_some_iff_of_injective fun _ _ heq => FilterField.wait.inj heq

theorem not_mem_printInt {c : Char} (hdigit : c.isDigit = false) (hminus : c ≠ '-')
    (value : UInt32) : c ∉ (printInt value).toList := by
  by_cases h : value.toNat < 2 ^ 31
  · rw [printInt_of_lt h]
    exact QueryString.not_mem_toDigits hdigit _
  · rw [printInt_of_le (Nat.not_lt.1 h), List.mem_cons, not_or]
    exact ⟨hminus, QueryString.not_mem_toDigits hdigit _⟩

theorem printed_plain (field : FilterField) : Plain field.printed := by
  have hampersand := fun value => not_mem_printInt (c := '&') (by decide) (by decide) value
  have hequals := fun value => not_mem_printInt (c := '=') (by decide) (by decide) value
  cases field with
  | matchHidden value => cases value <;> decide
  | detail value => cases value <;> decide
  | limit value =>
      have hkey : '&' ∉ "limit".toList ∧ '=' ∉ "limit".toList := by decide
      exact ⟨hkey.1, hkey.2, hampersand value, hequals value⟩
  | wait value =>
      have hkey : '&' ∉ "wait".toList ∧ '=' ∉ "wait".toList := by decide
      exact ⟨hkey.1, hkey.2, hampersand value, hequals value⟩

/-! ## The string and its fields -/

theorem toList_queryText (parts : List String) :
    (queryText parts).toList = QueryString.join (parts.map String.toList) :=
  String.toList_intercalate

theorem map_optional {α β : Type} (f : α → β) (b : Bool) (a : α) :
    (if b then [a] else []).map f = if b then [f a] else [] := by
  cases b <;> rfl

/-- The parts of the source are the fields that are set, as they are printed. -/
theorem fieldsParts_eq (filters : BurrowFilters) :
    (fieldsParts filters).map String.toList =
      ((setFields filters).map FilterField.printed).map QueryString.render := by
  have hmatch : (matchHiddenPart filters).toList =
      QueryString.render (FilterField.matchHidden filters.matchHidden).printed := by
    rw [matchHiddenPart]
    cases filters.matchHidden <;> decide
  have hlimit : (limitPart filters).toList =
      QueryString.render (FilterField.limit filters.limit).printed := by
    rw [limitPart, String.toList_append, QueryString.render_eq]
    rfl
  have hwait : (waitPart filters).toList =
      QueryString.render (FilterField.wait filters.wait).printed := by
    rw [waitPart, String.toList_append, QueryString.render_eq]
    rfl
  have hdetail : (detailPart filters).toList =
      QueryString.render (FilterField.detail filters.detail).printed := by
    rw [detailPart]
    cases filters.detail <;> decide
  simp only [fieldsParts, setFields, List.map_append, map_optional, hmatch, hlimit, hwait, hdetail]

theorem setFields_eq_nil_iff (filters : BurrowFilters) :
    setFields filters = [] ↔ fieldsParts filters = [] := by
  rw [← List.map_eq_nil_iff (f := String.toList), fieldsParts_eq, List.map_eq_nil_iff,
    List.map_eq_nil_iff]

/-- **What the string of filters says** is what was set, exactly if the numbers are small. -/
theorem readFilters_iff (filters : BurrowFilters) :
    readFilters (queryString (fieldsParts filters)) = some (setFields filters) ↔
      ∀ field ∈ setFields filters, field.Small := by
  by_cases hnil : setFields filters = []
  · rw [queryString, if_pos ((setFields_eq_nil_iff filters).1 hnil), hnil]
    exact iff_of_true rfl fun _ hfield => absurd hfield List.not_mem_nil
  · rw [queryString, if_neg (mt (setFields_eq_nil_iff filters).2 hnil), readFilters,
      toList_queryText, fieldsParts_eq,
      QueryString.decode_join_iff readField FilterField.printed hnil fun field _ =>
        printed_plain field]
    exact forall₂_congr fun field _ => readField_printed_iff field

theorem forall_setFields_iff (filters : BurrowFilters) :
    (∀ field ∈ setFields filters, field.Small) ↔
      (burrowFiltersIssetLimit filters = true → filters.limit.toNat < 2 ^ 31) ∧
        (burrowFiltersIssetWait filters = true → filters.wait.toNat < 2 ^ 31) := by
  rw [setFields]
  cases burrowFiltersIssetMatchHidden filters <;> cases burrowFiltersIssetLimit filters <;>
    cases burrowFiltersIssetWait filters <;> cases burrowFiltersIssetDetail filters <;>
    simp [FilterField.Small]

/-! ## What is handed out -/

/-- The end of the function if no block is left: `NULL`, with `ENOMEM` if there is
something to hand out. -/
theorem handOut_no_block {parts : List String} {state : List Cell × Nat} (h : Written parts state) :
    (if state.2 = 0 then pure (none, 0) else copyBuf false state) =
      (.ok (none, if parts = [] then 0 else ENOMEM) :
        Except HttpFault (Option String × Int)) := by
  by_cases hparts : parts = []
  · have hzero : state.2 = 0 := Nat.eq_zero_of_not_pos fun hpos => h.len_pos_iff.1 hpos hparts
    rw [if_pos hzero, if_pos hparts]
    rfl
  · rw [if_neg (Nat.ne_of_gt (h.len_pos_iff.2 hparts)), if_neg hparts]
    rfl

/-- What the string of filters without a marker says is what was set, and it is `NULL`
with size `0` exactly if nothing was. -/
def RoundTrips (escape : String → String) (filters : BurrowFilters) : Prop :=
  ∀ alloc, ∃ out size,
    burrowBackendHttpFiltersToString escape (some (.live filters)) alloc = .ok (out, size) ∧
      (alloc = true → readFilters out = some (setFields filters)) ∧
      (out = none ∧ size = 0 ↔ setFields filters = [])

/-- Without a marker the string always fits in the buffer. -/
theorem filters_without_marker (escape : String → String) {filters : BurrowFilters}
    (hmarker : filters.marker = none) :
    burrowBackendHttpFiltersToString escape (some (.live filters)) true =
      .ok (queryString (fieldsParts filters), (queryText (fieldsParts filters)).length) ∧
    burrowBackendHttpFiltersToString escape (some (.live filters)) false =
      .ok (none, if fieldsParts filters = [] then 0 else ENOMEM) := by
  have hparts : filtersParts escape filters = fieldsParts filters := by
    rw [filtersParts_eq, hmarker]
    exact List.append_nil _
  constructor
  · rw [← hparts]
    apply filters_to_string
    rw [hparts]
    exact Nat.lt_of_le_of_lt (length_fieldsParts filters) (by decide)
  · obtain ⟨state, hstate, hchain⟩ := fields_written escape filters false
    rw [hchain, hmarker]
    exact handOut_no_block hstate

theorem queryString_eq_none_iff (filters : BurrowFilters) :
    queryString (fieldsParts filters) = none ∧
        ((queryText (fieldsParts filters)).length : Int) = 0 ↔ setFields filters = [] := by
  rw [setFields_eq_nil_iff, queryString]
  constructor
  · rintro ⟨hnone, -⟩
    by_contra hparts
    rw [if_neg hparts] at hnone
    exact Option.some_ne_none _ hnone
  · intro hparts
    rw [if_pos hparts, hparts]
    exact ⟨rfl, rfl⟩

/-- **The string of filters without a marker** says what was set, exactly if `limit` and
`wait` are below `2^31`. -/
theorem filters_round_trip (escape : String → String) (filters : BurrowFilters)
    (hmarker : filters.marker = none) :
    RoundTrips escape filters ↔
      (burrowFiltersIssetLimit filters = true → filters.limit.toNat < 2 ^ 31) ∧
        (burrowFiltersIssetWait filters = true → filters.wait.toNat < 2 ^ 31) := by
  obtain ⟨hsome, hnone⟩ := filters_without_marker escape hmarker
  rw [← forall_setFields_iff, ← readFilters_iff]
  constructor
  · intro h
    obtain ⟨out, size, hout, hread, -⟩ := h true
    rw [hsome] at hout
    cases hout
    exact hread rfl
  · intro hread alloc
    cases alloc with
    | true => exact ⟨_, _, hsome, fun _ => hread, queryString_eq_none_iff filters⟩
    | false =>
        -- without the block for the string only its length is left of it
        refine ⟨_, _, hnone, fun halloc => absurd halloc (by decide), ?_⟩
        rw [setFields_eq_nil_iff]
        by_cases hparts : fieldsParts filters = []
        · rw [if_pos hparts]
          exact iff_of_true ⟨rfl, rfl⟩ hparts
        · rw [if_neg hparts]
          exact iff_of_false (fun h => absurd h.2 (by decide)) hparts

/-- Hidden messages, too, the largest limit that is printed as it is, no bodies and a wait of 10
seconds. -/
theorem filters_round_trip_fields :
    RoundTrips id
      { set := 15
        matchHidden := true
        limit := 2147483647
        marker := none
        detail := .attributes
        wait := 10 } :=
  (filters_round_trip id _ rfl).2 (by decide)

/-- The largest limit is printed as `limit=-1`. -/
theorem limit_printed_negative :
    ¬ RoundTrips id { (default : BurrowFilters) with set := 2, limit := 4294967295 } := by
  intro h
  obtain ⟨out, size, hout, hread, -⟩ := h true
  rw [(filters_without_marker id rfl).1] at hout
  cases hout
  exact absurd (hread rfl) (by decide)

/-! ## Whether it is whole -/

/-- The marker, if there is one, leaves room in the buffer for the zero byte. -/
def MarkerFits (escape : String → String) (filters : BurrowFilters) : Prop :=
  ∀ marker, filters.marker = some marker →
    (queryText (fieldsParts filters ++ ["marker="])).length + (escape marker).length < sizeofBuf

theorem length_queryText_append (parts : List String) (key value : String) :
    (queryText (parts ++ [key ++ value])).length =
      (queryText (parts ++ [key])).length + value.length := by
  by_cases hparts : parts = []
  · rw [hparts, List.nil_append, List.nil_append, queryText_singleton, queryText_singleton,
      String.length_append]
  · rw [queryText_append_singleton hparts, queryText_append_singleton hparts,
      ← String.append_assoc, String.length_append]

theorem length_filtersParts (escape : String → String) {filters : BurrowFilters} {marker : String}
    (hmarker : filters.marker = some marker) :
    (queryText (filtersParts escape filters)).length =
      (queryText (fieldsParts filters ++ ["marker="])).length + (escape marker).length := by
  rw [filtersParts_eq, hmarker]
  dsimp only [Option.isSome_some]
  rw [if_pos rfl, markerPart, hmarker]
  exact length_queryText_append _ _ _

theorem markerFits_iff (escape : String → String) (filters : BurrowFilters) :
    MarkerFits escape filters ↔ (queryText (filtersParts escape filters)).length < sizeofBuf := by
  rw [MarkerFits]
  cases hmarker : filters.marker with
  | none =>
      refine iff_of_true (fun _ hsome => absurd hsome (by simp)) ?_
      rw [filtersParts_eq, hmarker]
      dsimp only [Option.isSome_none]
      rw [if_neg (by decide), List.append_nil]
      exact Nat.lt_of_le_of_lt (length_fieldsParts filters) (by decide)
  | some marker =>
      rw [length_filtersParts escape hmarker]
      constructor
      · intro h
        exact h marker rfl
      · rintro h marker' heq
        cases heq
        exact h

/-- A part is put into the buffer with `snprintf`, which counts all of it. -/
theorem appendPart_cases (part : String) {parts : List String} {state : List Cell × Nat}
    (h : Written parts state) :
    (∃ misuse, appendPart part state = .error (.memory misuse) ∧
        (part.length < CBuffer.intMax → misuse = .outOfBounds)) ∨
      ∃ buf, appendPart part state = .ok (buf, (queryText (parts ++ [part])).length) ∧
        buf.length = sizeofBuf := by
  obtain ⟨buf, len⟩ := state
  have hsize : buf.length = sizeofBuf := h.holds.2
  by_cases hparts : parts = []
  · -- the first part goes to the beginning of the buffer, without an `&`
    have hzero : ¬ len > 0 := fun hpos => h.len_pos_iff.1 hpos hparts
    rw [appendPart, if_neg hzero, hparts, List.nil_append, queryText_singleton]
    rcases snprintf_cases buf 0 sizeofBuf part with ⟨misuse, herror, hmisuse⟩ | ⟨buf', hok, hlen⟩
    · exact Or.inl ⟨misuse, herror, fun hint => hmisuse (Nat.le_of_lt hint)⟩
    · exact Or.inr ⟨buf', hok, hlen.trans hsize⟩
  · have hpos : len > 0 := h.len_pos_iff.2 hparts
    have hlen : len = (queryText parts).length := h.len
    have hseparator : ("&" ++ part).length = part.length + 1 := by
      rw [String.length_append, Nat.add_comm]
      rfl
    rw [appendPart, if_pos hpos, appendText, queryText_append_singleton hparts,
      String.append_assoc, String.length_append, ← hlen]
    rcases snprintf_cases buf len (sizeSub sizeofBuf len) ("&" ++ part) with
      ⟨misuse, herror, hmisuse⟩ | ⟨buf', hok, hlen'⟩
    · left
      refine ⟨misuse, ?_, fun hint => hmisuse (by omega)⟩
      rw [herror]
      rfl
    · right
      refine ⟨buf', ?_, hlen'.trans hsize⟩
      rw [hok]
      rfl

/-- A string that is too long is copied from behind the end of the buffer, unless
`snprintf` could not count it. -/
theorem filters_overrun (escape : String → String) {filters : BurrowFilters}
    (hlong : ¬ MarkerFits escape filters) :
    ∃ misuse, burrowBackendHttpFiltersToString escape (some (.live filters)) true =
        .error (.memory misuse) ∧
      ((markerPart escape filters).length < CBuffer.intMax → misuse = .outOfBounds) := by
  obtain ⟨state, hstate, hchain⟩ := fields_written escape filters true
  have hlong' := mt (markerFits_iff escape filters).2 hlong
  obtain ⟨marker, hmarker⟩ : ∃ marker, filters.marker = some marker := by
    rw [MarkerFits] at hlong
    push Not at hlong
    obtain ⟨marker, hmarker, -⟩ := hlong
    exact ⟨marker, hmarker⟩
  have hparts : filtersParts escape filters =
      fieldsParts filters ++ [markerPart escape filters] := by
    rw [filtersParts_eq, hmarker]
    rfl
  rw [hchain, hmarker]
  dsimp only [Option.isSome_some, appendIf]
  rw [if_pos rfl]
  rcases appendPart_cases (markerPart escape filters) hstate with
    ⟨misuse, herror, hmisuse⟩ | ⟨buf, hok, hsize⟩
  · refine ⟨misuse, ?_, hmisuse⟩
    rw [herror]
    rfl
  · -- the length is that of the whole string, and `memcpy` reads as much
    rw [← hparts] at hok
    have hpos : 0 < sizeofBuf := by decide
    refine ⟨.outOfBounds, ?_, fun _ => rfl⟩
    rw [ok_bind hok]
    dsimp only
    rw [if_neg (by omega), copyBuf, if_pos rfl, if_neg (by omega)]

/-- **The filters string is whole**, and nothing outside of the buffer is accessed,
exactly if the marker fits. -/
theorem filters_whole (escape : String → String) (filters : BurrowFilters) :
    burrowBackendHttpFiltersToString escape (some (.live filters)) true =
        .ok (queryString (filtersParts escape filters),
          (queryText (filtersParts escape filters)).length) ↔
      MarkerFits escape filters := by
  constructor
  · intro hok
    by_contra hlong
    obtain ⟨misuse, herror, -⟩ := filters_overrun escape hlong
    rw [hok] at herror
    exact absurd herror (by simp)
  · intro hfits
    exact filters_to_string escape filters ((markerFits_iff escape filters).1 hfits)

/-- A marker of `n` times the same character. -/
def markerOf (n : Nat) : BurrowFilters :=
  { (default : BurrowFilters) with marker := some (String.ofList (List.replicate n 'a')) }

/-- A marker of 1017 characters that need no escape: `marker=` and the marker fill all of
the buffer, and the byte behind it is copied. -/
theorem marker_overruns :
    (∀ s : String, (id s).length ≤ 3 * s.length) ∧
      burrowBackendHttpFiltersToString id (some (.live (markerOf 1017))) true =
        .error (.memory .outOfBounds) := by
  have hlen : (String.ofList (List.replicate 1017 'a')).length = 1017 := by
    rw [String.length_ofList, List.length_replicate]
  have hlong : ¬ MarkerFits id (markerOf 1017) := by
    intro hfits
    have hroom := hfits _ rfl
    rw [id, hlen] at hroom
    exact absurd hroom (by decide)
  have hpart : (markerPart id (markerOf 1017)).length = 1024 := by
    have heq : markerPart id (markerOf 1017) =
        "marker=" ++ String.ofList (List.replicate 1017 'a') := rfl
    rw [heq, String.length_append, hlen]
    decide
  refine ⟨fun s => Nat.le_mul_of_pos_left _ (by decide), ?_⟩
  obtain ⟨misuse, herror, hmisuse⟩ := filters_overrun id hlong
  rw [herror, hmisuse (by rw [hpart]; decide)]

end Burrow.Http
