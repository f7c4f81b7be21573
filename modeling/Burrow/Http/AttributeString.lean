import Burrow.Http.FilterString
import Burrow.Http.Request

/-!
# What an attributes string says

The string that `burrow_backend_http_attributes_to_string` hands out is read back as the
attributes that are set. If none is set, the function leaves `*size` as it was, and
`burrow_backend_http_create_message` takes what it finds there for a code: an object
with nothing set comes to the same as `NULL` exactly if that was `0`
(`attributes_outcome`).
-/

set_option autoImplicit false

namespace Burrow.Http

open QueryString (Field Plain)

/-! ## The fields of attributes -/

/-- An attribute that has been set. -/
inductive AttributeField where
  | ttl (value : UInt32)
  | hide (value : UInt32)
deriving DecidableEq, Repr

/-- The attributes that are set, each once. -/
def setAttributes (attributes : BurrowAttributes) : List AttributeField :=
  (if burrowAttributesIssetTtl attributes then
    [.ttl (burrowAttributesGetTtl attributes)] else []) ++
    (if burrowAttributesIssetHide attributes then
      [.hide (burrowAttributesGetHide attributes)] else [])

/-- The attributes that an argument sets; `NULL` sets none. -/
def argAttributes : Option (Object BurrowAttributes) → List AttributeField
  | some (.live attributes) => setAttributes attributes
  | _ => []

/-- The key and the value of an attribute, as they are printed. -/
def AttributeField.printed : AttributeField → Field
  | .ttl value => ("ttl".toList, (toString value.toNat).toList)
  | .hide value => ("hide".toList, (toString value.toNat).toList)

/-- What a reader of the query takes a field for. -/
def readAttribute (field : Field) : Option AttributeField :=
  if field.1 = "ttl".toList then (readUInt32 field.2).map .ttl
  else if field.1 = "hide".toList then (readUInt32 field.2).map .hide
  else none

/-- What the string says. -/
def readAttributes (s : String) : Option (List AttributeField) :=
  QueryString.decode readAttribute s.toList

theorem toList_toString (value : UInt32) :
    (toString value.toNat).toList = Nat.toDigits 10 value.toNat := by
  rw [Nat.toString_eq_repr, Nat.toList_repr]

theorem readUInt32_toString (value : UInt32) :
    readUInt32 (toString value.toNat).toList = some value := by
  rw [toList_toString, readUInt32, QueryString.readDecimal_toDigits, Option.bind_some,
    if_pos value.toNat_lt, UInt32.ofNat_toNat]

theorem readAttribute_printed (field : AttributeField) :
    readAttribute field.printed = some field := by
  cases field with
  | ttl value =>
      have hread : readAttribute (AttributeField.ttl value).printed =
          (readUInt32 (toString value.toNat).toList).map .ttl := rfl
      rw [hread, readUInt32_toString]
      rfl
  | hide value =>
      have hread : readAttribute (AttributeField.hide value).printed =
          (readUInt32 (toString value.toNat).toList).map .hide := rfl
      rw [hread, readUInt32_toString]
      rfl

theorem AttributeField.printed_plain (field : AttributeField) : Plain field.printed := by
  have hdigits : ∀ (c : Char), c.isDigit = false → ∀ value : UInt32,
      c ∉ (toString value.toNat).toList := by
    intro c hc value
    rw [toList_toString]
    exact QueryString.not_mem_toDigits hc _
  have hampersand := hdigits '&' (by decide)
  have hequals := hdigits '=' (by decide)
  cases field with
  | ttl value =>
      have hkey : '&' ∉ "ttl".toList ∧ '=' ∉ "ttl".toList := by decide
      exact ⟨hkey.1, hkey.2, hampersand value, hequals value⟩
  | hide value =>
      have hkey : '&' ∉ "hide".toList ∧ '=' ∉ "hide".toList := by decide
      exact ⟨hkey.1, hkey.2, hampersand value, hequals value⟩

/-- The parts of the source are the attributes that are set, as they are printed. -/
theorem attributesParts_eq (attributes : BurrowAttributes) :
    (attributesParts attributes).map String.toList =
      ((setAttributes attributes).map AttributeField.printed).map QueryString.render := by
  have httl : (ttlPart attributes).toList =
      QueryString.render (AttributeField.ttl (burrowAttributesGetTtl attributes)).printed := by
    rw [ttlPart, String.toList_append, QueryString.render_eq]
    rfl
  have hhide : (hidePart attributes).toList =
      QueryString.render (AttributeField.hide (burrowAttributesGetHide attributes)).printed := by
    rw [hidePart, String.toList_append, QueryString.render_eq]
    rfl
  simp only [attributesParts, setAttributes, List.map_append, map_optional, httl, hhide]

theorem setAttributes_eq_nil_iff (attributes : BurrowAttributes) :
    setAttributes attributes = [] ↔ attributesParts attributes = [] := by
  rw [← List.map_eq_nil_iff (f := String.toList), attributesParts_eq, List.map_eq_nil_iff,
    List.map_eq_nil_iff]

theorem readAttributes_eq {attributes : BurrowAttributes} (h : setAttributes attributes ≠ []) :
    readAttributes (queryText (attributesParts attributes)) = some (setAttributes attributes) := by
  rw [readAttributes, toList_queryText, attributesParts_eq,
    QueryString.decode_join_iff readAttribute AttributeField.printed h fun field _ =>
      field.printed_plain]
  exact fun field _ => readAttribute_printed field

/-! ## What is handed out -/

/-- The string says what is set and comes with its length; `NULL` comes with `0`. -/
structure Yields (attributes : Option (Object BurrowAttributes)) (size : Int) : Prop where
  nothing : argAttributes attributes = [] → ∀ alloc,
    burrowBackendHttpAttributesToString attributes alloc size = .ok (none, 0)
  something : argAttributes attributes ≠ [] → ∃ s,
    burrowBackendHttpAttributesToString attributes true size = .ok (some s, s.length) ∧
      readAttributes s = some (argAttributes attributes)

/-- If nothing is set, `*size` is left as it is, and no block is asked for. -/
theorem attributes_nothing_set {attributes : BurrowAttributes} (h : setAttributes attributes = [])
    (alloc : Bool) (size : Int) :
    burrowBackendHttpAttributesToString (some (.live attributes)) alloc size =
      .ok (none, size) := by
  rw [setAttributes_eq_nil_iff, attributesParts] at h
  obtain ⟨httl, hhide⟩ := List.append_eq_nil_iff.1 h
  have httl' : burrowAttributesIssetTtl attributes = false := by
    by_contra hset
    rw [if_pos (Bool.of_not_eq_false hset)] at httl
    exact List.cons_ne_nil _ _ httl
  have hhide' : burrowAttributesIssetHide attributes = false := by
    by_contra hset
    rw [if_pos (Bool.of_not_eq_false hset)] at hhide
    exact List.cons_ne_nil _ _ hhide
  unfold burrowBackendHttpAttributesToString
  dsimp only
  rw [httl', hhide']
  rfl

theorem yields_iff {attributes : Option (Object BurrowAttributes)} (hlive : ArgLive attributes)
    (size : Int) :
    Yields attributes size ↔
      (attributes ≠ none → argAttributes attributes = [] → size = 0) := by
  cases attributes with
  | none =>
      refine iff_of_true ⟨fun _ _ => rfl, fun hne => absurd rfl hne⟩ fun hne => absurd rfl hne
  | some object =>
      obtain ⟨attributes, rfl⟩ := Object.exists_of_isLive (hlive object rfl)
      constructor
      · -- `*size` is what it was
        intro hyields _ hnil
        have hsize := hyields.nothing hnil true
        rw [attributes_nothing_set hnil] at hsize
        cases hsize
        rfl
      · intro hsize
        constructor
        · intro hnil alloc
          rw [attributes_nothing_set hnil, hsize (Option.some_ne_none _) hnil]
        · intro hne
          have hparts := mt (setAttributes_eq_nil_iff attributes).2 hne
          refine ⟨queryText (attributesParts attributes), ?_, readAttributes_eq hne⟩
          rw [attributes_to_string attributes size (Nat.lt_of_le_of_lt
            (length_attributesParts attributes) (by decide)), queryString, if_neg hparts,
            if_neg hparts]

/-! ## Commands with attributes -/

/-- The commands that send attributes. -/
def sendsAttributes : CommandName → Bool
  | .createMessage | .updateMessage | .updateMessages => true
  | _ => false

/-- An object with nothing set comes to the same as `NULL`, whatever the command, and
whichever blocks are there. -/
def SameAsNull (attributes : Option (Object BurrowAttributes)) (uninit : Int) : Prop :=
  argAttributes attributes = [] →
    ∀ escape alloc backend (cmd : BackendCommand) name, sendsAttributes name = true →
      burrowBackendHttpCommand escape alloc uninit backend { cmd with attributes := attributes }
          name =
        burrowBackendHttpCommand escape alloc uninit backend { cmd with attributes := none } name

section Commands

variable {attributes : BurrowAttributes} (h : setAttributes attributes = [])
  (escape : String → String) (alloc : Allocations) (uninit : Int) (backend : BurrowBackend)
  (cmd : BackendCommand)

include h

/-- An update hands in a size of `0`. -/
theorem update_nothing_set :
    burrowBackendHttpCommonGetting escape alloc backend
        { cmd with attributes := some (.live attributes) } =
      burrowBackendHttpCommonGetting escape alloc backend { cmd with attributes := none } := by
  have hnull : burrowBackendHttpAttributesToString none alloc.attributeStr 0 = .ok (none, 0) := rfl
  unfold burrowBackendHttpCommonGetting
  dsimp only
  rw [attributes_nothing_set h, hnull]

theorem create_nothing_set_zero :
    burrowBackendHttpCreateMessage escape alloc 0 backend
        { cmd with attributes := some (.live attributes) } =
      burrowBackendHttpCreateMessage escape alloc 0 backend { cmd with attributes := none } := by
  have hnull : burrowBackendHttpAttributesToString none alloc.attributeStr 0 = .ok (none, 0) := rfl
  unfold burrowBackendHttpCreateMessage
  dsimp only
  rw [attributes_nothing_set h, hnull]

/-- What `attr_str_len` held is returned for a code. -/
theorem create_nothing_set_fails (huninit : uninit ≠ 0) :
    burrowBackendHttpCreateMessage escape alloc uninit backend
        { cmd with attributes := some (.live attributes) } = .ok (.fails uninit) := by
  unfold burrowBackendHttpCreateMessage
  dsimp only
  rw [attributes_nothing_set h]
  exact if_pos ⟨rfl, huninit⟩

omit h in
/-- With `NULL` for attributes, and all blocks there, no code is returned. -/
theorem create_null_not_fails (code : Int) :
    burrowBackendHttpCreateMessage escape .all uninit backend { cmd with attributes := none } ≠
      .ok (.fails code) := by
  have hnull : burrowBackendHttpAttributesToString none Allocations.all.attributeStr uninit =
      .ok (none, 0) := rfl
  have hnone : ¬ ((none : Option String).isNone = true ∧ (0 : Int) ≠ 0) := by decide
  have hurl : ¬ Allocations.all.url = false := by decide
  unfold burrowBackendHttpCreateMessage
  dsimp only
  rw [ok_bind hnull]
  dsimp only
  rw [if_neg hnone, if_neg hurl]
  generalize startUrl backend _ _ = started
  cases started with
  | error fault => exact fun heq => by cases heq
  | ok state => exact fun heq => by cases heq

end Commands

theorem sameAsNull_iff {attributes : Option (Object BurrowAttributes)} (hlive : ArgLive attributes)
    (uninit : Int) :
    SameAsNull attributes uninit ↔
      (attributes ≠ none → argAttributes attributes = [] → uninit = 0) := by
  cases attributes with
  | none => exact iff_of_true (fun _ _ _ _ _ _ _ => rfl) fun hne => absurd rfl hne
  | some object =>
      obtain ⟨attributes, rfl⟩ := Object.exists_of_isLive (hlive object rfl)
      constructor
      · intro hsame _ hnil
        by_contra huninit
        -- a `create_message` that fails with the leftover, and with `NULL` does not
        have hcreate := hsame hnil id .all burrowBackendHttpCreate default .createMessage rfl
        have hfails := create_nothing_set_fails hnil id .all uninit burrowBackendHttpCreate default
          huninit
        exact create_null_not_fails id uninit _ _ uninit (hcreate.symm.trans hfails)
      · intro huninit hnil escape alloc backend cmd name hsends
        have hzero := huninit (Option.some_ne_none _) hnil
        cases name with
        | createMessage =>
            rw [hzero]
            exact create_nothing_set_zero hnil escape alloc backend cmd
        | updateMessage => exact update_nothing_set hnil escape alloc backend cmd
        | updateMessages => exact update_nothing_set hnil escape alloc backend cmd
        | _ => cases hsends

/-- **The outcome depends on what is set.** The string says what is set, and an object
with nothing set comes to the same as `NULL`: each of the two holds exactly if `size`
was `0` before the call wherever the argument is such an object. -/
theorem attributes_outcome {attributes : Option (Object BurrowAttributes)}
    (hlive : ArgLive attributes) (size : Int) :
    (Yields attributes size ↔
        (attributes ≠ none → argAttributes attributes = [] → size = 0)) ∧
      (SameAsNull attributes size ↔
        (attributes ≠ none → argAttributes attributes = [] → size = 0)) :=
  ⟨yields_iff hlive size, sameAsNull_iff hlive size⟩

/-- A time to live of 4294967295 seconds, and a size that was not initialised. -/
theorem attributes_outcome_ttl :
    Yields (some (.live { set := burrowAttributesTtl, ttl := 4294967295, hide := 0 })) 77 ∧
      SameAsNull
        (some (.live { set := burrowAttributesTtl, ttl := 4294967295, hide := 0 })) 77 := by
  obtain ⟨hyields, hsame⟩ := @attributes_outcome
    (some (.live { set := burrowAttributesTtl, ttl := 4294967295, hide := 0 }))
    ((argLive_some _).2 trivial) 77
  have hset : argAttributes
      (some (.live { set := burrowAttributesTtl, ttl := 4294967295, hide := 0 })) ≠ [] := by decide
  exact ⟨hyields.2 fun _ hnil => absurd hnil hset, hsame.2 fun _ hnil => absurd hnil hset⟩

/-- A message is created with an object that has nothing set: the code is whatever
`attr_str_len` held. -/
theorem create_returns_uninit :
    burrowBackendHttpCommand id .all 77
        { burrowBackendHttpCreate with
          server := some "s", serverLen := 1, port := "80", portLen := 2
          baseurl := some "http://s:80", baseurlLen := 11 }
        { (default : BackendCommand) with
          command := some .createMessage, account := "a", queue := "q", messageId := "m"
          attributes := some (.live { set := 0, ttl := 0, hide := 0 }) }
        .createMessage = .ok (.fails 77) ∧
      ¬ Yields (some (.live { set := 0, ttl := 0, hide := 0 })) 77 ∧
      ¬ SameAsNull (some (.live { set := 0, ttl := 0, hide := 0 })) 77 := by
  have hnil : setAttributes { set := 0, ttl := 0, hide := 0 } = [] := by decide
  have hlive :
      ArgLive (some (Object.live ({ set := 0, ttl := 0, hide := 0 } : BurrowAttributes))) :=
    (argLive_some _).2 trivial
  refine ⟨?_, ?_, ?_⟩
  · exact create_nothing_set_fails hnil id .all 77 _
      { (default : BackendCommand) with
        command := some .createMessage, account := "a", queue := "q", messageId := "m" } (by decide)
  · intro hyields
    exact absurd ((yields_iff hlive 77).1 hyields (Option.some_ne_none _) hnil) (by decide)
  · intro hsame
    exact absurd ((sameAsNull_iff hlive 77).1 hsame (Option.some_ne_none _) hnil) (by decide)

end Burrow.Http
