import Burrow.Http.Decoder
import Mathlib.Data.List.Basic

/-!
# Lists of flat objects are decoded exactly

The members of a flat object have any keys, and values that are neither arrays nor objects. A
list of such objects is decoded up to the first member that ends the run (`Member.stop?`), which
is one whose value does not fit its key, or a body. It is taken as a whole just if there is none
(`flatList_decodes_iff`), and each object is then reported as the message that its members stand
for. So the objects that the decoder is made for are decoded just if none of them has a body
(`decode_messages_iff`).
-/

set_option autoImplicit false

namespace Burrow.Http

/-! ## Members -/

/-- A key of a flat object with its value. -/
structure Member where
  key : List UInt8
  value : JsonEvent
  scalar : isScalar value = true

namespace Member

def events (member : Member) : List JsonEvent := [.key member.key, member.value]

/-- The value fits its key. -/
def Fits (member : Member) : Prop := fits member.key member.value = true

instance : DecidablePred Fits := fun member =>
  inferInstanceAs (Decidable (fits member.key member.value = true))

/-- The member is a string for the key `body`. -/
def IsBody (member : Member) : Prop := isBody member.key member.value = true

instance : DecidablePred IsBody := fun member =>
  inferInstanceAs (Decidable (isBody member.key member.value = true))

/-- What the run ends with at the member. -/
def stop? (member : Member) : Option JsonStop := valueStop member.key member.value

theorem stop?_eq_none_iff (member : Member) :
    member.stop? = none ↔ member.Fits ∧ ¬ member.IsBody := by
  simp only [stop?, valueStop, Fits, IsBody]
  cases fits member.key member.value <;> cases isBody member.key member.value <;> simp

/-- The pair that a member stands for. Keys end at their first zero byte, and integers are taken
modulo `2 ^ 32`. -/
def pair? (member : Member) : Option Pair :=
  match member.value with
  | .string value =>
      if cString member.key = keyId then some (.id value)
      else if cString member.key = keyBody then some (.body value)
      else none
  | .integer value =>
      if cString member.key = keyHide then some (.hide (UInt32.ofInt value))
      else if cString member.key = keyTtl then some (.ttl (UInt32.ofInt value))
      else none
  | _ => none

end Member

def flatEvents (members : List Member) : List JsonEvent :=
  [.objectBegin] ++ members.flatMap Member.events ++ [.objectEnd]

/-- The events of a list of flat objects, on their own or in an array. -/
def flatListEvents (inArray : Bool) (objects : List (List Member)) : List JsonEvent :=
  if inArray then [.arrayBegin] ++ objects.flatMap flatEvents ++ [.arrayEnd]
  else objects.flatMap flatEvents

/-- The pairs that the members of some objects stand for. -/
def pairsOf (objects : List (List Member)) : List (List Pair) :=
  objects.map fun members => members.filterMap Member.pair?

section Steps

variable {unescape : List UInt8 → List UInt8} {command : Option CommandName}
  {pairs : List Pair} {jproc : JsonProcessing} {stop : JsonStop}
  (hcommand : command.any returnsMessages = true)
include hcommand

/-- A member that ends no run is taken in as its pair. -/
theorem member_decodes {member : Member} (hstop : member.stop? = none)
    (h : Gathers unescape pairs jproc) :
    ∃ pair jproc', member.pair? = some pair ∧
      Decodes unescape command member.events jproc [] jproc' ∧
      Gathers unescape (pairs ++ [pair]) jproc' := by
  obtain ⟨hmessage, -⟩ := h
  have hattributes : jproc.attributes = some (attributesOf pairs) :=
    congrArg Message.attributes hmessage
  obtain ⟨hfits, hbody⟩ := member.stop?_eq_none_iff.1 hstop
  obtain ⟨key, value, hscalar⟩ := member
  cases value with
  | arrayBegin | arrayEnd | objectBegin | objectEnd | key => cases hscalar
  | float | null | true | false => cases hfits
  | string value =>
      have hid : cString key = keyId :=
        (of_decide_eq_true hfits).resolve_right fun h => hbody (decide_eq_true h)
      have hvalue := @stringValue_id unescape key hid value jproc
      refine ⟨.id value, _, if_pos hid, value_decodes hcommand ((if_pos hcommand).trans hvalue),
        ?_, rfl⟩
      rw [ofObject_append_id, ← hmessage]
      rfl
  | integer value =>
      have hkey : cString key = keyTtl ∨ cString key = keyHide := of_decide_eq_true hfits
      by_cases hhide : cString key = keyHide
      · have hvalue : integerValue value (withKey key jproc) =
            .ok (.accept { withKey key jproc with
              isKey := false
              attributes :=
                some (burrowAttributesSetHide (attributesOf pairs) (UInt32.ofInt value)) }) := by
          rw [integerValue, withKey, hattributes]
          exact if_pos hhide
        refine ⟨.hide (UInt32.ofInt value), _, if_pos hhide,
          value_decodes hcommand ((if_pos hcommand).trans hvalue), ?_, rfl⟩
        rw [ofObject_append_hide, ← hmessage]
        rfl
      · have httl := hkey.resolve_right hhide
        have hvalue : integerValue value (withKey key jproc) =
            .ok (.accept { withKey key jproc with
              isKey := false
              attributes :=
                some (burrowAttributesSetTtl (attributesOf pairs) (UInt32.ofInt value)) }) := by
          rw [integerValue, withKey, hattributes]
          exact (if_neg hhide).trans (if_pos httl)
        refine ⟨.ttl (UInt32.ofInt value), _, (if_neg hhide).trans (if_pos httl),
          value_decodes hcommand ((if_pos hcommand).trans hvalue), ?_, rfl⟩
        rw [ofObject_append_ttl, ← hmessage]
        rfl

theorem member_ends {member : Member} (hstop : member.stop? = some stop)
    (jproc : JsonProcessing) : Ends unescape command member.events jproc stop := by
  have hvalue := @value_ends unescape command hcommand _ _ _ jproc member.scalar hstop
  exact Ends.behind (key_decodes hcommand member.key jproc)
    (Machine.run_cons_of_error _ hvalue [])

/-! ## Objects -/

/-- The members of an object are taken in, one after the other, if none of them ends the run. -/
theorem members_decode {members : List Member} (hstop : members.findSome? Member.stop? = none)
    (h : Gathers unescape pairs jproc) :
    ∃ jproc', Decodes unescape command (members.flatMap Member.events) jproc [] jproc' ∧
      Gathers unescape (pairs ++ members.filterMap Member.pair?) jproc' := by
  induction members generalizing pairs jproc with
  | nil =>
      rw [List.filterMap_nil, List.append_nil]
      exact ⟨jproc, Machine.Shows.nil _ _ jproc, h⟩
  | cons member members ih =>
      have hall := List.findSome?_eq_none_iff.1 hstop
      obtain ⟨hmember, hmembers⟩ := List.forall_mem_cons.1 hall
      obtain ⟨pair, jproc₁, hpair, hdecodes, h₁⟩ := member_decodes hcommand hmember h
      obtain ⟨jproc₂, hrest, h₂⟩ := ih (List.findSome?_eq_none_iff.2 hmembers) h₁
      rw [List.append_assoc, List.singleton_append, ← List.filterMap_cons_some hpair] at h₂
      exact ⟨jproc₂, hdecodes.append hrest, h₂⟩

/-- The first member that ends the run does. -/
theorem members_end {members : List Member} (hstop : members.findSome? Member.stop? = some stop)
    (h : Gathers unescape pairs jproc) :
    Ends unescape command (members.flatMap Member.events) jproc stop := by
  induction members generalizing pairs jproc with
  | nil => cases hstop
  | cons member members ih =>
      rw [List.findSome?_cons] at hstop
      cases hmember : member.stop? with
      | some first =>
          rw [hmember] at hstop
          cases hstop
          exact (member_ends hcommand hmember jproc).append _
      | none =>
          rw [hmember] at hstop
          obtain ⟨pair, jproc₁, -, hdecodes, h₁⟩ := member_decodes hcommand hmember h
          exact Ends.behind hdecodes (ih hstop h₁)

theorem flat_decodes {members : List Member} (hstop : members.findSome? Member.stop? = none)
    (h : Clean jproc) :
    ∃ jproc', Decodes unescape command (flatEvents members) jproc
      [.message (ofObject unescape (members.filterMap Member.pair?))] jproc' ∧ Clean jproc' := by
  obtain ⟨jproc₁, hbegin, h₁⟩ := @objectBegin_decodes unescape _ hcommand _ h
  obtain ⟨jproc₂, hmembers, h₂⟩ := members_decode hcommand hstop h₁
  obtain ⟨jproc₃, hend, h₃⟩ := objectEnd_decodes hcommand h₂
  exact ⟨jproc₃, (hbegin.append hmembers).append hend, h₃⟩

theorem flat_ends {members : List Member} (hstop : members.findSome? Member.stop? = some stop)
    (h : Clean jproc) : Ends unescape command (flatEvents members) jproc stop := by
  obtain ⟨jproc₁, hbegin, h₁⟩ := @objectBegin_decodes unescape _ hcommand _ h
  exact (Ends.behind hbegin (members_end hcommand hstop h₁)).append _

/-! ## Lists -/

theorem flats_decode {objects : List (List Member)}
    (hstop : objects.flatten.findSome? Member.stop? = none) (h : Clean jproc) :
    ∃ jproc', Decodes unescape command (objects.flatMap flatEvents) jproc
      (reportsOf unescape (pairsOf objects)) jproc' ∧ Clean jproc' := by
  induction objects generalizing jproc with
  | nil => exact ⟨jproc, Machine.Shows.nil _ _ jproc, h⟩
  | cons members objects ih =>
      rw [List.flatten_cons, List.findSome?_append, Option.or_eq_none_iff] at hstop
      obtain ⟨jproc₁, hfirst, h₁⟩ := flat_decodes hcommand hstop.1 h
      obtain ⟨jproc₂, hrest, h₂⟩ := ih hstop.2 h₁
      exact ⟨jproc₂, hfirst.append hrest, h₂⟩

theorem flats_end {objects : List (List Member)}
    (hstop : objects.flatten.findSome? Member.stop? = some stop) (h : Clean jproc) :
    Ends unescape command (objects.flatMap flatEvents) jproc stop := by
  induction objects generalizing jproc with
  | nil => cases hstop
  | cons members objects ih =>
      rw [List.flatten_cons, List.findSome?_append] at hstop
      cases hmembers : members.findSome? Member.stop? with
      | some first =>
          rw [hmembers] at hstop
          cases hstop
          exact (flat_ends hcommand hmembers h).append _
      | none =>
          rw [hmembers] at hstop
          obtain ⟨jproc₁, hdecodes, h₁⟩ := flat_decodes hcommand hmembers h
          exact Ends.behind hdecodes (ih hstop h₁)

/-- The events of some objects, in an array that has not ended or on their own. -/
def begunEvents (inArray : Bool) (objects : List (List Member)) : List JsonEvent :=
  (if inArray then [.arrayBegin] else []) ++ objects.flatMap flatEvents

theorem begun_decodes (inArray : Bool) {objects : List (List Member)}
    (hstop : objects.flatten.findSome? Member.stop? = none) :
    ∃ jproc, Decodes unescape command (begunEvents inArray objects)
      (burrowEasyJsonStCreate true) (reportsOf unescape (pairsOf objects)) jproc ∧
      Clean jproc := by
  obtain ⟨jproc, hobjects, hclean⟩ := @flats_decode unescape _ _ hcommand _ hstop create_clean
  cases inArray with
  | true => exact ⟨jproc, (arrayBegin_decodes hcommand _).append hobjects, hclean⟩
  | false => exact ⟨jproc, hobjects, hclean⟩

theorem begun_ends (inArray : Bool) {objects : List (List Member)}
    (hstop : objects.flatten.findSome? Member.stop? = some stop) :
    Ends unescape command (begunEvents inArray objects) (burrowEasyJsonStCreate true) stop := by
  have hends := @flats_end unescape _ _ _ hcommand _ hstop create_clean
  cases inArray with
  | true => exact Ends.behind (arrayBegin_decodes hcommand _) hends
  | false => exact hends

omit hcommand in
theorem flatListEvents_eq (inArray : Bool) (objects : List (List Member)) :
    flatListEvents inArray objects =
      begunEvents inArray objects ++ if inArray then [.arrayEnd] else [] := by
  cases inArray with
  | true => rfl
  | false => exact (List.append_nil _).symm

theorem flatList_decodes (inArray : Bool) {objects : List (List Member)}
    (hstop : objects.flatten.findSome? Member.stop? = none) :
    ∃ jproc, Decodes unescape command (flatListEvents inArray objects)
      (burrowEasyJsonStCreate true) (reportsOf unescape (pairsOf objects)) jproc := by
  obtain ⟨jproc, hbegun, -⟩ := @begun_decodes unescape _ hcommand inArray _ hstop
  refine ⟨jproc, ?_⟩
  rw [flatListEvents_eq, ← List.append_nil (reportsOf _ _)]
  cases inArray with
  | true => exact hbegun.append (arrayEnd_decodes hcommand jproc)
  | false => exact hbegun.append (Machine.Shows.nil _ _ jproc)

theorem flatList_ends (inArray : Bool) {objects : List (List Member)}
    (hstop : objects.flatten.findSome? Member.stop? = some stop) :
    Ends unescape command (flatListEvents inArray objects) (burrowEasyJsonStCreate true)
      stop := by
  rw [flatListEvents_eq]
  exact (begun_ends hcommand inArray hstop).append _

/-- **Lists of flat objects are decoded exactly.** The decoder takes the events just if every
value fits its key and none is a body, and it has then reported the messages that the objects
stand for. -/
theorem flatList_decodes_iff {inArray : Bool} {objects : List (List Member)}
    {reported : List Reported} :
    (∃ jproc, Decodes unescape command (flatListEvents inArray objects)
        (burrowEasyJsonStCreate true) reported jproc) ↔
      (∀ members ∈ objects, ∀ member ∈ members, member.Fits ∧ ¬ member.IsBody) ∧
        reported = reportsOf unescape (pairsOf objects) := by
  have hnone : objects.flatten.findSome? Member.stop? = none ↔
      ∀ members ∈ objects, ∀ member ∈ members, member.Fits ∧ ¬ member.IsBody := by
    simp only [List.findSome?_eq_none_iff, Member.stop?_eq_none_iff, List.mem_flatten]
    constructor
    · exact fun h members hmembers member hmember => h member ⟨members, hmembers, hmember⟩
    · rintro h member ⟨members, hmembers, hmember⟩
      exact h members hmembers member hmember
  rw [← hnone]
  constructor
  · rintro ⟨jproc, hdecodes⟩
    have hstop : objects.flatten.findSome? Member.stop? = none := by
      rw [← Option.not_isSome_iff_eq_none, Option.isSome_iff_exists]
      rintro ⟨stop, hsome⟩
      exact (flatList_ends hcommand inArray hsome).not_decodes _ _ hdecodes
    obtain ⟨jproc', hlist⟩ := @flatList_decodes unescape command hcommand inArray objects hstop
    exact ⟨hstop, hdecodes.trace.symm.trans hlist.trace⟩
  · rintro ⟨hstop, rfl⟩
    exact flatList_decodes hcommand inArray hstop

end Steps

/-! ## Objects with the four keys -/

/-- No string is delivered for the key `body`. -/
def Bodiless (pairs : List Pair) : Prop := ∀ pair ∈ pairs, pair.body? = none

instance : DecidablePred Bodiless := fun pairs =>
  inferInstanceAs (Decidable (∀ pair ∈ pairs, pair.body? = none))

/-- A value that fits in 32 bits is stored as it is. -/
theorem ofInt_toNat (value : UInt32) : UInt32.ofInt value.toNat = value := by
  have hlt : (value.toNat : Int) % 2 ^ 32 = value.toNat :=
    Int.emod_eq_of_lt (Int.natCast_nonneg _) (Int.ofNat_lt.2 value.toNat_lt)
  rw [UInt32.ofInt, hlt, Int.toNat_natCast]
  exact UInt32.ofNat_toNat

namespace Pair

def member : Pair → Member
  | .id value => { key := keyId, value := .string value, scalar := rfl }
  | .body value => { key := keyBody, value := .string value, scalar := rfl }
  | .ttl value => { key := keyTtl, value := .integer value.toNat, scalar := rfl }
  | .hide value => { key := keyHide, value := .integer value.toNat, scalar := rfl }

theorem events_member (pair : Pair) : pair.member.events = pair.events := by
  cases pair <;> rfl

theorem pair?_member (pair : Pair) : pair.member.pair? = some pair := by
  cases pair with
  | id value => rfl
  | body value => rfl
  | ttl value => exact congrArg (fun ttl => some (Pair.ttl ttl)) (ofInt_toNat value)
  | hide value => exact congrArg (fun hide => some (Pair.hide hide)) (ofInt_toNat value)

/-- Of the pairs only a body ends the run. -/
theorem stop?_member (pair : Pair) :
    pair.member.stop? = pair.body?.map fun _ => .fault .overrun := by
  cases pair with
  | id value => exact valueStop_id rfl value
  | body value => exact valueStop_body rfl value
  | ttl value => exact valueStop_integer (.inl rfl) _
  | hide value => exact valueStop_integer (.inr rfl) _

end Pair

section Pairs

variable {unescape : List UInt8 → List UInt8} {command : Option CommandName}

theorem flatMap_member (pairs : List Pair) :
    (pairs.map Pair.member).flatMap Member.events = pairs.flatMap Pair.events := by
  rw [List.flatMap_map]
  exact List.flatMap_congr fun pair _ => pair.events_member

theorem flatMap_members (objects : List (List Pair)) :
    (objects.map (List.map Pair.member)).flatMap flatEvents = objects.flatMap objectEvents := by
  rw [List.flatMap_map]
  refine List.flatMap_congr fun pairs _ => ?_
  rw [flatEvents, objectEvents, flatMap_member]

theorem flatListEvents_members (inArray : Bool) (objects : List (List Pair)) :
    flatListEvents inArray (objects.map (List.map Pair.member)) =
      messageEvents inArray objects := by
  rw [flatListEvents, messageEvents, flatMap_members]

theorem filterMap_member (pairs : List Pair) :
    (pairs.map Pair.member).filterMap Member.pair? = pairs := by
  rw [List.filterMap_map]
  exact (List.filterMap_congr fun pair _ => pair.pair?_member).trans List.filterMap_some

theorem pairsOf_members (objects : List (List Pair)) :
    pairsOf (objects.map (List.map Pair.member)) = objects := by
  rw [pairsOf, List.map_map]
  exact (List.map_congr_left fun pairs _ => filterMap_member pairs).trans (List.map_id _)

/-- Pairs end the run just if there is a body among them. -/
theorem findSome?_member (pairs : List Pair) :
    Bodiless pairs ∧ (pairs.map Pair.member).findSome? Member.stop? = none ∨
      ¬ Bodiless pairs ∧
        (pairs.map Pair.member).findSome? Member.stop? = some (.fault .overrun) := by
  induction pairs with
  | nil => exact .inl ⟨List.forall_mem_nil _, rfl⟩
  | cons pair pairs ih =>
      rw [List.map_cons, List.findSome?_cons, pair.stop?_member, Bodiless, List.forall_mem_cons]
      cases hbody : pair.body? with
      | some value => exact .inr ⟨fun h => absurd h.1 (by simp), rfl⟩
      | none =>
          rcases ih with ⟨h, hstop⟩ | ⟨h, hstop⟩
          · exact .inl ⟨⟨rfl, h⟩, hstop⟩
          · exact .inr ⟨fun hall => h hall.2, hstop⟩

theorem findSome?_members (objects : List (List Pair)) :
    (∀ pairs ∈ objects, Bodiless pairs) ∧
        (objects.map (List.map Pair.member)).flatten.findSome? Member.stop? = none ∨
      (¬ ∀ pairs ∈ objects, Bodiless pairs) ∧
        (objects.map (List.map Pair.member)).flatten.findSome? Member.stop? =
          some (.fault .overrun) := by
  rw [← List.map_flatten]
  have hiff : Bodiless objects.flatten ↔ ∀ pairs ∈ objects, Bodiless pairs := by
    constructor
    · intro h pairs hpairs pair hpair
      exact h pair (List.mem_flatten.2 ⟨pairs, hpairs, hpair⟩)
    · intro h pair hpair
      obtain ⟨pairs, hpairs, hmem⟩ := List.mem_flatten.1 hpair
      exact h pairs hpairs pair hmem
  rw [← hiff]
  exact findSome?_member objects.flatten

/-- The events up to a key, with some objects complete and one begun. -/
def openEvents (inArray : Bool) (objects : List (List Pair)) (pairs : List Pair)
    (key : List UInt8) : List JsonEvent :=
  (if inArray then [.arrayBegin] else []) ++ objects.flatMap objectEvents ++
    (([.objectBegin] ++ pairs.flatMap Pair.events) ++ [.key key])

theorem openEvents_eq (inArray : Bool) (objects : List (List Pair)) (pairs : List Pair)
    (key : List UInt8) :
    openEvents inArray objects pairs key =
      begunEvents inArray (objects.map (List.map Pair.member)) ++
        (([.objectBegin] ++ (pairs.map Pair.member).flatMap Member.events) ++ [.key key]) := by
  rw [openEvents, begunEvents, flatMap_members, flatMap_member]

variable (hcommand : command.any returnsMessages = true)
include hcommand

/-- Without a body the run comes to the key. -/
theorem open_decodes (inArray : Bool) {objects : List (List Pair)} {pairs : List Pair}
    (hobjects : ∀ pairs ∈ objects, Bodiless pairs) (hpairs : Bodiless pairs)
    (key : List UInt8) :
    ∃ jproc, Decodes unescape command (openEvents inArray objects pairs key)
      (burrowEasyJsonStCreate true) (reportsOf unescape objects) (withKey key jproc) := by
  have hstop := ((findSome?_members objects).resolve_right fun h => h.1 hobjects).2
  have hstop' := ((findSome?_member pairs).resolve_right fun h => h.1 hpairs).2
  obtain ⟨jproc, hbegun, hclean⟩ := @begun_decodes unescape _ hcommand inArray _ hstop
  obtain ⟨jproc₁, hbegin, h₁⟩ := @objectBegin_decodes unescape _ hcommand _ hclean
  obtain ⟨jproc₂, hmembers, -⟩ := members_decode hcommand hstop' h₁
  have hopen := hbegun.append ((hbegin.append hmembers).append (key_decodes hcommand key jproc₂))
  rw [pairsOf_members, List.append_nil, List.append_nil, List.append_nil] at hopen
  rw [openEvents_eq]
  exact ⟨jproc₂, hopen⟩

/-- With one the run ends there. -/
theorem open_ends (inArray : Bool) {objects : List (List Pair)} {pairs : List Pair}
    (hbody : ¬ ((∀ pairs ∈ objects, Bodiless pairs) ∧ Bodiless pairs)) (key : List UInt8) :
    Ends unescape command (openEvents inArray objects pairs key) (burrowEasyJsonStCreate true)
      (.fault .overrun) := by
  rw [openEvents_eq]
  rcases findSome?_members objects with ⟨hobjects, hstop⟩ | ⟨-, hstop⟩
  · have hpairs := fun h => hbody ⟨hobjects, h⟩
    have hstop' := ((findSome?_member pairs).resolve_left fun h => hpairs h.1).2
    obtain ⟨jproc, hbegun, hclean⟩ := @begun_decodes unescape _ hcommand inArray _ hstop
    obtain ⟨jproc₁, hbegin, h₁⟩ := @objectBegin_decodes unescape _ hcommand _ hclean
    exact Ends.behind hbegun ((Ends.behind hbegin (members_end hcommand hstop' h₁)).append _)
  · exact (begun_ends hcommand inArray hstop).append _

end Pairs

/-- **When message lists are decoded exactly.** Every event of some flat objects is accepted,
and each object reported as the message it stands for, in order, exactly if none of them has a
body; with one, the run ends in its copy. A value that does not fit its key, in an object behind
some others, is where the parser is stopped, with only the complete objects reported, exactly if
there is no body in front of it. -/
theorem decode_messages_iff (unescape : List UInt8 → List UInt8) (command : Option CommandName)
    (hcommand : command.any returnsMessages = true) (inArray : Bool)
    (objects : List (List Pair)) :
    ((∃ jproc, Decodes unescape command (messageEvents inArray objects)
        (burrowEasyJsonStCreate true) (reportsOf unescape objects) jproc) ↔
      ∀ pairs ∈ objects, Bodiless pairs) ∧
    ((¬ ∀ pairs ∈ objects, Bodiless pairs) →
      Ends unescape command (messageEvents inArray objects) (burrowEasyJsonStCreate true)
        (.fault .overrun)) ∧
    ∀ pairs key value rest, isScalar value = true → fits key value = false →
      (Stops unescape command (openEvents inArray objects pairs key ++ value :: rest)
          (burrowEasyJsonStCreate true) (reportsOf unescape objects) ↔
        (∀ pairs ∈ objects, Bodiless pairs) ∧ Bodiless pairs) := by
  have hends : (¬ ∀ pairs ∈ objects, Bodiless pairs) →
      Ends unescape command (messageEvents inArray objects) (burrowEasyJsonStCreate true)
        (.fault .overrun) := by
    intro hbody
    have hstop := ((findSome?_members objects).resolve_left fun h => hbody h.1).2
    rw [← flatListEvents_members]
    exact flatList_ends hcommand inArray hstop
  refine ⟨⟨?_, ?_⟩, hends, ?_⟩
  · rintro ⟨jproc, hdecodes⟩
    by_contra hbody
    exact (hends hbody).not_decodes _ _ hdecodes
  · intro hbodiless
    have hstop := ((findSome?_members objects).resolve_right fun h => h.1 hbodiless).2
    have hdecodes := @flatList_decodes unescape _ hcommand inArray _ hstop
    rwa [flatListEvents_members, pairsOf_members] at hdecodes
  · intro pairs key value rest hscalar hfits
    constructor
    · rintro ⟨hrun, -⟩
      by_contra hbody
      have hopen := @open_ends unescape command hcommand inArray _ _ hbody key
      have hoverrun := hopen.append (value :: rest)
      exact absurd (hrun.symm.trans hoverrun) (by simp)
    · rintro ⟨hobjects, hpairs⟩
      obtain ⟨jproc, hopen⟩ := open_decodes hcommand inArray hobjects hpairs key
      exact hopen.stop (value_ends hcommand hscalar (valueStop_of_misfit hfits)) rest

/-- Two objects with different keys, and a third whose id is a number. -/
theorem decode_messages_iff_ids :
    (∃ jproc, Decodes (fun value => value) (some .getMessages)
      [.arrayBegin,
        .objectBegin, .key keyTtl, .integer 5, .key keyId, .string [97], .key keyTtl, .integer 7,
        .objectEnd,
        .objectBegin, .key keyHide, .integer 2, .key keyId, .string [98, 0, 99], .objectEnd,
        .arrayEnd]
      (burrowEasyJsonStCreate true)
      [.message
          { messageId := some [97], body := none, bodySize := 0
            attributes := some { set := burrowAttributesTtl, ttl := 7, hide := 0 } },
        .message
          { messageId := some [98], body := none, bodySize := 0
            attributes := some { set := burrowAttributesHide, ttl := 0, hide := 2 } }] jproc) ∧
    Stops (fun value => value) (some .getMessages)
      [.objectBegin, .key keyId, .string [120], .objectEnd,
        .objectBegin, .key keyHide, .integer 1, .key keyId, .integer 1, .objectEnd]
      (burrowEasyJsonStCreate true)
      [.message
        { messageId := some [120], body := none, bodySize := 0
          attributes := some { set := 0, ttl := 0, hide := 0 } }] := by
  constructor
  · exact (decode_messages_iff (fun value => value) (some .getMessages) rfl true
      [[.ttl 5, .id [97], .ttl 7], [.hide 2, .id [98, 0, 99]]]).1.2 (by decide)
  · exact ((decode_messages_iff (fun value => value) (some .getMessages) rfl false
      [[.id [120]]]).2.2 [.hide 1] keyId (.integer 1) [.objectEnd] rfl rfl).2 (by decide)

/-- `[{"body":"hi"}]` is a flat object whose message is not reported: the copy of its body goes
behind the block that is made for it. -/
theorem body_overruns :
    messageEvents true [[.body [104, 105]]] =
        [.arrayBegin, .objectBegin, .key keyBody, .string [104, 105], .objectEnd, .arrayEnd] ∧
      Ends id (some .getMessages) (messageEvents true [[.body [104, 105]]])
        (burrowEasyJsonStCreate true) (.fault .overrun) ∧
      ¬ ∃ jproc, Decodes id (some .getMessages) (messageEvents true [[.body [104, 105]]])
        (burrowEasyJsonStCreate true) (reportsOf id [[.body [104, 105]]]) jproc := by
  have hends : Ends id (some .getMessages) (messageEvents true [[.body [104, 105]]])
      (burrowEasyJsonStCreate true) (.fault .overrun) := rfl
  refine ⟨rfl, hends, ?_⟩
  rintro ⟨jproc, hdecodes⟩
  exact hends.not_decodes _ _ hdecodes

end Burrow.Http
