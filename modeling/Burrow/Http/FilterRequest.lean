import Burrow.Http.AttributeString
import Burrow.Http.Target

/-!
# Filters on their way to the server

The URL of a command that is given filters is the URL of its target, and the filters
string is its query, with the attributes string behind it for an update. From the query
the filters string can be told (`queryOf_filters_injective`), so that two calls that ask
for different things send different requests. `burrow_backend_http_common_getlists`
makes room for the filters string but never puts it into the URL
(`filters_reach_server`).
-/

set_option autoImplicit false

namespace Burrow.Http

open QueryString (Field Plain)

/-! ## The query and its fields -/

/-- The parts of the filters string of an argument. -/
def argParts (escape : String → String) : Option (Object BurrowFilters) → List String
  | some (.live filters) => filtersParts escape filters
  | _ => []

/-- The parts of the attributes string of an update. -/
def updateParts (name : CommandName) (cmd : BackendCommand) : List String :=
  match updates (some name), cmd.attributes with
  | true, some (.live attributes) => attributesParts attributes
  | _, _ => []

/-- The fields of the filters string. -/
def argFields (escape : String → String) : Option (Object BurrowFilters) → List Field
  | some (.live filters) =>
      (setFields filters).map FilterField.printed ++
        if filters.marker.isSome then
          [("marker".toList, (escape (filters.marker.getD "")).toList)] else []
  | _ => []

def updateFields (name : CommandName) (cmd : BackendCommand) : List Field :=
  if updates (some name) then (argAttributes cmd.attributes).map AttributeField.printed else []

theorem filtersString_eq (escape : String → String) (arg : Option (Object BurrowFilters)) :
    filtersString escape arg = queryString (argParts escape arg) :=
  match arg with
  | some (.live _) | some .destroyed | none => rfl

theorem updateString_eq_parts (name : CommandName) (cmd : BackendCommand) :
    updateString name cmd = queryString (updateParts name cmd) := by
  rw [updateString, updateParts]
  cases updates (some name) with
  | false => rfl
  | true =>
      cases cmd.attributes with
      | none => rfl
      | some object => cases object <;> rfl

theorem argParts_eq (escape : String → String) (arg : Option (Object BurrowFilters)) :
    (argParts escape arg).map String.toList = (argFields escape arg).map QueryString.render := by
  match arg with
  | some .destroyed | none => rfl
  | some (.live filters) =>
      have hmarker : (markerPart escape filters).toList =
          QueryString.render ("marker".toList, (escape (filters.marker.getD "")).toList) := by
        rw [markerPart, String.toList_append, QueryString.render_eq]
        rfl
      rw [argParts, argFields, filtersParts_eq, List.map_append, List.map_append, fieldsParts_eq,
        map_optional, map_optional, hmarker]

theorem updateParts_eq (name : CommandName) (cmd : BackendCommand) :
    (updateParts name cmd).map String.toList =
      (updateFields name cmd).map QueryString.render := by
  rw [updateParts, updateFields]
  cases updates (some name) with
  | false => rfl
  | true =>
      match cmd.attributes with
      | some .destroyed | none => rfl
      | some (.live attributes) => exact attributesParts_eq attributes

theorem argFields_plain {escape : String → String} (hescape : Escapes escape)
    (arg : Option (Object BurrowFilters)) : ∀ field ∈ argFields escape arg, Plain field := by
  match arg with
  | some .destroyed | none => exact fun _ hfield => absurd hfield List.not_mem_nil
  | some (.live filters) =>
      rw [argFields, List.forall_mem_append]
      constructor
      · intro field hfield
        obtain ⟨printed, -, rfl⟩ := List.mem_map.1 hfield
        exact printed_plain printed
      · cases filters.marker with
        | none => exact fun _ hfield => absurd hfield List.not_mem_nil
        | some marker =>
            have hencoded := hescape.encoded marker
            have hkey : '&' ∉ "marker".toList ∧ '=' ∉ "marker".toList := by decide
            exact List.forall_mem_singleton.2 ⟨hkey.1, hkey.2, hencoded.not_mem (by decide),
              hencoded.not_mem (by decide)⟩

theorem updateFields_plain (name : CommandName) (cmd : BackendCommand) :
    ∀ field ∈ updateFields name cmd, Plain field := by
  rw [updateFields]
  split
  · intro field hfield
    obtain ⟨printed, -, rfl⟩ := List.mem_map.1 hfield
    exact printed.printed_plain
  · exact fun _ hfield => absurd hfield List.not_mem_nil

/-- The key of an attribute. -/
def isAttribute (field : Field) : Bool :=
  field.1 = "ttl".toList ∨ field.1 = "hide".toList

theorem not_isAttribute_of_mem {escape : String → String} {arg : Option (Object BurrowFilters)}
    {field : Field} (hfield : field ∈ argFields escape arg) : isAttribute field = false := by
  match arg with
  | some .destroyed | none => exact absurd hfield List.not_mem_nil
  | some (.live filters) =>
      rw [argFields, List.mem_append] at hfield
      rcases hfield with hfield | hfield
      · obtain ⟨printed, -, rfl⟩ := List.mem_map.1 hfield
        cases printed <;> rfl
      · cases hmarker : filters.marker with
        | none =>
            rw [hmarker] at hfield
            exact absurd hfield List.not_mem_nil
        | some marker =>
            rw [hmarker] at hfield
            rw [List.mem_singleton.1 hfield]
            rfl

theorem isAttribute_of_mem {name : CommandName} {cmd : BackendCommand} {field : Field}
    (hfield : field ∈ updateFields name cmd) : isAttribute field = true := by
  rw [updateFields] at hfield
  split at hfield
  · obtain ⟨printed, -, rfl⟩ := List.mem_map.1 hfield
    cases printed <;> rfl
  · exact absurd hfield List.not_mem_nil

/-- The fields of the filters are those that are not attributes. -/
theorem filter_fields (escape : String → String) (arg : Option (Object BurrowFilters))
    (name : CommandName) (cmd : BackendCommand) :
    (argFields escape arg ++ updateFields name cmd).filter (fun field => !isAttribute field) =
      argFields escape arg := by
  have hfilters : (argFields escape arg).filter (fun field => !isAttribute field) =
      argFields escape arg := by
    rw [List.filter_eq_self]
    intro field hfield
    rw [not_isAttribute_of_mem hfield]
    rfl
  have hattributes : (updateFields name cmd).filter (fun field => !isAttribute field) = [] := by
    rw [List.filter_eq_nil_iff]
    intro field hfield
    rw [isAttribute_of_mem hfield]
    decide
  rw [List.filter_append, hfilters, hattributes, List.append_nil]

/-- All parts of the query, with an `&` between them. -/
theorem queryOf_queryString (parts parts' : List String) :
    queryOf (queryString parts) (queryString parts') =
      if parts ++ parts' = [] then "" else "?" ++ queryText (parts ++ parts') := by
  by_cases h : parts = []
  · rw [h, List.nil_append, queryString, if_pos rfl, queryString]
    split
    · rfl
    · rfl
  · have hne : ¬ parts ++ parts' = [] := fun hnil => h (List.append_eq_nil_iff.1 hnil).1
    rw [if_neg hne, queryString, if_neg h, queryString]
    by_cases h' : parts' = []
    · rw [if_pos h', h', List.append_nil]
      rfl
    · rw [if_neg h', queryText_append h h', ← String.append_assoc, ← String.append_assoc]
      rfl

/-- The fields can be told from the query: each is plain, and the separators are not. -/
theorem fields_eq_of_queryOf {escape : String → String} (hescape : Escapes escape)
    {arg arg' : Option (Object BurrowFilters)} {name name' : CommandName}
    {cmd cmd' : BackendCommand}
    (h : queryOf (filtersString escape arg) (updateString name cmd) =
      queryOf (filtersString escape arg') (updateString name' cmd')) :
    argFields escape arg ++ updateFields name cmd =
      argFields escape arg' ++ updateFields name' cmd' := by
  have hplain : ∀ arg name cmd,
      ∀ field ∈ argFields escape arg ++ updateFields name cmd, Plain field := by
    intro arg name cmd
    rw [List.forall_mem_append]
    exact ⟨argFields_plain hescape arg, updateFields_plain name cmd⟩
  have hparts : ∀ arg name cmd,
      (argParts escape arg ++ updateParts name cmd).map String.toList =
        (argFields escape arg ++ updateFields name cmd).map QueryString.render := by
    intro arg name cmd
    rw [List.map_append, List.map_append, argParts_eq, updateParts_eq]
  have hnil : ∀ arg name cmd, argParts escape arg ++ updateParts name cmd = [] ↔
      argFields escape arg ++ updateFields name cmd = [] := by
    intro arg name cmd
    rw [← List.map_eq_nil_iff (f := String.toList), hparts, List.map_eq_nil_iff]
  rw [filtersString_eq, filtersString_eq, updateString_eq_parts, updateString_eq_parts,
    queryOf_queryString, queryOf_queryString] at h
  -- a query is empty, or starts with its question mark and is joined from the fields
  have hquestion : ∀ s : String, "?" ++ s ≠ "" :=
    fun s hempty => absurd (String.append_eq_empty_iff.1 hempty).1 (by decide)
  by_cases hempty : argParts escape arg ++ updateParts name cmd = []
  · by_cases hempty' : argParts escape arg' ++ updateParts name' cmd' = []
    · rw [(hnil arg name cmd).1 hempty, (hnil arg' name' cmd').1 hempty']
    · rw [if_pos hempty, if_neg hempty'] at h
      exact absurd h.symm (hquestion _)
  · by_cases hempty' : argParts escape arg' ++ updateParts name' cmd' = []
    · rw [if_neg hempty, if_pos hempty'] at h
      exact absurd h (hquestion _)
    · rw [if_neg hempty, if_neg hempty', String.append_right_inj] at h
      have hjoin := congrArg String.toList h
      rw [toList_queryText, toList_queryText, hparts, hparts] at hjoin
      exact QueryString.join_injective (mt (hnil arg name cmd).2 hempty)
        (mt (hnil arg' name' cmd').2 hempty') (hplain arg name cmd) (hplain arg' name' cmd') hjoin

/-- **The filters can be told from the query.** -/
theorem queryOf_filters_injective {escape : String → String} (hescape : Escapes escape)
    {arg arg' : Option (Object BurrowFilters)} {name name' : CommandName}
    {cmd cmd' : BackendCommand}
    (h : queryOf (filtersString escape arg) (updateString name cmd) =
      queryOf (filtersString escape arg') (updateString name' cmd')) :
    filtersString escape arg = filtersString escape arg' := by
  have hfields := fields_eq_of_queryOf hescape h
  -- the attributes of an update are other fields than those of the filters
  have hfilters := congrArg (List.filter fun field => !isAttribute field) hfields
  rw [filter_fields, filter_fields] at hfilters
  have hrender := congrArg (List.map QueryString.render) hfilters
  rw [← argParts_eq, ← argParts_eq] at hrender
  rw [filtersString_eq, filtersString_eq,
    List.map_injective_iff.2 (fun _ _ hlist => String.toList_injective hlist) hrender]

/-! ## The URL before the query -/

/-- The names that a command is about. -/
def targetNames : CommandName → BackendCommand → List String
  | .getAccounts, _ | .deleteAccounts, _ => []
  | .getQueues, cmd | .deleteQueues, cmd => [cmd.account]
  | .getMessages, cmd | .updateMessages, cmd | .deleteMessages, cmd => [cmd.account, cmd.queue]
  | .getMessage, cmd | .updateMessage, cmd | .deleteMessage, cmd | .createMessage, cmd =>
      [cmd.account, cmd.queue, cmd.messageId]

/-- The names, each behind a slash. -/
def pathOf (escape : String → String) (names : List String) : String :=
  names.foldr (fun name path => "/" ++ escape name ++ path) ""

/-- The pieces of the URL before the query, as they are formatted. -/
def requestPieces (escape : String → String) (baseurl version : String) (name : CommandName)
    (cmd : BackendCommand) : List String :=
  if onMessages name then urlPieces escape baseurl version name cmd
  else
    (baseurl ++ "/" ++ version) ::
      (targetNames name cmd).map fun account => "/" ++ escape account

theorem path_eq_pathOf (escape : String → String) {name : CommandName} (cmd : BackendCommand)
    (hmessages : onMessages name = true) :
    (targetOf name cmd).path escape = pathOf escape (targetNames name cmd) := by
  cases name with
  | getAccounts | deleteAccounts | getQueues | deleteQueues => cases hmessages
  | _ => simp [targetOf, Target.path, targetNames, pathOf, onOneMessage, String.append_assoc]

/-! ## What was sent was formatted -/

section Formatted

variable {escape : String → String} {backend : BurrowBackend} {baseurl : String}
  {cmd : BackendCommand} {name : CommandName} {request : Request}

theorem ok_of_bind {ε α β : Type} {x : Except ε α} {f : α → Except ε β} {b : β}
    (h : (x >>= f) = .ok b) : ∃ a, x = .ok a ∧ f a = .ok b := by
  cases x with
  | error e => cases h
  | ok a => exact ⟨a, rfl, h⟩

theorem le_intMax_of_startUrl (hbaseurl : backend.baseurl = some baseurl) {urllen : Nat}
    {rest : String} {state : List CBuffer.Cell × Nat}
    (h : startUrl backend urllen rest = .ok state) :
    (baseurl ++ "/" ++ backend.protoVersion ++ rest).length ≤ CBuffer.intMax := by
  rw [startUrl, hbaseurl] at h
  exact le_intMax_of_snprintf h

theorem le_intMax_of_appendIf {urllen : Nat} {output : String} {b : Bool}
    {state state' : List CBuffer.Cell × Nat}
    (h : appendIf b (appendText urllen output) state = .ok state') (hb : b = true) :
    output.length ≤ CBuffer.intMax := by
  rw [appendIf, if_pos hb, appendText] at h
  obtain ⟨result, hprint, -⟩ := ok_of_bind h
  exact le_intMax_of_snprintf hprint

theorem common_getting_formatted (hbaseurl : backend.baseurl = some baseurl)
    (hcreate : name ≠ .createMessage) (hcommand : cmd.command = some name)
    (hsends : burrowBackendHttpCommonGetting escape .all backend cmd = .ok (.sends request)) :
    ∀ piece ∈ urlPieces escape baseurl backend.protoVersion name cmd,
      piece.length ≤ CBuffer.intMax := by
  -- what was sent was printed, and `snprintf` prints no piece of a length beyond
  -- INT_MAX
  unfold burrowBackendHttpCommonGetting at hsends
  dsimp only at hsends
  obtain ⟨⟨filterStr, filterStrLen⟩, -, hsends⟩ := ok_of_bind hsends
  dsimp only at hsends
  split at hsends
  · cases hsends
  · obtain ⟨⟨attributeStr, attributeStrLen⟩, -, hsends⟩ := ok_of_bind hsends
    dsimp only at hsends
    split at hsends
    · cases hsends
    · obtain ⟨state₁, hstart, hsends⟩ := ok_of_bind hsends
      obtain ⟨state₂, hmessage, -⟩ := ok_of_bind hsends
      rw [hcommand] at hmessage
      rw [urlPieces_eq baseurl backend.protoVersion hcreate, List.forall_mem_append,
        List.forall_mem_singleton]
      refine ⟨le_intMax_of_startUrl hbaseurl hstart, ?_⟩
      cases hnames : namesMessage (some name) with
      | false => exact fun _ hpiece => absurd hpiece List.not_mem_nil
      | true =>
          rw [hnames] at hmessage
          exact List.forall_mem_singleton.2 (le_intMax_of_appendIf hmessage rfl)

/-- The two pieces of the URL of a command on accounts or queues. -/
theorem list_pieces (escape : String → String) (baseurl version : String) {which : CommandName}
    (hname : targetNames name cmd = if cmd.command = some which then [cmd.account] else [])
    (hlist : onMessages name = false) :
    requestPieces escape baseurl version name cmd =
        (baseurl ++ "/" ++ version) ::
          (if cmd.command = some which then ["/" ++ escape cmd.account] else []) ∧
      pathOf escape (targetNames name cmd) =
        if cmd.command = some which then "/" ++ escape cmd.account else "" := by
  rw [requestPieces, hlist, if_neg Bool.false_ne_true, hname]
  split
  · refine ⟨rfl, ?_⟩
    rw [pathOf, List.foldr_cons, List.foldr_nil, String.append_empty]
  · exact ⟨rfl, rfl⟩

/-- The start of both functions on lists. -/
theorem list_formatted (hbaseurl : backend.baseurl = some baseurl) {which : CommandName}
    (hname : targetNames name cmd = if cmd.command = some which then [cmd.account] else [])
    (hlist : onMessages name = false) {urllen : Nat} {state₁ state₂ : List CBuffer.Cell × Nat}
    (hstart : startUrl backend urllen "" = .ok state₁)
    (haccount : appendIf (cmd.command = some which) (appendText urllen
      ("/" ++ if cmd.command = some which then escape cmd.account else "")) state₁ = .ok state₂) :
    ∀ piece ∈ requestPieces escape baseurl backend.protoVersion name cmd,
      piece.length ≤ CBuffer.intMax := by
  rw [(list_pieces escape baseurl backend.protoVersion hname hlist).1, List.forall_mem_cons]
  constructor
  · have hlen := le_intMax_of_startUrl hbaseurl hstart
    rwa [String.append_empty] at hlen
  · by_cases hwhich : cmd.command = some which
    · have hlen := le_intMax_of_appendIf haccount (decide_eq_true hwhich)
      rw [if_pos hwhich] at hlen ⊢
      exact List.forall_mem_singleton.2 hlen
    · rw [if_neg hwhich]
      exact fun _ hpiece => absurd hpiece List.not_mem_nil

theorem list_started (hbaseurl : backend.baseurl = some baseurl) {which : CommandName}
    (hname : targetNames name cmd = if cmd.command = some which then [cmd.account] else [])
    (hlist : onMessages name = false) {urllen : Nat}
    (hint : ∀ piece ∈ requestPieces escape baseurl backend.protoVersion name cmd,
      piece.length ≤ CBuffer.intMax)
    (hroom : (baseurl ++ "/" ++ backend.protoVersion ++
      pathOf escape (targetNames name cmd)).length < urllen) :
    ∃ state₁ state₂, startUrl backend urllen "" = .ok state₁ ∧
      appendIf (cmd.command = some which) (appendText urllen
        ("/" ++ if cmd.command = some which then escape cmd.account else "")) state₁ =
          .ok state₂ ∧
      Filled urllen
        (baseurl ++ "/" ++ backend.protoVersion ++ pathOf escape (targetNames name cmd))
        state₂ := by
  obtain ⟨hpieces, hpath⟩ := list_pieces escape baseurl backend.protoVersion hname hlist
  rw [hpieces, List.forall_mem_cons] at hint
  obtain ⟨hstart, haccount⟩ := hint
  have hstart' := Nat.lt_of_le_of_lt (length_le_append _ _) hroom
  have hempty :
      baseurl ++ "/" ++ backend.protoVersion ++ "" = baseurl ++ "/" ++ backend.protoVersion :=
    String.append_empty
  rw [← hempty] at hstart hstart'
  obtain ⟨state₁, hok₁, h₁⟩ := startUrl_filled hbaseurl hstart' hstart
  rw [hempty] at h₁
  by_cases hwhich : cmd.command = some which
  · rw [if_pos hwhich] at hpath haccount
    rw [hpath] at hroom ⊢
    obtain ⟨state₂, hok₂, h₂⟩ := appendText_filled _ h₁ hroom
      (haccount _ (List.mem_singleton.2 rfl))
    refine ⟨state₁, state₂, hok₁, ?_, h₂⟩
    rw [if_pos hwhich, decide_eq_true hwhich]
    exact hok₂
  · rw [if_neg hwhich] at hpath
    rw [hpath, String.append_empty]
    refine ⟨state₁, state₁, hok₁, ?_, h₁⟩
    rw [decide_eq_false hwhich]
    rfl

/-- The block of a list has room for the URL of the target, and for what was counted. -/
theorem list_room (hbackend : backend.WellFormed) (hbaseurl : backend.baseurl = some baseurl)
    {which : CommandName}
    (hname : targetNames name cmd = if cmd.command = some which then [cmd.account] else [])
    (hlist : onMessages name = false) (n : Nat) :
    (baseurl ++ "/" ++ backend.protoVersion ++ pathOf escape (targetNames name cmd)).length +
        n + 100 < backend.baseurlLen + backend.protoVersionLen +
      (if cmd.command = some which then escape cmd.account else "").length + n + 128 := by
  have hbaseurlLen := hbackend.baseurlLen baseurl hbaseurl
  have hversionLen := protoVersionLen_eq hbackend
  have hslash : "/".length = 1 := rfl
  rw [(list_pieces escape baseurl backend.protoVersion hname hlist).2]
  split
  · simp only [String.length_append]
    omega
  · simp only [String.length_append]
    omega

theorem targetNames_delete (hname : name = .deleteAccounts ∨ name = .deleteQueues)
    (hcommand : cmd.command = some name) :
    targetNames name cmd = if cmd.command = some .deleteQueues then [cmd.account] else [] := by
  rcases hname with rfl | rfl
  · rw [hcommand]
    rfl
  · rw [hcommand]
    rfl

theorem targetNames_getlists (hname : name = .getAccounts ∨ name = .getQueues)
    (hcommand : cmd.command = some name) :
    targetNames name cmd = if cmd.command = some .getQueues then [cmd.account] else [] := by
  rcases hname with rfl | rfl
  · rw [hcommand]
    rfl
  · rw [hcommand]
    rfl

theorem common_delete_formatted (hbaseurl : backend.baseurl = some baseurl)
    (hname : name = .deleteAccounts ∨ name = .deleteQueues) (hcommand : cmd.command = some name)
    (hsends : burrowBackendHttpCommonDelete escape .all backend cmd = .ok (.sends request)) :
    ∀ piece ∈ requestPieces escape baseurl backend.protoVersion name cmd,
      piece.length ≤ CBuffer.intMax := by
  unfold burrowBackendHttpCommonDelete at hsends
  dsimp only at hsends
  obtain ⟨⟨filterStr, filterStrLen⟩, -, hsends⟩ := ok_of_bind hsends
  dsimp only at hsends
  split at hsends
  · cases hsends
  · obtain ⟨state₁, hstart, hsends⟩ := ok_of_bind hsends
    obtain ⟨state₂, haccount, -⟩ := ok_of_bind hsends
    exact list_formatted hbaseurl (targetNames_delete hname hcommand)
      (by rcases hname with rfl | rfl <;> rfl) hstart haccount

/-- **`burrow_backend_http_common_delete`.** The filters string is the query. -/
theorem common_delete_url (hbackend : backend.WellFormed)
    (hbaseurl : backend.baseurl = some baseurl)
    (hname : name = .deleteAccounts ∨ name = .deleteQueues) (hcmd : Suitable escape name cmd)
    (hint : ∀ piece ∈ requestPieces escape baseurl backend.protoVersion name cmd,
      piece.length ≤ CBuffer.intMax) :
    burrowBackendHttpCommonDelete escape .all backend cmd =
      .ok (.sends
        { url := baseurl ++ "/" ++ backend.protoVersion ++ pathOf escape (targetNames name cmd) ++
            queryOf (filtersString escape cmd.filters) none
          method := .delete
          payload := [] }) := by
  have hfilters : burrowBackendHttpFiltersToString escape cmd.filters
      Allocations.all.filterStr = _ := filtersToString_eq escape hcmd.live.1 hcmd.filters
  have hurl : ¬ Allocations.all.url = false := by decide
  have hsome := length_filtersString_ne_zero_iff escape cmd.filters
  have hlist : onMessages name = false := by rcases hname with rfl | rfl <;> rfl
  have htarget := targetNames_delete hname hcmd.command
  have hquery : queryOf (filtersString escape cmd.filters) none =
      if (filtersString escape cmd.filters).isSome then
        "?" ++ (filtersString escape cmd.filters).getD "" else "" := by
    cases filtersString escape cmd.filters <;> rfl
  have hshort := hcmd.filters
  have hlen := @list_room escape _ _ _ _ hbackend hbaseurl _ htarget hlist
    ((filtersString escape cmd.filters).getD "").length
  rw [hquery]
  unfold burrowBackendHttpCommonDelete
  dsimp only
  rw [ok_bind hfilters]
  dsimp only
  rw [if_neg (not_isNone_of_ne_zero hsome), if_neg hurl]
  rw [← Int.toNat_natCast ((filtersString escape cmd.filters).getD "").length] at hlen
  generalize hfilter : (filtersString escape cmd.filters).getD "" = filter at *
  generalize (filtersString escape cmd.filters).isSome = some? at *
  generalize backend.baseurlLen + backend.protoVersionLen + _ + (filter.length : Int).toNat + 128 =
    urllen at *
  have hroom : (baseurl ++ "/" ++ backend.protoVersion ++ pathOf escape (targetNames name cmd) ++
      if some? then "?" ++ filter else "").length < urllen := by
    have hoptional := length_optional_le some? ("?" ++ filter)
    have hquestion : ("?" ++ filter).length = filter.length + 1 := by
      rw [String.length_append, Nat.add_comm]
      rfl
    rw [String.length_append]
    omega
  obtain ⟨state₁, state₂, hok₁, hok₂, h₂⟩ := list_started hbaseurl htarget hlist hint
    (Nat.lt_of_le_of_lt (length_le_append _ _) hroom)
  obtain ⟨state₃, hok₃, h₃⟩ := appendIf_filled some? ("?" ++ filter) h₂ hroom
    (fun _ => length_short hshort rfl)
  rw [ok_bind hok₁, ok_bind hok₂, ok_bind hok₃, h₃.holds.readString_eq]
  rfl

/-- The URL of a list is the URL of its target, and nothing behind it. -/
theorem common_getlists_sent (hbaseurl : backend.baseurl = some baseurl)
    (hname : name = .getAccounts ∨ name = .getQueues) (hcommand : cmd.command = some name)
    (hsends : burrowBackendHttpCommonGetlists escape .all backend cmd = .ok (.sends request)) :
    (∀ piece ∈ requestPieces escape baseurl backend.protoVersion name cmd,
        piece.length ≤ CBuffer.intMax) ∧
      (backend.WellFormed → request.url =
        baseurl ++ "/" ++ backend.protoVersion ++ pathOf escape (targetNames name cmd)) := by
  have hlist : onMessages name = false := by rcases hname with rfl | rfl <;> rfl
  have htarget := targetNames_getlists hname hcommand
  unfold burrowBackendHttpCommonGetlists at hsends
  dsimp only at hsends
  obtain ⟨⟨filterStr, filterStrLen⟩, -, hsends⟩ := ok_of_bind hsends
  dsimp only at hsends
  split at hsends
  · cases hsends
  · obtain ⟨state₁, hstart, hsends⟩ := ok_of_bind hsends
    obtain ⟨state₂, haccount, hsends⟩ := ok_of_bind hsends
    have hint := list_formatted hbaseurl htarget hlist hstart haccount
    refine ⟨hint, fun hbackend => ?_⟩
    -- the block has room for a filter string that is never appended
    have hlen := @list_room escape _ _ _ _ hbackend hbaseurl _ htarget hlist
      filterStrLen.toNat
    obtain ⟨started₁, started₂, hok₁, hok₂, h₂⟩ := list_started hbaseurl htarget hlist hint
      (Nat.lt_of_le_of_lt (by omega) hlen)
    rw [hok₁] at hstart
    cases hstart
    rw [hok₂] at haccount
    cases haccount
    cases hsends
    exact h₂.holds.readString_eq

end Formatted

/-! ## Filters reach the server -/

/-- A command that takes filters is issued to a backend with this base URL, and this is
its filters string. -/
structure Asked (escape : String → String) (baseurl : String) (backend : BurrowBackend)
    (name : CommandName) (cmd : BackendCommand) (filter : Option String) : Prop where
  reachable : Reachable backend
  baseurl : backend.baseurl = some baseurl
  takesFilters : name ≠ .createMessage
  command : cmd.command = some name
  live : cmd.IsLive
  filters : ∃ size,
    burrowBackendHttpFiltersToString escape cmd.filters true = .ok (filter, size)

/-- The URL of the target, and the filters string for a query, with the attributes string
behind it for an update. -/
def requestUrl (escape : String → String) (baseurl : String) (backend : BurrowBackend)
    (name : CommandName) (cmd : BackendCommand) (filter : Option String) : String :=
  baseurl ++ "/" ++ backend.protoVersion ++ pathOf escape (targetNames name cmd) ++
    queryOf filter (updateString name cmd)

/-- `snprintf` can format every piece of the URL. -/
def RequestFormattable (escape : String → String) (baseurl : String) (backend : BurrowBackend)
    (name : CommandName) (cmd : BackendCommand) : Prop :=
  ∀ piece ∈ requestPieces escape baseurl backend.protoVersion name cmd,
    piece.length ≤ CBuffer.intMax

section Requests

variable {escape : String → String} {baseurl : String} {backend : BurrowBackend}
  {name : CommandName} {cmd : BackendCommand} {filter : Option String}

theorem Asked.suitable (h : Asked escape baseurl backend name cmd filter) :
    Suitable escape name cmd := by
  refine ⟨h.command, h.live, ?_, ?_, fun hcreate => absurd hcreate h.takesFilters⟩
  · cases harg : cmd.filters with
    | none => exact (by decide : 0 < sizeofBuf)
    | some argument =>
        cases argument with
        | destroyed => exact (by decide : 0 < sizeofBuf)
        | live filters =>
            rw [filtersString, getD_queryString, ← markerFits_iff]
            by_contra hlong
            obtain ⟨misuse, herror, -⟩ := filters_overrun escape hlong
            obtain ⟨size, hok⟩ := h.filters
            rw [harg, herror] at hok
            cases hok
  · cases cmd.attributes with
    | none => exact (by decide : 0 < sizeofBuf)
    | some argument =>
        cases argument with
        | destroyed => exact (by decide : 0 < sizeofBuf)
        | live attributes =>
            rw [attributesString, getD_queryString]
            exact Nat.lt_of_le_of_lt (length_attributesParts attributes) (by decide)

theorem Asked.filter_eq (h : Asked escape baseurl backend name cmd filter) :
    filter = filtersString escape cmd.filters := by
  obtain ⟨size, hok⟩ := h.filters
  rw [filtersToString_eq escape h.live.1 h.suitable.filters] at hok
  cases hok
  rfl

/-- What is sent was formatted. -/
theorem Asked.formattable (h : Asked escape baseurl backend name cmd filter) {uninit : Int}
    {request : Request}
    (hsends : burrowBackendHttpCommand escape .all uninit backend cmd name =
      .ok (.sends request)) : RequestFormattable escape baseurl backend name cmd := by
  cases name with
  | createMessage => exact absurd rfl h.takesFilters
  | deleteAccounts => exact common_delete_formatted h.baseurl (Or.inl rfl) h.command hsends
  | deleteQueues => exact common_delete_formatted h.baseurl (Or.inr rfl) h.command hsends
  | getAccounts => exact (common_getlists_sent h.baseurl (Or.inl rfl) h.command hsends).1
  | getQueues => exact (common_getlists_sent h.baseurl (Or.inr rfl) h.command hsends).1
  | _ => exact common_getting_formatted h.baseurl h.takesFilters h.command hsends

/-- A command other than `get_accounts` and `get_queues` puts the filters into the URL. -/
theorem Asked.sends (h : Asked escape baseurl backend name cmd filter)
    (haccounts : name ≠ .getAccounts) (hqueues : name ≠ .getQueues)
    (hint : RequestFormattable escape baseurl backend name cmd) (uninit : Int) :
    ∃ request, burrowBackendHttpCommand escape .all uninit backend cmd name =
        .ok (.sends request) ∧
      request.url = requestUrl escape baseurl backend name cmd filter := by
  have hbackend := reachable_wellFormed h.reachable
  by_cases hmessages : onMessages name = true
  · have hint' : Formattable escape baseurl backend name cmd := by
      rw [RequestFormattable, requestPieces, if_pos hmessages] at hint
      exact hint
    obtain ⟨request, hsends, hurl⟩ :=
      command_url ⟨h.reachable, h.baseurl, hmessages, h.suitable⟩ hint' uninit
    refine ⟨request, hsends, hurl.trans ?_⟩
    rw [urlFor, path_eq_pathOf escape cmd hmessages, queryFor_eq h.takesFilters, requestUrl,
      h.filter_eq]
  · have hname : name = .deleteAccounts ∨ name = .deleteQueues := by
      cases name <;> simp_all [onMessages]
    have hsends := common_delete_url hbackend h.baseurl hname h.suitable hint
    have hupdate : updateString name cmd = none := by
      rcases hname with rfl | rfl <;> rfl
    rw [requestUrl, hupdate, h.filter_eq]
    rcases hname with rfl | rfl
    · exact ⟨_, hsends, rfl⟩
    · exact ⟨_, hsends, rfl⟩

end Requests

/-- The filters string is the query of the URL that is handed to libcurl, and any other
filters string on the same target makes another URL. -/
structure FiltersReach (escape : String → String) (baseurl : String) (backend : BurrowBackend)
    (name : CommandName) (cmd : BackendCommand) (filter : String) (uninit : Int) : Prop where
  sent : ∃ request, burrowBackendHttpCommand escape .all uninit backend cmd name =
      .ok (.sends request) ∧
    request.url = requestUrl escape baseurl backend name cmd (some filter)
  told_apart : ∀ backend' cmd' filter' uninit' request request',
    Asked escape baseurl backend' name cmd' filter' →
    targetNames name cmd' = targetNames name cmd → filter' ≠ some filter →
    burrowBackendHttpCommand escape .all uninit backend cmd name = .ok (.sends request) →
    burrowBackendHttpCommand escape .all uninit' backend' cmd' name = .ok (.sends request') →
    request.url ≠ request'.url

/-- **Filters reach the server** exactly with the commands other than `get_accounts` and
`get_queues`. -/
theorem filters_reach_server {escape : String → String} (hescape : Escapes escape)
    {baseurl : String} {backend : BurrowBackend} {name : CommandName} {cmd : BackendCommand}
    {filter : String} (h : Asked escape baseurl backend name cmd (some filter)) (uninit : Int) :
    FiltersReach escape baseurl backend name cmd filter uninit ↔
      (name ≠ .getAccounts ∧ name ≠ .getQueues) ∧
        RequestFormattable escape baseurl backend name cmd := by
  constructor
  · rintro ⟨⟨request, hsends, hurl⟩, -⟩
    have hlists : ∀ {s : String}, request.url = s → ∀ query, request.url ≠ s ++ "?" ++ query := by
      intro s hs query heq
      have hlen := congrArg String.length (hs.symm.trans heq)
      have hquestion : "?".length = 1 := rfl
      rw [String.length_append, String.length_append] at hlen
      omega
    refine ⟨⟨?_, ?_⟩, h.formattable hsends⟩
    · rintro rfl
      have hsent := (common_getlists_sent h.baseurl (Or.inl rfl) h.command hsends).2
        (reachable_wellFormed h.reachable)
      exact hlists hsent filter (hurl.trans (String.append_assoc ..).symm)
    · rintro rfl
      have hsent := (common_getlists_sent h.baseurl (Or.inr rfl) h.command hsends).2
        (reachable_wellFormed h.reachable)
      exact hlists hsent filter (hurl.trans (String.append_assoc ..).symm)
  · rintro ⟨⟨haccounts, hqueues⟩, hint⟩
    refine ⟨h.sends haccounts hqueues hint uninit, ?_⟩
    intro backend' cmd' filter' uninit' request request' h' hnames hne hsends hsends' hsame
    obtain ⟨sent, hsent, hurl⟩ := h.sends haccounts hqueues hint uninit
    obtain ⟨sent', hsent', hurl'⟩ := h'.sends haccounts hqueues (h'.formattable hsends') uninit'
    rw [hsends, Except.ok.injEq, Prepared.sends.injEq] at hsent
    rw [hsends', Except.ok.injEq, Prepared.sends.injEq] at hsent'
    subst hsent hsent'
    have hversion : backend.protoVersion = backend'.protoVersion :=
      (reachable_wellFormed h.reachable).protoVersion.trans
        (reachable_wellFormed h'.reachable).protoVersion.symm
    rw [hurl, hurl', requestUrl, requestUrl, hversion, hnames, String.append_right_inj,
      h.filter_eq, h'.filter_eq] at hsame
    exact hne (h'.filter_eq.trans
      ((queryOf_filters_injective hescape hsame).symm.trans h.filter_eq.symm))

/-- A backend that has been told its server and its port. -/
def configured : BurrowBackend :=
  { burrowBackendHttpCreate with
    server := some "s", serverLen := 1, port := "80", portLen := 2
    baseurl := some "http://s:80", baseurlLen := 11 }

/-- A command with a limit. -/
def limited (name : CommandName) (limit : UInt32) : BackendCommand :=
  { (default : BackendCommand) with
    command := some name, account := "a", queue := "q"
    filters := some (.live { (default : BurrowFilters) with
      set := burrowFiltersLimit, limit := limit }) }

theorem configured_reachable : Reachable configured :=
  ⟨[.setOption true true "server" "s", .setOption true true "port" "80"], rfl⟩

theorem limited_live (name : CommandName) (limit : UInt32) : (limited name limit).IsLive :=
  ⟨(argLive_some _).2 trivial, argLive_none⟩

/-- The queues of an account are deleted, five of them. -/
theorem filters_reach_server_deleteQueues :
    FiltersReach PercentEncoding.encode "http://s:80" configured .deleteQueues
      (limited .deleteQueues 5) "limit=5" 0 := by
  have hasked : Asked PercentEncoding.encode "http://s:80" configured .deleteQueues
      (limited .deleteQueues 5) (some "limit=5") :=
    ⟨configured_reachable, rfl, by decide, rfl, limited_live _ _, 7, by decide +kernel⟩
  exact (filters_reach_server encode_escapes hasked 0).2
    ⟨⟨by decide, by decide⟩, by unfold RequestFormattable; decide⟩

/-- With a limit of one and with a limit of two the same accounts are asked for. -/
theorem getAccounts_forgets_filters :
    burrowBackendHttpFiltersToString PercentEncoding.encode (limited .getAccounts 1).filters true =
        .ok (some "limit=1", 7) ∧
      (∀ limit ∈ [1, 2], burrowBackendHttpCommand PercentEncoding.encode .all 0 configured
        (limited .getAccounts limit) .getAccounts =
          .ok (.sends { url := "http://s:80/v1.0", method := .get, payload := [] })) ∧
      ¬ FiltersReach PercentEncoding.encode "http://s:80" configured .getAccounts
        (limited .getAccounts 1) "limit=1" 0 := by
  have hsends : burrowBackendHttpCommand PercentEncoding.encode .all 0 configured
      (limited .getAccounts 1) .getAccounts =
        .ok (.sends { url := "http://s:80/v1.0", method := .get, payload := [] }) := by
    decide +kernel
  have hsends' : burrowBackendHttpCommand PercentEncoding.encode .all 0 configured
      (limited .getAccounts 2) .getAccounts =
        .ok (.sends { url := "http://s:80/v1.0", method := .get, payload := [] }) := by
    decide +kernel
  refine ⟨by decide +kernel,
    List.forall_mem_cons.2 ⟨hsends, List.forall_mem_singleton.2 hsends'⟩, ?_⟩
  rintro ⟨⟨request, hsent, hurl⟩, -⟩
  rw [hsends] at hsent
  cases hsent
  exact absurd hurl (by decide)

end Burrow.Http
