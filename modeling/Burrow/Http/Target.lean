import Burrow.Http.Request
import Burrow.Lib.PercentEncoding

/-!
# A URL identifies its target

The URL of a command on messages is the base URL, the version and the escaped names of
its target, and then what is asked for (`create_message_url`, `common_getting_url`):
the block that is allocated for it always has room. The names can be read off it again
(`url_injective`). One thing `snprintf` cannot do is format a piece that is longer than
an `int` can count; the results hold where no piece is.
-/

set_option autoImplicit false

namespace Burrow.Http

open PercentEncoding (Encoded)

/-! ## Targets -/

/-- What is relied on of `curl_easy_escape`. -/
structure Escapes (escape : String → String) : Prop where
  injective : ∀ s t, escape s = escape t → s = t
  encoded : ∀ s, Encoded (escape s).toList

/-- What a command on messages is about. -/
structure Target where
  account : String
  queue : String
  messageId : Option String
deriving DecidableEq, Repr

/-- The commands on messages. -/
def onMessages : CommandName → Bool
  | .getMessages | .updateMessages | .deleteMessages | .getMessage | .updateMessage
  | .deleteMessage | .createMessage => true
  | .getAccounts | .deleteAccounts | .getQueues | .deleteQueues => false

/-- The commands on one message. -/
def onOneMessage : CommandName → Bool
  | .getMessage | .updateMessage | .deleteMessage | .createMessage => true
  | _ => false

def targetOf (name : CommandName) (cmd : BackendCommand) : Target :=
  { account := cmd.account
    queue := cmd.queue
    messageId := if onOneMessage name then some cmd.messageId else none }

def Target.path (escape : String → String) (target : Target) : String :=
  "/" ++ escape target.account ++ "/" ++ escape target.queue ++
    match target.messageId with
    | some messageId => "/" ++ escape messageId
    | none => ""

/-- The filters and the attributes, introduced by one `?` and joined by one `&`. -/
def queryOf : Option String → Option String → String
  | none, none => ""
  | some filters, none => "?" ++ filters
  | none, some attributes => "?" ++ attributes
  | some filters, some attributes => "?" ++ filters ++ "&" ++ attributes

/-- What a command on messages asks for: the command that creates a message has no
filters, and only this one and the updates have attributes. -/
def queryFor (escape : String → String) (name : CommandName) (cmd : BackendCommand) : String :=
  queryOf (if name = .createMessage then none else filtersString escape cmd.filters)
    (if name = .createMessage ∨ updates (some name) = true then attributesString cmd.attributes
      else none)

/-- The URL of a command on messages. -/
def urlFor (escape : String → String) (baseurl version : String) (name : CommandName)
    (cmd : BackendCommand) : String :=
  baseurl ++ "/" ++ version ++ (targetOf name cmd).path escape ++ queryFor escape name cmd

/-- The pieces of the URL before the `?`, as they are formatted. -/
def urlPieces (escape : String → String) (baseurl version : String) (name : CommandName)
    (cmd : BackendCommand) : List String :=
  match name with
  | .createMessage => [baseurl ++ "/" ++ version ++ (targetOf name cmd).path escape]
  | _ =>
      [baseurl ++ "/" ++ version ++ ("/" ++ escape cmd.account ++ "/" ++ escape cmd.queue)] ++
        (targetOf name cmd).messageId.toList.map fun messageId => "/" ++ escape messageId

/-- A command as the front end issues it: its arguments can be read, and the strings
they come to fit in the buffers; a message is created without attributes, or with some
that are set. -/
structure Suitable (escape : String → String) (name : CommandName) (cmd : BackendCommand) :
    Prop where
  command : cmd.command = some name
  live : cmd.IsLive
  filters : ((filtersString escape cmd.filters).getD "").length < sizeofBuf
  attributes : ((attributesString cmd.attributes).getD "").length < sizeofBuf
  attributesSet : name = .createMessage → SetsAttribute cmd.attributes

/-! ## The URLs -/

section Urls

variable {escape : String → String} {backend : BurrowBackend} {baseurl : String}
  {cmd : BackendCommand} {name : CommandName}

theorem startUrl_filled (hbaseurl : backend.baseurl = some baseurl) {urllen : Nat} {rest : String}
    (hroom : (baseurl ++ "/" ++ backend.protoVersion ++ rest).length < urllen)
    (hint : (baseurl ++ "/" ++ backend.protoVersion ++ rest).length ≤ CBuffer.intMax) :
    ∃ state, startUrl backend urllen rest = .ok state ∧
      Filled urllen (baseurl ++ "/" ++ backend.protoVersion ++ rest) state := by
  obtain ⟨cells, hok, hholds⟩ := snprintf_zeros hroom hint
  refine ⟨(cells, _), ?_, hholds, rfl⟩
  rw [startUrl, hbaseurl]
  exact hok

/-- A string that has a length has not been left out. -/
theorem not_isNone_of_ne_zero {string : Option String} {n : Int}
    (h : n ≠ 0 ↔ string.isSome = true) :
    ¬ (string.isNone = true ∧ n ≠ 0) := by
  rintro ⟨hnone, hn⟩
  rw [Option.isNone_iff_eq_none.1 hnone] at h
  exact absurd (h.1 hn) (by simp)

theorem length_optional_le (b : Bool) (s : String) : (if b then s else "").length ≤ s.length := by
  cases b with
  | true => exact Nat.le_refl _
  | false => exact Nat.zero_le _

theorem length_le_append (s t : String) : s.length ≤ (s ++ t).length := by
  rw [String.length_append]
  exact Nat.le_add_right _ _

theorem protoVersionLen_eq (hbackend : backend.WellFormed) :
    backend.protoVersionLen = backend.protoVersion.length := by
  rw [hbackend.protoVersion, hbackend.protoVersionLen]
  rfl

/-- A string from one of the buffers is formatted with one character before it. -/
theorem length_short {s : String} (h : s.length < sizeofBuf) {c : String} (hc : c.length = 1) :
    (c ++ s).length ≤ CBuffer.intMax := by
  have hsizeof : sizeofBuf ≤ CBuffer.intMax := by decide
  rw [String.length_append]
  omega

/-- **`burrow_backend_http_create_message`.** The block has room for the URL. -/
theorem create_message_url (hbackend : backend.WellFormed)
    (hbaseurl : backend.baseurl = some baseurl) (hcmd : Suitable escape .createMessage cmd)
    (hint : ∀ piece ∈ urlPieces escape baseurl backend.protoVersion .createMessage cmd,
      piece.length ≤ CBuffer.intMax) (uninit : Int) :
    burrowBackendHttpCreateMessage escape .all uninit backend cmd =
      .ok (.sends
        { url := urlFor escape baseurl backend.protoVersion .createMessage cmd
          method := .put
          payload := cmd.body.take cmd.bodySize }) := by
  have hattributes : burrowBackendHttpAttributesToString cmd.attributes
      Allocations.all.attributeStr uninit = _ :=
    attributesToString_eq hcmd.live.2 hcmd.attributes (Or.inr (hcmd.attributesSet rfl))
  have hurl : ¬ Allocations.all.url = false := by decide
  have hsome := length_attributesString_ne_zero_iff cmd.attributes
  have hquery : queryFor escape .createMessage cmd =
      if (attributesString cmd.attributes).isSome then
        "?" ++ (attributesString cmd.attributes).getD "" else "" := by
    rw [queryFor, if_pos rfl, if_pos (Or.inl rfl)]
    cases attributesString cmd.attributes <;> rfl
  have hpath : (targetOf .createMessage cmd).path escape =
      "/" ++ escape cmd.account ++ "/" ++ escape cmd.queue ++ "/" ++ escape cmd.messageId :=
    (String.append_assoc ..).symm
  have hshort := hcmd.attributes
  replace hint := hint _ List.mem_cons_self
  rw [hpath] at hint
  rw [urlFor, hquery, hpath]
  unfold burrowBackendHttpCreateMessage
  dsimp only
  rw [ok_bind hattributes]
  dsimp only
  rw [if_neg (not_isNone_of_ne_zero hsome), if_neg hurl]
  generalize (attributesString cmd.attributes).getD "" = attributes at *
  generalize (attributesString cmd.attributes).isSome = some? at *
  generalize hlen : backend.baseurlLen + backend.protoVersionLen + (escape cmd.account).length +
    (escape cmd.queue).length + (escape cmd.messageId).length +
    (attributes.length : Int).toNat + 20 = urllen
  -- `urllen` leaves room for the terminator after every optional piece
  have hroom : (baseurl ++ "/" ++ backend.protoVersion ++
      ("/" ++ escape cmd.account ++ "/" ++ escape cmd.queue ++ "/" ++ escape cmd.messageId) ++
      if some? then "?" ++ attributes else "").length < urllen := by
    have hoptional := length_optional_le some? ("?" ++ attributes)
    have hbaseurlLen := hbackend.baseurlLen baseurl hbaseurl
    have hversionLen := protoVersionLen_eq hbackend
    have hslash : "/".length = 1 := rfl
    have hquestion : "?".length = 1 := rfl
    generalize (if some? then "?" ++ attributes else "") = optional at *
    simp only [String.length_append] at hoptional ⊢
    omega
  obtain ⟨state₁, hok₁, h₁⟩ := startUrl_filled hbaseurl
    (Nat.lt_of_le_of_lt (length_le_append _ _) hroom) hint
  obtain ⟨state₂, hok₂, h₂⟩ := appendIf_filled some? ("?" ++ attributes) h₁ hroom
    (fun _ => length_short hshort rfl)
  rw [ok_bind hok₁, ok_bind hok₂, h₂.holds.readString_eq]
  rfl

/-- The attributes that a command hands to `burrow_backend_http_common_getting`. -/
def updateString (name : CommandName) (cmd : BackendCommand) : Option String :=
  if updates (some name) then attributesString cmd.attributes else none

theorem updateString_eq (hcmd : Suitable escape name cmd) :
    (if updates cmd.command then
        burrowBackendHttpAttributesToString cmd.attributes Allocations.all.attributeStr 0
      else .ok (none, 0)) =
      .ok (updateString name cmd, ((updateString name cmd).getD "").length) := by
  rw [hcmd.command, updateString]
  cases updates (some name) with
  | true => exact attributesToString_eq hcmd.live.2 hcmd.attributes (Or.inl rfl)
  | false => rfl

theorem length_updateString_ne_zero_iff (name : CommandName) (cmd : BackendCommand) :
    (((updateString name cmd).getD "").length : Int) ≠ 0 ↔
      (updateString name cmd).isSome = true := by
  rw [updateString]
  cases updates (some name) with
  | true => exact length_attributesString_ne_zero_iff cmd.attributes
  | false => exact iff_of_false (fun h => h rfl) Bool.false_ne_true

theorem length_updateString_lt (hcmd : Suitable escape name cmd) :
    ((updateString name cmd).getD "").length < sizeofBuf := by
  rw [updateString]
  cases updates (some name) with
  | true => exact hcmd.attributes
  | false => exact (by decide : 0 < sizeofBuf)

/-- The two pieces of a query, as they are formatted. -/
theorem queryOf_eq (filters attributes : Option String) :
    queryOf filters attributes =
      (if filters.isSome then "?" ++ filters.getD "" else "") ++
        (if attributes.isSome then
          (if filters.isSome then "&" else "?") ++ attributes.getD "" else "") := by
  cases filters with
  | none =>
      cases attributes with
      | none => rfl
      | some attributes => exact String.empty_append.symm
  | some filters =>
      cases attributes with
      | none => exact String.append_empty.symm
      | some attributes => exact String.append_assoc ..

theorem queryFor_eq (hcreate : name ≠ .createMessage) :
    queryFor escape name cmd =
      queryOf (filtersString escape cmd.filters) (updateString name cmd) := by
  rw [queryFor, if_neg hcreate, updateString]
  by_cases hupdates : updates (some name) = true
  · rw [if_pos (Or.inr hupdates), if_pos hupdates]
  · rw [if_neg (not_or.2 ⟨hcreate, hupdates⟩), if_neg hupdates]

/-- Two functions of the source agree on which commands are on one message. -/
theorem namesMessage_eq (hcreate : name ≠ .createMessage) :
    namesMessage (some name) = onOneMessage name := by
  cases name with
  | createMessage => exact absurd rfl hcreate
  | _ => rfl

theorem path_eq (hcreate : name ≠ .createMessage) :
    (targetOf name cmd).path escape = "/" ++ escape cmd.account ++ "/" ++ escape cmd.queue ++
      if namesMessage (some name) then "/" ++ escape cmd.messageId else "" := by
  rw [namesMessage_eq hcreate, Target.path, targetOf]
  cases onOneMessage name <;> rfl

theorem urlPieces_eq (baseurl version : String) (hcreate : name ≠ .createMessage) :
    urlPieces escape baseurl version name cmd =
      [baseurl ++ "/" ++ version ++ ("/" ++ escape cmd.account ++ "/" ++ escape cmd.queue)] ++
        if namesMessage (some name) then ["/" ++ escape cmd.messageId] else [] := by
  cases name with
  | createMessage => exact absurd rfl hcreate
  | _ => rfl

/-- The block for a URL is longer than its pieces. -/
theorem length_pieces_lt (hbackend : backend.WellFormed) (hbaseurl : backend.baseurl = some baseurl)
    (account queue messageId filters attributes : String) (named hasFilters hasAttributes : Bool)
    {join : String} (hjoin : join.length = 1) :
    (baseurl ++ "/" ++ backend.protoVersion ++ ("/" ++ account ++ "/" ++ queue) ++
      (if named then "/" ++ messageId else "") ++
      (if hasFilters then "?" ++ filters else "") ++
      if hasAttributes then join ++ attributes else "").length <
    backend.baseurlLen + backend.protoVersionLen + account.length + queue.length +
      messageId.length + filters.length + attributes.length + 128 := by
  have hoptional₁ := length_optional_le named ("/" ++ messageId)
  have hoptional₂ := length_optional_le hasFilters ("?" ++ filters)
  have hoptional₃ := length_optional_le hasAttributes (join ++ attributes)
  have hbaseurlLen := hbackend.baseurlLen baseurl hbaseurl
  have hversionLen := protoVersionLen_eq hbackend
  have hslash : "/".length = 1 := rfl
  have hquestion : "?".length = 1 := rfl
  generalize (if named then "/" ++ messageId else "") = piece₁ at *
  generalize (if hasFilters then "?" ++ filters else "") = piece₂ at *
  generalize (if hasAttributes then join ++ attributes else "") = piece₃ at *
  simp only [String.length_append] at hoptional₁ hoptional₂ hoptional₃ ⊢
  omega

/-- **`burrow_backend_http_common_getting`.** The block has room for the URL. -/
theorem common_getting_url (hbackend : backend.WellFormed)
    (hbaseurl : backend.baseurl = some baseurl) (hcreate : name ≠ .createMessage)
    (hcmd : Suitable escape name cmd)
    (hint : ∀ piece ∈ urlPieces escape baseurl backend.protoVersion name cmd,
      piece.length ≤ CBuffer.intMax) :
    burrowBackendHttpCommonGetting escape .all backend cmd =
      .ok (.sends
        { url := urlFor escape baseurl backend.protoVersion name cmd
          method := methodOf (some name)
          payload := [] }) := by
  have hfilters : burrowBackendHttpFiltersToString escape cmd.filters
      Allocations.all.filterStr = _ := filtersToString_eq escape hcmd.live.1 hcmd.filters
  have hurl : ¬ Allocations.all.url = false := by decide
  have hsomeF := length_filtersString_ne_zero_iff escape cmd.filters
  have hsomeA := length_updateString_ne_zero_iff name cmd
  unfold burrowBackendHttpCommonGetting
  dsimp only
  rw [ok_bind hfilters]
  dsimp only
  rw [if_neg (not_isNone_of_ne_zero hsomeF), ok_bind (updateString_eq hcmd)]
  dsimp only
  rw [if_neg (not_isNone_of_ne_zero hsomeA), if_neg hurl, hcmd.command]
  have hdecideF := Bool.eq_iff_iff.2 (decide_eq_true_iff.trans hsomeF)
  have hdecideA := Bool.eq_iff_iff.2 (decide_eq_true_iff.trans hsomeA)
  rw [hdecideF, hdecideA, urlFor, queryFor_eq hcreate, queryOf_eq, path_eq hcreate]
  rw [urlPieces_eq baseurl backend.protoVersion hcreate] at hint
  have hshortF := hcmd.filters
  have hshortA := length_updateString_lt hcmd
  generalize filtersString escape cmd.filters = filters at *
  generalize updateString name cmd = attributes at *
  generalize namesMessage (some name) = named at *
  generalize hmessageId : (if named then escape cmd.messageId else "") = messageId at *
  have hmessage : (if named then "/" ++ escape cmd.messageId else "") =
      if named then "/" ++ messageId else "" := by
    rw [← hmessageId]
    cases named <;> rfl
  rw [hmessage, ← String.append_assoc, ← String.append_assoc]
  have hjoin : (if filters.isSome then "&" else "?").length = 1 := by
    cases filters.isSome <;> rfl
  have hroom := length_pieces_lt hbackend hbaseurl (escape cmd.account) (escape cmd.queue)
    messageId (filters.getD "") (attributes.getD "") named filters.isSome attributes.isSome hjoin
  generalize hlen : backend.baseurlLen + backend.protoVersionLen + (escape cmd.account).length +
    (escape cmd.queue).length + messageId.length + (filters.getD "").length +
    (attributes.getD "").length + 128 = urllen at hroom
  have htoNat : backend.baseurlLen + backend.protoVersionLen + (escape cmd.account).length +
      (escape cmd.queue).length + messageId.length + ((filters.getD "").length : Int).toNat +
      ((attributes.getD "").length : Int).toNat + 128 = urllen := hlen
  rw [htoNat]
  generalize "/" ++ escape cmd.account ++ "/" ++ escape cmd.queue = rest at *
  have hroom₂ := Nat.lt_of_le_of_lt (length_le_append _ _) hroom
  have hroom₁ := Nat.lt_of_le_of_lt (length_le_append _ _) hroom₂
  obtain ⟨state₁, hok₁, h₁⟩ := startUrl_filled hbaseurl
    (Nat.lt_of_le_of_lt (length_le_append _ _) hroom₁) (hint _ List.mem_cons_self)
  obtain ⟨state₂, hok₂, h₂⟩ := appendIf_filled named ("/" ++ messageId) h₁ hroom₁ (by
    rintro rfl
    rw [← hmessageId]
    exact hint _ (List.mem_cons_of_mem _ List.mem_cons_self))
  obtain ⟨state₃, hok₃, h₃⟩ := appendIf_filled filters.isSome ("?" ++ filters.getD "") h₂ hroom₂
    (fun _ => length_short hshortF rfl)
  obtain ⟨state₄, hok₄, h₄⟩ := appendIf_filled attributes.isSome
    ((if filters.isSome then "&" else "?") ++ attributes.getD "") h₃ hroom
    (fun _ => length_short hshortA (by cases filters.isSome <;> rfl))
  rw [ok_bind hok₁, ok_bind hok₂, ok_bind hok₃, ok_bind hok₄, h₄.holds.readString_eq]
  rfl

end Urls

/-! ## Targets can be read off -/

/-- Nothing, or something introduced by a `?`. -/
def IsQuery (query : List Char) : Prop := query = [] ∨ ∃ rest, query = '?' :: rest

theorem queryOf_isQuery (filters attributes : Option String) :
    IsQuery (queryOf filters attributes).toList := by
  cases filters with
  | none =>
      cases attributes with
      | none => exact Or.inl rfl
      | some attributes => exact Or.inr ⟨_, String.toList_append⟩
  | some filters =>
      cases attributes with
      | none => exact Or.inr ⟨_, String.toList_append⟩
      | some attributes =>
          refine Or.inr ⟨(filters ++ "&" ++ attributes).toList, ?_⟩
          rw [queryOf, String.append_assoc, String.append_assoc, String.toList_append,
            ← String.append_assoc]
          rfl

theorem IsQuery.delimited {query : List Char} (h : IsQuery query) :
    PercentEncoding.Delimited query := by
  rcases h with rfl | ⟨rest, rfl⟩
  · exact .nil
  · exact .cons (by decide) rest

/-- What follows the queue in a URL. -/
def afterQueue (escape : String → String) (target : Target) (query : List Char) : List Char :=
  match target.messageId with
  | some messageId => '/' :: ((escape messageId).toList ++ query)
  | none => query

theorem toList_path_append (escape : String → String) (target : Target) (query : String) :
    (target.path escape ++ query).toList =
      '/' :: ((escape target.account).toList ++
        '/' :: ((escape target.queue).toList ++ afterQueue escape target query.toList)) := by
  rw [Target.path, afterQueue]
  cases target.messageId with
  | none => simp [String.toList_append]
  | some messageId => simp [String.toList_append]

theorem afterQueue_delimited {escape : String → String} (target : Target) {query : List Char}
    (h : IsQuery query) : PercentEncoding.Delimited (afterQueue escape target query) := by
  rw [afterQueue]
  cases target.messageId with
  | none => exact h.delimited
  | some messageId => exact .cons (by decide) _

theorem afterQueue_injective {escape : String → String} (hescape : Escapes escape)
    {target target' : Target} {query query' : List Char} (hquery : IsQuery query)
    (hquery' : IsQuery query')
    (h : afterQueue escape target query = afterQueue escape target' query') :
    target.messageId = target'.messageId := by
  rw [afterQueue, afterQueue] at h
  cases hid : target.messageId with
  | none =>
      cases hid' : target'.messageId with
      | none => rfl
      | some messageId' =>
          rw [hid, hid'] at h
          -- one target names a message and the other does not: what follows is a slash
          -- in one URL and a question mark or the end in the other
          rcases hquery with rfl | ⟨rest, rfl⟩
          · exact absurd h (by simp)
          · exact absurd (List.cons.inj h).1 (by decide)
  | some messageId =>
      cases hid' : target'.messageId with
      | none =>
          rw [hid, hid'] at h
          rcases hquery' with rfl | ⟨rest, rfl⟩
          · exact absurd h (by simp)
          · exact absurd (List.cons.inj h).1 (by decide)
      | some messageId' =>
          rw [hid, hid'] at h
          -- an encoded identity has no character at which the rest could be cut
          obtain ⟨hsame, -⟩ := (hescape.encoded messageId).append_inj (hescape.encoded messageId')
            hquery.delimited hquery'.delimited (List.cons.inj h).2
          rw [hescape.injective messageId messageId' (String.toList_injective hsame)]

/-- **The target can be read off a URL.** -/
theorem url_injective {escape : String → String} (hescape : Escapes escape) {start : String}
    {target target' : Target} {query query' : String} (hquery : IsQuery query.toList)
    (hquery' : IsQuery query'.toList)
    (h : start ++ target.path escape ++ query = start ++ target'.path escape ++ query') :
    target = target' := by
  rw [String.append_assoc, String.append_assoc, String.append_right_inj] at h
  have hpath := congrArg String.toList h
  rw [toList_path_append, toList_path_append] at hpath
  have hnames := (List.cons.inj hpath).2
  have hslash : PercentEncoding.separates '/' = true := by decide
  obtain ⟨haccount, hrest⟩ := (hescape.encoded target.account).append_inj
    (hescape.encoded target'.account) (.cons hslash _) (.cons hslash _) hnames
  obtain ⟨hqueue, hafter⟩ := (hescape.encoded target.queue).append_inj
    (hescape.encoded target'.queue) (afterQueue_delimited target hquery)
    (afterQueue_delimited target' hquery') (List.cons.inj hrest).2
  have hmessageId := afterQueue_injective hescape hquery hquery' hafter
  obtain ⟨account, queue, messageId⟩ := target
  obtain ⟨account', queue', messageId'⟩ := target'
  cases hmessageId
  cases hescape.injective account account' (String.toList_injective haccount)
  cases hescape.injective queue queue' (String.toList_injective hqueue)
  rfl

/-! ## Commands on messages -/

/-- A command on messages is issued to a backend with this base URL. -/
structure Issued (escape : String → String) (baseurl : String) (backend : BurrowBackend)
    (name : CommandName) (cmd : BackendCommand) : Prop where
  reachable : Reachable backend
  baseurl : backend.baseurl = some baseurl
  onMessages : onMessages name = true
  suitable : Suitable escape name cmd

/-- `snprintf` can format every piece of the URL. -/
def Formattable (escape : String → String) (baseurl : String) (backend : BurrowBackend)
    (name : CommandName) (cmd : BackendCommand) : Prop :=
  ∀ piece ∈ urlPieces escape baseurl backend.protoVersion name cmd, piece.length ≤ CBuffer.intMax

theorem command_url {escape : String → String} {baseurl : String} {backend : BurrowBackend}
    {name : CommandName} {cmd : BackendCommand} (h : Issued escape baseurl backend name cmd)
    (hint : Formattable escape baseurl backend name cmd) (uninit : Int) :
    ∃ request, burrowBackendHttpCommand escape .all uninit backend cmd name =
        .ok (.sends request) ∧
      request.url = urlFor escape baseurl backend.protoVersion name cmd := by
  obtain ⟨hreachable, hbaseurl, hmessages, hcmd⟩ := h
  have hbackend := reachable_wellFormed hreachable
  by_cases hcreate : name = .createMessage
  · subst hcreate
    exact ⟨_, create_message_url hbackend hbaseurl hcmd hint uninit, rfl⟩
  · have hgetting := common_getting_url hbackend hbaseurl hcreate hcmd hint
    cases name with
    | createMessage => exact absurd rfl hcreate
    | getAccounts | deleteAccounts | getQueues | deleteQueues => cases hmessages
    | getMessages | updateMessages | deleteMessages | getMessage | updateMessage
    | deleteMessage => exact ⟨_, hgetting, rfl⟩

/-- **Request URLs identify their target.** A command on messages hands libcurl exactly
the URL that is meant, and never a part of it; and two commands with different targets
on the same base URL never hand it the same one. -/
theorem url_identifies_target {escape : String → String} (hescape : Escapes escape)
    {baseurl : String} {backend : BurrowBackend} {name : CommandName} {cmd : BackendCommand}
    (h : Issued escape baseurl backend name cmd)
    (hint : Formattable escape baseurl backend name cmd) (uninit : Int) :
    (∃ request, burrowBackendHttpCommand escape .all uninit backend cmd name =
        .ok (.sends request) ∧
      request.url = urlFor escape baseurl backend.protoVersion name cmd) ∧
    ∀ backend' name' cmd' uninit' request request',
      Issued escape baseurl backend' name' cmd' →
      Formattable escape baseurl backend' name' cmd' →
      burrowBackendHttpCommand escape .all uninit backend cmd name = .ok (.sends request) →
      burrowBackendHttpCommand escape .all uninit' backend' cmd' name' = .ok (.sends request') →
      request.url = request'.url → targetOf name cmd = targetOf name' cmd' := by
  refine ⟨command_url h hint uninit, ?_⟩
  intro backend' name' cmd' uninit' request request' h' hint' hsends hsends' hsame
  obtain ⟨sent, hsent, hurl⟩ := command_url h hint uninit
  obtain ⟨sent', hsent', hurl'⟩ := command_url h' hint' uninit'
  rw [hsends, Except.ok.injEq, Prepared.sends.injEq] at hsent
  rw [hsends', Except.ok.injEq, Prepared.sends.injEq] at hsent'
  subst hsent hsent'
  have hversion : backend.protoVersion = backend'.protoVersion :=
    (reachable_wellFormed h.reachable).protoVersion.trans
      (reachable_wellFormed h'.reachable).protoVersion.symm
  rw [hurl, hurl', ← hversion, urlFor, urlFor] at hsame
  exact url_injective hescape (queryOf_isQuery _ _) (queryOf_isQuery _ _) hsame

theorem encode_escapes : Escapes PercentEncoding.encode :=
  ⟨fun _ _ => PercentEncoding.encode_injective, PercentEncoding.encode_encoded⟩

/-- A queue whose name has a slash, and an update of the message with the empty id. -/
theorem url_identifies_target_update :
    ∃ request, burrowBackendHttpCommand PercentEncoding.encode .all 7
        { burrowBackendHttpCreate with
          server := some "s", serverLen := 1, port := "80", portLen := 2
          baseurl := some "http://s:80", baseurlLen := 11 }
        { (default : BackendCommand) with
          command := some .updateMessage, account := "a", queue := "b/c", messageId := ""
          filters := some (.live { (default : BurrowFilters) with marker := some "m n" })
          attributes := some (.live { set := burrowAttributesTtl, ttl := 5, hide := 0 }) }
        .updateMessage = .ok (.sends request) ∧
      request.url = "http://s:80/v1.0/a/b%2Fc/?marker=m%20n&ttl=5" := by
  have hreachable : Reachable { burrowBackendHttpCreate with
      server := some "s", serverLen := 1, port := "80", portLen := 2
      baseurl := some "http://s:80", baseurlLen := 11 } :=
    ⟨[.setOption true true "server" "s", .setOption true true "port" "80"], rfl⟩
  have hsuitable : Suitable PercentEncoding.encode .updateMessage
      { (default : BackendCommand) with
        command := some .updateMessage, account := "a", queue := "b/c", messageId := ""
        filters := some (.live { (default : BurrowFilters) with marker := some "m n" })
        attributes := some (.live { set := burrowAttributesTtl, ttl := 5, hide := 0 }) } :=
    ⟨rfl, ⟨(argLive_some _).2 trivial, (argLive_some _).2 trivial⟩, by decide, by decide,
      fun h => by cases h⟩
  obtain ⟨⟨request, hsends, hurl⟩, -⟩ := url_identifies_target encode_escapes
    ⟨hreachable, rfl, rfl, hsuitable⟩ (by unfold Formattable; decide) 7
  exact ⟨request, hsends, hurl.trans (by decide)⟩

/-! ## Overlong names -/

section Overlong

variable (escape : String → String) (account : String)

/-- A command without filters and attributes. -/
theorem suitable_get_message :
    Suitable escape .getMessage
      { (default : BackendCommand) with
        command := some .getMessage, account := account, queue := "q", messageId := "m" } :=
  ⟨rfl, ⟨argLive_none, argLive_none⟩, by simp [filtersString, sizeofBuf, default],
    by simp [attributesString, sizeofBuf, default], fun h => by cases h⟩

/-- `snprintf` fails where the escaped account alone is too long. -/
theorem get_message_overlong {backend : BurrowBackend} {baseurl : String}
    (hbaseurl : backend.baseurl = some baseurl)
    (hlong : CBuffer.intMax < (escape account).length) (uninit : Int) :
    burrowBackendHttpCommand escape .all uninit backend
      { (default : BackendCommand) with
        command := some .getMessage, account := account, queue := "q", messageId := "m" }
      .getMessage = .error (.memory .tooLong) := by
  -- `snprintf` cannot report a length that does not fit an int
  have hstart : ∀ urllen, startUrl backend urllen ("/" ++ escape account ++ "/" ++ escape "q") =
      .error (.memory .tooLong) := by
    intro urllen
    rw [startUrl, hbaseurl]
    refine snprintf_tooLong (Nat.lt_of_lt_of_le hlong ?_)
    simp only [String.length_append]
    omega
  have hfilters : burrowBackendHttpFiltersToString escape (default : BackendCommand).filters
      Allocations.all.filterStr = .ok (none, 0) := rfl
  have hattributes : (if updates (some .getMessage) then
      burrowBackendHttpAttributesToString (default : BackendCommand).attributes
        Allocations.all.attributeStr 0
    else .ok (none, 0)) = .ok (none, 0) := rfl
  have hurl : ¬ Allocations.all.url = false := by decide
  have hnone : ¬ ((none : Option String).isNone = true ∧ (0 : Int) ≠ 0) := by decide
  unfold burrowBackendHttpCommand burrowBackendHttpGetMessage burrowBackendHttpCommonGetting
  dsimp only
  rw [ok_bind hfilters]
  dsimp only
  rw [if_neg hnone, ok_bind hattributes]
  dsimp only
  rw [if_neg hnone, if_neg hurl, hstart]
  rfl

end Overlong

/-- With an account of 2 GiB no URL is handed to libcurl. -/
theorem overlong_account :
    Issued PercentEncoding.encode "http://s:80"
        { burrowBackendHttpCreate with
          server := some "s", serverLen := 1, port := "80", portLen := 2
          baseurl := some "http://s:80", baseurlLen := 11 }
        .getMessage
        { (default : BackendCommand) with
          command := some .getMessage
          account := String.ofList (List.replicate 2147483648 'a'), queue := "q"
          messageId := "m" } ∧
      ¬ ∃ request, burrowBackendHttpCommand PercentEncoding.encode .all 0
        { burrowBackendHttpCreate with
          server := some "s", serverLen := 1, port := "80", portLen := 2
          baseurl := some "http://s:80", baseurlLen := 11 }
        { (default : BackendCommand) with
          command := some .getMessage
          account := String.ofList (List.replicate 2147483648 'a'), queue := "q"
          messageId := "m" }
        .getMessage = .ok (.sends request) := by
  have hlong : CBuffer.intMax <
      (PercentEncoding.encode (String.ofList (List.replicate 2147483648 'a'))).length := by
    refine Nat.lt_of_lt_of_le ?_ (PercentEncoding.length_le_length_encode _)
    rw [String.length_ofList, List.length_replicate]
    decide
  -- the account is too long to be evaluated, only its length counts
  generalize String.ofList (List.replicate 2147483648 'a') = account at hlong ⊢
  refine ⟨⟨?_, rfl, rfl, suitable_get_message _ account⟩, ?_⟩
  · exact ⟨[.setOption true true "server" "s", .setOption true true "port" "80"], rfl⟩
  · rintro ⟨request, hrequest⟩
    rw [get_message_overlong _ account rfl hlong] at hrequest
    exact absurd hrequest (by simp)

end Burrow.Http
