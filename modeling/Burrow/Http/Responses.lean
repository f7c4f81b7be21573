import Burrow.Http.FlatObjects
import Burrow.Http.JsonAccepted
import Burrow.Http.ParseJson

/-!
# What a response comes to

The parser, the callback and the loop around them together: with memory for everything, a
response is read to its end just if it is a document in ASCII whose events the callback takes,
and the user is called as the events say (`replied_iff`). So lists of names
(`names_replied_iff`) and lists of messages (`messages_replied_iff`) are read exactly.
-/

set_option autoImplicit false

namespace Burrow.Http

/-- There is memory for everything. -/
structure ParseMemory.Ample (memory : ParseMemory) : Prop where
  processing : memory.processing = true
  attributes : memory.attributes = true
  parser : memory.parser = true
  callback : ∀ call, memory.callback call = true
  parseBuffer : ∀ size, memory.parseBuffer size = true

/-! ## The callback, with memory -/

section Callback

variable {unescape : List UInt8 → List UInt8} {command : Option CommandName}
  {alloc : Nat → Bool}

/-- A call of the callback is a step of the decoder, and what it reports is kept. -/
theorem parserCallback_eq (halloc : ∀ call, alloc call = true) (event : JsonEvent)
    (jproc : JsonProcessing) (calls : Nat) (reported : List Reported) :
    parserCallback unescape command alloc event
        { jproc := some jproc, calls := calls, reported := reported } =
      (jsonStep unescape command event jproc).map fun jproc' =>
        { jproc := some jproc'
          calls := calls + 1
          reported := reported ++ jsonReports unescape command event jproc } := by
  rw [parserCallback, jsonStep, jsonReports]
  dsimp only
  rw [halloc]
  cases burrowBackendHttpJsonCallback unescape command true event jproc with
  | error fault => rfl
  | ok result =>
      dsimp only
      split <;> rfl

/-- A run of the callback is a run of the decoder. -/
theorem run_parserCallback (halloc : ∀ call, alloc call = true) (events : List JsonEvent)
    (jproc : JsonProcessing) (calls : Nat) (reported : List Reported) :
    Machine.run (parserCallback unescape command alloc) events
        { jproc := some jproc, calls := calls, reported := reported } =
      (Machine.run (jsonStep unescape command) events jproc).map fun jproc' =>
        { jproc := some jproc'
          calls := calls + events.length
          reported := reported ++
            Machine.trace (jsonStep unescape command) (jsonReports unescape command) events
              jproc } := by
  induction events generalizing jproc calls reported with
  | nil =>
      show Except.ok _ = Except.ok _
      rw [Machine.trace, List.append_nil]
      rfl
  | cons event events ih =>
      have hcall := @parserCallback_eq unescape command alloc halloc event jproc calls reported
      cases hstep : jsonStep unescape command event jproc with
      | error stop =>
          rw [hstep] at hcall
          rw [Machine.run_cons_of_error _ hcall, Machine.run_cons_of_error _ hstep]
          rfl
      | ok jproc' =>
          rw [hstep] at hcall
          rw [Machine.run_cons_of_ok _ hcall, Machine.run_cons_of_ok _ hstep, ih,
            Machine.trace_cons_of_ok _ _ hstep, List.append_assoc, List.length_cons,
            Nat.add_assoc, Nat.add_comm 1]

/-- The callback takes the events just if the decoder does, and has then reported what the
decoder shows. -/
theorem callback_decodes_iff (halloc : ∀ call, alloc call = true) {events : List JsonEvent}
    {jproc : JsonProcessing} {context : JsonContext} :
    Machine.run (parserCallback unescape command alloc) events
        { jproc := some jproc, calls := 0, reported := [] } = .ok context ↔
      ∃ jproc',
        context =
          { jproc := some jproc', calls := events.length, reported := context.reported } ∧
        Decodes unescape command events jproc context.reported jproc' := by
  rw [run_parserCallback halloc, Nat.zero_add, List.nil_append]
  constructor
  · intro hrun
    cases hdecoder : Machine.run (jsonStep unescape command) events jproc with
    | error stop =>
        rw [hdecoder] at hrun
        cases hrun
    | ok jproc' =>
        rw [hdecoder] at hrun
        cases hrun
        exact ⟨jproc', rfl, hdecoder, rfl⟩
  · rintro ⟨jproc', hcontext, hdecoder, htrace⟩
    rw [hdecoder, htrace, hcontext]
    rfl

end Callback

/-! ## The loop, with memory -/

namespace ParseEnvironment

variable (env : ParseEnvironment)

/-- The loop runs the parser that the pointer stands for. -/
theorem run_char (chars : List Int) (jc : JsonParser JsonContext) :
    Machine.run env.char chars (some jc) =
      (Machine.run
        (jsonParserChar env.memory.parseBuffer
          (parserCallback env.unescape env.command env.memory.callback)) chars jc).map some := by
  induction chars generalizing jc with
  | nil => rfl
  | cons nextChar chars ih =>
      cases hchar : jsonParserChar env.memory.parseBuffer
          (parserCallback env.unescape env.command env.memory.callback) nextChar jc with
      | error stop =>
          have hloop : env.char nextChar (some jc) = .error stop := by
            rw [char, parserChar, hchar]
            rfl
          rw [Machine.run_cons_of_error _ hloop, Machine.run_cons_of_error _ hchar]
          rfl
      | ok jc' =>
          have hloop : env.char nextChar (some jc) = .ok (some jc') := by
            rw [char, parserChar, hchar]
            rfl
          rw [Machine.run_cons_of_ok _ hloop, Machine.run_cons_of_ok _ hchar]
          exact ih jc'

/-- What the callback starts with. -/
def context : JsonContext :=
  { jproc := some (burrowEasyJsonStCreate true), calls := 0, reported := [] }

variable {env}

theorem start_eq (h : env.memory.Ample) :
    env.start = newJsonParser true env.decimalPoint
      { depth := 19, allowComments := true, handleFloatsManually := false } context := by
  rw [start, h.parser, h.processing, h.attributes]
  rfl

end ParseEnvironment

/-- **A response is read to its end**, and the user has been called with `reported`. -/
structure Replied (env : ParseEnvironment) (text : List UInt8) (reported : List Reported) :
    Prop where
  code : (burrowBackendHttpParseJson env text).code = some 0
  reports : ∃ jc, Machine.run env.char (text.map nextchar) env.start = .ok (some jc) ∧
    jc.ctx.reported = reported

theorem of_map_some {ε σ : Type} {x : Except ε σ} {s : σ} (h : x.map some = .ok (some s)) :
    x = .ok s := by
  cases x with
  | error stop => cases h
  | ok s' =>
      cases h
      rfl

/-- A text that is read to its end is ASCII. -/
theorem ascii_of_run_ok {env : ParseEnvironment} {text : List UInt8}
    {start jc : Option (JsonParser JsonContext)}
    (h : Machine.run env.char (text.map nextchar) start = .ok jc) : ∀ byte ∈ text, byte < 128 := by
  induction text generalizing start with
  | nil => exact fun byte hmem => absurd hmem List.not_mem_nil
  | cons byte text ih =>
      obtain ⟨jc', hchar, hrest⟩ := Machine.run_cons_ok _ h
      refine List.forall_mem_cons.2 ⟨?_, ih hrest⟩
      by_contra hbyte
      obtain ⟨stop, hstop⟩ := char_neg env (nextchar_neg hbyte) start
      rw [hstop] at hchar
      cases hchar

theorem map_nextchar_of_ascii {text : List UInt8} (h : ∀ byte ∈ text, byte < 128) :
    text.map nextchar = text.map byteValue :=
  List.map_congr_left fun byte hmem => nextchar_of_lt (h byte hmem)

/-- The code, where every character has been accepted. -/
theorem code_of_run_ok {env : ParseEnvironment} {text : List UInt8} {jc : JsonParser JsonContext}
    (hlength : text.length < 2 ^ 31)
    (hrun : Machine.run env.char (text.map nextchar) env.start = .ok (some jc)) :
    (burrowBackendHttpParseJson env text).code =
      jc.ctx.jproc.map fun _ => if jsonParserDone jc then 0 else EINVAL := by
  rw [parse_of_length_lt env hlength, parseChars, hrun]
  dsimp only [parseEnd]
  cases jc.ctx.jproc <;> rfl

theorem done_of_code {env : ParseEnvironment} {text : List UInt8} {jc : JsonParser JsonContext}
    (hlength : text.length < 2 ^ 31)
    (hrun : Machine.run env.char (text.map nextchar) env.start = .ok (some jc))
    (hcode : (burrowBackendHttpParseJson env text).code = some 0) : jsonParserDone jc = true := by
  rw [code_of_run_ok hlength hrun] at hcode
  obtain ⟨-, -, hzero⟩ := Option.map_eq_some_iff.1 hcode
  by_contra hdone
  rw [if_neg hdone] at hzero
  exact absurd hzero (by decide)

/-- The parser starts with what the callback starts with. -/
theorem start_at {env : ParseEnvironment} (hample : env.memory.Ample) :
    ∃ jc, env.start = some jc ∧ jc.At .go .none [.done] [] 0 ∧
      jc.ctx = ParseEnvironment.context := by
  have hnew : newJsonParser true env.decimalPoint
      { depth := 19, allowComments := true, handleFloatsManually := false }
      ParseEnvironment.context = some _ := rfl
  exact ⟨_, (ParseEnvironment.start_eq hample).trans hnew, newJsonParser_at hnew⟩

/-- A response that is read to its end is a document. -/
theorem Replied.document {env : ParseEnvironment} (hample : env.memory.Ample) {text : List UInt8}
    (hlength : text.length < 2 ^ 31) {reported : List Reported}
    (h : Replied env text reported) :
    (∀ byte ∈ text, byte < 128) ∧ ∃ events jproc, Document text events ∧
      Decodes env.unescape env.command events (burrowEasyJsonStCreate true) reported jproc := by
  obtain ⟨hcode, jc, hrun, rfl⟩ := h
  have hascii := ascii_of_run_ok hrun
  have hdone : jsonParserDone jc = true := done_of_code hlength hrun hcode
  obtain ⟨start, hstart, hat, hctx⟩ := start_at hample
  rw [map_nextchar_of_ascii hascii, hstart, ParseEnvironment.run_char] at hrun
  obtain ⟨events, hdocument, hcall⟩ :=
    (text_accepted_iff hample.parseBuffer hat).1 ⟨jc, of_map_some hrun, rfl, hdone⟩
  rw [hctx] at hcall
  obtain ⟨jproc, -, hdecodes⟩ := (callback_decodes_iff hample.callback).1 hcall
  exact ⟨hascii, events, jproc, hdocument, hdecodes⟩

/-- A document of which the decoder takes the events is read to its end. -/
theorem Document.replied {env : ParseEnvironment} (hample : env.memory.Ample)
    {text : List UInt8} (hlength : text.length < 2 ^ 31) (hascii : ∀ byte ∈ text, byte < 128)
    {events : List JsonEvent} (hdocument : Document text events) {reported : List Reported}
    {jproc : JsonProcessing} (hdecodes : Decodes env.unescape env.command events
      (burrowEasyJsonStCreate true) reported jproc) : Replied env text reported := by
  obtain ⟨start, hstart, hat, hctx⟩ := start_at hample
  have hcall : Machine.run (parserCallback env.unescape env.command env.memory.callback) events
      start.ctx = .ok { jproc := some jproc, calls := events.length, reported := reported } := by
    rw [hctx]
    exact (callback_decodes_iff hample.callback).2 ⟨jproc, rfl, hdecodes⟩
  obtain ⟨jc, hchars, hctx', hdone⟩ :=
    (text_accepted_iff hample.parseBuffer hat).2 ⟨events, hdocument, hcall⟩
  have hrun : Machine.run env.char (text.map nextchar) env.start = .ok (some jc) := by
    rw [map_nextchar_of_ascii hascii, hstart, ParseEnvironment.run_char, hchars]
    rfl
  refine ⟨?_, jc, hrun, by rw [hctx']⟩
  rw [code_of_run_ok hlength hrun, hctx', hdone]
  rfl

/-- **What a response comes to.** With memory for everything, a response is read to its end, and
the user has been called with `reported`, just if it is a document in ASCII of which the callback
takes the events and reports this. -/
theorem replied_iff {env : ParseEnvironment} (hample : env.memory.Ample) {text : List UInt8}
    (hlength : text.length < 2 ^ 31) (reported : List Reported) :
    Replied env text reported ↔
      (∀ byte ∈ text, byte < 128) ∧ ∃ events jproc, Document text events ∧
        Decodes env.unescape env.command events (burrowEasyJsonStCreate true) reported jproc := by
  constructor
  · exact Replied.document hample hlength
  · rintro ⟨hascii, events, jproc, hdocument, hdecodes⟩
    exact hdocument.replied hample hlength hascii hdecodes

theorem ParseEnvironment.reply_ample (command : CommandName) :
    (ParseEnvironment.reply command).memory.Ample :=
  ⟨rfl, rfl, rfl, fun _ => rfl, fun _ => rfl⟩

/-- `{"id":"a"}` -/
theorem idDocument : Document [123, 34, 105, 100, 34, 58, 34, 97, 34, 125]
    [.objectBegin, .key keyId, .string [97], .objectEnd] := by
  have hkey : Chars [105, 100] keyId := .byte (by decide) (.byte (by decide) .nil)
  have hitem : ItemText 18 ([] ++ (34 :: ([97] ++ [34]) ++ [])) [.string [97]] :=
    .bare (.string (.byte (by decide) .nil))
  have hmember := MemberText.intro .nil hkey .nil hitem
  exact Document.value .nil (.object (.list (.one hmember))) (by simp) .nil

/-- A message with its id. -/
theorem replied_iff_id :
    Replied (.reply .getMessages) [123, 34, 105, 100, 34, 58, 34, 97, 34, 125]
      [.message
        { messageId := some [97], body := none, bodySize := 0
          attributes := some { set := 0, ttl := 0, hide := 0 } }] :=
  (replied_iff (ParseEnvironment.reply_ample .getMessages) (by decide) _).2
    ⟨by simp, _, _, idDocument, rfl, rfl⟩

/-! ## Lists of names -/

/-- An array or a string. -/
def inNames : JsonEvent → Bool
  | .arrayBegin | .arrayEnd | .string _ => true
  | _ => false

def JsonEvent.string? : JsonEvent → Option (List UInt8)
  | .string value => some value
  | _ => none

/-- What the user is called with for a string of a list. -/
def reportedName (unescape : List UInt8 → List UInt8) (command : Option CommandName)
    (value : List UInt8) : Reported :=
  if command = some .getAccounts then .account (cString (unescape (cString value)))
  else .queue (cString (unescape (cString value)))

/-- The strings of some events, as the user is called with them. -/
def namesReported (unescape : List UInt8 → List UInt8) (command : Option CommandName)
    (events : List JsonEvent) : List Reported :=
  (events.filterMap JsonEvent.string?).map (reportedName unescape command)

section Names

variable {unescape : List UInt8 → List UInt8} {command : Option CommandName}
  (hcommand : command = some .getQueues ∨ command = some .getAccounts)
include hcommand

theorem name_step {event : JsonEvent} (hevent : inNames event = true) (jproc : JsonProcessing) :
    jsonStep unescape command event jproc = .ok jproc ∧
      jsonReports unescape command event jproc = namesReported unescape command [event] := by
  rcases hcommand with rfl | rfl <;> cases event <;> first | exact ⟨rfl, rfl⟩ | cases hevent

theorem other_step {event : JsonEvent} (hevent : inNames event = false)
    (jproc : JsonProcessing) :
    jsonStep unescape command event jproc = .error .rejected := by
  rcases hcommand with rfl | rfl <;> cases event <;> first | rfl | cases hevent

/-- The events of some names, in arrays or not, are taken, and no others. -/
theorem names_decode_iff {events : List JsonEvent} {jproc jproc' : JsonProcessing}
    {reported : List Reported} :
    Decodes unescape command events jproc reported jproc' ↔
      (∀ event ∈ events, inNames event = true) ∧
        reported = namesReported unescape command events ∧ jproc' = jproc := by
  -- by induction on the events, none of which changes the structure
  induction events generalizing reported with
  | nil =>
      constructor
      · rintro ⟨hrun, rfl⟩
        cases hrun
        exact ⟨List.forall_mem_nil _, rfl, rfl⟩
      · rintro ⟨-, rfl, rfl⟩
        exact Machine.Shows.nil _ _ jproc'
  | cons event events ih =>
      cases hevent : inNames event with
      | false =>
          have hstep := @other_step unescape command hcommand event hevent jproc
          constructor
          · rintro ⟨hrun, -⟩
            rw [Machine.run_cons_of_error _ hstep] at hrun
            cases hrun
          · rintro ⟨hall, -⟩
            have htrue := hall event List.mem_cons_self
            rw [hevent] at htrue
            cases htrue
      | true =>
          obtain ⟨hstep, hreports⟩ := @name_step unescape command hcommand event hevent jproc
          have hnames : namesReported unescape command (event :: events) =
              namesReported unescape command [event] ++ namesReported unescape command events := by
            rw [namesReported, ← List.singleton_append, List.filterMap_append, List.map_append]
            rfl
          have hsingle := Machine.Shows.single _ (jsonReports unescape command) hstep
          rw [hreports] at hsingle
          constructor
          · rintro ⟨hrun, rfl⟩
            rw [Machine.run_cons_of_ok _ hstep] at hrun
            obtain ⟨hall, hreported, rfl⟩ := ih.1 ⟨hrun, rfl⟩
            refine ⟨List.forall_mem_cons.2 ⟨hevent, hall⟩, ?_, rfl⟩
            rw [Machine.trace_cons_of_ok _ _ hstep, hreports, hreported, hnames]
          · rintro ⟨hall, rfl, rfl⟩
            rw [hnames]
            exact hsingle.append (ih.2 ⟨(List.forall_mem_cons.1 hall).2, rfl, rfl⟩)

end Names

/-- **Lists of names are read exactly.** A response with queues or accounts is read to its end
just if it is a document in ASCII of nothing but strings and arrays, and the user is called with
its strings, in order. -/
theorem names_replied_iff {env : ParseEnvironment} (hample : env.memory.Ample)
    (hcommand : env.command = some .getQueues ∨ env.command = some .getAccounts)
    {text : List UInt8} (hlength : text.length < 2 ^ 31) (reported : List Reported) :
    Replied env text reported ↔
      (∀ byte ∈ text, byte < 128) ∧ ∃ events, Document text events ∧
        (∀ event ∈ events, inNames event = true) ∧
        reported = namesReported env.unescape env.command events := by
  constructor
  · intro h
    obtain ⟨hascii, events, jproc, hdocument, hdecodes⟩ := h.document hample hlength
    obtain ⟨hall, hreported, -⟩ := (names_decode_iff hcommand).1 hdecodes
    exact ⟨hascii, events, hdocument, hall, hreported⟩
  · rintro ⟨hascii, events, hdocument, hall, hreported⟩
    exact hdocument.replied hample hlength hascii
      ((names_decode_iff hcommand).2 ⟨hall, hreported, rfl⟩)

/-- `["a",["b","c"]]` -/
theorem namesDocument :
    Document [91, 34, 97, 34, 44, 91, 34, 98, 34, 44, 34, 99, 34, 93, 93]
      [.arrayBegin, .string [97], .arrayBegin, .string [98], .string [99], .arrayEnd,
        .arrayEnd] := by
  have hname : ∀ (depth : Nat) (c : UInt8), Ordinary c →
      ItemText depth ([] ++ (34 :: ([c] ++ [34]) ++ [])) [.string [c]] :=
    fun depth c hc => .bare (.string (.byte hc .nil))
  have hinner := ValueText.array
    (.list (.more (.one (hname 17 98 (by decide))) (hname 17 99 (by decide))))
  exact Document.value .nil
    (.array (.list (.more (.one (hname 18 97 (by decide))) (.bare hinner)))) (by simp) .nil

/-- Three queues, of which two are in an array of their own. -/
theorem names_replied_iff_queues :
    Replied (.reply .getQueues) [91, 34, 97, 34, 44, 91, 34, 98, 34, 44, 34, 99, 34, 93, 93]
      [.queue [97], .queue [98], .queue [99]] :=
  (names_replied_iff (ParseEnvironment.reply_ample .getQueues) (.inl rfl) (by decide) _).2
    ⟨by simp, _, namesDocument, by simp [inNames], rfl⟩

/-! ## Lists of messages -/

/-- **Lists of messages are read exactly.** A response with flat objects, on their own or in an
array, is read to its end just if it is ASCII, every value fits its key, and none is a body, and
the user is called with the messages that the objects stand for, in order. -/
theorem messages_replied_iff {env : ParseEnvironment} (hample : env.memory.Ample)
    (hcommand : env.command.any returnsMessages = true) {text : List UInt8}
    (hlength : text.length < 2 ^ 31) {inArray : Bool} {objects : List (List Member)}
    (hdocument : Document text (flatListEvents inArray objects)) (reported : List Reported) :
    Replied env text reported ↔
      (∀ byte ∈ text, byte < 128) ∧
        (∀ members ∈ objects, ∀ member ∈ members, member.Fits ∧ ¬ member.IsBody) ∧
        reported = reportsOf env.unescape (pairsOf objects) := by
  constructor
  · intro h
    obtain ⟨hascii, events, jproc, hread, hdecodes⟩ := h.document hample hlength
    obtain rfl := hread.unique hdocument
    exact ⟨hascii, (flatList_decodes_iff hcommand).1 ⟨jproc, hdecodes⟩⟩
  · rintro ⟨hascii, hfits⟩
    obtain ⟨jproc, hdecodes⟩ := (flatList_decodes_iff hcommand).2 hfits
    exact hdocument.replied hample hlength hascii hdecodes

/-- `{"ttl":-1}` -/
theorem ttlDocument : Document [123, 34, 116, 116, 108, 34, 58, 45, 49, 125]
    (flatListEvents false [[{ key := keyTtl, value := .integer (-1), scalar := rfl }]]) := by
  have hkey : Chars [116, 116, 108] keyTtl :=
    .byte (by decide) (.byte (by decide) (.byte (by decide) .nil))
  have hvalue : Number [45, 49] (.integer (nearest (-1))) true :=
    .integer (.minus (.digits (by decide) (by decide) (List.forall_mem_nil _)))
  have hitem : ItemText 18 ([] ++ ([45, 49] ++ [])) [.integer (-1)] := .bare (.number hvalue)
  have hmember := MemberText.intro .nil hkey .nil hitem
  exact Document.value .nil (.object (.list (.one hmember))) (by simp) .nil

/-- A negative time to live. -/
theorem messages_replied_iff_negative :
    Replied (.reply .getMessages) [123, 34, 116, 116, 108, 34, 58, 45, 49, 125]
      [.message
        { messageId := none, body := none, bodySize := 0
          attributes := some { set := burrowAttributesTtl, ttl := 4294967295, hide := 0 } }] :=
  (messages_replied_iff (ParseEnvironment.reply_ample .getMessages) rfl (by decide)
    ttlDocument _).2 ⟨by simp, by decide, by decide⟩

end Burrow.Http
