import Burrow.Memory.Runs

/-!
# Memory that is read before it is written

`blank` writes over what the automatic structures and the blocks of the heap held
before a command. Two inputs with one `blank` differ in nothing else. The
commands on lists and queues write every field before they read it, so `blank`
changes nothing that can be observed of them; the commands that find one message
hand its user an attributes structure of which `set` was never written.
-/

set_option autoImplicit false

namespace Burrow.Memory

open KeyedList

/-! ## Blank memory -/

def ScanInputs.blank (inputs : ScanInputs) : ScanInputs :=
  { inputs with
    referenceAttributes := default
    outFilters := inputs.outFilters.map fun _ => default }

def ListInputs.blank (inputs : ListInputs) : ListInputs :=
  { inputs with outFilters := inputs.outFilters.map fun _ => default }

def EraseInputs.blank (inputs : EraseInputs) : EraseInputs :=
  { toListInputs := inputs.toListInputs.blank
    eraseCmd := inputs.eraseCmd.map fun _ => default
    eraseFilters := inputs.eraseFilters.map fun _ => default }

def DeleteQueuesInputs.blank (inputs : DeleteQueuesInputs) : DeleteQueuesInputs :=
  { toEraseInputs := inputs.toEraseInputs.blank
    scan := fun i => (inputs.scan i).blank }

def DeleteAccountsInputs.blank (inputs : DeleteAccountsInputs) : DeleteAccountsInputs :=
  { toEraseInputs := inputs.toEraseInputs.blank
    deleteQueues := fun i => (inputs.deleteQueues i).blank }

def CreateInputs.blank (inputs : CreateInputs) : CreateInputs :=
  { inputs with
    newMessage := inputs.newMessage.map fun _ => default
    body := inputs.body.map fun _ => [] }

def MessageInputs.blank (inputs : MessageInputs) : MessageInputs :=
  { inputs with attributes := default }

/-- Nothing but zeros in the memory that a command has not written. -/
def Inputs.blank (inputs : Inputs) : Inputs :=
  { scan := inputs.scan.blank
    list := inputs.list.blank
    deleteQueues := inputs.deleteQueues.blank
    deleteAccounts := inputs.deleteAccounts.blank
    create := inputs.create.blank
    message := inputs.message.blank }

/-! ## Observations -/

/-- `isset_ttl` and `isset_hide` of the attributes in a message callback. -/
def Callback.isset? : Callback → Option (Bool × Bool)
  | .message _ _ _ attributes =>
      some (burrowAttributesIssetTtl attributes, burrowAttributesIssetHide attributes)
  | .queue _ | .account _ => none

/-- What the accessors tell the user about a callback. -/
def Callback.observed (c : Callback) : Report × Option (Bool × Bool) := (c.report, c.isset?)

/-- The attributes of a message callback say that they hold a ttl and a hide time. -/
def Callback.TimesSet (c : Callback) : Prop := ∀ flags, c.isset? = some flags → flags = (true, true)

/-- What can be observed of a step that may fail. -/
def observe {α : Type} (x : Except Fault (α × List Callback)) :
    Except Fault (α × List (Report × Option (Bool × Bool))) :=
  x.map fun r => (r.1, r.2.map Callback.observed)

/-- What can be observed of a command: the store, the return code, the callbacks. -/
def Outcome.observe (x : Except Fault Outcome) :
    Except Fault (AccountsSt × List (Report × Option (Bool × Bool)) × Int) :=
  x.map fun o => (o.accounts, o.callbacks.map Callback.observed, o.result)

theorem observe_eq_cases {α : Type} {x y : Except Fault (α × List Callback)}
    (h : observe x = observe y) :
    (∃ e, x = .error e ∧ y = .error e) ∨
      ∃ a callbacks callbacks', x = .ok (a, callbacks) ∧ y = .ok (a, callbacks') ∧
        callbacks.map Callback.observed = callbacks'.map Callback.observed := by
  cases x with
  | error e =>
      cases y with
      | error e' =>
          cases h
          exact Or.inl ⟨e, rfl, rfl⟩
      | ok r => exact absurd h (by simp [observe, Except.map])
  | ok r =>
      cases y with
      | error e => exact absurd h (by simp [observe, Except.map])
      | ok r' =>
          obtain ⟨a, callbacks⟩ := r
          obtain ⟨a', callbacks'⟩ := r'
          simp only [observe, Except.map, Except.ok.injEq, Prod.mk.injEq] at h
          obtain ⟨rfl, hcallbacks⟩ := h
          exact Or.inr ⟨a, callbacks, callbacks', rfl, rfl, hcallbacks⟩

theorem Outcome.observe_eq_cases {x y : Except Fault Outcome}
    (h : Outcome.observe x = Outcome.observe y) :
    (∃ e, x = .error e ∧ y = .error e) ∨
      ∃ o o', x = .ok o ∧ y = .ok o' ∧ o.accounts = o'.accounts ∧
        o.callbacks.map Callback.observed = o'.callbacks.map Callback.observed ∧
        o.result = o'.result := by
  cases x with
  | error e =>
      cases y with
      | error e' =>
          cases h
          exact Or.inl ⟨e, rfl, rfl⟩
      | ok o => exact absurd h (by simp [Outcome.observe, Except.map])
  | ok o =>
      cases y with
      | error e => exact absurd h (by simp [Outcome.observe, Except.map])
      | ok o' =>
          simp only [Outcome.observe, Except.map, Except.ok.injEq, Prod.mk.injEq] at h
          exact Or.inr ⟨o, o', rfl, rfl, h.1, h.2.1, h.2.2⟩

theorem observe_ok {α : Type} (a : α) (callbacks : List Callback) :
    observe (.ok (a, callbacks)) = .ok (a, callbacks.map Callback.observed) := rfl

/-! ## Scans -/

/-- The two bits are set whatever the structure held before. -/
theorem isset_reportTimes (now : UInt32) (m : BurrowMessage) (reference : BurrowAttributes) :
    (messageCallback m (reportTimes now m reference)).isset? = some (true, true) := by
  have httl : burrowAttributesIssetTtl (reportTimes now m reference) = true := by
    show ((remainingTimes now m reference).set ||| burrowAttributesTtl ||| burrowAttributesHide) &&&
      burrowAttributesTtl != 0
    rw [UInt32.or_assoc, UInt32.or_comm burrowAttributesTtl, ← UInt32.or_assoc, or_and_self]
    rfl
  have hhide : burrowAttributesIssetHide (reportTimes now m reference) = true := by
    show ((remainingTimes now m reference).set ||| burrowAttributesTtl ||| burrowAttributesHide) &&&
      burrowAttributesHide != 0
    rw [or_and_self]
    rfl
  show some (burrowAttributesIssetTtl _, burrowAttributesIssetHide _) = _
  rw [httl, hhide]

theorem timesSet_messageCallback (now : UInt32) (m : BurrowMessage)
    (reference : BurrowAttributes) :
    (messageCallback m (reportTimes now m reference)).TimesSet := by
  intro flags hflags
  rw [isset_reportTimes] at hflags
  exact (Option.some.inj hflags).symm

theorem timesSet_of_none {c : Callback} (h : c.isset? = none) : c.TimesSet := by
  intro flags hflags
  rw [h] at hflags
  exact absurd hflags (by simp)

theorem observed_reportTimes (now : UInt32) (m : BurrowMessage) (reference : BurrowAttributes) :
    (messageCallback m (reportTimes now m reference)).observed =
      (m.report now, some (true, true)) := by
  rw [Callback.observed, isset_reportTimes, report_messageCallback_reportTimes]

/-- A round of the loop does the same whatever the structure held before. -/
theorem scanMessage_observed (locals : ScanLocals) (key : String) (m : BurrowMessage)
    (reference reference' : BurrowAttributes) (messages : MessagesSt) :
    (scanMessage locals key m reference messages).1 =
        (scanMessage locals key m reference' messages).1 ∧
      (scanMessage locals key m reference messages).2.2.map Callback.observed =
        (scanMessage locals key m reference' messages).2.2.map Callback.observed := by
  unfold scanMessage
  split
  · exact ⟨rfl, rfl⟩
  · split
    · exact ⟨rfl, rfl⟩
    · cases locals.scanType with
      | update => simp only [List.map_cons, observed_reportTimes, and_self, List.map_nil]
      | get => simp only [List.map_cons, observed_reportTimes, and_self, List.map_nil]
      | delete =>
          cases locals.deleteAction with
          | report => simp only [List.map_cons, observed_reportTimes, and_self, List.map_nil]
          | ignore => exact ⟨rfl, rfl⟩

theorem scanLoop_observed (locals : ScanLocals) (items : List (DictionaryNode BurrowMessage))
    (reference reference' : BurrowAttributes) (messages : MessagesSt) :
    observe (scanLoop locals items reference messages) =
      observe (scanLoop locals items reference' messages) := by
  induction items generalizing reference reference' messages with
  | nil => rfl
  | cons item rest ih =>
      cases hdata : item.data with
      | none => simp only [scanLoop, hdata]
      | some m =>
          obtain ⟨hmessages, hcallbacks⟩ :=
            scanMessage_observed locals item.key m reference reference' messages
          simp only [scanLoop, hdata, ← hmessages]
          rcases observe_eq_cases (ih (scanMessage locals item.key m reference messages).2.1
              (scanMessage locals item.key m reference' messages).2.1
              (scanMessage locals item.key m reference messages).1) with
            ⟨e, he, he'⟩ | ⟨a, callbacks, callbacks', hok, hok', hrest⟩
          · rw [he, he']
          · rw [hok, hok']
            simp only [observe_ok, List.map_append, hcallbacks, hrest]

/-- The filters that the backend works with, but for the rest of the block. -/
theorem processFilter_blank (block : Option BurrowFilters)
    (inFilters : Option (Object BurrowFilters)) :
    (∃ e, processFilter block inFilters = .error e ∧
        processFilter (block.map fun _ => default) inFilters = .error e) ∨
      (processFilter block inFilters = .ok none ∧
        processFilter (block.map fun _ => default) inFilters = .ok none) ∨
      ∃ out out', processFilter block inFilters = .ok (some out) ∧
        processFilter (block.map fun _ => default) inFilters = .ok (some out') ∧
        out.marker = out'.marker ∧ out.limit = out'.limit ∧ out.matchHidden = out'.matchHidden := by
  cases block with
  | none => exact Or.inr (Or.inl ⟨rfl, rfl⟩)
  | some block =>
      cases inFilters with
      | none => exact Or.inr (Or.inr ⟨_, _, rfl, rfl, rfl, rfl, rfl⟩)
      | some object =>
          cases object with
          | destroyed => exact Or.inl ⟨_, rfl, rfl⟩
          | live filters => exact Or.inr (Or.inr ⟨_, _, rfl, rfl, rfl, rfl, rfl⟩)

/-- `_scan_queue` reads nothing that it has not written. -/
theorem scanQueue_blank (inputs : ScanInputs) (cmd : BackendCommand) (scanType : ScanAction)
    (deleteAction : DeleteAction) (s : AccountsSt) :
    observe (scanQueue inputs cmd scanType deleteAction s) =
      observe (scanQueue inputs.blank cmd scanType deleteAction s) := by
  unfold scanQueue ScanInputs.blank
  cases dictionaryGet (some s) (some cmd.account) with
  | none => rfl
  | some account =>
      simp only
      cases dictionaryGet account.data (some cmd.queue) with
      | none => rfl
      | some queue =>
          simp only
          cases scanAttributes inputs.time cmd.attributes with
          | error e => rfl
          | ok deadlines =>
              rcases processFilter_blank inputs.outFilters cmd.filters with
                ⟨e, he, he'⟩ | ⟨hnone, hnone'⟩ | ⟨out, out', hout, hout', hm, hl, hh⟩
              · simp only [he, he']
              · simp only [hnone, hnone']
              · simp only [hout, hout', hm, hl, hh]
                split
                · next iterator queues messages _ _ _ =>
                    rcases observe_eq_cases (scanLoop_observed
                        { scanType := scanType
                          deleteAction := deleteAction
                          currentTime := inputs.time
                          attributesTtl := deadlines.1
                          attributesHide := deadlines.2
                          matchHidden := out'.matchHidden }
                        -- the loop writes the times of a message before it reports
                        -- them, and so the first values are lost
                        (iterator.nodes.take iterator.length) inputs.referenceAttributes default
                        messages) with
                      ⟨e, he, he'⟩ | ⟨a, callbacks, callbacks', hok, hok', hcallbacks⟩
                    · rw [he, he']
                    · rw [hok, hok']
                      simp only [observe_ok, hcallbacks]
                · rfl

theorem scanCommand_blank (scanType : ScanAction) (inputs : ScanInputs) (cmd : BackendCommand)
    (s : AccountsSt) :
    Outcome.observe (scanCommand scanType inputs cmd s) =
      Outcome.observe (scanCommand scanType inputs.blank cmd s) := by
  unfold scanCommand
  rcases observe_eq_cases (scanQueue_blank inputs cmd scanType .report s) with
    ⟨e, he, he'⟩ | ⟨a, callbacks, callbacks', hok, hok', hcallbacks⟩
  · rw [he, he']
  · rw [hok, hok']
    simp only [Outcome.observe, Except.map, hcallbacks]

/-! ## Listings -/

theorem listCommand_blank {α : Type} (inputs : ListInputs) (cmd : BackendCommand)
    (d : Dictionary α) (callback : String → Callback) (s : AccountsSt) :
    listCommand inputs cmd d callback s = listCommand inputs.blank cmd d callback s := by
  unfold listCommand ListInputs.blank
  rcases processFilter_blank inputs.outFilters cmd.filters with
    ⟨e, he, he'⟩ | ⟨hnone, hnone'⟩ | ⟨out, out', hout, hout', hm, hl, -⟩
  · simp only [he, he']
  · simp only [hnone, hnone']
  · simp only [hout, hout', hm, hl]

/-! ## Erase commands -/

/-- Two commands whose filters ask for the same. -/
def SameFilters (cmd cmd' : BackendCommand) : Prop :=
  ∀ block, processFilter block cmd.filters = processFilter block cmd'.filters

/-- The filters of an erase command ask for nothing, whatever their block held. -/
theorem processFilter_erase {filters : BurrowFilters} (hf : EraseFilters filters)
    (block : Option BurrowFilters) :
    processFilter block (some (.live filters)) = processFilter block none := by
  obtain ⟨hm, hl, hh⟩ := hf
  cases block with
  | none => rfl
  | some block => simp [processFilter, hm, hl, hh]

theorem sameFilters_erase {filters filters' : BurrowFilters} (hf : EraseFilters filters)
    (hf' : EraseFilters filters') {cmd cmd' : BackendCommand}
    (hcmd : cmd.filters = some (.live filters)) (hcmd' : cmd'.filters = some (.live filters')) :
    SameFilters cmd cmd' := by
  intro block
  rw [hcmd, hcmd', processFilter_erase hf, processFilter_erase hf']

/-- `_scan_queue` reads four fields of its command. -/
theorem scanQueue_congr {cmd cmd' : BackendCommand} (ha : cmd.account = cmd'.account)
    (hq : cmd.queue = cmd'.queue) (hattr : cmd.attributes = cmd'.attributes)
    (hfilters : SameFilters cmd cmd') (inputs : ScanInputs) (scanType : ScanAction)
    (deleteAction : DeleteAction) (s : AccountsSt) :
    scanQueue inputs cmd scanType deleteAction s =
      scanQueue inputs cmd' scanType deleteAction s := by
  unfold scanQueue
  simp only [ha, hq, hattr, hfilters inputs.outFilters]

theorem deleteQueuesLoop_blank {eraseCmd eraseCmd' : BackendCommand}
    (ha : eraseCmd.account = eraseCmd'.account)
    (hattr : eraseCmd.attributes = eraseCmd'.attributes)
    (hfilters : SameFilters eraseCmd eraseCmd') (scan : Nat → ScanInputs) (names : List String)
    (i : Nat) (s : AccountsSt) :
    observe (deleteQueuesLoop scan eraseCmd names i s) =
      observe (deleteQueuesLoop (fun i => (scan i).blank) eraseCmd' names i s) := by
  induction names generalizing i s with
  | nil => rfl
  | cons name rest ih =>
      have hscan := scanQueue_blank (scan i) { eraseCmd with queue := name } .delete .ignore s
      rw [@scanQueue_congr { eraseCmd with queue := name } { eraseCmd' with queue := name } ha rfl
        hattr hfilters (scan i).blank] at hscan
      simp only [deleteQueuesLoop]
      rcases observe_eq_cases hscan with
        ⟨e, he, he'⟩ | ⟨s₁, callbacks, callbacks', hok, hok', hcallbacks⟩
      · rw [he, he']
      · rw [hok, hok']
        simp only
        rcases observe_eq_cases (ih (i + 1) s₁) with
          ⟨e, he, he'⟩ | ⟨s₂, rest₁, rest₂, hrest, hrest', heq⟩
        · rw [he, he']
        · rw [hrest, hrest']
          simp only [observe_ok, List.map_append, hcallbacks, heq]

/-- The frame of the two deleting commands. -/
theorem eraseCommand_blank {α : Type} {cmd cmd' : BackendCommand} (hfilters : SameFilters cmd cmd')
    {walk walk' :
      BackendCommand → List String → AccountsSt → Except Fault (AccountsSt × List Callback)}
    (hwalk : ∀ filters filters' eraseCmd eraseCmd' : _, EraseFilters filters →
      EraseFilters filters' → eraseCmd.filters = some (.live filters) →
      eraseCmd'.filters = some (.live filters') → ∀ names s,
      observe (walk eraseCmd names s) = observe (walk' eraseCmd' names s))
    (inputs : EraseInputs) (d : Dictionary α) (s : AccountsSt) :
    Outcome.observe (eraseCommand inputs cmd d walk s) =
      Outcome.observe (eraseCommand inputs.blank cmd' d walk' s) := by
  unfold eraseCommand EraseInputs.blank ListInputs.blank
  rw [hfilters inputs.outFilters]
  rcases processFilter_blank inputs.outFilters cmd'.filters with
    ⟨e, he, he'⟩ | ⟨hnone, hnone'⟩ | ⟨out, out', hout, hout', hm, hl, -⟩
  · simp only [he, he']
  · simp only [hnone, hnone']
  · simp only [hout, hout', hm, hl]
    -- `erase_cmd` comes from `malloc` as well, and its filters are set before they are
    -- read
    cases inputs.eraseCmd with
    | none =>
        simp only [Option.map_none]
        cases dictionaryIter inputs.iter (some d) out'.marker out'.limit.toNat <;> rfl
    | some block =>
        cases inputs.eraseFilters with
        | none =>
            simp only [Option.map_none, Option.map_some, processFilter]
            cases dictionaryIter inputs.iter (some d) out'.marker out'.limit.toNat <;> rfl
        | some filtersBlock =>
            cases dictionaryIter inputs.iter (some d) out'.marker out'.limit.toNat with
            | none => rfl
            | some iterator =>
                obtain ⟨filters, hprocess, hf⟩ :=
                  processFilter_none (show some filtersBlock ≠ none by simp)
                obtain ⟨filters', hprocess', hf'⟩ :=
                  processFilter_none (show some (default : BurrowFilters) ≠ none by simp)
                simp only [Option.map_some, hprocess, hprocess']
                rcases observe_eq_cases (hwalk filters filters'
                    { block with filters := some (.live filters) }
                    { (default : BackendCommand) with filters := some (.live filters') } hf hf'
                    rfl rfl ((iterator.nodes.take iterator.length).map DictionaryNode.key) s) with
                  ⟨e, he, he'⟩ | ⟨a, callbacks, callbacks', hok, hok', hcallbacks⟩
                · rw [he, he']
                · rw [hok, hok']
                  simp only [Outcome.observe, Except.map, hcallbacks]

theorem deleteQueues_blank {cmd cmd' : BackendCommand} (ha : cmd.account = cmd'.account)
    (hfilters : SameFilters cmd cmd') (inputs : DeleteQueuesInputs) (s : AccountsSt) :
    Outcome.observe (burrowBackendMemoryDeleteQueues inputs cmd s) =
      Outcome.observe (burrowBackendMemoryDeleteQueues inputs.blank cmd' s) := by
  unfold burrowBackendMemoryDeleteQueues withQueues
  rw [ha]
  split
  · rfl
  · split
    · rfl
    · refine eraseCommand_blank hfilters
        (fun filters filters' eraseCmd eraseCmd' hf hf' hcmd hcmd' names s => ?_) _ _ s
      exact @deleteQueuesLoop_blank
        { eraseCmd with attributes := none, account := cmd'.account }
        { eraseCmd' with attributes := none, account := cmd'.account } rfl rfl
        (sameFilters_erase hf hf' hcmd hcmd') inputs.scan names 0 s

theorem deleteAccountsLoop_blank {eraseCmd eraseCmd' : BackendCommand}
    (hfilters : SameFilters eraseCmd eraseCmd') (deleteQueues : Nat → DeleteQueuesInputs)
    (names : List String) (i : Nat) (s : AccountsSt) :
    observe (deleteAccountsLoop deleteQueues eraseCmd names i s) =
      observe (deleteAccountsLoop (fun i => (deleteQueues i).blank) eraseCmd' names i s) := by
  induction names generalizing i s with
  | nil => rfl
  | cons name rest ih =>
      have hqueues := @deleteQueues_blank { eraseCmd with account := name }
        { eraseCmd' with account := name } rfl hfilters (deleteQueues i) s
      simp only [deleteAccountsLoop]
      rcases Outcome.observe_eq_cases hqueues with
        ⟨e, he, he'⟩ | ⟨o, o', hok, hok', hs, hcallbacks, -⟩
      · rw [he, he']
      · rw [hok, hok']
        simp only [← hs]
        rcases observe_eq_cases (ih (i + 1) o.accounts) with
          ⟨e, he, he'⟩ | ⟨s₂, rest₁, rest₂, hrest, hrest', heq⟩
        · rw [he, he']
        · rw [hrest, hrest']
          simp only [observe_ok, List.map_append, hcallbacks, heq]

theorem deleteAccounts_blank (inputs : DeleteAccountsInputs) (cmd : BackendCommand)
    (s : AccountsSt) :
    Outcome.observe (burrowBackendMemoryDeleteAccounts inputs cmd s) =
      Outcome.observe (burrowBackendMemoryDeleteAccounts inputs.blank cmd s) :=
  eraseCommand_blank (fun _ => rfl)
    (fun _ _ _ _ hf hf' hcmd hcmd' names s =>
      deleteAccountsLoop_blank (sameFilters_erase hf hf' hcmd hcmd') inputs.deleteQueues names 0 s)
    _ _ s

/-! ## Commands on one message -/

/-- A new message is written as a whole. -/
theorem createMessage_blank (inputs : CreateInputs) (cmd : BackendCommand) (s : AccountsSt) :
    burrowBackendMemoryCreateMessage inputs cmd s =
      burrowBackendMemoryCreateMessage inputs.blank cmd s := by
  have hblocks : inputs.blank.BlocksSucceed ↔ inputs.BlocksSucceed := by
    unfold CreateInputs.BlocksSucceed CreateInputs.blank
    simp
  by_cases h : inputs.BlocksSucceed
  · rw [createMessage_eq h, createMessage_eq (hblocks.2 h)]
    rfl
  · rw [createMessage_of_not_blocksSucceed h, createMessage_of_not_blocksSucceed (mt hblocks.1 h)]

/-- The command is one that hands its user the attributes of a single message,
and finds one. -/
def FindsMessage (r : Request) (s : AccountsSt) : Prop :=
  (r.name = .getMessage ∨ r.name = .updateMessage ∨ r.name = .deleteMessage) ∧
    ∃ m, (view s).find r.cmd = some m ∧ ¬ m.Expired r.inputs.message.time

section Single

variable {holes : Prop} {s : AccountsSt} {cmd : BackendCommand}

/-- What a command finds when there is no message that has not expired. -/
theorem findMessage_of_not_finds (h : StoreOk holes s) {now : UInt32}
    (hno : ¬ ∃ m, (view s).find cmd = some m ∧ ¬ m.Expired now) :
    findMessage s cmd = none ∨
      ∃ found, findMessage s cmd = some found ∧ found.message.ttl ≤ now := by
  rcases findMessage_cases h cmd with ⟨hnone, -⟩ | ⟨queues, messages, m, hsome, -, hfind⟩
  · exact Or.inl hnone
  · right
    refine ⟨_, hsome, ?_⟩
    by_contra he
    exact hno ⟨m, hfind, he⟩

/-- Without such a message the attributes are not handed to anybody. -/
theorem message_blank (h : StoreOk holes s) {inputs : MessageInputs}
    (hno : ¬ ∃ m, (view s).find cmd = some m ∧ ¬ m.Expired inputs.time) :
    burrowBackendMemoryGetMessage inputs cmd s =
        burrowBackendMemoryGetMessage inputs.blank cmd s ∧
      burrowBackendMemoryUpdateMessage inputs cmd s =
        burrowBackendMemoryUpdateMessage inputs.blank cmd s ∧
      burrowBackendMemoryDeleteMessage inputs cmd s =
        burrowBackendMemoryDeleteMessage inputs.blank cmd s := by
  unfold burrowBackendMemoryGetMessage burrowBackendMemoryUpdateMessage
    burrowBackendMemoryDeleteMessage MessageInputs.blank
  rcases findMessage_of_not_finds h hno with hnone | ⟨found, hsome, he⟩
  · simp only [hnone, and_self]
  · simp only [hsome, he, if_true, UInt32.not_lt.2 he, if_false, and_self]

/-- Without such a message there is no callback. -/
theorem message_callbacks_of_not_finds (h : StoreOk holes s) {r : Request}
    (hname : r.name = .getMessage ∨ r.name = .updateMessage ∨ r.name = .deleteMessage)
    (hno : ¬ FindsMessage r s) {o : Outcome} (hrun : execute r.inputs r.name r.cmd s = .ok o) :
    o.callbacks = [] := by
  have hfind := findMessage_of_not_finds h fun hm => hno ⟨hname, hm⟩
  obtain ⟨inputs, name, cmd⟩ := r
  dsimp only at *
  rcases hname with rfl | rfl | rfl
  · rw [show execute inputs .getMessage cmd s = burrowBackendMemoryGetMessage inputs.message cmd s
      from rfl, burrowBackendMemoryGetMessage] at hrun
    rcases hfind with hnone | ⟨found, hsome, he⟩
    · rw [hnone] at hrun
      cases hrun
      rfl
    · simp only [hsome, if_pos he, reduceCtorEq] at hrun
  · rw [show execute inputs .updateMessage cmd s =
      burrowBackendMemoryUpdateMessage inputs.message cmd s from rfl,
      burrowBackendMemoryUpdateMessage] at hrun
    rcases hfind with hnone | ⟨found, hsome, he⟩
    · rw [hnone] at hrun
      cases hrun
      rfl
    · simp only [hsome, if_pos he] at hrun
      cases hrun
      rfl
  · rw [show execute inputs .deleteMessage cmd s =
      burrowBackendMemoryDeleteMessage inputs.message cmd s from rfl,
      burrowBackendMemoryDeleteMessage] at hrun
    rcases hfind with hnone | ⟨found, hsome, he⟩
    · rw [hnone] at hrun
      cases hrun
      rfl
    · simp only [hsome, if_neg (UInt32.not_lt.2 he)] at hrun
      cases hrun
      rfl

/-- A message that is found is reported with whatever the attributes held. -/
theorem isset_of_findsMessage (h : StoreOk holes s) {r : Request} (hlive : r.cmd.IsLive)
    (hfinds : FindsMessage r s) (attributes : BurrowAttributes) :
    ∃ o, execute { r.inputs with message := { r.inputs.message with attributes := attributes } }
        r.name r.cmd s = .ok o ∧
      o.callbacks.map Callback.isset? =
        [some (burrowAttributesIssetTtl attributes, burrowAttributesIssetHide attributes)] := by
  obtain ⟨inputs, name, cmd⟩ := r
  obtain ⟨hname, m, hm, he⟩ := hfinds
  have hne : ¬ m.ttl ≤ inputs.message.time := he
  dsimp only at *
  rcases findMessage_cases h cmd with ⟨-, hfind⟩ | ⟨queues, messages, m', hsome, -, hfind⟩
  · rw [hfind] at hm
    exact absurd hm (by simp)
  · rw [hfind, Option.some.injEq] at hm
    subst hm
    rcases hname with rfl | rfl | rfl
    · show ∃ o, burrowBackendMemoryGetMessage ⟨_, attributes⟩ cmd s = .ok o ∧ _
      simp only [burrowBackendMemoryGetMessage, hsome, if_neg hne]
      exact ⟨_, rfl, rfl⟩
    · show ∃ o, burrowBackendMemoryUpdateMessage ⟨_, attributes⟩ cmd s = .ok o ∧ _
      obtain ⟨deadlines, hok⟩ :=
        (updateAttributes_reads inputs.message.time cmd.attributes).ok hlive.2
      simp only [burrowBackendMemoryUpdateMessage, hsome, if_neg hne, hok]
      exact ⟨_, rfl, rfl⟩
    · show ∃ o, burrowBackendMemoryDeleteMessage ⟨_, attributes⟩ cmd s = .ok o ∧ _
      simp only [burrowBackendMemoryDeleteMessage, hsome,
        if_pos (show m'.ttl > inputs.message.time from UInt32.not_le.1 hne)]
      exact ⟨_, rfl, rfl⟩

end Single

/-! ## Every command -/

/-- What a command that finds no message does is the same on blank memory. -/
theorem execute_blank {holes : Prop} {s : AccountsSt} (h : StoreOk holes s) {r : Request}
    (hno : ¬ FindsMessage r s) :
    Outcome.observe (execute r.inputs r.name r.cmd s) =
      Outcome.observe (execute r.inputs.blank r.name r.cmd s) := by
  obtain ⟨inputs, name, cmd⟩ := r
  cases name with
  | getAccounts => exact congrArg Outcome.observe (listCommand_blank inputs.list cmd s .account s)
  | getQueues =>
      refine congrArg Outcome.observe ?_
      show burrowBackendMemoryGetQueues inputs.list cmd s =
        burrowBackendMemoryGetQueues inputs.list.blank cmd s
      unfold burrowBackendMemoryGetQueues
      congr 1
      funext queues
      exact listCommand_blank inputs.list cmd queues .queue s
  | deleteAccounts => exact deleteAccounts_blank inputs.deleteAccounts cmd s
  | deleteQueues => exact deleteQueues_blank rfl (fun _ => rfl) inputs.deleteQueues s
  | getMessages => exact scanCommand_blank .get inputs.scan cmd s
  | updateMessages => exact scanCommand_blank .update inputs.scan cmd s
  | deleteMessages => exact scanCommand_blank .delete inputs.scan cmd s
  | createMessage => exact congrArg Outcome.observe (createMessage_blank inputs.create cmd s)
  | getMessage =>
      exact congrArg Outcome.observe (message_blank h fun hm => hno ⟨Or.inl rfl, hm⟩).1
  | updateMessage =>
      exact congrArg Outcome.observe (message_blank h fun hm => hno ⟨Or.inr (Or.inl rfl), hm⟩).2.1
  | deleteMessage =>
      exact congrArg Outcome.observe (message_blank h fun hm => hno ⟨Or.inr (Or.inr rfl), hm⟩).2.2

/-- Its message callbacks say that they hold a ttl and a hide time. -/
theorem execute_timesSet {holes : Prop} {s : AccountsSt} (h : StoreOk holes s) {r : Request}
    (hno : ¬ FindsMessage r s) {o : Outcome} (hrun : execute r.inputs r.name r.cmd s = .ok o) :
    ∀ c ∈ o.callbacks, c.TimesSet := by
  have hnil : o.callbacks = [] → ∀ c ∈ o.callbacks, c.TimesSet := fun heq c hc =>
    absurd (heq ▸ hc) List.not_mem_nil
  have hscan : ∀ {scanType inputs cmd}, scanCommand scanType inputs cmd s = .ok o →
      ∀ c ∈ o.callbacks, c.TimesSet :=
    scanCommand_callbacks (I := fun _ => True)
      (fun _ _ _ _ => ⟨trivial, timesSet_messageCallback _ _ _⟩) trivial
  obtain ⟨inputs, name, cmd⟩ := r
  cases name with
  | getAccounts => exact listCommand_callbacks (fun _ => timesSet_of_none rfl) hrun
  | getQueues => exact getQueues_callbacks h (fun _ => timesSet_of_none rfl) hrun
  | deleteAccounts => exact hnil (deleteAccounts_spec h hrun).1.2.1
  | deleteQueues => exact hnil (deleteQueues_spec h hrun).1.2.1
  | getMessages => exact hscan hrun
  | updateMessages => exact hscan hrun
  | deleteMessages => exact hscan hrun
  | createMessage => exact hnil (createMessage_spec h hrun).1
  | getMessage => exact hnil (message_callbacks_of_not_finds h (Or.inl rfl) hno hrun)
  | updateMessage => exact hnil (message_callbacks_of_not_finds h (Or.inr (Or.inl rfl)) hno hrun)
  | deleteMessage => exact hnil (message_callbacks_of_not_finds h (Or.inr (Or.inr rfl)) hno hrun)

/-- **When results do not depend on unwritten memory.** Whatever that memory
holds, a command leaves the same store, returns the same code and makes the same
callbacks, all with their times set, exactly when it is not a `get_message`,
`update_message` or `delete_message` that finds a message. -/
theorem independent_of_unwritten {s : AccountsSt} (hs : Reachable s) {r : Request}
    (hlive : r.cmd.IsLive) :
    (∀ inputs : Inputs, inputs.blank = r.inputs.blank →
        Outcome.observe (execute inputs r.name r.cmd s) =
            Outcome.observe (execute r.inputs r.name r.cmd s) ∧
          ∀ o, execute inputs r.name r.cmd s = .ok o → ∀ c ∈ o.callbacks, c.TimesSet) ↔
      ¬ FindsMessage r s := by
  have h := hs.storeOk
  constructor
  · intro hsame hfinds
    obtain ⟨o, hrun, hisset⟩ := isset_of_findsMessage h hlive hfinds default
    have hset := (hsame { r.inputs with message := { r.inputs.message with attributes := default } }
      rfl).2 o hrun
    obtain ⟨c, rest, hcallbacks, hc, -⟩ := List.map_eq_cons_iff.1 hisset
    have hflags := hset c (hcallbacks ▸ List.mem_cons_self) _ hc
    exact absurd hflags (by decide)
  · intro hno inputs hblank
    have htime : inputs.message.time = r.inputs.message.time := by
      have hmessage := congrArg (fun i : Inputs => i.message.time) hblank
      exact hmessage
    have hno' : ¬ FindsMessage { r with inputs := inputs } s := by
      rintro ⟨hname, m, hm, he⟩
      exact hno ⟨hname, m, hm, htime ▸ he⟩
    refine ⟨?_, fun o hrun => execute_timesSet h hno' hrun⟩
    have hleft := execute_blank h hno'
    have hright := execute_blank h hno
    dsimp only at hleft
    rw [hleft, hblank, hright]

/-- A `get_messages` reports both times as set, whatever its attributes structure
held before. -/
theorem independent_of_unwritten_scan :
    Outcome.observe (execute
        { ampleInputs 20 with
          scan :=
            { (ampleInputs 20).scan with
                referenceAttributes := { set := 0, ttl := 7, hide := 7 } } }
        .getMessages (plainCommand "a" "q" "" [])
        (singleStore "a" "q" (createdMessage 10 (plainCommand "a" "q" "m" [1])))) =
      .ok (singleStore "a" "q" (createdMessage 10 (plainCommand "a" "q" "m" [1])),
        [(.message "m" [1] 1 290 0, some (true, true))], 0) := by
  have hs : Reachable (singleStore "a" "q" (createdMessage 10 (plainCommand "a" "q" "m" [1]))) :=
    (reachableWithMemory_of_create 10 (plainCommand "a" "q" "m" [1]) rfl).reachable
  have hsame := (@independent_of_unwritten _ hs
    { inputs := ampleInputs 20, name := .getMessages, cmd := plainCommand "a" "q" "" [] }
    (plainCommand_isLive _ _ _ _)).2 (fun hfinds => absurd hfinds.1 (by decide))
    { ampleInputs 20 with
      scan :=
        { (ampleInputs 20).scan with
            referenceAttributes := { set := 0, ttl := 7, hide := 7 } } } rfl
  exact hsame.1.trans rfl

/-- What `isset_ttl` says of the attributes that `get_message` reports was on the
stack before the call. -/
theorem getMessage_reads_unwritten :
    ¬ ∀ (s : AccountsSt) (inputs inputs' : Inputs) (name : CommandName) (cmd : BackendCommand),
      ReachableWithMemory s → cmd.IsLive → inputs.blank = inputs'.blank →
      Outcome.observe (execute inputs name cmd s) =
        Outcome.observe (execute inputs' name cmd s) := by
  intro h
  have hs : ReachableWithMemory
      (singleStore "a" "q" (createdMessage 10 (plainCommand "a" "q" "m" [1]))) :=
    reachableWithMemory_of_create 10 (plainCommand "a" "q" "m" [1]) rfl
  have hsame := h _ (ampleInputs 20)
    { ampleInputs 20 with
        message := { time := 20, attributes := { set := 3, ttl := 0, hide := 0 } } }
    .getMessage (plainCommand "a" "q" "m" []) hs (plainCommand_isLive _ _ _ _) rfl
  have hflags := congrArg (fun x => x.toOption.map fun r => r.2.1.map Prod.snd) hsame
  exact absurd hflags (by decide)

end Burrow.Memory
