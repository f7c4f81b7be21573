import Burrow.Memory.Store

/-!
# What the commands on a queue are for

The purpose of the memory backend, stated on the broker and without its lists of
nodes. A message is stored until its ttl runs out and is offered to readers
unless it is hidden. A command on the messages of a queue looks at a window of
the queue, the rows from the marker on up to the limit; it drops the messages in
it that have expired, passes over those it does not select, and does its action
to the rest: `scanEffect` on the stored message, `scanReport` towards the user.

`Report` is what the user learns from a callback: for a message its id, its body
and the times read from the attributes argument.
-/

set_option autoImplicit false

/-! ## What a command asks for -/

namespace Burrow

/-- The value behind a pointer that can be read. -/
def Object.value? {α : Type} : Object α → Option α
  | .live value => some value
  | .destroyed => none

namespace BackendCommand

variable (cmd : BackendCommand)

/-- The filters of a command. -/
def filters? : Option BurrowFilters := cmd.filters.bind Object.value?

/-- The attributes of a command. -/
def attributes? : Option BurrowAttributes := cmd.attributes.bind Object.value?

/-- Where the window of a command starts. -/
def marker : Option String := cmd.filters?.bind BurrowFilters.marker

/-- The length of the window of a command; `0` stands for no limit. -/
def limit : Nat :=
  match cmd.filters? with
  | none => 0
  | some filters => if burrowFiltersIssetLimit filters then filters.limit.toNat else 0

/-- Whether a command asks for hidden messages too. -/
def matchHidden : Bool :=
  match cmd.filters? with
  | none => false
  | some filters => burrowFiltersIssetMatchHidden filters && filters.matchHidden

/-- The ttl a command sets. -/
def ttl? : Option UInt32 :=
  match cmd.attributes? with
  | none => none
  | some attributes =>
      if burrowAttributesIssetTtl attributes then some (burrowAttributesGetTtl attributes) else none

/-- The hide time a command sets. -/
def hide? : Option UInt32 :=
  match cmd.attributes? with
  | none => none
  | some attributes =>
      if burrowAttributesIssetHide attributes then some (burrowAttributesGetHide attributes)
      else none

end BackendCommand

end Burrow

namespace Burrow.Memory

open KeyedList

/-! ## Messages at a time -/

/-- The ttl of the message has run out. -/
def BurrowMessage.Expired (now : UInt32) (m : BurrowMessage) : Prop := m.ttl ≤ now

/-- The message is hidden from readers that do not ask for hidden ones. -/
def BurrowMessage.Hidden (now : UInt32) (m : BurrowMessage) : Prop := now < m.hide

/-- The message is one a reader gets. -/
def BurrowMessage.Selected (now : UInt32) (matchHidden : Bool) (m : BurrowMessage) : Prop :=
  ¬ m.Expired now ∧ (m.Hidden now → matchHidden = true)

instance (now : UInt32) (m : BurrowMessage) : Decidable (m.Expired now) :=
  inferInstanceAs (Decidable (m.ttl ≤ now))

instance (now : UInt32) (m : BurrowMessage) : Decidable (m.Hidden now) :=
  inferInstanceAs (Decidable (now < m.hide))

instance (now : UInt32) (matchHidden : Bool) (m : BurrowMessage) :
    Decidable (m.Selected now matchHidden) :=
  inferInstanceAs (Decidable (_ ∧ _))

/-! ## Reports -/

/-- What the user learns from a callback. -/
inductive Report where
  | message (messageId : String) (body : List UInt8) (bodySize : Nat) (ttl hide : UInt32)
  | queue (queue : String)
  | account (account : String)
deriving DecidableEq, Repr

def Callback.report : Callback → Report
  | .message messageId body bodySize attributes =>
      .message messageId body bodySize (burrowAttributesGetTtl attributes)
        (burrowAttributesGetHide attributes)
  | .queue name => .queue name
  | .account name => .account name

/-- A stored message with its remaining times. -/
def BurrowMessage.report (now : UInt32) (m : BurrowMessage) : Report :=
  .message m.messageId m.body m.bodySize (m.ttl - now) (if now < m.hide then m.hide - now else 0)

theorem report_messageCallback_reportTimes (now : UInt32) (m : BurrowMessage)
    (attributes : BurrowAttributes) :
    (messageCallback m (reportTimes now m attributes)).report = m.report now := rfl

@[simp] theorem messageId_applyDeadlines (ttl hide : UInt32) (m : BurrowMessage) :
    (applyDeadlines ttl hide m).messageId = m.messageId := rfl

/-! ## Scans -/

/-- What a scan leaves of a message in its window. -/
def scanEffect (locals : ScanLocals) (m : BurrowMessage) : Option BurrowMessage :=
  if m.Expired locals.currentTime then none
  else if m.Selected locals.currentTime locals.matchHidden then
    match locals.scanType with
    | .update => some (applyDeadlines locals.attributesTtl locals.attributesHide m)
    | .get => some m
    | .delete => none
  else some m

/-- What a scan tells the user about a message in its window. -/
def scanReport (locals : ScanLocals) (m : BurrowMessage) : Option Report :=
  if m.Selected locals.currentTime locals.matchHidden then
    match locals.scanType, locals.deleteAction with
    | .update, _ =>
        some ((applyDeadlines locals.attributesTtl locals.attributesHide m).report
          locals.currentTime)
    | .delete, .ignore => none
    | _, _ => some (m.report locals.currentTime)
  else none

theorem scanEffect_of_expired {locals : ScanLocals} {m : BurrowMessage}
    (h : m.Expired locals.currentTime) : scanEffect locals m = none := if_pos h

theorem scanEffect_of_not_selected {locals : ScanLocals} {m : BurrowMessage}
    (he : ¬ m.Expired locals.currentTime)
    (hs : ¬ m.Selected locals.currentTime locals.matchHidden) : scanEffect locals m = some m := by
  rw [scanEffect, if_neg he, if_neg hs]

theorem scanEffect_of_selected {locals : ScanLocals} {m : BurrowMessage}
    (hs : m.Selected locals.currentTime locals.matchHidden) :
    scanEffect locals m =
      match locals.scanType with
      | .update => some (applyDeadlines locals.attributesTtl locals.attributesHide m)
      | .get => some m
      | .delete => none := by
  rw [scanEffect, if_neg hs.1, if_pos hs]

theorem scanReport_of_not_selected {locals : ScanLocals} {m : BurrowMessage}
    (hs : ¬ m.Selected locals.currentTime locals.matchHidden) : scanReport locals m = none :=
  if_neg hs

/-- A scan changes the times of a message at most. -/
theorem messageId_scanEffect {locals : ScanLocals} {m m' : BurrowMessage}
    (h : scanEffect locals m = some m') : m'.messageId = m.messageId := by
  unfold scanEffect at h
  split at h
  · exact absurd h (by simp)
  · split at h
    · cases ht : locals.scanType with
      | update =>
          rw [ht] at h
          cases h
          rfl
      | get =>
          rw [ht] at h
          cases h
          rfl
      | delete =>
          rw [ht] at h
          exact absurd h (by simp)
    · cases h
      rfl

/-- A scan leaves the ids of a queue distinct. -/
theorem nodup_mapWindow {l : List BurrowMessage} (h : (l.map BurrowMessage.messageId).Nodup)
    (marker : Option String) (limit : Nat) (locals : ScanLocals) :
    ((mapWindow BurrowMessage.messageId marker limit (scanEffect locals) l).map
      BurrowMessage.messageId).Nodup :=
  h.sublist (map_mapWindow_sublist _ (fun _ _ => messageId_scanEffect) marker limit l)

/-- The deadline a command sets with a duration; `0` where it gives none. -/
def deadline (now : UInt32) : Option UInt32 → UInt32
  | none => 0
  | some duration => duration + now

/-- What the loop of `_scan_queue` works with. -/
def scanLocals (cmd : BackendCommand) (scanType : ScanAction) (deleteAction : DeleteAction)
    (now : UInt32) : ScanLocals :=
  { scanType := scanType
    deleteAction := deleteAction
    currentTime := now
    attributesTtl := deadline now cmd.ttl?
    attributesHide := deadline now cmd.hide?
    matchHidden := cmd.matchHidden }

/-- The messages of a queue that a command looks at. -/
def Broker.messageWindow (b : Broker) (cmd : BackendCommand) : List BurrowMessage :=
  window BurrowMessage.messageId cmd.marker cmd.limit (b.rows cmd.account cmd.queue)

/-- The broker after a scan. -/
def Broker.scan (b : Broker) (cmd : BackendCommand) (locals : ScanLocals) : Broker :=
  b.modifyRows cmd.account cmd.queue
    (mapWindow BurrowMessage.messageId cmd.marker cmd.limit (scanEffect locals))

/-- The reports of a scan. -/
def Broker.scanned (b : Broker) (cmd : BackendCommand) (locals : ScanLocals) : List Report :=
  (b.messageWindow cmd).filterMap (scanReport locals)

/-- The broker moves as the scan says, or stays where it is because something failed. -/
def Broker.ScanStep (b : Broker) (cmd : BackendCommand) (locals : ScanLocals) (failed : Prop)
    (b' : Broker) (reports : List Report) : Prop :=
  b' = b.scan cmd locals ∧ reports = b.scanned cmd locals ∨ failed ∧ b' = b ∧ reports = []

theorem Broker.ScanStep.mono {b b' : Broker} {cmd : BackendCommand} {locals : ScanLocals}
    {failed failed' : Prop} {reports : List Report} (himp : failed → failed')
    (h : b.ScanStep cmd locals failed b' reports) : b.ScanStep cmd locals failed' b' reports := by
  rcases h with h | ⟨hfailed, h⟩
  · exact Or.inl h
  · exact Or.inr ⟨himp hfailed, h⟩

/-- A scan of a queue that has no messages does nothing. -/
theorem Broker.scanStep_of_rows_eq_nil {b : Broker} {cmd : BackendCommand}
    (h : b.rows cmd.account cmd.queue = []) (locals : ScanLocals) (failed : Prop) :
    b.ScanStep cmd locals failed b [] := by
  refine Or.inl ⟨?_, ?_⟩
  · rw [Broker.scan, Directory.modifyRows, h]
    rfl
  · rw [Broker.scanned, Broker.messageWindow, h, window_nil]
    rfl

/-! ## Answers -/

/-- What a command comes to on the broker. -/
structure Answer where
  broker : Broker
  reports : List Report
  result : Int

/-- An outcome without the dictionaries and the attributes structures. -/
def Outcome.answer (o : Outcome) : Answer :=
  { broker := view o.accounts, reports := o.callbacks.map Callback.report, result := o.result }

end Burrow.Memory
