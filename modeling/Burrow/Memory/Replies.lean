import Burrow.Memory.Runs

/-!
# From reports to callbacks

A report leaves out the `set` field of the attributes that a message callback
gets. Within one command that field is the same in all callbacks: the scans set
both bits of what their structure held before, and the commands on one message do
not write it. So the reports of a command, which the broker decides, decide its
callbacks.
-/

set_option autoImplicit false

namespace Burrow.Memory

/-! ## The set field -/

/-- The `set` field of the attributes of a message callback. -/
def Callback.set? : Callback → Option UInt32
  | .message _ _ _ attributes => some attributes.set
  | _ => none

/-- The `set` field after a scan has written both times. -/
def timesSet (reference : BurrowAttributes) : UInt32 :=
  reference.set ||| burrowAttributesTtl ||| burrowAttributesHide

/-- The callback holds this `set` field, if it is about a message. -/
def Callback.Sets (set : UInt32) (c : Callback) : Prop := ∀ flags, c.set? = some flags → flags = set

theorem sets_nil (set : UInt32) : ∀ c ∈ ([] : List Callback), c.Sets set :=
  fun _ hc => absurd hc List.not_mem_nil

theorem sets_of_none {set : UInt32} {c : Callback} (h : c.set? = none) : c.Sets set := by
  intro flags hflags
  rw [h] at hflags
  exact absurd hflags (by simp)

theorem timesSet_reportTimes (now : UInt32) (m : BurrowMessage) (reference : BurrowAttributes) :
    timesSet (reportTimes now m reference) = timesSet reference := by
  show (reference.set ||| 1 ||| 2) ||| 1 ||| 2 = reference.set ||| 1 ||| 2
  apply UInt32.toBitVec_inj.1
  apply BitVec.eq_of_getLsbD_eq
  intro i hi
  simp only [UInt32.toBitVec_or, BitVec.getLsbD_or]
  grind

theorem sets_reportTimes (now : UInt32) (m : BurrowMessage) (reference : BurrowAttributes) :
    (messageCallback m (reportTimes now m reference)).Sets (timesSet reference) := by
  intro flags hflags
  cases hflags
  rfl

/-- One report and one `set` field make one callback. -/
theorem eq_of_report {set : UInt32} {c c' : Callback} (hreport : c.report = c'.report)
    (hc : c.Sets set) (hc' : c'.Sets set) : c = c' := by
  cases c with
  | message id body size attributes =>
      cases c' with
      | message id' body' size' attributes' =>
          obtain ⟨flags, ttl, hide⟩ := attributes
          obtain ⟨flags', ttl', hide'⟩ := attributes'
          have hflags : flags = set := hc flags rfl
          have hflags' : flags' = set := hc' flags' rfl
          cases hreport
          rw [hflags, hflags']
      | queue name => exact absurd hreport (by simp [Callback.report])
      | account name => exact absurd hreport (by simp [Callback.report])
  | queue name =>
      cases c' with
      | queue name' =>
          cases hreport
          rfl
      | message id' body' size' attributes' => exact absurd hreport (by simp [Callback.report])
      | account name' => exact absurd hreport (by simp [Callback.report])
  | account name =>
      cases c' with
      | account name' =>
          cases hreport
          rfl
      | message id' body' size' attributes' => exact absurd hreport (by simp [Callback.report])
      | queue name' => exact absurd hreport (by simp [Callback.report])

theorem eq_of_map_report {set : UInt32} {l l' : List Callback}
    (hreports : l.map Callback.report = l'.map Callback.report) (hl : ∀ c ∈ l, c.Sets set)
    (hl' : ∀ c ∈ l', c.Sets set) : l = l' := by
  induction l generalizing l' with
  | nil =>
      cases l' with
      | nil => rfl
      | cons c' rest' => exact absurd hreports (by simp)
  | cons c rest ih =>
      cases l' with
      | nil => exact absurd hreports (by simp)
      | cons c' rest' =>
          rw [List.map_cons, List.map_cons, List.cons.injEq] at hreports
          obtain ⟨hhead, htail⟩ := hreports
          have hc : c = c' := eq_of_report hhead (hl c List.mem_cons_self)
            (hl' c' List.mem_cons_self)
          have hrest : rest = rest' := ih htail
            (fun x hx => hl x (List.mem_cons_of_mem _ hx))
            (fun x hx => hl' x (List.mem_cons_of_mem _ hx))
          rw [hc, hrest]

/-! ## Commands -/

/-- The `set` field of a command's message callbacks. -/
def Request.attributesSet (r : Request) : UInt32 :=
  match r.name with
  | .getMessages | .updateMessages | .deleteMessages => timesSet r.inputs.scan.referenceAttributes
  | _ => r.inputs.message.attributes.set

/-- A scan writes both bits before each callback. -/
theorem scanCommand_sets {scanType : ScanAction} {inputs : ScanInputs} {cmd : BackendCommand}
    {s : AccountsSt} {o : Outcome} (h : scanCommand scanType inputs cmd s = .ok o) :
    ∀ c ∈ o.callbacks, c.Sets (timesSet inputs.referenceAttributes) := by
  refine scanCommand_callbacks
    (I := fun reference => timesSet reference = timesSet inputs.referenceAttributes) ?_ rfl h
  intro now m reference hreference
  exact ⟨(timesSet_reportTimes now m reference).trans hreference,
    hreference ▸ sets_reportTimes now m reference⟩

/-- All message callbacks of a command hold the same `set` field. -/
theorem execute_sets {holes : Prop} {s : AccountsSt} (h : StoreOk holes s) {r : Request}
    {o : Outcome} (hrun : execute r.inputs r.name r.cmd s = .ok o) :
    ∀ c ∈ o.callbacks, c.Sets r.attributesSet := by
  obtain ⟨inputs, name, cmd⟩ := r
  have hnil : o.callbacks = [] → ∀ c ∈ o.callbacks, c.Sets inputs.message.attributes.set := by
    intro heq
    rw [heq]
    exact sets_nil _
  have hone : ∀ (m : BurrowMessage) (now : UInt32),
      ∀ c ∈ [messageCallback m (remainingTimes now m inputs.message.attributes)],
        c.Sets inputs.message.attributes.set := by
    intro m now c hc flags hflags
    rw [List.mem_singleton] at hc
    subst hc
    cases hflags
    rfl
  cases name with
  | getAccounts => exact listCommand_callbacks (fun _ => sets_of_none rfl) hrun
  | getQueues => exact getQueues_callbacks h (fun _ => sets_of_none rfl) hrun
  | deleteAccounts => exact hnil (deleteAccounts_spec h hrun).1.2.1
  | deleteQueues => exact hnil (deleteQueues_spec h hrun).1.2.1
  | getMessages => exact scanCommand_sets hrun
  | updateMessages => exact scanCommand_sets hrun
  | deleteMessages => exact scanCommand_sets hrun
  | createMessage => exact hnil (createMessage_spec h hrun).1
  | getMessage =>
      unfold execute burrowBackendMemoryGetMessage at hrun
      dsimp only at hrun
      split at hrun
      · cases hrun
        exact sets_nil _
      · split at hrun
        · exact absurd hrun (by simp)
        · cases hrun
          exact hone _ _
  | updateMessage =>
      unfold execute burrowBackendMemoryUpdateMessage at hrun
      dsimp only at hrun
      split at hrun
      · cases hrun
        exact sets_nil _
      · split at hrun
        · cases hrun
          exact sets_nil _
        · split at hrun
          · exact absurd hrun (by simp)
          · cases hrun
            exact hone _ _
  | deleteMessage =>
      unfold execute burrowBackendMemoryDeleteMessage at hrun
      dsimp only at hrun
      split at hrun
      · cases hrun
        exact sets_nil _
      · cases hrun
        dsimp only
        split
        · exact hone _ _
        · exact sets_nil _

/-- **The reports decide the callbacks**: on two stores a command that makes the
same reports makes the same callbacks. -/
theorem callbacks_eq_of_reports {holes : Prop} {s s' : AccountsSt} (h : StoreOk holes s)
    (h' : StoreOk holes s') {r : Request} {o o' : Outcome}
    (hrun : execute r.inputs r.name r.cmd s = .ok o)
    (hrun' : execute r.inputs r.name r.cmd s' = .ok o')
    (hreports : o.callbacks.map Callback.report = o'.callbacks.map Callback.report) :
    o.callbacks = o'.callbacks :=
  eq_of_map_report hreports (execute_sets h hrun) (execute_sets h' hrun')

end Burrow.Memory
