import Burrow.Memory.Replies

/-!
# Commands on different queues commute

A command on the messages of a queue reads and writes the rows of its queue only:
`execute_congr` and `rows_execute_of_ne` say so for the broker. What it does to
the names of queues and accounts follows from the rows, up to their order, so that
two such commands on different queues come to the same in either order:
`execute_commute`.
-/

set_option autoImplicit false

namespace Burrow.Memory

open KeyedList

/-! ## Commands on the messages of one queue -/

/-- The command is about the messages of the queue it is addressed to. -/
def MessageLevel : CommandName → Bool
  | .createMessage | .getMessage | .updateMessage | .deleteMessage => true
  | .getMessages | .updateMessages | .deleteMessages => true
  | .getAccounts | .deleteAccounts | .getQueues | .deleteQueues => false

section OneQueue

variable {b b' : Broker} {inputs : Inputs} {name : CommandName} {cmd : BackendCommand}

/-- What can become of the broker: the rows of the queue change, in a queue that is
there or, with `create_message`, in one that is added. -/
inductive OneQueue (b : Broker) (name : CommandName) (cmd : BackendCommand) (b' : Broker) : Prop
  | same (create : name ≠ .createMessage) (eq : b' = b)
  | modifies (create : name ≠ .createMessage) (f : List BurrowMessage → List BurrowMessage)
      (eq : b' = b.modifyRows cmd.account cmd.queue f) (nil : f [] = [])
  | puts (create : name = .createMessage) (l : List BurrowMessage)
      (eq : b' = b.putRows cmd.account cmd.queue l) (ne : l ≠ [])

theorem OneMessage.oneQueue {now : UInt32} {x : Answer} (h : OneMessage b now cmd name x)
    (hcreate : name ≠ .createMessage) : OneQueue b name cmd x.broker := by
  cases h with
  | missing _ _ | got _ _ => exact .same hcreate rfl
  | expired _ _ | deleted _ _ => exact .modifies hcreate _ rfl rfl
  | updated _ _ => exact .modifies hcreate _ rfl rfl

/-- A command on the messages of a queue changes the rows of that queue at most. -/
theorem oneQueue_execute (hname : MessageLevel name = true) :
    OneQueue b name cmd (b.execute inputs name cmd).broker := by
  cases name with
  | createMessage => exact .puts rfl _ rfl (putMessage_ne_nil _ _)
  | getMessage => exact oneMessage_getMessage.oneQueue (by decide)
  | updateMessage => exact oneMessage_updateMessage.oneQueue (by decide)
  | deleteMessage => exact oneMessage_deleteMessage.oneQueue (by decide)
  | getMessages => exact .modifies (by decide) _ rfl (mapWindow_nil _ _ _ _)
  | updateMessages => exact .modifies (by decide) _ rfl (mapWindow_nil _ _ _ _)
  | deleteMessages => exact .modifies (by decide) _ rfl (mapWindow_nil _ _ _ _)
  | getAccounts => exact absurd hname (by decide)
  | deleteAccounts => exact absurd hname (by decide)
  | getQueues => exact absurd hname (by decide)
  | deleteQueues => exact absurd hname (by decide)

/-- The rows of the other queues stay. -/
theorem OneQueue.rows_of_ne (h : OneQueue b name cmd b') {account queue : String}
    (hne : account ≠ cmd.account ∨ queue ≠ cmd.queue) :
    b'.rows account queue = b.rows account queue := by
  cases h with
  | same _ eq => rw [eq]
  | modifies _ f eq nil => rw [eq, Directory.rows_modifyRows_of_ne b _ _ hne]
  | puts _ l eq ne => rw [eq, Directory.rows_putRows_of_ne b _ _ l hne]

/-- The empty containers stay, but for those that `create_message` fills. -/
theorem OneQueue.tidyExcept (h : OneQueue b name cmd b') {E : String → Prop}
    {e : String → String → Prop} (hb : b.TidyExcept E e) :
    b'.TidyExcept (fun a => E a ∧ (name = .createMessage → a ≠ cmd.account))
      (fun a q => e a q ∧ (name = .createMessage → a ≠ cmd.account ∨ q ≠ cmd.queue)) := by
  cases h with
  | same create eq =>
      subst eq
      simpa [create] using hb
  | modifies create f eq nil =>
      subst eq
      simpa [create] using hb.modifyRows cmd.account cmd.queue f
  | puts create l eq ne =>
      subst eq
      simpa [create] using hb.putRows cmd.account cmd.queue ne

theorem rows_scan (b : Broker) (cmd : BackendCommand) (locals : ScanLocals) :
    (b.scan cmd locals).rows cmd.account cmd.queue =
      mapWindow BurrowMessage.messageId cmd.marker cmd.limit (scanEffect locals)
        (b.rows cmd.account cmd.queue) :=
  Directory.rows_modifyRows_self b _ _ (mapWindow_nil _ _ _ _)

/-- Two answers that agree on a queue, on the reports and on the code. -/
structure SameAnswer (account queue : String) (x y : Answer) : Prop where
  rows_eq : x.broker.rows account queue = y.broker.rows account queue
  reports_eq : x.reports = y.reports
  result_eq : x.result = y.result

/-- A command on the messages of a queue reads the rows of that queue only. -/
theorem execute_congr (hname : MessageLevel name = true)
    (hrows : b.rows cmd.account cmd.queue = b'.rows cmd.account cmd.queue) :
    SameAnswer cmd.account cmd.queue (b.execute inputs name cmd) (b'.execute inputs name cmd) := by
  have hfind : b.find cmd = b'.find cmd := by
    show List.find? _ (b.rows cmd.account cmd.queue) = List.find? _ (b'.rows _ _)
    rw [hrows]
  have hremove : (b.remove cmd).rows cmd.account cmd.queue =
      (b'.remove cmd).rows cmd.account cmd.queue := by
    rw [rows_remove, rows_remove, hrows]
  have hscan : ∀ scanType : ScanAction, SameAnswer cmd.account cmd.queue
      (b.scanMessages scanType inputs.scan.time cmd)
      (b'.scanMessages scanType inputs.scan.time cmd) := by
    intro scanType
    constructor
    · show (b.scan cmd _).rows _ _ = (b'.scan cmd _).rows _ _
      rw [rows_scan, rows_scan, hrows]
    · show List.filterMap _ (window _ _ _ (b.rows _ _)) =
        List.filterMap _ (window _ _ _ (b'.rows _ _))
      rw [hrows]
    · rfl
  cases name with
  | createMessage =>
      refine ⟨?_, rfl, rfl⟩
      show (b.putRows cmd.account cmd.queue _).rows _ _ =
        (b'.putRows cmd.account cmd.queue _).rows _ _
      rw [Directory.rows_putRows_self, Directory.rows_putRows_self, hrows]
  | getMessage =>
      show SameAnswer _ _ (b.getMessage inputs.message.time cmd)
        (b'.getMessage inputs.message.time cmd)
      unfold Broker.getMessage
      rw [hfind]
      split
      · exact ⟨hrows, rfl, rfl⟩
      · split
        · exact ⟨hremove, rfl, rfl⟩
        · exact ⟨hrows, rfl, rfl⟩
  | updateMessage =>
      show SameAnswer _ _ (b.updateMessage inputs.message.time cmd)
        (b'.updateMessage inputs.message.time cmd)
      unfold Broker.updateMessage
      rw [hfind]
      split
      · exact ⟨hrows, rfl, rfl⟩
      · split
        · exact ⟨hremove, rfl, rfl⟩
        · refine ⟨?_, rfl, rfl⟩
          show (b.modifyRows _ _ _).rows _ _ = (b'.modifyRows _ _ _).rows _ _
          rw [Directory.rows_modifyRows_self b _ _ rfl, Directory.rows_modifyRows_self b' _ _ rfl,
            hrows]
  | deleteMessage =>
      show SameAnswer _ _ (b.deleteMessage inputs.message.time cmd)
        (b'.deleteMessage inputs.message.time cmd)
      unfold Broker.deleteMessage
      rw [hfind]
      split
      · exact ⟨hrows, rfl, rfl⟩
      · exact ⟨hremove, rfl, rfl⟩
  | getMessages => exact hscan .get
  | updateMessages => exact hscan .update
  | deleteMessages => exact hscan .delete
  | getAccounts => exact absurd hname (by decide)
  | deleteAccounts => exact absurd hname (by decide)
  | getQueues => exact absurd hname (by decide)
  | deleteQueues => exact absurd hname (by decide)

end OneQueue

/-! ## Either order -/

section Commute

variable {b : Broker} {r r' : Request}

/-- A request on another queue leaves the answer of a request as it is. -/
theorem sameAnswer_after (hname : MessageLevel r.name = true) (hname' : MessageLevel r'.name = true)
    (hne : r.cmd.account ≠ r'.cmd.account ∨ r.cmd.queue ≠ r'.cmd.queue) :
    SameAnswer r.cmd.account r.cmd.queue (b.execute r.inputs r.name r.cmd)
      ((b.execute r'.inputs r'.name r'.cmd).broker.execute r.inputs r.name r.cmd) := by
  apply execute_congr hname
  exact ((oneQueue_execute hname').rows_of_ne hne).symm

/-- Two requests on different queues leave the same broker in either order, but for
the order of the names. -/
theorem similar_after {E : String → Prop} {e : String → String → Prop} (hb : b.TidyExcept E e)
    (hname : MessageLevel r.name = true) (hname' : MessageLevel r'.name = true)
    (hne : r.cmd.account ≠ r'.cmd.account ∨ r.cmd.queue ≠ r'.cmd.queue) :
    ((b.execute r.inputs r.name r.cmd).broker.execute r'.inputs r'.name r'.cmd).broker.Similar
      ((b.execute r'.inputs r'.name r'.cmd).broker.execute r.inputs r.name r.cmd).broker := by
  have hne' : r'.cmd.account ≠ r.cmd.account ∨ r'.cmd.queue ≠ r.cmd.queue :=
    hne.imp Ne.symm Ne.symm
  have hone : ∀ b : Broker, OneQueue b r.name r.cmd (b.execute r.inputs r.name r.cmd).broker :=
    fun _ => oneQueue_execute hname
  have hone' : ∀ b : Broker, OneQueue b r'.name r'.cmd
    (b.execute r'.inputs r'.name r'.cmd).broker :=
    fun _ => oneQueue_execute hname'
  have hleft := (hone' _).tidyExcept ((hone b).tidyExcept hb)
  have hright := (hone _).tidyExcept ((hone' b).tidyExcept hb)
  have hE : ∀ p p' : String → Prop, (fun a => (E a ∧ p a) ∧ p' a) = fun a => (E a ∧ p' a) ∧ p a :=
    fun p p' => funext fun a => propext and_right_comm
  have he : ∀ p p' : String → String → Prop,
      (fun a q => (e a q ∧ p a q) ∧ p' a q) = fun a q => (e a q ∧ p' a q) ∧ p a q :=
    fun p p' => funext fun a => funext fun q => propext and_right_comm
  rw [hE, he] at hleft
  apply hleft.similar hright
  intro account queue
  by_cases hfirst : account = r.cmd.account ∧ queue = r.cmd.queue
  · obtain ⟨rfl, rfl⟩ := hfirst
    rw [(hone' _).rows_of_ne hne]
    -- the first command finds its queue as the second leaves it, which is as it was
    exact (sameAnswer_after hname hname' hne).rows_eq
  · have hother := not_and_or.1 hfirst
    rw [(hone _).rows_of_ne hother]
    by_cases hsecond : account = r'.cmd.account ∧ queue = r'.cmd.queue
    · obtain ⟨rfl, rfl⟩ := hsecond
      exact (sameAnswer_after hname' hname hne').rows_eq.symm
    · have hother' := not_and_or.1 hsecond
      rw [(hone' _).rows_of_ne hother', (hone _).rows_of_ne hother, (hone' _).rows_of_ne hother']

/-- What a request on another queue leaves to be found is what was there. -/
theorem findsExpired_after (hname' : MessageLevel r'.name = true)
    (hne : r.cmd.account ≠ r'.cmd.account ∨ r.cmd.queue ≠ r'.cmd.queue) (now : UInt32) :
    (b.execute r'.inputs r'.name r'.cmd).broker.FindsExpired now r.cmd ↔
      b.FindsExpired now r.cmd := by
  have hfind : (b.execute r'.inputs r'.name r'.cmd).broker.find r.cmd = b.find r.cmd := by
    show List.find? _ (Directory.rows _ r.cmd.account r.cmd.queue) = List.find? _ (b.rows _ _)
    rw [(oneQueue_execute hname').rows_of_ne hne]
  rw [Broker.FindsExpired, Broker.FindsExpired, hfind]

variable {s : AccountsSt}

/-- Such a request makes no other one get an expired message, and keeps none from it. -/
theorem getsExpired_after (h : StoreOk False s) (hname' : MessageLevel r'.name = true)
    (hne : r.cmd.account ≠ r'.cmd.account ∨ r.cmd.queue ≠ r'.cmd.queue)
    (hmem' : r'.inputs.AllocationsSucceed) {o : Outcome}
    (ho : execute r'.inputs r'.name r'.cmd s = .ok o) :
    GetsExpired r o.accounts ↔ GetsExpired r s := by
  have hview : view o.accounts = _ := congrArg Answer.broker (execute_refines h hmem' ho).2
  rw [GetsExpired, GetsExpired, hview]
  exact and_congr_right fun _ => findsExpired_after hname' hne _

/-- Two such requests return one after the other exactly if neither gets an expired message. -/
theorem both_return_iff (h : StoreOk False s) (hname : MessageLevel r.name = true)
    (hne : r.cmd.account ≠ r'.cmd.account ∨ r.cmd.queue ≠ r'.cmd.queue)
    (hmem : r.inputs.AllocationsSucceed) (hlive : r.cmd.IsLive) (hlive' : r'.cmd.IsLive) :
    (∃ o₁ o₂, execute r.inputs r.name r.cmd s = .ok o₁ ∧
        execute r'.inputs r'.name r'.cmd o₁.accounts = .ok o₂) ↔
      ¬ GetsExpired r s ∧ ¬ GetsExpired r' s := by
  have hne' : r'.cmd.account ≠ r.cmd.account ∨ r'.cmd.queue ≠ r.cmd.queue :=
    hne.imp Ne.symm Ne.symm
  constructor
  · rintro ⟨o₁, o₂, ho₁, ho₂⟩
    have hok := (execute_refines h hmem ho₁).1
    refine ⟨not_getsExpired h ho₁, fun he => ?_⟩
    exact not_getsExpired hok ho₂ ((getsExpired_after h hname hne' hmem ho₁).2 he)
  · rintro ⟨he, he'⟩
    obtain ⟨o₁, ho₁⟩ := (execute_returns_iff h (argsLive_of_isLive hlive s)).2 he
    have hok := (execute_refines h hmem ho₁).1
    have hstill := mt (getsExpired_after h hname hne' hmem ho₁).1 he'
    obtain ⟨o₂, ho₂⟩ :=
      (execute_returns_iff hok (argsLive_of_isLive hlive' o₁.accounts)).2 hstill
    exact ⟨o₁, o₂, ho₁, ho₂⟩

end Commute

/-- **Commands on different queues commute.** Executed in either order with memory
for their allocations, two commands on the messages of different queues make the
same callbacks, return the same codes and leave the same queues with the same
messages. In a well-formed store either order returns exactly if neither of them gets an
expired message. -/
theorem execute_commute {s : AccountsSt} (hs : Reachable s) {r r' : Request}
    (hname : MessageLevel r.name = true) (hname' : MessageLevel r'.name = true)
    (hne : r.cmd.account ≠ r'.cmd.account ∨ r.cmd.queue ≠ r'.cmd.queue)
    (hmem : r.inputs.AllocationsSucceed) (hmem' : r'.inputs.AllocationsSucceed)
    (hlive : r.cmd.IsLive) (hlive' : r'.cmd.IsLive) :
    (∀ o₁ o₂ p₁ p₂, execute r.inputs r.name r.cmd s = .ok o₁ →
      execute r'.inputs r'.name r'.cmd o₁.accounts = .ok o₂ →
      execute r'.inputs r'.name r'.cmd s = .ok p₁ →
      execute r.inputs r.name r.cmd p₁.accounts = .ok p₂ →
      o₁.callbacks = p₂.callbacks ∧ o₁.result = p₂.result ∧
        o₂.callbacks = p₁.callbacks ∧ o₂.result = p₁.result ∧
        (view o₂.accounts).Similar (view p₂.accounts)) ∧
    (StoreWellFormed s →
      ((∃ o₁ o₂, execute r.inputs r.name r.cmd s = .ok o₁ ∧
          execute r'.inputs r'.name r'.cmd o₁.accounts = .ok o₂) ↔
        ¬ GetsExpired r s ∧ ¬ GetsExpired r' s) ∧
      ((∃ p₁ p₂, execute r'.inputs r'.name r'.cmd s = .ok p₁ ∧
          execute r.inputs r.name r.cmd p₁.accounts = .ok p₂) ↔
        ¬ GetsExpired r s ∧ ¬ GetsExpired r' s)) := by
  have h := hs.storeOk
  have hne' : r'.cmd.account ≠ r.cmd.account ∨ r'.cmd.queue ≠ r.cmd.queue :=
    hne.imp Ne.symm Ne.symm
  constructor
  · intro o₁ o₂ p₁ p₂ ho₁ ho₂ hp₁ hp₂
    obtain ⟨hok₁, hanswer₁⟩ := execute_refines h hmem ho₁
    obtain ⟨hok₁', hanswer₁'⟩ := execute_refines h hmem' hp₁
    obtain ⟨-, hanswer₂⟩ := execute_refines hok₁ hmem' ho₂
    obtain ⟨-, hanswer₂'⟩ := execute_refines hok₁' hmem hp₂
    have hview₁ : view o₁.accounts = _ := congrArg Answer.broker hanswer₁
    have hview₁' : view p₁.accounts = _ := congrArg Answer.broker hanswer₁'
    have hview₂ : view o₂.accounts = _ := congrArg Answer.broker hanswer₂
    have hview₂' : view p₂.accounts = _ := congrArg Answer.broker hanswer₂'
    have hsame := sameAnswer_after (b := view s) hname hname' hne
    have hsame' := sameAnswer_after (b := view s) hname' hname hne'
    rw [← hview₁', ← hanswer₂', ← hanswer₁] at hsame
    rw [← hview₁, ← hanswer₂, ← hanswer₁'] at hsame'
    refine ⟨callbacks_eq_of_reports h hok₁' ho₁ hp₂ hsame.reports_eq, hsame.result_eq,
      callbacks_eq_of_reports hok₁ h ho₂ hp₁ hsame'.reports_eq.symm, hsame'.result_eq.symm, ?_⟩
    rw [hview₂, hview₂', hview₁, hview₁']
    exact similar_after (tidyExcept_view h) hname hname' hne
  · intro hwf
    have hok := (storeWellFormed_iff s).1 hwf
    refine ⟨both_return_iff hok hname hne hmem hlive hlive', ?_⟩
    rw [both_return_iff hok hname' hne' hmem' hlive' hlive]
    exact and_comm

/-- One command empties the only queue of an account, the other adds a queue to it. -/
theorem execute_commute_delete_create :
    ∃ o₁ o₂ p₁ p₂,
      execute (ampleInputs 20) .deleteMessages (plainCommand "a" "q" "" [])
          (singleStore "a" "q" (createdMessage 10 (plainCommand "a" "q" "m" []))) = .ok o₁ ∧
        execute (ampleInputs 20) .createMessage (plainCommand "a" "q'" "n" []) o₁.accounts =
          .ok o₂ ∧
        execute (ampleInputs 20) .createMessage (plainCommand "a" "q'" "n" [])
          (singleStore "a" "q" (createdMessage 10 (plainCommand "a" "q" "m" []))) = .ok p₁ ∧
        execute (ampleInputs 20) .deleteMessages (plainCommand "a" "q" "" []) p₁.accounts =
          .ok p₂ ∧
        o₁.callbacks = p₂.callbacks ∧ (view o₂.accounts).Similar (view p₂.accounts) := by
  have hs : ReachableWithMemory
      (singleStore "a" "q" (createdMessage 10 (plainCommand "a" "q" "m" []))) :=
    reachableWithMemory_of_create 10 (plainCommand "a" "q" "m" []) rfl
  obtain ⟨hsame, hreturns⟩ := @execute_commute _ hs.reachable
    { inputs := ampleInputs 20, name := .deleteMessages, cmd := plainCommand "a" "q" "" [] }
    { inputs := ampleInputs 20, name := .createMessage, cmd := plainCommand "a" "q'" "n" [] }
    rfl rfl (Or.inr (by decide)) (ampleInputs_allocationsSucceed 20)
    (ampleInputs_allocationsSucceed 20) (plainCommand_isLive _ _ _ _) (plainCommand_isLive _ _ _ _)
  obtain ⟨hfirst, hsecond⟩ := hreturns ((storeWellFormed_iff _).2 hs.storeOk)
  obtain ⟨o₁, o₂, ho₁, ho₂⟩ := hfirst.2 ⟨by decide, by decide⟩
  obtain ⟨p₁, p₂, hp₁, hp₂⟩ := hsecond.2 ⟨by decide, by decide⟩
  obtain ⟨hcallbacks, -, -, -, hsimilar⟩ := hsame o₁ o₂ p₁ p₂ ho₁ ho₂ hp₁ hp₂
  exact ⟨o₁, o₂, p₁, p₂, ho₁, ho₂, hp₁, hp₂, hcallbacks, hsimilar⟩

end Burrow.Memory
