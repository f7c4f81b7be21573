import Burrow.Memory.Deletion
import Burrow.Memory.Purge
import Burrow.Memory.Replies

/-!
# What lazy expiry shows

An expired message is there until a command drops it, and in this time it can be
seen without being reported: it takes a place in the window of a command, it keeps
its queue and its account in the listings and all three at their places, and the
commands on one message still find it.

`lazy_expiry` compares every command on a store and on the purged store. The
conditions `ReportsKept`, `ResultKept` and `StoreKept` say where no expired message
shows in the callbacks, in the code and in the store that is left.
-/

set_option autoImplicit false

namespace Burrow.Memory

open KeyedList

/-! ## Where an expired message shows -/

section Conditions

variable (b : Broker) (now : UInt32) (cmd : BackendCommand)

/-- No expired message keeps another one out of the window or lets one in. -/
def Broker.WindowKept : Prop :=
  (b.purge now).messageWindow cmd = (b.messageWindow cmd).filter (unexpired now)

def Broker.ReportsKept (name : CommandName) : Prop :=
  match name with
  | .getAccounts => ∀ account ∈ nameWindow cmd b.outer, account ∈ (b.purge now).outer
  | .getQueues =>
      ∀ queue ∈ nameWindow cmd (b.inner cmd.account), queue ∈ (b.purge now).inner cmd.account
  | .getMessages | .updateMessages | .deleteMessages => b.WindowKept now cmd
  | .createMessage | .getMessage | .updateMessage | .deleteMessage => True
  | .deleteAccounts | .deleteQueues => True

def Broker.ResultKept (name : CommandName) : Prop :=
  match name with
  | .updateMessage => ¬ b.FindsExpired now cmd
  | .createMessage | .getMessage | .deleteMessage => True
  | .getMessages | .updateMessages | .deleteMessages => True
  | .getAccounts | .deleteAccounts | .getQueues | .deleteQueues => True

def Broker.StoreKept (name : CommandName) : Prop :=
  match name with
  | .deleteAccounts =>
      nameWindow cmd (b.purge now).outer =
        (nameWindow cmd b.outer).filter fun account => account ∈ (b.purge now).outer
  | .deleteQueues =>
      nameWindow cmd ((b.purge now).inner cmd.account) =
        (nameWindow cmd (b.inner cmd.account)).filter fun queue =>
          queue ∈ (b.purge now).inner cmd.account
  | .updateMessages | .deleteMessages => b.WindowKept now cmd
  | .createMessage =>
      (cmd.account ∈ b.outer → cmd.account ∈ (b.purge now).outer) ∧
        (cmd.queue ∈ b.inner cmd.account → cmd.queue ∈ (b.purge now).inner cmd.account) ∧
        ¬ b.FindsExpired now cmd
  | .getMessages | .getMessage | .updateMessage | .deleteMessage => True
  | .getAccounts | .getQueues => True

end Conditions

/-! ## On the broker -/

theorem unexpired_iff {now : UInt32} {m : BurrowMessage} :
    unexpired now m = true ↔ ¬ m.Expired now := by
  simp [unexpired]

theorem unexpired_eq_false_iff {now : UInt32} {m : BurrowMessage} :
    unexpired now m = false ↔ m.Expired now := by
  simp [unexpired]

/-- The broker of a reachable store, with its empty containers. -/
structure BrokerOk (E : String → Prop) (e : String → String → Prop) (b : Broker) : Prop
    extends b.TidyExcept E e where
  nodup : ∀ account queue, ((b.rows account queue).map BurrowMessage.messageId).Nodup

theorem brokerOk_view {holes : Prop} {s : AccountsSt} (h : StoreOk holes s) :
    BrokerOk (fun a => a ∈ (view s).outer ∧ (view s).inner a = [])
      (fun a q => q ∈ (view s).inner a ∧ (view s).rows a q = []) (view s) :=
  ⟨tidyExcept_view h, nodup_queueMessages h⟩

/-- The answers on a broker and on the purged broker agree, but for what the
conditions except. -/
structure Agree (b : Broker) (now : UInt32) (cmd : BackendCommand) (name : CommandName)
    (x y : Answer) : Prop where
  reports : b.ReportsKept now cmd name → x.reports = y.reports
  result : x.result = y.result ↔ b.ResultKept now cmd name
  store : b.StoreKept now cmd name → x.broker.purge now = y.broker.purge now

section Broker

variable {E : String → Prop} {e : String → String → Prop} {b x y : Broker} {now : UInt32}
  {cmd : BackendCommand}

theorem rows_purge (b : Broker) (now : UInt32) (account queue : String) :
    (b.purge now).rows account queue = (b.rows account queue).filter (unexpired now) := rfl

theorem find_purge (h : BrokerOk E e b) :
    (b.purge now).find cmd = (b.find cmd).filter (unexpired now) :=
  find?_filter BurrowMessage.messageId (unexpired now) (h.nodup cmd.account cmd.queue) cmd.messageId

/-- Two brokers that keep the order of names have one purge if their queues have. -/
theorem purge_eq (h : BrokerOk E e b) (hx : x.TidyExcept E e) (hy : y.TidyExcept E e)
    (hwx : b.Within x) (hwy : b.Within y)
    (hrows : ∀ account queue, (x.rows account queue).filter (unexpired now) =
      (y.rows account queue).filter (unexpired now)) : x.purge now = y.purge now :=
  Directory.TidyExcept.filterRows_eq h.outer_nodup h.inner_nodup hx hy hwx hwy hrows

theorem tidyExcept_purge (h : BrokerOk E e b) (now : UInt32) : (b.purge now).TidyExcept E e :=
  h.toTidyExcept.filterRows (unexpired now)

theorem within_purge (b : Broker) (now : UInt32) : b.Within (b.purge now) :=
  Directory.within_filterRows (unexpired now) b

/-- Purging twice is purging once. -/
theorem purge_purge (h : BrokerOk E e b) : b.purge now = (b.purge now).purge now := by
  apply purge_eq h h.toTidyExcept (tidyExcept_purge h _) (Directory.Within.refl b)
    (within_purge b now)
  intro account queue
  rw [rows_purge, List.filter_filter]
  simp only [Bool.and_self]

/-- What changes the rows of one queue, on either broker, comes to one purge if it does
for that queue. -/
theorem purge_modifyRows_eq (h : BrokerOk E e b) (account queue : String)
    {f g : List BurrowMessage → List BurrowMessage} (hf : f [] = []) (hg : g [] = [])
    (hrows : (g ((b.rows account queue).filter (unexpired now))).filter (unexpired now) =
      (f (b.rows account queue)).filter (unexpired now)) :
    Broker.purge now (b.modifyRows account queue f) =
      Broker.purge now ((b.purge now).modifyRows account queue g) := by
  apply purge_eq h (h.modifyRows account queue f)
    ((tidyExcept_purge h _).modifyRows account queue g)
    ((Directory.Within.refl b).modifyRows account queue f)
    ((within_purge b now).modifyRows account queue g)
  intro account' queue'
  by_cases hplace : account' = account ∧ queue' = queue
  · obtain ⟨rfl, rfl⟩ := hplace
    rw [Directory.rows_modifyRows_self b _ _ hf, Directory.rows_modifyRows_self _ _ _ hg,
      rows_purge]
    exact hrows.symm
  · have hne := not_and_or.1 hplace
    rw [Directory.rows_modifyRows_of_ne b _ _ hne, Directory.rows_modifyRows_of_ne _ _ _ hne,
      rows_purge, List.filter_filter]
    simp only [Bool.and_self]

/-! ### Scans -/

theorem scanEffect_eq_none {locals : ScanLocals} {m : BurrowMessage}
    (h : unexpired locals.currentTime m = false) : scanEffect locals m = none :=
  scanEffect_of_expired (unexpired_eq_false_iff.1 h)

theorem scanReport_eq_none {locals : ScanLocals} {m : BurrowMessage}
    (h : unexpired locals.currentTime m = false) : scanReport locals m = none :=
  scanReport_of_not_selected fun hselected => hselected.1 (unexpired_eq_false_iff.1 h)

theorem scanned_purge (hwindow : b.WindowKept now cmd) {locals : ScanLocals}
    (hnow : locals.currentTime = now) :
    b.scanned cmd locals = (b.purge now).scanned cmd locals := by
  subst hnow
  rw [Broker.scanned, Broker.scanned, hwindow, List.filterMap_filter]
  apply List.filterMap_congr
  intro m _
  cases hm : unexpired locals.currentTime m with
  | true => rfl
  | false => exact scanReport_eq_none hm

theorem scan_purge (h : BrokerOk E e b) (hwindow : b.WindowKept now cmd) {locals : ScanLocals}
    (hnow : locals.currentTime = now) :
    (b.scan cmd locals).purge now = ((b.purge now).scan cmd locals).purge now := by
  subst hnow
  apply purge_modifyRows_eq h _ _ (mapWindow_nil _ _ _ _) (mapWindow_nil _ _ _ _)
  exact filter_mapWindow _ _ (h.nodup _ _) (fun _ => scanEffect_eq_none) hwindow

/-- A `get_messages` only drops what has expired. -/
theorem scan_get_purge (h : BrokerOk E e b) {locals : ScanLocals} (hnow : locals.currentTime = now)
    (hget : locals.scanType = .get) :
    (b.scan cmd locals).purge now = ((b.purge now).scan cmd locals).purge now := by
  subst hnow
  -- a get drops expired messages only, and the purge drops them anyway
  have hdrop : ∀ l : List BurrowMessage, (l.map BurrowMessage.messageId).Nodup →
      (mapWindow BurrowMessage.messageId cmd.marker cmd.limit (scanEffect locals) l).filter
        (unexpired locals.currentTime) = l.filter (unexpired locals.currentTime) := by
    intro l hl
    rw [mapWindow_eq_filterMap _ hl, List.filter_filterMap, ← List.filterMap_eq_filter]
    apply List.filterMap_congr
    intro m _
    have hsame : ∀ x : Option BurrowMessage, x = some m ∨ unexpired locals.currentTime m = false ∧
        x = none → x.filter (unexpired locals.currentTime) =
          Option.guard (unexpired locals.currentTime) m := by
      rintro x (rfl | ⟨hm, rfl⟩)
      · rfl
      · rw [Option.guard, if_neg (by simp [hm])]
        rfl
    apply hsame
    split
    · cases hm : unexpired locals.currentTime m with
      | false => exact Or.inr ⟨rfl, scanEffect_eq_none hm⟩
      | true =>
          left
          rw [scanEffect, if_neg (unexpired_iff.1 hm), hget]
          split
          · rfl
          · rfl
    · exact Or.inl rfl
  apply purge_modifyRows_eq h _ _ (mapWindow_nil _ _ _ _) (mapWindow_nil _ _ _ _)
  rw [hdrop _ (h.nodup _ _), hdrop _ ((h.nodup _ _).sublist (List.filter_sublist.map _)),
    List.filter_filter]
  simp only [Bool.and_self]

/-! ### Sweeps -/

theorem tidyExcept_sweeps (h : b.TidyExcept E e) (plan : List Sweep) :
    (b.sweeps plan).TidyExcept E e := by
  induction plan generalizing b with
  | nil => exact h
  | cons sweep rest ih => exact ih (h.modifyRows sweep.account sweep.queue _)

theorem within_sweeps (b : Broker) (plan : List Sweep) : b.Within (b.sweeps plan) :=
  ⟨b.outer_sweeps_sublist plan, b.inner_sweeps_sublist plan⟩

/-- Sweeps at one time leave what survives it of the queues they go over. -/
theorem rows_sweeps {plan : List Sweep} (hplan : (plan.map Sweep.place).Nodup)
    (hnow : ∀ sweep ∈ plan, sweep.time = now) (b : Broker) (account queue : String) :
    (Covers plan account queue ∧ (b.sweeps plan).rows account queue =
        (b.rows account queue).filter fun m => m.Survives now) ∨
      ¬ Covers plan account queue ∧ (b.sweeps plan).rows account queue = b.rows account queue := by
  by_cases hcovers : Covers plan account queue
  · left
    refine ⟨hcovers, ?_⟩
    obtain ⟨sweep, hmem, hplace⟩ := List.mem_map.1 hcovers
    obtain ⟨rfl, rfl⟩ := Prod.mk.inj hplace
    rw [Broker.rows_sweeps_of_mem hplan hmem, hnow sweep hmem]
  · right
    refine ⟨hcovers, Broker.rows_sweeps_of_ne (fun sweep hsweep => ?_) b⟩
    apply not_and_or.1
    rintro ⟨rfl, rfl⟩
    exact hcovers (List.mem_map_of_mem hsweep)

/-- Sweeps that go over the same of the queues that are left come to one purge. -/
theorem sweeps_purge (h : BrokerOk E e b) {plan plan' : List Sweep}
    (hplan : (plan.map Sweep.place).Nodup) (hplan' : (plan'.map Sweep.place).Nodup)
    (hnow : ∀ sweep ∈ plan, sweep.time = now) (hnow' : ∀ sweep ∈ plan', sweep.time = now)
    (hcovers : ∀ account queue, (b.purge now).rows account queue ≠ [] →
      (Covers plan account queue ↔ Covers plan' account queue)) :
    (b.sweeps plan).purge now = ((b.purge now).sweeps plan').purge now := by
  apply purge_eq h (tidyExcept_sweeps h.toTidyExcept plan)
    (tidyExcept_sweeps (tidyExcept_purge h _) plan') (within_sweeps b plan)
    ((within_purge b now).trans (within_sweeps _ plan'))
  intro account queue
  -- a queue with nothing but expired messages is empty to both, swept or not
  by_cases hnil : (b.purge now).rows account queue = []
  · have hall : ∀ m ∈ b.rows account queue, ¬ unexpired now m = true :=
      List.filter_eq_nil_iff.1 hnil
    have hleft : ((b.sweeps plan).rows account queue).filter (unexpired now) = [] := by
      rw [List.filter_eq_nil_iff]
      intro m hm
      rcases rows_sweeps hplan hnow b account queue with ⟨-, hrows⟩ | ⟨-, hrows⟩
      · rw [hrows] at hm
        exact hall m (List.mem_filter.1 hm).1
      · rw [hrows] at hm
        exact hall m hm
    rw [hleft]
    rcases rows_sweeps hplan' hnow' (b.purge now) account queue with ⟨-, hrows⟩ | ⟨-, hrows⟩
    · rw [hrows, hnil]
      rfl
    · rw [hrows, hnil]
      rfl
  · have hiff := hcovers account queue hnil
    -- otherwise the two plans sweep the same queues, and a sweep keeps nothing that has
    -- expired
    rcases rows_sweeps hplan hnow b account queue with ⟨hc, hrows⟩ | ⟨hc, hrows⟩
    · rcases rows_sweeps hplan' hnow' (b.purge now) account queue with ⟨-, hrows'⟩ | ⟨hc', -⟩
      · rw [hrows, hrows', rows_purge, List.filter_filter, List.filter_filter, List.filter_filter]
        apply List.filter_congr
        intro m _
        cases unexpired now m with
        | true => simp
        | false => simp
      · exact absurd (hiff.1 hc) hc'
    · rcases rows_sweeps hplan' hnow' (b.purge now) account queue with ⟨hc', -⟩ | ⟨-, hrows'⟩
      · exact absurd (hiff.2 hc') hc
      · rw [hrows, hrows', rows_purge, List.filter_filter]
        simp only [Bool.and_self]

theorem time_of_mem_queueSweeps {scan : Nat → ScanInputs} {account : String} {names : List String}
    (hnow : ∀ i, (scan i).time = now) {i : Nat} {sweep : Sweep}
    (h : sweep ∈ queueSweeps scan account names i) : sweep.time = now := by
  induction names generalizing i with
  | nil => exact absurd h List.not_mem_nil
  | cons queue rest ih =>
      rcases List.mem_cons.1 h with rfl | h
      · exact hnow i
      · exact ih h

theorem time_of_mem_accountSweeps {deleteQueues : Nat → DeleteQueuesInputs}
    {names : String → List String} {accounts : List String}
    (hnow : ∀ i j, ((deleteQueues i).scan j).time = now) {i : Nat} {sweep : Sweep}
    (h : sweep ∈ accountSweeps deleteQueues names accounts i) : sweep.time = now := by
  induction accounts generalizing i with
  | nil => exact absurd h List.not_mem_nil
  | cons account rest ih =>
      rcases List.mem_append.1 h with h | h
      · exact time_of_mem_queueSweeps (hnow i) h
      · exact ih h

/-- A queue that is left has its name and its account left. -/
theorem mem_of_rows_purge (h : BrokerOk E e b) {account queue : String}
    (hrows : (b.purge now).rows account queue ≠ []) :
    queue ∈ (b.purge now).inner account ∧ account ∈ (b.purge now).outer := by
  have htidy := tidyExcept_purge h now
  have hqueue : queue ∈ (b.purge now).inner account :=
    (htidy.mem_inner account queue).2 (Or.inl hrows)
  exact ⟨hqueue, (htidy.mem_outer account).2 (Or.inl (List.ne_nil_of_mem hqueue))⟩

theorem agree_deleteQueues (h : BrokerOk E e b) {inputs : DeleteQueuesInputs}
    (hnow : ∀ i, (inputs.scan i).time = now) :
    Agree b now cmd .deleteQueues (b.deleteQueues inputs cmd)
      ((b.purge now).deleteQueues inputs cmd) where
  reports := fun _ => rfl
  result := iff_of_true rfl trivial
  store := by
    intro hwindow
    have htidy := tidyExcept_purge h now
    apply sweeps_purge h
      (nodup_queueSweeps _ _ (nodup_nameWindow cmd (h.inner_nodup cmd.account)) 0)
      (nodup_queueSweeps _ _ (nodup_nameWindow cmd (htidy.inner_nodup cmd.account)) 0)
      (fun _ => time_of_mem_queueSweeps hnow) (fun _ => time_of_mem_queueSweeps hnow)
    intro account queue hrows
    rw [covers_queueSweeps, covers_queueSweeps]
    apply and_congr_right
    rintro rfl
    rw [hwindow, List.mem_filter, decide_eq_true_iff]
    exact (and_iff_left (mem_of_rows_purge h hrows).1).symm

theorem agree_deleteAccounts (h : BrokerOk E e b) {inputs : DeleteAccountsInputs}
    (hnow : ∀ i j, ((inputs.deleteQueues i).scan j).time = now) :
    Agree b now cmd .deleteAccounts (b.deleteAccounts inputs cmd)
      ((b.purge now).deleteAccounts inputs cmd) where
  reports := fun _ => rfl
  result := iff_of_true rfl trivial
  store := by
    intro hwindow
    have htidy := tidyExcept_purge h now
    apply sweeps_purge h
      (nodup_accountSweeps _ h.inner_nodup (nodup_nameWindow cmd h.outer_nodup) 0)
      (nodup_accountSweeps _ htidy.inner_nodup (nodup_nameWindow cmd htidy.outer_nodup) 0)
      (fun _ => time_of_mem_accountSweeps hnow) (fun _ => time_of_mem_accountSweeps hnow)
    intro account queue hrows
    obtain ⟨hqueue, haccount⟩ := mem_of_rows_purge h hrows
    have hqueue' : queue ∈ b.inner account := ((within_purge b now).inner account).subset hqueue
    rw [covers_accountSweeps, covers_accountSweeps, hwindow, List.mem_filter, decide_eq_true_iff]
    exact ⟨fun hleft => ⟨⟨hleft.1, haccount⟩, hqueue⟩, fun hright => ⟨hright.1.1, hqueue'⟩⟩

/-! ### Commands on one message -/

theorem rows_eraseP_purge (h : BrokerOk E e b) (now : UInt32) (cmd : BackendCommand) :
    ((b.purge now).rows cmd.account cmd.queue).eraseP
        (hasKey BurrowMessage.messageId cmd.messageId) =
      ((b.rows cmd.account cmd.queue).eraseP
        (hasKey BurrowMessage.messageId cmd.messageId)).filter (unexpired now) := by
  have hl := h.nodup cmd.account cmd.queue
  rw [rows_purge, eraseP_eq_filter _ hl,
    eraseP_eq_filter _ (hl.sublist (List.filter_sublist.map _)), List.filter_filter,
    List.filter_filter]
  apply List.filter_congr
  intro m _
  exact Bool.and_comm _ _

theorem remove_purge (h : BrokerOk E e b) (cmd : BackendCommand) :
    (b.remove cmd).purge now = ((b.purge now).remove cmd).purge now := by
  apply purge_modifyRows_eq h cmd.account cmd.queue rfl rfl
  have hrows := rows_eraseP_purge h now cmd
  rw [rows_purge] at hrows
  rw [hrows, List.filter_filter]
  simp only [Bool.and_self]

/-- Removing an expired message changes nothing of what is left. -/
theorem remove_expired_purge (h : BrokerOk E e b) {m : BurrowMessage} (hfind : b.find cmd = some m)
    (hexpired : m.Expired now) : (b.remove cmd).purge now = b.purge now := by
  apply purge_eq h (h.modifyRows cmd.account cmd.queue _) h.toTidyExcept
    ((Directory.Within.refl b).modifyRows _ _ _) (Directory.Within.refl b)
  intro account queue
  by_cases hplace : account = cmd.account ∧ queue = cmd.queue
  · obtain ⟨rfl, rfl⟩ := hplace
    rw [Directory.rows_modifyRows_self b _ _ rfl, eraseP_eq_filter _ (h.nodup _ _),
      List.filter_filter]
    apply List.filter_congr
    intro m' hm'
    by_cases hid : m'.messageId = cmd.messageId
    · have heq : m' = m := by
        have hfound := find?_hasKey_of_mem BurrowMessage.messageId (h.nodup _ _) hm'
        rw [hid] at hfound
        exact Option.some.inj (hfound.symm.trans hfind)
      simp [heq, unexpired_eq_false_iff.2 hexpired]
    · simp [hasKey, hid]
  · rw [Directory.rows_modifyRows_of_ne b _ _ (not_and_or.1 hplace)]

/-- What the purged broker knows of a message. -/
theorem find_purge_eq (h : BrokerOk E e b) (now : UInt32) (cmd : BackendCommand) :
    (b.find cmd = none ∧ (b.purge now).find cmd = none) ∨
      (∃ m, b.find cmd = some m ∧ m.Expired now ∧ (b.purge now).find cmd = none) ∨
      ∃ m, b.find cmd = some m ∧ ¬ m.Expired now ∧ (b.purge now).find cmd = some m := by
  rw [find_purge h]
  cases hfind : b.find cmd with
  | none => exact Or.inl ⟨rfl, rfl⟩
  | some m =>
      by_cases hexpired : m.Expired now
      · refine Or.inr (Or.inl ⟨m, rfl, hexpired, ?_⟩)
        rw [Option.filter_some_neg (unexpired_eq_false_iff.2 hexpired)]
      · refine Or.inr (Or.inr ⟨m, rfl, hexpired, ?_⟩)
        rw [Option.filter_some_pos (unexpired_iff.2 hexpired)]

theorem agree_getMessage (h : BrokerOk E e b) (he : ¬ b.FindsExpired now cmd) :
    Agree b now cmd .getMessage (b.getMessage now cmd) ((b.purge now).getMessage now cmd) := by
  unfold Broker.getMessage
  rcases find_purge_eq h now cmd with
    ⟨hfind, hfind'⟩ | ⟨m, hfind, hexpired, -⟩ | ⟨m, hfind, hexpired, hfind'⟩
  · rw [hfind, hfind']
    exact ⟨fun _ => rfl, iff_of_true rfl trivial, fun _ => purge_purge h⟩
  · exact absurd ⟨m, hfind, hexpired⟩ he
  · rw [hfind, hfind']
    simp only [hexpired, if_false]
    exact ⟨fun _ => rfl, iff_of_true rfl trivial, fun _ => purge_purge h⟩

theorem rewrite_purge (h : BrokerOk E e b) {m m' : BurrowMessage} (hfind : b.find cmd = some m)
    (hexpired : ¬ m.Expired now) (hid : m'.messageId = cmd.messageId) :
    (b.rewrite cmd.account cmd.queue m').purge now =
      ((b.purge now).rewrite cmd.account cmd.queue m').purge now := by
  apply purge_modifyRows_eq h cmd.account cmd.queue rfl rfl
  apply filter_modify
  intro x hx hxid
  have hfound := find?_hasKey_of_mem BurrowMessage.messageId (h.nodup _ _) hx
  rw [hxid, hid] at hfound
  have heq : x = m := Option.some.inj (hfound.symm.trans hfind)
  exact heq ▸ unexpired_iff.2 hexpired

theorem agree_updateMessage (h : BrokerOk E e b) :
    Agree b now cmd .updateMessage (b.updateMessage now cmd)
      ((b.purge now).updateMessage now cmd) := by
  unfold Broker.updateMessage
  rcases find_purge_eq h now cmd with
    ⟨hfind, hfind'⟩ | ⟨m, hfind, hexpired, hfind'⟩ | ⟨m, hfind, hexpired, hfind'⟩
  · rw [hfind, hfind']
    refine ⟨fun _ => rfl, iff_of_true rfl ?_, fun _ => purge_purge h⟩
    rintro ⟨m, hm, -⟩
    exact absurd (hfind.symm.trans hm) (by simp)
  · rw [hfind, hfind']
    simp only [hexpired, if_true]
    refine ⟨fun _ => rfl, iff_of_false (show (0 : Int) ≠ EINVAL by decide)
      (not_not.2 ⟨m, hfind, hexpired⟩), fun _ => ?_⟩
    exact (remove_expired_purge h hfind hexpired).trans (purge_purge h)
  · rw [hfind, hfind']
    simp only [hexpired, if_false]
    refine ⟨fun _ => rfl, iff_of_true rfl ?_, fun _ => ?_⟩
    · rintro ⟨m', hm', hexpired'⟩
      exact hexpired (Option.some.inj (hfind.symm.trans hm') ▸ hexpired')
    · exact rewrite_purge h hfind hexpired (find?_hasKey_some _ hfind).2

theorem agree_deleteMessage (h : BrokerOk E e b) :
    Agree b now cmd .deleteMessage (b.deleteMessage now cmd)
      ((b.purge now).deleteMessage now cmd) := by
  unfold Broker.deleteMessage
  rcases find_purge_eq h now cmd with
    ⟨hfind, hfind'⟩ | ⟨m, hfind, hexpired, hfind'⟩ | ⟨m, hfind, hexpired, hfind'⟩
  · rw [hfind, hfind']
    exact ⟨fun _ => rfl, iff_of_true rfl trivial, fun _ => purge_purge h⟩
  · rw [hfind, hfind']
    simp only [hexpired, if_true]
    refine ⟨fun _ => rfl, iff_of_true rfl trivial, fun _ => ?_⟩
    exact (remove_expired_purge h hfind hexpired).trans (purge_purge h)
  · rw [hfind, hfind']
    exact ⟨fun _ => rfl, iff_of_true rfl trivial, fun _ => remove_purge h cmd⟩

/-! ### Creating a message -/

theorem putMessage_purge {l : List BurrowMessage} {m : BurrowMessage}
    (hm : ∀ x ∈ l, x.messageId = m.messageId → ¬ x.Expired now) :
    (putMessage m (l.filter (unexpired now))).filter (unexpired now) =
      (putMessage m l).filter (unexpired now) := by
  have hmem : m.messageId ∈ (l.filter (unexpired now)).map BurrowMessage.messageId ↔
      m.messageId ∈ l.map BurrowMessage.messageId := by
    constructor
    · intro hid
      exact (List.filter_sublist.map _).subset hid
    · intro hid
      obtain ⟨x, hx, hxid⟩ := List.mem_map.1 hid
      exact List.mem_map.2 ⟨x, List.mem_filter.2 ⟨hx, unexpired_iff.2 (hm x hx hxid)⟩, hxid⟩
  unfold putMessage
  by_cases hid : m.messageId ∈ l.map BurrowMessage.messageId
  · rw [if_pos hid, if_pos (hmem.2 hid)]
    exact filter_modify _ _ _ fun x hx hxid => unexpired_iff.2 (hm x hx hxid)
  · rw [if_neg hid, if_neg fun h => hid (hmem.1 h), List.filter_append, List.filter_append,
      List.filter_filter]
    simp only [Bool.and_self]

theorem agree_createMessage (h : BrokerOk E e b) (created : UInt32) :
    Agree b now cmd .createMessage (b.createMessage created cmd)
      ((b.purge now).createMessage created cmd) where
  reports := fun _ => rfl
  result := iff_of_true rfl trivial
  store := by
    rintro ⟨houter, hinner, hfind⟩
    have hne := putMessage_ne_nil (createdMessage created cmd)
    have hx := h.toTidyExcept.putRows cmd.account cmd.queue (hne (b.rows cmd.account cmd.queue))
    have hy := (tidyExcept_purge h now).putRows cmd.account cmd.queue
      (hne ((b.purge now).rows cmd.account cmd.queue))
    apply Directory.TidyExcept.filterRows_eq hx.outer_nodup hx.inner_nodup hx hy
      (Directory.Within.refl _) ((within_purge b now).putRows houter hinner)
    intro account queue
    by_cases hplace : account = cmd.account ∧ queue = cmd.queue
    · obtain ⟨rfl, rfl⟩ := hplace
      rw [Directory.rows_putRows_self, Directory.rows_putRows_self]
      refine (putMessage_purge fun m hm hid hexpired => hfind ⟨m, ?_, hexpired⟩).symm
      have hfound := find?_hasKey_of_mem BurrowMessage.messageId (h.nodup _ _) hm
      rw [hid] at hfound
      exact hfound
    · have hother := not_and_or.1 hplace
      rw [Directory.rows_putRows_of_ne b _ _ _ hother, Directory.rows_putRows_of_ne _ _ _ _ hother,
        rows_purge, List.filter_filter]
      simp only [Bool.and_self]

/-! ### Listings -/

/-- A listing is the same exactly when it names none of what is dropped. -/
theorem nameWindow_filter_iff {names : List String} (h : names.Nodup) (p : String → Bool) :
    nameWindow cmd names = nameWindow cmd (names.filter p) ↔
      ∀ name ∈ nameWindow cmd names, name ∈ names.filter p := by
  rw [eq_comm, nameWindow, nameWindow,
    window_filter_eq_iff id p (by rw [List.map_id]; exact h)]
  apply forall₂_congr
  intro name hname
  rw [List.mem_filter]
  exact (and_iff_right (mem_of_mem_window id hname)).symm

theorem agree_getAccounts (h : BrokerOk E e b) :
    Agree b now cmd .getAccounts (b.getAccounts cmd) ((b.purge now).getAccounts cmd) where
  reports := by
    intro hkept
    have hwindow : nameWindow cmd b.outer = nameWindow cmd (b.purge now).outer :=
      (nameWindow_filter_iff h.outer_nodup _).2 hkept
    rw [Broker.getAccounts, Broker.getAccounts, hwindow]
  result := iff_of_true rfl trivial
  store := fun _ => purge_purge h

theorem agree_getQueues (h : BrokerOk E e b) :
    Agree b now cmd .getQueues (b.getQueues cmd) ((b.purge now).getQueues cmd) where
  reports := by
    intro hkept
    have hwindow : nameWindow cmd (b.inner cmd.account) =
        nameWindow cmd ((b.purge now).inner cmd.account) :=
      (nameWindow_filter_iff (h.inner_nodup cmd.account) _).2 hkept
    rw [Broker.getQueues, Broker.getQueues, hwindow]
  result := iff_of_true rfl trivial
  store := fun _ => purge_purge h

/-- Every command at one time, if it gets no expired message. -/
theorem agree_execute (h : BrokerOk E e b) {r : Request} (hclock : ∀ t, r.ReadsClock t → t = now)
    (he : ¬ (r.name = .getMessage ∧ b.FindsExpired r.inputs.message.time r.cmd)) :
    Agree b now r.cmd r.name (b.execute r.inputs r.name r.cmd)
      ((b.purge now).execute r.inputs r.name r.cmd) := by
  obtain ⟨inputs, name, cmd⟩ := r
  cases name with
  | getAccounts => exact agree_getAccounts h
  | getQueues => exact agree_getQueues h
  -- a deletion reads the clock once for each queue, and every reading is `now`
  | deleteAccounts => exact agree_deleteAccounts h fun i j => hclock _ ⟨i, j, rfl⟩
  | deleteQueues => exact agree_deleteQueues h fun i => hclock _ ⟨i, rfl⟩
  | createMessage => exact agree_createMessage h inputs.create.time
  | getMessage =>
      obtain rfl : inputs.message.time = now := hclock _ rfl
      exact agree_getMessage h fun hfinds => he ⟨rfl, hfinds⟩
  | updateMessage =>
      obtain rfl : inputs.message.time = now := hclock _ rfl
      exact agree_updateMessage h
  | deleteMessage =>
      obtain rfl : inputs.message.time = now := hclock _ rfl
      exact agree_deleteMessage h
  | getMessages =>
      obtain rfl : inputs.scan.time = now := hclock _ rfl
      exact ⟨fun hw => scanned_purge hw rfl, iff_of_true rfl trivial,
        fun _ => scan_get_purge h rfl rfl⟩
  | updateMessages =>
      obtain rfl : inputs.scan.time = now := hclock _ rfl
      exact ⟨fun hw => scanned_purge hw rfl, iff_of_true rfl trivial, fun hw => scan_purge h hw rfl⟩
  | deleteMessages =>
      obtain rfl : inputs.scan.time = now := hclock _ rfl
      exact ⟨fun hw => scanned_purge hw rfl, iff_of_true rfl trivial, fun hw => scan_purge h hw rfl⟩

end Broker

/-! ## In the store -/

/-- Without a limit a window is kept, if it does not start at an expired message. -/
theorem windowKept_of_unlimited {b : Broker} {now : UInt32} {cmd : BackendCommand}
    (hlimit : cmd.limit = 0)
    (hmarker : ∀ m ∈ b.rows cmd.account cmd.queue, cmd.marker = some m.messageId →
      ¬ m.Expired now) : b.WindowKept now cmd := by
  rw [Broker.WindowKept, Broker.messageWindow, Broker.messageWindow, hlimit, rows_purge]
  exact window_filter_of_unlimited _ _ fun m hm hid => unexpired_iff.2 (hmarker m hm hid)

/-- What is not there any longer is not found expired. -/
theorem not_getsExpired_purge {s : AccountsSt} (h : StoreOk False s) {now : UInt32} {r : Request}
    (he : ¬ GetsExpired r s) : ¬ GetsExpired r (purge now s) := by
  rintro ⟨hname, m, hm, hexpired⟩
  rw [view_purge h, find_purge (brokerOk_view h), Option.mem_def, Option.filter_eq_some_iff] at hm
  exact he ⟨hname, m, hm.1, hexpired⟩

/-- **Lazy expiry.** At one time a command that gets no expired message makes the same
callbacks, returns the same code and leaves the same store but for expired messages, on a
store and on the store without its expired messages, as far as no expired message shows. -/
theorem lazy_expiry {s : AccountsSt} (hs : Reachable s) {now : UInt32} {r : Request}
    (hclock : ∀ t, r.ReadsClock t → t = now) (hmem : r.inputs.AllocationsSucceed)
    (hlive : r.cmd.IsLive) :
    (∀ o o', execute r.inputs r.name r.cmd s = .ok o →
      execute r.inputs r.name r.cmd (purge now s) = .ok o' →
      ((view s).ReportsKept now r.cmd r.name → o.callbacks = o'.callbacks) ∧
        (o.result = o'.result ↔ (view s).ResultKept now r.cmd r.name) ∧
        ((view s).StoreKept now r.cmd r.name →
          (view o.accounts).purge now = (view o'.accounts).purge now)) ∧
    (StoreWellFormed s → ¬ GetsExpired r s → ∃ o o', execute r.inputs r.name r.cmd s = .ok o ∧
      execute r.inputs r.name r.cmd (purge now s) = .ok o' ∧
      ((view s).StoreKept now r.cmd r.name → purge now o.accounts = purge now o'.accounts)) := by
  have hagree : ∀ {holes : Prop}, StoreOk holes s → ∀ o o',
      execute r.inputs r.name r.cmd s = .ok o →
      execute r.inputs r.name r.cmd (purge now s) = .ok o' →
      StoreOk holes o.accounts ∧ StoreOk holes o'.accounts ∧
        Agree (view s) now r.cmd r.name o.answer o'.answer := by
    intro holes h o o' ho ho'
    obtain ⟨hok, hanswer⟩ := execute_refines h hmem ho
    obtain ⟨hok', hanswer'⟩ := execute_refines (storeOk_purge h) hmem ho'
    rw [hanswer, hanswer', view_purge h]
    exact ⟨hok, hok', agree_execute (brokerOk_view h) hclock (not_getsExpired h ho)⟩
  constructor
  · intro o o' ho ho'
    obtain ⟨-, -, hboth⟩ := hagree hs.storeOk o o' ho ho'
    refine ⟨fun hkept => ?_, hboth.result, hboth.store⟩
    exact callbacks_eq_of_reports hs.storeOk (storeOk_purge hs.storeOk) ho ho' (hboth.reports hkept)
  · intro hwf he
    have h := (storeWellFormed_iff s).1 hwf
    obtain ⟨o, ho⟩ := (execute_reads h he).ok (argsLive_of_isLive hlive s)
    obtain ⟨o', ho'⟩ := (execute_reads (storeOk_purge h) (not_getsExpired_purge h he)).ok
      (argsLive_of_isLive hlive (purge now s))
    obtain ⟨hok, hok', hboth⟩ := hagree h o o' ho ho'
    refine ⟨o, o', ho, ho', fun hkept => ?_⟩
    apply eq_of_view_eq (storeOk_purge hok) (storeOk_purge hok')
    rw [view_purge hok, view_purge hok']
    exact hboth.store hkept

/-- A worker's claim without a limit, on a queue that holds an expired message. -/
theorem lazy_expiry_claim :
    ∃ o o',
      execute (ampleInputs 400) .updateMessages (claimCommand "a" "q" 0 60)
          (singleStore "a" "q" (createdMessage 10 (plainCommand "a" "q" "m" []))) = .ok o ∧
        execute (ampleInputs 400) .updateMessages (claimCommand "a" "q" 0 60)
          (purge 400 (singleStore "a" "q" (createdMessage 10 (plainCommand "a" "q" "m" [])))) =
            .ok o' ∧
        o.callbacks = o'.callbacks ∧ purge 400 o.accounts = purge 400 o'.accounts := by
  have hs : ReachableWithMemory
      (singleStore "a" "q" (createdMessage 10 (plainCommand "a" "q" "m" []))) :=
    reachableWithMemory_of_create 10 (plainCommand "a" "q" "m" []) rfl
  obtain ⟨hsame, hreturns⟩ := @lazy_expiry _ hs.reachable 400
    { inputs := ampleInputs 400, name := .updateMessages, cmd := claimCommand "a" "q" 0 60 }
    (fun t ht => ht) (ampleInputs_allocationsSucceed 400) (claimCommand_isLive _ _ _ _)
  obtain ⟨o, o', ho, ho', hstore⟩ :=
    hreturns ((storeWellFormed_iff _).2 hs.storeOk) fun he => absurd he.1 (by decide)
  have hkept :
      (view (singleStore "a" "q" (createdMessage 10 (plainCommand "a" "q" "m" [])))).WindowKept
      400 (claimCommand "a" "q" 0 60) :=
    windowKept_of_unlimited rfl fun m _ hmarker => absurd hmarker (by simp [claimCommand,
      BackendCommand.marker, BackendCommand.filters?, Object.value?])
  exact ⟨o, o', ho, ho', (hsame o o' ho ho').1 hkept, hstore hkept⟩

/-- An `update_message` on an expired message succeeds without a report; on the purged
store it finds nothing. -/
theorem expired_message_updated :
    ReachableWithMemory (singleStore "a" "q" (createdMessage 10 (plainCommand "a" "q" "m" []))) ∧
      (execute (ampleInputs 400) .updateMessage (plainCommand "a" "q" "m" [])
        (singleStore "a" "q" (createdMessage 10 (plainCommand "a" "q" "m" [])))).toOption.map
          Outcome.result = some 0 ∧
      (execute (ampleInputs 400) .updateMessage (plainCommand "a" "q" "m" [])
        (purge 400 (singleStore "a" "q"
          (createdMessage 10 (plainCommand "a" "q" "m" []))))).toOption.map
            Outcome.result = some EINVAL :=
  ⟨reachableWithMemory_of_create 10 (plainCommand "a" "q" "m" []) rfl, by decide, by decide⟩

end Burrow.Memory
