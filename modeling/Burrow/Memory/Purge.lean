import Burrow.Memory.Link

/-!
# The store without what has expired

The backend drops a message whose ttl has run out when a command comes across it,
and not before. `purge` is the store in which they are all dropped at once, with the
queues and accounts that this empties. It keeps the invariant, and represents the
broker without these messages (`view_purge`).

Without holes the broker decides the store (`eq_of_view_eq`), so that two stores
have one purge when their brokers have.
-/

set_option autoImplicit false

namespace Burrow.Memory

open KeyedList

/-! ## Dropping what has expired -/

/-- The ttl of the message has not run out. -/
def unexpired (now : UInt32) (m : BurrowMessage) : Bool := !decide (m.Expired now)

/-- The dictionary with what `f` makes of its nodes. -/
def Dictionary.filterMap {α : Type} (f : DictionaryNode α → Option (DictionaryNode α))
    (d : Dictionary α) : Dictionary α :=
  Dictionary.ofNodes (d.nodes.filterMap f)

/-- What `f` leaves of a list; nothing if the list held something and `f` leaves
none of it. -/
def Dictionary.shrink {α : Type} (f : Dictionary α → Dictionary α) (d : Dictionary α) :
    Option (Dictionary α) :=
  if (f d).nodes.isEmpty && !d.nodes.isEmpty then none else some (f d)

/-- A container with what `f` leaves of its list. A `NULL` pointer stays. -/
def DictionaryNode.shrink {α : Type} (f : Dictionary α → Dictionary α)
    (n : DictionaryNode (Dictionary α)) : Option (DictionaryNode (Dictionary α)) :=
  match n.data with
  | none => some n
  | some d => (d.shrink f).map fun d' => n.withData (some d')

/-- The messages of a queue that have not expired. -/
def purgeMessages (now : UInt32) : MessagesSt → MessagesSt :=
  Dictionary.filterMap fun n => if n.data.all (unexpired now) then some n else none

/-- The queues of an account without expired messages. -/
def purgeQueues (now : UInt32) : QueuesSt → QueuesSt :=
  Dictionary.filterMap (DictionaryNode.shrink (purgeMessages now))

/-- The store without expired messages and without the queues and accounts that
hold no others. -/
def purge (now : UInt32) : AccountsSt → AccountsSt :=
  Dictionary.filterMap (DictionaryNode.shrink (purgeQueues now))

/-- The broker without expired messages and without the queues and accounts that
hold no others. -/
def Broker.purge (now : UInt32) (b : Broker) : Broker := b.filterRows (unexpired now)

/-! ## The purged store represents the purged broker -/

section FilterMap

variable {α : Type} {P Q : DictionaryNode α → Prop} {d : Dictionary α}
  {f : DictionaryNode α → Option (DictionaryNode α)}

theorem Dictionary.WellFormed.filterMap (h : d.WellFormed P)
    (hkey : ∀ n n', f n = some n' → n'.key = n.key)
    (hQ : ∀ n n', P n → f n = some n' → Q n') : (d.filterMap f).WellFormed Q where
  length_eq := rfl
  nodup := h.nodup.sublist (map_filterMap_sublist DictionaryNode.key hkey d.nodes)
  all := by
    intro n' hn'
    obtain ⟨n, hn, hf⟩ := List.mem_filterMap.1 hn'
    exact hQ n n' (h.all n hn) hf

/-- A search in what is left is a search before. -/
theorem Dictionary.WellFormed.get_filterMap (h : d.WellFormed P)
    (hkey : ∀ n n', f n = some n' → n'.key = n.key) (key : String) :
    dictionaryGet (some (d.filterMap f)) (some key) =
      (dictionaryGet (some d) (some key)).bind f := by
  have hwf : (d.filterMap f).WellFormed fun _ => True := h.filterMap hkey fun _ _ _ _ => trivial
  rw [hwf.get_eq, h.get_eq]
  exact find?_filterMap DictionaryNode.key hkey key h.nodup

end FilterMap

section Shrink

variable {α : Type} {P : DictionaryNode (Dictionary α) → Prop} {d : Dictionary (Dictionary α)}
  {f : Dictionary α → Dictionary α}

theorem key_shrink {n n' : DictionaryNode (Dictionary α)} (h : n.shrink f = some n') :
    n'.key = n.key := by
  unfold DictionaryNode.shrink at h
  split at h
  · cases h
    rfl
  · obtain ⟨d', -, rfl⟩ := Option.map_eq_some_iff.1 h
    rfl

theorem data?_filterMap_shrink (h : d.WellFormed P) (key : String) :
    (d.filterMap (DictionaryNode.shrink f)).data? key =
      (d.data? key).bind (Dictionary.shrink f) := by
  rw [Dictionary.data?, h.get_filterMap (fun _ _ => key_shrink), Dictionary.data?]
  cases dictionaryGet (some d) (some key) with
  | none => rfl
  | some n =>
      rw [Option.bind_some, Option.bind_some, DictionaryNode.shrink]
      cases hdata : n.data with
      | none => exact hdata
      | some x =>
          simp only [Option.bind_some]
          cases x.shrink f with
          | none => rfl
          | some x' => rfl

/-- A list that is dropped has nothing to see in it. -/
theorem getD_shrink {β : Type} (φ : Dictionary α → β) {none' : β}
    (hφ : ∀ d : Dictionary α, d.nodes = [] → φ d = none') (x : Dictionary α) :
    ((x.shrink f).map φ).getD none' = φ (f x) := by
  unfold Dictionary.shrink
  split
  · next hdrop =>
      simp only [Bool.and_eq_true, List.isEmpty_iff] at hdrop
      exact (hφ _ hdrop.1).symm
  · rfl

theorem keys_filterMap_shrink (h : d.WellFormed P) :
    (d.filterMap (DictionaryNode.shrink f)).keys =
      d.keys.filter fun key => (d.data? key).all fun x => (x.shrink f).isSome := by
  have hnodes : ∀ nodes : List (DictionaryNode (Dictionary α)), (∀ n ∈ nodes, n ∈ d.nodes) →
      (nodes.filterMap (DictionaryNode.shrink f)).map DictionaryNode.key =
        (nodes.map DictionaryNode.key).filter fun key =>
          (d.data? key).all fun x => (x.shrink f).isSome := by
    -- by induction on the nodes, all of them of `d`, whose lookups they answer
    intro nodes
    induction nodes with
    | nil => exact fun _ => rfl
    | cons n rest ih =>
        intro hall
        have hrest := ih fun n' hn' => hall n' (List.mem_cons_of_mem _ hn')
        have hdata : d.data? n.key = n.data := by
          rw [Dictionary.data?, h.get_of_mem (hall n List.mem_cons_self), Option.bind_some]
        rw [List.map_cons]
        cases hn : n.data with
        | none =>
            have hshrink : n.shrink f = some n := by rw [DictionaryNode.shrink, hn]
            rw [List.filterMap_cons_some hshrink, List.map_cons, List.filter_cons_of_pos, hrest]
            simp [hdata, hn]
        | some x =>
            cases hx : x.shrink f with
            | none =>
                have hshrink : n.shrink f = none := by rw [DictionaryNode.shrink, hn]; simp [hx]
                rw [List.filterMap_cons_none hshrink, List.filter_cons_of_neg, hrest]
                simp [hdata, hn, hx]
            | some x' =>
                have hshrink : n.shrink f = some (n.withData (some x')) := by
                  rw [DictionaryNode.shrink, hn]; simp [hx]
                rw [List.filterMap_cons_some hshrink, List.map_cons, List.filter_cons_of_pos, hrest]
                · rfl
                · simp [hdata, hn, hx]
  exact hnodes d.nodes fun _ hn => hn

end Shrink

section Purge

variable {holes : Prop} {now : UInt32}

theorem messages_filterMap_key {n n' : DictionaryNode BurrowMessage}
    (h : (if n.data.all (unexpired now) then some n else none) = some n') : n' = n := by
  split at h
  · exact (Option.some.inj h).symm
  · exact absurd h (by simp)

theorem wellFormed_purgeMessages {messages : MessagesSt} (h : messages.WellFormed MessageNodeOk) :
    (purgeMessages now messages).WellFormed MessageNodeOk := by
  apply h.filterMap
  · intro n n' hn
    rw [messages_filterMap_key hn]
  · intro n n' hok hn
    rw [messages_filterMap_key hn]
    exact hok

theorem contents_purgeMessages (messages : MessagesSt) :
    contents (purgeMessages now messages) = (contents messages).filter (unexpired now) := by
  show (messages.nodes.filterMap _).filterMap DictionaryNode.data =
    (messages.nodes.filterMap DictionaryNode.data).filter (unexpired now)
  rw [List.filterMap_filterMap, List.filter_filterMap]
  apply List.filterMap_congr
  intro n _
  cases hdata : n.data with
  | none => simp [hdata]
  | some m =>
      cases hm : unexpired now m with
      | true => simp [hdata, hm, Option.filter_some_pos]
      | false => simp [hm, Option.filter_some_neg]

theorem shrink_eq_some {α : Type} {f : Dictionary α → Dictionary α} {x x' : Dictionary α}
    (h : x.shrink f = some x') : f x = x' ∧ (x'.nodes = [] → x.nodes = []) := by
  unfold Dictionary.shrink at h
  split at h
  · exact absurd h (by simp)
  · next hkeep =>
      cases h
      refine ⟨rfl, fun hnil => ?_⟩
      by_contra hsome
      exact hkeep (by simp [hnil, hsome])

theorem shrink_node_eq_some {α : Type} {f : Dictionary α → Dictionary α}
    {n n' : DictionaryNode (Dictionary α)} (h : n.shrink f = some n') :
    n.data = none ∧ n' = n ∨
      ∃ x x', n.data = some x ∧ x.shrink f = some x' ∧ n' = n.withData (some x') := by
  unfold DictionaryNode.shrink at h
  split at h
  · next hnone => exact Or.inl ⟨hnone, (Option.some.inj h).symm⟩
  · next x hsome =>
      obtain ⟨x', hx', rfl⟩ := Option.map_eq_some_iff.1 h
      exact Or.inr ⟨x, x', hsome, hx', rfl⟩

theorem wellFormed_purgeQueues {queues : QueuesSt} (h : queues.WellFormed (QueueNodeOk holes)) :
    (purgeQueues now queues).WellFormed (QueueNodeOk holes) := by
  apply h.filterMap fun _ _ => key_shrink
  intro n n' hok hn
  rcases shrink_node_eq_some hn with ⟨-, rfl⟩ | ⟨x, x', hdata, hx, rfl⟩
  · exact hok
  · rcases hok with ⟨hnone, -⟩ | ⟨messages, hmessages, hwf, hne⟩
    · rw [hdata] at hnone
      exact absurd hnone (by simp)
    · obtain rfl : x = messages := Option.some.inj (hdata.symm.trans hmessages)
      obtain ⟨rfl, hkeep⟩ := shrink_eq_some hx
      exact Or.inr ⟨_, rfl, wellFormed_purgeMessages hwf, fun hnil => hne (hkeep hnil)⟩

/-- Dropping what has expired keeps the invariant. -/
theorem storeOk_purge {s : AccountsSt} (h : StoreOk holes s) : StoreOk holes (purge now s) := by
  apply Dictionary.WellFormed.filterMap h fun _ _ => key_shrink
  intro n n' hok hn
  rcases shrink_node_eq_some hn with ⟨-, rfl⟩ | ⟨x, x', hdata, hx, rfl⟩
  · exact hok
  · rcases hok with ⟨hnone, -⟩ | ⟨queues, hqueues, hwf, hempty⟩
    · rw [hdata] at hnone
      exact absurd hnone (by simp)
    · obtain rfl : x = queues := Option.some.inj (hdata.symm.trans hqueues)
      obtain ⟨rfl, hkeep⟩ := shrink_eq_some hx
      exact Or.inr ⟨_, rfl, wellFormed_purgeQueues hwf, fun hnil => hempty (hkeep hnil)⟩

theorem queueMessages_eq_getD (s : AccountsSt) (account queue : String) :
    queueMessages s account queue =
      ((s.data? account).map fun queues => queueRows queues queue).getD [] := by
  unfold queueMessages
  cases s.data? account with
  | none => rfl
  | some queues => rfl

theorem queueRows_of_nodes_eq_nil (queue : String) {queues : QueuesSt} (h : queues.nodes = []) :
    queueRows queues queue = [] := by
  rw [queueRows, Dictionary.data?_of_nodes_eq_nil h]
  rfl

theorem contents_of_nodes_eq_nil {messages : MessagesSt} (h : messages.nodes = []) :
    contents messages = [] := by
  rw [contents, h, List.filterMap_nil]

theorem queueRows_purgeQueues {queues : QueuesSt} (h : queues.WellFormed (QueueNodeOk holes))
    (queue : String) :
    queueRows (purgeQueues now queues) queue = (queueRows queues queue).filter (unexpired now) := by
  rw [queueRows, purgeQueues, data?_filterMap_shrink h, queueRows]
  cases queues.data? queue with
  | none => rfl
  | some messages =>
      rw [Option.bind_some, getD_shrink contents fun _ => contents_of_nodes_eq_nil,
        contents_purgeMessages]
      rfl

theorem queueMessages_purge {s : AccountsSt} (h : StoreOk holes s) (account queue : String) :
    queueMessages (purge now s) account queue =
      (queueMessages s account queue).filter (unexpired now) := by
  rw [queueMessages_eq_getD, queueMessages_eq_getD, purge, data?_filterMap_shrink h]
  cases haccount : s.data? account with
  | none => rfl
  | some queues =>
      rcases (Dictionary.WellFormed.data?_eq_some h haccount).2 with ⟨hnone, -⟩ | ⟨_, hdata, hwf, -⟩
      · exact absurd hnone (by simp)
      · cases hdata
        rw [Option.bind_some, getD_shrink (fun queues : QueuesSt => queueRows queues queue)
          fun _ => queueRows_of_nodes_eq_nil queue, queueRows_purgeQueues hwf]
        rfl

/-- A queue stays if one of its messages does. -/
theorem isSome_shrink_messages {messages : MessagesSt} (h : messages.WellFormed MessageNodeOk)
    (hne : messages.nodes ≠ []) :
    (messages.shrink (purgeMessages now)).isSome = (contents messages).any (unexpired now) := by
  have hany : (contents messages).any (unexpired now) =
      !((contents messages).filter (unexpired now)).isEmpty := by
    rw [Bool.eq_iff_iff]
    simp [List.filter_eq_nil_iff]
  have hnil : (purgeMessages now messages).nodes = [] ↔
      (contents messages).filter (unexpired now) = [] := by
    rw [← contents_purgeMessages]
    constructor
    · intro hnodes
      exact contents_of_nodes_eq_nil hnodes
    · intro hcontents
      by_contra hnodes
      exact contents_ne_nil (wellFormed_purgeMessages h) hnodes hcontents
  rw [hany, Dictionary.shrink]
  by_cases hdrop : (contents messages).filter (unexpired now) = []
  · simp [hdrop, hnil.2 hdrop, hne]
  · have hkeep : (purgeMessages now messages).nodes ≠ [] := fun h => hdrop (hnil.1 h)
    simp [hdrop, hkeep]

/-- The queues left of an account are those that hold another message. -/
theorem keys_purgeQueues {queues : QueuesSt} (h : queues.WellFormed (QueueNodeOk holes)) :
    (purgeQueues now queues).keys = queues.keys.filter fun queue =>
      (queueRows queues queue).isEmpty || (queueRows queues queue).any (unexpired now) := by
  rw [purgeQueues, keys_filterMap_shrink h]
  apply List.filter_congr
  intro queue _
  unfold queueRows
  cases hqueue : queues.data? queue with
  | none => rfl
  | some messages =>
      rcases (h.data?_eq_some hqueue).2 with ⟨hnone, -⟩ | ⟨_, hdata, hwf, hne⟩
      · exact absurd hnone (by simp)
      cases hdata
      rw [Option.all_some, isSome_shrink_messages hwf hne, Option.map_some, Option.getD_some,
        List.isEmpty_eq_false_iff.2 (contents_ne_nil hwf hne), Bool.false_or]

theorem queueNames_purge {s : AccountsSt} (h : StoreOk holes s) (account : String) :
    queueNames (purge now s) account = ((view s).purge now).inner account := by
  show _ = (queueNames s account).filter _
  rw [queueNames, purge, data?_filterMap_shrink h]
  cases haccount : s.data? account with
  | none =>
      rw [queueNames_eq_nil haccount]
      rfl
  | some queues =>
      rcases (Dictionary.WellFormed.data?_eq_some h haccount).2 with ⟨hnone, -⟩ | ⟨_, hdata, hwf, -⟩
      · exact absurd hnone (by simp)
      cases hdata
      rw [Option.bind_some, getD_shrink Dictionary.keys fun d => (Dictionary.keys_eq_nil_iff d).2,
        keys_purgeQueues hwf, queueNames_eq haccount]
      apply List.filter_congr
      intro queue _
      have hrows : (view s).rows account queue = queueRows queues queue :=
        queueMessages_eq haccount queue
      rw [hrows]

theorem keys_purge {s : AccountsSt} (h : StoreOk holes s) :
    (purge now s).keys = ((view s).purge now).outer := by
  -- an account stays when it had no queue before, or has one left
  show _ = s.keys.filter fun a =>
    (queueNames s a).isEmpty || !(((view s).purge now).inner a).isEmpty
  rw [purge, keys_filterMap_shrink h]
  apply List.filter_congr
  intro account _
  rw [← queueNames_purge h]
  unfold queueNames
  rw [purge, data?_filterMap_shrink h]
  cases haccount : s.data? account with
  | none => rfl
  | some queues =>
      rw [Option.bind_some, getD_shrink Dictionary.keys fun d => (Dictionary.keys_eq_nil_iff d).2]
      unfold Dictionary.shrink
      have hkeys : ∀ d : QueuesSt, d.keys.isEmpty = d.nodes.isEmpty := fun d => List.isEmpty_map
      simp only [Option.all_some, Option.map_some, Option.getD_some, hkeys]
      cases queues.nodes.isEmpty with
      | true => simp
      | false =>
          cases (purgeQueues now queues).nodes.isEmpty with
          | true => rfl
          | false => rfl

/-- **The purged store represents the purged broker.** -/
theorem view_purge {s : AccountsSt} (h : StoreOk holes s) :
    view (purge now s) = (view s).purge now :=
  Directory.ext' (keys_purge h) (queueNames_purge h) (queueMessages_purge h)

end Purge

/-! ## A store without holes is given by the broker -/

theorem Dictionary.WellFormed.ext {α : Type} {P P' : DictionaryNode α → Prop} {d d' : Dictionary α}
    (h : d.WellFormed P) (h' : d'.WellFormed P') (hkeys : d.keys = d'.keys)
    (hdata : ∀ key ∈ d.keys, d.data? key = d'.data? key) : d = d' := by
  have hnodes : ∀ {P : DictionaryNode α → Prop} {d : Dictionary α}, d.WellFormed P →
      d.nodes = d.keys.map fun key => { key := key, data := d.data? key } := by
    intro P d h
    rw [Dictionary.keys, List.map_map]
    refine (List.map_id d.nodes).symm.trans (List.map_congr_left fun n hn => ?_)
    have hn' : d.data? n.key = n.data := by
      rw [Dictionary.data?, h.get_of_mem hn, Option.bind_some]
    show n = { key := n.key, data := d.data? n.key }
    rw [hn']
  rw [h.eq_ofNodes, h'.eq_ofNodes, hnodes h, hnodes h', ← hkeys]
  congr 1
  apply List.map_congr_left
  intro key hkey
  rw [hdata key hkey]

theorem queues_eq_of_keys {queues queues' : QueuesSt} (h : queues.WellFormed (QueueNodeOk False))
    (h' : queues'.WellFormed (QueueNodeOk False)) (hkeys : queues.keys = queues'.keys)
    (hrows : ∀ queue, queueRows queues queue = queueRows queues' queue) : queues = queues' := by
  apply h.ext h' hkeys
  intro queue hmem
  rcases h.exists_of_mem_keys hmem with ⟨-, hf⟩ | ⟨messages, hq, hwf, -⟩
  · exact hf.elim
  rcases h'.exists_of_mem_keys (hkeys ▸ hmem) with ⟨-, hf⟩ | ⟨messages', hq', hwf', -⟩
  · exact hf.elim
  have heq := hrows queue
  dsimp only at hq hq'
  rw [queueRows, queueRows, hq, hq'] at heq
  have hcontents : contents messages = contents messages' := heq
  rw [hq, hq', eq_ofMessages hwf, eq_ofMessages hwf', hcontents]

/-- Well-formed stores that represent the same broker are the same. -/
theorem eq_of_view_eq {s s' : AccountsSt} (h : StoreOk False s) (h' : StoreOk False s')
    (hview : view s = view s') : s = s' := by
  have hkeys : s.keys = s'.keys := congrArg Directory.outer hview
  apply Dictionary.WellFormed.ext h h' hkeys
  intro account hmem
  rcases Dictionary.WellFormed.exists_of_mem_keys h hmem with ⟨-, hf⟩ | ⟨queues, ha, hwf, -⟩
  · exact hf.elim
  rcases Dictionary.WellFormed.exists_of_mem_keys h' (hkeys ▸ hmem) with
    ⟨-, hf⟩ | ⟨queues', ha', hwf', -⟩
  · exact hf.elim
  dsimp only at ha ha'
  have hnames : queues.keys = queues'.keys := by
    rw [← queueNames_eq ha, ← queueNames_eq ha']
    exact congrFun (congrArg Directory.inner hview) account
  have hrows : ∀ queue, queueRows queues queue = queueRows queues' queue := by
    intro queue
    have heq : queueMessages s account queue = queueMessages s' account queue :=
      congrFun (congrFun (congrArg Directory.rows hview) account) queue
    rw [queueMessages_eq ha, queueMessages_eq ha'] at heq
    exact heq
  rw [ha, ha', queues_eq_of_keys hwf hwf' hnames hrows]

end Burrow.Memory
