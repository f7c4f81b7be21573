import Burrow.Managed.Teardown

/-!
# Cloning into a managed object

`burrow_attributes_clone` and `burrow_filters_clone` call the creating function on the
destination they are given, and that writes its links as those of an object that is not
managed. Where the destination is managed it stays on the list, behind itself: the list
has no end any more, and the loop of `burrow_destroy` comes to the object a second time
after it has freed it (`clone_into_managed`).
-/

set_option autoImplicit false

namespace Burrow.Managed

open IntrusiveList

universe u

variable {V : Type u} {h h' : Heap V} {r : Registry} {b : BurrowId} {dest src : Address}

/-! ## What is promised -/

/-- The source is merely copied to the destination: the list is made of the objects it
was made of, and both a destroy of the destination and `burrow_destroy` work as before. -/
structure CopiesOnly (dest src : Address) (b : BurrowId) (h h' : Heap V) : Prop where
  copied : (h'.cells dest).map Node.value = (h.cells src).map Node.value
  listed : ∀ l, Linked (h.pointers b) none l →
    ∃ l', Linked (h'.pointers b) none l' ∧ ∀ a, a ∈ l' ↔ a ∈ l
  destroyed : ∃ h'', destroy dest h' = .ok h'' ∧ ∀ l, Linked (h.pointers b) none l →
    ∃ l', Linked (h''.pointers b) none l' ∧ ∀ a, a ∈ l' ↔ a ∈ l ∧ a ≠ dest
  released : ∀ l, Linked (h.pointers b) none l →
    ∃ fuel l' h'', destroyLoop fuel b h' = .ok (some (l', h'')) ∧ List.Perm l' l

/-- The links from the list of the burrow structure have no end, and the loop of
`burrow_destroy` reads an object it has freed. -/
structure ListBroken (b : BurrowId) (h : Heap V) : Prop where
  endless : ∀ l, ¬ Linked (h.pointers b) none l
  freed_twice : ∃ rounds, ∀ fuel, rounds ≤ fuel →
    destroyLoop fuel b h = .error .destroyedObject

/-! ## What happens -/

/-- The heap is another one but for the destination, which comes behind itself. -/
structure Spoiled (dest : Address) (h h' : Heap V) : Prop where
  list : h'.list = h.list
  cells : ∀ c, c ≠ dest → h'.cells c = h.cells c
  self : ∃ bad, h'.cells dest = some bad ∧ bad.next = some dest

/-- A clone into an object, managed or not. The values are copied unless the destination is
the source: then they are reset before they are read. -/
theorem clone_into (empty : V) {source : Node V} (hsrc : h.cells src = some source)
    (dest : Address) (alloc : Option Address) :
    ∃ h', clone empty (some dest) src alloc h = .ok (some dest, h') ∧ Spoiled dest h h' ∧
      (h'.cells dest).map Node.value = some (if src = dest then empty else source.value) := by
  obtain ⟨h₁, hh₁⟩ :
      ∃ h₁, h₁ = h.write dest ⟨empty, source.burrow, some dest, some dest⟩ := ⟨_, rfl⟩
  have hcreated : h₁.cells dest = some ⟨empty, source.burrow, some dest, some dest⟩ := by
    rw [hh₁]
    exact Function.update_self ..
  have hother : ∀ c, c ≠ dest → h₁.cells c = h.cells c := by
    intro c hc
    rw [hh₁]
    exact Function.update_of_ne hc ..
  obtain ⟨source₁, hsource₁, hvalue⟩ : ∃ source₁, h₁.cells src = some source₁ ∧
      source₁.value = if src = dest then empty else source.value := by
    by_cases hsd : src = dest
    · exact ⟨_, hsd ▸ hcreated, (if_pos hsd).symm⟩
    · exact ⟨source, (hother src hsd).trans hsrc, (if_neg hsd).symm⟩
  refine ⟨h₁.write dest ⟨source₁.value, source.burrow, some dest, some dest⟩, ?_,
    ⟨?_, ?_, ⟨_, Function.update_self .., rfl⟩⟩, ?_⟩
  · simp only [clone, create, Heap.read_of_cells hsrc, ← hh₁, Heap.read_of_cells hsource₁,
      Heap.modify_of_cells hcreated]
  · rw [Heap.write_list, hh₁, Heap.write_list]
  · intro c hc
    exact (Function.update_of_ne hc ..).trans (hother c hc)
  · rw [← hvalue, Heap.write]
    dsimp only
    rw [Function.update_self, Option.map_some]

/-- The loop of `burrow_destroy` takes the objects before the destination off the list. -/
theorem Spoiled.destroy_first (hspoiled : Spoiled dest h h') (href : Refines r h) {a : Address}
    {l : List Address} (hchain : Chain h r b (a :: l)) (hdest : dest ∈ l) :
    ∃ h₁ h₁', destroy a h = .ok h₁ ∧ destroy a h' = .ok h₁' ∧ Spoiled dest h₁ h₁' := by
  obtain ⟨node, hnode, hburrow, -⟩ := href.live a _ ((hchain.mem_iff a).1 List.mem_cons_self)
  have hnodup := List.nodup_cons.1 hchain.nodup
  have had : a ≠ dest := by
    rintro rfl
    exact hnodup.1 hdest
  have hprev : node.prev = none := by
    rw [← Heap.pointers_bk_some hnode b]
    exact hchain.linked.2.1
  have hself : node.next ≠ some a := by
    rw [← Heap.pointers_fd_some hnode b]
    exact hchain.linked.fd_ne_self List.mem_cons_self
  have hnext : ∀ n, node.next = some n → ∃ m, h.cells n = some m := by
    intro n hn
    have hlinked : Linked (h.pointers b) none ([] ++ a :: l) := hchain.linked
    have hmem := hlinked.fd_mem ((Heap.pointers_fd_some hnode b).trans hn)
    exact href.cells_of_live ((hchain.mem_iff n).1 (List.mem_cons_of_mem _ hmem))
  have hnone : ∀ {g : Heap V} p, node.prev = some p → ∃ m, g.cells p = some m := by
    intro g p hp
    rw [hprev] at hp
    exact absurd hp (by simp)
  obtain ⟨bad, hbad, hbadself⟩ := hspoiled.self
  obtain ⟨h₁, heq, hlist, hgone, hcells⟩ := destroy_managed hnode hburrow hself hnext hnone
  obtain ⟨h₁', heq', hlist', hgone', hcells'⟩ :=
    destroy_managed ((hspoiled.cells a had).trans hnode) hburrow hself (fun n hn => by
      by_cases hnd : n = dest
      · exact ⟨bad, hnd ▸ hbad⟩
      · rw [hspoiled.cells n hnd]
        exact hnext n hn) hnone
  refine ⟨h₁, h₁', heq, heq', ?_, ?_, ?_⟩
  · rw [hlist, hlist', hspoiled.list]
  · intro c hc
    by_cases hca : c = a
    · rw [hca, hgone, hgone']
    · rw [hcells c hca, hcells' c hca, hspoiled.cells c hc]
  · refine ⟨_, (hcells' dest (Ne.symm had)).trans (by rw [hbad, Option.map_some]), ?_⟩
    show (if node.prev = some dest then _ else bad.next) = some dest
    rw [if_neg (by rw [hprev]; simp), hbadself]

/-- **The loop of `burrow_destroy` comes to the destination twice.** -/
theorem Spoiled.destroyLoop_error (hspoiled : Spoiled dest h h') (href : Refines r h)
    {pre post : List Address} (hchain : Chain h r b (pre ++ dest :: post)) {fuel : Nat}
    (hfuel : pre.length + 2 ≤ fuel) : destroyLoop fuel b h' = .error .destroyedObject := by
  -- by induction on the objects before the destination, in step with the sound heap
  induction pre generalizing h h' r fuel with
  | nil =>
      obtain ⟨fuel, rfl⟩ := Nat.exists_eq_add_of_le' hfuel
      obtain ⟨bad, hbad, hself⟩ := hspoiled.self
      have hlist : h'.list b = some dest := by
        rw [hspoiled.list]
        exact hchain.linked.1
      -- the destination is freed and stays first, and the next round reads it
      have hfirst : destroy dest h' = .ok (h'.free dest) := by
        simp only [destroy, Heap.read_of_cells hbad]
        cases bad.burrow with
        | none => rfl
        | some b => exact if_pos hself
      have hsecond : destroy dest (h'.free dest) = .error .destroyedObject := by
        have hgone : (h'.free dest).cells dest = none := Function.update_self ..
        simp only [destroy, Heap.read, hgone]
      show destroyLoop (fuel + 1 + 1) b h' = _
      rw [destroyLoop, hlist]
      simp only [hfirst]
      rw [destroyLoop, Heap.free_list, hlist]
      simp only [hsecond]
  | cons a pre ih =>
      obtain ⟨fuel, rfl⟩ := Nat.exists_eq_succ_of_ne_zero (Nat.ne_of_gt (Nat.zero_lt_of_lt hfuel))
      have hlist : h'.list b = some a := by
        rw [hspoiled.list]
        exact hchain.linked.1
      obtain ⟨h₁, h₁', heq, heq', hspoiled₁⟩ := hspoiled.destroy_first href hchain
        (List.mem_append_right _ List.mem_cons_self)
      have hfront : Chain h r b ([] ++ a :: (pre ++ dest :: post)) := hchain
      obtain ⟨h₂, heq₂, href₂, hchain₂, -⟩ := refines_destroy_managed href hfront
      obtain rfl : h₁ = h₂ := Except.ok.inj (heq.symm.trans heq₂)
      rw [destroyLoop, hlist]
      simp only [heq', ih hspoiled₁ href₂ hchain₂ (Nat.le_of_succ_le_succ hfuel)]

theorem Spoiled.listBroken (hspoiled : Spoiled dest h h') (href : Refines r h)
    (hdest : r dest = some (.managed b)) : ListBroken b h' := by
  obtain ⟨l, hchain⟩ := href.chain b
  obtain ⟨pre, post, rfl⟩ := List.append_of_mem ((hchain.mem_iff dest).2 hdest)
  refine ⟨?_, pre.length + 2, fun fuel hfuel => hspoiled.destroyLoop_error href hchain hfuel⟩
  refine hchain.linked.not_of_self (by simp) ?_ ?_
  · intro y hy
    cases y with
    | none => exact congrFun hspoiled.list b
    | some c =>
        have hc : c ≠ dest := fun heq => hy (by rw [heq])
        show (h'.cells c).bind Node.next = (h.cells c).bind Node.next
        rw [hspoiled.cells c hc]
  · obtain ⟨bad, hbad, hself⟩ := hspoiled.self
    rw [Heap.pointers_fd_some hbad, hself]

theorem ListBroken.not_copiesOnly {l : List Address} (hbroken : ListBroken b h')
    (hlinked : Linked (h.pointers b) none l) : ¬ CopiesOnly dest src b h h' := by
  intro hcopies
  obtain ⟨l', hlinked', -⟩ := hcopies.listed l hlinked
  exact hbroken.endless l' hlinked'

/-- **A clone into a managed object breaks the list** of the burrow structure, whatever the
objects and whatever the source. -/
theorem clone_into_managed (empty : V) (href : Refines r h) (hdest : r dest = some (.managed b))
    (hsrc : r src ≠ none) (alloc : Option Address) :
    ∃ h', clone empty (some dest) src alloc h = .ok (some dest, h') ∧ ListBroken b h' ∧
      ¬ CopiesOnly dest src b h h' := by
  obtain ⟨owner, howner⟩ := Option.ne_none_iff_exists'.1 hsrc
  obtain ⟨source, hsource⟩ := href.cells_of_live howner
  obtain ⟨h', heq, hspoiled, -⟩ := clone_into empty hsource dest alloc
  obtain ⟨l, hchain⟩ := href.chain b
  have hbroken := hspoiled.listBroken href hdest
  exact ⟨h', heq, hbroken, hbroken.not_copiesOnly hchain.linked⟩

/-- **No clone into a managed object only copies values**, after any run of the object
functions, for objects of either kind. -/
theorem clone_never_copies_only {calls : List Call} {r : Registries} {s : Objects}
    (hrun : Machine.run registriesStep calls Registries.empty = .ok r)
    (hs : Machine.run objectStep calls Objects.none = .ok s) (b : BurrowId)
    (dest src : Address) (alloc : Option Address) :
    (r.attributes dest = some (.managed b) → r.attributes src ≠ none →
      ∃ h', burrowAttributesClone (some dest) src alloc s.attributes = .ok (some dest, h') ∧
        ListBroken b h' ∧ ¬ CopiesOnly dest src b s.attributes h') ∧
    (r.filters dest = some (.managed b) → r.filters src ≠ none →
      ∃ h', burrowFiltersClone (some dest) src alloc s.filters = .ok (some dest, h') ∧
        ListBroken b h' ∧ ¬ CopiesOnly dest src b s.filters h') := by
  obtain ⟨s', hs', hattributes, hfilters⟩ := refines_run hrun
  obtain rfl : s = s' := Except.ok.inj (hs.symm.trans hs')
  exact ⟨fun hdest hsrc => clone_into_managed emptyAttributes hattributes hdest hsrc alloc,
    fun hdest hsrc => clone_into_managed emptyFilters hfilters hdest hsrc alloc⟩

/-- Two managed objects of each kind. -/
def twoObjects : List Call :=
  [.attributes (.create none (some 7) 1), .attributes (.create none (some 7) 2),
    .filters (.create none (some 7) 3), .filters (.create none (some 7) 4)]

theorem clone_never_copies_only_two :
    ∃ s, Machine.run objectStep twoObjects Objects.none = .ok s ∧
      (∃ h', burrowAttributesClone (some 1) 2 none s.attributes = .ok (some 1, h') ∧
        ListBroken 7 h') ∧
      ∃ h', burrowFiltersClone (some 3) 3 none s.filters = .ok (some 3, h') ∧
        ListBroken 7 h' := by
  obtain ⟨h₁, heq₁, hbroken₁, -⟩ := (@clone_never_copies_only twoObjects _ _ rfl rfl 7 1 2 none).1
    rfl (by decide)
  obtain ⟨h₂, heq₂, hbroken₂, -⟩ := (@clone_never_copies_only twoObjects _ _ rfl rfl 7 3 3 none).2
    rfl (by decide)
  exact ⟨_, rfl, ⟨h₁, heq₁, hbroken₁⟩, ⟨h₂, heq₂, hbroken₂⟩⟩

/-- The source is the older object, the destination the newer: `burrow_destroy` frees the
newer object and reads it again. -/
theorem clone_into_first :
    ∃ s h', Machine.run objectStep twoObjects Objects.none = .ok s ∧
      burrowAttributesClone (some 2) 1 none s.attributes = .ok (some 2, h') ∧
      destroyLoop 2 7 h' = .error .destroyedObject ∧ ¬ CopiesOnly 2 1 7 s.attributes h' := by
  refine ⟨_, _, rfl, rfl, rfl, fun hcopies => ?_⟩
  obtain ⟨l, hlinked, -⟩ := hcopies.listed [2, 1] ⟨rfl, rfl, rfl, rfl, rfl⟩
  cases l with
  | nil => exact absurd (show some 2 = (none : Option Address) from hlinked) (by simp)
  | cons a l =>
      obtain rfl : 2 = a := Option.some.inj hlinked.1
      exact hlinked.fd_ne_self List.mem_cons_self rfl

end Burrow.Managed
