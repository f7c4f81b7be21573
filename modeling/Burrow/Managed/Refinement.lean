import Burrow.Managed.Registry

/-!
# The object functions refine the registry

What each function changes on the heap (`modifyLink_spec`, `create_managed`,
`destroy_managed`), and that it keeps the refinement where the registry takes the call
(`refines_apply`): a new managed object comes to the front of its list, a managed object
is taken off wherever it stands, and every other list stays as it is.
-/

set_option autoImplicit false

namespace Burrow.Managed

open IntrusiveList

universe u

variable {V : Type u}

/-! ## What the functions change -/

section Changes

variable {h : Heap V} {a : Address} {b : BurrowId}

/-- A link leads to an object that is written, or to none. -/
theorem modifyLink_spec {x : Option Address} (f : Node V → Node V)
    (hlive : ∀ n, x = some n → ∃ node, h.cells n = some node) :
    ∃ h', h.modifyLink x f = .ok h' ∧ h'.list = h.list ∧
      ∀ c, h'.cells c = (h.cells c).map fun node => if x = some c then f node else node := by
  cases x with
  | none =>
      refine ⟨h, rfl, rfl, fun c => ?_⟩
      cases h.cells c <;> simp
  | some n =>
      obtain ⟨node, hnode⟩ := hlive n rfl
      refine ⟨_, Heap.modify_of_cells hnode f, rfl, fun c => ?_⟩
      rw [Heap.write]
      dsimp only
      by_cases hcn : c = n
      · subst hcn
        rw [Function.update_self, hnode, Option.map_some, if_pos rfl]
      · have hne : some n ≠ some c := fun heq => hcn (Option.some.inj heq).symm
        rw [Function.update_of_ne hcn]
        cases h.cells c <;> simp [hne]

/-- A new managed object is written, and the object that was first is linked to it. -/
theorem create_managed (empty : V) (hhead : ∀ n, h.list b = some n → ∃ node, h.cells n = some node)
    (hfresh : h.list b ≠ some a) :
    ∃ h', create empty none (some b) (some a) h = .ok (some a, h') ∧
      h'.list = Function.update h.list b (some a) ∧
      h'.cells a = some ⟨empty, some b, h.list b, none⟩ ∧
      ∀ c, c ≠ a → h'.cells c = (h.cells c).map fun node =>
        if h.list b = some c then { node with prev := some a } else node := by
  obtain ⟨h₁, hh₁⟩ : ∃ h₁, h₁ = (h.write a ⟨empty, some b, h.list b, none⟩).setList b (some a) :=
    ⟨_, rfl⟩
  have hself : h₁.cells a = some ⟨empty, some b, h.list b, none⟩ := by
    rw [hh₁]
    exact Function.update_self ..
  have hother : ∀ c, c ≠ a → h₁.cells c = h.cells c := by
    intro c hc
    rw [hh₁]
    exact Function.update_of_ne hc ..
  obtain ⟨h', heq, hlist, hcells⟩ := modifyLink_spec (h := h₁) (x := h.list b)
    (fun node => { node with prev := some a }) <| by
      intro n hn
      obtain ⟨node, hnode⟩ := hhead n hn
      refine ⟨node, (hother n ?_).trans hnode⟩
      rintro rfl
      exact hfresh hn
  refine ⟨h', ?_, ?_, ?_, ?_⟩
  · rw [hh₁] at heq
    simp only [create, heq]
  · rw [hlist, hh₁]
    rfl
  · rw [hcells a, hself, Option.map_some, if_neg hfresh]
  · intro c hc
    rw [hcells c, hother c hc]

/-- A managed object is freed, and its neighbours are linked to each other. -/
theorem destroy_managed {node : Node V} (hnode : h.cells a = some node)
    (hburrow : node.burrow = some b) (hself : node.next ≠ some a)
    (hnext : ∀ n, node.next = some n → ∃ m, h.cells n = some m)
    (hprev : ∀ p, node.prev = some p → ∃ m, h.cells p = some m) :
    ∃ h', destroy a h = .ok h' ∧
      h'.list = (if node.prev = none then Function.update h.list b node.next else h.list) ∧
      h'.cells a = none ∧
      ∀ c, c ≠ a → h'.cells c = (h.cells c).map fun m =>
        { m with
          prev := if node.next = some c then node.prev else m.prev
          next := if node.prev = some c then node.next else m.next } := by
  obtain ⟨h₁, hjoined, hlist₁, hcells₁⟩ :=
    modifyLink_spec (fun m : Node V => { m with prev := node.prev }) hnext
  cases hp : node.prev with
  | none =>
      -- a first object: the list of the burrow itself moves on to the next one
      refine ⟨(h₁.setList b node.next).free a, ?_, ?_, Function.update_self .., ?_⟩
      · simp only [destroy, Heap.read_of_cells hnode, hburrow, if_neg hself, hjoined]
        simp only [hp]
      · rw [if_pos rfl, Heap.free_list, ← hlist₁]
        rfl
      · intro c hc
        have hcell : ((h₁.setList b node.next).free a).cells c = h₁.cells c :=
          Function.update_of_ne hc ..
        rw [hcell, hcells₁ c, hp]
        refine Option.map_congr fun m _ => ?_
        split <;> simp_all
  | some p =>
      obtain ⟨m, hm⟩ := hprev p hp
      -- an inner object: the one in front of it gets its `next`
      obtain ⟨h₂, hwritten, hlist₂, hcells₂⟩ :=
        modifyLink_spec (h := h₁) (x := some p)
          (fun m : Node V => { m with next := node.next }) <| by
          intro n hn
          obtain rfl := Option.some.inj hn
          exact ⟨_, (hcells₁ p).trans (by rw [hm, Option.map_some])⟩
      refine ⟨h₂.free a, ?_, ?_, Function.update_self .., ?_⟩
      · simp only [destroy, Heap.read_of_cells hnode, hburrow, if_neg hself, hjoined]
        simp only [hp, show h₁.modify p _ = _ from hwritten]
      · rw [if_neg (by simp), Heap.free_list, hlist₂, hlist₁]
      · intro c hc
        have hcell : (h₂.free a).cells c = h₂.cells c := Function.update_of_ne hc ..
        rw [hcell, hcells₂ c, hcells₁ c, hp, Option.map_map]
        refine Option.map_congr fun m _ => ?_
        simp only [Function.comp_apply]
        split <;> split <;> simp_all

end Changes

/-! ## One call -/

section Calls

variable {h : Heap V} {r : Registry} {a : Address} {b : BurrowId} {l : List Address}

/-- The list of a burrow structure after a new object was put on it. -/
theorem Chain.push (hchain : Chain h r b l) (href : Refines r h) (hfresh : r a = none)
    {h' : Heap V} {empty : V} (hlist : h'.list = Function.update h.list b (some a))
    (hnew : h'.cells a = some ⟨empty, some b, h.list b, none⟩)
    (hcells : ∀ c, c ≠ a → h'.cells c = (h.cells c).map fun node =>
      if h.list b = some c then { node with prev := some a } else node) :
    Chain h' (Function.update r a (some (.managed b))) b (a :: l) where
  linked := by
    have hmem : a ∉ l := by
      intro hmem
      rw [hchain.mem_iff, hfresh] at hmem
      exact absurd hmem (by simp)
    have hold : ∀ c ∈ l, c ≠ a ∧ ∃ node, h.cells c = some node ∧
        h'.cells c = some (if h.list b = some c then { node with prev := some a } else node) := by
      intro c hc
      have hca : c ≠ a := fun heq => hmem (heq ▸ hc)
      obtain ⟨node, hnode⟩ := href.cells_of_live ((hchain.mem_iff c).1 hc)
      exact ⟨hca, node, hnode, by rw [hcells c hca, hnode, Option.map_some]⟩
    refine (hchain.linked.push hmem).congr ?_ ?_
    · intro y hy
      rcases List.mem_cons.1 hy with rfl | hy
      · rw [Heap.pointers_fd_none, hlist, Function.update_self, Pointers.push_fd_none]
      · obtain ⟨c, hc, rfl⟩ := List.mem_map.1 hy
        rcases List.mem_cons.1 hc with rfl | hc
        · rw [Heap.pointers_fd_some hnew, Pointers.push_fd_self, Heap.pointers_fd_none]
        · obtain ⟨hca, node, hnode, hnode'⟩ := hold c hc
          rw [Heap.pointers_fd_some hnode', Pointers.push_fd_of_ne _ _ hca,
            Heap.pointers_fd_some hnode]
          split <;> rfl
    · intro c hc
      rcases List.mem_cons.1 hc with rfl | hc
      · rw [Heap.pointers_bk_some hnew, Pointers.push_bk_self]
      · obtain ⟨hca, node, hnode, hnode'⟩ := hold c hc
        rw [Heap.pointers_bk_some hnode', Pointers.push_bk_of_ne _ _ hca,
          Heap.pointers_fd_none, Heap.pointers_bk_some hnode]
        split <;> rfl
  mem_iff c := by
    by_cases hca : c = a
    · subst hca
      simp
    · rw [Function.update_of_ne hca, List.mem_cons, ← hchain.mem_iff c]
      exact or_iff_right hca

/-- The list of a burrow structure after one of its objects was taken off it. -/
theorem Chain.unlink {pre post : List Address} (hchain : Chain h r b (pre ++ a :: post))
    (href : Refines r h) {node : Node V} (hnode : h.cells a = some node) {h' : Heap V}
    (hlist : h'.list = if node.prev = none then Function.update h.list b node.next else h.list)
    (hcells : ∀ c, c ≠ a → h'.cells c = (h.cells c).map fun m =>
      { m with
        prev := if node.next = some c then node.prev else m.prev
        next := if node.prev = some c then node.next else m.next }) :
    Chain h' (Function.update r a none) b (pre ++ post) where
  linked := by
    have hnodup := hchain.nodup
    rw [List.nodup_append, List.nodup_cons] at hnodup
    have hrest : ∀ c ∈ pre ++ post, c ≠ a ∧ ∃ m, h.cells c = some m ∧
        h'.cells c = some { m with
          prev := if node.next = some c then node.prev else m.prev
          next := if node.prev = some c then node.next else m.next } := by
      intro c hc
      -- an address occurs once in a list, so no other object of it is `a`
      have hca : c ≠ a := by
        rintro rfl
        rcases List.mem_append.1 hc with hpre | hpost
        · exact hnodup.2.2 c hpre c List.mem_cons_self rfl
        · exact hnodup.2.1.1 hpost
      have hmem : c ∈ pre ++ a :: post := by
        rcases List.mem_append.1 hc with hpre | hpost
        · exact List.mem_append_left _ hpre
        · exact List.mem_append_right _ (List.mem_cons_of_mem _ hpost)
      obtain ⟨m, hm⟩ := href.cells_of_live ((hchain.mem_iff c).1 hmem)
      exact ⟨hca, m, hm, by rw [hcells c hca, hm, Option.map_some]⟩
    refine (hchain.linked.unlink (by simp)).congr ?_ ?_
    · intro y hy
      rcases List.mem_cons.1 hy with rfl | hy
      · rw [Heap.pointers_fd_none, hlist, Pointers.unlink_fd, Heap.pointers_bk_some hnode,
          Heap.pointers_fd_some hnode, Heap.pointers_fd_none]
        -- `destroy` writes the burrow's head exactly when there is no object in front
        split
        · exact Function.update_self ..
        · rfl
      · obtain ⟨c, hc, rfl⟩ := List.mem_map.1 hy
        obtain ⟨hca, m, hm, hm'⟩ := hrest c hc
        rw [Heap.pointers_fd_some hm', Pointers.unlink_fd, Heap.pointers_bk_some hnode,
          Heap.pointers_fd_some hnode, Heap.pointers_fd_some hm]
    · intro c hc
      obtain ⟨hca, m, hm, hm'⟩ := hrest c hc
      rw [Heap.pointers_bk_some hm', Pointers.unlink_bk, Heap.pointers_bk_some hnode,
        Heap.pointers_fd_some hnode, Heap.pointers_bk_some hm]
  mem_iff c := by
    have hnodup := hchain.nodup
    rw [List.nodup_append, List.nodup_cons] at hnodup
    by_cases hca : c = a
    · subst hca
      rw [Function.update_self]
      refine iff_of_false (fun hmem => ?_) (by simp)
      rcases List.mem_append.1 hmem with hpre | hpost
      · exact hnodup.2.2 c hpre c List.mem_cons_self rfl
      · exact hnodup.2.1.1 hpost
    · rw [Function.update_of_ne hca, ← hchain.mem_iff c, List.mem_append, List.mem_append,
        List.mem_cons]
      exact or_congr Iff.rfl (or_iff_right hca).symm

theorem refines_create_managed (empty : V) (href : Refines r h) (hfresh : r a = none) :
    ∃ h', create empty none (some b) (some a) h = .ok (some a, h') ∧
      Refines (Function.update r a (some (.managed b))) h' := by
  obtain ⟨l, hchain⟩ := href.chain b
  have hhead : ∀ n, h.list b = some n → r n = some (.managed b) :=
    fun n hn => (hchain.mem_iff n).1 (hchain.head hn)
  have hne : h.list b ≠ some a := by
    intro heq
    rw [hhead a heq] at hfresh
    exact absurd hfresh (by simp)
  obtain ⟨h', heq, hlist, hnew, hcells⟩ :=
    create_managed empty (fun n hn => href.cells_of_live (hhead n hn)) hne
  refine ⟨h', heq, ?_, ?_, ?_⟩
  · intro c owner howner
    by_cases hca : c = a
    · subst hca
      rw [Function.update_self, Option.some.injEq] at howner
      subst howner
      exact ⟨_, hnew, rfl, fun burrow hburrow => absurd hburrow (by simp)⟩
    · rw [Function.update_of_ne hca] at howner
      obtain ⟨node, hnode, hburrow, hself⟩ := href.live c owner howner
      have hcell := hcells c hca
      rw [hnode, Option.map_some] at hcell
      refine ⟨_, hcell, ?_, fun burrow howner => ?_⟩
      · split <;> exact hburrow
      · split <;> exact hself burrow howner
  · intro c hc
    have hca : c ≠ a := by
      rintro rfl
      rw [Function.update_self] at hc
      exact absurd hc (by simp)
    rw [Function.update_of_ne hca] at hc
    rw [hcells c hca, href.free c hc, Option.map_none]
  · intro b'
    by_cases hb : b' = b
    · subst hb
      exact ⟨a :: l, hchain.push href hfresh hlist hnew hcells⟩
    · obtain ⟨l', hchain'⟩ := href.chain b'
      refine ⟨l', hchain'.frame_of_cells ?_ ?_ ?_⟩
      · rw [hlist, Function.update_of_ne hb]
      · intro c hc
        have howner := (hchain'.mem_iff c).1 hc
        have hca : c ≠ a := by
          rintro rfl
          rw [hfresh] at howner
          exact absurd howner (by simp)
        have hfirst : h.list b ≠ some c := by
          intro hfirst
          exact hchain'.not_mem (Ne.symm hb) (hhead c hfirst) hc
        obtain ⟨node, hnode⟩ := href.cells_of_live howner
        rw [hcells c hca, hnode, Option.map_some, if_neg hfirst]
      · intro c
        by_cases hca : c = a
        · subst hca
          rw [Function.update_self, hfresh, Option.some.injEq, Owner.managed.injEq]
          exact iff_of_false (Ne.symm hb) (by simp)
        · rw [Function.update_of_ne hca]

/-- An object that is not managed, new or gone: no list knows of it. -/
theorem Refines.update_unmanaged (href : Refines r h) {owner : Option Owner}
    {cell : Option (Node V)} (hold : ∀ b, r a ≠ some (.managed b))
    (hnew : ∀ b, owner ≠ some (.managed b))
    (hlive : ∀ o, owner = some o → ∃ node, cell = some node ∧ node.burrow = o.burrow ∧
      (∀ burrow, o = .unmanaged burrow → node.next = some a))
    (hfree : owner = none → cell = none) :
    Refines (Function.update r a owner) { h with cells := Function.update h.cells a cell } where
  live c o ho := by
    by_cases hca : c = a
    · subst hca
      rw [Function.update_self] at ho
      obtain ⟨node, hnode, hrest⟩ := hlive o ho
      exact ⟨node, (Function.update_self ..).trans hnode, hrest⟩
    · rw [Function.update_of_ne hca] at ho
      obtain ⟨node, hnode, hrest⟩ := href.live c o ho
      exact ⟨node, (Function.update_of_ne hca ..).trans hnode, hrest⟩
  free c hc := by
    by_cases hca : c = a
    · subst hca
      rw [Function.update_self] at hc
      exact (Function.update_self ..).trans (hfree hc)
    · rw [Function.update_of_ne hca] at hc
      exact (Function.update_of_ne hca ..).trans (href.free c hc)
  chain b := by
    -- an object without a burrow is in no list, so every list stays as it was
    obtain ⟨l, hchain⟩ := href.chain b
    refine ⟨l, hchain.frame_of_cells rfl ?_ ?_⟩
    · intro c hc
      have hca : c ≠ a := by
        rintro rfl
        exact hold b ((hchain.mem_iff c).1 hc)
      exact Function.update_of_ne hca ..
    · intro c
      by_cases hca : c = a
      · subst hca
        rw [Function.update_self]
        exact iff_of_false (hnew b) (hold b)
      · rw [Function.update_of_ne hca]

theorem refines_create (empty : V) (href : Refines r h) (dest : Option Address)
    (burrow : Option BurrowId) (alloc : Address) (hfresh : r (dest.getD alloc) = none) :
    ∃ h', create empty dest burrow (some alloc) h = .ok (some (dest.getD alloc), h') ∧
      Refines (Function.update r (dest.getD alloc) (some (Owner.of dest burrow))) h' := by
  have hunmanaged : ∀ burrow : Option BurrowId,
      Refines (Function.update r (dest.getD alloc) (some (.unmanaged burrow)))
        (h.write (dest.getD alloc)
          ⟨empty, burrow, some (dest.getD alloc), some (dest.getD alloc)⟩) := by
    intro burrow
    refine href.update_unmanaged (by simp [hfresh]) (by simp) ?_ (by simp)
    intro o ho
    obtain rfl := Option.some.inj ho
    exact ⟨_, rfl, rfl, fun _ _ => rfl⟩
  cases dest with
  | some a => exact ⟨_, rfl, hunmanaged burrow⟩
  | none =>
      cases burrow with
      | none => exact ⟨_, rfl, hunmanaged none⟩
      | some b => exact refines_create_managed empty href hfresh

/-- To write the values of an object changes none of this. -/
theorem refines_assign (href : Refines r h) {node : Node V} (hnode : h.cells a = some node)
    (value : V) : Refines r (h.write a { node with value := value }) := by
  have hcells : ∀ c, (h.write a { node with value := value }).cells c =
      (h.cells c).map fun m => if c = a then { m with value := value } else m := by
    intro c
    by_cases hca : c = a
    · subst hca
      rw [hnode, Option.map_some, if_pos rfl]
      exact Function.update_self ..
    · refine (Function.update_of_ne hca ..).trans ?_
      cases h.cells c <;> simp [hca]
  refine ⟨?_, ?_, ?_⟩
  · intro c owner howner
    obtain ⟨m, hm, hburrow, hself⟩ := href.live c owner howner
    refine ⟨_, (hcells c).trans (by rw [hm, Option.map_some]), ?_, fun burrow howner => ?_⟩
    · split <;> exact hburrow
    · split <;> exact hself burrow howner
  · intro c hc
    rw [hcells c, href.free c hc, Option.map_none]
  · intro b
    obtain ⟨l, hchain⟩ := href.chain b
    refine ⟨l, hchain.frame rfl ?_ ?_ fun c => Iff.rfl⟩
    · intro c hc
      obtain ⟨m, hm⟩ := href.cells_of_live ((hchain.mem_iff c).1 hc)
      rw [hcells c, hm, Option.map_some]
      show (if _ then _ else _ : Node V).next = m.next
      split <;> rfl
    · intro c hc
      obtain ⟨m, hm⟩ := href.cells_of_live ((hchain.mem_iff c).1 hc)
      rw [hcells c, hm, Option.map_some]
      show (if _ then _ else _ : Node V).prev = m.prev
      split <;> rfl

/-- The object behind one on a list is on the list. -/
theorem Chain.owner_of_next {pre post : List Address} (hchain : Chain h r b (pre ++ a :: post))
    {node : Node V} (hnode : h.cells a = some node) {n : Address} (hn : node.next = some n) :
    r n = some (.managed b) := by
  apply (hchain.mem_iff n).1
  apply List.mem_append_right
  apply List.mem_cons_of_mem
  exact hchain.linked.fd_mem ((Heap.pointers_fd_some hnode b).trans hn)

/-- The object before one on a list is on the list. -/
theorem Chain.owner_of_prev {pre post : List Address} (hchain : Chain h r b (pre ++ a :: post))
    {node : Node V} (hnode : h.cells a = some node) {p : Address} (hp : node.prev = some p) :
    r p = some (.managed b) := by
  have hbefore := hchain.linked.bk_mem
  rw [Heap.pointers_bk_some hnode, hp] at hbefore
  obtain ⟨q, hq, heq⟩ := List.mem_map.1 ((List.mem_cons.1 hbefore).resolve_left (by simp))
  obtain rfl := Option.some.inj heq
  exact (hchain.mem_iff q).1 (List.mem_append_left _ hq)

/-- Taking an object off its list changes objects of that list only. -/
theorem Chain.within_unlink {pre post : List Address} (hchain : Chain h r b (pre ++ a :: post))
    {node : Node V} (hnode : h.cells a = some node) {h' : Heap V}
    (hlist : h'.list = if node.prev = none then Function.update h.list b node.next else h.list)
    (hcells : ∀ c, c ≠ a → h'.cells c = (h.cells c).map fun m =>
      { m with
        prev := if node.next = some c then node.prev else m.prev
        next := if node.prev = some c then node.next else m.next }) :
    Within (pre ++ a :: post) b h h' where
  cells c hc := by
    have hnot : ∀ d, r d = some (.managed b) → some d ≠ some c := by
      intro d hd heq
      obtain rfl := Option.some.inj heq
      exact hc ((hchain.mem_iff d).2 hd)
    have hca : c ≠ a := by
      rintro rfl
      exact hc (List.mem_append_right _ List.mem_cons_self)
    have hn : node.next ≠ some c := fun hn => hnot c (hchain.owner_of_next hnode hn) rfl
    have hp : node.prev ≠ some c := fun hp => hnot c (hchain.owner_of_prev hnode hp) rfl
    rw [hcells c hca]
    cases h.cells c with
    | none => rfl
    | some m => rw [Option.map_some, if_neg hn, if_neg hp]
  list b' hb := by
    rw [hlist]
    split
    · exact Function.update_of_ne hb ..
    · rfl

/-- A managed object is destroyed: what its list and the heap are afterwards. -/
theorem refines_destroy_managed (href : Refines r h) {pre post : List Address}
    (hchain : Chain h r b (pre ++ a :: post)) :
    ∃ h', destroy a h = .ok h' ∧ Refines (Function.update r a none) h' ∧
      Chain h' (Function.update r a none) b (pre ++ post) ∧
      Within (pre ++ a :: post) b h h' := by
  have hmem : a ∈ pre ++ a :: post := List.mem_append_right _ List.mem_cons_self
  have howner := (hchain.mem_iff a).1 hmem
  obtain ⟨node, hnode, hburrow, -⟩ := href.live a _ howner
  have hnext := fun n (hn : node.next = some n) => hchain.owner_of_next hnode hn
  have hprev := fun p (hp : node.prev = some p) => hchain.owner_of_prev hnode hp
  -- `destroy` takes an object that points at itself for an unmanaged one, and a managed
  -- one never does
  have hself : node.next ≠ some a := by
    rw [← Heap.pointers_fd_some hnode b]
    exact hchain.linked.fd_ne_self hmem
  obtain ⟨h', heq, hlist, hgone, hcells⟩ := destroy_managed hnode hburrow hself
    (fun n hn => href.cells_of_live (hnext n hn)) (fun p hp => href.cells_of_live (hprev p hp))
  have hchain' := hchain.unlink href hnode hlist hcells
  have hwithin := hchain.within_unlink hnode hlist hcells
  refine ⟨h', heq, ⟨?_, ?_, ?_⟩, hchain', hwithin⟩
  · intro c owner hc
    have hca : c ≠ a := by
      rintro rfl
      rw [Function.update_self] at hc
      exact absurd hc (by simp)
    rw [Function.update_of_ne hca] at hc
    obtain ⟨m, hm, hmburrow, hmself⟩ := href.live c owner hc
    have hcell := hcells c hca
    rw [hm, Option.map_some] at hcell
    refine ⟨_, hcell, hmburrow, ?_⟩
    intro burrow hunmanaged
    have hother : node.prev ≠ some c := by
      intro hp
      rw [hprev c hp, hunmanaged] at hc
      exact absurd hc (by simp)
    show (if _ then _ else m.next) = some c
    rw [if_neg hother]
    exact hmself burrow hunmanaged
  · intro c hc
    by_cases hca : c = a
    · rw [hca]
      exact hgone
    · rw [Function.update_of_ne hca] at hc
      rw [hcells c hca, href.free c hc, Option.map_none]
  · intro b'
    by_cases hb : b' = b
    · subst hb
      exact ⟨pre ++ post, hchain'⟩
    · obtain ⟨l', hother⟩ := href.chain b'
      refine ⟨l', hother.frame_of_cells (hwithin.list b' hb) ?_ ?_⟩
      · intro c hc
        exact hwithin.cells c (hchain.not_mem hb ((hother.mem_iff c).1 hc))
      · intro c
        by_cases hca : c = a
        · subst hca
          rw [Function.update_self, howner, Option.some.injEq, Owner.managed.injEq]
          exact iff_of_false (by simp) (Ne.symm hb)
        · rw [Function.update_of_ne hca]

theorem refines_destroy (href : Refines r h) {owner : Owner} (ha : r a = some owner) :
    ∃ h', destroy a h = .ok h' ∧ Refines (Function.update r a none) h' := by
  cases owner with
  | managed b =>
      obtain ⟨l, hchain⟩ := href.chain b
      obtain ⟨pre, post, rfl⟩ := List.append_of_mem ((hchain.mem_iff a).2 ha)
      obtain ⟨h', heq, href', -, -⟩ := refines_destroy_managed href hchain
      exact ⟨h', heq, href'⟩
  | unmanaged burrow =>
      obtain ⟨node, hnode, hburrow, hself⟩ := href.live a _ ha
      refine ⟨h.free a, ?_, href.update_unmanaged (by simp [ha]) (by simp) (by simp) (by simp)⟩
      simp only [destroy, Heap.read_of_cells hnode]
      cases node.burrow with
      | none => rfl
      | some b => exact if_pos (hself burrow rfl)

/-- The clone of an object without a destination: an object created for the burrow
structure of the source, with the values of the source. -/
theorem refines_clone (empty : V) (href : Refines r h) {src : Address} {owner : Owner}
    (hsrc : r src = some owner) (hfresh : r a = none) :
    ∃ h', clone empty none src (some a) h = .ok (some a, h') ∧
      Refines (Function.update r a (some (Owner.of none owner.burrow))) h' := by
  obtain ⟨node, hnode, hburrow, -⟩ := href.live src owner hsrc
  obtain ⟨h₁, hcreate, href₁⟩ := refines_create empty href none node.burrow a hfresh
  rw [Option.getD_none] at hcreate href₁
  have hne : src ≠ a := by
    rintro rfl
    rw [hfresh] at hsrc
    exact absurd hsrc (by simp)
  obtain ⟨node₁, hnode₁⟩ :=
    href₁.cells_of_live ((Function.update_of_ne hne ..).trans hsrc)
  obtain ⟨dest, hdest⟩ := href₁.cells_of_live (Function.update_self ..)
  refine ⟨_, ?_, hburrow ▸ refines_assign href₁ hdest node₁.value⟩
  simp only [clone, Heap.read_of_cells hnode, hcreate, Heap.read_of_cells hnode₁,
    Heap.modify_of_cells hdest]

/-- **Every call the registry takes succeeds and keeps the refinement.** -/
theorem refines_apply (empty : V) (op : Op V) (href : Refines r h) {r' : Registry}
    (hstep : Registry.step op r = .ok r') : ∃ h', op.apply empty h = .ok h' ∧ Refines r' h' := by
  cases op with
  | create dest burrow alloc =>
      obtain ⟨hfresh, rfl⟩ := Registry.enter_ok hstep
      obtain ⟨h', heq, href'⟩ := refines_create empty href dest burrow alloc hfresh
      exact ⟨h', by rw [Op.apply, heq]; rfl, href'⟩
  | clone src alloc =>
      rw [Registry.step] at hstep
      cases hsrc : r src with
      | none =>
          rw [hsrc] at hstep
          exact absurd hstep (by simp)
      | some owner =>
          rw [hsrc] at hstep
          obtain ⟨hfresh, rfl⟩ := Registry.enter_ok hstep
          obtain ⟨h', heq, href'⟩ := refines_clone empty href hsrc hfresh
          exact ⟨h', by rw [Op.apply, heq]; rfl, href'⟩
  | destroy a =>
      rw [Registry.step] at hstep
      cases ha : r a with
      | none =>
          rw [ha] at hstep
          exact absurd hstep (by simp)
      | some owner =>
          rw [ha] at hstep
          cases hstep
          exact refines_destroy href ha
  | assign a value =>
      rw [Registry.step] at hstep
      cases ha : r a with
      | none =>
          rw [ha] at hstep
          exact absurd hstep (by simp)
      | some owner =>
          rw [ha] at hstep
          cases hstep
          obtain ⟨node, hnode⟩ := href.cells_of_live ha
          exact ⟨_, Heap.modify_of_cells hnode _, refines_assign href hnode value⟩

end Calls

/-! ## Runs -/

theorem objectStep_refines (call : Call) (r r' : Registries) (s : Objects)
    (href : Refines r.attributes s.attributes ∧ Refines r.filters s.filters)
    (hstep : registriesStep call r = .ok r') :
    ∃ s', objectStep call s = .ok s' ∧
      Refines r'.attributes s'.attributes ∧ Refines r'.filters s'.filters := by
  obtain ⟨hattributes, hfilters⟩ := href
  cases call with
  | attributes op =>
      rw [registriesStep] at hstep
      cases hr : Registry.step op r.attributes with
      | error refusal =>
          rw [hr] at hstep
          exact absurd hstep (by simp [Except.map])
      | ok r₁ =>
          rw [hr] at hstep
          cases hstep
          obtain ⟨h', heq, href'⟩ := refines_apply emptyAttributes op hattributes hr
          refine ⟨{ s with attributes := h' }, ?_, href', hfilters⟩
          rw [objectStep, attributesStep_eq, heq]
          rfl
  | filters op =>
      rw [registriesStep] at hstep
      cases hr : Registry.step op r.filters with
      | error refusal =>
          rw [hr] at hstep
          exact absurd hstep (by simp [Except.map])
      | ok r₁ =>
          rw [hr] at hstep
          cases hstep
          obtain ⟨h', heq, href'⟩ := refines_apply emptyFilters op hfilters hr
          refine ⟨{ s with filters := h' }, ?_, hattributes, href'⟩
          rw [objectStep, filtersStep_eq, heq]
          rfl

/-- **Every run of calls the registries take succeeds and keeps the refinement.** -/
theorem refines_run {calls : List Call} {r : Registries}
    (hrun : Machine.run registriesStep calls Registries.empty = .ok r) :
    ∃ s, Machine.run objectStep calls Objects.none = .ok s ∧
      Refines r.attributes s.attributes ∧ Refines r.filters s.filters :=
  Machine.run_simulates objectStep objectStep_refines ⟨refines_empty, refines_empty⟩ hrun

end Burrow.Managed
