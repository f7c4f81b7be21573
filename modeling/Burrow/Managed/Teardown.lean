import Burrow.Managed.Refinement

/-!
# Managed objects are destroyed exactly once

After any run of the object functions each list of a burrow structure ends and is made of
the live objects the structure manages, each of them once. A loop of `burrow_destroy`
then takes one object off the list in each round (`destroyLoop_spec`), and `burrow_destroy`
destroys these objects and no other (`managed_destroyed_once`).
-/

set_option autoImplicit false

namespace Burrow.Managed

universe u

variable {V : Type u} {h : Heap V} {r : Registry} {b : BurrowId} {l : List Address}

/-- Nothing is withdrawn where nothing is managed. -/
theorem Registry.withdraw_of_chain_nil (hchain : Chain h r b []) : r.withdraw b = r := by
  funext a
  exact if_neg fun ha => absurd ((hchain.mem_iff a).2 ha) (by simp)

/-- An object that goes is withdrawn with the others. -/
theorem Registry.withdraw_update {a : Address} (ha : r a = some (.managed b)) :
    Registry.withdraw b (Function.update r a none) = r.withdraw b := by
  funext c
  rw [withdraw, withdraw]
  by_cases hca : c = a
  · subst hca
    rw [Function.update_self, if_neg (by simp), if_pos ha]
  · rw [Function.update_of_ne hca]

/-- **A loop of `burrow_destroy`.** It ends after as many rounds as there are objects on the
list, and has destroyed these. -/
theorem destroyLoop_spec (href : Refines r h) (hchain : Chain h r b l) {fuel : Nat}
    (hfuel : l.length < fuel) :
    ∃ h', destroyLoop fuel b h = .ok (some (l, h')) ∧ h'.list b = none ∧
      Refines (r.withdraw b) h' ∧ Within l b h h' := by
  -- by induction on the list, of which each round destroys the first object
  induction l generalizing h r fuel with
  | nil =>
      obtain ⟨fuel, rfl⟩ := Nat.exists_eq_succ_of_ne_zero (Nat.ne_of_gt hfuel)
      have hlist : h.list b = none := hchain.linked
      refine ⟨h, by rw [destroyLoop, hlist], hlist, ?_, ⟨fun a _ => rfl, fun b' _ => rfl⟩⟩
      rw [Registry.withdraw_of_chain_nil hchain]
      exact href
  | cons a l ih =>
      obtain ⟨fuel, rfl⟩ := Nat.exists_eq_succ_of_ne_zero (Nat.ne_of_gt (Nat.zero_lt_of_lt hfuel))
      have hlist : h.list b = some a := hchain.linked.1
      have hfront : Chain h r b ([] ++ a :: l) := hchain
      -- `destroy` puts the next object at the head, so the loop finds the rest of the
      -- list
      obtain ⟨h₁, hdestroy, href₁, hchain₁, hwithin₁⟩ := refines_destroy_managed href hfront
      obtain ⟨h', hloop, hempty, href', hwithin'⟩ :=
        ih href₁ hchain₁ (Nat.lt_of_succ_lt_succ hfuel)
      refine ⟨h', ?_, hempty, ?_, hwithin₁.trans (fun c hc => List.mem_cons_of_mem a hc) hwithin'⟩
      · rw [destroyLoop, hlist]
        simp only [hdestroy, hloop]
      · rw [← Registry.withdraw_update ((hchain.mem_iff a).1 List.mem_cons_self)]
        exact href'

/-- What a loop of `burrow_destroy` leaves: the objects of `l` are gone and the list is empty,
every other object and every other list is as it was. -/
structure Released (l : List Address) (b : BurrowId) (h h' : Heap V) : Prop where
  gone : ∀ a ∈ l, h'.cells a = none
  list_empty : h'.list b = none
  others : Within l b h h'

theorem released_of_destroyLoop (href : Refines r h) (hchain : Chain h r b l) {fuel : Nat}
    (hfuel : l.length < fuel) :
    ∃ h', destroyLoop fuel b h = .ok (some (l, h')) ∧ Released l b h h' := by
  obtain ⟨h', hloop, hempty, href', hwithin⟩ := destroyLoop_spec href hchain hfuel
  refine ⟨h', hloop, ?_, hempty, hwithin⟩
  intro a ha
  exact href'.free a (if_pos ((hchain.mem_iff a).1 ha))

/-- **Managed objects are destroyed exactly once.** After any run of calls on live objects,
with every allocation in memory that is not in use, each list is made of the live objects
of its burrow structure, each once, and `burrow_destroy` ends and destroys these. -/
theorem managed_destroyed_once {calls : List Call} {r : Registries}
    (hrun : Machine.run registriesStep calls Registries.empty = .ok r) :
    ∃ s, Machine.run objectStep calls Objects.none = .ok s ∧
      (∀ a, r.attributes a = none ↔ s.attributes.cells a = none) ∧
      (∀ a, r.filters a = none ↔ s.filters.cells a = none) ∧
      ∀ b, ∃ attributes filters : List Address,
        (Chain s.attributes r.attributes b attributes ∧ attributes.Nodup) ∧
        (Chain s.filters r.filters b filters ∧ filters.Nodup) ∧
        ∀ fuel, attributes.length < fuel → filters.length < fuel →
          ∃ s', burrowDestroy fuel b s = .ok (some ⟨attributes, filters, s'⟩) ∧
            Released attributes b s.attributes s'.attributes ∧
            Released filters b s.filters s'.filters := by
  obtain ⟨s, hs, hattributes, hfilters⟩ := refines_run hrun
  refine ⟨s, hs, hattributes.free_iff, hfilters.free_iff, fun b => ?_⟩
  obtain ⟨attributes, hchainA⟩ := hattributes.chain b
  obtain ⟨filters, hchainF⟩ := hfilters.chain b
  refine ⟨attributes, filters, ⟨hchainA, hchainA.nodup⟩, ⟨hchainF, hchainF.nodup⟩, ?_⟩
  intro fuel hfuelA hfuelF
  obtain ⟨attributesHeap, hloopA, hreleasedA⟩ :=
    released_of_destroyLoop hattributes hchainA hfuelA
  obtain ⟨filtersHeap, hloopF, hreleasedF⟩ := released_of_destroyLoop hfilters hchainF hfuelF
  refine ⟨⟨attributesHeap, filtersHeap⟩, ?_, hreleasedA, hreleasedF⟩
  simp only [burrowDestroy, hloopA, hloopF]

/-- Five attributes objects, of which the first, the middle and the last are destroyed,
a clone in the memory of the first, and a filters object. -/
def fiveObjects : List Call :=
  [.attributes (.create none (some 7) 1), .attributes (.create none (some 7) 2),
    .attributes (.create none (some 7) 3), .attributes (.create none (some 7) 4),
    .attributes (.create none (some 7) 5), .attributes (.destroy 1), .attributes (.destroy 3),
    .attributes (.destroy 5), .attributes (.clone 2 1), .filters (.create none (some 7) 6)]

theorem managed_destroyed_once_five :
    ∃ r s, Machine.run registriesStep fiveObjects Registries.empty = .ok r ∧
      Machine.run objectStep fiveObjects Objects.none = .ok s ∧
      Chain s.attributes r.attributes 7 [1, 4, 2] ∧ Chain s.filters r.filters 7 [6] := by
  obtain ⟨s, hs, -, -, hlists⟩ := @managed_destroyed_once fiveObjects _ rfl
  obtain ⟨attributes, filters, ⟨hattributes, -⟩, ⟨hfilters, -⟩, -⟩ := hlists 7
  cases hs
  obtain rfl : attributes = [1, 4, 2] :=
    hattributes.linked.unique ⟨rfl, rfl, rfl, rfl, rfl, rfl, rfl⟩
  obtain rfl : filters = [6] := hfilters.linked.unique ⟨rfl, rfl, rfl⟩
  exact ⟨_, _, rfl, rfl, hattributes, hfilters⟩

end Burrow.Managed
