import Burrow.Lib.QueryString
import Burrow.Memory.LinkedRuns

/-!
# Dictionaries that are too long

The length of a dictionary is an `int`. Whatever the keys are, the call of
`dictionary_add` that would make a dictionary of more than `INT_MAX` nodes overflows it
(`adds_overflow`).
-/

set_option autoImplicit false

namespace Burrow.Memory.Chained

open IntrusiveList KeyedList

variable (key : Nat → String)

/-- Calls of `dictionary_add`, each with the next key and blocks of its own. -/
def adds (n : Nat) : List DictionaryCall :=
  (List.range n).map fun (i : Nat) => .add 0 (key i) none (2 * i + 1) (2 * i + 2)

/-- The nodes that they make. -/
def addedCells (n : Nat) : List Cell :=
  (List.range n).map fun (i : Nat) => ⟨2 * i + 1, 2 * i + 2, { key := key i, data := none }⟩

theorem adds_succ (n : Nat) :
    adds key (n + 1) = adds key n ++ [.add 0 (key n) none (2 * n + 1) (2 * n + 2)] := by
  rw [adds, List.range_succ, List.map_append]
  rfl

theorem addedCells_succ (n : Nat) :
    addedCells key (n + 1) =
      addedCells key n ++ [⟨2 * n + 1, 2 * n + 2, { key := key n, data := none }⟩] := by
  rw [addedCells, List.range_succ, List.map_append]
  rfl

theorem length_addedCells (n : Nat) : (addedCells key n).length = n := by
  rw [addedCells, List.length_map, List.length_range]

theorem le_of_mem_addedCells {n : Nat} {c : Cell} (h : c ∈ addedCells key n) :
    c.node ≤ 2 * n ∧ c.keyAt ≤ 2 * n := by
  obtain ⟨i, hi, rfl⟩ := List.mem_map.1 h
  have hlt := List.mem_range.1 hi
  have hnode : 2 * i + 1 ≤ 2 * n := by omega
  have hkey : 2 * i + 2 ≤ 2 * n := by omega
  exact ⟨hnode, hkey⟩

/-- As long as there is room for the length, every call makes its node. -/
theorem adds_shows {n : Nat} (hn : (n : Int) ≤ intMax) :
    ∃ returned heap, Machine.Shows dictionaryStep dictionaryReturns
        (.init none 0 :: adds key n) Heap.empty returned heap ∧
      heap.Represents 0 (addedCells key n) ∧
      ∀ a, 2 * n < a → heap.nodes a = none ∧ heap.texts a = none := by
  induction n with
  | zero =>
      refine ⟨_, _, Machine.Shows.single _ _ rfl, represents_new Heap.empty 0, ?_⟩
      exact fun a _ => ⟨rfl, rfl⟩
  | succ n ih =>
      obtain ⟨returned, heap, hshows, hrepresents, hfree⟩ := ih (by omega)
      obtain ⟨heap', hadd, hupdates⟩ := dictionaryAdd_updates hrepresents
        (hfree (2 * n + 1) (by omega)).1 (hfree (2 * n + 2) (by omega)).2
        (by rw [length_addedCells]; omega) (readChars_given heap (key n) rfl) none
      have hstep : dictionaryStep (.add 0 (key n) none (2 * n + 1) (2 * n + 2)) heap =
          .ok heap' := by
        rw [dictionaryStep, DictionaryCall.run, hadd]
        rfl
      have hall := hshows.append (Machine.Shows.single dictionaryStep dictionaryReturns hstep)
      rw [List.cons_append, ← adds_succ] at hall
      rw [← addedCells_succ] at hupdates
      refine ⟨_, heap', hall, hupdates.represents, fun a ha => ?_⟩
      have hunused := hfree a (by omega)
      constructor
      · refine hupdates.nodes.freed a (fun hmem => ?_) (.inr hunused.1)
        obtain ⟨c, hc, rfl⟩ := List.mem_map.1 hmem
        exact Nat.not_le_of_lt ha (le_of_mem_addedCells key hc).1
      · refine hupdates.texts.freed a (fun hmem => ?_) (.inr hunused.2)
        obtain ⟨c, hc, rfl⟩ := List.mem_map.1 hmem
        exact Nat.not_le_of_lt ha (le_of_mem_addedCells key hc).2

/-- **One node too many.** -/
theorem adds_overflow {n : Nat} (hn : (n : Int) = intMax) :
    Machine.run dictionaryStep (.init none 0 :: adds key (n + 1)) Heap.empty =
      .error .intOverflow := by
  obtain ⟨returned, heap, hshows, hrepresents, hfree⟩ := adds_shows key (n := n) (by omega)
  have hadd := dictionaryAdd_overflows hrepresents (hfree (2 * n + 1) (by omega)).1
    (hfree (2 * n + 2) (by omega)).2 (by rw [length_addedCells]; exact hn)
    (readChars_given heap (key n) rfl) none
  have hstep : dictionaryStep (.add 0 (key n) none (2 * n + 1) (2 * n + 2)) heap =
      .error .intOverflow := by
    rw [dictionaryStep, DictionaryCall.run, hadd]
    rfl
  rw [adds_succ, ← List.cons_append]
  exact (hshows.stop hstep []).1

/-- The keys `"0"`, `"1"`, ... -/
def decimalKey (i : Nat) : String := String.ofList (Nat.toDigits 10 i)

theorem decimalKey_injective : Function.Injective decimalKey := by
  intro i j h
  have hdigits : Nat.toDigits 10 i = Nat.toDigits 10 j := String.ofList_injective h
  have hread := QueryString.readDecimal_toDigits i
  rw [hdigits, QueryString.readDecimal_toDigits] at hread
  exact (Option.some.inj hread).symm

/-- A dictionary of `2 ^ 31` nodes with different keys is not made, and the least
`u_bound` does not remove all the rest of a dictionary of one node. -/
theorem dictionary_overflows :
    (Function.Injective decimalKey ∧
      Machine.run dictionaryStep (.init none 0 :: adds decimalKey 2147483648) Heap.empty =
        .error .intOverflow) ∧
    Machine.run dictionaryStep
        [.init none 0, .add 0 "a" none 1 2, .delete 0 none (-2147483648)] Heap.empty =
      .error .intOverflow := by
  have hlength : 2147483648 = 2147483647 + 1 := by rfl
  refine ⟨⟨decimalKey_injective, ?_⟩, by rfl⟩
  rw [hlength]
  exact adds_overflow decimalKey (by decide)

end Burrow.Memory.Chained
