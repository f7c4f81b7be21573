import Mathlib.Init

/-!
# What a computation that can fail ends with

`Meets x P E` says that `x` ends in a value with `P` or in an error with `E`. The rules take a
computation apart at its binds, so that what is said of its parts is said once.
-/

set_option autoImplicit false

namespace Outcome

universe u v

variable {ε : Type u} {α β : Type v}

/-- The value has the one property, or the error the other. -/
def Meets (x : Except ε α) (P : α → Prop) (E : ε → Prop) : Prop :=
  match x with
  | .ok a => P a
  | .error e => E e

variable {x : Except ε α} {f : α → Except ε β} {P P' : α → Prop} {Q : β → Prop} {E E' : ε → Prop}

theorem Meets.ok {a : α} (h : P a) : Meets (.ok a : Except ε α) P E := h

theorem Meets.error {e : ε} (h : E e) : Meets (.error e : Except ε α) P E := h

theorem Meets.bind (h : Meets x P E) (hf : ∀ a, P a → Meets (f a) Q E) : Meets (x >>= f) Q E := by
  cases x with
  | ok a => exact hf a h
  | error e => exact h

theorem Meets.mono (h : Meets x P E) (hP : ∀ a, P a → P' a) (hE : ∀ e, E e → E' e) :
    Meets x P' E' := by
  cases x with
  | ok a => exact hP a h
  | error e => exact hE e h

/-- What is so anyway. -/
theorem Meets.const {p : Prop} (h : p) (hE : ∀ e, E e) : Meets x (fun _ => p) E := by
  cases x with
  | ok a => exact h
  | error e => exact hE e

theorem Meets.of_eq_ok {a : α} (h : Meets x P E) (ha : x = .ok a) : P a := by
  rw [ha] at h
  exact h

theorem Meets.of_eq_error {e : ε} (h : Meets x P E) (he : x = .error e) : E e := by
  rw [he] at h
  exact h

end Outcome
