import Mathlib.Init

/-!
# How a fallible computation ends

`Ends T P x` says that `x` goes wrong only if `T` does not hold, and that its result satisfies `P`
otherwise.  With `T` true it is total correctness; with `T` false it is partial correctness, so
that one proof by these rules gives both: what is always so, and what is needed for nothing to go
wrong.
-/

namespace JkxyKernel

universe u v

variable {ε : Type v} {α β : Type u} {T : Prop} {P : α → Prop} {Q : β → Prop}

/-- A result satisfies `P`, and there is one if `T` holds. -/
def Ends (T : Prop) (P : α → Prop) : Except ε α → Prop
  | .ok a => P a
  | .error _ => ¬T

namespace Ends

variable {x : Except ε α} {next : α → Except ε β}

theorem intro (hok : T → ∃ a, x = .ok a) (hP : ∀ a, x = .ok a → P a) : Ends T P x := by
  cases x with
  | ok a => exact hP a rfl
  | error e =>
      intro hT
      obtain ⟨a, ha⟩ := hok hT
      cases ha

theorem exists_ok (h : Ends T P x) (hT : T) : ∃ a, x = .ok a ∧ P a := by
  cases x with
  | ok a => exact ⟨a, rfl, h⟩
  | error e => exact absurd hT h

theorem of_ok {a : α} (h : Ends T P x) (hx : x = .ok a) : P a := by
  rw [hx] at h
  exact h

theorem mono {P' : α → Prop} (h : Ends T P x) (hP : ∀ a, P a → P' a) : Ends T P' x := by
  cases x with
  | ok a => exact hP a h
  | error e => exact h

/-- The rule of sequences. -/
theorem bind (h : Ends T P x) (hnext : ∀ a, P a → Ends T Q (next a)) : Ends T Q (x >>= next) := by
  cases x with
  | ok a => exact hnext a h
  | error e => exact h

/-- The first part is made for the second. -/
theorem seq (h : Ends T (fun a => Ends T Q (next a)) x) : Ends T Q (x >>= next) :=
  h.bind fun _ ha => ha

/-- Something with a known result. -/
theorem known {a : α} (hx : x = .ok a) (hnext : Ends T Q (next a)) : Ends T Q (x >>= next) := by
  rw [hx]
  exact hnext

/-- What is done first does not matter. -/
theorem after (hnext : ∀ a, Ends False Q (next a)) : Ends False Q (x >>= next) := by
  cases x with
  | ok a => exact hnext a
  | error e => exact not_false

end Ends
end JkxyKernel
