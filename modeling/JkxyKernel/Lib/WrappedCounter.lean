import Mathlib.Data.Nat.Basic
import Mathlib.Tactic.SplitIfs

/-!
# Loops with a counter that is too small

A `for` loop counts up to a bound, with a counter that has only so many values and starts
again at 0 behind the last of them.  Where the bound is one of the values, the loop is the
loop over a range.  Where it is not, the loop never gets to its end; it goes round all values,
and ends only if it is left at one of them.
-/

namespace JkxyKernel
namespace WrappedCounter

variable (size : Nat) (stops : Nat → Bool) (bound : Nat)

/-- The loop, which is left where `stops` says so: was it left?  `none` is for a loop that
does not end within so many rounds. -/
def scan : Nat → Nat → Option Bool
  | 0, _ => none
  | rounds + 1, i =>
      if i < bound then
        if stops i then some true else scan rounds ((i + 1) % size)
      else some false

/-- The loop with a body that changes a state. -/
def loop {σ : Type} (body : Nat → σ → σ) : Nat → Nat → σ → Option σ
  | 0, _, _ => none
  | rounds + 1, i, s =>
      if i < bound then loop body rounds ((i + 1) % size) (body i s) else some s

variable {size stops bound} {rounds i j : Nat}

/-! ### Bounds that the counter gets to -/

theorem succ_mod_eq (hbound : bound < size) (hi : i < bound) : (i + 1) % size = i + 1 :=
  Nat.mod_eq_of_lt (Nat.lt_of_le_of_lt hi hbound)

/-- The loop looks at the values up to its bound. -/
theorem scan_eq_of_lt (hbound : bound < size) (hrounds : bound - i < rounds) :
    scan size stops bound rounds i = some ((List.range' i (bound - i)).any stops) := by
  induction rounds generalizing i with
  | zero => exact absurd hrounds (Nat.not_lt_zero _)
  | succ rounds ih =>
      rw [scan]
      split
      next hi =>
        have hrest : bound - i = (bound - (i + 1)) + 1 := by omega
        rw [succ_mod_eq hbound hi, hrest, List.range'_succ, List.any_cons]
        split
        next hstop => rw [hstop, Bool.true_or]
        next hgo =>
          rw [Bool.not_eq_true] at hgo
          rw [ih (by omega), hgo, Bool.false_or]
      next hi => rw [Nat.sub_eq_zero_of_le (Nat.not_lt.mp hi)]; rfl

theorem scan_eq_false_of_lt (hbound : bound < size) (hrounds : bound - i < rounds) :
    scan size stops bound rounds i = some false ↔ ∀ j, i ≤ j → j < bound → stops j = false := by
  rw [scan_eq_of_lt hbound hrounds, Option.some.injEq, List.any_eq_false]
  constructor
  · intro h j hle hlt
    exact Bool.eq_false_iff.mpr (h j (List.mem_range'_1.mpr ⟨hle, by omega⟩))
  · intro h j hj
    rw [List.mem_range'_1] at hj
    exact Bool.eq_false_iff.mp (h j hj.1 (by omega))

theorem loop_eq_of_lt {σ : Type} {body : Nat → σ → σ} {s : σ} (hbound : bound < size)
    (hrounds : bound - i < rounds) :
    loop size bound body rounds i s =
      some ((List.range' i (bound - i)).foldl (fun s j => body j s) s) := by
  induction rounds generalizing i s with
  | zero => exact absurd hrounds (Nat.not_lt_zero _)
  | succ rounds ih =>
      rw [loop]
      split
      next hi =>
        have hrest : bound - i = (bound - (i + 1)) + 1 := by omega
        rw [succ_mod_eq hbound hi, ih (by omega), hrest, List.range'_succ, List.foldl_cons]
      next hi => rw [Nat.sub_eq_zero_of_le (Nat.not_lt.mp hi)]; rfl

/-! ### Bounds that it never gets to -/

theorem scan_ne_false (hbound : size ≤ bound) (hi : i < size) :
    scan size stops bound rounds i ≠ some false := by
  induction rounds generalizing i with
  | zero => exact nofun
  | succ rounds ih =>
      rw [scan, if_pos (Nat.lt_of_lt_of_le hi hbound)]
      split
      next => exact nofun
      next => exact ih (Nat.mod_lt _ (Nat.zero_lt_of_lt hi))

/-- By induction on how far it is to a value where the loop is left. -/
theorem scan_eq_true (hbound : size ≤ bound) (hi : i < size) (hj : j < size)
    (hstop : stops j = true) {far : Nat} (hfar : (i + far) % size = j) (hrounds : far < rounds) :
    scan size stops bound rounds i = some true := by
  induction far generalizing i rounds with
  | zero =>
      rw [Nat.add_zero, Nat.mod_eq_of_lt hi] at hfar
      subst hfar
      obtain ⟨rounds, rfl⟩ := Nat.exists_eq_succ_of_ne_zero (Nat.ne_zero_of_lt hrounds)
      rw [scan, if_pos (Nat.lt_of_lt_of_le hi hbound), if_pos hstop]
  | succ far ih =>
      obtain ⟨rounds, rfl⟩ := Nat.exists_eq_succ_of_ne_zero (Nat.ne_zero_of_lt hrounds)
      rw [scan, if_pos (Nat.lt_of_lt_of_le hi hbound)]
      split
      next => rfl
      next =>
        have hnext : ((i + 1) % size + far) % size = j := by
          rw [Nat.mod_add_mod, Nat.add_assoc, Nat.add_comm 1 far]
          exact hfar
        exact ih (Nat.mod_lt _ (Nat.zero_lt_of_lt hi)) hnext (Nat.lt_of_succ_lt_succ hrounds)

/-- Left nowhere, the loop goes on for ever. -/
theorem scan_eq_none (hbound : size ≤ bound) (hi : i < size)
    (hgo : ∀ j < size, stops j = false) : scan size stops bound rounds i = none := by
  induction rounds generalizing i with
  | zero => rfl
  | succ rounds ih =>
      rw [scan, if_pos (Nat.lt_of_lt_of_le hi hbound), hgo i hi, if_neg Bool.false_ne_true]
      exact ih (Nat.mod_lt _ (Nat.zero_lt_of_lt hi))

/-- The loop is left if there is a value where it is, and goes on for ever if not. -/
theorem scan_eq_of_le (hbound : size ≤ bound) (hi : i < size) (hrounds : size ≤ rounds) :
    (scan size stops bound rounds i = some true ↔ ∃ j < size, stops j = true) ∧
      (scan size stops bound rounds i = none ↔ ∀ j < size, stops j = false) := by
  by_cases hstop : ∃ j < size, stops j = true
  · obtain ⟨j, hj, hstops⟩ := hstop
    have hfar : (i + (j + size - i) % size) % size = j := by
      have hsum : i + (j + size - i) = j + size := by omega
      rw [Nat.add_mod_mod, hsum, Nat.add_mod_right, Nat.mod_eq_of_lt hj]
    have hlt : (j + size - i) % size < rounds :=
      Nat.lt_of_lt_of_le (Nat.mod_lt _ (Nat.zero_lt_of_lt hi)) hrounds
    have htrue := scan_eq_true hbound hi hj hstops hfar hlt
    rw [htrue]
    exact ⟨iff_of_true rfl ⟨j, hj, hstops⟩, iff_of_false nofun fun hgo =>
      Bool.false_ne_true ((hgo j hj).symm.trans hstops)⟩
  · have hgo : ∀ j < size, stops j = false := fun j hj =>
      Bool.eq_false_iff.mpr fun hstops => hstop ⟨j, hj, hstops⟩
    rw [scan_eq_none hbound hi hgo]
    exact ⟨iff_of_false nofun hstop, iff_of_true rfl hgo⟩

/-- With rounds for all values and one more, the loop only fails to end where it would go on
for ever. -/
theorem scan_ok (hi : i < size) (hrounds : size < rounds)
    (h : bound < size ∨ ∃ j < size, stops j = true) :
    ∃ left, scan size stops bound rounds i = some left := by
  rcases Nat.lt_or_ge bound size with hbound | hbound
  · exact ⟨_, scan_eq_of_lt hbound (by omega)⟩
  · exact ⟨true, (scan_eq_of_le hbound hi (Nat.le_of_lt hrounds)).1.mpr
      (h.resolve_left (Nat.not_lt.mpr hbound))⟩

end WrappedCounter
end JkxyKernel
