import Mathlib.Logic.Function.Iterate
import Mathlib.Tactic.SplitIfs

/-!
# Searching with a counter

A counter is moved on by `next` until it shows a free value.  The search takes a bound
on its rounds; it finds something exactly when one of the values it comes by is free,
and then the first of these.

The counters of allocators go up to a last value and start again at a loop value.  Such
a counter comes by every value of its loop.
-/

namespace JkxyKernel
namespace Search

universe u

section Search

variable {α : Type u} (next : α → α) (free : α → Bool)

/-- The first free value from here on, and the counter after it. -/
def searchFrom : Nat → α → Option (α × α)
  | 0, _ => none
  | rounds + 1, a => if free a then some (a, next a) else searchFrom rounds (next a)

/-- The values the search looks at. -/
def tried : Nat → α → List α
  | 0, _ => []
  | rounds + 1, a => if free a then [a] else a :: tried rounds (next a)

variable {next free} {rounds : Nat} {a b c : α}

/-- What is found is the first free value the counter comes by. -/
theorem searchFrom_eq_some :
    searchFrom next free rounds a = some (b, c) ↔
      ∃ i < rounds, b = next^[i] a ∧ c = next b ∧ free b = true ∧
        ∀ j < i, free (next^[j] a) = false := by
  induction rounds generalizing a with
  | zero => simp [searchFrom]
  | succ rounds ih =>
      simp only [searchFrom]
      split_ifs with hfree
      · constructor
        · intro h
          cases h
          exact ⟨0, Nat.succ_pos _, rfl, rfl, hfree, by simp⟩
        · rintro ⟨i, -, rfl, rfl, -, hbefore⟩
          cases i with
          | zero => rfl
          | succ i => exact absurd hfree (by simpa using hbefore 0 (Nat.succ_pos _))
      · rw [ih]
        constructor
        · rintro ⟨i, hi, hb, hc, hfound, hbefore⟩
          refine ⟨i + 1, Nat.succ_lt_succ hi, hb, hc, hfound, fun j hj => ?_⟩
          cases j with
          | zero => simpa using hfree
          | succ j => exact hbefore j (Nat.lt_of_succ_lt_succ hj)
        · rintro ⟨i, hi, hb, hc, hfound, hbefore⟩
          cases i with
          | zero =>
              rw [hb] at hfound
              exact absurd hfound hfree
          | succ i =>
              exact ⟨i, Nat.lt_of_succ_lt_succ hi, hb, hc, hfound,
                fun j hj => hbefore (j + 1) (Nat.succ_lt_succ hj)⟩

/-- The search ends when a free value is met in time. -/
theorem searchFrom_isSome {i : Nat} (hi : i < rounds) (hfree : free (next^[i] a) = true) :
    (searchFrom next free rounds a).isSome = true := by
  induction rounds generalizing a i with
  | zero => exact absurd hi (Nat.not_lt_zero i)
  | succ rounds ih =>
      simp only [searchFrom]
      split_ifs with hnow
      · rfl
      · cases i with
        | zero => exact absurd hfree hnow
        | succ i => exact ih (Nat.lt_of_succ_lt_succ hi) hfree

/-- What the counter keeps holds of the value found and of the counter after it. -/
theorem searchFrom_invariant
    {P : α → Prop} (hnext : ∀ a, P a → P (next a)) (ha : P a)
    (h : searchFrom next free rounds a = some (b, c)) :
    P b ∧ P c ∧ free b = true := by
  obtain ⟨i, -, rfl, rfl, hfree, -⟩ := searchFrom_eq_some.mp h
  have hb : P (next^[i] a) := Function.Iterate.rec P ha (fun a => hnext a) i
  exact ⟨hb, hnext _ hb, hfree⟩

/-- What the counter keeps holds of all values tried. -/
theorem tried_invariant
    {P : α → Prop} (hnext : ∀ a, P a → P (next a)) (ha : P a) :
    ∀ b ∈ tried next free rounds a, P b := by
  induction rounds generalizing a with
  | zero => simp [tried]
  | succ rounds ih =>
      simp only [tried]
      split_ifs
      · simpa using ha
      · simpa using ⟨ha, ih (hnext a ha)⟩

/-- Behind a value in the list the search went on from that value. -/
theorem tried_eq_append {before after : List α}
    (h : tried next free rounds a = before ++ b :: after) :
    ∃ rounds', after = tried next free rounds' (next b) ∨ after = [] := by
  induction rounds generalizing a before with
  | zero => simp [tried] at h
  | succ rounds ih =>
      simp only [tried] at h
      split_ifs at h
      · cases before with
        | nil =>
            cases h
            exact ⟨0, .inr rfl⟩
        | cons x before => simp at h
      · cases before with
        | nil =>
            cases h
            exact ⟨rounds, .inl rfl⟩
        | cons x before => exact ih (List.cons.inj h).2

/-- The value found is the last one tried, and the counter goes on from it. -/
theorem tried_of_searchFrom (h : searchFrom next free rounds a = some (b, c)) :
    c = next b ∧ ∃ before, tried next free rounds a = before ++ [b] := by
  induction rounds generalizing a with
  | zero => cases h
  | succ rounds ih =>
      simp only [searchFrom] at h
      simp only [tried]
      split_ifs at h ⊢
      · cases h
        exact ⟨rfl, [], rfl⟩
      · obtain ⟨hc, before, hbefore⟩ := ih h
        exact ⟨hc, a :: before, by rw [hbefore]; rfl⟩

end Search

section Cycle

variable {lo hi n : Nat}

/-- The counter after `n` that goes up to `hi` and starts again at `lo`. -/
def cycle (lo hi n : Nat) : Nat :=
  if hi < n + 1 then lo else n + 1

theorem cycle_le (hle : lo ≤ hi) : cycle lo hi n ≤ hi := by
  simp only [cycle]
  split_ifs
  · exact hle
  · omega

theorem le_cycle {m : Nat} (hm : m ≤ lo) (hn : m ≤ n) : m ≤ cycle lo hi n := by
  simp only [cycle]
  split_ifs
  · exact hm
  · omega

/-- The counter counts. -/
theorem cycle_iterate (i : Nat) (h : n + i ≤ hi) : (cycle lo hi)^[i] n = n + i := by
  induction i with
  | zero => rfl
  | succ i ih =>
      rw [Function.iterate_succ_apply', ih (by omega), cycle, if_neg (by omega)]
      rfl

/-- The counter comes by every value of its loop, within one round of all its values. -/
theorem exists_cycle_iterate {target : Nat}
    (hn : n ≤ hi) (hlo : lo ≤ target) (hhi : target ≤ hi) :
    ∃ i ≤ hi, (cycle lo hi)^[i] n = target := by
  rcases Nat.le_total n target with hle | hle
  · refine ⟨target - n, by omega, ?_⟩
    rw [cycle_iterate _ (by omega)]
    omega
  · by_cases heq : n = target
    · exact ⟨0, Nat.zero_le _, heq⟩
    -- up to the end, back to the loop value, and up again
    · refine ⟨(target - lo) + ((hi - n) + 1), by omega, ?_⟩
      have hback : (cycle lo hi)^[hi - n + 1] n = lo := by
        rw [Function.iterate_succ_apply', cycle_iterate _ (by omega), cycle,
          if_pos (by omega)]
      rw [Function.iterate_add_apply, hback, cycle_iterate _ (by omega)]
      omega

end Cycle

end Search
end JkxyKernel
