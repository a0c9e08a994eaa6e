import Mathlib.Data.Nat.ModEq

/-!
# Sums with end-around carry

The carry of a sum is added to its low digits, until there is none.  In base `b` the result is
the sum modulo `b - 1`, but a sum that is not 0 never becomes 0.

A checksum is the complement of such a sum.  With the checksum the sum has all digits `b - 1`;
where the carry is folded only once, this fails if that leaves a carry again.
-/

namespace JkxyKernel
namespace EndAround

variable {b n s : Nat}

/-- The carry is added once. -/
def fold (b n : Nat) : Nat := n % b + n / b

theorem fold_lt (hb : 1 < b) (hn : b ≤ n) : fold b n < n := by
  have hdiv : 0 < n / b := Nat.div_pos hn (Nat.zero_lt_of_lt hb)
  have hmul : n / b < b * (n / b) := (Nat.lt_mul_iff_one_lt_left hdiv).mpr hb
  have hsplit := Nat.div_add_mod n b
  rw [fold]
  omega

/-- The carry is added until none is left. -/
def endAround (b n : Nat) : Nat := if 1 < b ∧ b ≤ n then endAround b (fold b n) else n
  termination_by n
  decreasing_by
    rename_i h
    exact fold_lt h.1 h.2

theorem endAround_of_lt (hn : n < b) : endAround b n = n := by
  rw [endAround, if_neg fun h => absurd h.2 (Nat.not_le.mpr hn)]

theorem endAround_of_le (hb : 1 < b) (hn : b ≤ n) : endAround b n = endAround b (fold b n) := by
  rw [endAround, if_pos ⟨hb, hn⟩]

/-- A property that folding does not change. -/
theorem endAround_induction {P : Nat → Prop} (hb : 1 < b) (hlow : ∀ n < b, P n)
    (hfold : ∀ n, b ≤ n → P (fold b n) → P n) (n : Nat) : P n := by
  induction n using Nat.strongRecOn with
  | ind n ih =>
      rcases Nat.lt_or_ge n b with hn | hn
      · exact hlow n hn
      · exact hfold n hn (ih _ (fold_lt hb hn))

theorem endAround_lt (hb : 1 < b) (n : Nat) : endAround b n < b := by
  refine endAround_induction (P := fun n => endAround b n < b) hb (fun n hn => ?_)
    (fun n hn ih => ?_) n
  · rw [endAround_of_lt hn]
    exact hn
  · rw [endAround_of_le hb hn]
    exact ih

theorem fold_modEq (hb : 1 < b) : fold b n ≡ n [MOD b - 1] := by
  have hone : b ≡ 1 [MOD b - 1] := (Nat.modEq_iff_dvd' (Nat.le_of_lt hb)).mpr (dvd_refl _) |>.symm
  have hmul : b * (n / b) ≡ 1 * (n / b) [MOD b - 1] := hone.mul_right _
  rw [Nat.one_mul] at hmul
  have hsum : n % b + b * (n / b) ≡ n % b + n / b [MOD b - 1] := hmul.add_left _
  rw [Nat.mod_add_div] at hsum
  exact hsum.symm

theorem endAround_modEq (hb : 1 < b) (n : Nat) : endAround b n ≡ n [MOD b - 1] := by
  refine endAround_induction (P := fun n => endAround b n ≡ n [MOD b - 1]) hb (fun n hn => ?_)
    (fun n hn ih => ?_) n
  · rw [endAround_of_lt hn]
  · rw [endAround_of_le hb hn]
    exact ih.trans (fold_modEq hb)

theorem endAround_pos (hb : 1 < b) : 0 < n → 0 < endAround b n := by
  refine endAround_induction (P := fun n => 0 < n → 0 < endAround b n) hb (fun n hn hpos => ?_)
    (fun n hn ih _ => ?_) n
  · rw [endAround_of_lt hn]
    exact hpos
  · rw [endAround_of_le hb hn]
    refine ih ?_
    have hdiv : 0 < n / b := Nat.div_pos hn (Nat.zero_lt_of_lt hb)
    rw [fold]
    omega

/-- When all digits are the highest. -/
theorem endAround_eq_max_iff (hb : 1 < b) (hn : 0 < n) : endAround b n = b - 1 ↔ b - 1 ∣ n := by
  have hlt := endAround_lt hb n
  have hpos := endAround_pos hb hn
  have hmod := endAround_modEq hb n
  constructor
  · intro hmax
    rw [hmax] at hmod
    exact (Nat.modEq_zero_iff_dvd.mp (hmod.symm.trans (Nat.modEq_zero_iff_dvd.mpr (dvd_refl _))))
  · intro hdvd
    have hdvd' : b - 1 ∣ endAround b n :=
      Nat.modEq_zero_iff_dvd.mp (hmod.trans (Nat.modEq_zero_iff_dvd.mpr hdvd))
    have hle := Nat.le_of_dvd hpos hdvd'
    omega

/-- The complement of a sum that was folded once completes it if and only if there was no carry
again. -/
theorem endAround_complement_iff (hb : 2 < b) (hs : s / b < b) :
    endAround b (s + (b - 1 - fold b s % b)) = b - 1 ↔ fold b s < b := by
  have hb' : 1 < b := Nat.lt_of_succ_lt hb
  have hmod : s % b < b := Nat.mod_lt _ (Nat.zero_lt_of_lt hb)
  have hfold : fold b s = s % b + s / b := rfl
  have hsum : s + (b - 1 - fold b s % b) ≡ fold b s + (b - 1 - fold b s % b) [MOD b - 1] :=
    (fold_modEq hb').symm.add_right _
  have hself : b - 1 ≡ 0 [MOD b - 1] := Nat.modEq_zero_iff_dvd.mpr (dvd_refl _)
  rcases Nat.lt_or_ge (fold b s) b with hlt | hge
  · refine iff_of_true ?_ hlt
    rw [Nat.mod_eq_of_lt hlt] at hsum ⊢
    have hpos : 0 < s + (b - 1 - fold b s) := by
      rcases Nat.eq_zero_or_pos s with rfl | hs
      · rw [fold, Nat.zero_mod, Nat.zero_div]
        omega
      · omega
    rw [endAround_eq_max_iff hb' hpos, ← Nat.modEq_zero_iff_dvd]
    rw [show fold b s + (b - 1 - fold b s) = b - 1 by omega] at hsum
    exact hsum.trans hself
  · refine iff_of_false (fun hmax => ?_) (Nat.not_lt.mpr hge)
    have hrest : fold b s % b = fold b s - b := by
      rw [Nat.mod_eq_sub_mod hge, Nat.mod_eq_of_lt (by omega)]
    rw [hrest] at hsum hmax
    have hpos : 0 < s + (b - 1 - (fold b s - b)) := by omega
    rw [endAround_eq_max_iff hb' hpos, ← Nat.modEq_zero_iff_dvd] at hmax
    have htotal : fold b s + (b - 1 - (fold b s - b)) = b - 1 + (b - 1) + 1 := by omega
    rw [htotal] at hsum
    have hone : (b - 1) + (b - 1) + 1 ≡ 0 + 0 + 1 [MOD b - 1] := (hself.add hself).add_right 1
    have hzero : 1 ≡ 0 [MOD b - 1] := (hone.symm.trans hsum.symm).trans hmax
    have hle := Nat.le_of_dvd Nat.one_pos (Nat.modEq_zero_iff_dvd.mp hzero)
    omega

end EndAround
end JkxyKernel
