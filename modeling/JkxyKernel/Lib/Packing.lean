import Mathlib.Algebra.Order.Ring.Nat

/-!
# Pieces of a region

A list of pieces is packed in a region if each of them lies behind the one before it, and the last
one ends in the region.  A gap is a place at which a piece of some width fits without meeting any
of them; `firstGap` finds the first one that begins where the region or a piece ends, and there is
none at all if it finds none.
-/

namespace JkxyKernel
namespace Packing

universe u

variable {α : Type u} {start len : α → Nat} {lo lo' hi w pos : Nat} {l l' pre post : List α}
  {a b : α}

/-! ### Runs of numbers -/

/-- Two runs of numbers do not meet. -/
def Apart (first num first' num' : Nat) : Prop := first + num ≤ first' ∨ first' + num' ≤ first

/-- Two runs that have nothing in common do not meet. -/
theorem apart_of_disjoint {first num first' num' : Nat} (hnum : 0 < num) (hnum' : 0 < num')
    (h : ∀ k < num, ∀ k' < num', first + k ≠ first' + k') : Apart first num first' num' := by
  by_contra hmeet
  rw [Apart, not_or, Nat.not_le, Nat.not_le] at hmeet
  obtain ⟨hlt, hlt'⟩ := hmeet
  rcases Nat.le_total first first' with hle | hle
  · exact h (first' - first) (by omega) 0 hnum' (by omega)
  · exact h 0 hnum (first - first') (by omega) (by omega)

/-- Two pieces of which no two meet are the same if there is a number in both. -/
theorem eq_of_meet (h : l.Pairwise fun a b => Apart (start a) (len a) (start b) (len b))
    (ha : a ∈ l) (hb : b ∈ l) (hpos : start a ≤ pos ∧ pos < start a + len a)
    (hpos' : start b ≤ pos ∧ pos < start b + len b) : a = b := by
  induction l with
  | nil => cases ha
  | cons c l ih =>
      obtain ⟨hfirst, hrest⟩ := List.pairwise_cons.mp h
      rcases List.mem_cons.mp ha with rfl | ha' <;> rcases List.mem_cons.mp hb with rfl | hb'
      · rfl
      · rcases hfirst b hb' with hle | hle <;> omega
      · rcases hfirst a ha' with hle | hle <;> omega
      · exact ih hrest ha' hb'

/-! ### Pieces -/

/-- The pieces lie one behind the other between `lo` and `hi`. -/
def Packed (start len : α → Nat) (lo hi : Nat) : List α → Prop
  | [] => lo ≤ hi
  | a :: l => lo ≤ start a ∧ Packed start len (start a + len a) hi l

namespace Packed

theorem le (h : Packed start len lo hi l) : lo ≤ hi := by
  induction l generalizing lo with
  | nil => exact h
  | cons a l ih =>
      have hrest := ih h.2
      have hfirst := h.1
      omega

/-- A region that begins earlier. -/
theorem weaken (h : Packed start len lo hi l) (hle : lo' ≤ lo) : Packed start len lo' hi l := by
  cases l with
  | nil => exact Nat.le_trans hle h
  | cons a l => exact ⟨Nat.le_trans hle h.1, h.2⟩

/-- A piece lies in the region. -/
theorem bounds (h : Packed start len lo hi l) (ha : a ∈ l) :
    lo ≤ start a ∧ start a + len a ≤ hi := by
  induction l generalizing lo with
  | nil => cases ha
  | cons b l ih =>
      obtain ⟨hfirst, hrest⟩ := h
      rcases List.mem_cons.mp ha with rfl | ha
      · exact ⟨hfirst, hrest.le⟩
      · obtain ⟨hlow, hhigh⟩ := ih hrest ha
        exact ⟨by omega, hhigh⟩

/-- Two pieces do not meet. -/
theorem pairwise (h : Packed start len lo hi l) :
    l.Pairwise fun a b => Apart (start a) (len a) (start b) (len b) := by
  induction l generalizing lo with
  | nil => exact .nil
  | cons a l ih => exact .cons (fun b hb => .inl (h.2.bounds hb).1) (ih h.2)

/-- There is room for the widths of all pieces. -/
theorem total_le (h : Packed start len lo hi l) : lo + (l.map len).sum ≤ hi := by
  induction l generalizing lo with
  | nil => exact h
  | cons a l ih =>
      have hrest := ih h.2
      have hfirst := h.1
      rw [List.map_cons, List.sum_cons]
      omega

/-- Pieces are taken away. -/
theorem sublist (h : Packed start len lo hi l) (hsub : l'.Sublist l) :
    Packed start len lo hi l' := by
  induction hsub generalizing lo with
  | slnil => exact h
  | cons a _ ih => exact (ih h.2).weaken (by have := h.1; omega)
  | cons_cons a _ ih => exact ⟨h.1, ih h.2⟩

/-- Pieces that lie where others do. -/
theorem map {f : α → α} (h : Packed start len lo hi l) (hstart : ∀ a, start (f a) = start a)
    (hlen : ∀ a, len (f a) = len a) : Packed start len lo hi (l.map f) := by
  induction l generalizing lo with
  | nil => exact h
  | cons a l ih =>
      refine ⟨by rw [hstart]; exact h.1, ?_⟩
      rw [hstart, hlen]
      exact ih h.2

end Packed

/-- A piece of this width at this place would lie in the region and meet no other. -/
structure Gap (start len : α → Nat) (lo hi w : Nat) (l : List α) (pos : Nat) : Prop where
  low : lo ≤ pos
  high : pos + w ≤ hi
  free : ∀ a ∈ l, pos + w ≤ start a ∨ start a + len a ≤ pos

/-- There is room for the pieces and for one more. -/
theorem Gap.total_le (hgap : Gap start len lo hi w l pos) (h : Packed start len lo hi l) :
    lo + (l.map len).sum + w ≤ hi := by
  obtain ⟨hlow, hhigh, hfree⟩ := hgap
  induction l generalizing lo with
  | nil =>
      rw [List.map_nil, List.sum_nil]
      omega
  | cons a l ih =>
      obtain ⟨hfirst, hrest⟩ := h
      have htotal := hrest.total_le
      rw [List.map_cons, List.sum_cons]
      rcases hfree a List.mem_cons_self with hbefore | hbehind
      · omega
      · have := ih hrest hbehind fun b hb => hfree b (List.mem_cons_of_mem a hb)
        omega

/-- The first gap: what is before it, where it begins, and what is behind it. -/
def firstGap (start len : α → Nat) (w hi : Nat) : Nat → List α → Option (List α × Nat × List α)
  | lo, [] => if w ≤ hi - lo then some ([], lo, []) else none
  | lo, a :: l =>
      if w ≤ start a - lo then some ([], lo, a :: l)
      else (firstGap start len w hi (start a + len a) l).map fun g => (a :: g.1, g.2)

/-- A piece in the gap that has been found, by induction on the pieces. -/
theorem firstGap_some (h : Packed start len lo hi l)
    (hgap : firstGap start len w hi lo l = some (pre, pos, post)) (hw : 0 < w) :
    l = pre ++ post ∧ Gap start len lo hi w l pos ∧
      ∀ a, start a = pos → len a = w → Packed start len lo hi (pre ++ a :: post) := by
  induction l generalizing lo pre with
  | nil =>
      rw [firstGap] at hgap
      split at hgap
      next hfits =>
        cases hgap
        refine ⟨rfl, ⟨Nat.le_refl _, by omega, by simp⟩, fun a hstart hlen => ?_⟩
        refine ⟨Nat.le_of_eq hstart.symm, ?_⟩
        change start a + len a ≤ hi
        omega
      next => cases hgap
  | cons b l ih =>
      obtain ⟨hfirst, hrest⟩ := h
      rw [firstGap] at hgap
      split at hgap
      next hfits =>
        cases hgap
        refine ⟨rfl, ⟨Nat.le_refl _, ?_, fun c hc => .inl ?_⟩, fun a hstart hlen => ?_⟩
        · have := hrest.le
          omega
        · rcases List.mem_cons.mp hc with rfl | hc
          · omega
          · have := (hrest.bounds hc).1
            omega
        · exact ⟨Nat.le_of_eq hstart.symm, by omega, hrest⟩
      next =>
        obtain ⟨⟨pre', pos', post'⟩, hfound, heq⟩ := Option.map_eq_some_iff.mp hgap
        cases heq
        obtain ⟨hsplit, hfree, hpacked⟩ := ih hrest hfound
        refine ⟨by rw [hsplit]; rfl, ⟨?_, hfree.high, fun c hc => ?_⟩, fun a hstart hlen =>
          ⟨hfirst, hpacked a hstart hlen⟩⟩
        · have := hfree.low
          omega
        · rcases List.mem_cons.mp hc with rfl | hc
          · exact .inr hfree.low
          · exact hfree.free c hc

/-- No gap is found where there is none. -/
theorem firstGap_none (h : Packed start len lo hi l)
    (hgap : firstGap start len w hi lo l = none) : ¬ Gap start len lo hi w l pos := by
  rintro ⟨hlow, hhigh, hfree⟩
  induction l generalizing lo with
  | nil =>
      rw [firstGap] at hgap
      split at hgap
      next => cases hgap
      next hfull => omega
  | cons b l ih =>
      rw [firstGap] at hgap
      split at hgap
      next => cases hgap
      next hfull =>
        have hrest := Option.map_eq_none_iff.mp hgap
        rcases hfree b List.mem_cons_self with hbefore | hbehind
        · have := h.1
          omega
        · exact ih h.2 hrest hbehind fun c hc => hfree c (List.mem_cons_of_mem b hc)

end Packing
end JkxyKernel
