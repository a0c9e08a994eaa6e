import Mathlib.Data.List.Basic
import Mathlib.Order.Basic
import Mathlib.Algebra.Order.Ring.Int

/-!
# Handing out a list with a callback

A walk over a list offers one item after the other to a callback, which changes its own
state and says whether it refuses the item (negative), takes it as the last (positive), or
takes it (zero).  What was refused and what was not offered is left for a later walk.

The ledger rule: when the callback stores exactly the items it takes, then what is stored
and what is left are together what there was.  It holds of one walk, and of any number of
walks each of which goes on where the one before it stopped.
-/

namespace JkxyKernel
namespace Cursor

universe u v w

section Walk

variable {σ : Type u} {α : Type v} {β : Type w}
variable {offer : σ → α → σ × Int} {s : σ} {x : α} {xs : List α}
variable {out : σ → List β} {f : α → β}

/-- Offer the items of a list: the state after it, and the items that are left. -/
def walk (offer : σ → α → σ × Int) : σ → List α → σ × List α
  | s, [] => (s, [])
  | s, x :: xs =>
      if (offer s x).2 < 0 then ((offer s x).1, x :: xs)
      else if (offer s x).2 ≠ 0 then ((offer s x).1, xs)
      else walk offer (offer s x).1 xs

@[simp] theorem walk_nil : walk offer s [] = (s, []) := rfl

theorem walk_refused (h : (offer s x).2 < 0) :
    walk offer s (x :: xs) = ((offer s x).1, x :: xs) := by
  rw [walk, if_pos h]

theorem walk_last (h : 0 < (offer s x).2) :
    walk offer s (x :: xs) = ((offer s x).1, xs) := by
  rw [walk, if_neg (not_lt.mpr h.le), if_pos h.ne']

theorem walk_taken (h : (offer s x).2 = 0) :
    walk offer s (x :: xs) = walk offer (offer s x).1 xs := by
  rw [walk, if_neg (by omega), if_neg (by omega)]

/-- What is left is the end of the list. -/
theorem walk_suffix : (walk offer s xs).2 <:+ xs := by
  induction xs generalizing s with
  | nil => exact List.suffix_rfl
  | cons x xs ih =>
      rcases lt_trichotomy (offer s x).2 0 with h | h | h
      · simp [walk_refused h]
      · rw [walk_taken h]
        exact ih.trans (List.suffix_cons x xs)
      · rw [walk_last h]
        exact List.suffix_cons x xs

/-- An item that is not refused is gone. -/
theorem walk_progress (h : 0 ≤ (offer s x).2) (xs : List α) :
    (walk offer s (x :: xs)).2 <:+ xs := by
  rcases h.eq_or_lt with h | h
  · rw [walk_taken h.symm]
    exact walk_suffix
  · simp [walk_last h]

/-- The callback stores exactly the items it takes. -/
structure Ledger (offer : σ → α → σ × Int) (out : σ → List β) (f : α → β) : Prop where
  refused : ∀ s x, (offer s x).2 < 0 → out (offer s x).1 = out s
  taken : ∀ s x, 0 ≤ (offer s x).2 → out (offer s x).1 = out s ++ [f x]

/-- **Ledger rule.** What a walk has stored and what it left are what there was. -/
theorem Ledger.stored_walk (ledger : Ledger offer out f) (s : σ) (xs : List α) :
    out (walk offer s xs).1 ++ (walk offer s xs).2.map f = out s ++ xs.map f := by
  induction xs generalizing s with
  | nil => rfl
  | cons x xs ih =>
      rcases lt_trichotomy (offer s x).2 0 with h | h | h
      · rw [walk_refused h, ledger.refused s x h]
      · rw [walk_taken h, ih, ledger.taken s x h.ge]
        simp
      · rw [walk_last h, ledger.taken s x h.le]
        simp

/-- The state after a walk, from what taking keeps and what refusing makes of it. -/
theorem walk_rule {P Q : σ → Prop}
    (htaken : ∀ s x, P s → 0 ≤ (offer s x).2 → P (offer s x).1)
    (hrefused : ∀ s x, P s → (offer s x).2 < 0 → Q (offer s x).1)
    (hend : ∀ s, P s → Q s) (hs : P s) (xs : List α) :
    Q (walk offer s xs).1 := by
  induction xs generalizing s with
  | nil => exact hend s hs
  | cons x xs ih =>
      rcases lt_trichotomy (offer s x).2 0 with h | h | h
      · rw [walk_refused h]
        exact hrefused s x hs h
      · rw [walk_taken h]
        exact ih (htaken s x hs h.ge)
      · rw [walk_last h]
        exact hend _ (htaken s x hs h.le)

/-- **Loop rule.** A loop that does at every position what a walk does there is the walk over
the items from its position on. -/
theorem loop_walk
    {ε : Type w} {loop : Nat → σ → Nat → Nat → Except ε (σ × Nat × Int)}
    (hend : ∀ rounds s pos i, xs.drop pos = [] → loop (rounds + 1) s pos i = .ok (s, pos, i))
    (hnext : ∀ rounds s pos i x rest, xs.drop pos = x :: rest →
      loop (rounds + 1) s pos i =
        if (offer s x).2 < 0 then .ok ((offer s x).1, pos, i)
        else if (offer s x).2 ≠ 0 then .ok ((offer s x).1, pos + 1, (i + 1 : Nat))
        else loop rounds (offer s x).1 (pos + 1) (i + 1))
    (rounds : Nat) (s : σ) (pos i : Nat) (hrounds : xs.length - pos < rounds) :
    ∃ pos' i' : Nat, loop rounds s pos i =
        .ok ((walk offer s (xs.drop pos)).1, pos', (i' : Int)) ∧
      xs.drop pos' = (walk offer s (xs.drop pos)).2 := by
  induction rounds generalizing s pos i with
  | zero => exact absurd hrounds (Nat.not_lt_zero _)
  | succ rounds ih =>
      cases hdrop : xs.drop pos with
      | nil => exact ⟨pos, i, hend rounds s pos i hdrop, hdrop⟩
      | cons x rest =>
          have hlt : pos < xs.length := by
            by_contra hge
            rw [List.drop_of_length_le (Nat.not_lt.mp hge)] at hdrop
            cases hdrop
          have hrest : xs.drop (pos + 1) = rest := by
            rw [← List.drop_drop, hdrop]
            rfl
          rw [hnext rounds s pos i x rest hdrop]
          rcases lt_trichotomy (offer s x).2 0 with h | h | h
          · exact ⟨pos, i, by rw [if_pos h, walk_refused h], by rw [walk_refused h, hdrop]⟩
          · obtain ⟨pos', i', hloop, hleft⟩ := ih (offer s x).1 (pos + 1) (i + 1) (by omega)
            rw [hrest] at hloop hleft
            refine ⟨pos', i', ?_, by rw [walk_taken h, hleft]⟩
            rw [if_neg h.not_lt, if_neg (not_not.mpr h), hloop, walk_taken h]
          · refine ⟨pos + 1, i + 1, ?_, by rw [walk_last h, hrest]⟩
            rw [if_neg h.le.not_gt, if_pos h.ne', walk_last h]

end Walk

section Walks

variable {σ : Type u} {α : Type v} {β : Type w}
variable {offer : σ → α → σ × Int} {s : σ} {ss : List σ} {x : α} {xs : List α}
variable {out : σ → List β} {f : α → β}

/-- Walks with fresh states one after the other: the states after them. -/
def walks (offer : σ → α → σ × Int) : List σ → List α → List σ
  | [], _ => []
  | s :: ss, xs => (walk offer s xs).1 :: walks offer ss (walk offer s xs).2

/-- The items that are left after such walks. -/
def left (offer : σ → α → σ × Int) : List σ → List α → List α
  | [], xs => xs
  | s :: ss, xs => left offer ss (walk offer s xs).2

@[simp] theorem length_walks : (walks offer ss xs).length = ss.length := by
  induction ss generalizing xs with
  | nil => rfl
  | cons s ss ih => simp [walks, ih]

/-- Each walk goes on with what the ones before it have left. -/
theorem getElem?_walks (k : Nat) :
    (walks offer ss xs)[k]? =
      (ss[k]?).map fun s => (walk offer s (left offer (ss.take k) xs)).1 := by
  induction ss generalizing xs k with
  | nil => simp [walks]
  | cons s ss ih =>
      cases k with
      | zero => simp [walks, left]
      | succ k => simpa [walks, left] using ih k

theorem left_take_succ {k : Nat} (hk : ss[k]? = some s) :
    left offer (ss.take (k + 1)) xs = (walk offer s (left offer (ss.take k) xs)).2 := by
  induction ss generalizing xs k with
  | nil => simp at hk
  | cons t ss ih =>
      cases k with
      | zero =>
          obtain rfl : t = s := by simpa using hk
          simp [left]
      | succ k => simpa [left] using ih hk

/-- **Ledger rule for walks.** What any number of walks have stored, and what they left,
are what there was. -/
theorem Ledger.stored_walks (ledger : Ledger offer out f) (hfresh : ∀ s ∈ ss, out s = [])
    (xs : List α) (k : Nat) :
    ((walks offer ss xs).take k).flatMap out ++ (left offer (ss.take k) xs).map f =
      xs.map f := by
  induction ss generalizing xs k with
  | nil => simp [walks, left]
  | cons s ss ih =>
      cases k with
      | zero => simp [left]
      | succ k =>
          have hrest := ih (fun s hs => hfresh s (List.mem_cons_of_mem _ hs))
            (walk offer s xs).2 k
          have hfirst := ledger.stored_walk s xs
          rw [hfresh s List.mem_cons_self, List.nil_append] at hfirst
          simp only [walks, left, List.take_succ_cons, List.flatMap_cons,
            List.append_assoc]
          rw [hrest, hfirst]

theorem left_suffix : left offer ss xs <:+ xs := by
  induction ss generalizing xs with
  | nil => exact List.suffix_rfl
  | cons s ss ih => exact ih.trans walk_suffix

/-- Walks that each take an item while there is one come to the end. -/
theorem length_left_add_le {k : Nat} (hk : k ≤ ss.length)
    (hprogress : ∀ j s, j < k → ss[j]? = some s →
      ∃ x rest, left offer (ss.take j) xs = x :: rest ∧ 0 ≤ (offer s x).2) :
    (left offer (ss.take k) xs).length + k ≤ xs.length := by
  induction k with
  | zero => simp [left]
  | succ k ih =>
      obtain ⟨s, hs⟩ : ∃ s, ss[k]? = some s := ⟨ss[k], List.getElem?_eq_getElem hk⟩
      have hbefore := ih (by omega) fun j s hj => hprogress j s (by omega)
      obtain ⟨x, rest, hleft, htaken⟩ := hprogress k s (by omega) hs
      have hgone := (walk_progress htaken rest).length_le
      rw [left_take_succ hs, hleft]
      rw [hleft, List.length_cons] at hbefore
      omega

end Walks

end Cursor
end JkxyKernel
