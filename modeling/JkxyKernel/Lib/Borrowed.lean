import Mathlib.Logic.Function.Basic
import Mathlib.Data.List.Count

/-!
# Borrowed references

An operation that takes references on its way and gives them back changes the counters of
the objects only by the references it holds at the moment.  `Borrowed rc rc' l` says that
the counters were `rc`, are `rc'`, and differ by the references in `l`, in any order and
with repetitions.

The objects are of an arbitrary type.
-/

namespace JkxyKernel

universe u

variable {ω : Type u} [DecidableEq ω]

/-- The counters `rc'` are those of `rc`, and the references in `l`. -/
def Borrowed (rc rc' : ω → Int) (l : List ω) : Prop :=
  ∀ o, rc' o = rc o + (l.count o : Int)

namespace Borrowed

variable {rc rc' : ω → Int} {l l' : List ω} {o : ω}

theorem refl (rc : ω → Int) : Borrowed rc rc [] := by
  intro o
  simp

/-- With nothing borrowed the counters are what they were. -/
theorem returned (h : Borrowed rc rc' []) : rc' = rc := by
  funext o
  rw [h o, List.count_nil]
  omega

theorem perm (h : Borrowed rc rc' l) (hl : l.Perm l') : Borrowed rc rc' l' := by
  intro o
  rw [h o, hl.count_eq]

/-- A borrowed object is counted once more than it was. -/
theorem lt (h : Borrowed rc rc' l) (ho : o ∈ l) : rc o < rc' o := by
  have hpos := List.count_pos_iff.mpr ho
  have := h o
  omega

/-- What is borrowed on top of what was borrowed. -/
theorem trans {rc'' : ω → Int} (h : Borrowed rc rc' l) (h' : Borrowed rc' rc'' l') :
    Borrowed rc rc'' (l' ++ l) := by
  intro o
  rw [h' o, h o, List.count_append]
  omega

/-- One more reference is taken. -/
theorem take (h : Borrowed rc rc' l) (o : ω) :
    Borrowed rc (Function.update rc' o (rc' o + 1)) (o :: l) := by
  intro o'
  by_cases ho : o' = o
  · subst ho
    rw [Function.update_self, List.count_cons_self, h o']
    omega
  · rw [Function.update_of_ne ho, List.count_cons_of_ne (Ne.symm ho), h o']

/-- A reference is given back. -/
theorem give (h : Borrowed rc rc' (o :: l)) :
    Borrowed rc (Function.update rc' o (rc' o - 1)) l := by
  intro o'
  have ho' := h o'
  by_cases ho : o' = o
  · subst ho
    rw [List.count_cons_self] at ho'
    rw [Function.update_self]
    omega
  · rw [List.count_cons_of_ne (Ne.symm ho)] at ho'
    rw [Function.update_of_ne ho, ho']

end Borrowed
end JkxyKernel
