import Mathlib.Data.List.Chain
import Mathlib.Logic.Function.Basic

/-!
# Doubly linked sequences

Nodes of any type carry a `next` and a `prev` link.  A sequence of distinct nodes is linked
when the links of every two neighbours point at each other; the outer links of its ends are
left open, so that sentinels may close them in any way.

The module says what the two elementary operations do, putting a node between two
neighbours and taking one out, and what leaves a linked sequence alone.
-/

namespace JkxyKernel
namespace DoublyLinked

universe u

variable {ν : Type u} {next prev next' prev' : ν → Option ν}

/-- Neighbours point at each other. -/
def Linked (next prev : ν → Option ν) (xs : List ν) : Prop :=
  xs.IsChain fun a b => next a = some b ∧ prev b = some a

section Linked

variable {xs as bs : List ν} {p n q : ν}

/-- The links that count are the `next` of all nodes but the last, and the `prev` of all
but the first. -/
theorem Linked.congr
    (h : Linked next prev xs)
    (hnext : ∀ a ∈ xs.dropLast, next' a = next a)
    (hprev : ∀ b ∈ xs.tail, prev' b = prev b) :
    Linked next' prev' xs := by
  induction xs with
  | nil => exact .nil
  | cons a rest ih =>
      cases rest with
      | nil => exact .singleton a
      | cons b rest =>
          obtain ⟨hab, hrest⟩ := List.isChain_cons_cons.mp h
          refine List.isChain_cons_cons.mpr ⟨⟨?_, ?_⟩, ih hrest ?_ ?_⟩
          · rw [hnext a (by simp), hab.1]
          · rw [hprev b (by simp), hab.2]
          · intro c hc
            exact hnext c (by rw [List.dropLast_cons_cons]; exact List.mem_cons_of_mem a hc)
          · intro c hc
            exact hprev c (List.mem_cons_of_mem b hc)

/-- What the links of two neighbours inside a sequence are. -/
theorem Linked.neighbours (h : Linked next prev (as ++ p :: q :: bs)) :
    next p = some q ∧ prev q = some p :=
  (List.isChain_append_cons_cons.mp h).2.1

/-- A linked sequence reads the same backwards, with the links exchanged. -/
theorem Linked.reverse (h : Linked next prev xs) : Linked prev next xs.reverse := by
  refine List.isChain_reverse.mpr (h.imp ?_)
  rintro a b ⟨hnext, hprev⟩
  exact ⟨hprev, hnext⟩

variable [DecidableEq ν]

/-- A new node is put between two neighbours. -/
theorem Linked.insert
    (h : Linked next prev (as ++ p :: q :: bs))
    (hnodup : (as ++ p :: q :: bs).Nodup)
    (hn : n ∉ as ++ p :: q :: bs) :
    Linked (Function.update (Function.update next n (some q)) p (some n))
      (Function.update (Function.update prev n (some p)) q (some n))
      (as ++ p :: n :: q :: bs) := by
  obtain ⟨hleft, -, hright⟩ := List.isChain_append_cons_cons.mp h
  simp only [List.mem_append, List.mem_cons, not_or] at hn
  obtain ⟨hnas, hnp, hnq, hnbs⟩ := hn
  simp only [List.nodup_append, List.nodup_cons, List.mem_cons, not_or] at hnodup
  obtain ⟨-, ⟨⟨hpq, hpbs⟩, hqbs, -⟩, hdisjoint⟩ := hnodup
  refine List.isChain_append_cons_cons.mpr ⟨?_, ⟨by simp, ?_⟩, ?_⟩
  · refine Linked.congr hleft (fun a ha => ?_) fun b hb => ?_
    · rw [List.dropLast_concat] at ha
      have hap : a ≠ p := fun heq => hdisjoint a ha p (.inl rfl) heq
      have han : a ≠ n := fun heq => hnas (heq ▸ ha)
      rw [Function.update_of_ne hap, Function.update_of_ne han]
    · have hb' := List.mem_of_mem_tail hb
      rw [List.mem_append, List.mem_singleton] at hb'
      have hbq : b ≠ q := by
        rintro rfl
        rcases hb' with hb' | hb'
        · exact hdisjoint b hb' b (.inr (.inl rfl)) rfl
        · exact hpq hb'.symm
      have hbn : b ≠ n := by
        rintro rfl
        rcases hb' with hb' | hb'
        · exact hnas hb'
        · exact hnp hb'
      rw [Function.update_of_ne hbq, Function.update_of_ne hbn]
  · rw [Function.update_of_ne hnq, Function.update_self]
  · refine List.isChain_cons_cons.mpr ⟨⟨?_, by simp⟩, ?_⟩
    · rw [Function.update_of_ne hnp, Function.update_self]
    · refine Linked.congr hright (fun a ha => ?_) fun b hb => ?_
      · have ha' := List.dropLast_subset _ ha
        rw [List.mem_cons] at ha'
        have hap : a ≠ p := by
          rintro rfl
          rcases ha' with ha' | ha'
          · exact hpq ha'
          · exact hpbs ha'
        have han : a ≠ n := by
          rintro rfl
          rcases ha' with ha' | ha'
          · exact hnq ha'
          · exact hnbs ha'
        rw [Function.update_of_ne hap, Function.update_of_ne han]
      · have hbq : b ≠ q := fun heq => hqbs (heq ▸ hb)
        have hbn : b ≠ n := fun heq => hnbs (heq ▸ hb)
        rw [Function.update_of_ne hbq, Function.update_of_ne hbn]

/-- A node is taken out from between its neighbours. -/
theorem Linked.unlink
    (h : Linked next prev (as ++ p :: n :: q :: bs))
    (hnodup : (as ++ p :: n :: q :: bs).Nodup) :
    Linked (Function.update next p (some q)) (Function.update prev q (some p))
      (as ++ p :: q :: bs) := by
  obtain ⟨hleft, -, hrest⟩ := List.isChain_append_cons_cons.mp h
  obtain ⟨-, hright⟩ := List.isChain_cons_cons.mp hrest
  simp only [List.nodup_append, List.nodup_cons, List.mem_cons, not_or] at hnodup
  obtain ⟨-, ⟨⟨-, hpq, hpbs⟩, -, hqbs, -⟩, hdisjoint⟩ := hnodup
  refine List.isChain_append_cons_cons.mpr ⟨?_, ⟨by simp, by simp⟩, ?_⟩
  · refine Linked.congr hleft (fun a ha => ?_) fun b hb => ?_
    · rw [List.dropLast_concat] at ha
      exact Function.update_of_ne (fun heq => hdisjoint a ha p (.inl rfl) heq) _ _
    · have hb' := List.mem_of_mem_tail hb
      rw [List.mem_append, List.mem_singleton] at hb'
      refine Function.update_of_ne ?_ _ _
      rintro rfl
      rcases hb' with hb' | hb'
      · exact hdisjoint b hb' b (.inr (.inr (.inl rfl))) rfl
      · exact hpq hb'.symm
  · refine Linked.congr hright (fun a ha => ?_) fun b hb => ?_
    · have ha' := List.dropLast_subset _ ha
      rw [List.mem_cons] at ha'
      refine Function.update_of_ne ?_ _ _
      rintro rfl
      rcases ha' with ha' | ha'
      · exact hpq ha'
      · exact hpbs ha'
    · have hbq : b ≠ q := fun heq => hqbs (heq ▸ hb)
      exact Function.update_of_ne hbq _ _

end Linked

end DoublyLinked
end JkxyKernel
