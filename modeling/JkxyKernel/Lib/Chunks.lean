import Mathlib.Data.Nat.Cast.Defs

/-!
# Reading in chunks

A source has an element at some of its positions, and is read in chunks: as many elements
as come at once, but at least one, up to the number that is asked for.  A chunk fails only
at a position without an element.

The loop that reads chunk after chunk ends, for every chunk counts.  It returns everything
that is asked for, or stops at the first position that has no element, wherever the chunks
were cut.

Positions are of an arbitrary type that counts up from each of its elements.
-/

namespace JkxyKernel

universe u v w

/-- The chunks are pieces of the source; a chunk that fails does so for a reason. -/
structure Chunked {κ : Type u} {β : Type v} {ε : Type w} [AddMonoidWithOne κ]
    (source : κ → Option β) (reason : ε → Prop) (chunk : κ → Nat → Except ε (List β)) :
    Prop where
  failed : ∀ p n e, n ≠ 0 → chunk p n = .error e → source p = none ∧ reason e
  read : ∀ p n l, n ≠ 0 → chunk p n = .ok l → l ≠ [] ∧ l.length ≤ n ∧
    ∀ i : Nat, i < l.length → source (p + i) = l[i]?

namespace Chunked

variable {κ : Type u} {β : Type v} {ε : Type w} [AddMonoidWithOne κ]

/-- Chunk after chunk, for a number of rounds, with what was read before. -/
def readLoop (chunk : κ → Nat → Except ε (List β)) :
    Nat → κ → Nat → List β → Option (Except ε (List β) × κ)
  | 0, _, _, _ => none
  | rounds + 1, p, n, buf =>
      if n = 0 then some (.ok buf, p)
      else
        match chunk p n with
        | .error e => some (.error e, p)
        | .ok l => readLoop chunk rounds (p + l.length) (n - l.length) (buf ++ l)

/-- What is read, and the position that is left. -/
inductive Outcome (source : κ → Option β) (reason : ε → Prop) (p : κ) (n : Nat)
    (buf : List β) : Except ε (List β) × κ → Prop
  | all {l : List β} :
      l.length = n → (∀ i : Nat, i < l.length → source (p + i) = l[i]?) →
        Outcome source reason p n buf (.ok (buf ++ l), p + n)
  | stopped {k : Nat} {e : ε} :
      k < n → (∀ i : Nat, i < k → (source (p + i)).isSome) → source (p + k) = none →
        reason e → Outcome source reason p n buf (.error e, p + k)

variable {source : κ → Option β} {reason : ε → Prop} {chunk : κ → Nat → Except ε (List β)}

theorem add_cast_add (p : κ) (i j : Nat) : p + (i : κ) + (j : κ) = p + ((i + j : Nat) : κ) := by
  rw [add_assoc, Nat.cast_add]

/-- A chunk, and what comes of the rest. -/
theorem Outcome.append
    {p : κ} {n : Nat} {buf l : List β} {result : Except ε (List β) × κ}
    (hle : l.length ≤ n) (hl : ∀ i : Nat, i < l.length → source (p + i) = l[i]?)
    (h : Outcome source reason (p + l.length) (n - l.length) (buf ++ l) result) :
    Outcome source reason p n buf result := by
  cases h with
  | @all rest hlength hrest =>
      have hn : l.length + (n - l.length) = n := Nat.add_sub_cancel' hle
      rw [add_cast_add, hn, List.append_assoc]
      refine .all (by rw [List.length_append, hlength, hn]) fun i hi => ?_
      rcases Nat.lt_or_ge i l.length with hlt | hge
      · rw [hl i hlt, List.getElem?_append_left hlt]
      · have heq : l.length + (i - l.length) = i := Nat.add_sub_cancel' hge
        have hi' : i - l.length < rest.length := by
          rw [List.length_append] at hi
          omega
        rw [List.getElem?_append_right hge, ← hrest _ hi', add_cast_add, heq]
  | @stopped k e hk hsome hnone hreason =>
      rw [add_cast_add]
      refine .stopped (by omega) (fun i hi => ?_) ?_ hreason
      · rcases Nat.lt_or_ge i l.length with hlt | hge
        · rw [hl i hlt, List.getElem?_eq_getElem hlt]
          rfl
        · have heq : l.length + (i - l.length) = i := Nat.add_sub_cancel' hge
          rw [← heq, ← add_cast_add]
          exact hsome _ (by omega)
      · rw [← add_cast_add]
        exact hnone

/-- The loop comes to an end: every chunk but a failing one has an element. -/
theorem readLoop_outcome
    (h : Chunked source reason chunk) (rounds : Nat) {p : κ} {n : Nat} {buf : List β}
    (hrounds : n < rounds) :
    ∃ result, readLoop chunk rounds p n buf = some result ∧
      Outcome source reason p n buf result := by
  induction rounds generalizing p n buf with
  | zero => exact absurd hrounds (Nat.not_lt_zero _)
  | succ rounds ih =>
      simp only [readLoop]
      split
      next hzero =>
        subst hzero
        refine ⟨_, rfl, ?_⟩
        have hall : Outcome source reason p 0 buf (.ok (buf ++ []), p + ((0 : Nat) : κ)) :=
          .all rfl fun i hi => absurd hi (Nat.not_lt_zero i)
        simpa using hall
      next hpos =>
        cases hchunk : chunk p n with
        | error e =>
            obtain ⟨hnone, hreason⟩ := h.failed p n e hpos hchunk
            refine ⟨_, rfl, ?_⟩
            have hstop : Outcome source reason p n buf (.error e, p + ((0 : Nat) : κ)) :=
              .stopped (Nat.pos_of_ne_zero hpos) (fun i hi => absurd hi (Nat.not_lt_zero i))
                (by simpa using hnone) hreason
            simpa using hstop
        | ok l =>
            obtain ⟨hne, hle, hl⟩ := h.read p n l hpos hchunk
            have hlength : 0 < l.length := List.length_pos_iff.mpr hne
            obtain ⟨result, hresult, houtcome⟩ :=
              @ih (p + l.length) (n - l.length) (buf ++ l) (by omega)
            exact ⟨result, hresult, houtcome.append hle hl⟩

/-- The elements that are read, when there is one at each position. -/
theorem Outcome.eq_all
    {p : κ} {n : Nat} {buf l : List β} {result : Except ε (List β) × κ}
    (h : Outcome source reason p n buf result) (hlength : l.length = n)
    (hl : ∀ i : Nat, i < l.length → source (p + i) = l[i]?) :
    result = (.ok (buf ++ l), p + n) := by
  cases h with
  | @all l' hlength' hl' =>
      have heq : l' = l := by
        refine List.ext_getElem? fun i => ?_
        rcases Nat.lt_or_ge i n with hlt | hge
        · rw [← hl' i (hlength' ▸ hlt), ← hl i (hlength ▸ hlt)]
        · rw [List.getElem?_eq_none (hlength' ▸ hge), List.getElem?_eq_none (hlength ▸ hge)]
      rw [heq]
  | @stopped k e hk _ hnone _ =>
      have hsome := hl k (hlength ▸ hk)
      rw [hnone, List.getElem?_eq_getElem (hlength ▸ hk)] at hsome
      cases hsome

end Chunked
end JkxyKernel
