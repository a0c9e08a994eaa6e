import Mathlib.Data.Finset.Card
import Mathlib.Data.Set.Finite.Basic

/-!
# Chains of a partial function

A partial function is applied again and again, for as long as it has a value.  When it has
finitely many values, the chain comes to an end if and only if nothing comes up twice in
it: a value that comes up again comes up for ever.
-/

namespace JkxyKernel

universe u

variable {α : Type u}

/-- What comes after so many applications, if the chain does not end before. -/
def chain (f : α → Option α) (a : α) : Nat → Option α
  | 0 => some a
  | n + 1 => (chain f a n).bind f

/-- The chain comes to an end. -/
def ChainEnds (f : α → Option α) (a : α) : Prop :=
  ∃ n, chain f a n = none

/-- Nothing comes up twice in the chain. -/
def ChainNodup (f : α → Option α) (a : α) : Prop :=
  ∀ i j b, chain f a i = some b → chain f a j = some b → i = j

namespace Chain

variable {f : α → Option α} {a b : α} {m n : Nat}

/-- A chain goes on as the chain of what it has come to. -/
theorem chain_add (h : chain f a m = some b) (n : Nat) :
    chain f a (m + n) = chain f b n := by
  induction n with
  | zero => exact h
  | succ n ih =>
      change (chain f a (m + n)).bind f = (chain f b n).bind f
      rw [ih]

/-- The first application, and the rest. -/
theorem chain_succ (n : Nat) :
    chain f a (n + 1) = (f a).bind fun b => chain f b n := by
  cases hfa : f a with
  | none =>
      induction n with
      | zero => exact hfa
      | succ n ih =>
          change (chain f a (n + 1)).bind f = none
          rw [ih]
          rfl
  | some b =>
      have hone : chain f a 1 = some b := hfa
      rw [Nat.add_comm, chain_add hone]
      rfl

/-- A chain that has ended does not go on. -/
theorem chain_none_of_le (h : chain f a m = none) (hmn : m ≤ n) : chain f a n = none := by
  induction hmn with
  | refl => exact h
  | step _ ih =>
      simp only [chain, ih]
      rfl

/-- What is kept by the function holds in the whole chain. -/
theorem invariant
    {P : α → Prop} (ha : P a) (hstep : ∀ a b, P a → f a = some b → P b)
    (h : chain f a n = some b) : P b := by
  induction n generalizing b with
  | zero =>
      cases h
      exact ha
  | succ n ih =>
      obtain ⟨c, hc, hb⟩ := Option.bind_eq_some_iff.mp h
      exact hstep c b (ih hc) hb

/-- What comes up again comes up any number of times. -/
theorem repeats
    {i p : Nat} (hi : chain f a i = some b) (hp : chain f a (i + p) = some b) (t : Nat) :
    chain f a (i + t * p) = some b := by
  induction t with
  | zero => simpa using hi
  | succ t ih =>
      have hcycle : chain f b p = some b := by
        rw [← chain_add hi]
        exact hp
      rw [Nat.succ_mul, ← Nat.add_assoc, chain_add ih]
      exact hcycle

/-- A chain with a repetition has no end. -/
theorem nodup_of_ends (h : ChainEnds f a) : ChainNodup f a := by
  obtain ⟨n, hn⟩ := h
  have hlt : ∀ i j b, chain f a i = some b → chain f a j = some b → ¬ i < j := by
    intro i j b hi hj hij
    obtain ⟨p, rfl⟩ := Nat.exists_eq_add_of_lt hij
    have hagain := repeats hi (p := p + 1) hj n
    have hle : n ≤ i + n * (p + 1) :=
      Nat.le_add_left_of_le (Nat.le_mul_of_pos_right n (Nat.succ_pos p))
    rw [chain_none_of_le hn hle] at hagain
    cases hagain
  intro i j b hi hj
  exact Nat.le_antisymm (Nat.not_lt.mp (hlt j i b hj hi)) (Nat.not_lt.mp (hlt i j b hi hj))

/-- Without a repetition there is an end, for there are finitely many values. -/
theorem ends_of_nodup
    {values : Set α} (hfinite : values.Finite)
    (hvalues : ∀ n b, chain f a (n + 1) = some b → b ∈ values) (h : ChainNodup f a) :
    ChainEnds f a := by
  by_contra hends
  have hsome : ∀ n, ∃ b, chain f a n = some b := fun n =>
    Option.ne_none_iff_exists'.mp fun hn => hends ⟨n, hn⟩
  choose next hnext using hsome
  have hinjective : Function.Injective fun n => next (n + 1) := by
    intro i j hij
    have hj : chain f a (j + 1) = some (next (i + 1)) := by
      rw [hnext (j + 1)]
      exact congrArg some hij.symm
    exact Nat.succ_injective (h _ _ _ (hnext (i + 1)) hj)
  exact Set.infinite_of_injective_forall_mem hinjective
    (fun n => hvalues n _ (hnext (n + 1))) hfinite

/-- The chain ends if and only if nothing comes up twice in it. -/
theorem ends_iff_nodup
    {values : Set α} (hfinite : values.Finite)
    (hvalues : ∀ n b, chain f a (n + 1) = some b → b ∈ values) :
    ChainEnds f a ↔ ChainNodup f a :=
  ⟨nodup_of_ends, ends_of_nodup hfinite hvalues⟩

/-- What a chain has gone on from, if it has not ended. -/
theorem goes_on (h : chain f a n ≠ none) (hmn : m < n) :
    ∃ b, chain f a m = some b ∧ (f b).isSome := by
  have hnext : chain f a (m + 1) ≠ none := fun hnone => h (chain_none_of_le hnone hmn)
  obtain ⟨c, hc⟩ := Option.ne_none_iff_exists'.mp hnext
  obtain ⟨b, hb, hbc⟩ := Option.bind_eq_some_iff.mp hc
  exact ⟨b, hb, by rw [hbc]; rfl⟩

/-- A chain that goes on from a different number below a bound each time is no longer than
the bound. -/
theorem none_of_bound
    {g : α → Nat} {bound : Nat}
    (hbound : ∀ i b, chain f a i = some b → (f b).isSome → g b < bound)
    (hdiffer : ∀ i j b c, chain f a i = some b → chain f a j = some c →
      (f b).isSome → (f c).isSome → g b = g c → i = j) :
    chain f a (bound + 1) = none := by
  by_contra hsome
  have hvalue : ∀ i, i < bound + 1 → ∃ b, chain f a i = some b ∧ (f b).isSome :=
    fun i hi => goes_on hsome hi
  have hcard : (Finset.range bound).card < (Finset.range (bound + 1)).card := by
    simp only [Finset.card_range]
    exact Nat.lt_succ_self bound
  have hmaps : ∀ i ∈ Finset.range (bound + 1),
      g ((chain f a i).getD a) ∈ Finset.range bound := by
    intro i hi
    obtain ⟨b, hb, hgo⟩ := hvalue i (Finset.mem_range.mp hi)
    rw [hb]
    exact Finset.mem_range.mpr (hbound i b hb hgo)
  obtain ⟨i, hi, j, hj, hne, hsame⟩ :=
    Finset.exists_ne_map_eq_of_card_lt_of_maps_to hcard hmaps
  obtain ⟨b, hb, hgo⟩ := hvalue i (Finset.mem_range.mp hi)
  obtain ⟨c, hc, hgo'⟩ := hvalue j (Finset.mem_range.mp hj)
  rw [hb, hc] at hsame
  exact hne (hdiffer i j b c hb hc hgo hgo' hsame)

end Chain
end JkxyKernel
