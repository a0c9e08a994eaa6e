import Mathlib.Data.Set.Card
import Mathlib.Logic.Function.Basic

/-!
# Reference counts

A reference map says which object each slot points at.  An object's counter is
right when it equals the number of slots that point at it.  This module states
that equality (`Counted`) and what the elementary operations on references do to
it: taking a reference, dropping one, moving one from slot to slot, and giving a
list of slots other objects.

Slots and objects are arbitrary types; only finitely many slots may point at any
one object.
-/

namespace JkxyKernel
namespace RefCount

universe u v

variable {κ : Type u} {ω : Type v}

/-- The slots that refer to `o`. -/
def holders (m : κ → Option ω) (o : ω) : Set κ :=
  {k | m k = some o}

@[simp] theorem mem_holders {m : κ → Option ω} {o : ω} {k : κ} :
    k ∈ holders m o ↔ m k = some o :=
  Iff.rfl

/-- Every counter equals the number of references to its object. -/
structure Counted (m : κ → Option ω) (rc : ω → Int) : Prop where
  /-- Only finitely many slots refer to one object. -/
  finite : ∀ o, (holders m o).Finite
  /-- The counter is their number. -/
  count : ∀ o, rc o = ((holders m o).ncard : Int)

variable {m : κ → Option ω} {rc : ω → Int} {k k' : κ} {o o' : ω}

namespace Counted

theorem congr {rc' : ω → Int} (h : Counted m rc) (hrc : ∀ o, rc' o = rc o) : Counted m rc' :=
  ⟨h.finite, fun o => (hrc o).trans (h.count o)⟩

/-- Nothing refers to anything. -/
theorem nothing (h : ∀ k, m k = none) : Counted m fun _ => 0 := by
  have hempty : ∀ o, holders m o = ∅ := fun o =>
    Set.eq_empty_iff_forall_notMem.mpr fun k hk => by simp [h k] at hk
  refine ⟨fun o => ?_, fun o => ?_⟩
  · rw [hempty o]
    exact Set.finite_empty
  · rw [hempty o, Set.ncard_empty]
    rfl

theorem nonneg (h : Counted m rc) (o : ω) : 0 ≤ rc o := by
  rw [h.count o]
  exact Int.natCast_nonneg _

/-- A referenced object has a positive counter. -/
theorem pos (h : Counted m rc) (hk : m k = some o) : 0 < rc o := by
  rw [h.count o]
  have hne : (holders m o).Nonempty := ⟨k, hk⟩
  exact_mod_cast (Set.ncard_pos (h.finite o)).mpr hne

/-- A zero counter means that nothing refers to the object, and conversely. -/
theorem eq_zero_iff (h : Counted m rc) : rc o = 0 ↔ ∀ k, m k ≠ some o := by
  rw [h.count o, Int.natCast_eq_zero, Set.ncard_eq_zero (h.finite o)]
  exact Set.eq_empty_iff_forall_notMem

/-- Positive counters are exactly those of referenced objects. -/
theorem pos_iff (h : Counted m rc) : 0 < rc o ↔ ∃ k, m k = some o := by
  constructor
  · intro hpos
    by_contra hnone
    have hzero : rc o = 0 := h.eq_zero_iff.mpr fun k hk => hnone ⟨k, hk⟩
    omega
  · rintro ⟨k, hk⟩
    exact h.pos hk

/-- An object counted once has one holder. -/
theorem unique
    (h : Counted m rc) (hone : rc o = 1) (hk : m k = some o) (hk' : m k' = some o) :
    k = k' := by
  have hcard : (holders m o).ncard = 1 := by
    have := h.count o
    omega
  obtain ⟨a, ha⟩ := Set.ncard_eq_one.mp hcard
  have h1 : k ∈ holders m o := hk
  have h2 : k' ∈ holders m o := hk'
  rw [ha] at h1 h2
  exact h1.trans h2.symm

/-- Two different holders make the counter at least two. -/
theorem two_le
    (h : Counted m rc) (hne : k ≠ k') (hk : m k = some o) (hk' : m k' = some o) :
    2 ≤ rc o := by
  by_contra hlt
  have hpos := h.pos hk
  exact hne (h.unique (by omega) hk hk')

end Counted

/-- How often a list of slots refers to an object. -/
theorem count_filterMap_cons [DecidableEq ω] {ks : List κ} :
    ((k :: ks).filterMap m).count o =
      (ks.filterMap m).count o + if m k = some o then 1 else 0 := by
  rw [List.filterMap_cons]
  cases hk : m k with
  | none => simp
  | some o' => simp [List.count_cons]

variable [DecidableEq κ]

theorem holders_update_self (hk : m k ≠ some o) :
    holders (Function.update m k (some o)) o = insert k (holders m o) := by
  ext j
  by_cases hj : j = k
  · subst hj; simp
  · simp [hj]

theorem holders_update_of_eq {v : Option ω} (hk : m k = some o) (hv : v ≠ some o) :
    holders (Function.update m k v) o = holders m o \ {k} := by
  ext j
  by_cases hj : j = k
  · subst hj; simp [hv]
  · simp [hj]

theorem holders_update_of_ne {v : Option ω} (hk : m k ≠ some o) (hv : v ≠ some o) :
    holders (Function.update m k v) o = holders m o := by
  ext j
  by_cases hj : j = k
  · subst hj; simp [hk, hv]
  · simp [hj]

variable [DecidableEq ω]

namespace Counted

/-- Taking a reference into an empty slot. -/
theorem attach (h : Counted m rc) (hk : m k = none) :
    Counted (Function.update m k (some o)) (Function.update rc o (rc o + 1)) := by
  refine ⟨fun x => ?_, fun x => ?_⟩
  · by_cases hx : x = o
    · subst hx
      rw [holders_update_self (by simp [hk])]
      exact (h.finite x).insert k
    · rw [holders_update_of_ne (by simp [hk]) (by simpa using Ne.symm hx)]
      exact h.finite x
  · by_cases hx : x = o
    · subst hx
      have hnot : k ∉ holders m x := by simp [hk]
      rw [holders_update_self (by simp [hk]), Set.ncard_insert_of_notMem hnot (h.finite x)]
      simp [h.count x]
    · rw [holders_update_of_ne (by simp [hk]) (by simpa using Ne.symm hx)]
      simp [hx, h.count x]

/-- Dropping a reference. -/
theorem detach (h : Counted m rc) (hk : m k = some o) :
    Counted (Function.update m k none) (Function.update rc o (rc o - 1)) := by
  refine ⟨fun x => ?_, fun x => ?_⟩
  · by_cases hx : x = o
    · subst hx
      rw [holders_update_of_eq hk (by simp)]
      exact (h.finite x).subset Set.sdiff_subset
    · rw [holders_update_of_ne (by simpa [hk] using Ne.symm hx) (by simp)]
      exact h.finite x
  · by_cases hx : x = o
    · subst hx
      have hmem : k ∈ holders m x := hk
      have hpos := h.pos hk
      rw [holders_update_of_eq hk (by simp), Set.ncard_sdiff_singleton_of_mem hmem]
      have hcount := h.count x
      simp only [Function.update_self]
      omega
    · rw [holders_update_of_ne (by simpa [hk] using Ne.symm hx) (by simp)]
      simp [hx, h.count x]

/-- Handing a reference over to an empty slot leaves every counter alone. -/
theorem move (h : Counted m rc) (hne : k ≠ k') (hk : m k = some o) (hk' : m k' = none) :
    Counted (Function.update (Function.update m k none) k' (some o)) rc := by
  have h1 := h.detach hk
  have hk1 : Function.update m k none k' = none := by simp [hne.symm, hk']
  have h2 := h1.attach (o := o) hk1
  have hrc : Function.update (Function.update rc o (rc o - 1)) o
      (Function.update rc o (rc o - 1) o + 1) = rc := by
    funext x
    by_cases hx : x = o
    · subst hx; simp
    · simp [hx]
  rwa [hrc] at h2

/-- A slot that refers to something else, or to nothing. -/
theorem replace (h : Counted m rc) (k : κ) (v : Option ω) :
    Counted (Function.update m k v) fun o =>
      rc o - (if m k = some o then 1 else 0) + if v = some o then 1 else 0 := by
  have hnone : Counted (Function.update m k none) fun o =>
      rc o - if m k = some o then 1 else 0 := by
    cases hk : m k with
    | none =>
        rw [← hk, Function.update_eq_self]
        simpa [hk] using h
    | some o =>
        have hdetach := h.detach hk
        refine hdetach.congr fun o' => ?_
        by_cases ho : o' = o
        · subst ho
          simp
        · simp [ho, Ne.symm ho]
  cases v with
  | none => simpa using hnone
  | some o =>
      have hattach := hnone.attach (o := o) (Function.update_self k none m)
      rw [Function.update_idem] at hattach
      refine hattach.congr fun o' => ?_
      by_cases ho : o' = o
      · subst ho
        simp
      · simp [ho, Ne.symm ho]

/-- Slots of a list that refer to something else, by induction on the list. -/
theorem exchange
    {m' : κ → Option ω} {ks : List κ} (hnodup : ks.Nodup) (hsame : ∀ k, k ∉ ks → m' k = m k)
    (h : Counted m rc) :
    Counted m' fun o =>
      rc o - ((ks.filterMap m).count o : Int) + ((ks.filterMap m').count o : Int) := by
  induction ks generalizing m rc with
  | nil =>
      have heq : m' = m := funext fun k => hsame k List.not_mem_nil
      subst heq
      simpa using h
  | cons k ks ih =>
      obtain ⟨hk, hnodup⟩ := List.nodup_cons.mp hnodup
      have hrest := ih hnodup (fun j hj => ?_) (h.replace k (m' k))
      · have hold : ks.filterMap (Function.update m k (m' k)) = ks.filterMap m := by
          refine List.filterMap_congr fun j hj => Function.update_of_ne ?_ _ _
          rintro rfl
          exact hk hj
        refine hrest.congr fun o => ?_
        rw [hold, count_filterMap_cons, count_filterMap_cons]
        split <;> split <;> push_cast <;> omega
      · by_cases hjk : j = k
        · subst hjk
          rw [Function.update_self]
        · rw [Function.update_of_ne hjk]
          exact hsame j fun hmem => (List.mem_cons.mp hmem).elim hjk hj

end Counted

end RefCount
end JkxyKernel
