import JkxyKernel.Files.Descriptors
import JkxyKernel.Lib.Outcome

/-!
# Tables that are read and written

What the calls do to a descriptor table, entry by entry.  A table that grows may find no memory,
and one with a descriptor of 2^29 or more is too large for the arithmetic of `array_set`; then an
entry may be lost.  Where `T` holds there is memory, and descriptors are small.
-/

namespace JkxyKernel
namespace Files

section Entries

variable {α : Type} {T : Prop} {arr arr' : Structure.Array α} {memory : Bool} {i : Nat}
  {v : Option α}

theorem lift_get (hmem : arr.mem ≠ .freed) : lift (arr.get i) = .ok (arr.lookup i) := by
  rw [Structure.Array.get, if_neg fun h => hmem h.2]
  rfl

/-- An entry has been stored, or is lost, and the others are as before. -/
structure Stored (T : Prop) (arr arr' : Structure.Array α) (i : Nat) (v : Option α) : Prop where
  unfreed : arr'.mem ≠ .freed
  others : ∀ j, j ≠ i → arr'.lookup j = arr.lookup j
  entry : arr'.lookup i = v ∨ (¬T ∧ arr'.lookup i = none)

theorem set_error {e : Fault} (h : arr.set i v = .error e) :
    e = .useAfterFree ∨ e = .outOfBounds ∧ v.isSome := by
  have hstore : ∀ arr₀ : Structure.Array α, arr₀.store i v = .error e → e = .useAfterFree := by
    intro arr₀ h₀
    unfold Structure.Array.store at h₀
    split at h₀
    next => cases h₀
    next =>
      split at h₀
      next =>
        cases h₀
        rfl
      next => cases h₀
  unfold Structure.Array.set at h
  split at h
  next hgrows =>
    split at h
    next grown _ => exact .inl (hstore grown h)
    next e' hgrow =>
      cases h
      unfold Structure.Array.grow at hgrow
      split at hgrow
      next =>
        cases hgrow
        exact .inl rfl
      next =>
        split at hgrow
        next =>
          cases hgrow
          exact .inr ⟨rfl, hgrows.1⟩
        next => cases hgrow
  next => exact .inl (hstore arr h)

/-- What was there before does not matter. -/
theorem Stored.over {arr₁ : Structure.Array α} {v₁ : Option α} (h₁ : Stored T arr arr₁ i v₁)
    (h : Stored T arr arr' i v) : Stored T arr₁ arr' i v :=
  ⟨h.unfreed, fun j hj => (h.others j hj).trans (h₁.others j hj).symm, h.entry⟩

/-- An entry is stored if there is a place for it. -/
theorem set_ends (hmem : arr.mem ≠ .freed) (hsmall : T → v.isSome → i < 2 ^ 29) :
    Ends T (fun arr' => Stored T arr arr' i v) (lift (arr.set i v)) := by
  cases hset : arr.set i v with
  | error e =>
      intro hT
      rcases set_error hset with rfl | ⟨rfl, hv⟩
      · exact Structure.Array.set_live hmem hset
      · obtain ⟨a, rfl⟩ := Option.isSome_iff_exists.mp hv
        exact Structure.Array.set_inBounds (hsmall hT rfl) hset
  | ok arr' =>
      obtain ⟨hfreed, hothers⟩ := Structure.Array.set_spec hset
      refine ⟨fun hfree => hmem (hfreed.mp hfree), hothers, ?_⟩
      cases v with
      | none => exact .inl (by rw [Structure.Array.set_lookup hset, ite_self])
      | some v =>
          by_cases hT : T
          · exact .inl (Structure.Array.set_lookup_self (hsmall hT rfl) hset)
          · rw [Structure.Array.set_lookup hset]
            split
            · exact .inl rfl
            · exact .inr ⟨hT, rfl⟩

/-- Taking an entry out always works. -/
theorem set_none_ok (hmem : arr.mem ≠ .freed) (i : Nat) :
    ∃ arr', lift (arr.set i none) = .ok arr' ∧ Stored T arr arr' i none := by
  have hsmall : True → (none : Option α).isSome → i < 2 ^ 29 := by simp
  obtain ⟨arr', hset, -⟩ := (set_ends hmem hsmall).exists_ok trivial
  have hstored : Ends T (fun arr' => Stored T arr arr' i none) (lift (arr.set i none)) :=
    set_ends hmem (by simp)
  exact ⟨arr', hset, hstored.of_ok hset⟩

theorem arraySet_ends (hmem : arr.mem ≠ .freed)
    (hsmall : T → memory = true ∧ (v.isSome → i < 2 ^ 29)) :
    Ends T (fun r => Stored T arr r.2 i v ∧ (T → r.1 = true)) (arraySet arr memory i v) := by
  unfold arraySet
  split
  next hlost =>
    have hT : ¬T := fun hT => by simp [(hsmall hT).1] at hlost
    exact ⟨⟨hmem, fun _ _ => rfl, .inr ⟨hT, if_pos hlost.2.1⟩⟩, fun h => absurd h hT⟩
  next =>
    have hset := set_ends hmem fun hT hv => (hsmall hT).2 hv
    cases hcase : lift (arr.set i v) with
    | error e =>
        rw [hcase] at hset
        exact hset
    | ok arr' => exact ⟨hset.of_ok hcase, fun _ => rfl⟩

end Entries

/-! ### Free descriptors -/

section Places

variable {T : Prop} {files : Structure.Array FilePtr} {fails : List Nat} {ptr : FilePtr}
  {rounds fd : Nat}

theorem lookup_of_size_le (h : files.size ≤ fd) : files.lookup fd = none := if_pos h

/-- The loop ends at a descriptor that was free, by induction on the rounds; behind the end of the
table there is one. -/
theorem place_ends (hmem : files.mem ≠ .freed)
    (hsmall : T → fails = [] ∧ files.size < 2 ^ 29 ∧ fd < 2 ^ 29)
    (hrounds : T → 0 < rounds ∧ files.size < fd + rounds) :
    Ends T (fun r => files.lookup r.1 = none ∧ Stored T files r.2 r.1 (some ptr) ∧
      (T → r.1 < 2 ^ 29)) (place files fails ptr rounds fd) := by
  induction rounds generalizing fd with
  | zero => exact fun hT => absurd (hrounds hT).1 (Nat.lt_irrefl 0)
  | succ rounds ih =>
      rw [place]
      refine .known (lift_get hmem) ?_
      cases hlook : files.lookup fd with
      | some old =>
          have hlt : fd < files.size := by
            by_contra hle
            rw [lookup_of_size_le (Nat.le_of_not_lt hle)] at hlook
            cases hlook
          refine ih (fun hT => ⟨(hsmall hT).1, (hsmall hT).2.1, ?_⟩) fun hT => ?_
          · exact Nat.lt_of_le_of_lt hlt (hsmall hT).2.1
          · have hless := (hrounds hT).2
            omega
      | none =>
          have hmemory : T → decide (fd ∉ fails) = true ∧ ((some ptr).isSome → fd < 2 ^ 29) :=
            fun hT => ⟨by rw [(hsmall hT).1]; rfl, fun _ => (hsmall hT).2.2⟩
          refine (arraySet_ends hmem hmemory).bind ?_
          rintro ⟨stored, files'⟩ ⟨hstored, htrue⟩
          cases stored with
          | true => exact ⟨hlook, hstored, fun hT => (hsmall hT).2.2⟩
          | false =>
              have hT : ¬T := fun hT => Bool.false_ne_true (htrue hT)
              exact ih (fun h => absurd h hT) fun h => absurd h hT

theorem placeFrom_ends (hmem : files.mem ≠ .freed)
    (hsmall : T → fails = [] ∧ files.size < 2 ^ 29 ∧ fd < 2 ^ 29) :
    Ends T (fun r => files.lookup r.1 = none ∧ Stored T files r.2 r.1 (some ptr) ∧
      (T → r.1 < 2 ^ 29)) (placeFrom files fails fd ptr) := by
  refine place_ends hmem hsmall fun hT => ⟨Nat.succ_pos _, ?_⟩
  omega

end Places
end Files
end JkxyKernel
