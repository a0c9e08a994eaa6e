import JkxyKernel.Lib.Machine
import JkxyKernel.Structure.Array

/-!
# Growable arrays as finite maps

What `array_get` finds against the last `array_set` that returned zero, for any sequence of
sets with 32-bit indexes.  Each set comes with the answer of `kmalloc`, for the case that
the array has to grow.

The new size is the next power of two, in 32 bits, and `kcalloc` multiplies it by four, in
32 bits again.  From index 2²⁹ on the product is zero, and the block that is allocated has
no room for a single element; from 2³¹ on the shift wraps around first, the new size is
one, and the element is not stored at all.  When `kmalloc` finds no memory, `kcalloc` clears
the block at address zero, so that `-ENOMEM` is only ever returned where nothing is
cleared, for the product zero.
-/

namespace JkxyKernel
namespace Structure
namespace Array

variable {α : Type}

/-- How `array_set` returns. -/
inductive Code
  | zero
  /-- `-ENOMEM` -/
  | noMem
  deriving DecidableEq, Repr

/-- `array_set`; `found` is whether `kmalloc` finds the memory it is asked for. -/
def setMem (arr : Array α) (index : Nat) (value : Option α) (found : Bool) :
    Except Fault (Code × Array α) :=
  if value.isSome ∧ arr.size ≤ index ∧ found = false then
    -- `liballoc_memset` of what `kmalloc` returned
    if capacity (newsize index) = 0 then .ok (.noMem, arr) else .error .nullPointer
  else (arr.set index value).map fun arr' => (.zero, arr')

/-- The array, the sets that returned zero, the latest last, and the latest result. -/
structure MapState (α : Type) where
  arr : Array α
  sets : List (Nat × Option α)
  code : Code

/-- A call of `array_set`. -/
structure SetCall (α : Type) where
  index : Nat
  value : Option α
  found : Bool

/-- The value of the last of some sets at an index, `NULL` if there is none. -/
def lastSet (sets : List (Nat × Option α)) (index : Nat) : Option α :=
  sets.foldl (fun value set => if set.1 = index then set.2 else value) none

/-- Every index reads as it was last set. -/
def IsMap (s : MapState α) : Prop :=
  ∀ index, s.arr.get index = .ok (lastSet s.sets index)

/-- Where the array has to grow, the size in bytes fits a word and there is memory for it,
or the size comes out as zero and there is no memory. -/
def Fits (s : MapState α) (call : SetCall α) : Prop :=
  call.value.isSome → s.arr.size ≤ call.index →
    call.index < 2 ^ 29 ∧ call.found = true ∨
      2 ^ 29 ≤ call.index ∧ call.index < 2 ^ 31 ∧ call.found = false

instance (s : MapState α) (call : SetCall α) : Decidable (Fits s call) :=
  inferInstanceAs (Decidable (_ → _ → _))

section Sizes

variable {arr arr' : Array α} {index : Nat} {value : Option α} {found : Bool}

/-- The size in bytes comes out as zero between two powers of two. -/
theorem capacity_newsize_zero (hindex : index < 2 ^ 32) :
    capacity (newsize index) = 0 ↔ 2 ^ 29 ≤ index ∧ index < 2 ^ 31 := by
  rcases Nat.lt_or_ge index (2 ^ 29) with hsmall | hbig
  · obtain ⟨hlt, hle⟩ := newsize_bounds hsmall
    have hcap : capacity (newsize index) = newsize index := by
      simp only [capacity]
      omega
    rw [hcap]
    omega
  · have hpos : index ≠ 0 := by omega
    have hlow : 29 ≤ index.log2 := (Nat.le_log2 hpos).mpr hbig
    have hhigh : index.log2 < 32 := (Nat.log2_lt hpos).mpr hindex
    have hlast : index.log2 < 31 ↔ index < 2 ^ 31 := Nat.log2_lt hpos
    have hsize : newsize index = 2 ^ ((index.log2 + 1) % 32) := by
      simp only [newsize, bsrSucc, if_neg hpos]
    have hcases : index.log2 = 29 ∨ index.log2 = 30 ∨ index.log2 = 31 := by omega
    rcases hcases with h | h | h
    · rw [hsize, h]
      exact iff_of_true rfl ⟨hbig, hlast.mp (by omega)⟩
    · rw [hsize, h]
      exact iff_of_true rfl ⟨hbig, hlast.mp (by omega)⟩
    · rw [hsize, h]
      refine iff_of_false (by decide) ?_
      rintro ⟨-, hlt⟩
      have := hlast.mpr hlt
      omega

theorem setMem_eq (h : value.isSome → arr.size ≤ index → found = true) :
    arr.setMem index value found = (arr.set index value).map fun arr' => (.zero, arr') := by
  simp only [setMem]
  rw [if_neg]
  rintro ⟨hsome, hle, hnot⟩
  rw [h hsome hle] at hnot
  cases hnot

theorem lastSet_snoc (sets : List (Nat × Option α)) (i : Nat) :
    lastSet (sets ++ [(index, value)]) i = if index = i then value else lastSet sets i := by
  simp [lastSet]

end Sizes

section Sets

variable {s s' : MapState α} {call : SetCall α}

theorem get_live {arr : Array α} {index : Nat} (hmem : arr.mem ≠ .freed) :
    arr.get index = .ok (arr.lookup index) := by
  simp [get, hmem]

/-- A set on a live array goes wrong in one way only. -/
theorem set_ok_or {arr : Array α} (index : Nat) (value : Option α) (hmem : arr.mem ≠ .freed) :
    (∃ arr', arr.set index value = .ok arr') ∨
      value.isSome ∧ arr.size ≤ index ∧ arr.set index value = .error .outOfBounds := by
  have hstore : ∀ arr₀ : Array α, arr₀.mem ≠ .freed →
      ∃ arr', arr₀.store index value = .ok arr' := by
    intro arr₀ h₀
    simp only [store]
    split
    next => exact ⟨arr₀, rfl⟩
    next => exact ⟨_, rfl⟩
  simp only [set]
  split
  next hgrows =>
    cases hgrow : arr.grow index with
    | ok grown =>
        obtain ⟨-, hlive, -, -⟩ := grow_spec hgrow
        exact .inl (hstore grown (by simp [hlive]))
    | error e =>
        simp only [grow, if_neg hmem] at hgrow
        split at hgrow
        next =>
          cases hgrow
          exact .inr ⟨hgrows.1, hgrows.2, rfl⟩
        next => cases hgrow
  next => exact .inl (hstore arr hmem)

/-- Below the limit of the index arithmetic a set that returns has stored the value. -/
theorem set_of_setMem
    {arr arr' : Array α} {index : Nat} {v : α} {found : Bool} {code : Code}
    (hindex : index < 2 ^ 29) (h : arr.setMem index (some v) found = .ok (code, arr')) :
    arr.set index (some v) = .ok arr' := by
  simp only [setMem] at h
  split at h
  next =>
    have hcap : capacity (newsize index) ≠ 0 := fun hzero => by
      have := (capacity_newsize_zero (by omega)).mp hzero
      omega
    rw [if_neg hcap] at h
    cases h
  next =>
    cases hset : arr.set index (some v) with
    | error e => simp [hset, Except.map] at h
    | ok arr₁ =>
        simp only [hset, Except.map, Except.ok.injEq, Prod.mk.injEq] at h
        rw [h.2]

/-- Where there is memory it returns. -/
theorem setMem_found
    {arr : Array α} {index : Nat} {v : α} (hmem : arr.mem ≠ .freed) (hindex : index < 2 ^ 29) :
    ∃ arr', arr.setMem index (some v) true = .ok (.zero, arr') := by
  rw [setMem_eq fun _ _ => rfl]
  rcases set_ok_or index (some v) hmem with ⟨arr', hset⟩ | ⟨-, -, hbad⟩
  · exact ⟨arr', by rw [hset]; rfl⟩
  · exact absurd hbad (set_inBounds hindex)

/-- A set that returns zero makes the array a map again where the value was stored. -/
theorem IsMap.set
    {arr : Array α} (h : IsMap s) (hmem : s.arr.mem ≠ .freed)
    (hset : s.arr.set call.index call.value = .ok arr)
    (hstored : arr.lookup call.index = call.value) :
    IsMap { arr := arr, sets := s.sets ++ [(call.index, call.value)], code := .zero } := by
  obtain ⟨hfreed, hothers⟩ := set_spec hset
  have hmem' : arr.mem ≠ .freed := fun hf => hmem (hfreed.mp hf)
  intro i
  rw [get_live hmem', lastSet_snoc]
  split
  next heq => rw [← heq, hstored]
  next hne =>
    have hsame := h i
    rw [get_live hmem] at hsame
    rw [hothers i (Ne.symm hne)]
    exact hsame

end Sets

end Array
end Structure
end JkxyKernel
