import Mathlib.Algebra.Order.Ring.Int
import Mathlib.Logic.Function.Basic

/-!
# Growable arrays

`struct array` of the kernel: a size and a pointer to that many words.  The
pointer is `NULL` until the first store, and nothing resets it when
`array_destroy` gives the block back, so the model keeps the life of the block
beside its contents.

`Fault` collects the ways in which kernel code of this development goes wrong;
a fault ends the run.
-/

namespace JkxyKernel

/-- What stops the kernel, or silently breaks it. -/
inductive Fault
  /-- A freed block is read, written or freed again. -/
  | useAfterFree
  /-- An access beyond the end of a block. -/
  | outOfBounds
  /-- A `NULL` pointer is dereferenced. -/
  | nullPointer
  /-- The result of `ERR_PTR` is dereferenced. -/
  | errorPointer
  /-- `BUG()` is reached. -/
  | bug
  /-- `panic()` is called. -/
  | panic
  deriving DecidableEq, Repr

namespace Structure

/-- The block behind `values`. -/
inductive Values
  | null
  | live
  | freed
  deriving DecidableEq, Repr

/-- `struct array`. -/
structure Array (α : Type) where
  size : Nat
  mem : Values
  values : Nat → Option α

namespace Array

variable {α : Type}

/-- The zero-initialised array. -/
def empty : Array α where
  size := 0
  mem := .null
  values := fun _ => none

/-- `bsr`, with its answer for zero moved up by one: the number of significant bits. -/
def bsrSucc (n : Nat) : Nat :=
  if n = 0 then 0 else n.log2 + 1

/-- The `newsize` of `array_set`; the shift count is taken modulo the word size. -/
def newsize (index : Nat) : Nat :=
  2 ^ (bsrSucc index % 32)

/-- The words that `kcalloc(sizeof(*values), newsize)` really provides: the product
of the two arguments is computed in 32 bits. -/
def capacity (newsize : Nat) : Nat :=
  4 * newsize % 2 ^ 32 / 4

/-- What stands at an index. -/
def lookup (arr : Array α) (index : Nat) : Option α :=
  if arr.size ≤ index then none else arr.values index

/-- `array_get` -/
def get (arr : Array α) (index : Nat) : Except Fault (Option α) :=
  if index < arr.size ∧ arr.mem = .freed then .error .useAfterFree
  else .ok (arr.lookup index)

/-- The growing branch of `array_set`. -/
def grow (arr : Array α) (index : Nat) : Except Fault (Array α) :=
  if arr.mem = .freed then .error .useAfterFree
  else if capacity (newsize index) < arr.size ∨
      (index < newsize index ∧ capacity (newsize index) ≤ index) then
    .error .outOfBounds
  else .ok {
    size := newsize index
    mem := .live
    values := fun i => if i < arr.size then arr.values i else none }

/-- The final store of `array_set`. -/
def store (arr : Array α) (index : Nat) (value : Option α) : Except Fault (Array α) :=
  if arr.size ≤ index then .ok arr
  else if arr.mem = .freed then .error .useAfterFree
  else .ok { arr with values := Function.update arr.values index value }

/-- `array_set` -/
def set (arr : Array α) (index : Nat) (value : Option α) : Except Fault (Array α) :=
  if value.isSome ∧ arr.size ≤ index then
    match arr.grow index with
    | .ok arr' => arr'.store index value
    | .error e => .error e
  else arr.store index value

/-- Does `array_set` of a pointer find a place for it?  Beyond the limit of the index
arithmetic the new size is too small, and nothing is stored. -/
def stores (arr : Array α) (index : Nat) : Bool :=
  index < arr.size || index < newsize index

/-- `array_destroy`; the pointer keeps its value. -/
def destroy (arr : Array α) : Except Fault (Array α) :=
  match arr.mem with
  | .null => .ok arr
  | .live => .ok { arr with mem := .freed }
  | .freed => .error .useAfterFree

variable {arr arr' : Array α} {index : Nat} {value : Option α}

theorem capacity_le (n : Nat) : capacity n ≤ n := by
  unfold capacity
  omega

theorem get_ok {v : Option α} (h : arr.get index = .ok v) : v = arr.lookup index := by
  unfold get at h
  split at h
  next => cases h
  next =>
    cases h
    rfl

theorem store_spec (h : arr.store index value = .ok arr') :
    (index < arr.size → arr.mem ≠ .freed) ∧ arr'.mem = arr.mem ∧ arr'.size = arr.size ∧
      ∀ i, arr'.lookup i =
        if i = index ∧ index < arr.size then value else arr.lookup i := by
  unfold store at h
  split at h
  next hsize =>
    cases h
    refine ⟨fun hlt => absurd hlt (Nat.not_lt.mpr hsize), rfl, rfl, fun i => ?_⟩
    simp [Nat.not_lt.mpr hsize]
  next hsize =>
    split at h
    next => cases h
    next hmem =>
      cases h
      refine ⟨fun _ => hmem, rfl, rfl, fun i => ?_⟩
      by_cases hi : i = index
      · subst hi
        simp [lookup, hsize, Nat.lt_of_not_le hsize]
      · simp [lookup, hi]

theorem grow_spec (h : arr.grow index = .ok arr') :
    arr.mem ≠ .freed ∧ arr'.mem = .live ∧ arr'.size = newsize index ∧
      ∀ i, arr'.lookup i = arr.lookup i := by
  unfold grow at h
  split at h
  next => cases h
  next hmem =>
    split at h
    next => cases h
    next hcap =>
      cases h
      refine ⟨hmem, rfl, rfl, fun i => ?_⟩
      have hle : arr.size ≤ newsize index := by
        have := capacity_le (newsize index)
        omega
      unfold lookup
      simp only
      by_cases h1 : newsize index ≤ i
      · simp [h1, Nat.le_trans hle h1]
      · by_cases h2 : i < arr.size
        · simp [h1, h2, Nat.not_le.mpr h2]
        · simp [h1, h2, Nat.le_of_not_lt h2]

/-- A successful `array_set` touches no freed block, and changes one entry at most. -/
theorem set_spec (h : arr.set index value = .ok arr') :
    (arr'.mem = .freed ↔ arr.mem = .freed) ∧
      ∀ i, i ≠ index → arr'.lookup i = arr.lookup i := by
  unfold set at h
  split at h
  next =>
    split at h
    next grown hgrow =>
      obtain ⟨hmem, hlive, -, hsame⟩ := grow_spec hgrow
      obtain ⟨-, hmem', -, hlook⟩ := store_spec h
      refine ⟨?_, fun i hi => ?_⟩
      · rw [hmem', hlive]
        simp [hmem]
      · rw [hlook, if_neg fun hc => hi hc.1, hsame]
    next => cases h
  next =>
    obtain ⟨-, hmem', -, hlook⟩ := store_spec h
    refine ⟨by rw [hmem'], fun i hi => ?_⟩
    rw [hlook, if_neg fun hc => hi hc.1]

/-- What stands at the index afterwards. -/
theorem set_lookup (h : arr.set index value = .ok arr') :
    arr'.lookup index = if arr.stores index then value else none := by
  simp only [set] at h
  split at h
  next hgrows =>
    split at h
    next grown hgrow =>
      obtain ⟨-, -, hsize, hsame⟩ := grow_spec hgrow
      obtain ⟨-, -, -, hlook⟩ := store_spec h
      have hnone : arr.lookup index = none := by simp [lookup, hgrows.2]
      rw [hlook, hsize, hsame, hnone]
      have hnot : ¬index < arr.size := Nat.not_lt.mpr hgrows.2
      simp [stores, hnot]
    next => cases h
  next hstays =>
    obtain ⟨-, -, -, hlook⟩ := store_spec h
    rw [hlook]
    by_cases hlt : index < arr.size
    · simp [stores, hlt]
    · have hle : arr.size ≤ index := Nat.le_of_not_lt hlt
      have hvalue : value = none := by
        cases value with
        | none => rfl
        | some v => exact absurd ⟨rfl, hle⟩ hstays
      simp [lookup, hlt, hle, hvalue]

/-- `array_set` on a block that is not freed touches no freed block. -/
theorem set_live (hmem : arr.mem ≠ .freed) : arr.set index value ≠ .error .useAfterFree := by
  have hstore : ∀ arr₀ : Array α, arr₀.mem ≠ .freed →
      arr₀.store index value ≠ .error .useAfterFree := by
    intro arr₀ h₀ h
    unfold store at h
    rw [if_neg h₀] at h
    split at h <;> cases h
  intro h
  unfold set at h
  split at h
  next =>
    split at h
    next grown hgrow =>
      obtain ⟨-, hlive, -, -⟩ := grow_spec hgrow
      exact hstore grown (by simp [hlive]) h
    next e hgrow =>
      cases h
      unfold grow at hgrow
      rw [if_neg hmem] at hgrow
      split at hgrow <;> cases hgrow
  next => exact hstore arr hmem h

/-- Below the limit of the index arithmetic a block grows past the index. -/
theorem newsize_bounds (hindex : index < 2 ^ 29) :
    index < newsize index ∧ newsize index ≤ 2 ^ 29 := by
  unfold newsize bsrSucc
  split
  next h0 => simp [h0]
  next h0 =>
    have hlog : index.log2 < 29 := (Nat.log2_lt h0).mpr hindex
    rw [Nat.mod_eq_of_lt (by omega)]
    exact ⟨Nat.lt_log2_self, Nat.pow_le_pow_right (by decide) (by omega)⟩

/-- Below that limit no access leaves the block. -/
theorem set_inBounds {v : α} (hindex : index < 2 ^ 29) :
    arr.set index (some v) ≠ .error .outOfBounds := by
  have hstore : ∀ arr₀ : Array α, arr₀.store index (some v) ≠ .error .outOfBounds := by
    intro arr₀ h
    unfold store at h
    split at h
    next => cases h
    next => split at h <;> cases h
  intro h
  unfold set at h
  split at h
  next hsize =>
    split at h
    next grown _ => exact hstore grown h
    next e hgrow =>
      cases h
      obtain ⟨hlt, hle⟩ := newsize_bounds hindex
      have hcap : capacity (newsize index) = newsize index := by
        unfold capacity
        omega
      unfold grow at hgrow
      rw [hcap] at hgrow
      split at hgrow
      next => cases hgrow
      next =>
        split at hgrow
        next hbad => omega
        next => cases hgrow
  next => exact hstore arr h

/-- A value stored below the limit of the index arithmetic can be read back. -/
theorem set_lookup_self {v : α} (hindex : index < 2 ^ 29)
    (h : arr.set index (some v) = .ok arr') : arr'.lookup index = some v := by
  have hbits : index < newsize index := (newsize_bounds hindex).1
  unfold set at h
  split at h
  next =>
    split at h
    next grown hgrow =>
      obtain ⟨-, -, hsize, -⟩ := grow_spec hgrow
      obtain ⟨-, -, -, hlook⟩ := store_spec h
      rw [hlook, if_pos ⟨rfl, hsize ▸ hbits⟩]
    next => cases h
  next hnot =>
    obtain ⟨-, -, -, hlook⟩ := store_spec h
    have hlt : index < arr.size := by
      by_contra hge
      exact hnot ⟨rfl, Nat.le_of_not_lt hge⟩
    rw [hlook, if_pos ⟨rfl, hlt⟩]

end Array
end Structure
end JkxyKernel
