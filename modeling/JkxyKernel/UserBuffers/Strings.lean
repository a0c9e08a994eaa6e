import JkxyKernel.SigFrame.User

/-!
# Strings of the process

A string that a system call is given has no length.  `safe_arr_null_term` finds out how far the
memory of the process goes from its beginning, without a look at what is there, and `strndup`
copies no more than that.  But `strndup` begins with `strlen`, which goes on to the first `NUL`
wherever that is.

What is written down here is which bytes are read, as offsets from the pointer.
-/

namespace JkxyKernel
namespace UserBuffers

open Bytes

/-- Memory as the kernel finds it. -/
structure Space where
  mem : Addr → Byte
  /-- `addr_is_safe` for reading, which goes by pages. -/
  addrIsSafe : Addr → Bool
  /-- Reading does not end in a page fault. -/
  mapped : Addr → Bool
  by_page : ∀ a b : Addr, a.toNat / 4096 = b.toNat / 4096 → addrIsSafe a = addrIsSafe b
  mapped_of_safe : ∀ a, addrIsSafe a = true → mapped a = true

/-- What stops the kernel while it copies a string. -/
inductive CopyFault
  | pageFault
  /-- There is no `NUL` anywhere. -/
  | hang
  deriving DecidableEq, Repr

namespace Space

variable (space : Space) (p : Addr)

/-- The byte at an offset. -/
def byte (i : Nat) : Byte := space.mem (p + BitVec.ofNat 32 i)

/-- `safe_arr_null_term(p, 1, false)` -/
def safeArrNullTerm : Nat := SigFrame.safeBufLoop space.addrIsSafe (2 ^ 32 - 1) p (2 ^ 32 - 1)

/-- The loop of `strlen`: the length, and the offsets that are read. -/
def strlenLoop : Nat → Nat → Except CopyFault Nat × List Nat
  | 0, _ => (.error .hang, [])
  | rounds + 1, len =>
      if !space.mapped (p + BitVec.ofNat 32 len) then (.error .pageFault, [len])
      else if space.byte p len = 0 then (.ok len, [len])
      else
        let (res, seen) := strlenLoop rounds (len + 1)
        (res, len :: seen)

/-- `strlen` -/
def strlen : Except CopyFault Nat × List Nat := space.strlenLoop p (2 ^ 32) 0

/-- `strndup`: the copy, or `NULL` if there is no memory for it, and the offsets that are read.
`strncpy` reads the character after the last one that it copies. -/
def strndup (n : Nat) (found : Bool) : Except CopyFault (Option (List Byte)) × List Nat :=
  match space.strlen p with
  | (.error e, seen) => (.error e, seen)
  | (.ok len, seen) =>
      if !found then (.ok none, seen)
      else
        let len := min len n
        (.ok (some ((List.range len).map (space.byte p))), seen ++ List.range (len + 1))

/-- A string of the process is copied. -/
def copyString (found : Bool) : Except CopyFault (Option (List Byte)) × List Nat :=
  space.strndup p (space.safeArrNullTerm p) found

/-- What should be copied: the bytes that were found accessible, up to the first `NUL`. -/
def accessible : List Byte :=
  ((List.range (space.safeArrNullTerm p)).map (space.byte p)).takeWhile (· != 0)

/-- Only bytes that were found accessible are read, and they are what is copied. -/
def CopiesWithin (found : Bool) : Prop :=
  (∀ i ∈ (space.copyString p found).2, i < space.safeArrNullTerm p) ∧
    (space.copyString p found).1 = .ok (if found then some (space.accessible p) else none)

end Space

section Strings

variable {space : Space} {p : Addr} {n i : Nat}

theorem mapped_of_lt (hi : i < space.safeArrNullTerm p) :
    i < 2 ^ 32 - 1 ∧ space.mapped (p + BitVec.ofNat 32 i) = true := by
  obtain ⟨hlt, hsafe⟩ := SigFrame.safe_of_lt_safeBufLoop space.by_page hi
  exact ⟨hlt, space.mapped_of_safe _ hsafe⟩

/-- `strlen` goes over mapped memory without a `NUL`, and reads the byte after it. -/
theorem mem_strlenLoop
    {rounds len : Nat} (hrounds : n < rounds)
    (h : ∀ i, len ≤ i → i < len + n →
      space.mapped (p + BitVec.ofNat 32 i) = true ∧ space.byte p i ≠ 0) :
    len + n ∈ (space.strlenLoop p rounds len).2 := by
  induction rounds generalizing len n with
  | zero => exact absurd hrounds (Nat.not_lt_zero n)
  | succ rounds ih =>
      rw [Space.strlenLoop]
      cases n with
      | zero =>
          split_ifs
          · exact List.mem_singleton_self _
          · exact List.mem_singleton_self _
          · exact List.mem_cons_self
      | succ n =>
          obtain ⟨hmapped, hbyte⟩ := h len (Nat.le_refl len) (by omega)
          have hmem : len + 1 + n ∈ (space.strlenLoop p rounds (len + 1)).2 :=
            ih (Nat.lt_of_succ_lt_succ hrounds) fun i hi hlt => h i (by omega) (by omega)
          rw [if_neg (by simp [hmapped]), if_neg hbyte]
          refine List.mem_cons_of_mem _ ?_
          rwa [Nat.add_right_comm] at hmem

/-- If there is a `NUL` in mapped memory `strlen` ends there. -/
theorem strlenLoop_eq
    {rounds len : Nat} (hrounds : n < rounds)
    (h : ∀ i, len ≤ i → i < len + n → space.byte p i ≠ 0)
    (hmapped : ∀ i, len ≤ i → i ≤ len + n → space.mapped (p + BitVec.ofNat 32 i) = true)
    (hnul : space.byte p (len + n) = 0) :
    space.strlenLoop p rounds len = (.ok (len + n), List.range' len (n + 1)) := by
  induction rounds generalizing len n with
  | zero => exact absurd hrounds (Nat.not_lt_zero n)
  | succ rounds ih =>
      rw [Space.strlenLoop, if_neg (by simp [hmapped len (Nat.le_refl len) (by omega)])]
      cases n with
      | zero =>
          have hhere : space.byte p len = 0 := hnul
          rw [if_pos hhere]
          rfl
      | succ n =>
          have hrest : space.strlenLoop p rounds (len + 1) =
              (.ok (len + 1 + n), List.range' (len + 1) (n + 1)) := by
            refine ih (Nat.lt_of_succ_lt_succ hrounds) (fun i hi hlt => h i (by omega) (by omega))
              (fun i hi hle => hmapped i (by omega) (by omega)) ?_
            rw [Nat.add_right_comm]
            exact hnul
          rw [if_neg (h len (Nat.le_refl len) (by omega)), hrest, List.range'_succ,
            Nat.add_right_comm]
          rfl

/-- The first `NUL` in a prefix. -/
theorem exists_first_nul (h : ∃ i < n, space.byte p i = 0) :
    ∃ i < n, space.byte p i = 0 ∧ ∀ j < i, space.byte p j ≠ 0 := by
  obtain ⟨i, hi, hnul⟩ := h
  have hex : ∃ i, space.byte p i = 0 := ⟨i, hnul⟩
  exact ⟨Nat.find hex, Nat.lt_of_le_of_lt (Nat.find_min' hex hnul) hi, Nat.find_spec hex,
    fun j hj => Nat.find_min hex hj⟩

theorem accessible_eq (hi : i < space.safeArrNullTerm p) (hnul : space.byte p i = 0)
    (hbefore : ∀ j < i, space.byte p j ≠ 0) :
    space.accessible p = (List.range i).map (space.byte p) := by
  have hsplit : List.range (space.safeArrNullTerm p) =
      List.range i ++ i :: List.range' (i + 1) (space.safeArrNullTerm p - i - 1) := by
    have hwhole : space.safeArrNullTerm p = i + (space.safeArrNullTerm p - i - 1 + 1) := by omega
    conv_lhs => rw [hwhole, List.range_eq_range', ← List.range'_append_1, Nat.zero_add]
    rw [List.range_eq_range', List.range'_succ]
  have hall : ∀ c ∈ (List.range i).map (space.byte p), (c != 0) = true := by
    intro c hc
    obtain ⟨j, hj, rfl⟩ := List.mem_map.mp hc
    exact bne_iff_ne.mpr (hbefore j (List.mem_range.mp hj))
  rw [Space.accessible, hsplit, List.map_append, List.map_cons, List.takeWhile_append_of_pos hall,
    List.takeWhile_cons_of_neg (by simp [hnul]), List.append_nil]

end Strings

/-- **Strings of the process.**  A string is copied within what was found accessible if and
only if there is a `NUL` in it; in any other case a byte beyond is read. -/
theorem strings_copied_within_iff (space : Space) (p : Addr) (found : Bool) :
    space.CopiesWithin p found ↔ ∃ i < space.safeArrNullTerm p, space.byte p i = 0 := by
  constructor
  · rintro ⟨hreads, -⟩
    by_contra hnone
    simp only [not_exists, not_and] at hnone
    -- `strlen` comes to the first byte that is not accessible
    have hbeyond : 0 + space.safeArrNullTerm p ∈ (space.strlen p).2 := by
      have hbound : space.safeArrNullTerm p < 2 ^ 32 := by
        by_contra hlarge
        have := (mapped_of_lt (show 2 ^ 32 - 1 < space.safeArrNullTerm p by omega)).1
        omega
      exact mem_strlenLoop hbound fun i _ hi =>
        ⟨(mapped_of_lt (by omega)).2, hnone i (by omega)⟩
    have hread : space.safeArrNullTerm p ∈ (space.copyString p found).2 := by
      rw [Nat.zero_add] at hbeyond
      rw [Space.copyString, Space.strndup]
      split
      next hlen =>
        rw [hlen] at hbeyond
        exact hbeyond
      next len seen hlen =>
        rw [hlen] at hbeyond
        split
        next => exact hbeyond
        next => exact List.mem_append_left _ hbeyond
    exact Nat.lt_irrefl _ (hreads _ hread)
  · intro hex
    obtain ⟨i, hi, hnul, hbefore⟩ := exists_first_nul hex
    have hlen : space.strlen p = (.ok (0 + i), List.range' 0 (i + 1)) := by
      refine strlenLoop_eq ?_ (fun j _ hj => hbefore j (by omega))
        (fun j _ hj => (mapped_of_lt (by omega)).2) (by rw [Nat.zero_add]; exact hnul)
      have := (mapped_of_lt hi).1
      omega
    have hmin : min i (space.safeArrNullTerm p) = i := Nat.min_eq_left (Nat.le_of_lt hi)
    rw [Nat.zero_add, ← List.range_eq_range'] at hlen
    rw [Space.CopiesWithin, Space.copyString, Space.strndup, hlen]
    cases found with
    | false =>
        refine ⟨fun j hj => ?_, rfl⟩
        have := List.mem_range.mp hj
        omega
    | true =>
        refine ⟨fun j hj => ?_, ?_⟩
        · simp only [hmin, Bool.not_true, Bool.false_eq_true, if_false, List.mem_append,
            List.mem_range, or_self] at hj
          omega
        · simp only [hmin, accessible_eq hi hnul hbefore]
          rfl

/-- A process with one page, full of the same letter. -/
def fullPage : Space where
  mem _ := 97
  addrIsSafe a := a.toNat / 4096 == 0x8048
  mapped a := a.toNat / 4096 == 0x8048
  by_page a b h := by rw [h]
  mapped_of_safe _ h := h

/-- The last byte of it is not the end of a string, and the copy of a string that begins there
ends in a page fault. -/
theorem unterminated_string_faults :
    fullPage.safeArrNullTerm 0x08048FFF = 1 ∧
      fullPage.copyString 0x08048FFF true = (.error .pageFault, [0, 1]) ∧
      ¬ fullPage.CopiesWithin 0x08048FFF true := by
  have hsafe : fullPage.safeArrNullTerm 0x08048FFF = 1 := by decide +kernel
  have hcopy : fullPage.copyString 0x08048FFF true = (.error .pageFault, [0, 1]) := by
    rfl
  refine ⟨hsafe, hcopy, fun hwithin => ?_⟩
  have hreads := hwithin.1
  rw [hsafe, hcopy] at hreads
  exact Nat.lt_irrefl 1 (hreads 1 (by decide))

end UserBuffers
end JkxyKernel
