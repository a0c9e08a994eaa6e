import JkxyKernel.Fs.Files
import JkxyKernel.Lib.Chunks
import Mathlib.Data.BitVec

/-!
# What ece391fs reads

`ece391fs_read_data` reads up to the end of a block, or of the device.  Where in the device
a byte of a file lies depends on its offset only, and so does whether the two seeks to it
are accepted: a file has a byte at some offsets, and none at others.

So `ece391fs_read` is a loop over chunks.  It ends, and it stops at the first offset that
has no byte; by then the position has moved over the bytes before.
-/

namespace JkxyKernel
namespace Fs

@[simp] theorem length_read (dev : Device) (pos n : Nat) :
    (dev.read pos n).length = min n (dev.size - pos) := by
  simp [Device.read]

theorem getElem?_read {dev : Device} {pos n i : Nat} (h : i < min n (dev.size - pos)) :
    (dev.read pos n)[i]? = some (dev.bytes (pos + i)) := by
  rw [Device.read, List.getElem?_map, List.getElem?_range h]
  rfl

section Ece391fs

variable {sb : Ece391fsSuper} {inode : BitVec 32} {stack : List Char}

/-- Where the byte of an offset lies in the device, if the seeks are accepted. -/
def ece391fsLocate (sb : Ece391fsSuper) (inode : BitVec 32) (stack : List Char)
    (offset : BitVec 32) : Except Int Nat := do
  let start ← sb.dev.seekSet
    ((inode.toNat + 1) * blockSize + (offset.toNat / blockSize + 1) * 4)
  let bytes := sb.dev.read start 4
  let blockId := le32 (bytes ++ stack.drop bytes.length)
  sb.dev.seekSet
    ((sb.numInode.toNat + blockId + 1) * blockSize + offset.toNat % blockSize)

/-- The byte of a file at an offset. -/
def ece391fsByte (sb : Ece391fsSuper) (inode : BitVec 32) (stack : List Char)
    (offset : BitVec 32) : Option Char :=
  (ece391fsLocate sb inode stack offset).toOption.map sb.dev.bytes

/-- What `ece391fs_read_data` reads for a number of bytes. -/
def ece391fsChunk (sb : Ece391fsSuper) (inode : BitVec 32) (stack : List Char)
    (offset : BitVec 32) (n : Nat) : Except Int (List Char) :=
  (ece391fsLocate sb inode stack offset).map fun start =>
    sb.dev.read start (min n (blockSize - offset.toNat % blockSize))

theorem ece391fsReadData_eq (offset length : BitVec 32) :
    ece391fsReadData sb inode stack offset length =
      ece391fsChunk sb inode stack offset length.toNat := by
  have hmin : ∀ rest : Nat, (if rest < length.toNat then rest else length.toNat) =
      min length.toNat rest := by
    intro rest
    split <;> omega
  simp only [ece391fsReadData, ece391fsChunk, ece391fsLocate, hmin, bind, Except.bind]
  cases sb.dev.seekSet ((inode.toNat + 1) * blockSize + (offset.toNat / blockSize + 1) * 4) with
  | error e => rfl
  | ok start => rfl

theorem seekSet_eq_ok {dev : Device} {offset start : Nat} (h : dev.seekSet offset = .ok start) :
    start = offset % 2 ^ 32 ∧ start < dev.size ∧ start < 2 ^ 31 := by
  simp only [Device.seekSet] at h
  split at h
  next => cases h
  next hno =>
    cases h
    omega

theorem seekSet_eq_error {dev : Device} {offset : Nat} {e : Int}
    (h : dev.seekSet offset = .error e) : e = -EINVAL := by
  simp only [Device.seekSet] at h
  split at h
  next =>
    cases h
    rfl
  next => cases h

/-- A seek a little further, within a block. -/
theorem seekSet_add {dev : Device} {base off i start : Nat}
    (h : dev.seekSet (base * blockSize + off) = .ok start) (hoff : off + i < blockSize)
    (hi : start + i < dev.size) :
    dev.seekSet (base * blockSize + (off + i)) = .ok (start + i) := by
  obtain ⟨hstart, -, hlt⟩ := seekSet_eq_ok h
  simp only [blockSize] at hstart hoff ⊢
  have heq : (base * 4096 + (off + i)) % 2 ^ 32 = start + i := by omega
  simp only [Device.seekSet, heq]
  rw [if_neg (by omega)]

/-- The next bytes of a block lie behind one another. -/
theorem ece391fsLocate_add
    {offset : BitVec 32} {i start : Nat} (h : ece391fsLocate sb inode stack offset = .ok start)
    (hoff : offset.toNat % blockSize + i < blockSize) (hi : start + i < sb.dev.size) :
    ece391fsLocate sb inode stack (offset + (i : BitVec 32)) = .ok (start + i) := by
  have hsum : (offset + (i : BitVec 32)).toNat = offset.toNat + i := by
    have hlt := offset.isLt
    rw [BitVec.natCast_eq_ofNat, BitVec.toNat_add, BitVec.toNat_ofNat]
    simp only [blockSize] at hoff
    omega
  have hdiv : (offset.toNat + i) / blockSize = offset.toNat / blockSize := by
    simp only [blockSize] at hoff ⊢
    omega
  have hmod : (offset.toNat + i) % blockSize = offset.toNat % blockSize + i := by
    simp only [blockSize] at hoff ⊢
    omega
  simp only [ece391fsLocate, hsum, hdiv, hmod, bind, Except.bind] at h ⊢
  cases hseek : sb.dev.seekSet
    ((inode.toNat + 1) * blockSize + (offset.toNat / blockSize + 1) * 4) with
  | error e =>
      rw [hseek] at h
      cases h
  | ok at₀ =>
      rw [hseek] at h
      exact seekSet_add h hoff hi

theorem ece391fsLocate_lt {offset : BitVec 32} {start : Nat}
    (h : ece391fsLocate sb inode stack offset = .ok start) : start < sb.dev.size := by
  simp only [ece391fsLocate, bind, Except.bind] at h
  split at h
  next => cases h
  next => exact (seekSet_eq_ok h).2.1

theorem ece391fsLocate_error {offset : BitVec 32} {e : Int}
    (h : ece391fsLocate sb inode stack offset = .error e) : e = -EINVAL := by
  simp only [ece391fsLocate, bind, Except.bind] at h
  split at h
  next hseek =>
    cases h
    exact seekSet_eq_error hseek
  next => exact seekSet_eq_error h

/-- It reads chunks of the file. -/
theorem ece391fsChunk_chunked :
    Chunked (ece391fsByte sb inode stack) (· = -EINVAL) (ece391fsChunk sb inode stack) := by
  refine ⟨fun offset n e _ h => ?_, fun offset n l hn h => ?_⟩
  · simp only [ece391fsChunk, ece391fsByte] at h ⊢
    cases hlocate : ece391fsLocate sb inode stack offset with
    | error e' =>
        rw [hlocate] at h
        cases h
        exact ⟨rfl, ece391fsLocate_error hlocate⟩
    | ok start =>
        rw [hlocate] at h
        cases h
  · simp only [ece391fsChunk] at h
    cases hlocate : ece391fsLocate sb inode stack offset with
    | error e' =>
        rw [hlocate] at h
        cases h
    | ok start =>
        rw [hlocate] at h
        cases h
        have hlt := ece391fsLocate_lt hlocate
        have hrest : offset.toNat % blockSize < blockSize := Nat.mod_lt _ (by decide)
        refine ⟨?_, by rw [length_read]; omega, fun i hi => ?_⟩
        · rw [← List.length_pos_iff, length_read]
          omega
        · rw [length_read] at hi
          have hnext := ece391fsLocate_add hlocate (i := i) (by omega) (by omega)
          rw [getElem?_read hi, ece391fsByte, hnext]
          rfl

/-- The loop of `ece391fs_read` is the one over chunks. -/
theorem ece391fsReadLoop_eq (rounds : Nat) (pos nbytes : BitVec 32) (buf : List Char) :
    ece391fsReadLoop sb inode stack rounds pos nbytes buf =
      Chunked.readLoop (ece391fsChunk sb inode stack) rounds pos nbytes.toNat buf := by
  induction rounds generalizing pos nbytes buf with
  | zero => rfl
  | succ rounds ih =>
      simp only [ece391fsReadLoop, Chunked.readLoop]
      by_cases hzero : nbytes = 0
      · rw [if_pos hzero, if_pos (by rw [hzero]; rfl)]
      · have hpos : nbytes.toNat ≠ 0 := fun h => hzero (BitVec.eq_of_toNat_eq h)
        rw [if_neg hzero, if_neg hpos, ece391fsReadData_eq]
        cases hchunk : ece391fsChunk sb inode stack pos nbytes.toNat with
        | error e => rfl
        | ok l =>
            obtain ⟨-, hle, -⟩ := ece391fsChunk_chunked.read pos nbytes.toNat l hpos hchunk
            have hrest : (nbytes - BitVec.ofNat 32 l.length).toNat =
                nbytes.toNat - l.length := by
              have := nbytes.isLt
              rw [BitVec.toNat_sub, BitVec.toNat_ofNat]
              omega
            simp only [ih, hrest, BitVec.natCast_eq_ofNat]

/-- `ece391fs_read` ends, with every byte that is asked for or at the first that is
missing. -/
theorem ece391fsRead_outcome
    (sb : Ece391fsSuper) (inode : BitVec 32) (stack : List Char) (size pos nbytes : BitVec 32) :
    ∃ result, ece391fsRead sb inode stack size pos nbytes = some result ∧
      Chunked.Outcome (ece391fsByte sb inode stack) (· = -EINVAL) pos
        (clip size pos nbytes).toNat [] result := by
  simp only [ece391fsRead, ece391fsReadLoop_eq]
  exact Chunked.readLoop_outcome ece391fsChunk_chunked _ (Nat.lt_succ_self _)

end Ece391fs

/-! ### Reads that fail -/

/-- What a function that reads returns, as an `int32_t`. -/
def readReturn : Except Int (List Char) → Int
  | .error e => e
  | .ok bytes => (BitVec.ofNat 32 bytes.length).toInt

/-- The read has a byte wherever it is to read, or not even a first one; and it is for less
than 2 GiB, since it returns a larger number as an error. -/
def ReadsThrough (sb : Ece391fsSuper) (inode : BitVec 32) (stack : List Char)
    (size pos nbytes : BitVec 32) : Prop :=
  ece391fsByte sb inode stack pos = none ∨
    (clip size pos nbytes).toNat < 2 ^ 31 ∧
      ∀ i < (clip size pos nbytes).toNat,
        (ece391fsByte sb inode stack (pos + BitVec.ofNat 32 i)).isSome

/-- **Failing reads.**  `ece391fs_read` ends for every image and every request.  When it
returns an error the position is what it was, if and only if the request does not begin with
a byte and run into an offset without one. -/
theorem ece391fs_read_keeps_pos_iff
    (sb : Ece391fsSuper) (inode : BitVec 32) (stack : List Char)
    (size pos nbytes : BitVec 32) :
    ∃ result pos', ece391fsRead sb inode stack size pos nbytes = some (result, pos') ∧
      ((readReturn result < 0 → pos' = pos) ↔
        ReadsThrough sb inode stack size pos nbytes) := by
  obtain ⟨⟨result, pos'⟩, hread, houtcome⟩ :=
    ece391fsRead_outcome sb inode stack size pos nbytes
  refine ⟨result, pos', hread, ?_⟩
  have hclip := (clip size pos nbytes).isLt
  have hmoved : ∀ k : Nat, 0 < k → k < 2 ^ 32 → pos + (k : BitVec 32) ≠ pos := by
    intro k hk hlt heq
    have := congrArg BitVec.toNat heq
    have := pos.isLt
    rw [BitVec.natCast_eq_ofNat, BitVec.toNat_add, BitVec.toNat_ofNat] at *
    omega
  simp only [ReadsThrough]
  generalize (clip size pos nbytes).toNat = n at *
  cases houtcome with
  | @all l hlength hl =>
      have hsome : ∀ i < n, (ece391fsByte sb inode stack (pos + BitVec.ofNat 32 i)).isSome := by
        intro i hi
        rw [← BitVec.natCast_eq_ofNat, hl i (hlength ▸ hi),
          List.getElem?_eq_getElem (hlength ▸ hi)]
        rfl
      have hreturn : readReturn (.ok ([] ++ l)) < 0 ↔ 2 ^ 31 ≤ n := by
        simp only [readReturn, List.nil_append, hlength]
        rw [BitVec.toInt_eq_toNat_cond, BitVec.toNat_ofNat]
        split <;> omega
      rw [hreturn]
      constructor
      · intro h
        refine .inr ⟨?_, hsome⟩
        by_contra hlarge
        exact hmoved n (by omega) hclip (h (by omega))
      · rintro (hnone | ⟨hsmall, -⟩) hlarge
        · have hfirst := hsome 0 (by omega)
          rw [BitVec.add_zero, hnone] at hfirst
          cases hfirst
        · omega
  | @stopped k e hk hsome hnone hreason =>
      have hreturn : readReturn (.error e) < 0 := by
        rw [hreason]
        decide
      constructor
      · intro h
        rcases Nat.eq_zero_or_pos k with rfl | hpos
        · exact .inl (by simpa using hnone)
        · exact absurd (h hreturn) (hmoved k hpos (by omega))
      · rintro (hfirst | ⟨-, hall⟩) -
        · rcases Nat.eq_zero_or_pos k with rfl | hpos
          · simp
          · have hsome₀ := hsome 0 hpos
            simp [hfirst] at hsome₀
        · have hsomek := hall k hk
          rw [← BitVec.natCast_eq_ofNat, hnone] at hsomek
          cases hsomek

/-- A device with a boot block, the inode of a file of two blocks, and one data block: the
second block of the file is out of range. -/
def shortSuper : Ece391fsSuper where
  dev :=
    { size := 3 * blockSize
      bytes := fun i =>
        if i = blockSize + 1 then Char.ofNat 32
        else if i = blockSize + 8 then Char.ofNat 1
        else nul }
  numInode := 1

/-- Two bytes are read at the end of the first block: one is read, and the position moves
over it before the second block fails. -/
theorem ece391fs_read_moves :
    ∃ e, readReturn (.error e) < 0 ∧
      ece391fsRead shortSuper 0 [] 8192 4095 2 = some (.error e, 4096) :=
  ⟨-EINVAL, by decide, by decide⟩

end Fs
end JkxyKernel
