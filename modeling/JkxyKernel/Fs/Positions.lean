import JkxyKernel.Fs.Reading

/-!
# File positions

A file is read up to its end and the position is then its size, but `filp_seek` accepts only
positions below the size, and none from 2 GiB on.  So the position never exceeds the size,
and can be read back and set again exactly if it lies before the end, and below 2 GiB.
-/

namespace JkxyKernel
namespace Fs

/-! ### What reads leave of the position -/

section Reads

variable {size pos nbytes : BitVec 32}

theorem clip_toNat (h : pos ≤ size) :
    (clip size pos nbytes).toNat = min nbytes.toNat (size.toNat - pos.toNat) := by
  have hle : pos.toNat ≤ size.toNat := h
  have hsub : (size - pos).toNat = size.toNat - pos.toNat := BitVec.toNat_sub_of_le h
  simp only [clip]
  split
  next hlt =>
    have : (size - pos).toNat < nbytes.toNat := hlt
    omega
  next hge =>
    have : ¬ (size - pos).toNat < nbytes.toNat := hge
    omega

/-- A position that has moved by no more than is left is no further than the size. -/
theorem add_le_size (nbytes : BitVec 32) {k : Nat} (h : pos ≤ size) (hk : k ≤ (clip size pos nbytes).toNat) :
    pos + BitVec.ofNat 32 k ≤ size := by
  have hle : pos.toNat ≤ size.toNat := h
  have hlt := size.isLt
  rw [clip_toNat h] at hk
  rw [BitVec.le_def, BitVec.toNat_add, BitVec.toNat_ofNat]
  omega

theorem ustarRead_le {dev : Device} {sectorNum : BitVec 32} (h : pos ≤ size) :
    (ustarRead dev sectorNum size pos nbytes).2 ≤ size := by
  simp only [ustarRead]
  split
  next => exact h
  next =>
    split
    next => exact h
    next start _ =>
      refine add_le_size nbytes h ?_
      rw [length_read]
      exact Nat.min_le_left _ _

theorem initrdRead_le {startAddr : Nat → Char} (h : pos ≤ size) :
    (initrdRead startAddr size pos nbytes).2 ≤ size := by
  have hle := add_le_size nbytes h (Nat.le_refl _)
  rw [BitVec.ofNat_toNat, BitVec.setWidth_eq] at hle
  exact hle

theorem ece391fsRead_le
    {sb : Ece391fsSuper} {inode : BitVec 32} {stack : List Char} {result : ReadResult}
    (h : pos ≤ size) (hread : ece391fsRead sb inode stack size pos nbytes = some result) :
    result.2 ≤ size := by
  obtain ⟨result', hresult, houtcome⟩ :=
    ece391fsRead_outcome sb inode stack size pos nbytes
  rw [hread] at hresult
  cases hresult
  cases houtcome with
  | all hlength hl =>
      simp only [BitVec.natCast_eq_ofNat]
      exact add_le_size nbytes h (Nat.le_refl _)
  | stopped hk _ _ _ =>
      simp only [BitVec.natCast_eq_ofNat]
      exact add_le_size nbytes h (Nat.le_of_lt hk)

/-- By induction on the rounds: what is left to read fits before the end. -/
theorem ataReadLoop_le
    {sector : Nat → Except Int (Nat → Char)} (rounds : Nat) {buf : List Char}
    {result : ReadResult} (h : pos.toNat + nbytes.toNat ≤ size.toNat)
    (hread : ataReadLoop sector rounds pos nbytes buf = some result) : result.2 ≤ size := by
  have hpos : pos ≤ size := by
    rw [BitVec.le_def]
    omega
  induction rounds generalizing pos nbytes buf with
  | zero => cases hread
  | succ rounds ih =>
      simp only [ataReadLoop] at hread
      split at hread
      next =>
        cases hread
        exact hpos
      next =>
        split at hread
        next =>
          cases hread
          exact hpos
        next head _ =>
          generalize hinner : (if nbytes < _ then nbytes else _ : BitVec 32) = inner at hread
          have hle : inner.toNat ≤ nbytes.toNat := by
            subst hinner
            split
            next => exact Nat.le_refl _
            next hge =>
              rw [BitVec.not_lt] at hge
              exact hge
          have hsize := size.isLt
          have hnext : (pos + inner).toNat + (nbytes - inner).toNat ≤ size.toNat := by
            rw [BitVec.toNat_add, BitVec.toNat_sub_of_le hle]
            omega
          refine ih hnext hread ?_
          rw [BitVec.le_def]
          omega

theorem ataRead_le
    {sector : Nat → Except Int (Nat → Char)} {result : ReadResult}
    (h : pos ≤ size) (hread : ataRead sector size pos nbytes = some result) :
    result.2 ≤ size := by
  simp only [ataRead] at hread
  split at hread
  next =>
    cases hread
    exact h
  next =>
    refine ataReadLoop_le _ ?_ hread
    have hle : pos.toNat ≤ size.toNat := h
    rw [clip_toNat h]
    omega

end Reads

/-! ### What seeks accept -/

theorem checkPos_eq_ok {size newPos result : BitVec 32} :
    checkPos size newPos = .ok result ↔
      result = newPos ∧ newPos < size ∧ newPos.toNat < 2 ^ 31 := by
  have hsign : newPos.toInt < 0 ↔ 2 ^ 31 ≤ newPos.toNat := by
    rw [BitVec.toInt_eq_toNat_cond]
    have := newPos.isLt
    split <;> omega
  simp only [checkPos, hsign]
  split
  next hno =>
    refine ⟨nofun, ?_⟩
    rintro ⟨-, hlt, hsmall⟩
    rcases hno with hle | hlarge
    · exact absurd hlt (BitVec.not_lt.mpr hle)
    · omega
  next hyes =>
    rw [not_or, BitVec.not_le, Nat.not_le] at hyes
    constructor
    · rintro ⟨⟩
      exact ⟨rfl, hyes⟩
    · rintro ⟨rfl, -⟩
      rfl

theorem seekTo_lt {size pos offset whence result : BitVec 32}
    (h : seekTo size pos offset whence = .ok result) : result < size := by
  have hcheck : ∀ {newPos : BitVec 32}, checkPos size newPos = .ok result → result < size := by
    intro newPos hok
    obtain ⟨rfl, hlt, -⟩ := checkPos_eq_ok.mp hok
    exact hlt
  simp only [seekTo] at h
  split at h
  next => exact hcheck h
  next =>
    split at h
    next => exact hcheck h
    next =>
      split at h
      next => exact hcheck h
      next => cases h

namespace File

variable {file : File} {pos : BitVec 32}

theorem format_ne_dir (backing : Backing) : backing.format ≠ S_IFDIR := by
  have hreg : S_IFREG ≠ S_IFDIR := by decide
  have hblk : S_IFBLK ≠ S_IFDIR := by decide
  cases backing with
  | ece391fs => exact hreg
  | ustar => exact hreg
  | initrd => exact hblk
  | ata => exact hblk

/-- No file is a directory, and those of the file systems are regular. -/
theorem seek_eq (file : File) (pos offset whence : BitVec 32) :
    file.seek pos offset whence = seekTo file.size pos offset whence := by
  have hformat := file.format
  have hdir : ¬ file.mode &&& S_IFMT = S_IFDIR := hformat ▸ format_ne_dir file.backing
  simp only [seek, if_neg hdir]
  cases hbacking : file.backing with
  | ece391fs sb inode =>
      rw [hbacking] at hformat
      exact if_neg fun hne => hne hformat
  | ustar dev sectorNum =>
      rw [hbacking] at hformat
      exact if_neg fun hne => hne hformat
  | initrd startAddr => rfl
  | ata => rfl

theorem read_le {env : ReadEnv} {nbytes : BitVec 32} {result : ReadResult}
    (h : pos ≤ file.size) (hread : file.read env pos nbytes = some result) :
    result.2 ≤ file.size := by
  simp only [read] at hread
  split at hread
  next =>
    cases hread
    exact h
  next =>
    split at hread
    next => exact ece391fsRead_le h hread
    next =>
      cases hread
      exact ustarRead_le h
    next =>
      cases hread
      exact initrdRead_le h
    next => exact ataRead_le h hread

/-- The position never exceeds the size. -/
theorem Reach.le (h : file.Reach pos) : pos ≤ file.size := by
  induction h with
  | opened =>
      rw [BitVec.le_def]
      exact Nat.zero_le _
  | read _ hread ih => exact read_le ih hread
  | seek _ hseek _ =>
      rw [seek_eq] at hseek
      exact BitVec.le_of_lt (seekTo_lt hseek)

/-- Asking for the position returns it, and so does setting it. -/
def ReadsBack (file : File) (pos : BitVec 32) : Prop :=
  file.seek pos 0 SEEK_CUR = .ok pos ∧ file.seek pos pos SEEK_SET = .ok pos

theorem readsBack_iff : file.ReadsBack pos ↔ pos < file.size ∧ pos.toNat < 2 ^ 31 := by
  have hcur : file.seek pos 0 SEEK_CUR = checkPos file.size pos := by
    rw [seek_eq]
    exact congrArg (checkPos file.size) (BitVec.add_zero pos)
  have hset : file.seek pos pos SEEK_SET = checkPos file.size pos := seek_eq file pos pos SEEK_SET
  simp only [ReadsBack, hcur, hset, checkPos_eq_ok, true_and, and_self]

end File

/-- **File positions.**  In every run of reads and seeks that succeed, on a regular file of
ece391fs or ustar or on a block device, the position does not exceed the size.  It can be
read back and set again if and only if it lies before the end, below 2 GiB. -/
theorem positions_read_back_iff
    {file : File} {pos : BitVec 32} (h : file.Reach pos) :
    pos ≤ file.size ∧ (file.ReadsBack pos ↔ pos < file.size ∧ pos.toNat < 2 ^ 31) :=
  ⟨h.le, File.readsBack_iff⟩

/-- An initrd of two bytes. -/
def twoBytes : File where
  backing := .initrd fun _ => 'a'
  flags := 0
  mode := S_IFBLK ||| 0o666
  size := 2
  format := by decide

/-- Nothing is on the stack, and there is no disk. -/
def bareEnv : ReadEnv where
  stack := []
  sector _ := .error (-EINVAL)

theorem twoBytes_reach : twoBytes.Reach 1 ∧ twoBytes.Reach 2 := by
  have hone : twoBytes.read bareEnv 0 1 = some (.ok ['a'], 1) := by decide
  have htwo : twoBytes.read bareEnv 1 1 = some (.ok ['a'], 2) := by decide
  exact ⟨.read .opened hone, .read (.read .opened hone) htwo⟩

/-- After one byte the position can be read back. -/
theorem positions_read_back_one :
    twoBytes.Reach 1 ∧ (1 : BitVec 32) ≤ twoBytes.size ∧ twoBytes.ReadsBack 1 :=
  ⟨twoBytes_reach.1, (positions_read_back_iff twoBytes_reach.1).1,
    (positions_read_back_iff twoBytes_reach.1).2.mpr (by decide)⟩

/-- At the end it cannot. -/
theorem end_not_read_back :
    twoBytes.Reach 2 ∧ twoBytes.seek 2 0 SEEK_CUR = .error (-EINVAL) ∧
      twoBytes.seek 2 2 SEEK_SET = .error (-EINVAL) ∧ ¬ twoBytes.ReadsBack 2 := by
  refine ⟨twoBytes_reach.2, by decide, by decide, fun h => ?_⟩
  exact absurd h.1 (by decide)

end Fs
end JkxyKernel
