import JkxyKernel.Fs.Positions

/-!
# The contents of a file

A regular file of a well-formed ece391fs image consists of the data blocks that its inode
names, in their order, up to its size.  `ece391fs_read` returns the slice of these contents
that begins at the position and has the number of bytes that is asked for, or ends with the
file, and moves the position behind it.

So several reads in a row return what one read of all their bytes would.
-/

namespace JkxyKernel
namespace Fs

/-! ### Pieces of equal length -/

section Pieces

variable {α : Type} {piece : Nat → List α} {c : Nat}

theorem length_flatMap_range (n : Nat) (h : ∀ b < n, (piece b).length = c) :
    ((List.range n).flatMap piece).length = n * c := by
  induction n with
  | zero => simp
  | succ n ih =>
      rw [List.range_succ, List.flatMap_append, List.length_append,
        ih fun b hb => h b (Nat.lt_succ_of_lt hb), Nat.succ_mul]
      simp [h n (Nat.lt_succ_self n)]

/-- Where an element is found in pieces of equal length. -/
theorem getElem?_flatMap_range
    (n : Nat) (h : ∀ b < n, (piece b).length = c) {x : Nat} (hx : x < n * c) :
    ((List.range n).flatMap piece)[x]? = (piece (x / c))[x % c]? := by
  induction n with
  | zero => omega
  | succ n ih =>
      have h' : ∀ b < n, (piece b).length = c := fun b hb => h b (Nat.lt_succ_of_lt hb)
      have hlength := length_flatMap_range n h'
      rw [List.range_succ, List.flatMap_append]
      rcases Nat.lt_or_ge x (n * c) with hlt | hge
      · rw [List.getElem?_append_left (by rw [hlength]; exact hlt), ih h' hlt]
      · have hdiv : x / c = n := Nat.div_eq_of_lt_le hge hx
        have hmod : x % c = x - n * c := by
          rw [Nat.mod_eq_sub_mul_div, hdiv, Nat.mul_comm]
        rw [List.getElem?_append_right (by rw [hlength]; exact hge), hlength, hdiv, hmod]
        simp

end Pieces

/-! ### Well-formed images -/

section Ece391fs

variable (sb : Ece391fsSuper) (inode : BitVec 32)

/-- What `ece391fs_read_inode` takes for the size of a regular file. -/
def ece391fsSize : Except Int (BitVec 32) := do
  let start ← sb.dev.seekSet ((inode.toNat + 1) * blockSize)
  .ok (BitVec.ofNat 32 (le32 (sb.dev.read start 4)))

/-- The number of a data block in an inode. -/
def blockNumber (b : Nat) : Nat :=
  le32 (sb.dev.read ((inode.toNat + 1) * blockSize + (b + 1) * 4) 4)

/-- A data block. -/
def dataBlock (k : Nat) : List Char :=
  sb.dev.read ((sb.numInode.toNat + k + 1) * blockSize) blockSize

/-- The data blocks of the inode in their order, up to the size. -/
def contents (size : BitVec 32) : List Char :=
  ((List.range ((size.toNat + (blockSize - 1)) / blockSize)).flatMap fun b =>
    dataBlock sb (blockNumber sb inode b)).take size.toNat

/-- A file of so many bytes in an image with so many data blocks. -/
structure WellFormedFile (numData : Nat) (size : BitVec 32) : Prop where
  small : sb.dev.size < 2 ^ 31
  whole : (1 + sb.numInode.toNat + numData) * blockSize ≤ sb.dev.size
  inRange : inode.toNat < sb.numInode.toNat
  sizeRead : ece391fsSize sb inode = .ok size
  fits : size.toNat ≤ 1023 * blockSize
  blocks : ∀ b, b * blockSize < size.toNat → blockNumber sb inode b < numData

end Ece391fs

section Wellformed

variable {sb : Ece391fsSuper} {inode size : BitVec 32} {numData : Nat} {stack : List Char}

theorem seekSet_ok {dev : Device} {offset : Nat} (hlt : offset < dev.size)
    (hsmall : offset < 2 ^ 31) : dev.seekSet offset = .ok offset := by
  have heq : offset % 2 ^ 32 = offset := Nat.mod_eq_of_lt (by omega)
  simp only [Device.seekSet, heq]
  rw [if_neg (by omega)]

/-- The byte of an offset lies where its block says. -/
theorem WellFormedFile.locate (h : WellFormedFile sb inode numData size) {offset : BitVec 32}
    (hlt : offset.toNat < size.toNat) :
    ece391fsLocate sb inode stack offset =
      .ok ((sb.numInode.toNat + blockNumber sb inode (offset.toNat / blockSize) + 1) *
        blockSize + offset.toNat % blockSize) := by
  obtain ⟨hsmall, hwhole, hinode, -, hfits, hblocks⟩ := h
  have hnumber := hblocks (offset.toNat / blockSize) (by
    have := Nat.div_mul_le_self offset.toNat blockSize
    omega)
  simp only [blockSize] at hwhole hfits hnumber ⊢
  have hpointer : sb.dev.seekSet ((inode.toNat + 1) * 4096 + (offset.toNat / 4096 + 1) * 4) =
      .ok ((inode.toNat + 1) * 4096 + (offset.toNat / 4096 + 1) * 4) :=
    seekSet_ok (by omega) (by omega)
  have hlength : (sb.dev.read ((inode.toNat + 1) * 4096 + (offset.toNat / 4096 + 1) * 4)
      4).length = 4 := by
    rw [length_read]
    omega
  have hid : le32 (sb.dev.read ((inode.toNat + 1) * 4096 + (offset.toNat / 4096 + 1) * 4) 4 ++
      stack.drop 4) = blockNumber sb inode (offset.toNat / 4096) := by
    simp only [le32, blockNumber, blockSize]
    rw [List.take_append_of_le_length (Nat.le_of_eq hlength.symm)]
  simp only [ece391fsLocate, blockSize, hpointer, bind, Except.bind, hlength, hid]
  exact seekSet_ok (by omega) (by omega)

theorem WellFormedFile.length_dataBlock
    (h : WellFormedFile sb inode numData size) {b : Nat} (hb : b * blockSize < size.toNat) :
    (dataBlock sb (blockNumber sb inode b)).length = blockSize := by
  have hwhole := h.whole
  have hnumber := h.blocks b hb
  rw [dataBlock, length_read]
  simp only [blockSize] at hwhole ⊢
  omega

/-- Every block of the contents is a full one. -/
theorem WellFormedFile.full_dataBlocks (h : WellFormedFile sb inode numData size) :
    ∀ b < (size.toNat + (blockSize - 1)) / blockSize,
      (dataBlock sb (blockNumber sb inode b)).length = blockSize := by
  intro b hb
  refine h.length_dataBlock ?_
  simp only [blockSize] at hb ⊢
  omega

/-- The contents have the size of the file. -/
theorem WellFormedFile.length_contents (h : WellFormedFile sb inode numData size) :
    (contents sb inode size).length = size.toNat := by
  rw [contents, List.length_take, length_flatMap_range _ h.full_dataBlocks]
  simp only [blockSize]
  omega

/-- At every offset the file has the byte of its contents. -/
theorem WellFormedFile.byte_eq
    (h : WellFormedFile sb inode numData size) {offset : BitVec 32}
    (hlt : offset.toNat < size.toNat) :
    ece391fsByte sb inode stack offset = (contents sb inode size)[offset.toNat]? := by
  have hx : offset.toNat < (size.toNat + (blockSize - 1)) / blockSize * blockSize := by
    simp only [blockSize]
    omega
  have hb : offset.toNat / blockSize * blockSize < size.toNat :=
    Nat.lt_of_le_of_lt (Nat.div_mul_le_self _ _) hlt
  have hoff : offset.toNat % blockSize < min blockSize (sb.dev.size -
      (sb.numInode.toNat + blockNumber sb inode (offset.toNat / blockSize) + 1) *
        blockSize) := by
    have hwhole := h.whole
    have hnumber := h.blocks _ hb
    simp only [blockSize] at hwhole hnumber ⊢
    omega
  rw [contents, List.getElem?_take_of_lt hlt, getElem?_flatMap_range _ h.full_dataBlocks hx,
    dataBlock, getElem?_read hoff]
  simp only [ece391fsByte, h.locate hlt]
  rfl

/-- **One read.**  It ends, with the slice of the contents at the position. -/
theorem WellFormedFile.read_eq
    (h : WellFormedFile sb inode numData size) {pos nbytes : BitVec 32} (hpos : pos ≤ size) :
    ece391fsRead sb inode stack size pos nbytes =
      some (.ok (((contents sb inode size).drop pos.toNat).take nbytes.toNat),
        pos + BitVec.ofNat 32 (min nbytes.toNat (size.toNat - pos.toNat))) := by
  have hsize := size.isLt
  obtain ⟨result, hread, houtcome⟩ :=
    ece391fsRead_outcome sb inode stack size pos nbytes
  have hlength : (((contents sb inode size).drop pos.toNat).take nbytes.toNat).length =
      (clip size pos nbytes).toNat := by
    rw [List.length_take, List.length_drop, h.length_contents, clip_toNat hpos]
  have hslice := houtcome.eq_all hlength fun i hi => by
    rw [hlength, clip_toNat hpos] at hi
    have hsum : (pos + (i : BitVec 32)).toNat = pos.toNat + i := by
      rw [BitVec.natCast_eq_ofNat, BitVec.toNat_add, BitVec.toNat_ofNat]
      omega
    rw [h.byte_eq (by rw [hsum]; omega), hsum,
      List.getElem?_take_of_lt (by omega), List.getElem?_drop]
  rw [hread, hslice, clip_toNat hpos, List.nil_append, BitVec.natCast_eq_ofNat]

end Wellformed

/-! ### Reads in a row -/

namespace File

variable (file : File)

/-- Read after read: what they return together, and the position in the end.  Each read has
the stack and the disk as it finds them. -/
def readAll : List (ReadEnv × BitVec 32) → BitVec 32 → Option (List Char × BitVec 32)
  | [], pos => some ([], pos)
  | (env, nbytes) :: rest, pos =>
      match file.read env pos nbytes with
      | some (.ok bytes, pos') =>
          (readAll rest pos').map fun result => (bytes ++ result.1, result.2)
      | _ => none

/-- The regular file of an inode. -/
def ofInode (sb : Ece391fsSuper) (inode size flags : BitVec 32) : File where
  backing := .ece391fs sb inode
  flags := flags
  mode := S_IFREG ||| 0o555
  size := size
  format := (by decide : (S_IFREG ||| 0o555) &&& S_IFMT = S_IFREG)

end File

section Slices

variable {sb : Ece391fsSuper} {inode size flags : BitVec 32} {numData : Nat}

theorem WellFormedFile.file_read
    (h : WellFormedFile sb inode numData size) (hflags : flags &&& O_WRONLY = 0)
    (env : ReadEnv) {pos : BitVec 32} (nbytes : BitVec 32) (hpos : pos ≤ size) :
    (File.ofInode sb inode size flags).read env pos nbytes =
      some (.ok (((contents sb inode size).drop pos.toNat).take nbytes.toNat),
        pos + BitVec.ofNat 32 (min nbytes.toNat (size.toNat - pos.toNat))) := by
  simp only [File.read, File.ofInode, hflags, ne_eq, not_true_eq_false, if_false]
  exact h.read_eq hpos

/-- By induction on the reads: together they are one slice. -/
theorem WellFormedFile.file_readAll
    (h : WellFormedFile sb inode numData size) (hflags : flags &&& O_WRONLY = 0)
    (requests : List (ReadEnv × BitVec 32)) {pos : BitVec 32} (hpos : pos ≤ size) :
    ∃ pos', (File.ofInode sb inode size flags).readAll requests pos =
      some (((contents sb inode size).drop pos.toNat).take
        (requests.map fun request => request.2.toNat).sum, pos') := by
  induction requests generalizing pos with
  | nil => exact ⟨pos, by simp [File.readAll]⟩
  | cons request rest ih =>
      obtain ⟨env, nbytes⟩ := request
      have hle : pos.toNat ≤ size.toNat := hpos
      have hsize := size.isLt
      have hnext : (pos + BitVec.ofNat 32 (min nbytes.toNat (size.toNat - pos.toNat))).toNat =
          pos.toNat + min nbytes.toNat (size.toNat - pos.toNat) := by
        rw [BitVec.toNat_add, BitVec.toNat_ofNat]
        omega
      have hpos' : pos + BitVec.ofNat 32 (min nbytes.toNat (size.toNat - pos.toNat)) ≤ size := by
        rw [BitVec.le_def, hnext]
        omega
      obtain ⟨pos', hrest⟩ := ih hpos'
      refine ⟨pos', ?_⟩
      simp only [File.readAll, h.file_read hflags env nbytes hpos, hrest, hnext,
        Option.map_some, List.map_cons, List.sum_cons]
      -- What is behind the first slice is what is left after it.
      have hdrop : (contents sb inode size).drop
          (pos.toNat + min nbytes.toNat (size.toNat - pos.toNat)) =
            ((contents sb inode size).drop pos.toNat).drop nbytes.toNat := by
        rw [List.drop_drop]
        rcases Nat.le_total nbytes.toNat (size.toNat - pos.toNat) with hfew | hmany
        · rw [Nat.min_eq_left hfew]
        · rw [Nat.min_eq_right hmany, List.drop_of_length_le (by rw [h.length_contents]; omega),
            List.drop_of_length_le (by rw [h.length_contents]; omega)]
      rw [hdrop, ← List.take_add]

end Slices

/-- **Reads are slices.**  In a well-formed image, wherever a run of reads and of seeks that
succeed has brought the position of a regular file, `ece391fs_read` ends and returns the
bytes of the contents from the position on, as many as are asked for or are left, and moves
the position behind them.  However a number of bytes is split into reads, these return the
same slice. -/
theorem ece391fs_reads_are_slices
    {sb : Ece391fsSuper} {inode size flags : BitVec 32} {numData : Nat}
    (h : WellFormedFile sb inode numData size) (hflags : flags &&& O_WRONLY = 0)
    {pos : BitVec 32} (hpos : (File.ofInode sb inode size flags).Reach pos) :
    (contents sb inode size).length = size.toNat ∧
      (∀ (env : ReadEnv) (nbytes : BitVec 32),
        (File.ofInode sb inode size flags).read env pos nbytes =
          some (.ok (((contents sb inode size).drop pos.toNat).take nbytes.toNat),
            pos + BitVec.ofNat 32 (min nbytes.toNat (size.toNat - pos.toNat)))) ∧
      ∀ requests : List (ReadEnv × BitVec 32), ∃ pos',
        (File.ofInode sb inode size flags).readAll requests pos =
          some (((contents sb inode size).drop pos.toNat).take
            (requests.map fun request => request.2.toNat).sum, pos') :=
  ⟨h.length_contents, fun env nbytes => h.file_read hflags env nbytes hpos.le,
    fun requests => h.file_readAll hflags requests hpos.le⟩

/-- A device with a boot block, the inode of a file of three bytes, and its data block. -/
def smallSuper : Ece391fsSuper where
  dev :=
    { size := 3 * blockSize
      bytes := fun i =>
        if i = blockSize then Char.ofNat 3
        else if i = 2 * blockSize then 'a'
        else if i = 2 * blockSize + 1 then 'b'
        else if i = 2 * blockSize + 2 then 'c'
        else nul }
  numInode := 1

theorem smallSuper_wellFormed : WellFormedFile smallSuper 0 1 3 where
  small := by decide
  whole := by decide
  inRange := by decide
  sizeRead := by decide
  fits := by decide
  blocks := by
    intro b hb
    have hzero : b = 0 := by
      simp only [blockSize] at hb
      change b * 4096 < 3 at hb
      omega
    subst hzero
    decide

/-- One byte is read, and then the rest. -/
theorem ece391fs_reads_are_slices_small :
    WellFormedFile smallSuper 0 1 3 ∧ (File.ofInode smallSuper 0 3 0).Reach 1 ∧
      ∀ env, (File.ofInode smallSuper 0 3 0).read env 1 7 = some (.ok ['b', 'c'], 3) := by
  have hreach : (File.ofInode smallSuper 0 3 0).Reach 1 :=
    .read .opened
      (by decide +kernel :
        (File.ofInode smallSuper 0 3 0).read bareEnv 0 1 = some (.ok ['a'], 1))
  have hslice : ((contents smallSuper 0 3).drop 1).take 7 = ['b', 'c'] := by decide +kernel
  refine ⟨smallSuper_wellFormed, hreach, fun env => ?_⟩
  refine ((ece391fs_reads_are_slices smallSuper_wellFormed rfl hreach).2.1 env 7).trans ?_
  exact congrArg (fun slice => some (Except.ok slice, (3 : BitVec 32))) hslice

end Fs
end JkxyKernel
