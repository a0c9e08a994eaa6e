import JkxyKernel.Fs.Positions
import JkxyKernel.Lib.Bytes

/-!
# Executables

An executable is a file that `filp_seek` and `filp_read` work on.  Seeking is the same in
every file that can be sought, and leaves the position alone when it fails.  What a read
comes to depends on the file system and on the device below it: it may fail or end early, and
do so differently when it is tried again.
-/

namespace JkxyKernel
namespace Exec

open Bytes

def ENOEXEC : Word := 8

/-- What `filp_seek` returns when it fails, `-EINVAL`. -/
def seekError : Word := BitVec.ofInt 32 (-22)

/-- An open executable. -/
structure Exe where
  bytes : List Byte
  size_lt : bytes.length < 2 ^ 32
  /-- What the `k`-th `filp_read` at a position returns, and how much it writes. -/
  read : Nat → Word → Word → Word × Nat
  read_le : ∀ k pos nbytes, (read k pos nbytes).2 ≤ min nbytes.toNat (bytes.length - pos.toNat)
  read_res : ∀ k pos nbytes, (read k pos nbytes).1 = BitVec.ofNat 32 (read k pos nbytes).2 ∨
    ∃ e : Nat, 0 < e ∧ e < 4096 ∧ (read k pos nbytes).1 = - BitVec.ofNat 32 e

/-- The position of the file, and how often it has been read. -/
structure Opened where
  pos : Word
  calls : Nat
  deriving DecidableEq, Repr

/-- `struct elf_header` -/
structure ElfHeader where
  magic : List Byte
  bit : Byte
  endian : Byte
  headerVersion : Byte
  abi : Byte
  type : BitVec 16
  isa : BitVec 16
  elfVersion : Word
  entryPos : Word
  segmentPos : Word
  headerSize : BitVec 16
  segmentEntrySize : BitVec 16
  segmentEntryNum : BitVec 16
  deriving DecidableEq, Repr

/-- `struct elf_segment` -/
structure Segment where
  type : Word
  fileOffset : Word
  virtAddr : Word
  fileSize : Word
  memSize : Word
  flags : Word
  deriving DecidableEq, Repr

/-- Bytes that were read into a structure. -/
def image (data : List Byte) : Mem := store (fun _ => 0) 0 data

/-- Read a half word. -/
def short (m : Mem) (a : Addr) : BitVec 16 :=
  BitVec.ofNat 16 ((m a).toNat + 256 * (m (a + 1)).toNat)

def elfMagic : List Byte := [0x7f, 0x45, 0x4c, 0x46]

def ElfHeader.ofBytes (data : List Byte) : ElfHeader :=
  let m := image data
  { magic := [m 0, m 1, m 2, m 3]
    bit := m 4
    endian := m 5
    headerVersion := m 6
    abi := m 7
    type := short m 16
    isa := short m 18
    elfVersion := word m 20
    entryPos := word m 24
    segmentPos := word m 28
    headerSize := short m 40
    segmentEntrySize := short m 42
    segmentEntryNum := short m 44 }

def Segment.ofBytes (data : List Byte) : Segment :=
  let m := image data
  { type := wordAt m 0 0
    fileOffset := wordAt m 0 1
    virtAddr := wordAt m 0 2
    fileSize := wordAt m 0 4
    memSize := wordAt m 0 5
    flags := wordAt m 0 6 }

namespace Exe

variable (exe : Exe) (file : Opened)

def size : Word := BitVec.ofNat 32 exe.bytes.length

/-- The bytes at a position. -/
def data (pos : Word) (n : Nat) : List Byte := (exe.bytes.drop pos.toNat).take n

/-- `filp_seek(exe, offset, SEEK_SET)` -/
def filpSeek (offset : Word) : Word × Opened :=
  match Fs.seekTo exe.size file.pos offset Fs.SEEK_SET with
  | .ok newPos => (newPos, { file with pos := newPos })
  | .error e => (BitVec.ofInt 32 e, file)

/-- `filp_read`: what it returns, and what it writes. -/
def filpRead (nbytes : Word) : Word × List Byte × Opened :=
  let (res, got) := exe.read file.calls file.pos nbytes
  (res, exe.data file.pos got,
    { pos := file.pos + BitVec.ofNat 32 got, calls := file.calls + 1 })

/-- The checks of `decode_elf`. -/
def accepts (header : ElfHeader) : Bool :=
  header.magic == elfMagic && header.bit == 1 && header.endian == 1 &&
    header.headerVersion == 1 && header.abi == 0 && header.type == 2 && header.isa == 3 &&
    header.elfVersion == 1 && header.headerSize == 52 && header.segmentEntrySize == 32

/-- `decode_elf` -/
def decodeElf : Except Word (ElfHeader × Opened) :=
  let (res, file) := exe.filpSeek file 0
  if res.toInt < 0 then .error res
  else if res ≠ 0 then .error (- ENOEXEC)
  else
    let (res, data, file) := exe.filpRead file 52
    if res.toInt < 0 then .error res
    else if res ≠ 52 then .error (- ENOEXEC)
    else if accepts (ElfHeader.ofBytes data) then .ok (ElfHeader.ofBytes data, file)
    else .error (- ENOEXEC)

/-- A file in memory: reads return what is left of it. -/
def inMemory (bytes : List Byte) (size_lt : bytes.length < 2 ^ 32) : Exe where
  bytes := bytes
  size_lt := size_lt
  read _ pos nbytes :=
    (BitVec.ofNat 32 (min nbytes.toNat (bytes.length - pos.toNat)),
      min nbytes.toNat (bytes.length - pos.toNat))
  read_le _ _ _ := Nat.le_refl _
  read_res _ _ _ := .inl rfl

/-- The program header at a position. -/
def segmentAt (pos : Word) : Segment := Segment.ofBytes (exe.data pos 32)

/-! ### What seeking and reading come to -/

section Files

variable {exe : Exe} {file : Opened} {offset nbytes pos : Word} {n : Nat}

theorem length_data : (exe.data pos n).length = min n (exe.bytes.length - pos.toNat) := by
  rw [data, List.length_take, List.length_drop]

theorem getElem?_data {j : Nat} (hj : j < n) :
    (exe.data pos n)[j]? = exe.bytes[pos.toNat + j]? := by
  rw [data, List.getElem?_take_of_lt hj, List.getElem?_drop]

/-- Seeking succeeds below the size, and below 2 GiB. -/
theorem filpSeek_cases (exe : Exe) (file : Opened) (offset : Word) :
    offset.toNat < exe.bytes.length ∧ offset.toNat < 2 ^ 31 ∧
        exe.filpSeek file offset = (offset, { file with pos := offset }) ∨
      exe.filpSeek file offset = (seekError, file) := by
  have hsize : exe.size.toNat = exe.bytes.length := by
    rw [size, BitVec.toNat_ofNat, Nat.mod_eq_of_lt exe.size_lt]
  have hseek : Fs.seekTo exe.size file.pos offset Fs.SEEK_SET = Fs.checkPos exe.size offset :=
    if_pos rfl
  simp only [filpSeek, hseek]
  cases hpos : Fs.checkPos exe.size offset with
  | ok newPos =>
      obtain ⟨rfl, hlt, hsmall⟩ := Fs.checkPos_eq_ok.mp hpos
      rw [BitVec.lt_def, hsize] at hlt
      exact .inl ⟨hlt, hsmall, rfl⟩
  | error e =>
      simp only [Fs.checkPos] at hpos
      split at hpos <;> cases hpos
      exact .inr rfl

/-- A read that returns as much as was asked for. -/
theorem filpRead_full
    (h : (exe.filpRead file nbytes).1 = nbytes) (hn : nbytes.toNat < 2 ^ 32 - 4096) :
    nbytes.toNat ≤ exe.bytes.length - file.pos.toNat ∧
      exe.filpRead file nbytes = (nbytes, exe.data file.pos nbytes.toNat,
        { pos := file.pos + nbytes, calls := file.calls + 1 }) := by
  have hle := exe.read_le file.calls file.pos nbytes
  have hres : (exe.read file.calls file.pos nbytes).1 = nbytes := h
  have hgot : (exe.read file.calls file.pos nbytes).2 = nbytes.toNat := by
    rcases exe.read_res file.calls file.pos nbytes with hcount | ⟨e, hpos, hlt, herr⟩
    · rw [hres] at hcount
      have hnat := congrArg BitVec.toNat hcount
      rw [BitVec.toNat_ofNat] at hnat
      omega
    · rw [hres] at herr
      rw [herr, BitVec.toNat_neg, BitVec.toNat_ofNat] at hn
      omega
  refine ⟨by omega, ?_⟩
  simp only [filpRead, hres, hgot, BitVec.ofNat_toNat, BitVec.setWidth_eq]

end Files

end Exe

end Exec
end JkxyKernel
