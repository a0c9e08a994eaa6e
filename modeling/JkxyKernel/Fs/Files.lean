import JkxyKernel.Fs.Readdir

/-!
# Reading and seeking files

`filp_read` and `filp_seek` of a regular file of ece391fs or ustar, and of the block devices
initrd and ATA: `default_file_seek`, `initrd_seek` and `ata_seek`, which are the same up to
the size they compare with, and the four functions that read.

The file systems read their device with `filp_seek` and `filp_read`, which is here
`Device.seekSet` and `Device.read`.  ece391fs does so block by block, and takes the number
of a block from the device without looking how much of it was read; what a short read leaves
of the number is what was on the stack.  ATA reads sector by sector, each from its cache, or
from the disk, which may fail.
-/

namespace JkxyKernel
namespace Fs

def ESPIPE : Int := 29
def EISDIR : Int := 21

def S_IFMT : Nat := 0o170000

def O_WRONLY : BitVec 32 := 0x1

/-! ### Seeking -/

def SEEK_SET : BitVec 32 := 0
def SEEK_CUR : BitVec 32 := 1
def SEEK_END : BitVec 32 := 2

/-- The new position, if it is one below the size. -/
def checkPos (size newPos : BitVec 32) : Except Int (BitVec 32) :=
  if size ≤ newPos ∨ newPos.toInt < 0 then .error (-EINVAL) else .ok newPos

/-- What the three functions that seek have in common. -/
def seekTo (size pos offset whence : BitVec 32) : Except Int (BitVec 32) :=
  if whence = SEEK_SET then checkPos size offset
  else if whence = SEEK_CUR then checkPos size (pos + offset)
  else if whence = SEEK_END then checkPos size (size + offset)
  else .error (-EINVAL)

/-- `default_file_seek` -/
def defaultFileSeek (mode : Nat) (size pos offset whence : BitVec 32) :
    Except Int (BitVec 32) :=
  if mode &&& S_IFMT ≠ S_IFREG then .error (-ESPIPE) else seekTo size pos offset whence

/-- `initrd_seek` -/
def initrdSeek (size pos offset whence : BitVec 32) : Except Int (BitVec 32) :=
  seekTo size pos offset whence

/-- `ata_seek` -/
def ataSeek (prtSize pos offset whence : BitVec 32) : Except Int (BitVec 32) :=
  seekTo prtSize pos offset whence

/-! ### Reading -/

/-- What a read comes to: the bytes in the buffer, or an error, and the new position. -/
abbrev ReadResult := Except Int (List Char) × BitVec 32

/-- How many bytes are asked for, up to the end of the file. -/
def clip (size pos nbytes : BitVec 32) : BitVec 32 :=
  if size - pos < nbytes then size - pos else nbytes

/-- `BLOCK_SIZE` -/
def blockSize : Nat := 4096

/-- `struct super_block` of ece391fs: the device, and the number of inodes from the boot
block. -/
structure Ece391fsSuper where
  dev : Device
  numInode : BitVec 32

section Ece391fs

variable (sb : Ece391fsSuper) (inode : BitVec 32) (stack : List Char)

/-- `ece391fs_read_data`; `stack` is what `block_id` holds at first. -/
def ece391fsReadData (offset length : BitVec 32) : Except Int (List Char) := do
  let start ← sb.dev.seekSet
    ((inode.toNat + 1) * blockSize + (offset.toNat / blockSize + 1) * 4)
  let bytes := sb.dev.read start 4
  let blockId := le32 (bytes ++ stack.drop bytes.length)
  let start ← sb.dev.seekSet
    ((sb.numInode.toNat + blockId + 1) * blockSize + offset.toNat % blockSize)
  let rest := blockSize - offset.toNat % blockSize
  .ok (sb.dev.read start (if rest < length.toNat then rest else length.toNat))

/-- The loop of `ece391fs_read`, for a number of rounds. -/
def ece391fsReadLoop : Nat → BitVec 32 → BitVec 32 → List Char → Option ReadResult
  | 0, _, _, _ => none
  | rounds + 1, pos, nbytes, buf =>
      if nbytes = 0 then some (.ok buf, pos)
      else
        match ece391fsReadData sb inode stack pos nbytes with
        | .error e => some (.error e, pos)
        | .ok bytes =>
            ece391fsReadLoop rounds (pos + BitVec.ofNat 32 bytes.length)
              (nbytes - BitVec.ofNat 32 bytes.length) (buf ++ bytes)

/-- `ece391fs_read` -/
def ece391fsRead (size pos nbytes : BitVec 32) : Option ReadResult :=
  ece391fsReadLoop sb inode stack ((clip size pos nbytes).toNat + 1) pos
    (clip size pos nbytes) []

end Ece391fs

/-- `ustar_read` -/
def ustarRead (dev : Device) (sectorNum size pos nbytes : BitVec 32) : ReadResult :=
  let nbytes := clip size pos nbytes
  if nbytes = 0 then (.ok [], pos)
  else
    match dev.seekSet ((sectorNum.toNat + 1) * sectorSize + pos.toNat) with
    | .error e => (.error e, pos)
    | .ok start =>
        let bytes := dev.read start nbytes.toNat
        (.ok bytes, pos + BitVec.ofNat 32 bytes.length)

/-- `initrd_read` -/
def initrdRead (startAddr : Nat → Char) (size pos nbytes : BitVec 32) : ReadResult :=
  let nbytes := clip size pos nbytes
  (.ok ((List.range nbytes.toNat).map fun i => startAddr (pos.toNat + i)), pos + nbytes)

section Ata

variable (sector : Nat → Except Int (Nat → Char))

/-- The loop of `ata_read`, for a number of rounds; `sector` is what comes of a sector. -/
def ataReadLoop : Nat → BitVec 32 → BitVec 32 → List Char → Option ReadResult
  | 0, _, _, _ => none
  | rounds + 1, pos, nbytes, buf =>
      if nbytes = 0 then some (.ok buf, pos)
      else
        match sector (pos.toNat / sectorSize) with
        | .error e => some (.error e, pos)
        | .ok head =>
            let rest := BitVec.ofNat 32 (sectorSize - pos.toNat % sectorSize)
            let inner := if nbytes < rest then nbytes else rest
            ataReadLoop rounds (pos + inner) (nbytes - inner)
              (buf ++ (List.range inner.toNat).map fun i =>
                head (pos.toNat % sectorSize + i))

/-- `ata_read` -/
def ataRead (prtSize pos nbytes : BitVec 32) : Option ReadResult :=
  if clip prtSize pos nbytes = 0 then some (.ok [], pos)
  else
    ataReadLoop sector ((clip prtSize pos nbytes).toNat + 1) pos (clip prtSize pos nbytes) []

end Ata

/-! ### Files -/

/-- Whose operations a file has. -/
inductive Backing
  | ece391fs (sb : Ece391fsSuper) (inode : BitVec 32)
  | ustar (dev : Device) (sectorNum : BitVec 32)
  | initrd (startAddr : Nat → Char)
  | ata

/-- The type of a file: regular, or a block device. -/
def Backing.format : Backing → Nat
  | .ece391fs .. | .ustar .. => S_IFREG
  | .initrd _ | .ata => S_IFBLK

/-- `struct file`; `size` is what is compared with when it seeks. -/
structure File where
  backing : Backing
  flags : BitVec 32
  mode : Nat
  size : BitVec 32
  format : mode &&& S_IFMT = backing.format

/-- What a read depends on besides the file. -/
structure ReadEnv where
  stack : List Char
  sector : Nat → Except Int (Nat → Char)

namespace File

variable (file : File)

/-- `filp_seek` -/
def seek (pos offset whence : BitVec 32) : Except Int (BitVec 32) :=
  if file.mode &&& S_IFMT = S_IFDIR then .error (-EISDIR)
  else
    match file.backing with
    | .ece391fs .. | .ustar .. => defaultFileSeek file.mode file.size pos offset whence
    | .initrd _ => initrdSeek file.size pos offset whence
    | .ata => ataSeek file.size pos offset whence

/-- `filp_read`; the file is no directory. -/
def read (env : ReadEnv) (pos nbytes : BitVec 32) : Option ReadResult :=
  if file.flags &&& O_WRONLY ≠ 0 then some (.error (-EINVAL), pos)
  else
    match file.backing with
    | .ece391fs sb inode => ece391fsRead sb inode env.stack file.size pos nbytes
    | .ustar dev sectorNum => some (ustarRead dev sectorNum file.size pos nbytes)
    | .initrd startAddr => some (initrdRead startAddr file.size pos nbytes)
    | .ata => ataRead env.sector file.size pos nbytes

/-- The positions that an open file comes to, by reads and seeks that succeed. -/
inductive Reach : BitVec 32 → Prop
  | opened : Reach 0
  | read {env : ReadEnv} {pos pos' nbytes : BitVec 32} {bytes : List Char} :
      Reach pos → file.read env pos nbytes = some (.ok bytes, pos') → Reach pos'
  | seek {pos pos' offset whence : BitVec 32} :
      Reach pos → file.seek pos offset whence = .ok pos' → Reach pos'

end File
end Fs
end JkxyKernel
