import JkxyKernel.Fs.DirectoryListing
import Mathlib.Data.List.TakeWhile

/-!
# Lookups in an archive

`ustar_ino_lookup` goes from header to header, and takes the first whose path is a direct
child of the directory and has the name for its last component; `ustar_read_inode` sets the
inode up from the fields of that header.  The memory in which the headers were compared is
kept beside the result.

A header that fills its name or its prefix has no zero there, and the string goes on in what
follows.  So the lookup is that of the archive, and stays within the fields, exactly when no
header on the way is full, and the last one lies where the device can be sought.
-/

namespace JkxyKernel
namespace Fs

open Vfs (Path)

/-! ### Inodes -/

/-- `struct ustar_inode_info` and the fields of the inode that are set.  The type of the
file is in the mode. -/
structure UstarInode where
  sectorNum : Nat
  path : Path
  ino : Nat
  nlink : Nat
  mode : Nat
  uid : Nat
  gid : Nat
  atime : Nat
  mtime : Nat
  ctime : Nat
  size : Nat
  rdev : Nat
  deriving DecidableEq, Repr

/-- `MKDEV` -/
def mkdev (major minor : Nat) : Nat := (major * 2 ^ 8) % 2 ^ 32 ||| minor

/-- Where `mode` is in `struct ustar_metadata`. -/
def modeOffset : Nat := 100

def uidOffset : Nat := 108

def gidOffset : Nat := 116

def mtimeOffset : Nat := 136

def devMajorOffset : Nat := 329

def devMinorOffset : Nat := 337

/-- `ustar_read_inode`, for an inode that has its `struct ustar_inode_info`. -/
def ustarReadInode (sectorNum : Nat) (path : Path) (metadata : List Char) : UstarInode :=
  let time := oct2bin (metadata.drop mtimeOffset) 12
  let type := metadata.getD typeOffset nul
  { sectorNum := sectorNum
    path := path
    ino := ino sectorNum
    nlink := 1
    mode := oct2bin (metadata.drop modeOffset) 8 % 2 ^ 16 ||| (ustarType type).getD 0
    uid := oct2bin (metadata.drop uidOffset) 8
    gid := oct2bin (metadata.drop gidOffset) 8
    atime := time
    mtime := time
    ctime := time
    size := if type = nul ∨ type = '0' then oct2bin (metadata.drop sizeOffset) 12 else 0
    rdev := if type = '3' ∨ type = '4' then
        mkdev (oct2bin (metadata.drop devMajorOffset) 8)
          (oct2bin (metadata.drop devMinorOffset) 8)
      else 0 }

/-! ### The lookup -/

/-- A lookup returns an inode or an error; beside it is the memory from `info->metadata` on,
as it was at each comparison. -/
structure LookupResult where
  compared : List (List Char)
  result : Except Int UstarInode

/-- One more comparison before the others. -/
def LookupResult.after (info : List Char) (r : LookupResult) : LookupResult :=
  { r with compared := info :: r.compared }

/-- The loop of `ustar_ino_lookup`; `info` is the memory from `info->metadata` on. -/
def ustarLookupLoop (dev : Device) (parent : Path) (name : List Char) :
    Nat → List Char → Nat → Except ReaddirFault LookupResult
  | 0, _, _ => .error .hang
  | rounds + 1, info, sectorNum =>
      match dev.seekSet (sectorNum * sectorSize) with
      | .error e => .ok ⟨[], .error e⟩
      | .ok start =>
          let bytes := dev.read start metadataSize
          let info := bytes ++ info.drop bytes.length
          -- no name: the end of the archive
          if cstring info = [] then .ok ⟨[], .error (-ENOENT)⟩
          else
            match ustarInodePath (cstring info) (cstring (info.drop prefixOffset)) with
            | none => .error .null
            | some path =>
                let next := (sectorNum + headerSectors info) % 2 ^ 32
                if isDirectDecendent parent path then
                  match path.components.getLast? with
                  | none => .error .null
                  | some last =>
                      if last = name then
                        .ok ⟨[info], .ok (ustarReadInode sectorNum path info)⟩
                      else
                        (ustarLookupLoop dev parent name rounds info next).map
                          (LookupResult.after info)
                else
                  (ustarLookupLoop dev parent name rounds info next).map
                    (LookupResult.after info)

/-- `ustar_ino_lookup` in a directory of this path; `info` is what `kmalloc` returns, and
what follows it. -/
def ustarInoLookup (dev : Device) (parent : Path) (name info : List Char) :
    Except ReaddirFault LookupResult :=
  ustarLookupLoop dev parent name (2 ^ 32) info 0

/-! ### What is in the archive -/

/-- The number that an octal field begins with, in 32 bits. -/
def fieldNumber (bytes : List Char) : Nat := octal (bytes.takeWhile isOctal) % 2 ^ 32

/-- The inode of a header in a sector. -/
def Header.inode (h : Header) (pos : Nat) : UstarInode where
  sectorNum := pos
  path := h.path
  ino := ino pos
  nlink := 1
  mode := fieldNumber (h.owner.take 8) % 2 ^ 16 ||| (ustarType h.type).getD 0
  uid := fieldNumber ((h.owner.drop 8).take 8)
  gid := fieldNumber ((h.owner.drop 16).take 8)
  atime := fieldNumber (h.times.take 12)
  mtime := fieldNumber (h.times.take 12)
  ctime := fieldNumber (h.times.take 12)
  size := if h.type = nul ∨ h.type = '0' then octal h.sizeDigits else 0
  rdev := if h.type = '3' ∨ h.type = '4' then
      mkdev (fieldNumber ((h.others.drop 172).take 8)) (fieldNumber ((h.others.drop 180).take 8))
    else 0

namespace Header

variable {h : Header}

end Header

section Loop

variable {dev : Device} {parent : Path} {name info : List Char} {rounds pos : Nat}
variable {h : Header} {headers : List Header}

end Loop

end Fs
end JkxyKernel
