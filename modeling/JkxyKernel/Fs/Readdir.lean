import JkxyKernel.Vfs.Path
import Mathlib.Algebra.Order.Ring.Int

/-!
# Reading directories

`ece391fs_readdir` and `ustar_readdir`, the callbacks of `getdents64` and of the directory
read of the ECE391 calls, and the loops between them: a file system offers its entries to
the callback one by one, and moves `file->pos` past those that are taken.

A byte is a character with a code below 256.  Strings are read up to the first zero, and
`ustar_readdir` reads its fields where they lie in memory, so a string goes on into the
next field where its own has no zero; what follows the structure in memory comes with the
call.  Allocations succeed, and a device is read without errors.
-/

namespace JkxyKernel
namespace Fs

open Vfs (Path)

def ENOENT : Int := 2
def EINVAL : Int := 22

def S_IFIFO : Nat := 0o010000
def S_IFCHR : Nat := 0o020000
def S_IFDIR : Nat := 0o040000
def S_IFBLK : Nat := 0o060000
def S_IFREG : Nat := 0o100000
def S_IFLNK : Nat := 0o120000

/-- `'\0'` -/
def nul : Char := Char.ofNat 0

/-- The string at the start of a piece of memory. -/
def cstring (mem : List Char) : List Char := mem.takeWhile (· != nul)

/-- A little-endian `uint32_t`. -/
def le32 (mem : List Char) : Nat :=
  (mem.take 4).foldr (fun c n => c.toNat + 256 * n) 0

/-- What goes wrong with a directory. -/
inductive ReaddirFault
  /-- `strlen(NULL)`, or a path that is `NULL`. -/
  | null
  | hang
  deriving DecidableEq, Repr

/-- What `filldir` is called with; the type is `none` where the code leaves it unset. -/
structure DirEntry where
  name : List Char
  offset : Nat
  ino : Nat
  type : Option Nat
  deriving DecidableEq, Repr

/-- `filldir_t`: it returns what it made of its data, and whether the entry is refused
(negative), taken as the last (positive), or taken. -/
abbrev Filldir (σ : Type) := σ → DirEntry → σ × Int

/-! ### The callbacks -/

/-- A record in the buffer of `getdents64`. -/
structure Dirent64 where
  ino : Nat
  off : Nat
  reclen : Nat
  type : Option Nat
  name : List Char
  deriving DecidableEq, Repr

/-- `struct getdents64_data`; the records in the buffer stand for `dirp`. -/
structure Getdents64Data where
  nbytes : Nat
  res : Int
  records : List Dirent64

/-- `sizeof(struct linux_dirent64_head)` -/
def dirent64Head : Nat := 20

/-- How long the record of an entry is. -/
def DirEntry.len (e : DirEntry) : Nat := dirent64Head + e.name.length + 1

/-- The record that is stored for an entry. -/
def DirEntry.record (e : DirEntry) : Dirent64 where
  ino := e.ino
  off := e.offset
  reclen := e.len % 2 ^ 16
  type := e.type.map (· % 256)
  name := e.name

/-- `getdents64_cb` -/
def getdents64Cb : Filldir Getdents64Data := fun data e =>
  if data.nbytes < e.len then
    (if data.res = 0 then { data with res := -EINVAL } else data, -EINVAL)
  else
    ({ nbytes := data.nbytes - e.len, res := data.res + e.len
       records := data.records ++ [e.record] }, 0)

/-- `ece391fs_read_dentry_by_index`: where the dentry begins in the boot block. -/
def ece391fsDentry (bootBlock : List Char) (index : Nat) : Option (List Char) :=
  if le32 bootBlock ≤ index then none else some (bootBlock.drop (64 + 64 * index))

/-- The length of a name that is not terminated within its 32 bytes, in a `uint8_t`. -/
def dentryNameLength (dentry : List Char) : Nat :=
  let len := (cstring dentry).length % 256
  if 32 < len then 32 else len

/-- The `switch` on the type of a dentry. -/
def dentryType (type : Nat) : Option Nat :=
  if type = 0 then some S_IFCHR
  else if type = 1 then some S_IFDIR
  else if type = 2 then some S_IFREG
  else none

/-- The entry for a dentry at a position. -/
def dentryEntry (dentry : List Char) (pos : Nat) : DirEntry where
  name := dentry.take (dentryNameLength dentry)
  offset := pos
  ino := le32 (dentry.drop 36)
  type := dentryType (le32 (dentry.drop 32))

/-- The loop of `ece391fs_readdir`: the data, the position and the count. -/
def ece391fsLoop {σ : Type} (bootBlock : List Char) (filldir : Filldir σ) :
    Nat → σ → Nat → Nat → Except ReaddirFault (σ × Nat × Int)
  | 0, _, _, _ => .error .hang
  | rounds + 1, data, pos, i =>
      match ece391fsDentry bootBlock pos with
      | none => .ok (data, pos, i)
      | some dentry =>
          let (data, res) := filldir data (dentryEntry dentry pos)
          if res < 0 then .ok (data, pos, i)
          else if res ≠ 0 then .ok (data, pos + 1, (i + 1 : Nat))
          else ece391fsLoop bootBlock filldir rounds data (pos + 1) (i + 1)

/-- `ece391fs_readdir` -/
def ece391fsReaddir {σ : Type} (bootBlock : List Char) (filldir : Filldir σ) (data : σ)
    (pos : Nat) : Except ReaddirFault (σ × Nat × Int) :=
  ece391fsLoop bootBlock filldir (le32 bootBlock + 1) data pos 0

/-! ### ustar -/

/-- A block device. -/
structure Device where
  size : Nat
  bytes : Nat → Char

/-- `SECTOR_SIZE` -/
def sectorSize : Nat := 512

/-- `filp_seek` on a device with `SEEK_SET`; the offset is an `int32_t`. -/
def Device.seekSet (dev : Device) (offset : Nat) : Except Int Nat :=
  let newPos := offset % 2 ^ 32
  if dev.size ≤ newPos ∨ 2 ^ 31 ≤ newPos then .error (-EINVAL) else .ok newPos

/-- `filp_read` on a device. -/
def Device.read (dev : Device) (pos nbytes : Nat) : List Char :=
  (List.range (min nbytes (dev.size - pos))).map fun i => dev.bytes (pos + i)

/-- `sizeof(struct ustar_metadata)` -/
def metadataSize : Nat := 500

/-- Where `size` is in `struct ustar_metadata`. -/
def sizeOffset : Nat := 124

/-- Where `type` is. -/
def typeOffset : Nat := 156

/-- Where `filename_prefix` is. -/
def prefixOffset : Nat := 345

/-- Is it `'0'` to `'7'`? -/
def isOctal (c : Char) : Bool := '0' ≤ c && c ≤ '7'

/-- `oct2bin` -/
def oct2bin (str : List Char) (size : Nat) : Nat :=
  ((str.take size).takeWhile isOctal).foldl
    (fun n c => (n * 8 + (c.toNat - '0'.toNat)) % 2 ^ 32) 0

/-- `size_to_sectors` -/
def sizeToSectors (size : Nat) : Nat :=
  (size + (sectorSize - 1)) % 2 ^ 32 / sectorSize + 1

/-- `INO` -/
def ino (sectorNum : Nat) : Nat := (sectorNum + 2) % 2 ^ 32

/-- `ustar_inode_path`, from the two strings. -/
def ustarInodePath (name filenamePrefix : List Char) : Option Path := do
  let path ← Path.fromstr name
  if filenamePrefix = [] then return path
  let pathPrefix ← Path.fromstr filenamePrefix
  pathPrefix.join path

/-- `path_is_direct_decendent`, where `-1` is compared with a `uint32_t`. -/
def isDirectDecendent (parent child : Path) : Bool :=
  match parent.subsumes child with
  | none => child.components.length == 0
  | some matchsize => matchsize + 1 == child.components.length

/-- The `switch` on the type of a header. -/
def ustarType (type : Char) : Option Nat :=
  if type = nul ∨ type = '0' then some S_IFREG
  else if type = '1' ∨ type = '2' then some S_IFLNK
  else if type = '3' then some S_IFCHR
  else if type = '4' then some S_IFBLK
  else if type = '5' then some S_IFDIR
  else if type = '6' then some S_IFIFO
  else none

/-- How far it is from a header to the next one. -/
def headerSectors (info : List Char) : Nat :=
  sizeToSectors (oct2bin (info.drop sizeOffset) 12)

/-- The loop of `ustar_readdir`; `info` is the memory from `info->metadata` on. -/
def ustarLoop {σ : Type} (dev : Device) (parent : Path) (filldir : Filldir σ) :
    Nat → List Char → σ → Nat → Nat → Except ReaddirFault (σ × Nat × Int)
  | 0, _, _, _, _ => .error .hang
  | rounds + 1, info, data, pos, i =>
      match dev.seekSet (pos * sectorSize) with
      | .error e => .ok (data, pos, e)
      | .ok start =>
          let bytes := dev.read start metadataSize
          let info := bytes ++ info.drop bytes.length
          -- no name: the end of the archive
          if cstring info = [] then .ok (data, pos, i)
          else
            match ustarInodePath (cstring info) (cstring (info.drop prefixOffset)) with
            | none => .error .null
            | some path =>
                let next := (pos + headerSectors info) % 2 ^ 32
                if isDirectDecendent parent path then
                  match path.components.getLast? with
                  | none => .error .null
                  | some name =>
                      let (data, res) := filldir data
                        { name := name, offset := pos, ino := ino pos
                          type := ustarType (info.getD typeOffset nul) }
                      if res < 0 then .ok (data, pos, i)
                      else if res ≠ 0 then .ok (data, next, (i + 1 : Nat))
                      else ustarLoop dev parent filldir rounds info data next (i + 1)
                else ustarLoop dev parent filldir rounds info data next i

/-- `ustar_readdir`; `info` is what `kmalloc` returns, and what follows it. -/
def ustarReaddir {σ : Type} (dev : Device) (parent : Path) (info : List Char)
    (filldir : Filldir σ) (data : σ) (pos : Nat) : Except ReaddirFault (σ × Nat × Int) :=
  ustarLoop dev parent filldir (2 ^ 32) info data pos 0

/-! ### The calls -/

/-- The `readdir` of a directory that is open, for any callback; it is given the memory
it allocates. -/
def Readdir := ∀ σ : Type, List Char → Filldir σ → σ → Nat →
  Except ReaddirFault (σ × Nat × Int)

/-- A call has the memory that will be allocated in it, and a buffer of so many bytes. -/
structure Call where
  info : List Char
  nbytes : Nat

/-- What a call returns, what it stored in the buffer, and the new position. -/
structure Reply (ρ : Type) where
  res : Int
  stored : ρ
  pos : Nat

/-- `getdents64`, once `safe_buf` has found so many bytes. -/
def getdents64 (readdir : Readdir) (pos : Nat) (call : Call) :
    Except ReaddirFault (Reply (List Dirent64)) := do
  let (data, pos, res) ←
    readdir Getdents64Data call.info getdents64Cb ⟨call.nbytes, 0, []⟩ pos
  return ⟨if res < 0 then res else data.res, data.records, pos⟩

/-- Call after call, from a position on. -/
def calls {ρ : Type} (serve : Nat → Call → Except ReaddirFault (Reply ρ)) :
    Nat → List Call → Except ReaddirFault (List (Reply ρ))
  | _, [] => .ok []
  | pos, call :: rest => do
      let reply ← serve pos call
      let replies ← calls serve reply.pos rest
      return reply :: replies

end Fs
end JkxyKernel
