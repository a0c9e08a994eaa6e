import JkxyKernel.Vfs.MountCount
import JkxyKernel.Vfs.Parsing

/-!
# Opening files

`inode_open`, `filp_openat`, `filp_open_dummy` and `filp_open_anondevice` of `vfs/file.c`.
An open makes path objects, each with a reference to its mount, and takes references to
inodes.  The kernel below keeps the counts of the mounts and of the inodes, and the number
of path objects that are allocated.

The file systems and the devices stand behind function pointers.  They answer from a state
of their own and change no count: a file system that finds or creates a file makes a new
inode, with one reference.  Every allocation may fail.

A chain of symbolic links is followed for a number of rounds; the code has no bound.  A
freed mount would put its root inode, but an open frees no mount.
-/

namespace JkxyKernel
namespace Vfs

/-- An error number, as it is returned. -/
structure Errno where
  code : Int
  range : -133 ≤ code ∧ code < 0
  deriving DecidableEq

namespace Errno

def ENOENT : Errno := ⟨-2, by decide⟩
def ENXIO : Errno := ⟨-6, by decide⟩
def EBADF : Errno := ⟨-9, by decide⟩
def ENOMEM : Errno := ⟨-12, by decide⟩
def EEXIST : Errno := ⟨-17, by decide⟩
def EISDIR : Errno := ⟨-21, by decide⟩
def EINVAL : Errno := ⟨-22, by decide⟩
def ELOOP : Errno := ⟨-40, by decide⟩

end Errno

open Errno

def O_WRONLY : BitVec 32 := 0x1
def O_RDWR : BitVec 32 := 0x2
def O_CREAT : BitVec 32 := 0x40
def O_EXCL : BitVec 32 := 0x80
def O_NOFOLLOW : BitVec 32 := 0x20000

def S_IFMT : BitVec 16 := 0o170000
def S_IFLNK : BitVec 16 := 0o120000
def S_IFBLK : BitVec 16 := 0o060000
def S_IFDIR : BitVec 16 := 0o040000
def S_IFCHR : BitVec 16 := 0o020000

def AT_FDCWD : BitVec 32 := -100

def MAX_PATH : Nat := 260

/-- `flags & flag` -/
def hasFlag (flags flag : BitVec 32) : Bool :=
  flags &&& flag != 0

/-! ### Inodes -/

/-- `struct inode`, less its count; `vendor` stands for the operations and what they keep. -/
structure Node (ν : Type) where
  mode : BitVec 16
  rdev : BitVec 32
  vendor : ν

/-- `struct inode` -/
structure Inode (ν : Type) where
  refcount : Int
  node : Node ν

/-- The inodes that are allocated. -/
structure InodeTable (ν : Type) where
  cell : Nat → Option (Inode ν)
  next : Nat
  unused : ∀ i, next ≤ i → cell i = none

namespace InodeTable

variable {ν : Type} (t : InodeTable ν)

/-- Another content of an allocated cell. -/
def set (i : Nat) (inode : Inode ν) (new : Option (Inode ν)) (h : t.cell i = some inode) :
    InodeTable ν where
  cell := Function.update t.cell i new
  next := t.next
  unused := by
    intro j hj
    have hne : j ≠ i := by
      rintro rfl
      rw [t.unused j hj] at h
      cases h
    rw [Function.update_of_ne hne, t.unused j hj]

/-- `atomic_inc(&inode->refcount)` -/
def get (i : Nat) : Except Stop (InodeTable ν) :=
  match h : t.cell i with
  | none => .error .freed
  | some inode => .ok (t.set i inode (some { inode with refcount := inode.refcount + 1 }) h)

/-- `put_inode`; what the superblock does at the end is to free the inode. -/
def put (i : Nat) : Except Stop (InodeTable ν) :=
  match h : t.cell i with
  | none => .error .freed
  | some inode =>
      if inode.refcount - 1 ≠ 0 then
        .ok (t.set i inode (some { inode with refcount := inode.refcount - 1 }) h)
      else .ok (t.set i inode none h)

/-- A new inode, with one reference. -/
def make (node : Node ν) : InodeTable ν where
  cell := Function.update t.cell t.next (some { refcount := 1, node := node })
  next := t.next + 1
  unused := by
    intro i hi
    rw [Function.update_of_ne (by omega), t.unused i (by omega)]

/-- What is behind the number of an inode. -/
def node (i : Nat) : Option (Node ν) :=
  (t.cell i).map Inode.node

end InodeTable

/-! ### The kernel -/

/-- The code behind the function pointers. -/
structure Drivers (σ ν φ : Type) where
  lookup : Node ν → List Char → BitVec 32 → σ → Except Errno (Node ν) × σ
  create : Node ν → List Char → BitVec 32 → BitVec 16 → σ → Except Errno (Node ν) × σ
  /-- At most so many characters of the target. -/
  readlink : Node ν → Nat → σ → Except Errno (List Char) × σ
  defaultFileOps : ν → φ
  /-- `open`, for the flags of the file; the error, if any. -/
  openFile : φ → BitVec 32 → Node ν → σ → Option Errno × σ
  /-- The operations of an inode of the superblock `dummy_sb`. -/
  dummy : ν

/-- `struct dev_registry_entry` -/
structure DevEntry (φ : Type) where
  type : BitVec 16
  dev : BitVec 32
  fileOp : φ

def MINORMASK : BitVec 32 := 0xff

/-- `MINOR(dev)` -/
def minor (dev : BitVec 32) : BitVec 32 := dev &&& MINORMASK

/-- `MAJOR(dev)` -/
def major (dev : BitVec 32) : BitVec 32 := dev >>> 8

/-- `get_dev_file_op`; an entry of the last minor number is for all devices of its major
number. -/
def getDevFileOp {φ : Type} (registry : List (DevEntry φ)) (type : BitVec 16)
    (dev : BitVec 32) : Option φ :=
  (registry.find? fun entry =>
    entry.type == type &&& S_IFMT &&
      (entry.dev == dev || (minor entry.dev == MINORMASK &&
        major entry.dev == major dev))).map DevEntry.fileOp

/-- What opens read and change. -/
structure Kernel (σ ν φ : Type) where
  mounts : PathState
  /-- The root inodes of the mounts. -/
  root : Nat → Nat
  inodes : InodeTable ν
  /-- How many path objects are allocated. -/
  paths : Nat
  /-- The path of the working directory, and those of the open files. -/
  cwd : Option Path
  files : List (Option Path)
  devRegistry : List (DevEntry φ)
  /-- Is the subsystem of `current` LINUX? -/
  linux : Bool
  store : σ

/-- `struct file` -/
structure File (φ : Type) where
  op : φ
  inode : Nat
  path : Path
  flags : BitVec 32

/-- The allocations of one round of `resolve_mount`. -/
structure RoundMem where
  checkmnt : Alloc
  linkTarget : Bool
  fromstr : Alloc
  join : Alloc

/-- The allocations of `filp_openat`. -/
structure OpenMem where
  fromstr : Alloc
  premount : Alloc
  round : Nat → RoundMem
  file : Bool

/-- The allocations of `filp_open_dummy`. -/
structure DummyMem where
  path : Alloc
  inode : Bool
  file : Bool

/-- `path_fromstr` -/
def Path.fromstrMem (pathstr : List Char) (mem : Alloc) : Except Errno Path :=
  if pathstr = [] then .error ENOENT
  else if !mem.path then .error ENOMEM
  else
    match Path.extendMem (Path.start pathstr) (pathstr.splitOn '/') mem.components with
    | (path, true) => .ok path
    | (_, false) => .error ENOMEM

/-- Which error `path_join` returns for a second path. -/
def joinErrno (y : Path) : Errno :=
  if y.mnt.isSome then EINVAL else ENOMEM

namespace Kernel

variable {σ ν φ : Type} (k : Kernel σ ν φ)

/-- An operation on paths that may have made a path object. -/
def made (result : PathState × Option Path) : Kernel σ ν φ × Option Path :=
  ({ k with mounts := result.1, paths := k.paths + result.2.toList.length }, result.2)

/-- `path_fromstr` -/
def fromstr (pathstr : List Char) (mem : Alloc) : Kernel σ ν φ × Except Errno Path :=
  match Path.fromstrMem pathstr mem with
  | .error e => (k, .error e)
  | .ok path => ({ k with paths := k.paths + 1 }, .ok path)

/-- `path_clone` -/
def clonePath (old : Path) (mem : Alloc) : Except Stop (Kernel σ ν φ × Option Path) :=
  (k.mounts.clone old mem).map k.made

/-- `path_join` -/
def joinPath (x y : Path) (mem : Alloc) : Except Stop (Kernel σ ν φ × Option Path) :=
  (k.mounts.join x y mem).map k.made

/-- `path_checkmnt` -/
def checkmntPath (old : Path) (mem : Alloc) : Except Stop (Kernel σ ν φ × Option Path) :=
  (k.mounts.checkmnt old mem).map k.made

/-- `path_destroy` -/
def destroyPath (path : Path) : Except Stop (Kernel σ ν φ) :=
  (k.mounts.dropMount path.mnt).map fun mounts =>
    { k with mounts := mounts, paths := k.paths - 1 }

/-- `atomic_inc(&inode->refcount)` -/
def getInode (i : Nat) : Except Stop (Kernel σ ν φ) :=
  (k.inodes.get i).map fun inodes => { k with inodes := inodes }

/-- `put_inode` -/
def putInode (i : Nat) : Except Stop (Kernel σ ν φ) :=
  (k.inodes.put i).map fun inodes => { k with inodes := inodes }

/-- The path that a descriptor stands for: that of the working directory, or of a file. -/
def dirPath (dfd : BitVec 32) : Option Path :=
  if dfd = AT_FDCWD then k.cwd else (k.files[dfd.toNat]?).join

/-! ### `inode_open` -/

section InodeOpen

variable (ops : Drivers σ ν φ) (flags : BitVec 32) (mode : BitVec 16)

/-- The next inode of the walk, and whether it is asked to be created: only the last
component is. -/
def nextNode (dir : Node ν) (component : List Char) (last : Bool) (store : σ) :
    Except Errno (Node ν) × Bool × σ :=
  match ops.lookup dir component flags store with
  | (.error e, store) =>
      if e = ENOENT ∧ hasFlag flags O_CREAT ∧ last then
        match ops.create dir component flags mode store with
        | (res, store) => (res, true, store)
      else (.error e, false, store)
  | (.ok node, store) => (.ok node, false, store)

/-- The loop over the components; it returns the inode it holds, and whether one was
created. -/
def walk : List (List Char) → Kernel σ ν φ → Nat → Bool →
    Except Stop (Kernel σ ν φ × Nat × Except Errno Bool)
  | [], k, i, created => .ok (k, i, .ok created)
  | component :: rest, k, i, created =>
      if component = [] then walk rest k i created
      else
        match k.inodes.node i with
        | none => .error .freed
        | some dir =>
            match nextNode ops flags mode dir component rest.isEmpty k.store with
            | (.error e, _, store) => .ok ({ k with store := store }, i, .error e)
            | (.ok node, create, store) => do
                let next := k.inodes.next
                let k ← putInode { k with store := store, inodes := k.inodes.make node } i
                walk rest k next (created || create)

/-- The target of a symbolic link. -/
def readTarget (node : Node ν) (mem : RoundMem) (store : σ) : Except Errno Path × σ :=
  if !mem.linkTarget then (.error ENOMEM, store)
  else
    match ops.readlink node MAX_PATH store with
    | (.error e, store) => (.error e, store)
    | (.ok [], store) => (.error EINVAL, store)
    | (.ok text, store) =>
        (Path.fromstrMem (text.takeWhile (· ≠ '\x00')) mem.fromstr, store)

/-- Is the inode a symbolic link that the flags let be followed? -/
def follows (node : Node ν) : Bool :=
  node.mode &&& S_IFMT == S_IFLNK && !hasFlag flags O_NOFOLLOW

/-- `out_put_inode`, with an error. -/
def abandon (k : Kernel σ ν φ) (i : Nat) (dest : Path) (e : Errno) :
    Except Stop (Kernel σ ν φ × Except Errno (Nat × Path)) := do
  let k ← k.putInode i
  let k ← k.destroyPath dest
  .ok (k, .error e)

/-- A symbolic link at the end of the walk: the path to go on with. -/
def followLink (k : Kernel σ ν φ) (node : Node ν) (dest : Path) (mem : RoundMem) :
    Except Stop (Kernel σ ν φ × Except Errno Path) :=
  match readTarget ops node mem k.store with
  | (.error e, store) => .ok ({ k with store := store }, .error e)
  | (.ok rel, store) => do
      let k := { k with store := store, paths := k.paths + 1 }
      let (k, target) ←
        k.joinPath { dest with components := dest.components.dropLast } rel mem.join
      let k ← k.destroyPath rel
      .ok (k, target.elim (.error (joinErrno rel)) .ok)

/-- What is behind `resolve_mount`, for a number of rounds. -/
def resolveMount (mem : Nat → RoundMem) : Nat → Kernel σ ν φ → Path →
    Except Stop (Kernel σ ν φ × Except Errno (Nat × Path))
  | 0, _, _ => .error .hang
  | rounds + 1, k, premount => do
      let (k, dest) ← k.checkmntPath premount (mem rounds).checkmnt
      let k ← k.destroyPath premount
      match dest with
      | none => .ok (k, .error ENOMEM)
      | some dest =>
          match dest.mnt with
          | none => do
              let k ← k.destroyPath dest
              .ok (k, .error EINVAL)
          | some m => do
              let k ← k.getInode (k.root m)
              let (k, i, walked) ← walk ops flags mode dest.components k (k.root m) false
              match walked, k.inodes.node i with
              | _, none => .error .freed
              | .error e, some _ => k.abandon i dest e
              | .ok created, some node =>
                  if hasFlag flags O_EXCL && !created then k.abandon i dest EEXIST
                  else if follows flags node then
                    match ← k.followLink ops node dest (mem rounds) with
                    | (k, .error e) => k.abandon i dest e
                    | (k, .ok target) => do
                        let k ← k.destroyPath dest
                        let k ← k.putInode i
                        resolveMount mem rounds k target
                  else .ok (k, .ok (i, dest))

/-- The path that mounts are to be resolved in. -/
def premount (k : Kernel σ ν φ) (dfd : BitVec 32) (rel : Path) (mem : Alloc) :
    Except Stop (Kernel σ ν φ × Except Errno Path) :=
  if rel.absolute then do
    let (k, path) ← k.clonePath rel mem
    .ok (k, path.elim (.error ENOMEM) .ok)
  else
    match k.dirPath dfd with
    | none => .ok (k, .error EBADF)
    | some dir => do
        let (k, path) ← k.joinPath dir rel mem
        .ok (k, path.elim (.error (joinErrno rel)) .ok)

/-- `inode_open`, for a caller that asks for the path. -/
def inodeOpen (k : Kernel σ ν φ) (rounds : Nat) (dfd : BitVec 32) (path : List Char)
    (mem : OpenMem) : Except Stop (Kernel σ ν φ × Except Errno (Nat × Path)) :=
  match k.fromstr path mem.fromstr with
  | (k, .error e) => .ok (k, .error e)
  | (k, .ok rel) => do
      let (k, start) ← k.premount dfd rel mem.premount
      let (k, found) ← match start with
        | .error e => .ok (k, .error e)
        | .ok start => resolveMount ops flags mode mem.round rounds k start
      let k ← k.destroyPath rel
      .ok (k, found)

/-- What `inode_open` does between reading the string and destroying its path. -/
def openFrom (k : Kernel σ ν φ) (rounds : Nat) (dfd : BitVec 32) (rel : Path)
    (mem : OpenMem) : Except Stop (Kernel σ ν φ × Except Errno (Nat × Path)) := do
  let (k, start) ← k.premount dfd rel mem.premount
  match start with
  | .error e => .ok (k, .error e)
  | .ok start => resolveMount ops flags mode mem.round rounds k start

/-- `inode_open`; `pathOut` says whether the caller asks for the path. -/
def inodeOpenOut (k : Kernel σ ν φ) (rounds : Nat) (dfd : BitVec 32) (path : List Char)
    (mem : OpenMem) (pathOut : Bool) :
    Except Stop (Kernel σ ν φ × Except Errno (Nat × Option Path)) :=
  match k.fromstr path mem.fromstr with
  | (k, .error e) => .ok (k, .error e)
  | (k, .ok rel) => do
      match ← k.openFrom ops flags mode rounds dfd rel mem with
      | (k, .error e) => do
          let k ← k.destroyPath rel
          .ok (k, .error e)
      | (k, .ok (i, dest)) => do
          let k ← if pathOut then .ok k else k.destroyPath dest
          let k ← k.destroyPath rel
          .ok (k, .ok (i, if pathOut then some dest else none))

end InodeOpen

/-! ### The opens -/

section Files

variable (ops : Drivers σ ν φ)

/-- The `switch` of `filp_openat` over the type of the inode. -/
def fileOp (k : Kernel σ ν φ) (node : Node ν) : Except Errno φ :=
  if node.mode &&& S_IFMT = S_IFLNK then .error ELOOP
  else if node.mode &&& S_IFMT = S_IFCHR ∨ node.mode &&& S_IFMT = S_IFBLK then
    (getDevFileOp k.devRegistry node.mode node.rdev).elim (.error ENXIO) .ok
  else .ok (ops.defaultFileOps node.vendor)

/-- What `filp_openat` does with the inode it found, up to `out`. -/
def openFound (k : Kernel σ ν φ) (i : Nat) (node : Node ν) (path : Path) (flags : BitVec 32)
    (mem : Bool) : Kernel σ ν φ × Except Errno (File φ) :=
  match k.fileOp ops node with
  | .error e => (k, .error e)
  | .ok op =>
      if k.linux && node.mode &&& S_IFMT == S_IFDIR &&
          (hasFlag flags O_WRONLY || hasFlag flags O_RDWR) then (k, .error EISDIR)
      else if !mem then (k, .error ENOMEM)
      else
        match ops.openFile op flags node k.store with
        | (some e, store) => ({ k with store := store }, .error e)
        | (none, store) =>
            ({ k with store := store },
              .ok { op := op, inode := i, path := path, flags := flags })

/-- `filp_openat` -/
def openat (k : Kernel σ ν φ) (rounds : Nat) (dfd : BitVec 32) (path : List Char)
    (flags : BitVec 32) (mode : BitVec 16) (mem : OpenMem) :
    Except Stop (Kernel σ ν φ × Except Errno (File φ)) := do
  match ← k.inodeOpen ops flags mode rounds dfd path mem with
  | (k, .error e) => .ok (k, .error e)
  | (k, .ok (i, dest)) =>
      match k.inodes.node i with
      | none => .error .freed
      | some node =>
          match k.openFound ops i node dest flags mem.file with
          | (k, .error e) => do
              let k ← k.putInode i
              .ok (k, .error e)
          | (k, .ok file) => .ok (k, .ok file)

/-- `out_put_inode` of `filp_open_dummy`, with an error. -/
def abandonDummy (k : Kernel σ ν φ) (i : Nat) (path : Path) (e : Errno) :
    Except Stop (Kernel σ ν φ × Except Errno (File φ)) := do
  let k ← k.putInode i
  let k ← k.destroyPath path
  .ok (k, .error e)

/-- What `filp_open_dummy` makes of the new inode; `prepInode` says into what it is made. -/
def dummyNode (prepInode : Option (Node ν → Except Errno (Node ν))) (mode : BitVec 16) :
    Except Errno (Node ν) :=
  prepInode.elim (.ok { mode := mode, rdev := 0, vendor := ops.dummy })
    (· { mode := mode, rdev := 0, vendor := ops.dummy })

/-- `filp_open_dummy` -/
def openDummy (k : Kernel σ ν φ) (op : φ) (prepInode : Option (Node ν → Except Errno (Node ν)))
    (flags : BitVec 32) (mode : BitVec 16) (mem : DummyMem) :
    Except Stop (Kernel σ ν φ × Except Errno (File φ)) := do
  match ← k.clonePath .root mem.path with
  | (k, none) => .ok (k, .error ENOMEM)
  | (k, some path) =>
      if !mem.inode then
        let k ← k.destroyPath path
        .ok (k, .error ENOMEM)
      else
        let i := k.inodes.next
        match dummyNode ops prepInode mode with
        | .error e =>
            let blank : Node ν := { mode := mode, rdev := 0, vendor := ops.dummy }
            abandonDummy { k with inodes := k.inodes.make blank } i path e
        | .ok node =>
            let k := { k with inodes := k.inodes.make node }
            if !mem.file then k.abandonDummy i path ENOMEM
            else
              let k ← k.getInode i
              match ops.openFile op flags node k.store with
              | (some e, store) => abandonDummy { k with store := store } i path e
              | (none, store) =>
                  let k ← putInode { k with store := store } i
                  .ok (k, .ok { op := op, inode := i, path := path, flags := flags })

/-- `filp_open_anondevice` -/
def openAnondevice (k : Kernel σ ν φ) (dev flags : BitVec 32) (mode : BitVec 16)
    (mem : DummyMem) : Except Stop (Kernel σ ν φ × Except Errno (File φ)) :=
  match getDevFileOp k.devRegistry mode dev with
  | none => .ok (k, .error ENXIO)
  | some op =>
      k.openDummy ops op (some fun node => .ok { node with rdev := dev }) flags mode mem

end Files
end Kernel
end Vfs
end JkxyKernel
