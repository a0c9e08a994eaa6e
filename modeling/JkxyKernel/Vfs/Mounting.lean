import JkxyKernel.Vfs.FailedOpens

/-!
# Mounting and unmounting

`do_mount`, `put_mount` and `do_umount`, with the `init` and `put_super` of the file-system
types.  A superblock refers to the file of its device: `default_sb_init` takes a reference,
and `default_sb_put_super` closes the file.  ece391fs has an `init` and a `put_super` of its
own around its copy of the boot block; the former ends with `default_sb_init`, and the latter
only frees the copy.

The state is that of the opens, with the superblocks of the mounts and the files of the
devices.  Mounts are numbered in the order in which they are made.
-/

namespace JkxyKernel
namespace Vfs

open Errno

/-- The types that are registered. -/
inductive FsType
  | ece391fs
  | ustar
  | dummy
  deriving DecidableEq, Repr

/-- `struct super_block` -/
structure SuperBlock where
  op : FsType
  dev : Nat
  deriving DecidableEq

/-- The `struct file` of a device. -/
structure DeviceFile where
  refcount : Int
  path : Path
  inode : Nat

/-- The mounts with all they refer to; `next` is the number of the mount to be made. -/
structure MountState (σ ν φ : Type) where
  kernel : Kernel σ ν φ
  sb : Nat → SuperBlock
  devs : Nat → DeviceFile
  next : Nat

/-- What goes wrong with an unmount. -/
inductive UmountFault
  | stop (stop : Stop)
  /-- `put_mount(NULL)` -/
  | null
  deriving DecidableEq, Repr

/-- What the device answers to the seeks and reads of ece391fs, and the type of the first
dentry. -/
structure Disk where
  seekBoot : Except Errno Unit
  readBoot : Except Errno Unit
  rootType : Nat
  seekInode : Except Errno Unit
  readInode : Except Errno Unit

/-- The allocations of `do_mount`; the last one is that of the list node. -/
structure MountMem where
  superBlock : Bool
  bootBlock : Bool
  root : Bool
  path : Alloc
  entry : Bool
  node : Bool

/-- `read_inode` of ece391fs for the root directory. -/
def ece391fsReadInode {ν : Type} (disk : Disk) (vendor : ν) : Except Errno (Node ν) :=
  match disk.rootType with
  | 0 => .ok { mode := S_IFCHR ||| 0o444, rdev := 10 <<< 8 ||| 135, vendor := vendor }
  | 1 => .ok { mode := S_IFDIR ||| 0o555, rdev := 0, vendor := vendor }
  | 2 => do
      disk.seekInode
      disk.readInode
      .ok { mode := 0o100000 ||| 0o555, rdev := 0, vendor := vendor }
  | _ => .ok { mode := 0, rdev := 0, vendor := vendor }

/-- `(*sb_op->read_inode)(root)` -/
def FsType.readInode {ν : Type} (disk : Disk) (vendor : ν) : FsType → Except Errno (Node ν)
  | .ece391fs => ece391fsReadInode disk vendor
  | .ustar => .ok { mode := S_IFDIR ||| 0o1777, rdev := 0, vendor := vendor }
  | .dummy => .ok { mode := 0, rdev := 0, vendor := vendor }

/-- A step with the kernel alone. -/
def MountState.withKernel {σ ν φ : Type} (s : MountState σ ν φ) (k : Kernel σ ν φ) :
    MountState σ ν φ :=
  { s with kernel := k }

namespace MountState

variable {σ ν φ : Type} (s : MountState σ ν φ)

/-! ### References -/

def mountCell (m : Nat) : MountCell := s.kernel.mounts.cells m

def withMounts (mounts : PathState) : MountState σ ν φ :=
  s.withKernel { s.kernel with mounts := mounts }

/-- `kfree(path)` -/
def freePath : MountState σ ν φ := s.withKernel { s.kernel with paths := s.kernel.paths - 1 }

/-- A file of a device with another count. -/
def setDev (dev : Nat) (refcount : Int) : MountState σ ν φ :=
  { s with devs := Function.update s.devs dev { s.devs dev with refcount := refcount } }

def putInode (i : Nat) : Except Stop (MountState σ ν φ) := (s.kernel.putInode i).map s.withKernel

section Put

variable (put : MountState σ ν φ → Nat → Except Stop (MountState σ ν φ))

/-- `path_destroy`, where `put` is `put_mount`. -/
def destroyPathWith (path : Path) : Except Stop (MountState σ ν φ) :=
  match path.mnt with
  | none => .ok s.freePath
  | some m => (put s m).map freePath

/-- `filp_close` of the file of a device. -/
def filpCloseWith (dev : Nat) : Except Stop (MountState σ ν φ) :=
  let file := s.devs dev
  let s := s.setDev dev (file.refcount - 1)
  if file.refcount - 1 ≠ 0 then .ok s
  else do
    let s ← s.destroyPathWith put file.path
    s.putInode file.inode

/-- `put_super`; that of ece391fs does not close the device. -/
def putSuperWith (sb : SuperBlock) : Except Stop (MountState σ ν φ) :=
  match sb.op with
  | .ece391fs => .ok s
  | .ustar | .dummy => s.filpCloseWith put sb.dev

end Put

/-- `put_mount`, for a number of rounds. -/
def putMountLoop : Nat → MountState σ ν φ → Nat → Except Stop (MountState σ ν φ)
  | 0, _, _ => .error .hang
  | rounds + 1, s, m =>
      if (s.mountCell m).freed then .error .freed
      else
        let refcount := (s.mountCell m).refcount - 1
        let s := s.withMounts (s.kernel.mounts.setCount m refcount)
        if refcount ≠ 0 then .ok s
        else do
          let s ← s.putInode (s.kernel.root m)
          let s ← s.destroyPathWith (putMountLoop rounds) (s.kernel.mounts.table.path m)
          let s := s.withMounts (s.kernel.mounts.free m)
          s.putSuperWith (putMountLoop rounds) (s.sb m)

/-- `put_mount`; a mount refers to earlier ones only. -/
def putMount (s : MountState σ ν φ) (m : Nat) : Except Stop (MountState σ ν φ) :=
  s.putMountLoop (m + 1) m

/-- `path_destroy` -/
def destroyPath (path : Path) : Except Stop (MountState σ ν φ) := s.destroyPathWith putMount path

/-- `(*sb_op->put_super)(super_block)` -/
def putSuper (sb : SuperBlock) : Except Stop (MountState σ ν φ) := s.putSuperWith putMount sb

/-! ### `do_mount` -/

/-- `default_sb_init`: the superblock has a reference to the file of its device. -/
def defaultSbInit (dev : Nat) : MountState σ ν φ := s.setDev dev ((s.devs dev).refcount + 1)

/-- `ece391fs_init` -/
def ece391fsInit (disk : Disk) (bootBlock : Bool) (dev : Nat) :
    MountState σ ν φ × Except Errno Unit :=
  if !bootBlock then (s, .error ENOMEM)
  else
    match disk.seekBoot, disk.readBoot with
    | .error e, _ => (s, .error e)
    | .ok _, .error e => (s, .error e)
    | .ok _, .ok _ => (s.defaultSbInit dev, .ok ())

/-- `(*sb_op->init)(super_block, dev)` -/
def sbInit (op : FsType) (disk : Disk) (bootBlock : Bool) (dev : Nat) :
    MountState σ ν φ × Except Errno Unit :=
  match op with
  | .ece391fs => s.ece391fsInit disk bootBlock dev
  | .ustar | .dummy => (s.defaultSbInit dev, .ok ())

/-- `err_put_sb`, with an error. -/
def abandonMount (sb : SuperBlock) (e : Errno) :
    Except Stop (MountState σ ν φ × Except Errno Unit) := do
  let s ← s.putSuper sb
  .ok (s, .error e)

/-- A mount at the end of the table, with its root inode. -/
def insertMount (sb : SuperBlock) (node : Node ν) (path : Path) : MountState σ ν φ where
  kernel :=
    { s.kernel with
      mounts :=
        { cells := Function.update s.kernel.mounts.cells s.next { refcount := 1, freed := false }
          table :=
            { entries := s.kernel.mounts.table.entries ++ [s.next]
              path := Function.update s.kernel.mounts.table.path s.next path }
          held := s.kernel.mounts.held }
      root := Function.update s.kernel.root s.next s.kernel.inodes.next
      inodes := s.kernel.inodes.make node }
  sb := Function.update s.sb s.next sb
  devs := s.devs
  next := s.next + 1

/-- `do_mount` from the copy of the path on. -/
def mountRoot (sb : SuperBlock) (node : Node ν) (path : Path) (mem : MountMem) :
    Except Stop (MountState σ ν φ × Except Errno Unit) := do
  let (k, copy) ← s.kernel.clonePath path mem.path
  let s := s.withKernel k
  match copy with
  | none => s.abandonMount sb ENOMEM
  | some copy =>
      if !mem.entry || !mem.node then do
        let s ← s.destroyPath copy
        s.abandonMount sb ENOMEM
      else .ok (s.insertMount sb node copy, .ok ())

/-- `do_mount`; `vendor` is what `read_inode` makes of the root inode. -/
def doMount (dev : Nat) (op : FsType) (path : Path) (disk : Disk) (vendor : ν)
    (mem : MountMem) : Except Stop (MountState σ ν φ × Except Errno Unit) :=
  if !mem.superBlock then .ok (s, .error ENOMEM)
  else
    match s.sbInit op disk mem.bootBlock dev with
    | (s, .error e) => .ok (s, .error e)
    | (s, .ok _) =>
        if !mem.root then s.abandonMount ⟨op, dev⟩ ENOMEM
        else
          match op.readInode disk vendor with
          | .error e => s.abandonMount ⟨op, dev⟩ e
          | .ok node => s.mountRoot ⟨op, dev⟩ node path mem

/-! ### `do_umount` -/

/-- `list_remove(&mounttable, entry)` -/
def removeMount (m : Nat) : MountState σ ν φ :=
  s.withMounts
    { s.kernel.mounts with
      table :=
        { s.kernel.mounts.table with entries := s.kernel.mounts.table.entries.filter (· ≠ m) } }

/-- `do_umount` of the path that `path_checkmnt` returned. -/
def umountAt (dest : Path) : Except UmountFault (MountState σ ν φ × Except Errno Unit) :=
  if dest.components ≠ [] then
    ((s.destroyPath dest).map fun s => (s, .error EINVAL)).mapError .stop
  else
    match dest.mnt with
    | none => .error .null
    | some m =>
        ((do
          let s ← (s.removeMount m).putMount m
          let s ← s.destroyPath dest
          .ok (s, .ok ()) : Except Stop _)).mapError .stop

/-- `do_umount` -/
def doUmount (path : Path) (mem : Alloc) :
    Except UmountFault (MountState σ ν φ × Except Errno Unit) := do
  let (k, dest) ← (s.kernel.checkmntPath path mem).mapError .stop
  match dest with
  | none => .ok (s.withKernel k, .error ENOMEM)
  | some dest => (s.withKernel k).umountAt dest

/-! ### Files in between -/

/-- `filp_close` of a file with one reference; `store` is what its device makes of it. -/
def closeFile (file : File φ) (store : σ) : Except Stop (MountState σ ν φ) := do
  let s ← (s.withKernel { s.kernel with store := store }).destroyPath file.path
  s.putInode file.inode

/-- Files are opened and closed; the list has those that are open.  No call gives up an
inode that it has found. -/
inductive Between (ops : Drivers σ ν φ) (s : MountState σ ν φ) :
    MountState σ ν φ → List (File φ) → Prop
  | start : Between ops s s []
  | opened {s' : MountState σ ν φ} {files : List (File φ)} {rounds : Nat} {c : OpenCall ν φ}
      {k : Kernel σ ν φ} {file : File φ} :
      Between ops s s' files → s'.kernel.openCall ops rounds c = .ok (k, .ok file) →
        Between ops s (s'.withKernel k) (file :: files)
  | failed {s' : MountState σ ν φ} {files : List (File φ)} {rounds : Nat} {c : OpenCall ν φ}
      {k : Kernel σ ν φ} {e : Errno} :
      Between ops s s' files → s'.kernel.openCall ops rounds c = .ok (k, .error e) →
        s'.kernel.givesUp ops rounds c = false → Between ops s (s'.withKernel k) files
  | closed {s' s'' : MountState σ ν φ} {file : File φ} {files files' : List (File φ)}
      {store : σ} :
      Between ops s s' (files ++ file :: files') → s'.closeFile file store = .ok s'' →
        Between ops s s'' (files ++ files')

end MountState
end Vfs
end JkxyKernel
