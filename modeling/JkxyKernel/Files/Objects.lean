import JkxyKernel.Structure.Array
import JkxyKernel.Vfs.Mounting

/-!
# Files and what they hold on to

An open file holds on to its path, and through that to a mount, to its inode, and, if it is one of
a terminal, to the terminal.  A mount holds on to the path it is at, to its root inode, and
through its superblock to the file of its device.  Each of them counts who holds on to it, and
goes with the last one.

An inode points to its superblock without being counted there.  `stale` records that `put_inode`
has found a superblock that was freed.

What is made later has a larger number.  What an object holds on to is older than the object.
-/

namespace JkxyKernel
namespace Files

open Vfs (FsType)

abbrev FileId := Nat
abbrev InodeId := Nat
abbrev MountId := Nat
abbrev TtyId := Nat

/-- What ends a run. -/
inductive Stop
  | fault (fault : Fault)
  /-- A loop goes on for longer than its rounds. -/
  | hang
  deriving DecidableEq, Repr

/-- `struct file` -/
structure File where
  refcount : Int
  /-- `path->mnt` -/
  mnt : Option MountId
  inode : InodeId
  /-- The vendor object of a terminal; others belong to the file alone. -/
  tty : Option TtyId
  deriving DecidableEq, Repr

/-- `struct inode` -/
structure Inode where
  refcount : Int
  /-- The superblock is that of a mount, or `dummy_sb`. -/
  sb : Option MountId
  deriving DecidableEq, Repr

/-- `struct mount`, with its superblock. -/
structure Mount where
  refcount : Int
  /-- `path->mnt` -/
  mnt : Option MountId
  root : InodeId
  dev : FileId
  op : FsType
  deriving DecidableEq

/-- What is allocated, the mount table, and the superblocks that are freed. -/
structure Objects where
  files : FileId → Option File
  inodes : InodeId → Option Inode
  mounts : MountId → Option Mount
  /-- A terminal is its count. -/
  ttys : TtyId → Option Int
  listed : MountId → Bool
  sbFreed : MountId → Bool
  stale : Bool
  /-- The number of what is made next. -/
  next : Nat

/-- What is counted. -/
inductive Obj
  | file (f : FileId)
  | inode (i : InodeId)
  | mount (m : MountId)
  | tty (x : TtyId)
  deriving DecidableEq, Repr

/-- Its number. -/
def Obj.id : Obj → Nat
  | .file f => f
  | .inode i => i
  | .mount m => m
  | .tty x => x

namespace Objects

/-- There is nothing. -/
def boot : Objects where
  files _ := none
  inodes _ := none
  mounts _ := none
  ttys _ := none
  listed _ := false
  sbFreed _ := false
  stale := false
  next := 0

variable (s : Objects)

/-! ### Counts -/

/-- The count of an object that is allocated. -/
def count : Obj → Option Int
  | .file f => (s.files f).map File.refcount
  | .inode i => (s.inodes i).map Inode.refcount
  | .mount m => (s.mounts m).map Mount.refcount
  | .tty x => s.ttys x

/-- Another count. -/
def setCount (o : Obj) (n : Int) : Objects :=
  match o with
  | .file f =>
      { s with
        files := Function.update s.files f ((s.files f).map fun file => { file with refcount := n }) }
  | .inode i =>
      { s with
        inodes := Function.update s.inodes i
          ((s.inodes i).map fun inode => { inode with refcount := n }) }
  | .mount m =>
      { s with
        mounts := Function.update s.mounts m
          ((s.mounts m).map fun mount => { mount with refcount := n }) }
  | .tty x => { s with ttys := Function.update s.ttys x ((s.ttys x).map fun _ => n) }

/-- `kfree` -/
def remove (o : Obj) : Objects :=
  match o with
  | .file f => { s with files := Function.update s.files f none }
  | .inode i => { s with inodes := Function.update s.inodes i none }
  | .mount m => { s with mounts := Function.update s.mounts m none }
  | .tty x => { s with ttys := Function.update s.ttys x none }

/-- `atomic_inc` -/
def get (o : Obj) : Except Stop Objects :=
  match s.count o with
  | none => .error (.fault .useAfterFree)
  | some n => .ok (s.setCount o (n + 1))

/-- What `put_inode` finds at `inode->sb`. -/
def look : Obj → Objects
  | .inode i =>
      { s with stale := s.stale || (s.inodes i).any fun inode => inode.sb.any s.sbFreed }
  | _ => s

/-! ### The last reference

The block of a file or of a mount is freed at the end; nothing gets to it in between. -/

section Last

variable (put : Objects → Obj → Except Stop Objects)

/-- A reference that may be there. -/
def putOpt : Option Obj → Except Stop Objects
  | none => .ok s
  | some o => put s o

/-- The end of `filp_close`: `release`, `path_destroy` and `put_inode`. -/
def lastOfFile (file : File) : Except Stop Objects := do
  let s ← s.putOpt put (file.tty.map .tty)
  let s ← s.putOpt put (file.mnt.map .mount)
  put s (.inode file.inode)

/-- `put_super`; that of ece391fs does not close the device. -/
def putSuper (mount : Mount) : Except Stop Objects :=
  match mount.op with
  | .ece391fs => .ok s
  | .ustar | .dummy => put s (.file mount.dev)

/-- The end of `put_mount`. -/
def lastOfMount (m : MountId) (mount : Mount) : Except Stop Objects := do
  let s ← put s (.inode mount.root)
  let s ← s.putOpt put (mount.mnt.map .mount)
  let s ← s.putSuper put mount
  .ok { s with sbFreed := Function.update s.sbFreed m true }

/-- What goes with an object. -/
def last (o : Obj) : Except Stop Objects :=
  match o with
  | .file f =>
      match s.files f with
      | none => .error (.fault .useAfterFree)
      | some file => (s.remove o).lastOfFile put file
  | .mount m =>
      match s.mounts m with
      | none => .error (.fault .useAfterFree)
      | some mount => (s.remove o).lastOfMount put m mount
  | .inode _ | .tty _ => .ok (s.remove o)

end Last

/-- `filp_close`, `put_inode`, `put_mount` and `tty_put`, for a number of rounds. -/
def putLoop : Nat → Objects → Obj → Except Stop Objects
  | 0, _, _ => .error .hang
  | rounds + 1, s, o =>
      match s.count o with
      | none => .error (.fault .useAfterFree)
      | some n =>
          if n - 1 ≠ 0 then .ok ((s.look o).setCount o (n - 1))
          else (s.look o).last (putLoop rounds) o

/-- An object holds on to older ones only. -/
def put (o : Obj) : Except Stop Objects := putLoop (o.id + 1) s o

/-- `filp_close` -/
def filpClose (f : FileId) : Except Stop Objects := s.put (.file f)

/-- `put_inode` -/
def putInode (i : InodeId) : Except Stop Objects := s.put (.inode i)

/-- `path_destroy`, of a path with this mount. -/
def pathDestroy (mnt : Option MountId) : Except Stop Objects := s.putOpt put (mnt.map .mount)

/-- A path takes a reference to its mount. -/
def pathTake (mnt : Option MountId) : Except Stop Objects :=
  match mnt with
  | none => .ok s
  | some m => s.get (.mount m)

/-! ### New objects -/

/-- A new file, with one reference; the references it holds on to are handed over. -/
def makeFile (mnt : Option MountId) (i : InodeId) (tty : Option TtyId) : Objects :=
  { s with
    files := Function.update s.files s.next (some ⟨1, mnt, i, tty⟩)
    next := s.next + 1 }

def makeInode (sb : Option MountId) : Objects :=
  { s with
    inodes := Function.update s.inodes s.next (some ⟨1, sb⟩)
    next := s.next + 1 }

def makeTty : Objects :=
  { s with
    ttys := Function.update s.ttys s.next (some 1)
    next := s.next + 1 }

/-! ### `inode_open` -/

/-- What `inode_open` finds behind `resolve_mount`. -/
inductive Answer
  /-- `path_checkmnt` fails, or comes to no mount. -/
  | noMount
  /-- So many components are found in the mount, then something fails. -/
  | fails (m : MountId) (components : Nat)
  /-- There is a symbolic link; an absolute one leaves the mount. -/
  | link (m : MountId) (components : Nat) (absolute : Bool) (next : Answer)
  | found (m : MountId) (components : Nat)
  deriving DecidableEq, Repr

/-- The loop over the components: each inode makes room for the next. -/
def walk : Nat → Objects → InodeId → Except Stop (Objects × InodeId)
  | 0, s, i => .ok (s, i)
  | components + 1, s, i =>
      match s.inodes i with
      | none => .error (.fault .useAfterFree)
      | some inode => do
          let s' ← (s.makeInode inode.sb).putInode i
          walk components s' s.next

/-- From `path_checkmnt` to the last component, for a path that has been made. -/
def enter (premount : Option MountId) (m : MountId) (components : Nat) :
    Except Stop (Objects × InodeId) := do
  let s ← s.pathTake (some m)
  let s ← s.pathDestroy premount
  match s.mounts m with
  | none => .error (.fault .useAfterFree)
  | some mount => do
      let s ← s.get (.inode mount.root)
      walk components s mount.root

/-- What is behind `resolve_mount`: the inode, and the mount of the path. -/
def resolveMount : Answer → Objects → Option MountId →
    Except Stop (Objects × Option (InodeId × MountId))
  | .noMount, s, premount => do
      let s ← s.pathDestroy premount
      .ok (s, none)
  | .fails m components, s, premount => do
      let (s, i) ← s.enter premount m components
      let s ← s.putInode i
      let s ← s.pathDestroy (some m)
      .ok (s, none)
  | .found m components, s, premount => do
      let (s, i) ← s.enter premount m components
      .ok (s, some (i, m))
  | .link m components absolute next, s, premount => do
      let (s, i) ← s.enter premount m components
      let target := if absolute then none else some m
      let s ← s.pathTake target
      let s ← s.pathDestroy (some m)
      let s ← s.putInode i
      resolveMount next s target

/-- `inode_open`, for a string that becomes a path with this mount. -/
def inodeOpen (dir : Option MountId) (answer : Answer) :
    Except Stop (Objects × Option (InodeId × MountId)) := do
  let s ← s.pathTake dir
  resolveMount answer s dir

/-- What becomes of an open behind `inode_open`. -/
inductive Opening
  /-- There are no operations, or there is no memory for the file. -/
  | fails
  /-- `open` of the file fails. -/
  | refused
  | plain
  /-- The file of a terminal, which `tty_get` makes if it is not there. -/
  | tty (x : TtyId)
  deriving DecidableEq, Repr

/-- Is there no file? -/
def Opening.failed : Opening → Bool
  | .fails | .refused => true
  | .plain | .tty _ => false

/-- `open` of the file: the vendor object, if it is a terminal. -/
def openVendor : Opening → Except Stop (Objects × Option TtyId)
  | .fails | .refused | .plain => .ok (s, none)
  | .tty x =>
      match s.ttys x with
      | none => .ok (s.makeTty, some s.next)
      | some _ => do
          let s ← s.get (.tty x)
          .ok (s, some x)

/-- `filp_openat`; when it fails behind `inode_open` it forgets the path. -/
def filpOpenat (dir : Option MountId) (answer : Answer) (opening : Opening) :
    Except Stop (Objects × Option FileId) := do
  match ← s.inodeOpen dir answer with
  | (s, none) => .ok (s, none)
  | (s, some (i, m)) =>
      if opening.failed then do
        let s ← s.putInode i
        .ok (s, none)
      else do
        let (s, tty) ← s.openVendor opening
        .ok (s.makeFile (some m) i tty, some s.next)

/-- `filp_open_dummy` and `filp_open_anondevice`: the path has no mount.  When `open` of the file
fails, the inode has been counted for it. -/
def filpOpenDummy (opening : Opening) : Except Stop (Objects × Option FileId) :=
  match opening with
  | .fails => .ok (s, none)
  | .refused => .ok (s.makeInode none, none)
  | .plain | .tty _ => do
      let i := s.next
      let (s, tty) ← (s.makeInode none).openVendor opening
      .ok (s.makeFile none i tty, some s.next)

/-! ### `do_mount` and `do_umount` -/

/-- How far `do_mount` gets. -/
inductive Mounting
  /-- `init` fails, or there is no memory for the superblock. -/
  | refused
  /-- It fails behind `init`. -/
  | abandoned
  | mounted
  deriving DecidableEq, Repr

/-- A mount in the table. -/
def insert (mount : Mount) : Objects :=
  { s with
    mounts := Function.update s.mounts s.next (some mount)
    listed := Function.update s.listed s.next true
    next := s.next + 1 }

/-- `do_mount` -/
def doMount (dev : FileId) (op : FsType) (mnt : Option MountId) (mounting : Mounting) :
    Except Stop Objects :=
  match mounting with
  | .refused => .ok s
  | .abandoned => do
      let s ← s.get (.file dev)
      s.putSuper put { refcount := 0, mnt := mnt, root := 0, dev := dev, op := op }
  | .mounted => do
      let s ← s.get (.file dev)
      let s ← s.pathTake mnt
      let mount : Mount := { refcount := 1, mnt := mnt, root := s.next, dev := dev, op := op }
      .ok ((s.makeInode (some (s.next + 1))).insert mount)

/-- `do_umount`, of a path that leads to this mount: the path has a reference of its own. -/
def doUmount (m : MountId) : Except Stop Objects := do
  let s ← s.pathTake (some m)
  let s ← Objects.put { s with listed := Function.update s.listed m false } (.mount m)
  s.pathDestroy (some m)

end Objects
end Files
end JkxyKernel
