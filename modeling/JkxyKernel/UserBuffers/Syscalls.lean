import JkxyKernel.SigFrame.User

/-!
# System calls on files and their user pointers

`read`, `write`, `readv`, `writev`, `getcwd`, `readlink` and `getdents64`, with a record of
what they do to user memory: the prefixes that `safe_buf` has validated, and the bytes that
are touched afterwards.

The file operations of the drivers touch an initial part of the buffer that they are given,
and no more than they are asked for.  Which part, and what they return, is left to the
`System`.
-/

namespace JkxyKernel
namespace UserBuffers

open Bytes

def EFAULT : Int := 14
def EBADF : Int := 9
def EINVAL : Int := 22

inductive Mode
  | read
  | write
  deriving DecidableEq, Repr

/-- A pointer that the process has supplied. -/
inductive Arg
  | buf
  | path
  | iov
  /-- `iov[i].iov_base` -/
  | base (i : Nat)
  deriving DecidableEq, Repr

inductive Event
  /-- `safe_buf` has returned this size. -/
  | checked (arg : Arg) (mode : Mode) (size : Nat)
  /-- The bytes from `start` up to `stop` are touched. -/
  | touched (arg : Arg) (mode : Mode) (start stop : Nat)
  deriving DecidableEq, Repr

/-- Every byte touched lies in a prefix that was validated for its pointer before. -/
def Event.covered (done : List Event) : Event → Prop
  | checked _ _ _ => True
  | touched arg mode start stop =>
      start < stop → ∃ size, checked arg mode size ∈ done ∧ stop ≤ size

/-- All events are covered, given what was done before. -/
def Confined : List Event → List Event → Prop
  | _, [] => True
  | done, e :: log => e.covered done ∧ Confined (e :: done) log

/-- What an operation of a file or an inode has done with its buffer. -/
structure Transfer (σ : Type) (nbytes : Nat) where
  res : Int
  copied : Nat
  state : σ
  copied_le : copied ≤ nbytes

/-- The kernel around the system calls. -/
structure System (σ φ ι : Type) where
  mem : σ → Mem
  addrIsSafe : σ → Addr → Mode → Bool
  /-- `array_get(&current->files->files, fd)` -/
  file : σ → Word → Option φ
  /-- `filp_read` -/
  filpRead : σ → φ → (nbytes : Nat) → Transfer σ nbytes
  /-- `filp_write` -/
  filpWrite : σ → φ → (nbytes : Nat) → Transfer σ nbytes
  /-- `inode_open`: how many bytes of the path are read behind the first, and the inode. -/
  inodeOpen : σ → Addr → Nat × Except Int ι × σ
  /-- `inode->op->readlink` -/
  readlink : σ → ι → (nbytes : Nat) → Transfer σ nbytes
  /-- The lengths of the names in a directory, from the position of the file on. -/
  names : σ → φ → List (Fin 256)
  /-- What `filp_readdir` returns, and the state behind it, after so many entries. -/
  filpReaddir : σ → φ → Nat → Int × σ
  /-- `path_resolvemnt` of the working directory: the lengths of the components. -/
  cwd : σ → Except Int (List Nat)

/-- A system call: its result, its record and the state behind it. -/
structure Run (σ : Type) where
  res : Int
  log : List Event
  state : σ

section Calls

variable {σ φ ι : Type} (sys : System σ φ ι)

/-- `safe_buf` -/
def System.safeBuf (s : σ) (buf : Addr) (nbytes : Nat) (mode : Mode) : Nat :=
  SigFrame.safeBufLoop (fun a => sys.addrIsSafe s a mode) nbytes buf nbytes

/-- `do_sys_read` and `do_sys_write` differ in the mode and in the file operation. -/
def doTransfer (mode : Mode) (op : σ → φ → (nbytes : Nat) → Transfer σ nbytes)
    (arg : Arg) (s : σ) (fd : Word) (buf : Addr) (nbytes : Word) : Run σ :=
  match sys.file s fd with
  | none => ⟨-EBADF, [], s⟩
  | some file =>
      let safeNbytes := sys.safeBuf s buf nbytes.toNat mode
      if safeNbytes = 0 ∧ nbytes ≠ 0 then ⟨-EFAULT, [.checked arg mode safeNbytes], s⟩
      else
        let t := op s file nbytes.toNat
        ⟨t.res, [.checked arg mode safeNbytes, .touched arg mode 0 t.copied], t.state⟩

/-- `do_sys_read` -/
def doSysRead (arg : Arg) (s : σ) (fd : Word) (buf : Addr) (nbytes : Word) : Run σ :=
  doTransfer sys .write sys.filpRead arg s fd buf nbytes

/-- `do_sys_write` -/
def doSysWrite (arg : Arg) (s : σ) (fd : Word) (buf : Addr) (nbytes : Word) : Run σ :=
  doTransfer sys .read sys.filpWrite arg s fd buf nbytes

/-- `read` -/
def read (s : σ) (fd : Word) (buf : Addr) (nbytes : Word) : Run σ :=
  doSysRead sys .buf s fd buf nbytes

/-- `write` -/
def write (s : σ) (fd : Word) (buf : Addr) (nbytes : Word) : Run σ :=
  doSysWrite sys .buf s fd buf nbytes

/-- `readlink` -/
def readlink (s : σ) (path buf : Addr) (nbytes : Word) : Run σ :=
  let safeNbytes := sys.safeBuf s buf nbytes.toNat .write
  let check : Event := .checked .buf .write safeNbytes
  if safeNbytes = 0 ∧ nbytes ≠ 0 then ⟨-EFAULT, [check], s⟩
  else
    let (more, inode, s₁) := sys.inodeOpen s path
    let opened : Event := .touched .path .read 0 (more + 1)
    match inode with
    | .error e => ⟨e, [check, opened], s₁⟩
    | .ok inode =>
        let t := sys.readlink s₁ inode safeNbytes
        ⟨t.res, [check, opened, .touched .buf .write 0 t.copied], t.state⟩

/-- The loop of `path_tostring`, with the bytes written and those that are left. -/
def putComponents : List Nat → Nat → Nat → Nat × Nat
  | [], ret, nbytes => (ret, nbytes)
  | len :: components, ret, nbytes =>
      if nbytes = 0 then (ret, nbytes)
      else
        let len := min len (nbytes - 1)
        putComponents components (ret + 1 + len) (nbytes - 1 - len)

/-- `struct getdents64_data`; `dirp` is the offset in the buffer. -/
structure Getdents64Data where
  dirp : Nat
  nbytes : Nat
  res : Int

/-- `sizeof(struct linux_dirent64_head)` -/
def dirent64Head : Nat := 20

/-- `offsetof(struct linux_dirent64_head, name)` -/
def dirent64Name : Nat := 19

/-- `getdents64_cb`: the new data, unless it refuses the entry, and its record. -/
def getdents64Cb (data : Getdents64Data) (namelen : Fin 256) :
    Option Getdents64Data × Int × List Event :=
  let len := dirent64Head + namelen + 1
  if len > data.nbytes then (none, if data.res = 0 then -EINVAL else data.res, [])
  else
    let res := (data.res + len).bmod 4294967296
    (some { dirp := data.dirp + len, nbytes := data.nbytes - len, res := res }, res,
      [.touched .buf .write data.dirp (data.dirp + dirent64Head),
        .touched .buf .write (data.dirp + dirent64Name) (data.dirp + dirent64Name + namelen),
        .touched .buf .write (data.dirp + dirent64Name + namelen)
          (data.dirp + dirent64Name + namelen + 1)])

/-- The entries of a directory go through the callback until it refuses one: how many were
taken, the result and the record. -/
def filldirLoop : List (Fin 256) → Getdents64Data → Nat → Nat × Int × List Event
  | [], data, taken => (taken, data.res, [])
  | namelen :: names, data, taken =>
      match getdents64Cb data namelen with
      | (none, res, log) => (taken, res, log)
      | (some data, _, log) =>
          let (taken, res, rest) := filldirLoop names data (taken + 1)
          (taken, res, log ++ rest)

/-- `getdents64` -/
def getdents64 (s : σ) (fd : Word) (dirp : Addr) (nbytes : Word) : Run σ :=
  match sys.file s fd with
  | none => ⟨-EBADF, [], s⟩
  | some file =>
      let safeNbytes := sys.safeBuf s dirp nbytes.toNat .write
      let check : Event := .checked .buf .write safeNbytes
      if nbytes ≠ 0 ∧ safeNbytes = 0 then ⟨-EFAULT, [check], s⟩
      else
        let (taken, dataRes, log) := filldirLoop (sys.names s file) ⟨0, safeNbytes, 0⟩ 0
        let (res, s₁) := sys.filpReaddir s file taken
        ⟨if res < 0 then res else dataRes, check :: log, s₁⟩

end Calls

end UserBuffers
end JkxyKernel
