import JkxyKernel.Exec.Segments
import JkxyKernel.Exec.Stack
import JkxyKernel.Task.Defs

/-!
# `do_execve`

The checks of the executable come first, and end in an error; then the task is made over, and
nothing ends in an error any more.  Loading the program may still end in `SIGSEGV`.  Between
the two the task is given a working directory if it has none.

Open files are numbers with a reference count.  What other tasks share with this one, and the
allocations, are left out: there is memory for the tables of the kernel.
-/

namespace JkxyKernel
namespace Exec

open Bytes SigFrame
open JkxyKernel.Task (Subsystem)

def EAGAIN : Int := 11

/-- A negative error code. -/
abbrev Errno := { e : Int // -4096 < e ∧ e < 0 }

/-- A `struct file *`, which may be `NULL` or an error. -/
inductive FilePtr
  | null
  | file (id : Nat)
  | err (e : Errno)
  deriving DecidableEq

/-- `struct mm_struct` -/
structure Mm where
  brk : Word
  space : Space

/-- The members of `struct task_struct` that `do_execve` looks at. -/
structure Task where
  comm : List Byte
  mm : Option Mm
  /-- The descriptors, with `cloexec`. -/
  files : Option (List (Option Nat × Bool))
  cwd : FilePtr
  exe : Option Nat
  sigactions : Nat → JkxyKernel.Task.Sigaction
  ldt : List Word
  gdtTls : List Word
  fxsaveData : Option (List Byte)
  /-- `*entry_regs` -/
  regs : Regs
  subsystem : Subsystem

/-- The task, and the reference counts of the open files. -/
structure Kernel where
  task : Task
  refcount : Nat → Nat
  /-- No file from here on has been opened. -/
  next : Nat

/-- What `do_execve` finds. -/
structure Env where
  openExe : Except Errno Exe
  /-- The last component of the executable's path. -/
  name : List Byte
  /-- What is on the stack where the magic is read to. -/
  junk : List Byte
  /-- The other tasks: whether they have an `mm`, and their subsystem. -/
  others : List (Bool × Subsystem)
  openRoot : Except Errno Unit
  /-- What memory holds where the program will be. -/
  mem : Mem
  /-- Whether there are frames, at each request. -/
  frames : Nat → Bool
  cpu : Cpu

namespace Kernel

variable (k : Kernel)

def setTask (f : Task → Task) : Kernel := { k with task := f k.task }

/-- A file is opened. -/
def opened : Kernel :=
  { k with refcount := Function.update k.refcount k.next 1, next := k.next + 1 }

/-- `filp_close` -/
def filpClose (id : Nat) : Kernel :=
  { k with refcount := Function.update k.refcount id (k.refcount id - 1) }

end Kernel

/-- `strncpy` -/
def strncpy (src : List Byte) (n : Nat) : List Byte :=
  src.take n ++ List.replicate (n - src.length) 0

def USER_CS : BitVec 16 := 0x23
def USER_DS : BitVec 16 := 0x2b

/-- The registers that a program starts with. -/
def initialRegs : Regs :=
  { User.zero.regs with
    eflags := 0x202, cs := USER_CS, ds := USER_DS, es := USER_DS, fs := USER_DS, gs := USER_DS
    ss := USER_DS }

/-! ### Before the point of no return -/

/-- An executable with three segments is taken for one of the class. -/
def subsystemOf (header : ElfHeader) : Subsystem :=
  if header.segmentEntryNum = 3 then .ece391 else .linux

/-- The checks of the executable: what is to be loaded, or an error. -/
def check (env : Env) (exe : Exe) : Except Int (ElfHeader × Subsystem × Opened) :=
  let (res, data, file) := exe.filpRead ⟨0, 0⟩ 4
  if res.toInt < 0 then .error res.toInt
  else if (data ++ env.junk.drop data.length).take 4 ≠ elfMagic then .error (- ENOEXEC).toInt
  else
    match exe.decodeElf file with
    | .error res => .error res.toInt
    | .ok (header, file) =>
        if subsystemOf header = .ece391 ∧ 6 ≤ env.others.count (true, .ece391) then
          .error (- EAGAIN)
        else .ok (header, subsystemOf header, (exe.filpSeek file 0).2)

/-- A task without a working directory is given one. -/
def openCwd (env : Env) (k : Kernel) : Kernel :=
  if k.task.cwd ≠ .null then k
  else
    match env.openRoot with
    | .ok () => k.opened.setTask fun task => { task with cwd := .file k.next }
    | .error e => k.setTask fun task => { task with cwd := .err e }

/-! ### After it -/

/-- The descriptors: those with `cloexec` are closed. -/
def closeOnExec : List (Option Nat × Bool) → Kernel → Kernel × List (Option Nat × Bool)
  | [], k => (k, [])
  | (some id, true) :: rest, k =>
      let (k, fds) := closeOnExec rest (k.filpClose id)
      (k, (none, false) :: fds)
  | fd :: rest, k =>
      let (k, fds) := closeOnExec rest k
      (k, fd :: fds)

/-- The descriptors that a task starts with. -/
def defaultFiles (subsystem : Subsystem) (k : Kernel) : Kernel × List (Option Nat × Bool) :=
  match subsystem with
  | .linux =>
      let tty := k.next
      let k := k.opened
      ({ k with refcount := Function.update k.refcount tty 3 },
        [(some tty, false), (some tty, false), (some tty, false)])
  | .ece391 => (k.opened.opened, [(some k.next, false), (some (k.next + 1), false)])

/-- The task is made over. -/
def commit (env : Env) (exe : Nat) (subsystem : Subsystem) (k : Kernel) : Kernel :=
  let k :=
    match k.task.exe with
    | some old => k.filpClose old
    | none => k
  let (k, fds) :=
    match k.task.files with
    | some fds => closeOnExec fds k
    | none => defaultFiles subsystem k
  k.setTask fun task => { task with
    regs := initialRegs
    exe := some exe
    files := some fds
    mm := some { brk := 0, space := newDirectory env.mem }
    ldt := task.ldt.map fun _ => 0
    gdtTls := task.gdtTls.map fun _ => 0
    fxsaveData := none
    sigactions := fun _ => JkxyKernel.Task.Sigaction.default
    subsystem := subsystem
    comm := strncpy env.name 15 ++ task.comm.drop 15 }

/-- A program that has been loaded. -/
structure Started where
  regs : Regs
  mm : Mm
  /-- Where in the file the program headers have been read. -/
  headers : List Word

/-- The process before anything is on its stack. -/
def emptyStack (header : ElfHeader) (space : Space) : User :=
  { User.zero with
    regs := { initialRegs with eip := header.entryPos, esp := stackPage + 0x400000 }
    mem := space.mem
    addrIsSafe := space.addrIsSafe }

@[simp] theorem emptyStack_esp {header : ElfHeader} {space : Space} :
    (emptyStack header space).regs.esp = 0x80000000 := rfl

@[simp] theorem emptyStack_mem {header : ElfHeader} {space : Space} :
    (emptyStack header space).mem = space.mem := rfl

@[simp] theorem emptyStack_addrIsSafe {header : ElfHeader} {space : Space} :
    (emptyStack header space).addrIsSafe = space.addrIsSafe := rfl

/-- `case SUBSYSTEM_LINUX` -/
def startLinux
    (env : Env) (exe : Exe) (header : ElfHeader) (file : Opened) (argv envp : Option (List CString)) :
    Except Stop Started := do
  let num := header.segmentEntryNum.toNat
  let st ← loadHeaders exe env.frames (header.segmentEntrySize.setWidth 32)
    { space := newDirectory env.mem, file := file, pos := header.segmentPos, brk := 0
      fileHdraddr := 0, headers := [] } num
  match ← st.space.requestLarge (env.frames num) stackPage 1 true with
  | none => .error .sigsegv
  | some space =>
      let u := setupStack env.cpu header st.fileHdraddr argv envp (emptyStack header space)
      .ok { regs := u.regs, mm := { brk := st.brk, space := { space with mem := u.mem } },
            headers := st.headers }

def ECE391_PAGEADDR : Addr := 0x08000000
def ECE391_MAPADDR : Addr := 0x48000
def ECE391_ARGSADDR : Addr := ECE391_PAGEADDR

/-- `case SUBSYSTEM_ECE391` -/
def startEce391 (env : Env) (exe : Exe) (file : Opened) (argv : Option (List CString)) :
    Except Stop Started := do
  let space := newDirectory env.mem
  let space := (← space.requestLarge (env.frames 0) ECE391_PAGEADDR 1 true).getD space
  let start := ECE391_PAGEADDR + ECE391_MAPADDR
  let (_, data, _) := exe.filpRead (exe.filpSeek file 0).2 (0x400000 - ECE391_MAPADDR)
  let space ← space.write start data
  if !space.mapped (start + 24) then .error .fault
  else
    let regs := { initialRegs with
      eip := word space.mem (start + 24), esp := ECE391_PAGEADDR + 0x400000 }
    let args :=
      match argv.getD [] with
      | _ :: arg :: _ => strncpy arg.bytes ECE391_MAPADDR.toNat
      | _ => [0]
    let space ← space.write ECE391_ARGSADDR args
    .ok { regs := regs, mm := { brk := 0, space := space }, headers := [] }

/-- How `do_execve` ends. -/
inductive Outcome
  | returned (ret : Int) (k : Kernel) (headers : List Word)
  /-- `SIGSEGV` is forced, and what has been loaded by then is not looked at. -/
  | forced (k : Kernel)
  | fault

/-- `do_execve` -/
def doExecve (env : Env) (argv envp : Option (List CString)) (k : Kernel) : Outcome :=
  match env.openExe with
  | .error e => .returned e k []
  | .ok exe =>
      let id := k.next
      let k := k.opened
      match check env exe with
      | .error ret => .returned ret (k.filpClose id) []
      | .ok (header, subsystem, file) =>
          let k := openCwd env k
          match k.task.cwd with
          | .err e => .returned e (k.filpClose id) []
          | _ =>
              let k := commit env id subsystem k
              let started :=
                match subsystem with
                | .linux => startLinux env exe header file argv envp
                | .ece391 => startEce391 env exe file argv
              match started with
              | .error .sigsegv => .forced k
              | .error .fault => .fault
              | .ok program =>
                  .returned 0 (k.setTask fun task => { task with
                    regs := program.regs, mm := some program.mm }) program.headers

/-! ### How it ends -/

section Outcomes

variable {env : Env} {argv envp : Option (List CString)} {k k' : Kernel} {exe : Exe} {ret : Int}
  {headers : List Word}

theorem decodeElf_neg {file : Opened} {res : Word} (h : exe.decodeElf file = .error res) :
    res.toInt < 0 := by
  simp only [Exe.decodeElf] at h
  split at h
  next hneg =>
    cases h
    exact hneg
  next =>
    split at h
    next =>
      cases h
      decide
    next =>
      split at h
      next hneg =>
        cases h
        exact hneg
      next =>
        split at h
        next =>
          cases h
          decide
        next =>
          split at h
          next => cases h
          next =>
            cases h
            decide

theorem accepts_of_decodeElf
    {file file' : Opened} {header : ElfHeader} (h : exe.decodeElf file = .ok (header, file')) :
    Exe.accepts header = true := by
  simp only [Exe.decodeElf] at h
  split at h
  next => cases h
  next =>
    split at h
    next => cases h
    next =>
      split at h
      next => cases h
      next =>
        split at h
        next => cases h
        next =>
          split at h
          next haccepts =>
            cases h
            exact haccepts
          next => cases h

/-- What passes the checks has been decoded. -/
theorem decodeElf_of_check
    {header : ElfHeader} {subsystem : Subsystem} {file : Opened}
    (h : check env exe = .ok (header, subsystem, file)) :
    ∃ file₀ file₁, exe.decodeElf file₀ = .ok (header, file₁) := by
  simp only [check] at h
  split at h
  next => cases h
  next =>
    split at h
    next => cases h
    next =>
      split at h
      next => cases h
      next header' file₁ hdecode =>
        split at h
        next => cases h
        next =>
          cases h
          exact ⟨_, _, hdecode⟩

theorem check_neg (h : check env exe = .error ret) : ret < 0 := by
  simp only [check] at h
  split at h
  next hneg =>
    cases h
    exact hneg
  next =>
    split at h
    next =>
      cases h
      decide
    next =>
      split at h
      next res hdecode =>
        cases h
        exact decodeElf_neg hdecode
      next =>
        split at h
        next =>
          cases h
          decide
        next => cases h

theorem startLinux_cases
    {header : ElfHeader} {file : Opened} {program : Started}
    (h : startLinux env exe header file argv envp = .ok program) :
    ∃ st space u, loadHeaders exe env.frames (header.segmentEntrySize.setWidth 32)
        { space := newDirectory env.mem, file := file, pos := header.segmentPos, brk := 0
          fileHdraddr := 0, headers := [] } header.segmentEntryNum.toNat = .ok st ∧
      st.space.requestLarge (env.frames header.segmentEntryNum.toNat) stackPage 1 true =
        .ok (some space) ∧
      u = setupStack env.cpu header st.fileHdraddr argv envp (emptyStack header space) ∧
      program =
        { regs := u.regs, mm := { brk := st.brk, space := { space with mem := u.mem } },
          headers := st.headers } := by
  simp only [startLinux] at h
  obtain ⟨st, hst, hrest⟩ := Machine.bind_eq_ok_iff.mp h
  obtain ⟨found, hfound, hend⟩ := Machine.bind_eq_ok_iff.mp hrest
  cases found with
  | none => cases hend
  | some space =>
      cases hend
      exact ⟨st, space, _, hst, hfound, rfl, rfl⟩

/-- A program of the Linux subsystem has been loaded. -/
theorem doExecve_linux
    (h : doExecve env argv envp k = .returned 0 k' headers)
    (hlinux : k'.task.subsystem = .linux) :
    ∃ exe header file program, env.openExe = .ok exe ∧
      check env exe = .ok (header, .linux, file) ∧
      startLinux env exe header file argv envp = .ok program ∧
      k'.task.regs = program.regs ∧ k'.task.mm = some program.mm ∧ headers = program.headers := by
  simp only [doExecve] at h
  split at h
  next e _ =>
    obtain ⟨hzero, -⟩ := Outcome.returned.inj h
    have hneg := e.2.2
    omega
  next exe hexe =>
    split at h
    next ret hcheck =>
      obtain ⟨rfl, -⟩ := Outcome.returned.inj h
      exact absurd (check_neg hcheck) (Int.lt_irrefl 0)
    next header subsystem file hcheck =>
      split at h
      next e _ =>
        obtain ⟨hzero, -⟩ := Outcome.returned.inj h
        have hneg := e.2.2
        omega
      next =>
        split at h
        next => cases h
        next => cases h
        next program hstart =>
          obtain ⟨-, rfl, rfl⟩ := Outcome.returned.inj h
          obtain rfl : subsystem = .linux := hlinux
          exact ⟨exe, header, file, program, hexe, hcheck, hstart, rfl, rfl, rfl⟩

end Outcomes

end Exec
end JkxyKernel
