import JkxyKernel.Files.Mounting
import JkxyKernel.Lib.Machine

/-!
# Descriptor tables, and the calls on files

Tasks refer to open files by the descriptors of a table, which `CLONE_FILES` shares, as their
working directory, as their executable, and while they poll.  The sessions and the keyboard refer
to terminals.

`Kernel.call` is one call of one task, from beginning to end.  A poll that waits and a read that
sleeps are taken apart, into what is done before and what is done afterwards; other tasks may run
in between.  A path is given by what `inode_open` finds behind it, which may be anything that the
mount table allows.
-/

namespace JkxyKernel
namespace Files

open Objects (Answer Opening Mounting)

abbrev TaskId := Nat
abbrev TableId := Nat

/-- A `struct file *` that is not `NULL`. -/
inductive FilePtr
  | file (f : FileId)
  /-- The result of `ERR_PTR`. -/
  | err
  deriving DecidableEq, Repr

/-- What it refers to. -/
def FilePtr.obj : FilePtr → Option Obj
  | .file f => some (.file f)
  | .err => none

def FilePtr.deref : FilePtr → Except Stop FileId
  | .file f => .ok f
  | .err => .error (.fault .errorPointer)

/-- `atomic_inc(&file->refcount)` -/
def getPtr (objects : Objects) (ptr : FilePtr) : Except Stop Objects := do
  objects.get (.file (← ptr.deref))

/-- `filp_close` -/
def closePtr (objects : Objects) (ptr : FilePtr) : Except Stop Objects := do
  objects.filpClose (← ptr.deref)

/-- The same for a pointer that may be `NULL`. -/
def getOpt (objects : Objects) : Option FilePtr → Except Stop Objects
  | none => .ok objects
  | some ptr => getPtr objects ptr

def closeOpt (objects : Objects) : Option FilePtr → Except Stop Objects
  | none => .ok objects
  | some ptr => closePtr objects ptr

/-- What an open returns, as a pointer. -/
def FilePtr.ofOpen (f : Option FileId) : FilePtr := f.elim .err .file

/-- `struct files_struct` -/
structure Table where
  refcount : Int
  files : Structure.Array FilePtr
  cloexec : Structure.Array Unit

/-- A new table. -/
def Table.empty : Table := { refcount := 1, files := .empty, cloexec := .empty }

/-- What a task has of files. -/
structure TaskFiles where
  cwd : Option FilePtr
  exe : Option FileId
  files : Option TableId
  /-- `poll_table`, while the task polls. -/
  poll : Option (List FileId)
  /-- The file of the read in which the task sleeps. -/
  reading : Option FileId

/-- Everything that refers to files. -/
structure Kernel where
  objects : Objects
  tables : TableId → Option Table
  tasks : TaskId → Option TaskFiles
  nextTable : TableId
  nextTask : TaskId
  /-- The terminals of the sessions, and that of the keyboard. -/
  consoles : Nat → Option TtyId

/-- Where something is referred to. -/
inductive Slot
  | cwd (t : TaskId)
  | exe (t : TaskId)
  | poll (t : TaskId) (i : Nat)
  | fd (T : TableId) (fd : Nat)
  | console (i : Nat)
  deriving DecidableEq, Repr

/-- A fault of an array. -/
def lift {α : Type} (x : Except Fault α) : Except Stop α := x.mapError Stop.fault

/-- `array_set`, which may find no memory for a larger block: is the result 0? -/
def arraySet {α : Type} (arr : Structure.Array α) (memory : Bool) (i : Nat) (v : Option α) :
    Except Stop (Bool × Structure.Array α) :=
  if v.isSome ∧ arr.size ≤ i ∧ memory = false then .ok (false, arr)
  else (lift (arr.set i v)).map fun arr => (true, arr)

/-- The loop that puts a file at the first free descriptor, for a number of rounds; there is no
memory for a table with one of `fails`. -/
def place (files : Structure.Array FilePtr) (fails : List Nat) (ptr : FilePtr) :
    Nat → Nat → Except Stop (Nat × Structure.Array FilePtr)
  | 0, _ => .error .hang
  | rounds + 1, fd => do
      match ← lift (files.get fd) with
      | some _ => place files fails ptr rounds (fd + 1)
      | none =>
          match ← arraySet files (fd ∉ fails) fd (some ptr) with
          | (true, files) => .ok (fd, files)
          | (false, _) => place files fails ptr rounds (fd + 1)

/-- Behind the end of the table every descriptor is free. -/
def placeFrom (files : Structure.Array FilePtr) (fails : List Nat) (fd : Nat) (ptr : FilePtr) :
    Except Stop (Nat × Structure.Array FilePtr) :=
  place files fails ptr (files.size + fails.length + 1) fd

/-- Where a path starts. -/
inductive Start
  | absolute
  | cwd
  | at (dfd : Nat)
  deriving DecidableEq, Repr

/-- `AT_FDCWD` -/
def Start.ofCwd (absolute : Bool) : Start := if absolute then .absolute else .cwd

/-- What `do_execve` comes to. -/
structure Exec where
  absolute : Bool
  answer : Answer
  opening : Opening
  /-- Does it get behind the checks? -/
  accepted : Bool
  /-- What is behind "/", for a task without a working directory. -/
  root : Answer
  rootOpening : Opening
  linux : Bool
  /-- The terminals of a task without a table. -/
  tty : Opening
  tty' : Opening
  fails : List Nat

/-- The calls, and what happens beside them. -/
inductive Call
  | openat (start : Start) (answer : Answer) (opening : Opening) (cloexec : Bool)
      (fails : List Nat)
  | socket (opening : Opening) (cloexec : Bool) (fails : List Nat)
  | faccessat (start : Start) (answer : Answer) (opening : Opening)
  /-- `stat64`, `lstat64` and `readlink` -/
  | stat (absolute : Bool) (answer : Answer)
  | close (fd : Nat)
  | dup2 (oldfd newfd : Nat) (memory : Bool)
  /-- `F_DUPFD` copies the flag of the descriptor; `F_DUPFD_CLOEXEC` sets it. -/
  | dupfd (fd arg : Nat) (cloexec : Bool) (fails : List Nat)
  | chdir (absolute : Bool) (answer : Answer) (opening : Opening)
  | clone (shares : Bool) (fails : List Nat)
  | execve (exec : Exec)
  /-- A poll takes its references; `sleep_add` may find no memory. -/
  | poll (fds : List Nat) (timer : Bool)
  | pollEnd
  | read (fd : Nat)
  | readEnd
  | exit
  /-- `mount_root_device`, of any file system at any path. -/
  | mount (opening : Opening) (op : Vfs.FsType) (mnt : Option MountId) (mounting : Mounting)
  | umount (m : MountId)
  /-- A terminal becomes that of a session or of the keyboard. -/
  | attach (i : Nat) (x : TtyId)
  | detach (i : Nat)

namespace Kernel

variable (k : Kernel)

/-- What is referred to. -/
def slots : Slot → Option Obj
  | .cwd t => (k.tasks t).bind fun task => task.cwd.bind FilePtr.obj
  | .exe t => (k.tasks t).bind fun task => task.exe.map .file
  | .poll t i => (k.tasks t).bind fun task => (task.poll.getD [])[i]?.map .file
  | .fd T fd => (k.tables T).bind fun table => (table.files.lookup fd).bind FilePtr.obj
  | .console i => (k.consoles i).map .tty

def setTask (t : TaskId) (task : TaskFiles) : Kernel :=
  { k with tasks := Function.update k.tasks t (some task) }

def setTable (T : TableId) (table : Table) : Kernel :=
  { k with tables := Function.update k.tables T (some table) }

/-- `current->files`, of a task that has a table. -/
def tableOf (task : TaskFiles) : Except Stop (TableId × Table) :=
  match task.files with
  | none => .error (.fault .nullPointer)
  | some T =>
      match k.tables T with
      | none => .error (.fault .useAfterFree)
      | some table => .ok (T, table)

/-- The mount of the path that `inode_open` starts from; `none` stands for `EBADF`. -/
def startMount (task : TaskFiles) : Start → Except Stop (Option (Option MountId))
  | .absolute => .ok (some none)
  | .cwd => pathOf task.cwd
  | .at dfd => do
      let (_, table) ← k.tableOf task
      pathOf (← lift (table.files.get dfd))
where
  /-- `rel->path->mnt` -/
  pathOf : Option FilePtr → Except Stop (Option (Option MountId))
    | none => .ok none
    | some ptr => do
        let f ← ptr.deref
        match k.objects.files f with
        | none => .error (.fault .useAfterFree)
        | some file => .ok (some file.mnt)

/-- `filp_openat`, for a task. -/
def filpOpenat (task : TaskFiles) (start : Start) (answer : Answer) (opening : Opening) :
    Except Stop (Objects × Option FileId) := do
  match ← k.startMount task start with
  | none => .ok (k.objects, none)
  | some mnt => k.objects.filpOpenat mnt answer opening

/-- A file that is open gets a descriptor. -/
def install (task : TaskFiles) (cloexec : Bool) (fails : List Nat) :
    Objects × Option FileId → Except Stop Kernel
  | (objects, none) => .ok { k with objects := objects }
  | (objects, some f) => do
      let (T, table) ← k.tableOf task
      let (fd, files) ← placeFrom table.files fails 0 (.file f)
      let flags ← lift (table.cloexec.set fd (if cloexec then some () else none))
      .ok { k.setTable T { table with files := files, cloexec := flags } with objects := objects }

/-- `do_sys_openat` -/
def openat (task : TaskFiles) (start : Start) (answer : Answer) (opening : Opening)
    (cloexec : Bool) (fails : List Nat) : Except Stop Kernel := do
  k.install task cloexec fails (← k.filpOpenat task start answer opening)

/-- `socket` -/
def socket (task : TaskFiles) (opening : Opening) (cloexec : Bool) (fails : List Nat) :
    Except Stop Kernel := do
  k.install task cloexec fails (← k.objects.filpOpenDummy opening)

/-- `do_sys_faccessat` -/
def faccessat (task : TaskFiles) (start : Start) (answer : Answer) (opening : Opening) :
    Except Stop Kernel := do
  match ← k.filpOpenat task start answer opening with
  | (objects, none) => .ok { k with objects := objects }
  | (objects, some f) => do
      let objects ← objects.filpClose f
      .ok { k with objects := objects }

/-- `do_stat` and `readlink`: the path of the inode is not asked for. -/
def stat (task : TaskFiles) (absolute : Bool) (answer : Answer) : Except Stop Kernel := do
  match ← k.startMount task (.ofCwd absolute) with
  | none => .ok k
  | some mnt =>
      match ← k.objects.inodeOpen mnt answer with
      | (objects, none) => .ok { k with objects := objects }
      | (objects, some (i, m)) => do
          let objects ← objects.pathDestroy (some m)
          let objects ← objects.putInode i
          .ok { k with objects := objects }

/-- The end of `do_sys_close`, and the same steps in `do_execve`: a file is closed and its
descriptor becomes free. -/
def closeAt (T : TableId) (table : Table) (fd : Nat) (ptr : FilePtr) : Except Stop Kernel := do
  let objects ← closePtr k.objects ptr
  let files ← lift (table.files.set fd none)
  let flags ← lift (table.cloexec.set fd none)
  .ok { k.setTable T { table with files := files, cloexec := flags } with objects := objects }

/-- `do_sys_close` -/
def close (task : TaskFiles) (fd : Nat) : Except Stop Kernel := do
  let (T, table) ← k.tableOf task
  match ← lift (table.files.get fd) with
  | none => .ok k
  | some ptr => k.closeAt T table fd ptr

/-- `dup2`, which closes what is at the new descriptor first. -/
def dup2 (task : TaskFiles) (oldfd newfd : Nat) (memory : Bool) : Except Stop Kernel := do
  let (T, table) ← k.tableOf task
  match ← lift (table.files.get oldfd) with
  | none => .ok k
  | some ptr => do
      let objects ← closeOpt k.objects (← lift (table.files.get newfd))
      let (_, files) ← arraySet table.files memory newfd (some ptr)
      let objects ← getPtr objects ptr
      let (_, flags) ← arraySet table.cloexec memory newfd (← lift (table.cloexec.get oldfd))
      .ok { k.setTable T { table with files := files, cloexec := flags } with objects := objects }

/-- The flag of a descriptor that `fcntl64` makes. -/
def dupFlag (table : Table) (fd : Nat) (cloexec : Bool) : Except Stop (Option Unit) :=
  if cloexec then .ok (some ()) else lift (table.cloexec.get fd)

/-- `F_DUPFD` and `F_DUPFD_CLOEXEC` -/
def dupfd (task : TaskFiles) (fd arg : Nat) (cloexec : Bool) (fails : List Nat) :
    Except Stop Kernel := do
  let (T, table) ← k.tableOf task
  match ← lift (table.files.get fd) with
  | none => .ok k
  | some ptr => do
      let (newfd, files) ← placeFrom table.files fails arg ptr
      let objects ← getPtr k.objects ptr
      let flag ← dupFlag table fd cloexec
      let (_, flags) ← arraySet table.cloexec (newfd ∉ fails) newfd flag
      .ok { k.setTable T { table with files := files, cloexec := flags } with objects := objects }

/-- `chdir` -/
def chdir (t : TaskId) (task : TaskFiles) (absolute : Bool) (answer : Answer)
    (opening : Opening) : Except Stop Kernel := do
  match ← k.filpOpenat task (.ofCwd absolute) answer opening with
  | (objects, none) => .ok { k with objects := objects }
  | (objects, some f) =>
      match task.cwd with
      | none => .error (.fault .nullPointer)
      | some old => do
          let objects ← closePtr objects old
          .ok { k.setTask t { task with cwd := some (.file f) } with objects := objects }

/-- The loop of `do_clone` over the descriptors: a file whose place finds no memory is counted
all the same. -/
def cloneFiles (src : Structure.Array FilePtr) (fails : List Nat) :
    List Nat → Structure.Array FilePtr → Objects →
      Except Stop (Structure.Array FilePtr × Objects)
  | [], dst, objects => .ok (dst, objects)
  | i :: is, dst, objects => do
      match ← lift (src.get i) with
      | none => cloneFiles src fails is dst objects
      | some ptr => do
          let (_, dst) ← arraySet dst (i ∉ fails) i (some ptr)
          let objects ← getPtr objects ptr
          cloneFiles src fails is dst objects

/-- The same for the flags. -/
def cloneFlags (src : Structure.Array Unit) (fails : List Nat) :
    List Nat → Structure.Array Unit → Except Stop (Structure.Array Unit)
  | [], dst => .ok dst
  | i :: is, dst => do
      match ← lift (src.get i) with
      | none => cloneFlags src fails is dst
      | some () => do
          let (_, dst) ← arraySet dst (i ∉ fails) i (some ())
          cloneFlags src fails is dst

/-- A copy of a table. -/
def copyTable (table : Table) (fails : List Nat) : Except Stop (Table × Objects) := do
  let (files, objects) ←
    cloneFiles table.files fails (List.range table.files.size) .empty k.objects
  let flags ← cloneFlags table.cloexec fails (List.range table.cloexec.size) .empty
  .ok ({ refcount := 1, files := files, cloexec := flags }, objects)

/-- The file table of a clone. -/
def cloneTable (shares : Bool) (fails : List Nat) (task : TaskFiles) :
    Except Stop (Kernel × Option TableId) :=
  match task.files with
  | none => .ok (k, none)
  | some _ => do
      let (T, table) ← k.tableOf task
      if shares then
        .ok (k.setTable T { table with refcount := table.refcount + 1 }, some T)
      else do
        let (copy, objects) ← k.copyTable table fails
        .ok ({ k.setTable k.nextTable copy with objects := objects, nextTable := k.nextTable + 1 },
          some k.nextTable)

/-- `do_clone` -/
def clone (task : TaskFiles) (shares : Bool) (fails : List Nat) : Except Stop Kernel := do
  let objects ← getOpt k.objects task.cwd
  let objects ← getOpt objects (task.exe.map .file)
  let (k, files) ← cloneTable { k with objects := objects } shares fails task
  let child : TaskFiles := ⟨task.cwd, task.exe, files, none, none⟩
  .ok { k.setTask k.nextTask child with nextTask := k.nextTask + 1 }

/-- `do_execve` opens "/" for a task without a working directory; the result of `ERR_PTR` is
stored. -/
def enterRoot (t : TaskId) (task : TaskFiles) (exec : Exec) :
    Except Stop (Kernel × TaskFiles) :=
  match task.cwd with
  | some _ => .ok (k, task)
  | none => do
      let (objects, f) ← k.filpOpenat task .absolute exec.root exec.rootOpening
      let task := { task with cwd := some (.ofOpen f) }
      .ok ({ k.setTask t task with objects := objects }, task)

/-- `do_execve` closes the descriptors of these numbers that are so flagged. -/
def closeOnExec (T : TableId) : List Nat → Kernel → Except Stop Kernel
  | [], k => .ok k
  | fd :: fds, k =>
      match k.tables T with
      | none => .error (.fault .useAfterFree)
      | some table => do
          match ← lift (table.files.get fd), ← lift (table.cloexec.get fd) with
          | some ptr, some () => do closeOnExec T fds (← k.closeAt T table fd ptr)
          | _, _ => closeOnExec T fds k

/-- The descriptors that `do_execve` gives to a task without a table. -/
def defaultFiles (exec : Exec) : Except Stop (Objects × Structure.Array FilePtr) := do
  let (objects, f) ← k.objects.filpOpenDummy exec.tty
  if exec.linux then do
    let (_, files) ← arraySet .empty (0 ∉ exec.fails) 0 (some (.ofOpen f))
    let (_, files) ← arraySet files (1 ∉ exec.fails) 1 (some (.ofOpen f))
    let (_, files) ← arraySet files (2 ∉ exec.fails) 2 (some (.ofOpen f))
    let f ← (FilePtr.ofOpen f).deref
    let objects ← objects.get (.file f)
    let objects ← objects.get (.file f)
    .ok (objects, files)
  else do
    let (_, files) ← arraySet .empty (0 ∉ exec.fails) 0 (some (.ofOpen f))
    let (objects, f) ← objects.filpOpenDummy exec.tty'
    let (_, files) ← arraySet files (1 ∉ exec.fails) 1 (some (.ofOpen f))
    .ok (objects, files)

/-- Behind the point of no return: the executable, and the descriptors. -/
def replaceFiles (t : TaskId) (task : TaskFiles) (exe : FileId) (exec : Exec) :
    Except Stop Kernel := do
  let objects ← closeOpt k.objects (task.exe.map .file)
  let task := { task with exe := some exe }
  let k := { k.setTask t task with objects := objects }
  match task.files with
  | some T =>
      match k.tables T with
      | none => .error (.fault .useAfterFree)
      | some table => closeOnExec T (List.range table.files.size) k
  | none => do
      let (objects, files) ← k.defaultFiles exec
      let k := k.setTask t { task with files := some k.nextTable }
      .ok { k.setTable k.nextTable { Table.empty with files := files } with
        objects := objects
        nextTable := k.nextTable + 1 }

/-- `do_execve`, as far as it is about files. -/
def execve (t : TaskId) (task : TaskFiles) (exec : Exec) : Except Stop Kernel := do
  match ← k.filpOpenat task (.ofCwd exec.absolute) exec.answer exec.opening with
  | (objects, none) => .ok { k with objects := objects }
  | (objects, some exe) =>
      if exec.accepted then do
        let (k, task) ← enterRoot { k with objects := objects } t task exec
        if task.cwd = some .err then do
          let objects ← k.objects.filpClose exe
          .ok { k with objects := objects }
        else k.replaceFiles t task exe exec
      else do
        let objects ← objects.filpClose exe
        .ok { k with objects := objects }

/-- The references of a poll table. -/
def pollFiles (files : Structure.Array FilePtr) :
    List Nat → Objects → Except Stop (Objects × List FileId)
  | [], objects => .ok (objects, [])
  | fd :: fds, objects => do
      match ← lift (files.get fd) with
      | none => pollFiles files fds objects
      | some ptr => do
          let f ← ptr.deref
          let (objects, table) ← pollFiles files fds (← objects.get (.file f))
          .ok (objects, f :: table)

/-- `poll`, until it waits; when `sleep_add` fails the table is forgotten. -/
def poll (t : TaskId) (task : TaskFiles) (fds : List Nat) (timer : Bool) :
    Except Stop Kernel := do
  let (_, table) ← k.tableOf task
  let (objects, pollTable) ← pollFiles table.files fds k.objects
  if timer then .ok { k.setTask t { task with poll := some pollTable } with objects := objects }
  else .ok { k with objects := objects }

/-- Files are closed one after the other. -/
def closeAll (objects : Objects) : List FileId → Except Stop Objects
  | [] => .ok objects
  | f :: fs => do closeAll (← objects.filpClose f) fs

/-- The end of `poll`. -/
def pollEnd (t : TaskId) (task : TaskFiles) : Except Stop Kernel := do
  let objects ← closeAll k.objects (task.poll.getD [])
  .ok { k.setTask t { task with poll := none } with objects := objects }

/-- `do_sys_read`, until it sleeps. -/
def read (t : TaskId) (task : TaskFiles) (fd : Nat) : Except Stop Kernel := do
  let (_, table) ← k.tableOf task
  match ← lift (table.files.get fd) with
  | none => .ok k
  | some ptr => do
      let f ← ptr.deref
      match k.objects.files f with
      | none => .error (.fault .useAfterFree)
      | some _ => .ok (k.setTask t { task with reading := some f })

/-- A read that wakes up looks at its file and at its terminal. -/
def readEnd (t : TaskId) (task : TaskFiles) : Except Stop Kernel :=
  match task.reading.bind k.objects.files with
  | none => .error (.fault .useAfterFree)
  | some file =>
      match file.tty with
      | none => .ok (k.setTask t { task with reading := none })
      | some x =>
          match k.objects.ttys x with
          | none => .error (.fault .useAfterFree)
          | some _ => .ok (k.setTask t { task with reading := none })

/-- The files of a table whose last task exits. -/
def exitFiles (files : Structure.Array FilePtr) :
    List Nat → Objects → Except Stop Objects
  | [], objects => .ok objects
  | fd :: fds, objects => do
      let objects ← closeOpt objects (← lift (files.get fd))
      exitFiles files fds objects

/-- `do_exit` gives up the table. -/
def exitTable (task : TaskFiles) : Except Stop Kernel :=
  match task.files with
  | none => .ok k
  | some _ => do
      let (T, table) ← k.tableOf task
      if table.refcount - 1 ≠ 0 then
        .ok (k.setTable T { table with refcount := table.refcount - 1 })
      else do
        let objects ← exitFiles table.files (List.range table.files.size) k.objects
        let _ ← lift table.files.destroy
        let _ ← lift table.cloexec.destroy
        .ok { k with objects := objects, tables := Function.update k.tables T none }

/-- `do_exit`, as far as it is about files; nothing looks at those of a zombie. -/
def exit (t : TaskId) (task : TaskFiles) : Except Stop Kernel := do
  let objects ← closeOpt k.objects task.cwd
  let objects ← closeOpt objects (task.exe.map .file)
  let k ← exitTable { k with objects := objects } task
  .ok { k with tasks := Function.update k.tasks t none }

/-- `mount_root_device` -/
def mount (opening : Opening) (op : Vfs.FsType) (mnt : Option MountId) (mounting : Mounting) :
    Except Stop Kernel := do
  match ← k.objects.filpOpenDummy opening with
  | (_, none) => .error (.fault .panic)
  | (objects, some dev) => do
      let objects ← objects.doMount dev op mnt mounting
      let objects ← objects.filpClose dev
      .ok { k with objects := objects }

/-- `do_umount` -/
def umount (m : MountId) : Except Stop Kernel := do
  let objects ← k.objects.doUmount m
  .ok { k with objects := objects }

/-- `tty_get`, for a session or for the keyboard. -/
def attach (i : Nat) (x : TtyId) : Except Stop Kernel := do
  let (objects, tty) ← k.objects.openVendor (.tty x)
  .ok { k with objects := objects, consoles := Function.update k.consoles i tty }

/-- `tty_put` -/
def detach (i : Nat) : Except Stop Kernel := do
  let objects ← k.objects.putOpt Objects.put ((k.consoles i).map .tty)
  .ok { k with objects := objects, consoles := Function.update k.consoles i none }

/-- One call of a task. -/
def call (t : TaskId) (task : TaskFiles) : Call → Except Stop Kernel
  | .openat start answer opening cloexec fails => k.openat task start answer opening cloexec fails
  | .socket opening cloexec fails => k.socket task opening cloexec fails
  | .faccessat start answer opening => k.faccessat task start answer opening
  | .stat absolute answer => k.stat task absolute answer
  | .close fd => k.close task fd
  | .dup2 oldfd newfd memory => k.dup2 task oldfd newfd memory
  | .dupfd fd arg cloexec fails => k.dupfd task fd arg cloexec fails
  | .chdir absolute answer opening => k.chdir t task absolute answer opening
  | .clone shares fails => k.clone task shares fails
  | .execve exec => k.execve t task exec
  | .poll fds timer => k.poll t task fds timer
  | .pollEnd => k.pollEnd t task
  | .read fd => k.read t task fd
  | .readEnd => k.readEnd t task
  | .exit => k.exit t task
  | .mount opening op mnt mounting => k.mount opening op mnt mounting
  | .umount m => k.umount m
  | .attach i x => k.attach i x
  | .detach i => k.detach i

/-- Can this be behind the path? -/
def finds (task : TaskFiles) (start : Start) (answer : Answer) : Bool :=
  match k.startMount task start with
  | .ok (some mnt) => answer.valid k.objects.listed mnt
  | _ => true

/-- Can the task make this call?  Only a program of a user makes those on descriptors, and it has
a table. -/
def mayCall (task : TaskFiles) : Call → Bool
  | .pollEnd => task.poll.isSome
  | .readEnd => task.reading.isSome
  | call => task.poll.isNone && task.reading.isNone &&
      match call with
      | .openat start answer _ _ _ | .faccessat start answer _ =>
          task.files.isSome && k.finds task start answer
      | .stat absolute answer | .chdir absolute answer _ =>
          task.files.isSome && k.finds task (.ofCwd absolute) answer
      | .socket .. | .close _ | .dup2 .. | .dupfd .. | .poll .. | .read _ => task.files.isSome
      | .execve exec => k.finds task (.ofCwd exec.absolute) exec.answer &&
          exec.root.valid k.objects.listed none
      | .mount _ _ mnt _ => mnt.all k.objects.listed
      | .umount m => k.objects.listed m
      | .attach i _ => (k.consoles i).isNone
      | _ => true

/-- One task, and no files yet. -/
def boot : Kernel where
  objects := .boot
  tables _ := none
  tasks := Function.update (fun _ => none) 0 (some ⟨none, none, none, none, none⟩)
  nextTable := 0
  nextTask := 1
  consoles _ := none

def Boot (k : Kernel) : Prop := k = boot

end Kernel

/-- The calls of all tasks, one after the other. -/
def machine : Machine Kernel (TaskId × Call) Stop where
  enabled l k := (k.tasks l.1).any fun task => k.mayCall task l.2
  exec l k :=
    match k.tasks l.1 with
    | none => .error (.fault .useAfterFree)
    | some task => k.call l.1 task l.2

end Files
end JkxyKernel
