import JkxyKernel.Lib.Machine
import JkxyKernel.Structure.Array
import Mathlib.Data.BitVec
import Mathlib.Tactic.SplitIfs

/-!
# Who waits for a terminal or a socket

A terminal and a UDP socket have room for one waiting task, `tty->task` and
`socket->task`.  A reader takes the place, sleeps and gives it back.  `poll` takes the
place in the driver, which also records a callback with the entry of the poll table; when
`poll` is done, the callbacks give the places back.

The driver does not look whether the callback could be recorded.  Without memory for it
the place stays taken when `poll` returns, and the pointer outlives the task.

Several files can share a terminal, several descriptors a file, and several entries of one
poll table can name the same object.
-/

namespace JkxyKernel
namespace Waiters

abbrev TaskId := Nat
abbrev FileId := Nat
abbrev ObjId := Nat

def POLLIN : BitVec 16 := 0x0001
def POLLOUT : BitVec 16 := 0x0004
def POLLNVAL : BitVec 16 := 0x0020

inductive Driver
  | tty
  | udp
  deriving DecidableEq, Repr

/-- The callbacks of the drivers; both give the place back. -/
inductive Callback
  | ttyPollCb
  | udpPollCb
  deriving DecidableEq, Repr

/-- A `struct tty` or a `struct udp_socket`. -/
structure Waitable where
  driver : Driver
  task : Option TaskId
  /-- `tty_should_read`, or `recv_buf`. -/
  ready : Bool
  /-- The files of the object. -/
  files : Nat
  /-- The references of sessions and of the foreground. -/
  holders : Nat
  freed : Bool
  deriving DecidableEq, Repr

/-- The operations of a file that `poll` uses, with `vendor`. -/
inductive FileOp
  | waitable (x : ObjId)
  /-- There is no `poll`; are there `read` and `write`? -/
  | plain (read write : Bool)
  deriving DecidableEq, Repr

/-- `struct file` -/
structure File where
  op : FileOp
  refcount : Nat
  /-- The references of descriptors. -/
  fds : Nat
  freed : Bool
  deriving DecidableEq, Repr

/-- `struct poll_entry`; its task is the one that polls. -/
structure PollEntry where
  file : Option FileId
  events : BitVec 16
  revents : BitVec 16
  cleanupCb : List Callback
  deriving DecidableEq, Repr

/-- Where a task stands in `poll`. -/
inductive PollPhase
  /-- At the top of the loop. -/
  | head
  | visit (i : Nat)
  | sleep
  | cleanup (i : Nat)
  deriving DecidableEq, Repr

/-- A call of `poll`. -/
structure Poll where
  table : List PollEntry
  timeout : Int
  phase : PollPhase
  deriving DecidableEq, Repr

/-- Where a task stands. -/
inductive Pc
  | idle
  /-- In the loop of `tty_read` or `udp_read`. -/
  | reading (x : ObjId)
  | polling (p : Poll)
  deriving DecidableEq, Repr

/-- Tasks, files and the objects they wait for. -/
structure Kernel where
  alive : TaskId → Bool
  pc : TaskId → Pc
  files : FileId → Option File
  objs : ObjId → Option Waitable

/-- No tasks and no files. -/
def Kernel.boot : Kernel where
  alive := fun _ => false
  pc := fun _ => .idle
  files := fun _ => none
  objs := fun _ => none

/-- How a call of `poll` begins. -/
inductive PollStart
  | ok
  /-- There is no memory for the table. -/
  | noTable
  /-- `sleep_add` fails. -/
  | noSleep
  deriving DecidableEq, Repr

/-- The steps.  What a task finds out about signals, time and memory comes with the
label. -/
inductive Label
  | spawn (t : TaskId)
  | exit (t : TaskId)
  /-- A terminal or a socket comes into being, with its first file. -/
  | open (driver : Driver) (x : ObjId) (f : FileId)
  /-- The terminal is opened again. -/
  | openAgain (x : ObjId) (f : FileId)
  | openPlain (read write : Bool) (f : FileId)
  /-- A session or the foreground gets hold of a terminal. -/
  | hold (x : ObjId)
  | unhold (x : ObjId)
  | dup (f : FileId)
  | close (f : FileId)
  /-- Input comes in, or has been taken out. -/
  | setReady (x : ObjId) (ready : Bool)
  | read (t : TaskId) (f : FileId)
  | readEnd (t : TaskId) (signalPending : Bool)
  | poll (t : TaskId) (fds : List (Option FileId × BitVec 16)) (timeout : Int)
      (start : PollStart)
  | pollHead (t : TaskId) (signalPending : Bool)
  | pollVisit (t : TaskId) (alloc : Bool)
  | pollDecide (t : TaskId) (hashit : Bool)
  | pollWake (t : TaskId)
  | pollCleanup (t : TaskId)
  deriving DecidableEq, Repr

/-- The callback that a driver records. -/
def Driver.callback : Driver → Callback
  | .tty => .ttyPollCb
  | .udp => .udpPollCb

/-- The place is taken, if it is free. -/
def Waitable.takePlace (o : Waitable) (t : TaskId) : Waitable :=
  if o.task = none then { o with task := some t } else o

/-- Events are reported on a condition. -/
def PollEntry.report (e : PollEntry) (c : Prop) [Decidable c] (bits : BitVec 16) : PollEntry :=
  if c then { e with revents := e.revents ||| bits } else e

/-- A callback is recorded, unless it is there already; nobody looks whether it could be. -/
def PollEntry.record (e : PollEntry) (cb : Callback) (alloc : Bool) : PollEntry :=
  if cb ∉ e.cleanupCb ∧ alloc = true then { e with cleanupCb := e.cleanupCb ++ [cb] } else e

namespace Kernel

def setPc (k : Kernel) (t : TaskId) (pc : Pc) : Kernel :=
  { k with pc := Function.update k.pc t pc }

def setObj (k : Kernel) (x : ObjId) (o : Waitable) : Kernel :=
  { k with objs := Function.update k.objs x (some o) }

def setFile (k : Kernel) (f : FileId) (file : File) : Kernel :=
  { k with files := Function.update k.files f (some file) }

/-- Access to an object. -/
def getObj (k : Kernel) (x : ObjId) : Except Fault Waitable :=
  match k.objs x with
  | none => .error .nullPointer
  | some o => if o.freed then .error .useAfterFree else .ok o

/-- Access to a file. -/
def getFile (k : Kernel) (f : FileId) : Except Fault File :=
  match k.files f with
  | none => .error .nullPointer
  | some file => if file.freed then .error .useAfterFree else .ok file

/-- The start of `tty_read` and of `udp_read`; a taken place means `-EBUSY`. -/
def readStart (k : Kernel) (t : TaskId) (f : FileId) : Except Fault Kernel := do
  let file ← k.getFile f
  match file.op with
  | .plain .. => .ok k
  | .waitable x =>
      let o ← k.getObj x
      if o.task.isSome then .ok k
      else .ok ((k.setObj x { o with task := some t }).setPc t (.reading x))

/-- The end of `tty_read` and of `udp_read`. -/
def readEnd (k : Kernel) (t : TaskId) (x : ObjId) : Except Fault Kernel := do
  let o ← k.getObj x
  .ok ((k.setObj x { o with task := none }).setPc t .idle)

/-- The references that `poll` takes. -/
def pin (k : Kernel) : List (Option FileId × BitVec 16) → Kernel
  | [] => k
  | (none, _) :: fds => k.pin fds
  | (some f, _) :: fds =>
      match k.files f with
      | none => k.pin fds
      | some file => (k.setFile f { file with refcount := file.refcount + 1 }).pin fds

/-- The table that `poll` fills in. -/
def pollTable (fds : List (Option FileId × BitVec 16)) : List PollEntry :=
  fds.map fun fd =>
    { file := fd.1
      events := fd.2
      revents := if fd.1.isSome then 0 else POLLNVAL
      cleanupCb := [] }

/-- `poll`, up to its loop. -/
def pollStart (k : Kernel) (t : TaskId) (fds : List (Option FileId × BitVec 16))
    (timeout : Int) (start : PollStart) : Kernel :=
  match start with
  | .noTable => k
  | .noSleep => k.pin fds
  | .ok => (k.pin fds).setPc t
      (.polling { table := pollTable fds, timeout := timeout, phase := .head })

/-- `tty_poll` and `udp_poll`: the entry and the object afterwards. -/
def driverPoll (t : TaskId) (o : Waitable) (e : PollEntry) (alloc : Bool) :
    PollEntry × Waitable :=
  let e := e.report (e.events &&& POLLOUT ≠ 0) POLLOUT
  if e.events &&& POLLIN ≠ 0 then
    let o := o.takePlace t
    let e := e.report (o.task = some t ∧ o.ready = true) POLLIN
    (e.record o.driver.callback alloc, o)
  else (e, o)

/-- What `poll` does for a file whose operations have no `poll`. -/
def plainPoll (read write : Bool) (e : PollEntry) : PollEntry :=
  (e.report (read = true ∧ e.events &&& POLLIN ≠ 0) POLLIN).report
    (write = true ∧ e.events &&& POLLOUT ≠ 0) POLLOUT

/-- One turn of the loop over the entries. -/
def pollVisit (k : Kernel) (t : TaskId) (p : Poll) (i : Nat) (alloc : Bool) :
    Except Fault Kernel :=
  match p.table[i]? with
  | none => .ok k
  | some e =>
      match e.file with
      | none => .ok (k.setPc t (.polling { p with phase := .visit (i + 1) }))
      | some f => do
          let file ← k.getFile f
          match file.op with
          | .plain read write =>
              .ok (k.setPc t (.polling { p with
                table := p.table.set i (plainPoll read write e), phase := .visit (i + 1) }))
          | .waitable x =>
              let o ← k.getObj x
              let r := driverPoll t o e alloc
              .ok ((k.setObj x r.2).setPc t (.polling { p with
                table := p.table.set i r.1, phase := .visit (i + 1) }))

/-- Behind the loop over the entries: is there a result, or is the time over? -/
def pollDecide (k : Kernel) (t : TaskId) (p : Poll) (hashit : Bool) : Kernel :=
  if p.table.any (fun e => e.revents ≠ 0) ∨ p.timeout = 0 ∨ 0 < p.timeout ∧ hashit = true then
    k.setPc t (.polling { p with phase := .cleanup 0 })
  else k.setPc t (.polling { p with phase := .sleep })

/-- The callbacks of an entry: each gives the place back, if it is that of the task. -/
def runCallbacks (k : Kernel) (t : TaskId) (e : PollEntry) : Except Fault Kernel :=
  match e.cleanupCb, e.file with
  | [], _ => .ok k
  | _ :: _, none => .error .nullPointer
  | _ :: _, some f => do
      let file ← k.getFile f
      match file.op with
      | .plain .. => .ok k
      | .waitable x =>
          let o ← k.getObj x
          .ok (k.setObj x (if o.task = some t then { o with task := none } else o))

/-- The object loses a file or a holder, and goes with the last one. -/
def putObj (k : Kernel) (x : ObjId) (files holders : Nat) : Except Fault Kernel := do
  let o ← k.getObj x
  .ok (k.setObj x { o with
    files := files, holders := holders, freed := decide (files = 0 ∧ holders = 0) })

/-- `filp_close`, with `tty_release` and `udp_release`. -/
def filpClose (k : Kernel) (f : FileId) : Except Fault Kernel := do
  let file ← k.getFile f
  let refcount := file.refcount - 1
  if refcount ≠ 0 then .ok (k.setFile f { file with refcount := refcount })
  else
    let k := k.setFile f { file with refcount := 0, freed := true }
    match file.op with
    | .plain .. => .ok k
    | .waitable x => do
        let o ← k.getObj x
        k.putObj x (o.files - 1) o.holders

/-- The file of an entry is closed. -/
def closeEntry (k : Kernel) (e : PollEntry) : Except Fault Kernel :=
  match e.file with
  | none => .ok k
  | some f => k.filpClose f

/-- One turn of the loop that ends `poll`, and its return. -/
def pollCleanup (k : Kernel) (t : TaskId) (p : Poll) (i : Nat) : Except Fault Kernel :=
  match p.table[i]? with
  | none => .ok (k.setPc t .idle)
  | some e => do
      let k ← k.runCallbacks t e
      let k ← k.closeEntry e
      .ok (k.setPc t (.polling { p with phase := .cleanup (i + 1) }))

/-- A new file of an object. -/
def newFile (k : Kernel) (f : FileId) (op : FileOp) : Kernel :=
  k.setFile f { op := op, refcount := 1, fds := 1, freed := false }

/-- Is the file open in some table of descriptors? -/
def hasFd (k : Kernel) (f : FileId) : Bool :=
  (k.files f).any fun file => 0 < file.fds && !file.freed

/-- Can this step be taken here? -/
def enabled (k : Kernel) : Label → Bool
  | .spawn t => !k.alive t && k.pc t = .idle
  | .exit t => k.alive t && k.pc t = .idle
  | .open _ x f => (k.objs x).isNone && (k.files f).isNone
  | .openAgain x f =>
      ((k.objs x).any fun o => o.driver = .tty && !o.freed) && (k.files f).isNone
  | .openPlain _ _ f => (k.files f).isNone
  | .hold x => (k.objs x).any fun o => o.driver = .tty && !o.freed
  | .unhold x => (k.objs x).any fun o => 0 < o.holders
  | .dup f => k.hasFd f
  | .close f => k.hasFd f
  | .setReady x _ => (k.objs x).any fun o => !o.freed
  | .read t f => k.alive t && k.pc t = .idle && k.hasFd f
  | .readEnd t signalPending =>
      match k.pc t with
      | .reading x => (k.objs x).all fun o => o.freed || o.ready || signalPending
      | _ => false
  | .poll t fds _ _ =>
      k.alive t && k.pc t = .idle && fds.all fun fd => fd.1.all fun f => k.hasFd f
  | .pollHead t _ =>
      match k.pc t with
      | .polling p => p.phase = .head
      | _ => false
  | .pollVisit t _ =>
      match k.pc t with
      | .polling p => match p.phase with
          | .visit i => i < p.table.length
          | _ => false
      | _ => false
  | .pollDecide t _ =>
      match k.pc t with
      | .polling p => p.phase = .visit p.table.length
      | _ => false
  | .pollWake t =>
      match k.pc t with
      | .polling p => p.phase = .sleep
      | _ => false
  | .pollCleanup t =>
      match k.pc t with
      | .polling p => match p.phase with
          | .cleanup _ => true
          | _ => false
      | _ => false

/-- The effect of a step. -/
def exec (k : Kernel) : Label → Except Fault Kernel
  | .spawn t => .ok { k with alive := Function.update k.alive t true }
  | .exit t => .ok { k with alive := Function.update k.alive t false }
  | .open driver x f =>
      .ok ((k.setObj x
        { driver := driver, task := none, ready := false, files := 1, holders := 0
          freed := false }).newFile f (.waitable x))
  | .openAgain x f => do
      let o ← k.getObj x
      .ok ((k.setObj x { o with files := o.files + 1 }).newFile f (.waitable x))
  | .openPlain read write f => .ok (k.newFile f (.plain read write))
  | .hold x => do
      let o ← k.getObj x
      .ok (k.setObj x { o with holders := o.holders + 1 })
  | .unhold x => do
      let o ← k.getObj x
      k.putObj x o.files (o.holders - 1)
  | .dup f => do
      let file ← k.getFile f
      .ok (k.setFile f { file with refcount := file.refcount + 1, fds := file.fds + 1 })
  | .close f => do
      let file ← k.getFile f
      (k.setFile f { file with fds := file.fds - 1 }).filpClose f
  | .setReady x ready => do
      let o ← k.getObj x
      .ok (k.setObj x { o with ready := ready })
  | .read t f => k.readStart t f
  | .readEnd t _ =>
      match k.pc t with
      | .reading x => k.readEnd t x
      | _ => .ok k
  | .poll t fds timeout start => .ok (k.pollStart t fds timeout start)
  | .pollHead t signalPending =>
      match k.pc t with
      | .polling p => .ok (k.setPc t (.polling { p with
          phase := if signalPending then .cleanup 0 else .visit 0 }))
      | _ => .ok k
  | .pollVisit t alloc =>
      match k.pc t with
      | .polling p => match p.phase with
          | .visit i => k.pollVisit t p i alloc
          | _ => .ok k
      | _ => .ok k
  | .pollDecide t hashit =>
      match k.pc t with
      | .polling p => .ok (k.pollDecide t p hashit)
      | _ => .ok k
  | .pollWake t =>
      match k.pc t with
      | .polling p => .ok (k.setPc t (.polling { p with phase := .head }))
      | _ => .ok k
  | .pollCleanup t =>
      match k.pc t with
      | .polling p => match p.phase with
          | .cleanup i => k.pollCleanup t p i
          | _ => .ok k
      | _ => .ok k

end Kernel

/-- The kernel as a machine. -/
def machine : Machine Kernel Label Fault where
  enabled := fun l k => k.enabled l
  exec := fun l k => k.exec l

namespace Kernel

/-- The task has the place of the object. -/
def Waits (k : Kernel) (x : ObjId) (t : TaskId) : Prop :=
  ∃ o, k.objs x = some o ∧ o.task = some t

/-- The file of the entry is one of the object. -/
def Names (k : Kernel) (e : PollEntry) (x : ObjId) : Prop :=
  ∃ f file, e.file = some f ∧ k.files f = some file ∧ file.op = .waitable x

/-- The task is inside a read of the object, or inside a poll with an entry for it. -/
def InCall (k : Kernel) (t : TaskId) (x : ObjId) : Prop :=
  match k.pc t with
  | .idle => False
  | .reading y => y = x
  | .polling p => ∃ e ∈ p.table, k.Names e x

/-- Who has a place is alive and inside a call that is about the object. -/
structure WaitersSound (k : Kernel) : Prop where
  inside : ∀ x o t, k.objs x = some o → o.freed = false → o.task = some t →
    k.alive t = true ∧ k.InCall t x
  /-- A task whose call has returned has no place. -/
  returned : ∀ x o t, k.objs x = some o → o.freed = false → k.pc t = .idle → o.task ≠ some t

/-- The poll is going to run a callback for the object. -/
def Covers (k : Kernel) (p : Poll) (x : ObjId) : Prop :=
  ∃ i e, p.table[i]? = some e ∧ (∀ j, p.phase = .cleanup j → j ≤ i) ∧ k.Names e x ∧
    e.cleanupCb ≠ []

/-- The call the task is in is going to give the place back. -/
def Covered (k : Kernel) (t : TaskId) (x : ObjId) : Prop :=
  match k.pc t with
  | .idle => False
  | .reading y => y = x
  | .polling p => k.Covers p x

/-- Every place that is taken is going to be given back, by a task that is alive. -/
structure PlacesCovered (k : Kernel) : Prop where
  places : ∀ x t, k.Waits x t → k.Covered t x
  callers : ∀ t, k.pc t ≠ .idle → k.alive t = true

/-- A callback that the step needs can be recorded: there is memory for it, or the place is
another task's, or an entry for the same object has its callback. -/
def Records (k : Kernel) : Label → Prop
  | .pollVisit t alloc => alloc = true ∨
      ∀ p i e x o, k.pc t = .polling p → p.phase = .visit i → p.table[i]? = some e →
        k.Names e x → k.objs x = some o → e.events &&& POLLIN ≠ 0 →
        (∃ u, o.task = some u ∧ u ≠ t) ∨ ∃ e' ∈ p.table, k.Names e' x ∧ e'.cleanupCb ≠ []
  | _ => True

/-- Nobody has taken a place, no call has moved, and files are still of the same objects. -/
structure Frame (k k' : Kernel) : Prop where
  files : ∀ f file, k.files f = some file → ∃ file', k'.files f = some file' ∧ file'.op = file.op
  waits : ∀ x t, k'.Waits x t → k.Waits x t
  pc : k'.pc = k.pc
  alive : k'.alive = k.alive

section Frames

variable {k k' k'' : Kernel} {t u : TaskId} {f : FileId} {x y : ObjId} {o : Waitable}
variable {file : File} {e : PollEntry} {p : Poll} {op : FileOp}

theorem Frame.refl : Frame k k :=
  ⟨fun _ file h => ⟨file, h, rfl⟩, fun _ _ h => h, rfl, rfl⟩

theorem Frame.trans (h : Frame k k') (h' : Frame k' k'') : Frame k k'' := by
  refine ⟨fun f file hf => ?_, fun x t hx => h.waits x t (h'.waits x t hx),
    h'.pc.trans h.pc, h'.alive.trans h.alive⟩
  obtain ⟨file', hf', hop'⟩ := h.files f file hf
  obtain ⟨file'', hf'', hop''⟩ := h'.files f file' hf'
  exact ⟨file'', hf'', hop''.trans hop'⟩

theorem waits_setObj : (k.setObj x o).Waits y u ↔ if y = x then o.task = some u else k.Waits y u := by
  simp only [Waits, setObj, Function.update_apply]
  split_ifs <;> simp

theorem getObj_ok (h : k.getObj x = .ok o) : k.objs x = some o := by
  simp only [getObj] at h
  split at h
  next => cases h
  next hx =>
    split at h
    next => cases h
    next =>
      cases h
      exact hx

theorem getFile_ok (h : k.getFile f = .ok file) : k.files f = some file := by
  simp only [getFile] at h
  split at h
  next => cases h
  next hf =>
    split at h
    next => cases h
    next =>
      cases h
      exact hf

/-- An object changes, and nobody takes its place. -/
theorem Frame.setObj
    (ho : ∀ u, o.task = some u → k.Waits x u) : Frame k (k.setObj x o) := by
  refine ⟨fun f file h => ⟨file, h, rfl⟩, fun y u hy => ?_, rfl, rfl⟩
  rw [waits_setObj] at hy
  split at hy
  next heq =>
    rw [heq]
    exact ho u hy
  next => exact hy

/-- An object changes, but not its place. -/
theorem Frame.setObj_same
    {o' : Waitable} (hx : k.objs x = some o) (ho : o'.task = o.task) :
    Frame k (k.setObj x o') :=
  Frame.setObj fun _ hu => ⟨o, hx, ho ▸ hu⟩

/-- A file changes, but not what it is a file of. -/
theorem Frame.setFile
    {file' : File} (hf : k.files f = some file) (hop : file'.op = file.op) :
    Frame k (k.setFile f file') := by
  refine ⟨fun g other hg => ?_, fun _ _ h => h, rfl, rfl⟩
  by_cases heq : g = f
  · rw [heq, hf] at hg
    cases hg
    exact ⟨file', by simp [Kernel.setFile, heq], hop⟩
  · exact ⟨other, by simpa [Kernel.setFile, heq] using hg, rfl⟩

theorem Frame.newFile (hf : k.files f = none) : Frame k (k.newFile f op) := by
  refine ⟨fun g other hg => ?_, fun _ _ h => h, rfl, rfl⟩
  by_cases heq : g = f
  · rw [heq, hf] at hg
    cases hg
  · exact ⟨other, by simpa [Kernel.newFile, Kernel.setFile, heq] using hg, rfl⟩

theorem Frame.pin (fds : List (Option FileId × BitVec 16)) : Frame k (k.pin fds) := by
  induction fds generalizing k with
  | nil => exact Frame.refl
  | cons fd fds ih =>
      obtain ⟨file, events⟩ := fd
      cases file with
      | none => exact ih
      | some f =>
          simp only [Kernel.pin]
          split
          next => exact ih
          next file hf =>
            refine Frame.trans (Frame.setFile hf ?_) ih
            rfl

theorem Frame.putObj {files holders : Nat}
    (h : k.putObj x files holders = .ok k') : Frame k k' := by
  simp only [Kernel.putObj, Machine.bind_eq_ok_iff] at h
  obtain ⟨o, ho, heq⟩ := h
  cases heq
  exact Frame.setObj_same (getObj_ok ho) rfl

theorem Frame.filpClose (h : k.filpClose f = .ok k') : Frame k k' := by
  simp only [Kernel.filpClose, Machine.bind_eq_ok_iff] at h
  obtain ⟨file, hfile, h⟩ := h
  have hf := getFile_ok hfile
  split at h
  next =>
    cases h
    exact Frame.setFile hf rfl
  next =>
    split at h
    next =>
      cases h
      exact Frame.setFile hf rfl
    next x hop =>
      simp only [Machine.bind_eq_ok_iff] at h
      obtain ⟨o, -, h⟩ := h
      refine Frame.trans (Frame.setFile hf ?_) (Frame.putObj h)
      rfl

theorem Frame.names (h : Frame k k') (hn : k.Names e x) : k'.Names e x := by
  obtain ⟨f, file, hef, hf, hop⟩ := hn
  obtain ⟨file', hf', hop'⟩ := h.files f file hf
  exact ⟨f, file', hef, hf', hop'.trans hop⟩

theorem Frame.covers (h : Frame k k') (hc : k.Covers p x) : k'.Covers p x := by
  obtain ⟨i, e, hi, hphase, hnames, hcb⟩ := hc
  exact ⟨i, e, hi, hphase, h.names hnames, hcb⟩

theorem Frame.covered (h : Frame k k') (hc : k.Covered t x) : k'.Covered t x := by
  simp only [Covered, h.pc] at hc ⊢
  split
  next heq => simp only [heq] at hc
  next heq => simpa only [heq] using hc
  next p heq =>
    simp only [heq] at hc
    exact h.covers hc

/-- What concerns no place keeps the places covered. -/
theorem PlacesCovered.frame (h : PlacesCovered k) (hframe : Frame k k') : PlacesCovered k' := by
  constructor
  · intro x t hx
    exact hframe.covered (h.places x t (hframe.waits x t hx))
  · intro t hpc
    rw [hframe.alive]
    rw [hframe.pc] at hpc
    exact h.callers t hpc

theorem covered_setPc_ne {pc : Pc} (hu : u ≠ t) :
    (k.setPc t pc).Covered u x ↔ k.Covered u x := by
  have hsame : (k.setPc t pc).pc u = k.pc u := by simp [Kernel.setPc, hu]
  simp only [Covered, hsame]
  exact Iff.rfl

/-- A task moves on. -/
theorem PlacesCovered.setPc
    {pc : Pc} (h : PlacesCovered k) (halive : pc ≠ .idle → k.alive t = true)
    (hself : ∀ x, k.Waits x t → k.Covered t x → (k.setPc t pc).Covered t x) :
    PlacesCovered (k.setPc t pc) := by
  constructor
  · intro x u hx
    by_cases hu : u = t
    · rw [hu] at hx ⊢
      exact hself x hx (h.places x t hx)
    · exact (covered_setPc_ne hu).mpr (h.places x u hx)
  · intro u hpc
    by_cases hu : u = t
    · rw [hu] at hpc ⊢
      exact halive (by simpa [Kernel.setPc] using hpc)
    · exact h.callers u (by simpa [Kernel.setPc, hu] using hpc)

theorem covered_polling (hpc : k.pc t = .polling p) : k.Covered t x ↔ k.Covers p x := by
  simp only [Covered, hpc]

theorem covered_setPc_polling : (k.setPc t (.polling p)).Covered t x ↔ k.Covers p x := by
  have hpc : (k.setPc t (.polling p)).pc t = .polling p := by simp [Kernel.setPc]
  exact covered_polling hpc

/-- An idle task has no place. -/
theorem PlacesCovered.idle (h : PlacesCovered k) (hpc : k.pc t = .idle) : ¬ k.Waits x t := by
  intro hx
  have hcovered := h.places x t hx
  simp only [Covered, hpc] at hcovered

theorem PlacesCovered.alive (h : PlacesCovered k) (hpc : k.pc t = .polling p) :
    k.alive t = true :=
  h.callers t (by rw [hpc]; nofun)

end Frames

section Steps

variable {k k' : Kernel} {t u : TaskId} {f : FileId} {x y : ObjId} {o : Waitable}
variable {e : PollEntry} {p : Poll} {i : Nat} {alloc : Bool} {l : Label}

/-- A reader takes a place that is free. -/
theorem PlacesCovered.readStart
    (h : PlacesCovered k) (halive : k.alive t = true) (hpc : k.pc t = .idle)
    (hs : k.readStart t f = .ok k') : PlacesCovered k' := by
  simp only [Kernel.readStart, Machine.bind_eq_ok_iff] at hs
  obtain ⟨file, -, hs⟩ := hs
  split at hs
  next =>
    cases hs
    exact h
  next x _ =>
    simp only [Machine.bind_eq_ok_iff] at hs
    obtain ⟨o, ho, hs⟩ := hs
    split at hs
    next =>
      cases hs
      exact h
    next hfree =>
      cases hs
      constructor
      · intro y u hy
        change (k.setObj x { o with task := some t }).Waits y u at hy
        rw [waits_setObj] at hy
        split at hy
        next heq =>
          cases hy
          simp [Covered, Kernel.setPc, heq]
        next hne =>
          have hut : u ≠ t := by
            rintro rfl
            exact h.idle hpc hy
          exact (covered_setPc_ne hut).mpr (h.places y u hy)
      · intro u hu
        by_cases hut : u = t
        · rw [hut]
          exact halive
        · exact h.callers u (by simpa [Kernel.setPc, Kernel.setObj, hut] using hu)

/-- A reader gives its place back. -/
theorem PlacesCovered.readEnd
    (h : PlacesCovered k) (hpc : k.pc t = .reading x) (hs : k.readEnd t x = .ok k') :
    PlacesCovered k' := by
  simp only [Kernel.readEnd, Machine.bind_eq_ok_iff] at hs
  obtain ⟨o, ho, heq⟩ := hs
  cases heq
  have hframe : Frame k (k.setObj x { o with task := none }) := 
    Frame.setObj fun _ hu => by cases hu
  refine (h.frame hframe).setPc (absurd rfl) fun y hy hcovered => ?_
  have hyx : x = y := by
    simpa only [Covered, hframe.pc, hpc] using hcovered
  rw [waits_setObj, if_pos hyx.symm] at hy
  cases hy

/-- A poll begins. -/
theorem PlacesCovered.pollStart
    {fds : List (Option FileId × BitVec 16)} {timeout : Int} {start : PollStart}
    (h : PlacesCovered k) (halive : k.alive t = true) (hpc : k.pc t = .idle) :
    PlacesCovered (k.pollStart t fds timeout start) := by
  cases start with
  | noTable => exact h
  | noSleep => exact h.frame (Frame.pin fds)
  | ok =>
      have hpin : PlacesCovered (k.pin fds) := h.frame (Frame.pin fds)
      refine hpin.setPc (fun _ => ?_) fun x hx _ => ?_
      · rw [(Frame.pin fds).alive]
        exact halive
      have hidle : (k.pin fds).pc t = .idle := by
        rw [(Frame.pin fds).pc]
        exact hpc
      exact absurd hx (hpin.idle hidle)

/-- A poll moves on to a phase in which the entries are still to be cleaned up. -/
theorem PlacesCovered.phase
    {phase : PollPhase} (h : PlacesCovered k) (hpc : k.pc t = .polling p)
    (hphase : ∀ j, phase = .cleanup j → j = 0) :
    PlacesCovered (k.setPc t (.polling { p with phase := phase })) := by
  refine h.setPc (fun _ => h.alive hpc) fun x _ hcovered => ?_
  obtain ⟨i, e, hi, -, hnames, hcb⟩ := (covered_polling hpc).mp hcovered
  refine covered_setPc_polling.mpr ⟨i, e, hi, fun j hj => ?_, hnames, hcb⟩
  rw [hphase j hj]
  exact Nat.zero_le i

@[simp] theorem report_file {c : Prop} [Decidable c] {bits : BitVec 16} :
    (e.report c bits).file = e.file := by
  simp only [PollEntry.report]
  split <;> rfl

@[simp] theorem report_events {c : Prop} [Decidable c] {bits : BitVec 16} :
    (e.report c bits).events = e.events := by
  simp only [PollEntry.report]
  split <;> rfl

@[simp] theorem report_cleanupCb {c : Prop} [Decidable c] {bits : BitVec 16} :
    (e.report c bits).cleanupCb = e.cleanupCb := by
  simp only [PollEntry.report]
  split <;> rfl

@[simp] theorem record_file {cb : Callback} : (e.record cb alloc).file = e.file := by
  simp only [PollEntry.record]
  split <;> rfl

/-- With memory, or with a callback before, there is one behind. -/
theorem record_cleanupCb {cb : Callback} (h : alloc = true ∨ e.cleanupCb ≠ []) :
    (e.record cb alloc).cleanupCb ≠ [] := by
  simp only [PollEntry.record]
  split
  next => simp
  next hnot =>
    rcases h with rfl | hcb
    · intro hnil
      rw [hnil] at hnot
      exact hnot ⟨List.not_mem_nil, rfl⟩
    · exact hcb

theorem takePlace_task (h : (o.takePlace t).task = some u) :
    o.task = some u ∨ u = t ∧ o.task = none := by
  simp only [Waitable.takePlace] at h
  split at h
  next hfree =>
    cases h
    exact .inr ⟨rfl, hfree⟩
  next => exact .inl h

theorem driverPoll_file : (driverPoll t o e alloc).1.file = e.file := by
  simp only [driverPoll]
  split <;> simp

/-- The callbacks of an entry stay. -/
theorem driverPoll_cleanupCb (h : e.cleanupCb ≠ []) :
    (driverPoll t o e alloc).1.cleanupCb ≠ [] := by
  simp only [driverPoll]
  split
  next => exact record_cleanupCb (.inr (by simpa using h))
  next => simpa using h

/-- Who has the place behind the driver has had it before, or has taken it just now. -/
theorem driverPoll_task (h : (driverPoll t o e alloc).2.task = some u) :
    o.task = some u ∨ u = t ∧ o.task = none ∧ e.events &&& POLLIN ≠ 0 ∧
      (alloc = true → (driverPoll t o e alloc).1.cleanupCb ≠ []) := by
  simp only [driverPoll, report_events] at h ⊢
  by_cases hin : e.events &&& POLLIN ≠ 0
  · simp only [if_pos hin] at h ⊢
    rcases takePlace_task h with hbefore | ⟨hu, hfree⟩
    · exact .inl hbefore
    · exact .inr ⟨hu, hfree, hin, fun halloc => record_cleanupCb (.inl halloc)⟩
  · simp only [if_neg hin] at h
    exact .inl h

/-- The entry itself has its callback. -/
theorem covers_new
    {e' : PollEntry} (hi : p.table[i]? = some e) (hfile : e'.file = e.file)
    (hnames : k.Names e x) (hcb : e'.cleanupCb ≠ []) :
    k.Covers { p with table := p.table.set i e', phase := .visit (i + 1) } x := by
  have hlt : i < p.table.length := (List.getElem?_eq_some_iff.mp hi).1
  refine ⟨i, e', by simp [hlt], fun _ => nofun, ?_, hcb⟩
  simpa only [Names, hfile] using hnames

/-- An entry is exchanged for one with the same file and its callbacks. -/
theorem covers_set
    {e' : PollEntry} (hi : p.table[i]? = some e) (hfile : e'.file = e.file)
    (hcb : e.cleanupCb ≠ [] → e'.cleanupCb ≠ []) (h : k.Covers p x) :
    k.Covers { p with table := p.table.set i e', phase := .visit (i + 1) } x := by
  obtain ⟨j, d, hj, -, hnames, hd⟩ := h
  by_cases hij : i = j
  · subst hij
    rw [hi] at hj
    cases hj
    exact covers_new hi hfile hnames (hcb hd)
  · exact ⟨j, d, by simpa [List.getElem?_set, hij] using hj, fun _ => nofun, hnames, hd⟩

/-- Before the cleanup, any entry with its callback will do. -/
theorem covers_of_mem
    (hphase : ∀ j, p.phase ≠ .cleanup j) (he : e ∈ p.table) (hnames : k.Names e x)
    (hcb : e.cleanupCb ≠ []) : k.Covers p x := by
  obtain ⟨j, hj⟩ := List.getElem?_of_mem he
  exact ⟨j, e, hj, fun m hm => absurd hm (hphase m), hnames, hcb⟩

/-- A turn of the loop over the entries. -/
theorem PlacesCovered.pollVisit
    (h : PlacesCovered k) (hpc : k.pc t = .polling p) (hphase : p.phase = .visit i)
    (hrecords : k.Records (.pollVisit t alloc)) (hs : k.pollVisit t p i alloc = .ok k') :
    PlacesCovered k' := by
  simp only [Kernel.pollVisit] at hs
  split at hs
  next =>
    cases hs
    exact h
  next e hi =>
    have hset : ∀ (e' : PollEntry) x, e'.file = e.file →
        (e.cleanupCb ≠ [] → e'.cleanupCb ≠ []) → k.Covered t x →
        k.Covers { p with table := p.table.set i e', phase := .visit (i + 1) } x :=
      fun e' x hfile hcb hcovered => covers_set hi hfile hcb ((covered_polling hpc).mp hcovered)
    split at hs
    next =>
      cases hs
      exact h.phase hpc fun _ => nofun
    next f hfile =>
      simp only [Machine.bind_eq_ok_iff] at hs
      obtain ⟨file, hget, hs⟩ := hs
      split at hs
      next read write _ =>
        cases hs
        refine h.setPc (fun _ => h.alive hpc) fun x _ hcovered => covered_setPc_polling.mpr ?_
        exact hset _ x (by simp [plainPoll]) (by simp [plainPoll]) hcovered
      next x hop =>
        simp only [Machine.bind_eq_ok_iff] at hs
        obtain ⟨o, ho, heq⟩ := hs
        cases heq
        have hx := getObj_ok ho
        have hnames : k.Names e x := ⟨f, file, hfile, getFile_ok hget, hop⟩
        constructor
        · intro y u hy
          change (k.setObj x (driverPoll t o e alloc).2).Waits y u at hy
          rw [waits_setObj] at hy
          by_cases hu : u = t
          · subst hu
            refine covered_setPc_polling.mpr ?_
            change k.Covers _ y
            split at hy
            next heq =>
              subst heq
              rcases driverPoll_task hy with hbefore | ⟨-, hfree, hin, hrecorded⟩
              · exact hset _ y driverPoll_file driverPoll_cleanupCb
                  (h.places y u ⟨o, hx, hbefore⟩)
              · rcases hrecords with halloc | hother
                · exact covers_new hi driverPoll_file hnames (hrecorded halloc)
                · rcases hother p i e y o hpc hphase hi hnames hx hin with
                    ⟨v, hv, -⟩ | ⟨d, hd, hdn, hdcb⟩
                  · rw [hfree] at hv
                    cases hv
                  · exact covers_set hi driverPoll_file driverPoll_cleanupCb
                      (covers_of_mem (by rw [hphase]; exact fun _ => nofun) hd hdn hdcb)
            next => exact hset _ y driverPoll_file driverPoll_cleanupCb (h.places y u hy)
          · refine (covered_setPc_ne hu).mpr (h.places y u ?_)
            split at hy
            next heq =>
              rw [heq]
              exact ⟨o, hx, (driverPoll_task hy).resolve_right fun hnew => hu hnew.1⟩
            next => exact hy
        · intro u hu
          by_cases hut : u = t
          · rw [hut]
            exact h.alive hpc
          · exact h.callers u (by simpa [Kernel.setPc, Kernel.setObj, hut] using hu)

/-- The callbacks of an entry leave the task no place of the entry's object. -/
theorem runCallbacks_spec (hs : k.runCallbacks t e = .ok k') :
    Frame k k' ∧ ∀ x, k.Names e x → e.cleanupCb ≠ [] → ¬ k'.Waits x t := by
  simp only [Kernel.runCallbacks] at hs
  split at hs
  next hcb =>
    cases hs
    exact ⟨Frame.refl, fun x _ hne => absurd hcb hne⟩
  next => cases hs
  next f hcb hfile =>
    simp only [Machine.bind_eq_ok_iff] at hs
    obtain ⟨file, hget, hs⟩ := hs
    have hnamed : ∀ x, k.Names e x → file.op = .waitable x := by
      rintro x ⟨g, other, hg, hother, hop⟩
      rw [hfile] at hg
      cases hg
      rw [getFile_ok hget] at hother
      cases hother
      exact hop
    split at hs
    next read write hop =>
      cases hs
      refine ⟨Frame.refl, fun x hn _ => ?_⟩
      rw [hnamed x hn] at hop
      cases hop
    next x hop =>
      simp only [Machine.bind_eq_ok_iff] at hs
      obtain ⟨o, ho, heq⟩ := hs
      cases heq
      refine ⟨Frame.setObj fun u hu => ⟨o, getObj_ok ho, ?_⟩, fun y hn _ hy => ?_⟩
      · split at hu
        next => cases hu
        next => exact hu
      · rw [hnamed y hn] at hop
        cases hop
        rw [waits_setObj, if_pos rfl] at hy
        split at hy
        next => cases hy
        next hne => exact hne hy

/-- A turn of the loop that ends the poll. -/
theorem PlacesCovered.pollCleanup
    (h : PlacesCovered k) (hpc : k.pc t = .polling p) (hphase : p.phase = .cleanup i)
    (hs : k.pollCleanup t p i = .ok k') : PlacesCovered k' := by
  simp only [Kernel.pollCleanup] at hs
  split at hs
  next hend =>
    cases hs
    refine h.setPc (absurd rfl) fun x _ hcovered => ?_
    obtain ⟨j, e, hj, hij, -⟩ := (covered_polling hpc).mp hcovered
    have hlt : j < p.table.length := (List.getElem?_eq_some_iff.mp hj).1
    have hle := hij i hphase
    have hge : p.table.length ≤ i := List.getElem?_eq_none_iff.mp hend
    omega
  next e hi =>
    simp only [Machine.bind_eq_ok_iff] at hs
    obtain ⟨k₁, hcallbacks, k₂, hclose, heq⟩ := hs
    cases heq
    obtain ⟨hframe, hnone⟩ := runCallbacks_spec hcallbacks
    have hclosed : Frame k₁ k₂ := by
      simp only [closeEntry] at hclose
      split at hclose
      next =>
        cases hclose
        exact Frame.refl
      next => exact Frame.filpClose hclose
    have hboth := hframe.trans hclosed
    have hpc₂ : k₂.pc t = .polling p := by rw [hboth.pc, hpc]
    refine (h.frame hboth).setPc (fun _ => (h.frame hboth).alive hpc₂) fun x hx _ =>
      covered_setPc_polling.mpr ?_
    -- the entry that covers the object is not the one that has just been cleaned up
    have hbefore := h.places x t (hboth.waits x t hx)
    obtain ⟨j, d, hj, hij, hnames, hd⟩ := (covered_polling hpc).mp hbefore
    have hle := hij i hphase
    have hne : j ≠ i := by
      rintro rfl
      rw [hi] at hj
      cases hj
      exact hnone x hnames hd (hclosed.waits x t hx)
    refine ⟨j, d, hj, fun m hm => ?_, hboth.names hnames, hd⟩
    cases hm
    omega

theorem PlacesCovered.spawn (h : PlacesCovered k) :
    PlacesCovered { k with alive := Function.update k.alive t true } := by
  refine ⟨h.places, fun u hu => ?_⟩
  simp only [Function.update_apply]
  split
  next => rfl
  next => exact h.callers u hu

theorem PlacesCovered.exit (h : PlacesCovered k) (hpc : k.pc t = .idle) :
    PlacesCovered { k with alive := Function.update k.alive t false } := by
  refine ⟨h.places, fun u hu => ?_⟩
  have hut : u ≠ t := by
    rintro rfl
    exact hu hpc
  simpa [hut] using h.callers u hu

/-- The places stay covered as long as the callbacks can be recorded. -/
theorem PlacesCovered.step
    (h : PlacesCovered k) (hrecords : k.Records l) (hs : machine.Step k l k') :
    PlacesCovered k' := by
  obtain ⟨hen, hexec⟩ := hs
  change k.enabled l = true at hen
  change k.exec l = .ok k' at hexec
  cases l with
  | spawn t =>
      cases hexec
      exact h.spawn
  | exit t =>
      cases hexec
      simp only [enabled, Bool.and_eq_true, decide_eq_true_eq] at hen
      exact h.exit hen.2
  | «open» driver x f =>
      cases hexec
      simp only [enabled, Bool.and_eq_true, Option.isNone_iff_eq_none] at hen
      exact h.frame ((Frame.setObj fun _ hu => by cases hu).trans (Frame.newFile hen.2))
  | openAgain x f =>
      simp only [enabled, Bool.and_eq_true, Option.isNone_iff_eq_none] at hen
      simp only [exec, Machine.bind_eq_ok_iff] at hexec
      obtain ⟨o, ho, heq⟩ := hexec
      cases heq
      refine h.frame (Frame.trans (Frame.setObj_same (getObj_ok ho) ?_) (Frame.newFile hen.2))
      rfl
  | openPlain read write f =>
      cases hexec
      simp only [enabled, Option.isNone_iff_eq_none] at hen
      exact h.frame (Frame.newFile hen)
  | hold x =>
      simp only [exec, Machine.bind_eq_ok_iff] at hexec
      obtain ⟨o, ho, heq⟩ := hexec
      cases heq
      exact h.frame (Frame.setObj_same (getObj_ok ho) rfl)
  | unhold x =>
      simp only [exec, Machine.bind_eq_ok_iff] at hexec
      obtain ⟨o, -, hput⟩ := hexec
      exact h.frame (Frame.putObj hput)
  | dup f =>
      simp only [exec, Machine.bind_eq_ok_iff] at hexec
      obtain ⟨file, hfile, heq⟩ := hexec
      cases heq
      exact h.frame (Frame.setFile (getFile_ok hfile) rfl)
  | close f =>
      simp only [exec, Machine.bind_eq_ok_iff] at hexec
      obtain ⟨file, hfile, hclose⟩ := hexec
      refine h.frame (Frame.trans (Frame.setFile (getFile_ok hfile) ?_) (Frame.filpClose hclose))
      rfl
  | setReady x ready =>
      simp only [exec, Machine.bind_eq_ok_iff] at hexec
      obtain ⟨o, ho, heq⟩ := hexec
      cases heq
      exact h.frame (Frame.setObj_same (getObj_ok ho) rfl)
  | read t f =>
      simp only [enabled, Bool.and_eq_true, decide_eq_true_eq] at hen
      exact h.readStart hen.1.1 hen.1.2 hexec
  | readEnd t signalPending =>
      simp only [exec] at hexec
      split at hexec
      next x hpc => exact h.readEnd hpc hexec
      next =>
        cases hexec
        exact h
  | poll t fds timeout start =>
      cases hexec
      simp only [enabled, Bool.and_eq_true, decide_eq_true_eq] at hen
      exact h.pollStart hen.1.1 hen.1.2
  | pollHead t signalPending =>
      simp only [exec] at hexec
      split at hexec
      next p hpc =>
        cases hexec
        refine h.phase hpc fun j hj => ?_
        split at hj <;> cases hj
        rfl
      next =>
        cases hexec
        exact h
  | pollVisit t alloc =>
      simp only [exec] at hexec
      split at hexec
      next p hpc =>
        split at hexec
        next i hphase => exact h.pollVisit hpc hphase hrecords hexec
        next =>
          cases hexec
          exact h
      next =>
        cases hexec
        exact h
  | pollDecide t hashit =>
      simp only [exec] at hexec
      split at hexec
      next p hpc =>
        cases hexec
        simp only [Kernel.pollDecide]
        split
        · refine h.phase hpc fun j hj => ?_
          cases hj
          rfl
        · exact h.phase hpc fun _ => nofun
      next =>
        cases hexec
        exact h
  | pollWake t =>
      simp only [exec] at hexec
      split at hexec
      next p hpc =>
        cases hexec
        exact h.phase hpc fun _ => nofun
      next =>
        cases hexec
        exact h
  | pollCleanup t =>
      simp only [exec] at hexec
      split at hexec
      next p hpc =>
        split at hexec
        next i hphase => exact h.pollCleanup hpc hphase hexec
        next =>
          cases hexec
          exact h
      next =>
        cases hexec
        exact h

theorem InCall.of_covered (h : k.Covered t x) : k.InCall t x := by
  simp only [Covered, InCall] at h ⊢
  split at h
  next => exact h.elim
  next => exact h
  next p _ =>
    obtain ⟨i, e, hi, -, hnames, -⟩ := h
    exact ⟨e, List.mem_of_getElem? hi, hnames⟩

/-- With the places covered, no pointer dangles. -/
theorem WaitersSound.of_covered (h : PlacesCovered k) : WaitersSound k := by
  constructor
  · intro x o t hx _ ho
    have hcovered := h.places x t ⟨o, hx, ho⟩
    refine ⟨h.callers t fun hidle => ?_, InCall.of_covered hcovered⟩
    simp only [Covered, hidle] at hcovered
  · intro x o t hx _ hidle ho
    exact h.idle hidle ⟨o, hx, ho⟩

end Steps

end Kernel

/-- The run begins without tasks. -/
def Boots (k : Kernel) : Prop :=
  k = Kernel.boot

/-- **Waiter pointers do not dangle while callbacks can be recorded.**  Whoever is waiting for
a terminal or a socket is alive and inside a read of it or a poll that names it, and a task
whose call has returned has no place anywhere. -/
theorem waiters_sound (k : Kernel) :
    machine.Reach Boots Kernel.Records k → k.WaitersSound := by
  intro h
  refine Kernel.WaitersSound.of_covered (h.invariant (P := Kernel.PlacesCovered) ?_
    fun _ _ _ hk hrecords hs => hk.step hrecords hs)
  rintro k rfl
  refine ⟨fun x t hx => ?_, fun t ht => absurd rfl ht⟩
  obtain ⟨o, ho, -⟩ := hx
  cases ho

/-- There is memory for every callback. -/
def recording (_ : Kernel) : Label → Bool
  | .pollVisit _ alloc => alloc
  | _ => true

/-- A task polls a terminal twice, sleeps, and another one is refused. -/
def sharedRun : List Label :=
  [.spawn 1, .spawn 2, .open .tty 0 0, .openAgain 0 1, .poll 1 [(some 0, 1), (some 1, 5)] (-1) .ok,
    .pollHead 1 false, .pollVisit 1 true, .pollVisit 1 true, .pollDecide 1 false,
    .pollCleanup 1, .read 2 1]

/-- The other task has come while the first one was cleaning up. -/
theorem waiters_sound_shared :
    ∃ k, machine.Reach Boots Kernel.Records k ∧ k.pc 2 = .reading 0 ∧ k.WaitersSound := by
  have hrun : ((machine.guard recording).runLabels sharedRun .boot).any
      (fun k => k.pc 2 = .reading 0) = true := by
    decide +kernel
  obtain ⟨k, hreach, hk⟩ := Machine.exists_reach_of_run (show Boots Kernel.boot from rfl) hrun
  have hrecords : machine.Reach Boots Kernel.Records k := by
    refine (Machine.Reach.of_guard hreach).mono fun k l hl => ?_
    cases l with
    | pollVisit t alloc => exact .inl hl
    | _ => trivial
  exact ⟨k, hrecords, of_decide_eq_true hk, waiters_sound k hrecords⟩

/-- A socket is polled once, there is no memory for the callback, and the task exits. -/
def forgottenRun : List Label :=
  [.spawn 1, .open .udp 0 0, .poll 1 [(some 0, 1)] 0 .ok, .pollHead 1 false,
    .pollVisit 1 false, .pollDecide 1 false, .pollCleanup 1, .pollCleanup 1, .exit 1]

/-- The socket still names the task. -/
theorem forgotten_dangles :
    ∃ k, machine.Reach Boots (fun _ _ => True) k ∧ ¬ k.WaitersSound := by
  have hrun : (machine.runLabels forgottenRun .boot).any (fun k =>
      decide (k.alive 1 = false) && (k.objs 0).any fun o =>
        decide (o.freed = false) && decide (o.task = some 1)) = true := by
    decide +kernel
  obtain ⟨k, hreach, hk⟩ := Machine.exists_reach_of_run (show Boots Kernel.boot from rfl) hrun
  simp only [Bool.and_eq_true, decide_eq_true_eq, Option.any_eq_true] at hk
  obtain ⟨hdead, o, ho, hlive, htask⟩ := hk
  refine ⟨k, hreach, fun hsound => ?_⟩
  have halive := (hsound.inside 0 o 1 ho hlive htask).1
  rw [hdead] at halive
  cases halive

end Waiters
end JkxyKernel
