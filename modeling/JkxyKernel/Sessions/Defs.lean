import JkxyKernel.Lib.Machine
import JkxyKernel.Structure.Array
import Mathlib.Logic.Function.Basic

/-!
# Sessions and their terminals

A session is counted by the tasks in it: `do_clone` takes a reference, `put_session` in
`do_exit` gives one back, `do_setsid` makes a session with one.  The session leader's
first `tty_open` links the session and the terminal both ways; the session holds a
counted reference to the terminal, the way back is not counted.

Terminals are counted by the open files, by the sessions they control, and by the
foreground.  `tty_get` finds a terminal by its device number or makes one.

Sessions, terminals and files are numbered by allocation, and a freed one keeps its
number.  The running code may hold one reference to a terminal between `tty_get` and the
place where it is stored.
-/

namespace JkxyKernel
namespace Sessions

abbrev TaskId := Nat
abbrev SessionId := Nat
abbrev TtyId := Nat
abbrev FileId := Nat

def EPERM : Int := 1
def ESRCH : Int := 3
def ENXIO : Int := 6
def ENOMEM : Int := 12
def EINVAL : Int := 22

/-- `MKDEV` -/
def mkdev (ma mi : Nat) : Nat := ma <<< 8 ||| mi

def TTY_MAJOR : Nat := 4
def TTY_CURRENT : Nat := mkdev 5 0
def TTY_CONSOLE : Nat := mkdev 5 1

/-- `MAXPID` -/
def MAXPID : Nat := 32767

/-- `struct session` -/
structure Session where
  refcount : Int
  sid : Nat
  tty : Option TtyId
  foregroundPgid : Nat
  freed : Bool
  deriving DecidableEq, Repr

/-- What of `struct tty` concerns sessions. -/
structure Tty where
  refcount : Int
  deviceNum : Nat
  session : Option SessionId
  freed : Bool
  deriving DecidableEq, Repr

/-- What of `struct task_struct` concerns sessions. -/
structure TaskStruct where
  pid : Nat
  session : Option SessionId
  pgid : Nat
  deriving DecidableEq, Repr

/-- What has become of the memory of a task. -/
inductive Life
  | free
  | alive
  /-- Past the `put_session` of `do_exit`. -/
  | exited
  deriving DecidableEq, Repr

structure State where
  current : TaskId
  task : TaskId → TaskStruct
  life : TaskId → Life
  /-- `tasks` -/
  tasks : List TaskId
  session : SessionId → Session
  nextSession : SessionId
  tty : TtyId → Tty
  nextTty : TtyId
  /-- `ttys` -/
  ttys : List TtyId
  /-- The terminal an open file refers to in its `vendor`. -/
  file : FileId → Option TtyId
  /-- `foreground_tty`, where `none` is the early console. -/
  foreground : Option TtyId

/-- Which of the allocations of `tty_get` succeed. -/
structure TtyMemory where
  page : Bool
  record : Bool
  node : Bool
  deriving DecidableEq, Repr

namespace State

variable (s : State)

def modTask (t : TaskId) (f : TaskStruct → TaskStruct) : State :=
  { s with task := Function.update s.task t (f (s.task t)) }

def modSession (x : SessionId) (f : Session → Session) : State :=
  { s with session := Function.update s.session x (f (s.session x)) }

def modTty (v : TtyId) (f : Tty → Tty) : State :=
  { s with tty := Function.update s.tty v (f (s.tty v)) }

/-- The session of the running task. -/
def currentSession : Option SessionId :=
  (s.task s.current).session

/-- `get_task_from_pid` -/
def getTaskFromPid (pid : Nat) : Except Int TaskId :=
  if MAXPID < pid then .error (-ESRCH)
  else
    match s.tasks.find? fun t => (s.task t).pid = pid with
    | some t => .ok t
    | none => .error (-ESRCH)

/-- Does a listed task have the process group of the caller's number? -/
def leadsGroup : Bool :=
  s.tasks.any fun t => (s.task t).pgid = (s.task s.current).pid

/-- `do_setsid` behind its checks. -/
def startSession : State :=
  let pid := (s.task s.current).pid
  let made := s.modSession s.nextSession fun _ =>
    { sid := pid, foregroundPgid := pid, refcount := 1, tty := none, freed := false }
  { made with nextSession := s.nextSession + 1 }.modTask s.current fun r =>
    { r with session := some s.nextSession, pgid := pid }

/-- `do_setsid` -/
def doSetsid (mem : Bool) : Int × State :=
  if s.leadsGroup then (-EPERM, s)
  else if !mem then (-ENOMEM, s)
  else ((s.task s.current).pid, s.startSession)

/-- `do_setpgid` -/
def doSetpgid (pid pgid : Nat) : Int × State :=
  let pid := if pid = 0 then (s.task s.current).pid else pid
  let pgid := if pgid = 0 then (s.task s.current).pid else pgid
  match s.getTaskFromPid pid, s.getTaskFromPid pgid with
  | .error e, _ => (e, s)
  | .ok _, .error e => (e, s)
  | .ok task, .ok leader =>
      match (s.task task).session, (s.task leader).session with
      | some x, some y =>
          if (s.session x).sid = (s.task task).pid then (-EPERM, s)
          else if x ≠ y then (-EPERM, s)
          else (0, s.modTask task fun r => { r with pgid := pgid })
      | _, _ => (-EINVAL, s)

/-- `tty_put` -/
def ttyPut (v : TtyId) : State :=
  let dropped := s.modTty v fun y => { y with refcount := y.refcount - 1 }
  if (dropped.tty v).refcount ≠ 0 then dropped
  else
    { dropped.modTty v fun y => { y with freed := true } with
      ttys := s.ttys.filter (· ≠ v) }

/-- One more reference to a terminal. -/
def ttyHold (v : TtyId) : State :=
  s.modTty v fun y => { y with refcount := y.refcount + 1 }

/-- The part of `tty_get` that makes a terminal. -/
def ttyMake (deviceNum : Nat) (mem : TtyMemory) : Except Int (TtyId × State) :=
  if !mem.page then .error (-ENOMEM)
  else if !mem.record then .error (-ENOMEM)
  else
    let v := s.nextTty
    let made := s.modTty v fun _ =>
      { refcount := 1, deviceNum := deviceNum, session := none, freed := false }
    .ok (v, { made with nextTty := v + 1, ttys := if mem.node then s.ttys ++ [v] else s.ttys })

/-- `tty_get` -/
def ttyGet (deviceNum : Nat) (mem : TtyMemory) : Except Int (TtyId × State) :=
  if deviceNum = TTY_CURRENT then
    match s.currentSession.bind fun x => (s.session x).tty with
    | some v => .ok (v, s.ttyHold v)
    | none => .error (- ENXIO)
  else
    let deviceNum := if deviceNum = TTY_CONSOLE then mkdev TTY_MAJOR 0 else deviceNum
    match s.ttys.find? fun v => (s.tty v).deviceNum = deviceNum with
    | some v => .ok (v, s.ttyHold v)
    | none => s.ttyMake deviceNum mem

/-- The session that `tty_open` gives a terminal to, if any. -/
def claimant (v : TtyId) (noctty : Bool) : Option SessionId :=
  match s.currentSession with
  | none => none
  | some x =>
      if (s.session x).tty = none ∧ (s.tty v).session = none ∧
          (s.session x).sid = (s.task s.current).pid ∧ noctty = false then
        some x
      else none

/-- Make a terminal the controlling terminal of a session. -/
def link (x : SessionId) (v : TtyId) : State :=
  ((s.ttyHold v).modSession x fun y => { y with tty := some v }).modTty v fun y =>
    { y with session := some x }

/-- `tty_open` on a fresh file; `noctty` is its flag `O_NOCTTY`. -/
def ttyOpen (f : FileId) (deviceNum : Nat) (noctty : Bool) (mem : TtyMemory) : Int × State :=
  match s.ttyGet deviceNum mem with
  | .error e => (e, s)
  | .ok (v, s) =>
      let s := { s with file := Function.update s.file f (some v) }
      match s.claimant v noctty with
      | none => (0, s)
      | some x => (0, s.link x v)

/-- `tty_release` -/
def ttyRelease (f : FileId) : State :=
  match s.file f with
  | none => s
  | some v => { s.ttyPut v with file := Function.update s.file f none }

/-- `tty_switch_foreground` -/
def ttySwitchForeground (deviceNum : Nat) (mem : TtyMemory) : State :=
  match s.ttyGet deviceNum mem with
  | .error _ => s
  | .ok (v, s) =>
      if s.foreground = some v then s.ttyPut v
      else
        match s.foreground with
        | none => { s with foreground := some v }
        | some w => { s.ttyPut w with foreground := some v }

/-- The terminal forgets the session that goes away. -/
def unlink (x : SessionId) (v : TtyId) : State :=
  if (s.tty v).session = some x then s.modTty v fun y => { y with session := none } else s

/-- `put_session` behind the count: give up the terminal and free. -/
def freeSession (x : SessionId) : State :=
  let parted :=
    match (s.session x).tty with
    | none => s
    | some v => (s.unlink x v).ttyPut v
  parted.modSession x fun y => { y with freed := true }

/-- `put_session` of session `x`, up to the test of the count. -/
def leave (x : SessionId) : State :=
  (s.modTask s.current fun r => { r with session := none, pgid := 0 }).modSession x fun y =>
    { y with refcount := y.refcount - 1 }

/-- `put_session` -/
def putSession : State :=
  match s.currentSession with
  | none => s.modTask s.current fun r => { r with session := none, pgid := 0 }
  | some x =>
      let left := s.leave x
      if (left.session x).refcount ≠ 0 then left else left.freeSession x

/-- `do_exit`, as far as sessions go. -/
def doExit : State :=
  let left := if s.currentSession = none then s else s.putSession
  { left with life := Function.update s.life s.current .exited }

/-- `do_clone`, as far as sessions go; `next_pid` returns `pid`. -/
def doClone (child : TaskId) (pid : Nat) : State :=
  let held :=
    match s.currentSession with
    | none => s
    | some x => s.modSession x fun y => { y with refcount := y.refcount + 1 }
  { held with
    task := Function.update s.task child
      { pid := pid, session := s.currentSession, pgid := (s.task s.current).pgid }
    life := Function.update s.life child .alive
    tasks := s.tasks ++ [child] }

end State

/-- What the running task does, and who runs. -/
inductive Label
  | setsid (mem : Bool)
  | setpgid (pid pgid : Nat)
  | clone (child : TaskId) (pid : Nat)
  | ttyOpen (f : FileId) (deviceNum : Nat) (noctty : Bool) (mem : TtyMemory)
  /-- The last reference to an open terminal goes away. -/
  | ttyRelease (f : FileId)
  | ttySwitchForeground (deviceNum : Nat) (mem : TtyMemory)
  | putSession
  | exit
  /-- A task is waited for. -/
  | reap (t : TaskId)
  /-- `do_free_tasks` -/
  | freeTask (t : TaskId)
  | switchTo (t : TaskId)
  deriving DecidableEq, Repr

/-- Any tasks at work on sessions and terminals. -/
def machine : Machine State Label Fault where
  enabled l s :=
    match l with
    | .setsid _ | .setpgid _ _ | .putSession | .exit => s.life s.current = .alive
    | .clone child pid =>
        s.life s.current = .alive ∧ s.life child = .free ∧
          ∀ t ∈ s.tasks, (s.task t).pid ≠ pid
    | .ttyOpen f _ _ _ => s.life s.current = .alive ∧ s.file f = none
    | .ttyRelease _ | .ttySwitchForeground _ _ => true
    | .reap t => s.life t = .exited
    | .freeTask t => s.life t = .exited ∧ t ∉ s.tasks ∧ t ≠ s.current
    | .switchTo t => s.life t = .alive
  exec
    | .setsid mem, s => .ok (s.doSetsid mem).2
    | .setpgid pid pgid, s => .ok (s.doSetpgid pid pgid).2
    | .clone child pid, s => .ok (s.doClone child pid)
    | .ttyOpen f deviceNum noctty mem, s => .ok (s.ttyOpen f deviceNum noctty mem).2
    | .ttyRelease f, s => .ok (s.ttyRelease f)
    | .ttySwitchForeground deviceNum mem, s => .ok (s.ttySwitchForeground deviceNum mem)
    | .putSession, s => .ok s.putSession
    | .exit, s => .ok s.doExit
    | .reap t, s => .ok { s with tasks := s.tasks.filter (· ≠ t) }
    | .freeTask t, s => .ok { s with life := Function.update s.life t .free }
    | .switchTo t, s => .ok { s with current := t }

/-- No task is in a session, and there is no session or terminal yet. -/
def Init (s : State) : Prop :=
  (∀ t, (s.task t).session = none) ∧ s.nextSession = 0 ∧
    (∀ x, (s.session x).refcount = 0) ∧ s.nextTty = 0 ∧ s.ttys = [] ∧
    (∀ v, (s.tty v).refcount = 0 ∧ (s.tty v).session = none) ∧ (∀ f, s.file f = none) ∧
    s.foreground = none

end Sessions
end JkxyKernel
