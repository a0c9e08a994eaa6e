import JkxyKernel.Structure.Array

/-!
# Tasks: the data of the process subsystem

The records of `task.h` and `signal.h`, as far as scheduling, signals, exit and
wait use them, and the state of the kernel around them.

Tasks and `sigactions` blocks are named by numbers that are never used twice, so
a dangling pointer is a name whose block is marked freed.  A task keeps its
record after its stack is freed; every access checks the mark.

`Pc` says where a task stands in the kernel code.  A task that is not current
stands right behind a call of `schedule()`, or has never run.  An interrupt can
arrive at every control point listed here.
-/

namespace JkxyKernel
namespace Task

abbrev TaskId := Nat
abbrev SigactionsId := Nat

/-- `enum task_state` -/
inductive TaskState
  | running
  | interruptible
  | uninterruptible
  | zombie
  | dead
  deriving DecidableEq, Repr

/-- `enum subsystem` -/
inductive Subsystem
  | linux
  | ece391
  deriving DecidableEq, Repr

/-- The `sigaction` pointer of `struct sigaction`. -/
inductive Handler
  | dfl
  | ign
  | user (address : BitVec 32)
  deriving DecidableEq, Repr

/-- `struct sigaction`; its flags and restorer only shape the user's stack. -/
structure Sigaction where
  sigaction : Handler
  mask : BitVec 32
  deriving DecidableEq, Repr

/-- `SIG_DFL` with everything else zero. -/
def Sigaction.default : Sigaction where
  sigaction := .dfl
  mask := 0

/-- `struct sigactions`, with the life of its block. -/
structure Sigactions where
  refcount : Int
  sigactions : Nat → Sigaction
  freed : Bool

/-- The codes of `struct siginfo` that the kernel produces. -/
inductive SigCode
  | siUser
  | siKernel
  | cldExited
  deriving DecidableEq, Repr

/-- `struct siginfo`; the members `kill.pid` and `sigchld.pid` of its union
share their place. -/
structure Siginfo where
  signo : Nat
  code : SigCode
  pid : Nat
  status : Int
  deriving DecidableEq, Repr

/-- `struct sigpending` -/
structure Sigpending where
  blockedMask : BitVec 32
  pendingMask : BitVec 32
  forcedMask : BitVec 32
  siginfos : Structure.Array Siginfo

/-- The zero-initialised `struct sigpending`. -/
def Sigpending.empty : Sigpending where
  blockedMask := 0
  pendingMask := 0
  forcedMask := 0
  siginfos := Structure.Array.empty

/-- A pointer to a `struct session` together with the `sid` stored there. -/
structure Session where
  id : Nat
  sid : Nat
  deriving DecidableEq, Repr

/-- `struct task_struct`.  `user` stands for `entry_regs->cs == USER_CS`: the task
returns to user mode rather than into a kernel thread's function. -/
structure TaskStruct where
  pid : Nat
  ppid : Nat
  session : Option Session
  pgid : Nat
  sigpending : Sigpending
  sigactions : SigactionsId
  user : Bool
  state : TaskState
  wakeupCurrent : Bool
  stopped : Bool
  subsystem : Subsystem
  exitcode : Int

/-- The devices whose `read` sleeps until an interrupt brings data. -/
inductive Device
  | tty (minor : Nat)
  | udp (socket : Nat)
  | rtc (file : Nat)
  deriving DecidableEq, Repr

/-- `struct sleep_spec` -/
structure SleepSpec where
  id : Nat
  task : TaskId
  endtime : Nat
  deriving DecidableEq, Repr

/-- Where a task stands in a loop `while (..) schedule();`. -/
inductive SpinPhase
  /-- Before the test of the condition. -/
  | check
  /-- Before `schedule()`. -/
  | sched
  deriving DecidableEq, Repr

/-- Where a task stands in a loop
`while (..) { state = ..; schedule(); state = TASK_RUNNING; }`. -/
inductive Phase
  /-- Before the test of the condition. -/
  | check
  /-- Before `schedule()`. -/
  | sched
  /-- Behind `schedule()`, the state not yet reset. -/
  | woken
  deriving DecidableEq, Repr

/-- What a running `poll` holds: the devices it was asked to watch for input, whether
another descriptor is ready at once, whether it may sleep at all (`timeout != 0`),
and its entry in the sleep queue. -/
structure PollCall where
  devices : List Device
  immediate : Bool
  sleeps : Bool
  spec : Option SleepSpec
  deriving DecidableEq, Repr

/-- What `do_exit` does next. -/
inductive ExitStage
  | closing
  | putSigactions
  | putSiginfos
  | notify
  | reparent
  | sched
  deriving DecidableEq, Repr

/-- Control points. -/
inductive Pc
  /-- Created by `do_clone`, never run. -/
  | entry
  /-- The loop of `kernel_main`. -/
  | idle
  /-- In user mode, or inside a kernel thread's function. -/
  | body
  /-- `return_to_userspace`, before `deliver_signal`. -/
  | retSignal
  /-- `return_to_userspace`, before `cond_schedule`. -/
  | retSched
  /-- `while (current->stopped) schedule();` -/
  | stopLoop (phase : SpinPhase)
  | read (device : Device) (phase : SpinPhase)
  | nanosleep (spec : SleepSpec) (phase : Phase)
  | poll (call : PollCall) (phase : Phase)
  | doWait (child : TaskId) (oldaction : Sigaction) (phase : Phase)
  | doWaitpg (pgid : Nat) (oldaction : Sigaction) (phase : Phase)
  /-- In `do_execve`, the old `sigactions` given up and the new ones not yet there. -/
  | execSwap (subsystem : Subsystem)
  | exit (stage : ExitStage)
  /-- `do_exit` has called `schedule()`; behind the call stands `BUG()`. -/
  | exited
  deriving DecidableEq, Repr

/-- What the waiting and exiting code did, newest first. -/
inductive Event
  /-- The exit of `child` left a `CLD_EXITED` record with `parent`. -/
  | queued (parent child : TaskId)
  /-- `_do_wait(child)` was applied by `caller`, which reported `pid` and `exitcode`. -/
  | reaped (caller child : TaskId) (pid : Nat) (exitcode : Int)
  /-- `do_exit` of `task` freed the block behind its signal records. -/
  | infosFreed (task : TaskId)
  deriving DecidableEq, Repr

/-- The state of the kernel. -/
structure Kernel where
  task : TaskId → TaskStruct
  pc : TaskId → Pc
  /-- The stacks given back by `do_free_tasks`. -/
  freed : TaskId → Bool
  numTasks : TaskId
  sigactions : SigactionsId → Sigactions
  numSigactions : SigactionsId
  numSessions : Nat
  tasks : List TaskId
  scheduleQueue : List TaskId
  freeTasks : List TaskId
  current : TaskId
  /-- The static `pid` of `_next_pid`. -/
  nextPid : Nat
  schedulePitCounter : Nat
  /-- The `task` pointer of a `struct tty`, `udp_socket` or `rtc_private`. -/
  waiter : Device → Option TaskId
  /-- Is there something to read? -/
  ready : Device → Bool
  sleepQueue : List SleepSpec
  numSpecs : Nat
  now : Nat
  log : List Event

/-- `MAXPID` -/
def maxpid : Nat := 32767

/-- `LOOPPID` -/
def looppid : Nat := 16

/-- `NSIG` -/
def nsig : Nat := 32

/-- The first task of all, whose record the boot code writes. -/
def swapperTask : TaskId := 0

namespace Kernel

/-- Rewrite one task's record. -/
def modTask (k : Kernel) (t : TaskId) (f : TaskStruct → TaskStruct) : Kernel :=
  { k with task := Function.update k.task t (f (k.task t)) }

/-- Move one task to another control point. -/
def setPc (k : Kernel) (t : TaskId) (p : Pc) : Kernel :=
  { k with pc := Function.update k.pc t p }

/-- Rewrite one `sigactions` block. -/
def modSigactions (k : Kernel) (a : SigactionsId) (f : Sigactions → Sigactions) :
    Kernel :=
  { k with sigactions := Function.update k.sigactions a (f (k.sigactions a)) }

/-- The record of the running task. -/
def cur (k : Kernel) : TaskStruct :=
  k.task k.current

/-- `get_task_from_pid`; `none` is `ERR_PTR(-ESRCH)`. -/
def getTaskFromPid (k : Kernel) (pid : Nat) : Option TaskId :=
  if maxpid < pid % 2 ^ 16 then none
  else k.tasks.find? fun t => (k.task t).pid = pid % 2 ^ 16

/-- Where a system call, or a helper of a kernel thread, returns to. -/
def retPc (k : Kernel) : Pc :=
  if k.cur.user then .retSignal else .body

/-- Leave the kernel code the running task is in. -/
def leave (k : Kernel) : Kernel :=
  k.setPc k.current k.retPc

end Kernel
end Task
end JkxyKernel
