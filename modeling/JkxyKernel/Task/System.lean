import JkxyKernel.Lib.Machine
import JkxyKernel.Task.Exit

/-!
# The process subsystem as a machine

Creation and replacement of tasks (`clone.c`, the part of `exec.c` that swaps the
signal actions), sessions, the sleeping system calls, the interrupt handlers, and
the machine that interleaves all of them.

A label is either a move of the running task or an interrupt.  In `body` the task
chooses what it calls; everywhere else the control point determines the move.
-/

namespace JkxyKernel
namespace Task
namespace Kernel

/-! ### Creating and replacing tasks -/

/-- `_next_pid`: the counter after `pid`. -/
def succPid (pid : Nat) : Nat :=
  if maxpid < pid + 1 then looppid else pid + 1

/-- `next_pid`, with the counter it leaves behind; `none` when no pid turned up in
`fuel` rounds. -/
def nextPidFrom (k : Kernel) : Nat → Nat → Option (Nat × Nat)
  | 0, _ => none
  | fuel + 1, pid =>
      if (k.getTaskFromPid pid).isNone then some (pid, succPid pid)
      else k.nextPidFrom fuel (succPid pid)

/-- `CLONE_SIGHAND` -/
def cloneSighand (flags : BitVec 32) : Bool := flags.getLsbD 11

/-- `CLONE_PARENT` -/
def cloneParent (flags : BitVec 32) : Bool := flags.getLsbD 15

/-- The signal actions of a child: shared, or copied into a new block. -/
def cloneSigactions (k : Kernel) (flags : BitVec 32) : Kernel × SigactionsId :=
  let block := k.sigactions k.cur.sigactions
  if cloneSighand flags then
    (k.modSigactions k.cur.sigactions fun b => { b with refcount := b.refcount + 1 },
      k.cur.sigactions)
  else
    ({ k with
        sigactions := Function.update k.sigactions k.numSigactions
          { refcount := 1, sigactions := block.sigactions, freed := false }
        numSigactions := k.numSigactions + 1 },
      k.numSigactions)

/-- The record of a new task. -/
def cloneTask (k : Kernel) (flags : BitVec 32) (user : Bool) (pid : Nat)
    (sigactions : SigactionsId) : TaskStruct where
  pid := pid
  ppid := if cloneParent flags then k.cur.ppid else k.cur.pid
  session := k.cur.session
  pgid := k.cur.pgid
  sigpending := Sigpending.empty
  sigactions := sigactions
  user := user
  state := .running
  wakeupCurrent := false
  stopped := false
  subsystem := k.cur.subsystem
  exitcode := 0

/-- The end of `do_clone`: the new record goes to the end of `tasks`. -/
def addTask (k : Kernel) (task : TaskStruct) : Kernel :=
  { k with
    task := Function.update k.task k.numTasks task
    pc := Function.update k.pc k.numTasks .entry
    tasks := k.tasks ++ [k.numTasks]
    numTasks := k.numTasks + 1 }

/-- `do_clone`, followed by the `wake_up_process` of its callers.  While every pid is
taken, `next_pid` goes on searching. -/
def doClone (k : Kernel) (flags : BitVec 32) (user : Bool) : Except Fault Kernel :=
  match k.nextPidFrom (maxpid + 1) k.nextPid with
  | none => .ok k
  | some (pid, next) =>
      if (k.sigactions k.cur.sigactions).freed then .error .useAfterFree
      else
        let task := k.cloneTask flags user pid (k.cloneSigactions flags).2
        .ok (({ (k.cloneSigactions flags).1 with nextPid := next }.addTask task).wakeUpProcess
          k.numTasks)

/-- The first half of the swap of signal actions in `do_execve`. -/
def execPut (k : Kernel) (subsystem : Subsystem) : Except Fault Kernel :=
  match k.putSigactions with
  | .error e => .error e
  | .ok k' => .ok (k'.setPc k.current (.execSwap subsystem))

/-- The second half: new actions, all default. -/
def execInstall (k : Kernel) (subsystem : Subsystem) : Kernel :=
  let k' := { k with
    sigactions := Function.update k.sigactions k.numSigactions
      { refcount := 1, sigactions := fun _ => Sigaction.default, freed := false }
    numSigactions := k.numSigactions + 1 }
  (k'.modTask k.current fun task =>
    { task with sigactions := k.numSigactions, subsystem := subsystem, user := true }).leave

/-! ### Sessions -/

/-- `do_setsid` -/
def doSetsid (k : Kernel) : Kernel :=
  if k.tasks.any fun t => (k.task t).pgid = k.cur.pid then k
  else
    { k.modTask k.current fun task => { task with
        session := some { id := k.numSessions, sid := task.pid }, pgid := task.pid } with
      numSessions := k.numSessions + 1 }

/-- `do_setpgid` -/
def doSetpgid (k : Kernel) (pid pgid : Int) : Kernel :=
  let pid := if pid = 0 then (k.cur.pid : Int) else pid
  let pgid := if pgid = 0 then (k.cur.pid : Int) else pgid
  match k.getTaskFromPid (pid % 2 ^ 16).toNat, k.getTaskFromPid (pgid % 2 ^ 16).toNat with
  | some t, some leader =>
      match (k.task t).session, (k.task leader).session with
      | some s, some s' =>
          if s.sid = (k.task t).pid ∨ s.id ≠ s'.id then k
          else k.modTask t fun task => { task with pgid := (pgid % 2 ^ 32).toNat }
      | _, _ => k
  | _, _ => k

/-! ### Reading from devices -/

/-- Does a signal end the wait for this device? -/
def Device.interruptible : Device → Bool
  | .tty _ => true
  | .udp _ => true
  | .rtc _ => false

/-- `tty_read`, `udp_read` and `rtc_read` up to their loop.  `rtc_read` waits for the
next tick, whatever happened before. -/
def readEnter (k : Kernel) (d : Device) : Kernel :=
  if (k.waiter d).isSome then k.leave
  else
    let state := if Device.interruptible d then .interruptible else .uninterruptible
    ({ k with
        waiter := Function.update k.waiter d (some k.current)
        ready := Function.update k.ready d (k.ready d && Device.interruptible d) }.setState
      state).setPc k.current (.read d .check)

/-- The rest of the read calls; `rest` says that data stay behind. -/
def readLoop (k : Kernel) (d : Device) (rest : Bool) : SpinPhase → Except Fault Kernel
  | .sched => k.schedule (.read d .check)
  | .check =>
      let signal := Device.interruptible d ∧ signalPending k.cur ≠ 0
      if k.ready d = true ∨ signal then
        let ready := if signal then k.ready d else k.ready d && rest
        .ok ({ k.setState .running with
          waiter := Function.update k.waiter d none
          ready := Function.update k.ready d ready }.leave)
      else .ok (k.setPc k.current (.read d .sched))

/-! ### Sleeping for a time -/

/-- `sleep_add`; the queue is ordered by `endtime`. -/
def sleepAdd (k : Kernel) (time : Nat) : Kernel × SleepSpec :=
  let spec : SleepSpec := { id := k.numSpecs, task := k.current, endtime := k.now + time }
  ({ k with
      sleepQueue := k.sleepQueue.takeWhile (·.endtime ≤ spec.endtime) ++
        spec :: k.sleepQueue.dropWhile (·.endtime ≤ spec.endtime)
      numSpecs := k.numSpecs + 1 }, spec)

/-- `sleep_finalize` -/
def sleepFinalize (k : Kernel) (spec : SleepSpec) : Kernel :=
  { k with sleepQueue := k.sleepQueue.filter (· ≠ spec) }

/-- `nanosleep` up to its loop. -/
def nanosleepEnter (k : Kernel) (time : Nat) : Kernel :=
  (k.sleepAdd time).1.setPc k.current (.nanosleep (k.sleepAdd time).2 .check)

/-- The loop of `nanosleep`. -/
def nanosleepLoop (k : Kernel) (spec : SleepSpec) : Phase → Except Fault Kernel
  | .sched => k.schedule (.nanosleep spec .woken)
  | .woken => .ok ((k.setState .running).setPc k.current (.nanosleep spec .check))
  | .check =>
      if spec.endtime ≤ k.now ∨ signalPending k.cur ≠ 0 then
        .ok (k.sleepFinalize spec).leave
      else .ok ((k.setState .interruptible).setPc k.current (.nanosleep spec .sched))

/-! ### Polling -/

/-- `poll` up to its loop; a positive `timeout` makes an entry in the sleep queue. -/
def pollEnter (k : Kernel) (devices : List Device) (immediate : Bool) (timeout : Int) :
    Kernel :=
  if 0 < timeout then
    (k.sleepAdd timeout.toNat).1.setPc k.current (.poll
      { devices := devices, immediate := immediate, sleeps := true,
        spec := some (k.sleepAdd timeout.toNat).2 } .check)
  else
    k.setPc k.current (.poll
      { devices := devices, immediate := immediate, sleeps := timeout ≠ 0, spec := none }
      .check)

/-- `tty_poll` and `udp_poll` on every watched device. -/
def pollRegister (k : Kernel) (devices : List Device) : Kernel :=
  { k with waiter := fun d =>
      if d ∈ devices ∧ k.waiter d = none then some k.current else k.waiter d }

/-- `tty_poll_cb` and `udp_poll_cb` on every watched device. -/
def pollUnregister (k : Kernel) (devices : List Device) : Kernel :=
  { k with waiter := fun d =>
      if d ∈ devices ∧ k.waiter d = some k.current then none else k.waiter d }

/-- The end of `poll`. -/
def pollLeave (k : Kernel) (call : PollCall) : Kernel :=
  match call.spec with
  | none => (k.pollUnregister call.devices).leave
  | some spec => ((k.pollUnregister call.devices).sleepFinalize spec).leave

/-- Has the time of this `poll` run out? -/
def pollExpired (k : Kernel) (call : PollCall) : Bool :=
  match call.spec with
  | none => false
  | some spec => spec.endtime ≤ k.now

/-- Does one of the descriptors of this `poll` have an event? -/
def pollHit (k : Kernel) (call : PollCall) : Bool :=
  call.immediate || call.devices.any fun d => k.waiter d = some k.current ∧ k.ready d = true

/-- The loop of `poll`. -/
def pollLoop (k : Kernel) (call : PollCall) : Phase → Except Fault Kernel
  | .sched => k.schedule (.poll call .woken)
  | .woken => .ok ((k.setState .running).setPc k.current (.poll call .check))
  | .check =>
      if signalPending k.cur ≠ 0 then .ok (k.pollLeave call)
      else
        let k := k.pollRegister call.devices
        if k.pollHit call ∨ call.sleeps = false ∨ k.pollExpired call then
          .ok (k.pollLeave call)
        else .ok ((k.setState .interruptible).setPc k.current (.poll call .sched))

/-! ### Interrupts -/

/-- The handlers of keyboard, network and real-time clock that bring data to a device. -/
def deviceHandler (k : Kernel) (d : Device) : Kernel :=
  let k := { k with ready := Function.update k.ready d true }
  match k.waiter d with
  | none => k
  | some t => k.wakeUpProcess t

/-- `wake_up_process` on the tasks of a list of sleepers. -/
def wakeSleepers (k : Kernel) : List SleepSpec → Kernel
  | [] => k
  | spec :: specs => (k.wakeUpProcess spec.task).wakeSleepers specs

/-- `rtc_handler` of `sleep.c` after `ticks` have passed. -/
def sleepHandler (k : Kernel) (ticks : Nat) : Kernel :=
  let k := { k with now := k.now + ticks }
  { k with sleepQueue := k.sleepQueue.filter fun spec => k.now < spec.endtime }.wakeSleepers
    (k.sleepQueue.filter fun spec => spec.endtime ≤ k.now)

/-- An interrupt returns; from user mode it goes through `return_to_userspace`. -/
def irqReturn (k : Kernel) : Kernel :=
  if k.pc k.current = .body ∧ k.cur.user = true then k.setPc k.current .retSignal else k

end Kernel

/-- What a task can call from `body`. -/
inductive Call
  | clone (flags : BitVec 32)
  | kernelThread
  | execute
  | execve (subsystem : Subsystem)
  | exit (status : Int)
  | halt (status : Nat)
  /-- A kernel thread's function returns. -/
  | threadReturn (exitcode : Int)
  | kill (pid : Int) (signum : Nat)
  | tgkill (tgid tid : Int) (signum : Nat)
  | waitpid (pid : Int) (wnohang : Bool)
  | rtSigaction (signum : Nat) (act : Sigaction)
  | rtSigprocmask (how : Nat) (set : BitVec 32)
  | sigreturn (oldmask : BitVec 32)
  | setsid
  | setpgid (pid pgid : Int)
  | read (device : Device)
  | nanosleep (time : Nat)
  | poll (devices : List Device) (immediate : Bool) (timeout : Int)
  /-- A processor exception in user mode. -/
  | exception (signum : Nat)
  /-- `force_sig(current, SIGSEGV)` of a system call that fails half-way. -/
  | forceSegv
  | kernelGetPendingSig (signum : Nat)
  | kernelMaskSignal (signum : Nat)
  | kernelUnmaskSignal (signum : Nat)
  /-- Any system call that touches none of this. -/
  | other
  deriving DecidableEq, Repr

/-- One step of the system. -/
inductive Label
  | call (c : Call)
  /-- The running task goes on inside the kernel; `choice` resolves what the model
  leaves open. -/
  | go (choice : Bool)
  | irqDevice (device : Device)
  | irqSleep (ticks : Nat)
  | irqPit
  /-- The interrupt character is typed at the foreground terminal. -/
  | irqTty (pgid : Nat)
  deriving DecidableEq, Repr

/-- The calls that only code of the kernel itself makes. -/
def Call.kernelOnly : Call → Bool
  | .threadReturn _ | .kernelGetPendingSig _ | .kernelMaskSignal _ | .kernelUnmaskSignal _ =>
      true
  | _ => false

/-- The calls that only user programs make. -/
def Call.userOnly : Call → Bool
  | .clone _ | .execute | .exit _ | .halt _ | .rtSigaction _ _ | .rtSigprocmask _ _ |
    .sigreturn _ | .exception _ | .forceSegv => true
  | _ => false

/-- The kernel's own code names signals by constants: those of the processor exceptions,
and entries of the table of signal actions. -/
def Call.namesOwn : Call → Bool
  | .exception signum => signum ∈ [SIGFPE, SIGSEGV, SIGILL, SIGBUS]
  | .kernelGetPendingSig signum | .kernelMaskSignal signum | .kernelUnmaskSignal signum =>
      signum < nsig
  | _ => true

namespace Kernel

/-- The status word of `exit`. -/
def exitStatus (status : Int) : Int :=
  if status < 0 ∨ 255 < status then 255 * 256 else status * 256

/-- A system call that finishes at once. -/
def finish (r : Except Fault Kernel) : Except Fault Kernel :=
  match r with
  | .error e => .error e
  | .ok k => .ok k.leave

/-- Is this signal open to `rt_sigaction`? -/
def sigactionAllowed (signum : Nat) : Bool :=
  0 < signum ∧ signum < nsig ∧ signum ≠ SIGKILL ∧ signum ≠ SIGSTOP

/-- The running task makes a call. -/
def runCall (k : Kernel) : Call → Except Fault Kernel
  | .clone flags => finish (k.doClone flags true)
  | .kernelThread => finish (k.doClone 0 false)
  | .execute =>
      match k.doClone 0 false with
      | .error e => .error e
      | .ok k' => if k'.numTasks = k.numTasks then .ok k else k'.doWait k.numTasks
  | .execve subsystem => k.execPut subsystem
  | .exit status => .ok (k.doExit (exitStatus status))
  | .halt status => .ok (k.doExit (status % 256))
  | .threadReturn exitcode => .ok (k.doExit exitcode)
  | .kill pid signum => finish (k.kill pid signum)
  | .tgkill tgid tid signum => finish (k.tgkill tgid tid signum)
  | .waitpid pid wnohang => k.doSysWaitpid pid wnohang
  | .rtSigaction signum act =>
      if sigactionAllowed signum then finish (k.setSigaction signum act) else .ok k.leave
  | .rtSigprocmask how set => .ok (k.sigprocmask how set).leave
  | .sigreturn oldmask => .ok (k.setSigmask oldmask).leave
  | .setsid => .ok k.doSetsid.leave
  | .setpgid pid pgid => .ok (k.doSetpgid pid pgid).leave
  | .read d => .ok (k.readEnter d)
  | .nanosleep time => .ok (k.nanosleepEnter time)
  | .poll devices immediate timeout => .ok (k.pollEnter devices immediate timeout)
  | .exception signum => finish (k.sendSig k.current signum)
  | .forceSegv => finish (k.forceSig k.current SIGSEGV)
  | .kernelGetPendingSig signum => .ok (k.kernelGetPendingSig signum)
  | .kernelMaskSignal signum => k.setSigaction signum { sigaction := .ign, mask := 0 }
  | .kernelUnmaskSignal signum => k.setSigaction signum Sigaction.default
  | .other => .ok k.leave

/-- The running task goes on from its control point. -/
def goOn (k : Kernel) (choice : Bool) : Except Fault Kernel :=
  match k.pc k.current with
  | .entry => .ok k.leave
  | .idle => if k.scheduleQueue = [] then .ok k else k.schedule .idle
  | .body => .ok k
  | .retSignal => k.deliverSignal choice
  | .retSched =>
      if k.schedulePitCounter < 1 then .ok (k.setPc k.current .body) else k.schedule .body
  | .stopLoop .check =>
      if k.cur.stopped then .ok (k.setPc k.current (.stopLoop .sched)) else .error .bug
  | .stopLoop .sched => k.schedule (.stopLoop .check)
  | .read d phase => k.readLoop d choice phase
  | .nanosleep spec phase => k.nanosleepLoop spec phase
  | .poll call phase => k.pollLoop call phase
  | .doWait t oldaction phase =>
      k.waitLoop (.doWait t oldaction) (k.doWaitSignal t oldaction) phase
  | .doWaitpg pgid oldaction phase =>
      k.waitLoop (.doWaitpg pgid oldaction) (k.doWaitpgSignal pgid oldaction) phase
  | .execSwap subsystem => .ok (k.execInstall subsystem)
  | .exit stage => k.exitStage stage
  | .exited => .error .bug

/-- The effect of a label. -/
def execLabel (k : Kernel) (l : Label) : Except Fault Kernel :=
  if k.freed k.current then .error .useAfterFree
  else
    match l with
    | .call c => k.runCall c
    | .go choice => k.goOn choice
    | .irqDevice d => .ok (k.deviceHandler d).irqReturn
    | .irqSleep ticks => .ok (k.sleepHandler ticks).irqReturn
    | .irqPit => .ok { k with schedulePitCounter := k.schedulePitCounter + 1 }.irqReturn
    | .irqTty pgid =>
        match k.sendSigInfoPg pgid
            { signo := SIGINT, code := .siKernel, pid := 0, status := 0 } with
        | .error e => .error e
        | .ok k' => .ok k'.irqReturn

/-- May this label be taken? -/
def enabledLabel (k : Kernel) : Label → Bool
  | .call c =>
      k.pc k.current = .body ∧ (c.kernelOnly = true → k.cur.user = false) ∧
        (c.userOnly = true → k.cur.user = true) ∧ c.namesOwn = true
  | .go _ => k.pc k.current ≠ .body
  | _ => true

end Kernel

/-- The process subsystem. -/
def machine : Machine Kernel Label Fault where
  enabled l k := k.enabledLabel l
  exec l k := k.execLabel l

/-- The record of a kernel task right after the boot code made it. -/
def bootTask (pid : Nat) (sigactions : SigactionsId) : TaskStruct where
  pid := pid
  ppid := 0
  session := none
  pgid := 0
  sigpending := Sigpending.empty
  sigactions := sigactions
  user := false
  state := .running
  wakeupCurrent := false
  stopped := false
  subsystem := .linux
  exitcode := 0

/-- The state in which `kernel_main` enters its loop: `swapper_task` is running, the
first process is ready to start, and every kernel task ignores every signal.  The
thread `kthreadd` and the threads it makes belong to the drivers and are left out. -/
def boot : Kernel where
  task t := if t = swapperTask then bootTask 0 0 else bootTask 1 1
  pc t := if t = swapperTask then .idle else .entry
  freed _ := false
  numTasks := 2
  sigactions a :=
    { refcount := if a < 2 then 1 else 0
      sigactions := fun _ => { sigaction := .ign, mask := 0 }
      freed := false }
  numSigactions := 2
  numSessions := 0
  tasks := [1]
  scheduleQueue := [1]
  freeTasks := []
  current := swapperTask
  nextPid := 2
  schedulePitCounter := 0
  waiter _ := none
  ready _ := false
  sleepQueue := []
  numSpecs := 0
  now := 0
  log := []

/-- The machine starts in `boot`. -/
def Init (k : Kernel) : Prop :=
  k = boot

/-- The run that turns the first process into a user program. -/
def userRun : List Label :=
  [.go false, .go false, .call (.execve .linux), .go false, .go false, .go false]

end Task
end JkxyKernel
