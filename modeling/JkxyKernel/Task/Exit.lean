import JkxyKernel.Task.Signal

/-!
# Exit and wait

The stages of `do_exit`, and `do_wait` and `do_waitpg` cut at their call of
`schedule()`.

A stage ends where an interrupt can see the difference: between the stages the
running task owns pointers to blocks it has already given back.
-/

namespace JkxyKernel
namespace Task
namespace Kernel

/-- `_do_wait`, applied by the running task; `pid` is what it reports to its caller. -/
def doWaitTask (k : Kernel) (t : TaskId) (pid : Nat) : Kernel :=
  { k.modTask t fun task => { task with state := .dead } with
    tasks := k.tasks.filter (· ≠ t)
    freeTasks := k.freeTasks ++ [t]
    log := .reaped k.current t pid (k.task t).exitcode :: k.log }

/-- The record `do_exit` sends to the parent. -/
def exitSiginfo (k : Kernel) : Siginfo where
  signo := SIGCHLD
  code := .cldExited
  pid := k.cur.pid
  status := k.cur.exitcode

/-- Note in the log that the record of the running task's exit was queued. -/
def logQueued (k : Kernel) (parent : TaskId) : Kernel :=
  { k with log := .queued parent k.current :: k.log }

/-- Would `send_sig_info` queue this record? -/
def queues (k : Kernel) (t : TaskId) (signum : Nat) : Bool :=
  (k.task t).sigpending.pendingMask &&& maskval signum = 0

/-- `put_session` -/
def putSession (k : Kernel) : Kernel :=
  if k.cur.session.isSome then
    k.modTask k.current fun task => { task with session := none, pgid := 0 }
  else k

/-- Give up the running task's reference to its `sigactions`. -/
def putSigactions (k : Kernel) : Except Fault Kernel :=
  let a := k.cur.sigactions
  if (k.sigactions a).freed then .error .useAfterFree
  else .ok (k.modSigactions a fun block =>
    { block with
      refcount := block.refcount - 1
      freed := decide (block.refcount - 1 = 0) })

/-- Free the running task's queued signal records and their array. -/
def putSiginfos (k : Kernel) : Except Fault Kernel :=
  match k.cur.sigpending.siginfos.destroy with
  | .error e => .error e
  | .ok siginfos =>
      .ok { k.modTask k.current fun task =>
          { task with sigpending := { task.sigpending with siginfos := siginfos } } with
        log := if siginfos.mem = .freed then .infosFreed k.current :: k.log else k.log }

/-- The part of `do_exit` that tells the parent. -/
def notifyParent (k : Kernel) : Except Fault Kernel :=
  if k.cur.ppid = 0 then .error .panic
  else
    match k.getTaskFromPid k.cur.ppid with
    | none => .error .errorPointer
    | some parent =>
        match k.sigactionOf parent SIGCHLD with
        | .error e => .error e
        | .ok act =>
            if act.sigaction = .ign then .ok (k.doWaitTask k.current k.cur.pid)
            else if k.queues parent SIGCHLD then
              (k.logQueued parent).sendSigInfo parent k.exitSiginfo
            else k.sendSigInfo parent k.exitSiginfo

/-- The part of `do_exit` that hands the children to the first process. -/
def reparentChildren (k : Kernel) : Kernel :=
  { k with task := fun t =>
      if t ∈ k.tasks ∧ (k.task t).ppid = k.cur.pid then { k.task t with ppid := 1 }
      else k.task t }

/-- One stage of `do_exit`. -/
def exitStage (k : Kernel) : ExitStage → Except Fault Kernel
  | .closing => .ok (k.putSession.setPc k.current (.exit .putSigactions))
  | .putSigactions =>
      match k.putSigactions with
      | .error e => .error e
      | .ok k' => .ok (k'.setPc k.current (.exit .putSiginfos))
  | .putSiginfos =>
      match k.putSiginfos with
      | .error e => .error e
      | .ok k' => .ok (k'.setPc k.current (.exit .notify))
  | .notify =>
      match k.notifyParent with
      | .error e => .error e
      | .ok k' => .ok (k'.setPc k.current (.exit .reparent))
  | .reparent => .ok (k.reparentChildren.setPc k.current (.exit .sched))
  | .sched => k.schedule .exited

/-- Set the running task's state. -/
def setState (k : Kernel) (state : TaskState) : Kernel :=
  k.modTask k.current fun task => { task with state := state }

/-- The start of the sleeping part of `do_wait` and `do_waitpg`: the action for
`SIGCHLD` is put aside, the state set; `wait` makes the control point. -/
def waitSleep (k : Kernel) (wait : Sigaction → Pc) : Except Fault Kernel :=
  match k.sigactionOf k.current SIGCHLD with
  | .error e => .error e
  | .ok oldaction =>
      match k.setSigaction SIGCHLD Sigaction.default with
      | .error e => .error e
      | .ok k' => .ok ((k'.setState .interruptible).setPc k.current (wait oldaction))

/-- `do_wait` up to its first call of `schedule()`. -/
def doWait (k : Kernel) (t : TaskId) : Except Fault Kernel :=
  if k.freed t then .error .useAfterFree
  else if (k.task t).ppid ≠ k.cur.pid then .ok k.leave
  else if (k.task t).state = .zombie then .ok (k.doWaitTask t (k.task t).pid).leave
  else k.waitSleep fun oldaction => .doWait t oldaction .sched

/-- The return of `do_wait` and `do_waitpg` from their loop. -/
def waitReturn (k : Kernel) (oldaction : Sigaction) : Except Fault Kernel :=
  match k.setSigaction SIGCHLD oldaction with
  | .error e => .error e
  | .ok k' => .ok k'.leave

/-- The loop of `do_wait` once a signal is pending. -/
def doWaitSignal (k : Kernel) (t : TaskId) (oldaction : Sigaction) :
    Except Fault Kernel :=
  match k.kernelPeekPendingSig SIGCHLD with
  | .error e => .error e
  | .ok none => k.waitReturn oldaction
  | .ok (some info) =>
      if info.code = .cldExited then
        if k.freed t then .error .useAfterFree
        else if info.pid = (k.task t).pid then
          ((k.kernelGetPendingSig SIGCHLD).doWaitTask t (k.task t).pid).waitReturn oldaction
        else k.waitReturn oldaction
      else k.waitReturn oldaction

/-- The children `do_waitpg` looks at. -/
def children (k : Kernel) (pgid : Nat) : List TaskId :=
  k.tasks.filter fun t =>
    (k.task t).ppid = k.cur.pid ∧ (pgid = 0 ∨ (k.task t).pgid = pgid)

/-- `do_waitpg` up to its first call of `schedule()`. -/
def doWaitpg (k : Kernel) (pgid : Nat) (wait : Bool) : Except Fault Kernel :=
  match (k.children pgid).find? fun t => (k.task t).state = .zombie with
  | some t => .ok (k.doWaitTask t (k.task t).pid).leave
  | none =>
      if k.children pgid = [] then .ok k.leave
      else if wait = false then .ok k.leave
      else k.waitSleep fun oldaction => .doWaitpg pgid oldaction .sched

/-- The loop of `do_waitpg` once a signal is pending. -/
def doWaitpgSignal (k : Kernel) (pgid : Nat) (oldaction : Sigaction) :
    Except Fault Kernel :=
  match k.kernelPeekPendingSig SIGCHLD with
  | .error e => .error e
  | .ok none => k.waitReturn oldaction
  | .ok (some info) =>
      if info.code = .cldExited then
        match k.getTaskFromPid info.pid with
        | none => .error .errorPointer
        | some t =>
            if pgid = 0 ∨ (k.task t).pgid = pgid then
              ((k.kernelGetPendingSig SIGCHLD).doWaitTask t (k.task t).pid).waitReturn
                oldaction
            else k.waitReturn oldaction
      else k.waitReturn oldaction

/-- The loops of `do_wait` and `do_waitpg` from `schedule()` on; `wait` is the control
point for each phase, `found` what happens when a signal is pending. -/
def waitLoop (k : Kernel) (wait : Phase → Pc) (found : Except Fault Kernel) :
    Phase → Except Fault Kernel
  | .sched => k.schedule (wait .woken)
  | .woken => .ok ((k.setState .running).setPc k.current (wait .check))
  | .check =>
      if signalPending k.cur ≠ 0 then found
      else .ok ((k.setState .interruptible).setPc k.current (wait .sched))

/-- The process group `do_sys_waitpid` waits for when its `pid` is not positive. -/
def waitPgid (k : Kernel) (pid : Int) : Nat :=
  if pid < -1 then ((-pid) % 2 ^ 16).toNat
  else if pid = -1 then 0
  else k.cur.pgid % 2 ^ 16

/-- `do_sys_waitpid` up to the first call of `schedule()`. -/
def doSysWaitpid (k : Kernel) (pid : Int) (wnohang : Bool) : Except Fault Kernel :=
  if pid < 1 then k.doWaitpg (k.waitPgid pid) (!wnohang)
  else
    match k.getTaskFromPid pid.toNat with
    | none => .ok k.leave
    | some t =>
        if (k.task t).state ≠ .zombie ∧ wnohang = true then .ok k.leave
        else k.doWait t

end Kernel
end Task
end JkxyKernel
