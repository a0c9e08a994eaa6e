import JkxyKernel.Task.Sched

/-!
# Signals

The sending and the delivery of signals (`signal.c`).
-/

namespace JkxyKernel
namespace Task

def SIGHUP : Nat := 1
def SIGINT : Nat := 2
def SIGILL : Nat := 4
def SIGABRT : Nat := 6
def SIGBUS : Nat := 7
def SIGFPE : Nat := 8
def SIGKILL : Nat := 9
def SIGUSR1 : Nat := 10
def SIGSEGV : Nat := 11
def SIGPIPE : Nat := 13
def SIGALRM : Nat := 14
def SIGTERM : Nat := 15
def SIGCHLD : Nat := 17
def SIGCONT : Nat := 18
def SIGSTOP : Nat := 19
def SIGTSTP : Nat := 20
def SIGTTIN : Nat := 21
def SIGTTOU : Nat := 22

/-- `MASKVAL`; the processor takes the shift count modulo 32. -/
def maskval (signum : Nat) : BitVec 32 :=
  1#32 <<< (signum % 32)

/-- `SIG_UNMASKABLE` -/
def sigUnmaskable : BitVec 32 :=
  maskval SIGKILL ||| maskval SIGSTOP ||| maskval SIGCONT

/-- `enum default_action` -/
inductive DefaultAction
  | ignore
  | kill
  | stop
  | cont
  deriving DecidableEq, Repr

/-- `default_sig_action` -/
def defaultSigAction (signum : Nat) : DefaultAction :=
  if signum ∈ [SIGHUP, SIGINT, SIGILL, SIGABRT, SIGBUS, SIGKILL, SIGSEGV, SIGPIPE, SIGTERM]
  then .kill
  else if signum ∈ [SIGSTOP, SIGTSTP, SIGTTIN, SIGTTOU] then .stop
  else if signum = SIGCONT then .cont
  else .ignore

/-- `fatal_signal_pending` -/
def fatalSignalPending (task : TaskStruct) : BitVec 32 :=
  task.sigpending.pendingMask &&& (task.sigpending.forcedMask ||| sigUnmaskable)

/-- `signal_pending` -/
def signalPending (task : TaskStruct) : BitVec 32 :=
  fatalSignalPending task |||
    (task.sigpending.pendingMask &&& ~~~task.sigpending.blockedMask)

/-- `signal_pending_one`: the highest fatal signal, else the highest pending one. -/
def signalPendingOne (task : TaskStruct) : Nat :=
  if fatalSignalPending task ≠ 0 then (fatalSignalPending task).toNat.log2
  else if signalPending task ≠ 0 then (signalPending task).toNat.log2
  else 0

/-- `signal_is_fatal` -/
def signalIsFatal (task : TaskStruct) (signum : Nat) : Bool :=
  maskval signum &&& (task.sigpending.forcedMask ||| sigUnmaskable) ≠ 0

/-- Take a signal out of the pending and the forced mask. -/
def Sigpending.clear (p : Sigpending) (signum : Nat) : Sigpending :=
  { p with
    pendingMask := p.pendingMask &&& ~~~maskval signum
    forcedMask := p.forcedMask &&& ~~~maskval signum }

namespace Kernel

/-- The entry of a task's `sigactions` for one signal. -/
def sigactionOf (k : Kernel) (t : TaskId) (signum : Nat) : Except Fault Sigaction :=
  if (k.sigactions (k.task t).sigactions).freed then .error .useAfterFree
  else if nsig ≤ signum then .error .outOfBounds
  else .ok ((k.sigactions (k.task t).sigactions).sigactions signum)

/-- Write the running task's entry for one signal. -/
def setSigaction (k : Kernel) (signum : Nat) (act : Sigaction) : Except Fault Kernel :=
  if (k.sigactions k.cur.sigactions).freed then .error .useAfterFree
  else if nsig ≤ signum then .error .outOfBounds
  else .ok (k.modSigactions k.cur.sigactions fun a =>
    { a with sigactions := Function.update a.sigactions signum act })

/-- The part of `send_sig_info` that records a signal with its information. -/
def postSignal (k : Kernel) (t : TaskId) (info : Siginfo) : Except Fault Kernel :=
  match (k.task t).sigpending.siginfos.set info.signo (some info) with
  | .error e => .error e
  | .ok siginfos =>
      .ok (k.modTask t fun task => { task with
        sigpending := { task.sigpending with
          pendingMask := task.sigpending.pendingMask ||| maskval info.signo
          siginfos := siginfos } })

/-- The part of `send_sig_info` that serves `SIGCONT`. -/
def sendCont (k : Kernel) (t : TaskId) : Kernel :=
  if (k.task t).stopped then
    (k.modTask t fun task => { task with stopped := false }).wakeUpProcess t
  else k

/-- `send_sig_info` -/
def sendSigInfo (k : Kernel) (t : TaskId) (info : Siginfo) : Except Fault Kernel :=
  if k.freed t then .error .useAfterFree
  else if (k.task t).sigpending.pendingMask &&& maskval info.signo ≠ 0 then .ok k
  else
    match k.sigactionOf t info.signo with
    | .error e => .error e
    | .ok sigaction =>
        if sigaction.sigaction = .ign then .ok k
        else if info.signo = SIGCONT then .ok (k.sendCont t)
        else
          match k.postSignal t info with
          | .error e => .error e
          | .ok k' =>
              if (k.task t).state = .interruptible then .ok (k'.wakeUpProcess t)
              else .ok k'

/-- `send_sig_info` to each task of a list. -/
def sendSigInfoAll (k : Kernel) (info : Siginfo) : List TaskId → Except Fault Kernel
  | [] => .ok k
  | t :: ts =>
      match k.sendSigInfo t info with
      | .error e => .error e
      | .ok k' => k'.sendSigInfoAll info ts

/-- `send_sig` -/
def sendSig (k : Kernel) (t : TaskId) (signum : Nat) : Except Fault Kernel :=
  k.sendSigInfo t { signo := signum, code := .siKernel, pid := 0, status := 0 }

/-- `force_sig` -/
def forceSig (k : Kernel) (t : TaskId) (signum : Nat) : Except Fault Kernel :=
  match k.sendSig t signum with
  | .error e => .error e
  | .ok k' =>
      .ok (k'.modTask t fun task => { task with
        sigpending := { task.sigpending with
          forcedMask := task.sigpending.forcedMask ||| maskval signum } })

/-- `send_sig_info_pg` -/
def sendSigInfoPg (k : Kernel) (pgid : Nat) (info : Siginfo) : Except Fault Kernel :=
  match k.getTaskFromPid pgid with
  | none => .ok k
  | some leader =>
      if (k.task leader).pgid ≠ pgid % 2 ^ 16 then k.sendSigInfo leader info
      else k.sendSigInfoAll info
        (k.tasks.filter fun t => (k.task t).pgid = pgid % 2 ^ 16)

/-- The tasks that `kill` addresses when its argument is not positive. -/
def killTargets (k : Kernel) (pid : Int) : List TaskId :=
  let pgid : Nat :=
    if pid < -1 then ((-pid) % 2 ^ 16).toNat
    else if pid = -1 then 0
    else k.cur.pgid % 2 ^ 16
  k.tasks.filter fun t =>
    (pgid = 0 ∧ 1 < (k.task t).pid) ∨ (k.task t).pgid = pgid

/-- `kill`, without its return value. -/
def kill (k : Kernel) (pid : Int) (signum : Nat) : Except Fault Kernel :=
  let info : Siginfo := { signo := signum, code := .siUser, pid := k.cur.pid, status := 0 }
  if nsig < signum then .ok k
  else if pid < 1 then
    if signum = 0 then .ok k else k.sendSigInfoAll info (k.killTargets pid)
  else
    match k.getTaskFromPid pid.toNat with
    | none => .ok k
    | some t => if signum = 0 then .ok k else k.sendSigInfo t info

/-- `tgkill`, without its return value. -/
def tgkill (k : Kernel) (tgid tid : Int) (signum : Nat) : Except Fault Kernel :=
  let info : Siginfo := { signo := signum, code := .siUser, pid := k.cur.pid, status := 0 }
  if nsig < signum then .ok k
  else if tid ≠ tgid then .ok k
  else
    match k.getTaskFromPid (tid % 2 ^ 16).toNat with
    | none => .ok k
    | some t => if signum = 0 then .ok k else k.sendSigInfo t info

/-- `kernel_peek_pending_sig` of the running task: `none` when the signal is not
pending, whether or not it is blocked. -/
def kernelPeekPendingSig (k : Kernel) (signum : Nat) : Except Fault (Option Siginfo) :=
  if k.cur.sigpending.pendingMask &&& maskval signum = 0 then .ok none
  else
    match k.cur.sigpending.siginfos.get signum with
    | .error e => .error e
    | .ok none => .error .nullPointer
    | .ok (some info) => .ok (some info)

/-- The effect of `kernel_get_pending_sig` on the masks of the running task. -/
def kernelGetPendingSig (k : Kernel) (signum : Nat) : Kernel :=
  k.modTask k.current fun task =>
    { task with sigpending := task.sigpending.clear signum }

/-- `set_sigmask` of the running task. -/
def setSigmask (k : Kernel) (newmask : BitVec 32) : Kernel :=
  k.modTask k.current fun task => { task with
    sigpending := { task.sigpending with blockedMask := newmask &&& ~~~sigUnmaskable } }

/-- The `how` of `rt_sigprocmask`. -/
def sigprocmask (k : Kernel) (how : Nat) (set : BitVec 32) : Kernel :=
  match how with
  | 0 => k.setSigmask (k.cur.sigpending.blockedMask ||| set)
  | 1 => k.setSigmask (k.cur.sigpending.blockedMask &&& ~~~set)
  | 2 => k.setSigmask set
  | _ => k

/-- The start of `do_exit`: the exit code and the state; the rest follows in stages. -/
def doExit (k : Kernel) (exitcode : Int) : Kernel :=
  (k.modTask k.current fun task =>
    { task with exitcode := exitcode, state := .zombie }).setPc k.current (.exit .closing)

/-- The signals a program of the ECE391 subsystem can have a handler for. -/
def ece391Signals : List Nat :=
  [SIGFPE, SIGSEGV, SIGINT, SIGALRM, SIGUSR1]

/-- The end of `deliver_signal`: enter the user's handler.  `pushFails` says that the
user's stack does not take the frame, after which `SIGSEGV` is forced and delivered. -/
def enterHandler (k : Kernel) (signum : Nat) (act : Sigaction) (pushFails : Bool) :
    Except Fault Kernel :=
  match k.cur.subsystem with
  | .linux =>
      if pushFails then k.forceSig k.current SIGSEGV
      else .ok ((k.setSigmask act.mask).setPc k.current .retSched)
  | .ece391 =>
      if pushFails ∨ signum ∉ ece391Signals then k.forceSig k.current SIGSEGV
      else .ok (k.setPc k.current .retSched)

/-- The exit code of a task killed by a signal. -/
def killCode (subsystem : Subsystem) (signum : Nat) : Int :=
  match subsystem with
  | .linux => 128 + signum
  | .ece391 => 256

/-- `deliver_signal` -/
def deliverSignal (k : Kernel) (pushFails : Bool) : Except Fault Kernel :=
  let signum := signalPendingOne k.cur
  if signum = 0 then .ok (k.setPc k.current .retSched)
  else
    let isFatal := signalIsFatal k.cur signum
    let k := k.kernelGetPendingSig signum
    match k.sigactionOf k.current signum with
    | .error e => .error e
    | .ok act =>
        if isFatal ∨ act.sigaction = .dfl then
          match defaultSigAction signum with
          | .ignore => .ok (k.setPc k.current .retSched)
          | .kill => .ok (k.doExit (killCode k.cur.subsystem signum))
          | .stop =>
              .ok ((k.modTask k.current fun task => { task with stopped := true }).setPc
                k.current (.stopLoop .check))
          | .cont => .error .bug
        else if act.sigaction = .ign then .ok (k.setPc k.current .retSched)
        else k.enterHandler signum act pushFails

end Kernel
end Task
end JkxyKernel
