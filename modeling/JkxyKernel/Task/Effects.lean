import JkxyKernel.Task.Steps

/-!
# The effects of a step on the process table

Most of what the kernel does leaves alone who is alive, who owns which block and who
waits for whom.  Such a change is `Quiet`.  What remains is a short list of moves
(`Move`): creating a task, swapping its signal actions, the stages of `do_exit`, and
reaping.  `step_effect` says that every step of the machine is at most one move and a
quiet change; the invariants about signals and about waiting go through the moves.
-/

namespace JkxyKernel
namespace Task

open Kernel

/-- How far a task is on its way out, as far as its blocks are concerned. -/
inductive Life
  | normal
  | swapping
  | dying (stage : ExitStage)
  | gone
  deriving DecidableEq, Repr

/-- The life of the task that stands at a control point. -/
def Pc.life : Pc → Life
  | .execSwap _ => .swapping
  | .exit stage => .dying stage
  | .exited => .gone
  | _ => .normal

/-- The child that `do_wait` holds a pointer to. -/
def Pc.awaited : Pc → Option TaskId
  | .doWait t _ _ => some t
  | _ => none

/-- The record of a child's exit that is pending for a task. -/
def TaskStruct.chldRecord (x : TaskStruct) : Option Siginfo :=
  if x.sigpending.pendingMask &&& maskval SIGCHLD = 0 then none
  else (x.sigpending.siginfos.lookup SIGCHLD).filter fun info => info.code = .cldExited

/-- Nothing happens to a task record that its parent or a sender could notice. -/
structure SameRecord (x y : TaskStruct) : Prop where
  pid : y.pid = x.pid
  ppid : y.ppid = x.ppid
  exitcode : y.exitcode = x.exitcode
  sigactions : y.sigactions = x.sigactions
  zombie : y.state = .zombie → x.state = .zombie
  mem : y.sigpending.siginfos.mem = .freed ↔ x.sigpending.siginfos.mem = .freed
  chld : y.chldRecord = none ∨ y.chldRecord = x.chldRecord

/-- A change that leaves the process table as it is. -/
structure Quiet (k k' : Kernel) : Prop where
  tasks : k'.tasks = k.tasks
  numTasks : k'.numTasks = k.numTasks
  nextPid : k'.nextPid = k.nextPid
  log : k'.log = k.log
  /-- Without a switch no stack is freed; a switch is made by an ordinary task. -/
  freedStacks : k'.freed = k.freed ∧ k'.freeTasks = k.freeTasks ∧ k'.current = k.current ∨
    (k.pc k.current).life = .normal ∧
      (k'.freed = k.freed ∧ k'.freeTasks = k.freeTasks ∨
        freeStacks k.freeTasks k.freed = .ok k'.freed ∧ k'.freeTasks = [])
  life : ∀ t, (k'.pc t).life = (k.pc t).life
  awaited : ∀ t, (k'.pc t).awaited = none ∨ (k'.pc t).awaited = (k.pc t).awaited
  refcount : ∀ a, (k'.sigactions a).refcount = (k.sigactions a).refcount
  freed : ∀ a, (k'.sigactions a).freed = (k.sigactions a).freed
  numSigactions : k'.numSigactions = k.numSigactions
  record : ∀ t, SameRecord (k.task t) (k'.task t)
  ended : ∀ t, (k.pc t).life ≠ .normal → (k'.task t).state = (k.task t).state

theorem SameRecord.refl (x : TaskStruct) : SameRecord x x :=
  ⟨rfl, rfl, rfl, rfl, id, Iff.rfl, .inr rfl⟩

theorem SameRecord.trans {x y z : TaskStruct} (h : SameRecord x y) (h' : SameRecord y z) :
    SameRecord x z where
  pid := h'.pid.trans h.pid
  ppid := h'.ppid.trans h.ppid
  exitcode := h'.exitcode.trans h.exitcode
  sigactions := h'.sigactions.trans h.sigactions
  zombie hz := h.zombie (h'.zombie hz)
  mem := h'.mem.trans h.mem
  chld := by
    rcases h'.chld with hn | he
    · exact .inl hn
    · rw [he]
      exact h.chld

namespace Quiet

theorem refl (k : Kernel) : Quiet k k :=
  ⟨rfl, rfl, rfl, rfl, .inl ⟨rfl, rfl, rfl⟩, fun _ => rfl, fun _ => .inr rfl, fun _ => rfl,
    fun _ => rfl, rfl, fun _ => .refl _, fun _ _ => rfl⟩

theorem trans {k₁ k₂ k₃ : Kernel} (h : Quiet k₁ k₂) (h' : Quiet k₂ k₃) : Quiet k₁ k₃ where
  tasks := h'.tasks.trans h.tasks
  numTasks := h'.numTasks.trans h.numTasks
  nextPid := h'.nextPid.trans h.nextPid
  log := h'.log.trans h.log
  freedStacks := by
    rcases h.freedStacks with ⟨hf, hl, hc⟩ | ⟨hn, hfree⟩
    · rw [← hf, ← hl, ← hc]
      have hlife := h.life k₂.current
      rcases h'.freedStacks with h'' | ⟨hn', h''⟩
      · exact .inl h''
      · exact .inr ⟨hlife.symm.trans hn', h''⟩
    · refine .inr ⟨hn, ?_⟩
      have h'' : k₃.freed = k₂.freed ∧ k₃.freeTasks = k₂.freeTasks ∨
          freeStacks k₂.freeTasks k₂.freed = .ok k₃.freed ∧ k₃.freeTasks = [] := by
        rcases h'.freedStacks with ⟨hf, hl, -⟩ | ⟨-, h''⟩
        · exact .inl ⟨hf, hl⟩
        · exact h''
      rcases hfree with ⟨hf, hl⟩ | ⟨hf, hl⟩
      · rw [← hf, ← hl]
        exact h''
      · rcases h'' with ⟨hf', hl'⟩ | ⟨hf', hl'⟩
        · exact .inr ⟨hf' ▸ hf, hl'.trans hl⟩
        · rw [hl] at hf'
          exact .inr ⟨hf.trans hf', hl'⟩
  life t := (h'.life t).trans (h.life t)
  awaited t := by
    rcases h'.awaited t with hn | he
    · exact .inl hn
    · rw [he]
      exact h.awaited t
  refcount a := (h'.refcount a).trans (h.refcount a)
  freed a := (h'.freed a).trans (h.freed a)
  numSigactions := h'.numSigactions.trans h.numSigactions
  record t := (h.record t).trans (h'.record t)
  ended t ht := (h'.ended t (by rw [h.life t]; exact ht)).trans (h.ended t ht)

end Quiet

section QuietRules

variable {k k' : Kernel}

/-- Records change in ways nobody can notice, control points among the ordinary ones,
and whatever lies outside the process table. -/
theorem Quiet.of
    (htasks : k'.tasks = k.tasks) (hnum : k'.numTasks = k.numTasks)
    (hnext : k'.nextPid = k.nextPid) (hlog : k'.log = k.log)
    (hfreed : k'.freed = k.freed) (hfree : k'.freeTasks = k.freeTasks)
    (hcur : k'.current = k.current)
    (hlife : ∀ t, (k'.pc t).life = (k.pc t).life)
    (hawait : ∀ t, (k'.pc t).awaited = none ∨ (k'.pc t).awaited = (k.pc t).awaited)
    (hsig : k'.sigactions = k.sigactions) (hnumsig : k'.numSigactions = k.numSigactions)
    (hrecord : ∀ t, SameRecord (k.task t) (k'.task t))
    (hended : ∀ t, (k.pc t).life ≠ .normal → (k'.task t).state = (k.task t).state) :
    Quiet k k' :=
  ⟨htasks, hnum, hnext, hlog, .inl ⟨hfreed, hfree, hcur⟩, hlife, hawait, fun a => by rw [hsig],
    fun a => by rw [hsig], hnumsig, hrecord, hended⟩

/-- Nothing but registrations, queues and counters changes. -/
theorem Quiet.outside
    (h : k' = { k' with
      task := k.task, pc := k.pc, tasks := k.tasks, numTasks := k.numTasks
      nextPid := k.nextPid, log := k.log, freed := k.freed, freeTasks := k.freeTasks
      current := k.current, sigactions := k.sigactions, numSigactions := k.numSigactions }) :
    Quiet k k' := by
  rw [h]
  exact .of rfl rfl rfl rfl rfl rfl rfl (fun _ => rfl) (fun _ => .inr rfl) rfl rfl
    (fun _ => .refl _) fun _ _ => rfl

/-- One record changes. -/
theorem Quiet.modTask {t : TaskId} {f : TaskStruct → TaskStruct}
    (hf : SameRecord (k.task t) (f (k.task t)))
    (hstate : (k.pc t).life ≠ .normal → (f (k.task t)).state = (k.task t).state) :
    Quiet k (k.modTask t f) := by
  refine .of rfl rfl rfl rfl rfl rfl rfl (fun _ => rfl) (fun _ => .inr rfl) rfl rfl
    (fun t' => ?_) fun t' ht' => ?_
  · by_cases h : t' = t
    · subst h
      simpa [Kernel.modTask] using hf
    · simpa [Kernel.modTask, h] using SameRecord.refl _
  · by_cases h : t' = t
    · subst h
      simpa [Kernel.modTask] using hstate ht'
    · simp [Kernel.modTask, h]

/-- One record changes where neither the parent nor a sender looks. -/
theorem Quiet.modUnseen {t : TaskId} {f : TaskStruct → TaskStruct}
    (h : f (k.task t) = { f (k.task t) with
      pid := (k.task t).pid, ppid := (k.task t).ppid, exitcode := (k.task t).exitcode
      sigactions := (k.task t).sigactions, state := (k.task t).state
      sigpending := { (f (k.task t)).sigpending with
        pendingMask := (k.task t).sigpending.pendingMask
        siginfos := (k.task t).sigpending.siginfos } }) :
    Quiet k (k.modTask t f) := by
  have hstate : (f (k.task t)).state = (k.task t).state := by rw [h]
  refine .modTask ?_ fun _ => hstate
  rw [h]
  exact ⟨rfl, rfl, rfl, rfl, id, Iff.rfl, .inr rfl⟩

/-- A task moves between ordinary control points. -/
theorem Quiet.setPc {t : TaskId} {p : Pc}
    (hlife : p.life = (k.pc t).life)
    (hawait : p.awaited = none ∨ p.awaited = (k.pc t).awaited) :
    Quiet k (k.setPc t p) := by
  refine .of rfl rfl rfl rfl rfl rfl rfl (fun t' => ?_) (fun t' => ?_) rfl rfl (fun _ => .refl _)
    fun _ _ => rfl
  · by_cases h : t' = t
    · subst h
      simpa [Kernel.setPc] using hlife
    · simp [Kernel.setPc, h]
  · by_cases h : t' = t
    · subst h
      simpa [Kernel.setPc] using hawait
    · simp [Kernel.setPc, h]

theorem Quiet.leave (h : (k.pc k.current).life = .normal) : Quiet k k.leave := by
  refine .setPc ?_ ?_
  all_goals
    unfold retPc
    split
  · exact h.symm
  · exact h.symm
  · exact .inl rfl
  · exact .inl rfl

theorem Quiet.setState {state : TaskState}
    (h : (k.pc k.current).life = .normal) (hstate : state ≠ .zombie) :
    Quiet k (k.setState state) :=
  .modTask ⟨rfl, rfl, rfl, rfl, fun hz => absurd hz hstate, Iff.rfl, .inr rfl⟩
    fun hn => absurd h hn

theorem Quiet.wakeUpProcess {t : TaskId} : Quiet k (k.wakeUpProcess t) := by
  unfold Kernel.wakeUpProcess
  split
  next => exact .modUnseen rfl
  next =>
    split
    next => exact .refl k
    next => exact .outside rfl

theorem Quiet.setSigaction {signum : Nat} {act : Sigaction}
    (h : k.setSigaction signum act = .ok k') : Quiet k k' := by
  rw [setSigaction_frame h]
  have hsame : ∀ a, ((k.modSigactions k.cur.sigactions fun a =>
        { a with sigactions := Function.update a.sigactions signum act }).sigactions a).refcount =
      (k.sigactions a).refcount ∧
      ((k.modSigactions k.cur.sigactions fun a =>
        { a with sigactions := Function.update a.sigactions signum act }).sigactions a).freed =
      (k.sigactions a).freed := by
    intro a
    by_cases ha : a = k.cur.sigactions
    · subst ha
      simp [Kernel.modSigactions]
    · simp [Kernel.modSigactions, ha]
  exact ⟨rfl, rfl, rfl, rfl, .inl ⟨rfl, rfl, rfl⟩, fun _ => rfl, fun _ => .inr rfl,
    fun a => (hsame a).1, fun a => (hsame a).2, rfl, fun _ => .refl _, fun _ _ => rfl⟩

/-- `schedule` between ordinary control points. -/
theorem Quiet.schedule {p : Pc} (hs : Scheduled k p k')
    (hpc : (k.pc k.current).life = .normal) (hlife : p.life = .normal)
    (hawait : p.awaited = none ∨ p.awaited = (k.pc k.current).awaited) :
    Quiet k k' := by
  have heq := hs.frame
  have hset := Quiet.setPc (k := k) (t := k.current) (hlife.trans hpc.symm) hawait
  have hp : k'.pc = (k.setPc k.current p).pc := by rw [heq]; rfl
  refine ⟨by rw [heq], by rw [heq], by rw [heq], by rw [heq], .inr ⟨hpc, hs.freeTasks⟩, ?_, ?_, ?_, ?_,
    by rw [heq], ?_, ?_⟩
  · rw [hp]
    exact hset.life
  · rw [hp]
    exact hset.awaited
  · rw [heq]
    exact fun _ => rfl
  · rw [heq]
    exact fun _ => rfl
  · intro t
    rcases hs.task t with h | ⟨-, h⟩
    · rw [h]
      exact .refl _
    · rw [h]
      exact ⟨rfl, rfl, rfl, rfl, id, Iff.rfl, .inr rfl⟩
  · intro t _
    rcases hs.task t with h | ⟨-, h⟩ <;> rw [h]

end QuietRules

section QuietCalls

variable {k k' : Kernel}

/-! ### Signals -/

theorem maskval_and_sigchld :
    ∀ i, i < nsig → i ≠ SIGCHLD → maskval i &&& maskval SIGCHLD = 0 := by
  decide

/-- Adding another signal leaves the bit of `SIGCHLD` alone. -/
theorem or_maskval_and_sigchld {m : BitVec 32} {i : Nat} (hi : i < nsig) (hne : i ≠ SIGCHLD) :
    (m ||| maskval i) &&& maskval SIGCHLD = m &&& maskval SIGCHLD := by
  have h := maskval_and_sigchld i hi hne
  ext j hj
  have hj' := congrArg (fun b : BitVec 32 => b.getLsbD j) h
  simp only [BitVec.getLsbD_and, BitVec.getLsbD_zero, BitVec.ofNat_eq_ofNat] at hj'
  simp only [BitVec.getElem_and, BitVec.getElem_or]
  simp only [← BitVec.getLsbD_eq_getElem]
  cases hm : m.getLsbD j <;> cases hi' : (maskval i).getLsbD j <;> simp_all

/-- Clearing pending bits only forgets records. -/
theorem chldRecord_clear {x y : TaskStruct} {m : BitVec 32}
    (hinfos : y.sigpending.siginfos = x.sigpending.siginfos)
    (hmask : y.sigpending.pendingMask = x.sigpending.pendingMask &&& m) :
    y.chldRecord = none ∨ y.chldRecord = x.chldRecord := by
  by_cases hy : y.sigpending.pendingMask &&& maskval SIGCHLD = 0
  · exact .inl (if_pos hy)
  · refine .inr ?_
    have hx : ¬ x.sigpending.pendingMask &&& maskval SIGCHLD = 0 := by
      intro hx
      refine hy ?_
      rw [hmask, BitVec.and_assoc, BitVec.and_comm m, ← BitVec.and_assoc, hx]
      simp
    unfold TaskStruct.chldRecord
    rw [if_neg hy, if_neg hx, hinfos]

theorem Quiet.kernelGetPendingSig {signum : Nat} : Quiet k (k.kernelGetPendingSig signum) :=
  .modTask ⟨rfl, rfl, rfl, rfl, id, Iff.rfl, chldRecord_clear rfl rfl⟩ fun _ => rfl

theorem Quiet.setSigmask {mask : BitVec 32} : Quiet k (k.setSigmask mask) :=
  .modUnseen rfl

theorem sigactionOf_lt {t : TaskId} {signum : Nat} {act : Sigaction}
    (h : k.sigactionOf t signum = .ok act) : signum < nsig := by
  unfold sigactionOf at h
  split at h
  next => cases h
  next =>
    split at h
    next => cases h
    next hlt => exact Nat.lt_of_not_le hlt

/-- Posting a record that does not report an exit. -/
theorem SameRecord.post {x : TaskStruct} {info : Siginfo} {siginfos : Structure.Array Siginfo}
    (hcode : info.code ≠ .cldExited) (hsigno : info.signo < nsig)
    (hset : x.sigpending.siginfos.set info.signo (some info) = .ok siginfos) :
    SameRecord x { x with sigpending := { x.sigpending with
      pendingMask := x.sigpending.pendingMask ||| maskval info.signo
      siginfos := siginfos } } := by
  obtain ⟨hmem, hother⟩ := Structure.Array.set_spec hset
  refine ⟨rfl, rfl, rfl, rfl, id, hmem, ?_⟩
  by_cases hs : info.signo = SIGCHLD
  · refine .inl ?_
    have hself := Structure.Array.set_lookup_self
      (Nat.lt_of_lt_of_le hsigno (by decide)) hset
    rw [hs] at hself
    simp [TaskStruct.chldRecord, hself, hcode]
  · refine .inr ?_
    have hlook : siginfos.lookup SIGCHLD = x.sigpending.siginfos.lookup SIGCHLD :=
      hother SIGCHLD (Ne.symm hs)
    simp [TaskStruct.chldRecord, hlook, or_maskval_and_sigchld hsigno hs]

/-- Sending a signal that does not report an exit. -/
theorem Quiet.sendSigInfo {t : TaskId} {info : Siginfo}
    (hcode : info.code ≠ .cldExited) (hs : k.sendSigInfo t info = .ok k') : Quiet k k' := by
  rcases sendSigInfo_cases hs with
    rfl | ⟨-, rfl⟩ | ⟨act, siginfos, hact, -, -, hset, kp, rfl, hk'⟩
  · exact .refl _
  · refine Quiet.trans ?_ .wakeUpProcess
    exact .modUnseen rfl
  · have hq : Quiet k (k.modTask t fun task => { task with
        sigpending := { task.sigpending with
          pendingMask := task.sigpending.pendingMask ||| maskval info.signo
          siginfos := siginfos } }) :=
      .modTask (.post hcode (sigactionOf_lt hact) hset) fun _ => rfl
    rcases hk' with rfl | ⟨-, rfl⟩
    · exact hq
    · exact hq.trans .wakeUpProcess

/-- A quiet change that does not switch tasks. -/
def QuietHere (k k' : Kernel) : Prop :=
  Quiet k k' ∧ k'.current = k.current

theorem QuietHere.send {k₁ k₂ : Kernel} {t : TaskId} {info : Siginfo}
    (hcode : info.code ≠ .cldExited) (h : QuietHere k k₁)
    (hs : k₁.sendSigInfo t info = .ok k₂) : QuietHere k k₂ := by
  refine ⟨h.1.trans (.sendSigInfo hcode hs), ?_⟩
  rw [sendSigInfo_frame hs]
  exact h.2

theorem QuietHere.kill {pid : Int} {signum : Nat} (hs : k.kill pid signum = .ok k') :
    QuietHere k k' :=
  kill_rule (P := QuietHere k) (fun _ _ _ h _ h' => h.send (by simp [killInfo]) h')
    ⟨.refl k, rfl⟩ hs

theorem QuietHere.tgkill {tgid tid : Int} {signum : Nat}
    (hs : k.tgkill tgid tid signum = .ok k') : QuietHere k k' :=
  tgkill_rule (P := QuietHere k) (fun _ _ _ h _ h' => h.send (by simp [killInfo]) h')
    ⟨.refl k, rfl⟩ hs

theorem QuietHere.sendSigInfoPg {pgid : Nat} {info : Siginfo}
    (hcode : info.code ≠ .cldExited) (hs : k.sendSigInfoPg pgid info = .ok k') :
    QuietHere k k' :=
  sendSigInfoPg_rule (P := QuietHere k) (fun _ _ _ h _ h' => h.send hcode h')
    ⟨.refl k, rfl⟩ hs

theorem QuietHere.sendSig {t : TaskId} {signum : Nat} (hs : k.sendSig t signum = .ok k') :
    QuietHere k k' :=
  QuietHere.send (by simp) ⟨.refl k, rfl⟩ hs

theorem QuietHere.forceSig {t : TaskId} {signum : Nat} (hs : k.forceSig t signum = .ok k') :
    QuietHere k k' := by
  unfold Kernel.forceSig at hs
  split at hs
  next => cases hs
  next k₁ hsend =>
    cases hs
    have h₁ := QuietHere.sendSig hsend
    refine ⟨h₁.1.trans ?_, h₁.2⟩
    exact .modUnseen rfl

theorem QuietHere.leave (h : QuietHere k k') (hpc : (k.pc k.current).life = .normal) :
    Quiet k k'.leave := by
  refine h.1.trans (.leave ?_)
  rw [h.2, h.1.life]
  exact hpc

theorem Quiet.enterHandler {signum : Nat} {act : Sigaction} {pushFails : Bool}
    (hpc : (k.pc k.current).life = .normal) (hs : k.enterHandler signum act pushFails = .ok k') :
    Quiet k k' := by
  unfold Kernel.enterHandler at hs
  split at hs
  all_goals
    split at hs
  · exact (QuietHere.forceSig hs).1
  · cases hs
    exact Quiet.setSigmask.trans (.setPc hpc.symm (.inl rfl))
  · exact (QuietHere.forceSig hs).1
  · cases hs
    exact .setPc hpc.symm (.inl rfl)

/-! ### Sleeping calls, timers and sessions -/

/-- The phases of a loop that sets its state around `schedule()`. -/
theorem Quiet.phase {state : TaskState} {p : Pc}
    (hpc : (k.pc k.current).life = .normal) (hstate : state ≠ .zombie)
    (hlife : p.life = .normal) (hawait : p.awaited = none ∨ p.awaited = (k.pc k.current).awaited) :
    Quiet k ((k.setState state).setPc k.current p) :=
  (Quiet.setState hpc hstate).trans (.setPc (hlife.trans hpc.symm) hawait)

theorem Quiet.readEnter {d : Device} (hpc : (k.pc k.current).life = .normal) :
    Quiet k (k.readEnter d) := by
  unfold Kernel.readEnter
  split
  next => exact .leave hpc
  next =>
    have h₁ : Quiet k { k with
        waiter := Function.update k.waiter d (some k.current)
        ready := Function.update k.ready d (k.ready d && Device.interruptible d) } :=
      .outside rfl
    refine h₁.trans (Quiet.phase hpc ?_ rfl (.inl rfl))
    split <;> simp

theorem Quiet.readLoop {d : Device} {rest : Bool} {phase : SpinPhase}
    (hpc : k.pc k.current = .read d phase) (hs : k.readLoop d rest phase = .ok k') :
    Quiet k k' := by
  have hlife : (k.pc k.current).life = .normal := by rw [hpc]; rfl
  cases phase with
  | sched => exact .schedule (schedule_spec hs) hlife rfl (.inl rfl)
  | check =>
      simp only [Kernel.readLoop] at hs
      split at hs
      next =>
        cases hs
        have h₁ : Quiet k (k.setState .running) := .setState hlife (by simp)
        refine (h₁.trans ?_).trans (.leave hlife)
        exact .outside rfl
      next =>
        cases hs
        exact .setPc hlife.symm (.inl rfl)

theorem Quiet.nanosleepLoop {spec : SleepSpec} {phase : Phase}
    (hpc : k.pc k.current = .nanosleep spec phase)
    (hs : k.nanosleepLoop spec phase = .ok k') : Quiet k k' := by
  have hlife : (k.pc k.current).life = .normal := by rw [hpc]; rfl
  cases phase with
  | sched => exact .schedule (schedule_spec hs) hlife rfl (.inl rfl)
  | woken =>
      cases hs
      exact .phase hlife (by simp) rfl (.inl rfl)
  | check =>
      simp only [Kernel.nanosleepLoop] at hs
      split at hs
      next =>
        cases hs
        refine Quiet.trans ?_ (.leave hlife)
        exact .outside rfl
      next =>
        cases hs
        exact .phase hlife (by simp) rfl (.inl rfl)

theorem Quiet.pollLeave {call : PollCall} (hpc : (k.pc k.current).life = .normal) :
    Quiet k (k.pollLeave call) := by
  unfold Kernel.pollLeave
  split
  all_goals
    refine Quiet.trans ?_ (.leave hpc)
    exact .outside rfl

theorem Quiet.pollLoop {call : PollCall} {phase : Phase}
    (hpc : k.pc k.current = .poll call phase) (hs : k.pollLoop call phase = .ok k') :
    Quiet k k' := by
  have hlife : (k.pc k.current).life = .normal := by rw [hpc]; rfl
  cases phase with
  | sched => exact .schedule (schedule_spec hs) hlife rfl (.inl rfl)
  | woken =>
      cases hs
      exact .phase hlife (by simp) rfl (.inl rfl)
  | check =>
      simp only [Kernel.pollLoop] at hs
      split at hs
      next =>
        cases hs
        exact .pollLeave hlife
      next =>
        have h₁ : Quiet k (k.pollRegister call.devices) :=
          .outside rfl
        split at hs
        next =>
          cases hs
          exact h₁.trans (.pollLeave hlife)
        next =>
          cases hs
          exact h₁.trans (.phase hlife (by simp) rfl (.inl rfl))

theorem Quiet.sleepEnter {time : Nat} {p : Pc} (hpc : (k.pc k.current).life = .normal)
    (hlife : p.life = .normal) (hawait : p.awaited = none) :
    Quiet k ((k.sleepAdd time).1.setPc k.current p) := by
  have h₁ : Quiet k (k.sleepAdd time).1 := .outside rfl
  exact h₁.trans (.setPc (hlife.trans hpc.symm) (.inl hawait))

theorem Quiet.pollEnter {devices : List Device} {immediate : Bool} {timeout : Int}
    (hpc : (k.pc k.current).life = .normal) :
    Quiet k (k.pollEnter devices immediate timeout) := by
  unfold Kernel.pollEnter
  split
  next => exact .sleepEnter hpc rfl rfl
  next => exact .setPc hpc.symm (.inl rfl)

theorem Quiet.deviceHandler {d : Device} : Quiet k (k.deviceHandler d) := by
  have h₁ : Quiet k { k with ready := Function.update k.ready d true } :=
    .outside rfl
  unfold Kernel.deviceHandler
  simp only
  split
  next => exact h₁
  next => exact h₁.trans .wakeUpProcess

theorem Quiet.wakeSleepers {specs : List SleepSpec} : Quiet k (k.wakeSleepers specs) := by
  induction specs generalizing k with
  | nil => exact .refl k
  | cons spec specs ih => exact Quiet.wakeUpProcess.trans ih

theorem Quiet.sleepHandler {ticks : Nat} : Quiet k (k.sleepHandler ticks) := by
  unfold Kernel.sleepHandler
  refine Quiet.trans ?_ .wakeSleepers
  exact .outside rfl

theorem Quiet.irqReturn : Quiet k k.irqReturn := by
  unfold Kernel.irqReturn
  split
  next hbody => exact .setPc (by rw [hbody.1]; rfl) (.inl rfl)
  next => exact .refl k

theorem Quiet.doSetsid : Quiet k k.doSetsid := by
  unfold Kernel.doSetsid
  split
  next => exact .refl k
  next =>
    have h₁ : Quiet k (k.modTask k.current fun task => { task with
        session := some { id := k.numSessions, sid := task.pid }, pgid := task.pid }) :=
      .modUnseen rfl
    refine h₁.trans ?_
    exact .outside rfl

theorem Quiet.doSetpgid {pid pgid : Int} : Quiet k (k.doSetpgid pid pgid) := by
  unfold Kernel.doSetpgid
  simp only
  split
  next =>
    split
    next =>
      split
      next => exact .refl k
      next => exact .modUnseen rfl
    next => exact .refl k
  next => exact .refl k

theorem Quiet.sigprocmask {how : Nat} {set : BitVec 32} : Quiet k (k.sigprocmask how set) := by
  unfold Kernel.sigprocmask
  split
  · exact .setSigmask
  · exact .setSigmask
  · exact .setSigmask
  · exact .refl k

theorem Quiet.waitReturn {oldaction : Sigaction} (hpc : (k.pc k.current).life = .normal)
    (hs : k.waitReturn oldaction = .ok k') : Quiet k k' := by
  unfold Kernel.waitReturn at hs
  split at hs
  next => cases hs
  next k₁ hset =>
    cases hs
    refine (Quiet.setSigaction hset).trans (.leave ?_)
    rw [setSigaction_frame hset]
    exact hpc

/-- The way to the first `schedule()` of a wait, up to the control point. -/
theorem waitSleep_cases {wait : Sigaction → Pc} (hpc : (k.pc k.current).life = .normal)
    (hs : k.waitSleep wait = .ok k') :
    ∃ k₀ act, Quiet k k₀ ∧ k₀.current = k.current ∧ k₀.pc = k.pc ∧
      k' = k₀.setPc k₀.current (wait act) := by
  unfold Kernel.waitSleep at hs
  split at hs
  next => cases hs
  next act _ =>
    split at hs
    next => cases hs
    next k₁ hset =>
      cases hs
      have hframe := setSigaction_frame hset
      have hcur : k₁.current = k.current := by rw [hframe]; rfl
      have hpc₁ : k₁.pc = k.pc := by rw [hframe]; rfl
      refine ⟨k₁.setState .interruptible, act, ?_, hcur, hpc₁, by rw [← hcur]; rfl⟩
      exact (Quiet.setSigaction hset).trans (.setState (by rw [hpc₁, hcur]; exact hpc) (by simp))

end QuietCalls

/-! ### The moves -/

/-- The running task goes on inside the kernel. -/
def Label.IsGo (l : Label) : Prop :=
  ∃ choice, l = .go choice

/-- The changes of the process table, with the labels that can make them. -/
inductive Move (k : Kernel) (l : Label) : Kernel → Prop
  | none : Move k l k
  | clone (flags : BitVec 32) (user : Bool) {pid next : Nat} :
      (k.pc k.current).life = .normal →
      k.nextPidFrom (maxpid + 1) k.nextPid = some (pid, next) →
      (k.sigactions k.cur.sigactions).freed = false →
      Move k l ({ (k.cloneSigactions flags).1 with nextPid := next }.addTask
        (k.cloneTask flags user pid (k.cloneSigactions flags).2))
  | execPut {subsystem : Subsystem} {k₀ : Kernel} :
      l = .call (.execve subsystem) → (k.pc k.current).life = .normal → k.putSigactions = .ok k₀ →
      Move k l (k₀.setPc k.current (.execSwap subsystem))
  | execInstall {subsystem : Subsystem} :
      l.IsGo → k.pc k.current = .execSwap subsystem → Move k l (k.execInstall subsystem)
  | doExit {k₀ : Kernel} {exitcode : Int} :
      (k.pc k.current).life = .normal → k.pc k.current ≠ .idle →
      (k₀ = k ∨ ∃ signum, k₀ = k.kernelGetPendingSig signum) → Move k l (k₀.doExit exitcode)
  | closing :
      l.IsGo → k.pc k.current = .exit .closing →
      Move k l (k.putSession.setPc k.current (.exit .putSigactions))
  | putSigactions {k₀ : Kernel} :
      l.IsGo → k.pc k.current = .exit .putSigactions → k.putSigactions = .ok k₀ →
      Move k l (k₀.setPc k.current (.exit .putSiginfos))
  | putSiginfos {k₀ : Kernel} :
      l.IsGo → k.pc k.current = .exit .putSiginfos → k.putSiginfos = .ok k₀ →
      Move k l (k₀.setPc k.current (.exit .notify))
  | notify {k₀ : Kernel} :
      l.IsGo → k.pc k.current = .exit .notify → k.notifyParent = .ok k₀ →
      Move k l (k₀.setPc k.current (.exit .reparent))
  | reparent :
      l.IsGo → k.pc k.current = .exit .reparent →
      Move k l (k.reparentChildren.setPc k.current (.exit .sched))
  | sched {k₁ : Kernel} :
      l.IsGo → k.pc k.current = .exit .sched → Scheduled k .exited k₁ → Move k l k₁
  /-- The fast path of `do_wait` and `do_waitpg`. -/
  | reapZombie {t : TaskId} :
      (k.pc k.current).life = .normal → t ∈ k.tasks → (k.task t).ppid = k.cur.pid →
      (k.task t).state = .zombie → Move k l (k.doWaitTask t (k.task t).pid)
  /-- The slow path of `do_wait`. -/
  | reapAwaited {t : TaskId} {oldaction : Sigaction} {info : Siginfo} :
      l.IsGo → k.pc k.current = .doWait t oldaction .check → signalPending k.cur ≠ 0 →
      k.cur.chldRecord = some info → k.freed t = false → info.pid = (k.task t).pid →
      Move k l ((k.kernelGetPendingSig SIGCHLD).doWaitTask t (k.task t).pid)
  /-- The slow path of `do_waitpg`. -/
  | reapFound {t : TaskId} {pgid : Nat} {oldaction : Sigaction} {info : Siginfo} :
      l.IsGo → k.pc k.current = .doWaitpg pgid oldaction .check → signalPending k.cur ≠ 0 →
      k.cur.chldRecord = some info → k.getTaskFromPid info.pid = some t →
      (pgid = 0 ∨ (k.task t).pgid = pgid) →
      Move k l ((k.kernelGetPendingSig SIGCHLD).doWaitTask t (k.task t).pid)

/-- What follows a move: nothing to notice, or the caller begins to wait for a child. -/
inductive Tail (k : Kernel) : Kernel → Prop
  | quiet {k' : Kernel} : Quiet k k' → Tail k k'
  | startsWait {k₀ : Kernel} {t : TaskId} {oldaction : Sigaction} :
      Quiet k k₀ → k₀.current = k.current → k₀.pc = k.pc →
      (k.pc k.current).life = .normal → t ∈ k.tasks → (k.task t).ppid = k.cur.pid →
      Tail k (k₀.setPc k₀.current (.doWait t oldaction .sched))

/-- A step is a move and its tail. -/
def Effect (k : Kernel) (l : Label) (k' : Kernel) : Prop :=
  ∃ k₁, Move k l k₁ ∧ Tail k₁ k'

section Effects

variable {k k₁ k' : Kernel} {l : Label}

theorem Effect.of_quiet (h : Quiet k k') : Effect k l k' :=
  ⟨k, .none, .quiet h⟩

theorem Effect.of_move (h : Move k l k₁) (ht : Quiet k₁ k') : Effect k l k' :=
  ⟨k₁, h, .quiet ht⟩

theorem chldRecord_of_peek {info : Siginfo}
    (h : k.kernelPeekPendingSig SIGCHLD = .ok (some info)) (hcode : info.code = .cldExited) :
    k.cur.chldRecord = some info := by
  unfold kernelPeekPendingSig at h
  split at h
  next => simp at h
  next hmask =>
    split at h
    next => cases h
    next => cases h
    next info' hget =>
      cases h
      have hlook := Structure.Array.get_ok hget
      unfold TaskStruct.chldRecord
      rw [if_neg hmask, ← hlook]
      simp [hcode]

theorem cloneSigactions_frame (k : Kernel) (flags : BitVec 32) :
    (k.cloneSigactions flags).1 = { k with
      sigactions := (k.cloneSigactions flags).1.sigactions
      numSigactions := (k.cloneSigactions flags).1.numSigactions } := by
  unfold Kernel.cloneSigactions
  simp only
  split <;> rfl

/-- A clone is a move, after which the child is woken. -/
theorem doClone_cases {flags : BitVec 32} {user : Bool}
    (hpc : (k.pc k.current).life = .normal) (hs : k.doClone flags user = .ok k') :
    k' = k ∨ ∃ k₁, Move k l k₁ ∧ k' = k₁.wakeUpProcess k.numTasks ∧
      k₁.current = k.current ∧ (k₁.pc k₁.current).life = .normal ∧
      k.numTasks ∈ k₁.tasks ∧ (k₁.task k.numTasks).state = .running := by
  unfold Kernel.doClone at hs
  split at hs
  next =>
    cases hs
    exact .inl rfl
  next pid next hnext =>
    split at hs
    next => cases hs
    next hlive =>
      cases hs
      refine .inr ⟨_, .clone flags user hpc hnext (by simpa using hlive), rfl, ?_, ?_, ?_, ?_⟩
      all_goals rw [cloneSigactions_frame]
      · rfl
      · by_cases hc : k.current = k.numTasks
        · simp [Kernel.addTask, hc, Pc.life]
        · simp [Kernel.addTask, hc, hpc]
      · simp [Kernel.addTask]
      · simp [Kernel.addTask, Kernel.cloneTask]

/-- The part of `deliver_signal` behind the choice of the signal. -/
theorem effect_deliverSignal {pushFails : Bool}
    (hpc : (k.pc k.current).life = .normal) (hidle : k.pc k.current ≠ .idle)
    (hs : k.deliverSignal pushFails = .ok k') :
    Effect k l k' := by
  unfold Kernel.deliverSignal at hs
  simp only at hs
  split at hs
  next =>
    cases hs
    exact .of_quiet (.setPc hpc.symm (.inl rfl))
  next =>
    have hq : Quiet k (k.kernelGetPendingSig (signalPendingOne k.cur)) := .kernelGetPendingSig
    have hlife : ((k.kernelGetPendingSig (signalPendingOne k.cur)).pc
        (k.kernelGetPendingSig (signalPendingOne k.cur)).current).life = .normal := hpc
    have hget : ∃ signum, k.kernelGetPendingSig (signalPendingOne k.cur) =
        k.kernelGetPendingSig signum := ⟨_, rfl⟩
    generalize k.kernelGetPendingSig (signalPendingOne k.cur) = k₀ at hs hq hlife hget
    split at hs
    next => cases hs
    next =>
      split at hs
      next =>
        split at hs
        next =>
          cases hs
          exact .of_quiet (hq.trans (.setPc hlife.symm (.inl rfl)))
        next =>
          cases hs
          exact .of_move (.doExit hpc hidle (.inr hget)) (.refl _)
        next =>
          cases hs
          refine .of_quiet (hq.trans (Quiet.trans ?_ (.setPc hlife.symm (.inl rfl))))
          exact .modUnseen rfl
        next => cases hs
      next =>
        split at hs
        next =>
          cases hs
          exact .of_quiet (hq.trans (.setPc hlife.symm (.inl rfl)))
        next => exact .of_quiet (hq.trans (.enterHandler hlife hs))

/-- `do_wait` up to its first `schedule()`, for a task known to be listed. -/
theorem doWait_cases {t : TaskId}
    (hpc : (k.pc k.current).life = .normal) (ht : t ∈ k.tasks) (hs : k.doWait t = .ok k') :
    Tail k k' ∨
      (k.task t).state = .zombie ∧ ∃ k₁, Move k l k₁ ∧ Quiet k₁ k' := by
  unfold Kernel.doWait at hs
  split at hs
  next => cases hs
  next =>
    split at hs
    next =>
      cases hs
      exact .inl (.quiet (.leave hpc))
    next hppid =>
      split at hs
      next hz =>
        cases hs
        exact .inr ⟨hz, _, .reapZombie hpc ht (by simpa using hppid) hz, .leave hpc⟩
      next =>
        obtain ⟨k₀, act, hq, hcur, hpc₀, rfl⟩ := waitSleep_cases hpc hs
        exact .inl (.startsWait hq hcur hpc₀ hpc ht (by simpa using hppid))

theorem effect_doWait {t : TaskId}
    (hpc : (k.pc k.current).life = .normal) (ht : t ∈ k.tasks) (hs : k.doWait t = .ok k') :
    Effect k l k' := by
  rcases doWait_cases (l := l) hpc ht hs with htail | ⟨-, k₁, hmove, hq⟩
  · exact ⟨k, .none, htail⟩
  · exact .of_move hmove hq

theorem effect_doWaitpg {pgid : Nat} {wait : Bool}
    (hpc : (k.pc k.current).life = .normal) (hs : k.doWaitpg pgid wait = .ok k') :
    Effect k l k' := by
  unfold Kernel.doWaitpg at hs
  split at hs
  next t hfind =>
    cases hs
    have hz := List.find?_some hfind
    have hmem := List.mem_filter.mp (List.mem_of_find?_eq_some hfind)
    have hppid : (k.task t).ppid = k.cur.pid := by
      have := hmem.2
      simp only [decide_eq_true_eq] at this
      exact this.1
    exact .of_move (.reapZombie hpc hmem.1 hppid (by simpa using hz)) (.leave hpc)
  next =>
    split at hs
    next =>
      cases hs
      exact .of_quiet (.leave hpc)
    next =>
      split at hs
      next =>
        cases hs
        exact .of_quiet (.leave hpc)
      next =>
        obtain ⟨k₀, act, hq, hcur, hpc₀, rfl⟩ := waitSleep_cases hpc hs
        refine .of_quiet (hq.trans (.setPc ?_ (.inl rfl)))
        rw [hpc₀, hcur, hpc]
        rfl

theorem effect_doSysWaitpid {pid : Int} {wnohang : Bool}
    (hpc : (k.pc k.current).life = .normal) (hs : k.doSysWaitpid pid wnohang = .ok k') :
    Effect k l k' := by
  unfold Kernel.doSysWaitpid at hs
  split at hs
  next => exact effect_doWaitpg hpc hs
  next =>
    split at hs
    next =>
      cases hs
      exact .of_quiet (.leave hpc)
    next t hget =>
      split at hs
      next =>
        cases hs
        exact .of_quiet (.leave hpc)
      next => exact effect_doWait hpc (getTaskFromPid_mem hget).1 hs

theorem effect_doWaitSignal {t : TaskId} {oldaction : Sigaction}
    (hl : l.IsGo) (hpc : k.pc k.current = .doWait t oldaction .check)
    (hsig : signalPending k.cur ≠ 0)
    (hs : k.doWaitSignal t oldaction = .ok k') : Effect k l k' := by
  have hlife : (k.pc k.current).life = .normal := by rw [hpc]; rfl
  unfold Kernel.doWaitSignal at hs
  split at hs
  next => cases hs
  next => exact .of_quiet (.waitReturn hlife hs)
  next info hpeek =>
    split at hs
    next hcode =>
      split at hs
      next => cases hs
      next hfreed =>
        split at hs
        next hpid =>
          refine .of_move (.reapAwaited hl hpc hsig (chldRecord_of_peek hpeek hcode) ?_ hpid) ?_
          · simpa using hfreed
          · exact .waitReturn hlife hs
        next => exact .of_quiet (.waitReturn hlife hs)
    next => exact .of_quiet (.waitReturn hlife hs)

theorem effect_doWaitpgSignal {pgid : Nat} {oldaction : Sigaction}
    (hl : l.IsGo) (hpc : k.pc k.current = .doWaitpg pgid oldaction .check)
    (hsig : signalPending k.cur ≠ 0)
    (hs : k.doWaitpgSignal pgid oldaction = .ok k') : Effect k l k' := by
  have hlife : (k.pc k.current).life = .normal := by rw [hpc]; rfl
  unfold Kernel.doWaitpgSignal at hs
  split at hs
  next => cases hs
  next => exact .of_quiet (.waitReturn hlife hs)
  next info hpeek =>
    split at hs
    next hcode =>
      split at hs
      next => cases hs
      next t hget =>
        split at hs
        next hpgid =>
          refine .of_move (.reapFound hl hpc hsig (chldRecord_of_peek hpeek hcode) hget hpgid) ?_
          exact .waitReturn hlife hs
        next => exact .of_quiet (.waitReturn hlife hs)
    next => exact .of_quiet (.waitReturn hlife hs)

theorem effect_waitLoop {wait : Phase → Pc} {found : Except Fault Kernel} {phase : Phase}
    (hpc : k.pc k.current = wait phase) (hlife : ∀ phase, (wait phase).life = .normal)
    (hawait : ∀ phase phase', (wait phase).awaited = (wait phase').awaited)
    (hfound : phase = .check → signalPending k.cur ≠ 0 → found = .ok k' → Effect k l k')
    (hs : k.waitLoop wait found phase = .ok k') : Effect k l k' := by
  have hpc' : (k.pc k.current).life = .normal := by
    rw [hpc]
    exact hlife phase
  have haw : ∀ phase', (wait phase').awaited = none ∨
      (wait phase').awaited = (k.pc k.current).awaited := fun phase' =>
    .inr (by rw [hpc]; exact hawait phase' phase)
  cases phase with
  | sched =>
      exact .of_quiet (.schedule (schedule_spec hs) hpc' (hlife _) (haw _))
  | woken =>
      cases hs
      exact .of_quiet (.phase hpc' (by simp) (hlife _) (haw _))
  | check =>
      simp only [Kernel.waitLoop] at hs
      split at hs
      next hsig => exact hfound rfl hsig hs
      next =>
        cases hs
        exact .of_quiet (.phase hpc' (by simp) (hlife _) (haw _))

theorem effect_exitStage {stage : ExitStage}
    (hl : l.IsGo) (hpc : k.pc k.current = .exit stage) (hs : k.exitStage stage = .ok k') :
    Effect k l k' := by
  cases stage with
  | closing =>
      cases hs
      exact .of_move (.closing hl hpc) (.refl _)
  | putSigactions =>
      simp only [Kernel.exitStage] at hs
      split at hs
      next => cases hs
      next k₀ hput =>
        cases hs
        exact .of_move (.putSigactions hl hpc hput) (.refl _)
  | putSiginfos =>
      simp only [Kernel.exitStage] at hs
      split at hs
      next => cases hs
      next k₀ hput =>
        cases hs
        exact .of_move (.putSiginfos hl hpc hput) (.refl _)
  | notify =>
      simp only [Kernel.exitStage] at hs
      split at hs
      next => cases hs
      next k₀ hput =>
        cases hs
        exact .of_move (.notify hl hpc hput) (.refl _)
  | reparent =>
      cases hs
      exact .of_move (.reparent hl hpc) (.refl _)
  | sched => exact .of_move (.sched hl hpc (schedule_spec hs)) (.refl _)

theorem effect_execPut {subsystem : Subsystem}
    (hpc : (k.pc k.current).life = .normal) (hs : k.execPut subsystem = .ok k') :
    Effect k (.call (.execve subsystem)) k' := by
  unfold Kernel.execPut at hs
  split at hs
  next => cases hs
  next k₀ hput =>
    cases hs
    exact .of_move (.execPut rfl hpc hput) (.refl _)

/-- The call `execute` makes a child and waits for it. -/
theorem effect_execute
    (hpc : (k.pc k.current).life = .normal) {k₁ : Kernel} (hclone : k.doClone 0 false = .ok k₁)
    (hs : (if k₁.numTasks = k.numTasks then .ok k else k₁.doWait k.numTasks) = .ok k') :
    Effect k l k' := by
  rcases doClone_cases (l := l) hpc hclone with rfl | ⟨k₂, hmove, rfl, hcur, hlife, hmem, hrun⟩
  · simp only [if_true] at hs
    cases hs
    exact .of_quiet (.refl _)
  · split at hs
    next =>
      cases hs
      exact .of_quiet (.refl _)
    next =>
      have hwake : Quiet k₂ (k₂.wakeUpProcess k.numTasks) := .wakeUpProcess
      have hcur' : (k₂.wakeUpProcess k.numTasks).current = k₂.current := by
        rw [wakeUpProcess_eq]
      have hpc' : (k₂.wakeUpProcess k.numTasks).pc = k₂.pc := by
        rw [wakeUpProcess_eq]
      have hlife' : ((k₂.wakeUpProcess k.numTasks).pc
          (k₂.wakeUpProcess k.numTasks).current).life = .normal := by
        rw [hcur', hpc']
        exact hlife
      have hmem' : k.numTasks ∈ (k₂.wakeUpProcess k.numTasks).tasks := by
        rw [hwake.tasks]
        exact hmem
      rcases doWait_cases (l := l) hlife' hmem' hs with htail | ⟨hz, -⟩
      · refine ⟨k₂, hmove, ?_⟩
        cases htail with
        | quiet h => exact .quiet (hwake.trans h)
        | @startsWait _ t _ hq hc hp _ ht hppid =>
            refine .startsWait (hwake.trans hq) (hc.trans hcur') (hp.trans hpc') hlife
              (hwake.tasks ▸ ht) ?_
            have h1 := (hwake.record t).ppid
            have h2 := (hwake.record k₂.current).pid
            rw [← h1, hppid]
            unfold Kernel.cur
            rw [hcur', h2]
      · have := (hwake.record _).zombie hz
        rw [hrun] at this
        cases this

theorem effect_runCall {c : Call}
    (hpc : (k.pc k.current).life = .normal) (hidle : k.pc k.current ≠ .idle)
    (hs : k.runCall c = .ok k') :
    Effect k (.call c) k' := by
  have hclone : ∀ flags user, finish (k.doClone flags user) = .ok k' → Effect k (.call c) k' := by
    intro flags user h
    unfold finish at h
    split at h
    next => cases h
    next k₁ hr =>
      cases h
      rcases doClone_cases (l := .call c) hpc hr with rfl | ⟨k₂, hmove, rfl, hcur, hlife, -⟩
      · exact .of_quiet (.leave hpc)
      · have hwake : QuietHere k₂ (k₂.wakeUpProcess k.numTasks) :=
          ⟨.wakeUpProcess, by rw [wakeUpProcess_eq]⟩
        exact .of_move hmove (hwake.leave hlife)
  have hsend : ∀ r : Except Fault Kernel, (∀ k₁, r = .ok k₁ → QuietHere k k₁) →
      finish r = .ok k' → Effect k (.call c) k' := by
    intro r hr h
    unfold finish at h
    split at h
    next => cases h
    next k₁ =>
      cases h
      exact .of_quiet ((hr k₁ rfl).leave hpc)
  cases c with
  | clone flags => exact hclone _ _ hs
  | kernelThread => exact hclone _ _ hs
  | execute =>
      simp only [Kernel.runCall] at hs
      split at hs
      next => cases hs
      next k₁ h₁ => exact effect_execute hpc h₁ hs
  | execve subsystem => exact effect_execPut hpc hs
  | exit status =>
      cases hs
      exact .of_move (.doExit hpc hidle (.inl rfl)) (.refl _)
  | halt status =>
      cases hs
      exact .of_move (.doExit hpc hidle (.inl rfl)) (.refl _)
  | threadReturn exitcode =>
      cases hs
      exact .of_move (.doExit hpc hidle (.inl rfl)) (.refl _)
  | kill pid signum => exact hsend _ (fun _ h => .kill h) hs
  | tgkill tgid tid signum => exact hsend _ (fun _ h => .tgkill h) hs
  | waitpid pid wnohang => exact effect_doSysWaitpid hpc hs
  | rtSigaction signum act =>
      simp only [Kernel.runCall] at hs
      split at hs
      next =>
        refine hsend _ (fun k₁ h => ⟨.setSigaction h, ?_⟩) hs
        rw [setSigaction_frame h]
        rfl
      next =>
        cases hs
        exact .of_quiet (.leave hpc)
  | rtSigprocmask how set =>
      cases hs
      refine .of_quiet (QuietHere.leave ⟨.sigprocmask, ?_⟩ hpc)
      unfold Kernel.sigprocmask
      split <;> rfl
  | sigreturn oldmask =>
      cases hs
      exact .of_quiet (QuietHere.leave ⟨.setSigmask, rfl⟩ hpc)
  | setsid =>
      cases hs
      refine .of_quiet (QuietHere.leave ⟨.doSetsid, ?_⟩ hpc)
      unfold Kernel.doSetsid
      split <;> rfl
  | setpgid pid pgid =>
      cases hs
      refine .of_quiet (QuietHere.leave ⟨.doSetpgid, ?_⟩ hpc)
      unfold Kernel.doSetpgid
      simp only
      split
      · split
        · split <;> rfl
        · rfl
      · rfl
  | read d =>
      cases hs
      exact .of_quiet (.readEnter hpc)
  | nanosleep time =>
      cases hs
      exact .of_quiet (.sleepEnter hpc rfl rfl)
  | poll devices immediate timeout =>
      cases hs
      exact .of_quiet (.pollEnter hpc)
  | exception signum => exact hsend _ (fun _ h => .sendSig h) hs
  | forceSegv => exact hsend _ (fun _ h => .forceSig h) hs
  | kernelGetPendingSig signum =>
      cases hs
      exact .of_quiet .kernelGetPendingSig
  | kernelMaskSignal signum => exact .of_quiet (.setSigaction hs)
  | kernelUnmaskSignal signum => exact .of_quiet (.setSigaction hs)
  | other =>
      cases hs
      exact .of_quiet (.leave hpc)

theorem effect_goOn {choice : Bool} (hs : k.goOn choice = .ok k') :
    Effect k (.go choice) k' := by
  have hl : (Label.go choice).IsGo := ⟨choice, rfl⟩
  unfold Kernel.goOn at hs
  have hplain : ∀ {p : Pc}, k.pc k.current = p → p.life = .normal →
      (k.pc k.current).life = .normal := fun h hp => h ▸ hp
  split at hs
  next hpc =>
    cases hs
    exact .of_quiet (.leave (hplain hpc rfl))
  next hpc =>
    split at hs
    next =>
      cases hs
      exact .of_quiet (.refl k)
    next => exact .of_quiet (.schedule (schedule_spec hs) (hplain hpc rfl) rfl (.inl rfl))
  next =>
    cases hs
    exact .of_quiet (.refl k)
  next hpc => exact effect_deliverSignal (hplain hpc rfl) (by rw [hpc]; simp) hs
  next hpc =>
    split at hs
    next =>
      cases hs
      exact .of_quiet (.setPc (hplain hpc rfl).symm (.inl rfl))
    next => exact .of_quiet (.schedule (schedule_spec hs) (hplain hpc rfl) rfl (.inl rfl))
  next hpc =>
    split at hs
    next =>
      cases hs
      exact .of_quiet (.setPc (hplain hpc rfl).symm (.inl rfl))
    next => cases hs
  next hpc =>
    exact .of_quiet (.schedule (schedule_spec hs) (hplain hpc rfl) rfl (.inl rfl))
  next hpc => exact .of_quiet (.readLoop hpc hs)
  next hpc => exact .of_quiet (.nanosleepLoop hpc hs)
  next hpc => exact .of_quiet (.pollLoop hpc hs)
  next hpc =>
    refine effect_waitLoop hpc (fun _ => rfl) (fun _ _ => rfl) (fun hph hsig hf => ?_) hs
    exact effect_doWaitSignal hl (hph ▸ hpc) hsig hf
  next hpc =>
    refine effect_waitLoop hpc (fun _ => rfl) (fun _ _ => rfl) (fun hph hsig hf => ?_) hs
    exact effect_doWaitpgSignal hl (hph ▸ hpc) hsig hf
  next hpc =>
    cases hs
    exact .of_move (.execInstall hl hpc) (.refl _)
  next hpc => exact effect_exitStage hl hpc hs
  next => cases hs

/-- Every step of the machine is a move and its tail. -/
theorem step_effect (h : machine.Step k l k') : Effect k l k' := by
  cases step_cases h with
  | call hpc _ hs => exact effect_runCall (by rw [hpc]; rfl) (by rw [hpc]; simp) hs
  | go hs => exact effect_goOn hs
  | irqDevice d => exact .of_quiet (Quiet.deviceHandler.trans .irqReturn)
  | irqSleep ticks => exact .of_quiet (Quiet.sleepHandler.trans .irqReturn)
  | irqPit =>
      refine .of_quiet (Quiet.trans ?_ .irqReturn)
      exact .outside rfl
  | irqTty hsend =>
      exact .of_quiet ((QuietHere.sendSigInfoPg (by simp) hsend).1.trans .irqReturn)

end Effects
end Task
end JkxyKernel
