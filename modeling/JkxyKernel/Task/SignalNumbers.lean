import JkxyKernel.Task.Faults

/-!
# Signal numbers and pending bits

`send_sig_info` indexes the table of signal actions and shifts by the number it is
given.  `kill` and `tgkill` let one number too many through, `NSIG` itself, which is
beyond the table and whose bit is that of signal 0.  As long as no call hands `NSIG`
to a task, every index is inside the table, only the bits of signals 1 to 31 are ever
pending, and a signal that interrupts a task is one that `deliver_signal` finds.

The invariant is about the pending signals of single tasks; every function is shown to
keep it.
-/

namespace JkxyKernel
namespace Task

open Kernel

/-- The pending mask has bits of real signals only, and never that of `SIGCONT`. -/
structure Sigpending.InRange (p : Sigpending) : Prop where
  zero : p.pendingMask.getLsbD 0 = false
  cont : p.pendingMask.getLsbD SIGCONT = false

/-- The pending masks of all tasks are in range. -/
def MaskInv (k : Kernel) : Prop :=
  ∀ t, (k.task t).sigpending.InRange

/-! ### Masks -/

theorem getLsbD_maskval {s i : Nat} (hs : s < nsig) :
    (maskval s).getLsbD i = decide (i = s) := by
  have hmod : s % 32 = s := Nat.mod_eq_of_lt hs
  have hlt : s < 32 := hs
  unfold maskval
  rw [hmod, BitVec.getLsbD_shiftLeft, BitVec.getLsbD_one]
  by_cases hi : i = s
  · simp [hi, hlt]
  · by_cases hlo : i < s
    · simp [hlo, Nat.ne_of_lt hlo]
    · have hsub : i - s ≠ 0 := by omega
      simp [hsub, hi]

/-- A mask meets a single bit where that bit is set. -/
theorem and_maskval_ne_zero {m : BitVec 32} {s : Nat} (hs : s < nsig) :
    m &&& maskval s ≠ 0 ↔ m.getLsbD s = true := by
  have hbit : ∀ i, (m &&& maskval s).getLsbD i = (m.getLsbD i && decide (i = s)) := by
    intro i
    rw [BitVec.getLsbD_and, getLsbD_maskval hs]
  constructor
  · intro hne
    by_contra hclear
    refine hne (BitVec.eq_of_getLsbD_eq fun i _ => ?_)
    rw [hbit]
    by_cases hi : i = s
    · simpa [hi] using hclear
    · simp [hi]
  · intro hset hzero
    have hs' := hbit s
    rw [hzero, hset] at hs'
    simp at hs'

/-- The highest bit of a mask is set. -/
theorem getLsbD_log2 {m : BitVec 32} (hm : m ≠ 0) : m.getLsbD m.toNat.log2 = true := by
  have hne : m.toNat ≠ 0 := fun h => hm (BitVec.eq_of_toNat_eq (by simpa using h))
  exact Nat.testBit_log2 hne

section Pending

variable {task : TaskStruct} {p : Sigpending}

theorem fatalSignalPending_bit {i : Nat} (h : (fatalSignalPending task).getLsbD i = true) :
    task.sigpending.pendingMask.getLsbD i = true := by
  simp only [fatalSignalPending, BitVec.getLsbD_and, Bool.and_eq_true] at h
  exact h.1

theorem signalPending_bit {i : Nat} (h : (signalPending task).getLsbD i = true) :
    task.sigpending.pendingMask.getLsbD i = true := by
  simp only [signalPending, BitVec.getLsbD_or, BitVec.getLsbD_and, Bool.or_eq_true,
    Bool.and_eq_true] at h
  rcases h with h | h
  · exact fatalSignalPending_bit h
  · exact h.1

/-- The signal that `signal_pending_one` names is pending. -/
theorem signalPendingOne_bit (h : signalPending task ≠ 0) :
    task.sigpending.pendingMask.getLsbD (signalPendingOne task) = true := by
  rw [signalPendingOne, if_pos h]
  split
  next hfatal => exact fatalSignalPending_bit (getLsbD_log2 hfatal)
  next =>
    exact signalPending_bit (getLsbD_log2 h)

/-- Without pending signal `signal_pending_one` says so. -/
theorem signalPendingOne_eq_zero (h : signalPending task = 0) : signalPendingOne task = 0 := by
  have hfatal : fatalSignalPending task = 0 := by
    have hor : fatalSignalPending task |||
        (task.sigpending.pendingMask &&& ~~~task.sigpending.blockedMask) = 0 := h
    exact (BitVec.or_eq_zero_iff.mp hor).1
  simp [signalPendingOne, h, hfatal]

/-- With the mask in range, the two notions of a pending signal agree. -/
theorem signalPending_iff (hp : task.sigpending.InRange) :
    signalPending task ≠ 0 ↔ signalPendingOne task ≠ 0 := by
  constructor
  · intro h hzero
    have hbit := signalPendingOne_bit h
    rw [hzero, hp.zero] at hbit
    cases hbit
  · intro h hzero
    exact h (signalPendingOne_eq_zero hzero)

theorem Sigpending.InRange.empty : Sigpending.empty.InRange :=
  ⟨rfl, rfl⟩

theorem Sigpending.InRange.clear (h : p.InRange) (signum : Nat) : (p.clear signum).InRange := by
  constructor
  · change (p.pendingMask &&& ~~~maskval signum).getLsbD 0 = false
    rw [BitVec.getLsbD_and, h.zero, Bool.false_and]
  · change (p.pendingMask &&& ~~~maskval signum).getLsbD SIGCONT = false
    rw [BitVec.getLsbD_and, h.cont, Bool.false_and]

/-- Recording a signal keeps the mask in range. -/
theorem Sigpending.InRange.post
    {signum : Nat} {siginfos : Structure.Array Siginfo}
    (h : p.InRange) (hpos : 0 < signum) (hlt : signum < nsig) (hcont : signum ≠ SIGCONT) :
    Sigpending.InRange { p with
      pendingMask := p.pendingMask ||| maskval signum, siginfos := siginfos } := by
  constructor
  · change (p.pendingMask ||| maskval signum).getLsbD 0 = false
    rw [BitVec.getLsbD_or, h.zero, getLsbD_maskval hlt]
    simpa using Nat.ne_of_lt hpos
  · change (p.pendingMask ||| maskval signum).getLsbD SIGCONT = false
    rw [BitVec.getLsbD_or, h.cont, getLsbD_maskval hlt]
    simpa using hcont.symm

end Pending

/-! ### Functions -/

section Functions

variable {k k' : Kernel} {t : TaskId}

/-- Only the pending signals of the tasks matter. -/
theorem MaskInv.congr (h : MaskInv k)
    (hsame : ∀ t, (k'.task t).sigpending = (k.task t).sigpending) : MaskInv k' := by
  intro t
  rw [hsame]
  exact h t

theorem MaskInv.modTask {f : TaskStruct → TaskStruct}
    (h : MaskInv k) (hf : ∀ x, x.sigpending.InRange → (f x).sigpending.InRange) :
    MaskInv (k.modTask t f) := by
  intro u
  by_cases hu : u = t
  · subst hu
    simpa [Kernel.modTask] using hf _ (h u)
  · simpa [Kernel.modTask, hu] using h u

theorem MaskInv.setPc {p : Pc} (h : MaskInv k) : MaskInv (k.setPc t p) :=
  h

theorem MaskInv.leave (h : MaskInv k) : MaskInv k.leave :=
  h

theorem MaskInv.setState {state : TaskState} (h : MaskInv k) : MaskInv (k.setState state) :=
  h.modTask fun _ hx => hx

theorem MaskInv.wakeUpProcess (h : MaskInv k) : MaskInv (k.wakeUpProcess t) := by
  refine h.congr fun u => ?_
  rcases wakeUpProcess_task k t u with hu | ⟨-, hu⟩ <;> rw [hu]

theorem MaskInv.schedule {after : Pc} (h : MaskInv k) (hs : k.schedule after = .ok k') :
    MaskInv k' := by
  refine h.congr fun u => ?_
  rcases (schedule_spec hs).task u with hu | ⟨-, hu⟩ <;> rw [hu]

theorem MaskInv.setSigaction {signum : Nat} {act : Sigaction}
    (h : MaskInv k) (hs : k.setSigaction signum act = .ok k') : MaskInv k' := by
  rw [setSigaction_frame hs]
  exact h

theorem MaskInv.sendSigInfo {info : Siginfo}
    (h : MaskInv k) (hpos : 0 < info.signo) (hs : k.sendSigInfo t info = .ok k') :
    MaskInv k' := by
  simp only [Kernel.sendSigInfo] at hs
  split at hs
  next => cases hs
  next =>
    split at hs
    next =>
      cases hs
      exact h
    next =>
      split at hs
      next => cases hs
      next act hact =>
        split at hs
        next =>
          cases hs
          exact h
        next =>
          split at hs
          next =>
            cases hs
            unfold Kernel.sendCont
            split
            · refine MaskInv.wakeUpProcess (h.modTask ?_)
              exact fun _ hx => hx
            · exact h
          next hcont =>
            split at hs
            next => cases hs
            next kp hpost =>
              have hp : MaskInv kp := by
                unfold Kernel.postSignal at hpost
                split at hpost
                next => cases hpost
                next =>
                  cases hpost
                  exact h.modTask fun _ hx => hx.post hpos (sigactionOf_lt hact) hcont
              split at hs
              next =>
                cases hs
                exact hp.wakeUpProcess
              next =>
                cases hs
                exact hp

theorem MaskInv.sendSig {signum : Nat}
    (h : MaskInv k) (hpos : 0 < signum) (hs : k.sendSig t signum = .ok k') : MaskInv k' :=
  h.sendSigInfo hpos hs

theorem MaskInv.forceSig {signum : Nat}
    (h : MaskInv k) (hpos : 0 < signum) (hs : k.forceSig t signum = .ok k') : MaskInv k' := by
  simp only [Kernel.forceSig] at hs
  split at hs
  next => cases hs
  next k₁ hsend =>
    cases hs
    exact (h.sendSig hpos hsend).modTask fun _ hx => ⟨hx.zero, hx.cont⟩

theorem MaskInv.sendSigInfoAll {info : Siginfo} {ts : List TaskId}
    (h : MaskInv k) (hpos : 0 < info.signo) (hs : k.sendSigInfoAll info ts = .ok k') :
    MaskInv k' :=
  sendSigInfoAll_rule (fun _ _ _ h₁ _ h₂ => h₁.sendSigInfo hpos h₂) h hs

theorem MaskInv.sendSigInfoPg {pgid : Nat} {info : Siginfo}
    (h : MaskInv k) (hpos : 0 < info.signo) (hs : k.sendSigInfoPg pgid info = .ok k') :
    MaskInv k' :=
  sendSigInfoPg_rule (fun _ _ _ h₁ _ h₂ => h₁.sendSigInfo hpos h₂) h hs

theorem MaskInv.kill {pid : Int} {signum : Nat}
    (h : MaskInv k) (hs : k.kill pid signum = .ok k') : MaskInv k' := by
  by_cases hpos : 0 < signum
  · exact kill_rule (fun _ _ _ h₁ _ h₂ => h₁.sendSigInfo hpos h₂) h hs
  · have hzero : signum = 0 := by omega
    simp only [Kernel.kill, hzero, reduceIte] at hs
    split at hs
    next =>
      cases hs
      exact h
    next =>
      split at hs
      next =>
        cases hs
        exact h
      next =>
        split at hs <;> cases hs <;> exact h

theorem MaskInv.tgkill {tgid tid : Int} {signum : Nat}
    (h : MaskInv k) (hs : k.tgkill tgid tid signum = .ok k') : MaskInv k' := by
  by_cases hpos : 0 < signum
  · exact tgkill_rule (fun _ _ _ h₁ _ h₂ => h₁.sendSigInfo hpos h₂) h hs
  · have hzero : signum = 0 := by omega
    simp only [Kernel.tgkill, hzero, reduceIte] at hs
    split at hs
    next =>
      cases hs
      exact h
    next =>
      split at hs
      next =>
        cases hs
        exact h
      next =>
        split at hs <;> cases hs <;> exact h

theorem MaskInv.kernelGetPendingSig {signum : Nat} (h : MaskInv k) :
    MaskInv (k.kernelGetPendingSig signum) :=
  h.modTask fun _ hx => hx.clear signum

theorem MaskInv.setSigmask {mask : BitVec 32} (h : MaskInv k) : MaskInv (k.setSigmask mask) :=
  h.modTask fun _ hx => ⟨hx.zero, hx.cont⟩

theorem MaskInv.sigprocmask {how : Nat} {set : BitVec 32} (h : MaskInv k) :
    MaskInv (k.sigprocmask how set) := by
  unfold Kernel.sigprocmask
  split
  · exact h.setSigmask
  · exact h.setSigmask
  · exact h.setSigmask
  · exact h

theorem MaskInv.enterHandler {signum : Nat} {act : Sigaction} {pushFails : Bool}
    (h : MaskInv k) (hs : k.enterHandler signum act pushFails = .ok k') : MaskInv k' := by
  simp only [Kernel.enterHandler] at hs
  split at hs
  next =>
    split at hs
    next => exact h.forceSig (by decide) hs
    next =>
      cases hs
      exact h.setSigmask.setPc
  next =>
    split at hs
    next => exact h.forceSig (by decide) hs
    next =>
      cases hs
      exact h.setPc

theorem MaskInv.doExit {exitcode : Int} (h : MaskInv k) : MaskInv (k.doExit exitcode) := by
  refine MaskInv.setPc (h.modTask ?_)
  exact fun _ hx => hx

theorem MaskInv.deliverSignal {pushFails : Bool}
    (h : MaskInv k) (hs : k.deliverSignal pushFails = .ok k') : MaskInv k' := by
  simp only [Kernel.deliverSignal] at hs
  split at hs
  next =>
    cases hs
    exact h.setPc
  next =>
    have hget : MaskInv (k.kernelGetPendingSig (signalPendingOne k.cur)) :=
      h.kernelGetPendingSig
    split at hs
    next => cases hs
    next =>
      split at hs
      next =>
        split at hs
        next =>
          cases hs
          exact hget.setPc
        next =>
          cases hs
          exact hget.doExit
        next =>
          cases hs
          refine MaskInv.setPc (hget.modTask ?_)
          exact fun _ hx => hx
        next => cases hs
      next =>
        split at hs
        next =>
          cases hs
          exact hget.setPc
        next => exact hget.enterHandler hs

/-! ### Exit and wait -/

theorem MaskInv.doWaitTask {pid : Nat} (h : MaskInv k) : MaskInv (k.doWaitTask t pid) := by
  have hdead : MaskInv (k.modTask t fun task => { task with state := .dead }) :=
    h.modTask fun _ hx => hx
  exact hdead.congr fun _ => rfl

theorem MaskInv.putSession (h : MaskInv k) : MaskInv k.putSession := by
  unfold Kernel.putSession
  split
  · exact h.modTask fun _ hx => hx
  · exact h

theorem MaskInv.putSigactions (h : MaskInv k) (hs : k.putSigactions = .ok k') :
    MaskInv k' := by
  simp only [Kernel.putSigactions] at hs
  split at hs
  next => cases hs
  next =>
    cases hs
    exact h

theorem MaskInv.putSiginfos (h : MaskInv k) (hs : k.putSiginfos = .ok k') : MaskInv k' := by
  simp only [Kernel.putSiginfos] at hs
  split at hs
  next => cases hs
  next siginfos _ =>
    cases hs
    have hp : MaskInv (k.modTask k.current fun task =>
        { task with sigpending := { task.sigpending with siginfos := siginfos } }) :=
      h.modTask fun _ hx => ⟨hx.zero, hx.cont⟩
    exact hp.congr fun _ => rfl

theorem MaskInv.notifyParent (h : MaskInv k) (hs : k.notifyParent = .ok k') : MaskInv k' := by
  rcases notifyParent_cases hs with rfl | ⟨parent, k₁, rfl | rfl, hsend⟩
  · exact h.doWaitTask
  · exact h.sendSigInfo (by simp [exitSiginfo, SIGCHLD]) hsend
  · refine MaskInv.sendSigInfo ?_ (by simp [exitSiginfo, SIGCHLD]) hsend
    exact h.congr fun _ => rfl

theorem MaskInv.reparentChildren (h : MaskInv k) : MaskInv k.reparentChildren := by
  refine h.congr fun u => ?_
  unfold Kernel.reparentChildren
  simp only
  split <;> rfl

theorem MaskInv.exitStage {stage : ExitStage}
    (h : MaskInv k) (hs : k.exitStage stage = .ok k') : MaskInv k' := by
  cases stage with
  | closing =>
      cases hs
      exact h.putSession.setPc
  | putSigactions =>
      simp only [Kernel.exitStage] at hs
      split at hs
      next => cases hs
      next k₁ hput =>
        cases hs
        exact (h.putSigactions hput).setPc
  | putSiginfos =>
      simp only [Kernel.exitStage] at hs
      split at hs
      next => cases hs
      next k₁ hput =>
        cases hs
        exact (h.putSiginfos hput).setPc
  | notify =>
      simp only [Kernel.exitStage] at hs
      split at hs
      next => cases hs
      next k₁ hnotify =>
        cases hs
        exact (h.notifyParent hnotify).setPc
  | reparent =>
      cases hs
      exact h.reparentChildren.setPc
  | sched => exact h.schedule hs

theorem MaskInv.waitSleep {wait : Sigaction → Pc}
    (h : MaskInv k) (hs : k.waitSleep wait = .ok k') : MaskInv k' := by
  simp only [Kernel.waitSleep] at hs
  split at hs
  next => cases hs
  next =>
    split at hs
    next => cases hs
    next k₁ hset =>
      cases hs
      exact (h.setSigaction hset).setState.setPc

theorem MaskInv.waitReturn {oldaction : Sigaction}
    (h : MaskInv k) (hs : k.waitReturn oldaction = .ok k') : MaskInv k' := by
  simp only [Kernel.waitReturn] at hs
  split at hs
  next => cases hs
  next k₁ hset =>
    cases hs
    exact (h.setSigaction hset).leave

theorem MaskInv.doWait (h : MaskInv k) (hs : k.doWait t = .ok k') : MaskInv k' := by
  simp only [Kernel.doWait] at hs
  split at hs
  next => cases hs
  next =>
    split at hs
    next =>
      cases hs
      exact h.leave
    next =>
      split at hs
      next =>
        cases hs
        exact h.doWaitTask.leave
      next => exact h.waitSleep hs

theorem MaskInv.doWaitSignal {oldaction : Sigaction}
    (h : MaskInv k) (hs : k.doWaitSignal t oldaction = .ok k') : MaskInv k' := by
  simp only [Kernel.doWaitSignal] at hs
  split at hs
  next => cases hs
  next => exact h.waitReturn hs
  next =>
    split at hs
    next =>
      split at hs
      next => cases hs
      next =>
        split at hs
        next => exact h.kernelGetPendingSig.doWaitTask.waitReturn hs
        next => exact h.waitReturn hs
    next => exact h.waitReturn hs

theorem MaskInv.doWaitpg {pgid : Nat} {wait : Bool}
    (h : MaskInv k) (hs : k.doWaitpg pgid wait = .ok k') : MaskInv k' := by
  simp only [Kernel.doWaitpg] at hs
  split at hs
  next =>
    cases hs
    exact h.doWaitTask.leave
  next =>
    split at hs
    next =>
      cases hs
      exact h.leave
    next =>
      split at hs
      next =>
        cases hs
        exact h.leave
      next => exact h.waitSleep hs

theorem MaskInv.doWaitpgSignal {pgid : Nat} {oldaction : Sigaction}
    (h : MaskInv k) (hs : k.doWaitpgSignal pgid oldaction = .ok k') : MaskInv k' := by
  simp only [Kernel.doWaitpgSignal] at hs
  split at hs
  next => cases hs
  next => exact h.waitReturn hs
  next =>
    split at hs
    next =>
      split at hs
      next => cases hs
      next =>
        split at hs
        next => exact h.kernelGetPendingSig.doWaitTask.waitReturn hs
        next => exact h.waitReturn hs
    next => exact h.waitReturn hs

theorem MaskInv.waitLoop {wait : Phase → Pc} {found : Except Fault Kernel} {phase : Phase}
    (h : MaskInv k) (hfound : found = .ok k' → MaskInv k')
    (hs : k.waitLoop wait found phase = .ok k') : MaskInv k' := by
  cases phase with
  | sched => exact h.schedule hs
  | woken =>
      cases hs
      exact h.setState.setPc
  | check =>
      simp only [Kernel.waitLoop] at hs
      split at hs
      next => exact hfound hs
      next =>
        cases hs
        exact h.setState.setPc

theorem MaskInv.doSysWaitpid {pid : Int} {wnohang : Bool}
    (h : MaskInv k) (hs : k.doSysWaitpid pid wnohang = .ok k') : MaskInv k' := by
  simp only [Kernel.doSysWaitpid] at hs
  split at hs
  next => exact h.doWaitpg hs
  next =>
    split at hs
    next =>
      cases hs
      exact h.leave
    next =>
      split at hs
      next =>
        cases hs
        exact h.leave
      next => exact h.doWait hs

/-! ### Creating, replacing, sleeping -/

theorem MaskInv.doClone {flags : BitVec 32} {user : Bool}
    (h : MaskInv k) (hs : k.doClone flags user = .ok k') : MaskInv k' := by
  simp only [Kernel.doClone] at hs
  split at hs
  next =>
    cases hs
    exact h
  next pid next _ =>
    split at hs
    next => cases hs
    next =>
      cases hs
      refine MaskInv.wakeUpProcess fun u => ?_
      rw [cloneSigactions_frame]
      by_cases hu : u = k.numTasks
      · subst hu
        simpa [Kernel.addTask, Kernel.cloneTask] using Sigpending.InRange.empty
      · simpa [Kernel.addTask, hu] using h u

theorem MaskInv.execPut {subsystem : Subsystem}
    (h : MaskInv k) (hs : k.execPut subsystem = .ok k') : MaskInv k' := by
  simp only [Kernel.execPut] at hs
  split at hs
  next => cases hs
  next k₁ hput =>
    cases hs
    exact (h.putSigactions hput).setPc

theorem MaskInv.execInstall {subsystem : Subsystem} (h : MaskInv k) :
    MaskInv (k.execInstall subsystem) := by
  refine h.congr fun u => ?_
  by_cases hu : u = k.current
  · subst hu
    simp [Kernel.execInstall, Kernel.modTask, Kernel.leave, Kernel.setPc]
  · simp [Kernel.execInstall, Kernel.modTask, Kernel.leave, Kernel.setPc, hu]

theorem MaskInv.doSetsid (h : MaskInv k) : MaskInv k.doSetsid := by
  refine h.congr fun u => ?_
  unfold Kernel.doSetsid
  split
  · rfl
  · by_cases hu : u = k.current
    · subst hu
      simp [Kernel.modTask]
    · simp [Kernel.modTask, hu]

theorem MaskInv.doSetpgid {pid pgid : Int} (h : MaskInv k) : MaskInv (k.doSetpgid pid pgid) := by
  unfold Kernel.doSetpgid
  simp only
  split
  · split
    · split
      · exact h
      · exact h.modTask fun _ hx => hx
    · exact h
  · exact h

theorem MaskInv.readEnter {d : Device} (h : MaskInv k) : MaskInv (k.readEnter d) := by
  unfold Kernel.readEnter
  split
  · exact h.leave
  · refine MaskInv.setPc (MaskInv.setState ?_)
    exact h.congr fun _ => rfl

theorem MaskInv.readLoop {d : Device} {rest : Bool} {phase : SpinPhase}
    (h : MaskInv k) (hs : k.readLoop d rest phase = .ok k') : MaskInv k' := by
  cases phase with
  | sched => exact h.schedule hs
  | check =>
      have hrun : MaskInv (k.setState .running) := h.setState
      simp only [Kernel.readLoop] at hs
      split at hs
      next =>
        cases hs
        exact hrun.congr fun _ => rfl
      next =>
        cases hs
        exact h.setPc

theorem MaskInv.nanosleepLoop {spec : SleepSpec} {phase : Phase}
    (h : MaskInv k) (hs : k.nanosleepLoop spec phase = .ok k') : MaskInv k' := by
  cases phase with
  | sched => exact h.schedule hs
  | woken =>
      cases hs
      exact h.setState.setPc
  | check =>
      simp only [Kernel.nanosleepLoop] at hs
      split at hs
      next =>
        cases hs
        exact h.congr fun _ => rfl
      next =>
        cases hs
        exact h.setState.setPc

theorem MaskInv.pollLeave {call : PollCall} (h : MaskInv k) : MaskInv (k.pollLeave call) := by
  unfold Kernel.pollLeave
  split <;> exact h.congr fun _ => rfl

theorem MaskInv.pollLoop {call : PollCall} {phase : Phase}
    (h : MaskInv k) (hs : k.pollLoop call phase = .ok k') : MaskInv k' := by
  cases phase with
  | sched => exact h.schedule hs
  | woken =>
      cases hs
      exact h.setState.setPc
  | check =>
      have hreg : MaskInv (k.pollRegister call.devices) := h.congr fun _ => rfl
      simp only [Kernel.pollLoop] at hs
      split at hs
      next =>
        cases hs
        exact h.pollLeave
      next =>
        split at hs
        next =>
          cases hs
          exact hreg.pollLeave
        next =>
          cases hs
          exact hreg.setState.setPc

theorem MaskInv.pollEnter {devices : List Device} {immediate : Bool} {timeout : Int}
    (h : MaskInv k) : MaskInv (k.pollEnter devices immediate timeout) := by
  unfold Kernel.pollEnter
  split <;> exact h.congr fun _ => rfl

theorem MaskInv.wakeSleepers {specs : List SleepSpec} (h : MaskInv k) :
    MaskInv (k.wakeSleepers specs) := by
  induction specs generalizing k with
  | nil => exact h
  | cons spec specs ih => exact ih h.wakeUpProcess

theorem MaskInv.deviceHandler {d : Device} (h : MaskInv k) : MaskInv (k.deviceHandler d) := by
  have hready : MaskInv { k with ready := Function.update k.ready d true } :=
    h.congr fun _ => rfl
  unfold Kernel.deviceHandler
  simp only
  split
  · exact hready
  · exact hready.wakeUpProcess

theorem MaskInv.irqReturn (h : MaskInv k) : MaskInv k.irqReturn := by
  unfold Kernel.irqReturn
  split
  · exact h.setPc
  · exact h

/-! ### Steps -/

theorem MaskInv.finish {r : Except Fault Kernel}
    (hr : ∀ k', r = .ok k' → MaskInv k') (hs : Kernel.finish r = .ok k') : MaskInv k' := by
  unfold Kernel.finish at hs
  split at hs
  next => cases hs
  next k₁ =>
    cases hs
    exact (hr k₁ rfl).leave

theorem MaskInv.runCall {c : Call}
    (h : MaskInv k) (hown : c.namesOwn = true) (hs : k.runCall c = .ok k') : MaskInv k' := by
  cases c with
  | clone flags => exact .finish (fun _ h₁ => h.doClone h₁) hs
  | kernelThread => exact .finish (fun _ h₁ => h.doClone h₁) hs
  | execute =>
      simp only [Kernel.runCall] at hs
      split at hs
      next => cases hs
      next k₁ hclone =>
        split at hs
        next =>
          cases hs
          exact h
        next => exact (h.doClone hclone).doWait hs
  | execve subsystem => exact h.execPut hs
  | exit status =>
      cases hs
      exact h.doExit
  | halt status =>
      cases hs
      exact h.doExit
  | threadReturn exitcode =>
      cases hs
      exact h.doExit
  | kill pid signum => exact .finish (fun _ h₁ => h.kill h₁) hs
  | tgkill tgid tid signum => exact .finish (fun _ h₁ => h.tgkill h₁) hs
  | waitpid pid wnohang => exact h.doSysWaitpid hs
  | rtSigaction signum act =>
      simp only [Kernel.runCall] at hs
      split at hs
      next => exact .finish (fun _ h₁ => h.setSigaction h₁) hs
      next =>
        cases hs
        exact h.leave
  | rtSigprocmask how set =>
      cases hs
      exact h.sigprocmask.leave
  | sigreturn oldmask =>
      cases hs
      exact h.setSigmask.leave
  | setsid =>
      cases hs
      exact h.doSetsid.leave
  | setpgid pid pgid =>
      cases hs
      exact h.doSetpgid.leave
  | read d =>
      cases hs
      exact h.readEnter
  | nanosleep time =>
      cases hs
      exact h.congr fun _ => rfl
  | poll devices immediate timeout =>
      cases hs
      exact h.pollEnter
  | exception signum =>
      have hpos : 0 < signum := by
        simp only [Call.namesOwn, decide_eq_true_eq, List.mem_cons, List.not_mem_nil,
          or_false] at hown
        rcases hown with rfl | rfl | rfl | rfl <;> decide
      exact .finish (fun _ h₁ => h.sendSig hpos h₁) hs
  | forceSegv => exact .finish (fun _ h₁ => h.forceSig (by decide) h₁) hs
  | kernelGetPendingSig signum =>
      cases hs
      exact h.kernelGetPendingSig
  | kernelMaskSignal signum => exact h.setSigaction hs
  | kernelUnmaskSignal signum => exact h.setSigaction hs
  | other =>
      cases hs
      exact h.leave

theorem MaskInv.goOn {choice : Bool} (h : MaskInv k) (hs : k.goOn choice = .ok k') :
    MaskInv k' := by
  unfold Kernel.goOn at hs
  split at hs
  next =>
    cases hs
    exact h.leave
  next =>
    split at hs
    next =>
      cases hs
      exact h
    next => exact h.schedule hs
  next =>
    cases hs
    exact h
  next => exact h.deliverSignal hs
  next =>
    split at hs
    next =>
      cases hs
      exact h.setPc
    next => exact h.schedule hs
  next =>
    split at hs
    next =>
      cases hs
      exact h.setPc
    next => cases hs
  next => exact h.schedule hs
  next => exact h.readLoop hs
  next => exact h.nanosleepLoop hs
  next => exact h.pollLoop hs
  next => exact h.waitLoop (fun h₁ => h.doWaitSignal h₁) hs
  next => exact h.waitLoop (fun h₁ => h.doWaitpgSignal h₁) hs
  next =>
    cases hs
    exact h.execInstall
  next => exact h.exitStage hs
  next => cases hs

/-- Every step keeps the masks in range. -/
theorem MaskInv.step {l : Label} (h : MaskInv k) (hstep : machine.Step k l k') :
    MaskInv k' := by
  cases step_cases hstep with
  | call _ hown hs => exact h.runCall hown hs
  | go hs => exact h.goOn hs
  | irqDevice d => exact h.deviceHandler.irqReturn
  | irqSleep ticks =>
      refine MaskInv.irqReturn (MaskInv.wakeSleepers ?_)
      exact h.congr fun _ => rfl
  | irqPit =>
      refine MaskInv.irqReturn ?_
      exact h.congr fun _ => rfl
  | irqTty hsend => exact (h.sendSigInfoPg (by decide) hsend).irqReturn

theorem MaskInv.reach {ok : Kernel → Label → Prop} (h : machine.Reach Init ok k) :
    MaskInv k := by
  refine h.invariant (P := MaskInv) ?_ fun _ _ _ h₁ _ hs => h₁.step hs
  rintro _ rfl t
  by_cases ht : t = swapperTask
  · simpa [boot, bootTask, ht] using Sigpending.InRange.empty
  · simpa [boot, bootTask, ht] using Sigpending.InRange.empty

/-! ### Beyond the table -/

/-- Handing `NSIG` to a task reads beyond its table, unless the table is gone. -/
theorem sendSigInfo_beyond {info : Siginfo} (h : MaskInv k) (hsigno : info.signo = nsig) :
    k.sendSigInfo t info = .error .outOfBounds ∨
      k.sendSigInfo t info = .error .useAfterFree := by
  have hmask : (k.task t).sigpending.pendingMask &&& maskval info.signo = 0 := by
    rw [hsigno]
    refine BitVec.eq_of_getLsbD_eq fun i _ => ?_
    rw [BitVec.getLsbD_and, show maskval nsig = maskval 0 from rfl, getLsbD_maskval (by decide)]
    by_cases hi : i = 0
    · rw [hi, (h t).zero, Bool.false_and]
      rfl
    · simp [hi]
  have hbeyond : ¬ info.signo < nsig := by omega
  unfold Kernel.sendSigInfo
  split
  next => exact .inr rfl
  next =>
    rw [if_neg (not_not.mpr hmask)]
    unfold Kernel.sigactionOf
    split
    next e hact =>
      split at hact
      next =>
        cases hact
        exact .inr rfl
      next =>
        rw [if_pos (Nat.le_of_not_lt hbeyond)] at hact
        cases hact
        exact .inl rfl
    next act hact =>
      split at hact
      next => cases hact
      next =>
        rw [if_pos (Nat.le_of_not_lt hbeyond)] at hact
        cases hact

/-- The access is beyond the table, or to a freed block. -/
def Beyond (r : Except Fault Kernel) : Prop :=
  r = .error .outOfBounds ∨ r = .error .useAfterFree

theorem Beyond.finish {r : Except Fault Kernel} (h : Beyond r) : Beyond (Kernel.finish r) := by
  rcases h with rfl | rfl
  · exact .inl rfl
  · exact .inr rfl

theorem kill_beyond {pid : Int} (h : MaskInv k)
    (hto : pid < 1 ∧ k.killTargets pid ≠ [] ∨ 1 ≤ pid ∧ ∃ t, k.getTaskFromPid pid.toNat = some t) :
    Beyond (k.kill pid nsig) := by
  have hnonzero : ¬ nsig = 0 := by decide
  unfold Kernel.kill
  rw [if_neg (Nat.lt_irrefl _)]
  rcases hto with ⟨hpid, hne⟩ | ⟨hpid, t, ht⟩
  · obtain ⟨t, ts, hts⟩ := List.exists_cons_of_ne_nil hne
    rw [if_pos hpid, if_neg hnonzero, hts]
    change Beyond (k.sendSigInfoAll (killInfo k nsig) (t :: ts))
    unfold Kernel.sendSigInfoAll
    have hsend : k.sendSigInfo t (killInfo k nsig) = .error .outOfBounds ∨
        k.sendSigInfo t (killInfo k nsig) = .error .useAfterFree := sendSigInfo_beyond h rfl
    rcases hsend with he | he
    · rw [he]
      exact .inl rfl
    · rw [he]
      exact .inr rfl
  · rw [if_neg (Int.not_lt.mpr hpid), ht]
    simp only
    rw [if_neg hnonzero]
    exact sendSigInfo_beyond h rfl

theorem tgkill_beyond {tid : Int} (h : MaskInv k)
    (hto : ∃ t, k.getTaskFromPid (tid % 2 ^ 16).toNat = some t) :
    Beyond (k.tgkill tid tid nsig) := by
  obtain ⟨t, ht⟩ := hto
  have hnonzero : ¬ nsig = 0 := by decide
  unfold Kernel.tgkill
  rw [if_neg (Nat.lt_irrefl _), if_neg (not_not.mpr rfl), ht]
  simp only
  rw [if_neg hnonzero]
  exact sendSigInfo_beyond h rfl

theorem beyondTable_faults {l : Label} (h : MaskInv k) (hb : BeyondTable k l)
    (hen : machine.enabled l k = true) :
    machine.Faults k l .outOfBounds ∨ machine.Faults k l .useAfterFree := by
  have hexec : Beyond (k.execLabel l) := by
    unfold Kernel.execLabel
    split
    next => exact .inr rfl
    next =>
      cases l with
      | call c =>
          cases c with
          | kill pid signum =>
              obtain ⟨rfl, hto⟩ := hb
              exact (kill_beyond h hto).finish
          | tgkill tgid tid signum =>
              obtain ⟨rfl, rfl, hto⟩ := hb
              exact (tgkill_beyond h hto).finish
          | _ => exact hb.elim
      | _ => exact hb.elim
  rcases hexec with he | he
  · exact .inl ⟨hen, he⟩
  · exact .inr ⟨hen, he⟩

end Functions

/-- **Signal numbers stay in range.**  While no call hands `NSIG` to a task, only bits of
signals 1 to 31 are pending, `signal_pending` sees a signal exactly when
`signal_pending_one` does, and no access leaves a table of signal actions.  A call that
does hand `NSIG` to a task always ends in such an access, or in one to a freed table. -/
theorem signals_inRange (k : Kernel) :
    (machine.Reach Init (fun k l => ¬ BeyondTable k l) k →
      (∀ t i, (k.task t).sigpending.pendingMask.getLsbD i = true → 0 < i ∧ i < nsig) ∧
      (∀ t, signalPending (k.task t) ≠ 0 ↔ signalPendingOne (k.task t) ≠ 0) ∧
      ∀ l, ¬ BeyondTable k l → ¬ machine.Faults k l .outOfBounds) ∧
    ∀ l, machine.Reach Init (fun _ _ => True) k → BeyondTable k l →
      machine.enabled l k = true →
        machine.Faults k l .outOfBounds ∨ machine.Faults k l .useAfterFree := by
  refine ⟨fun h => ⟨fun t i hi => ⟨?_, ?_⟩, fun t => signalPending_iff (MaskInv.reach h t), ?_⟩,
    fun l h hb hen => beyondTable_faults (.reach h) hb hen⟩
  · by_contra hzero
    have hi0 : i = 0 := by omega
    rw [hi0, (MaskInv.reach h t).zero] at hi
    cases hi
  · exact BitVec.lt_of_getLsbD hi
  · intro l hl hfault
    cases faults_blame hfault with
    | outOfBounds hb => exact hl hb

/-- A process sends itself signal 32. -/
def signalRun : List Label :=
  [.go false, .go false, .call (.execve .linux), .go false, .go false, .go false]

/-- `kill` accepts the number and `send_sig_info` reads behind the table. -/
theorem killNsig_faults :
    ∃ k, machine.Reach Init (fun _ _ => True) k ∧
      machine.Faults k (.call (.kill 1 32)) .outOfBounds := by
  have hrun : (machine.runLabels signalRun boot).any
      (machine.faultsWith (.call (.kill 1 32)) .outOfBounds) = true := by
    decide +kernel
  obtain ⟨k, hreach, hk⟩ := Machine.exists_reach_of_run (show Init boot from rfl) hrun
  exact ⟨k, hreach, Machine.faults_of_faultsWith hk⟩

end Task
end JkxyKernel
