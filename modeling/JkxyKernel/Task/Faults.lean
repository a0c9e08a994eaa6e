import JkxyKernel.Task.Effects

/-!
# Which faults a step can end in

The functions of the process subsystem hand faults upwards unchanged.  For each of
them one lemma says which faults it can raise; `faults_blame` collects what this says
about the steps of the machine.  Most faults stand for blocks that were given back too
early.  The rest belong to few places, which `Blame` lists.
-/

namespace JkxyKernel
namespace Task

open Kernel

/-- The task that a stop signal has stopped tests the loop around `schedule()` again
after a `SIGCONT`. -/
def Continued (k : Kernel) (l : Label) : Prop :=
  l.IsGo ∧ k.pc k.current = .stopLoop .check ∧ k.cur.stopped = false

/-- The call hands `NSIG`, the first number beyond the table, to a task. -/
def BeyondTable (k : Kernel) : Label → Prop
  | .call (.kill pid signum) =>
      signum = nsig ∧
        (pid < 1 ∧ k.killTargets pid ≠ [] ∨
          1 ≤ pid ∧ ∃ t, k.getTaskFromPid pid.toNat = some t)
  | .call (.tgkill tgid tid signum) =>
      signum = nsig ∧ tid = tgid ∧ ∃ t, k.getTaskFromPid (tid % 2 ^ 16).toNat = some t
  | _ => False

/-- The faults of a step, with the places that can raise them. -/
inductive Blame (k : Kernel) (l : Label) : Fault → Prop
  | useAfterFree : Blame k l .useAfterFree
  | nullPointer : Blame k l .nullPointer
  | panic : l.IsGo → k.pc k.current = .exit .notify → k.cur.ppid = 0 → Blame k l .panic
  /-- `do_exit` finds no parent. -/
  | noParent :
      l.IsGo → k.pc k.current = .exit .notify → k.getTaskFromPid k.cur.ppid = none →
      Blame k l .errorPointer
  /-- `do_waitpg` finds no task behind a record. -/
  | noChild {pgid : Nat} {oldaction : Sigaction} :
      l.IsGo → k.pc k.current = .doWaitpg pgid oldaction .check → Blame k l .errorPointer
  | outOfBounds : BeyondTable k l → Blame k l .outOfBounds
  /-- The default action of `SIGCONT` in `deliver_signal`. -/
  | contDelivered :
      l.IsGo → k.pc k.current = .retSignal →
      defaultSigAction (signalPendingOne k.cur) = .cont → Blame k l .bug
  /-- The end of the stop loop in `deliver_signal`. -/
  | continued : Continued k l → Blame k l .bug
  /-- The end of `do_exit`. -/
  | exited : l.IsGo → k.pc k.current = .exited → Blame k l .bug

section Functions

variable {k : Kernel} {e : Fault} {t : TaskId}

theorem sigactionOf_fault {signum : Nat} (h : k.sigactionOf t signum = .error e) :
    e = .useAfterFree ∨ e = .outOfBounds ∧ nsig ≤ signum := by
  unfold sigactionOf at h
  split at h
  next =>
    cases h
    exact .inl rfl
  next =>
    split at h
    next hlt =>
      cases h
      exact .inr ⟨rfl, hlt⟩
    next => cases h

theorem setSigaction_fault {signum : Nat} {act : Sigaction}
    (h : k.setSigaction signum act = .error e) :
    e = .useAfterFree ∨ e = .outOfBounds ∧ nsig ≤ signum := by
  unfold setSigaction at h
  split at h
  next =>
    cases h
    exact .inl rfl
  next =>
    split at h
    next hlt =>
      cases h
      exact .inr ⟨rfl, hlt⟩
    next => cases h

/-! ### Signals -/

theorem arraySet_fault {arr : Structure.Array Siginfo} {i : Nat} {v : Siginfo}
    (hi : i < nsig) (h : arr.set i (some v) = .error e) : e = .useAfterFree := by
  have hbound : arr.set i (some v) ≠ .error .outOfBounds :=
    Structure.Array.set_inBounds (Nat.lt_trans hi (by decide))
  have hstore : ∀ arr₀ : Structure.Array Siginfo,
      arr₀.store i (some v) = .error e → e = .useAfterFree := by
    intro arr₀ h₀
    unfold Structure.Array.store at h₀
    split at h₀
    next => cases h₀
    next =>
      split at h₀
      next =>
        cases h₀
        rfl
      next => cases h₀
  rw [h] at hbound
  unfold Structure.Array.set at h
  split at h
  next =>
    split at h
    next grown _ => exact hstore grown h
    next e' hgrow =>
      cases h
      unfold Structure.Array.grow at hgrow
      split at hgrow
      next =>
        cases hgrow
        rfl
      next =>
        split at hgrow
        next =>
          cases hgrow
          exact absurd rfl hbound
        next => cases hgrow
  next => exact hstore arr h

theorem sendSigInfo_fault {info : Siginfo} (h : k.sendSigInfo t info = .error e) :
    e = .useAfterFree ∨ e = .outOfBounds ∧ nsig ≤ info.signo := by
  unfold sendSigInfo at h
  split at h
  next =>
    cases h
    exact .inl rfl
  next =>
    split at h
    next => cases h
    next =>
      split at h
      next e' hact =>
        cases h
        exact sigactionOf_fault hact
      next act hact =>
        split at h
        next => cases h
        next =>
          split at h
          next => cases h
          next =>
            split at h
            next e' hpost =>
              cases h
              unfold postSignal at hpost
              split at hpost
              next e' hset =>
                cases hpost
                exact .inl (arraySet_fault (sigactionOf_lt hact) hset)
              next => cases hpost
            next => split at h <;> cases h

theorem sendSigInfoAll_fault {info : Siginfo} {ts : List TaskId}
    (h : k.sendSigInfoAll info ts = .error e) :
    e = .useAfterFree ∨ e = .outOfBounds ∧ nsig ≤ info.signo := by
  induction ts generalizing k with
  | nil => cases h
  | cons t ts ih =>
      simp only [sendSigInfoAll] at h
      split at h
      next e' hsend =>
        cases h
        exact sendSigInfo_fault hsend
      next => exact ih h

theorem sendSigInfoPg_fault {pgid : Nat} {info : Siginfo}
    (h : k.sendSigInfoPg pgid info = .error e) :
    e = .useAfterFree ∨ e = .outOfBounds ∧ nsig ≤ info.signo := by
  unfold sendSigInfoPg at h
  split at h
  next => cases h
  next =>
    split at h
    next => exact sendSigInfo_fault h
    next => exact sendSigInfoAll_fault h

theorem kill_fault {pid : Int} {signum : Nat} (h : k.kill pid signum = .error e) :
    e = .useAfterFree ∨ e = .outOfBounds ∧ BeyondTable k (.call (.kill pid signum)) := by
  unfold Kernel.kill at h
  simp only at h
  split at h
  next => cases h
  next hle =>
    split at h
    next hpid =>
      split at h
      next => cases h
      next =>
        rcases sendSigInfoAll_fault h with he | ⟨he, hge⟩
        · exact .inl he
        · refine .inr ⟨he, Nat.le_antisymm (Nat.le_of_not_lt hle) hge, .inl ⟨hpid, ?_⟩⟩
          intro hnil
          rw [hnil] at h
          cases h
    next hpid =>
      split at h
      next => cases h
      next t hget =>
        split at h
        next => cases h
        next =>
          rcases sendSigInfo_fault h with he | ⟨he, hge⟩
          · exact .inl he
          · exact .inr ⟨he, Nat.le_antisymm (Nat.le_of_not_lt hle) hge,
              .inr ⟨by omega, t, hget⟩⟩

theorem tgkill_fault {tgid tid : Int} {signum : Nat}
    (h : k.tgkill tgid tid signum = .error e) :
    e = .useAfterFree ∨ e = .outOfBounds ∧ BeyondTable k (.call (.tgkill tgid tid signum)) := by
  unfold Kernel.tgkill at h
  simp only at h
  split at h
  next => cases h
  next hle =>
    split at h
    next => cases h
    next hself =>
      split at h
      next => cases h
      next t hget =>
        split at h
        next => cases h
        next =>
          rcases sendSigInfo_fault h with he | ⟨he, hge⟩
          · exact .inl he
          · exact .inr ⟨he, Nat.le_antisymm (Nat.le_of_not_lt hle) hge,
              not_not.mp hself, t, hget⟩

theorem sendSig_fault {signum : Nat} (hlt : signum < nsig)
    (h : k.sendSig t signum = .error e) : e = .useAfterFree := by
  rcases sendSigInfo_fault h with h | ⟨-, hge⟩
  · exact h
  · exact absurd hge (Nat.not_le.mpr hlt)

theorem forceSig_fault {signum : Nat} (hlt : signum < nsig)
    (h : k.forceSig t signum = .error e) : e = .useAfterFree := by
  unfold forceSig at h
  split at h
  next e' hsend =>
    cases h
    exact sendSig_fault hlt hsend
  next => cases h

theorem kernelPeekPendingSig_fault {signum : Nat}
    (h : k.kernelPeekPendingSig signum = .error e) : e = .useAfterFree ∨ e = .nullPointer := by
  unfold kernelPeekPendingSig at h
  split at h
  next => cases h
  next =>
    split at h
    next e' hget =>
      cases h
      unfold Structure.Array.get at hget
      split at hget
      next =>
        cases hget
        exact .inl rfl
      next => cases hget
    next =>
      cases h
      exact .inr rfl
    next => cases h

theorem log2_lt_nsig (m : BitVec 32) : m.toNat.log2 < nsig := by
  by_cases h0 : m.toNat = 0
  · simp [h0, nsig]
  · exact (Nat.log2_lt h0).mpr m.isLt

/-- The signal that `deliver_signal` takes has an entry in the table. -/
theorem signalPendingOne_lt (task : TaskStruct) : signalPendingOne task < nsig := by
  unfold signalPendingOne
  split
  · exact log2_lt_nsig _
  · split
    · exact log2_lt_nsig _
    · decide

theorem enterHandler_fault {signum : Nat} {act : Sigaction} {pushFails : Bool}
    (h : k.enterHandler signum act pushFails = .error e) : e = .useAfterFree := by
  unfold enterHandler at h
  split at h
  next =>
    split at h
    next => exact forceSig_fault (by decide) h
    next => cases h
  next =>
    split at h
    next => exact forceSig_fault (by decide) h
    next => cases h

theorem deliverSignal_fault {pushFails : Bool} (h : k.deliverSignal pushFails = .error e) :
    e = .useAfterFree ∨ e = .bug ∧ defaultSigAction (signalPendingOne k.cur) = .cont := by
  unfold deliverSignal at h
  simp only at h
  split at h
  next => cases h
  next =>
    split at h
    next e' hact =>
      cases h
      rcases sigactionOf_fault hact with h | ⟨-, hge⟩
      · exact .inl h
      · exact absurd hge (Nat.not_le.mpr (signalPendingOne_lt _))
    next =>
      split at h
      next =>
        split at h
        next => cases h
        next => cases h
        next => cases h
        next hcont =>
          cases h
          exact .inr ⟨rfl, hcont⟩
      next =>
        split at h
        next => cases h
        next => exact .inl (enterHandler_fault h)

/-! ### Scheduling, exit and wait -/

theorem schedule_fault {after : Pc} (h : k.schedule after = .error e) :
    e = .useAfterFree := by
  have hswitch : ∀ (k₀ : Kernel) (t₀ : TaskId),
      k₀.switchTo t₀ = .error e → e = .useAfterFree := by
    intro k₀ t₀ h₀
    unfold switchTo at h₀
    split at h₀
    next => cases h₀
    next =>
      split at h₀
      next =>
        cases h₀
        rfl
      next => cases h₀
  have hfree : ∀ (ts : List TaskId) (freed : TaskId → Bool),
      freeStacks ts freed = .error e → e = .useAfterFree := by
    intro ts
    induction ts with
    | nil =>
        intro freed h₀
        cases h₀
    | cons t ts ih =>
        intro freed h₀
        unfold freeStacks at h₀
        split at h₀
        next =>
          cases h₀
          rfl
        next => exact ih _ h₀
  unfold schedule at h
  split at h
  next e' hnext =>
    cases h
    unfold switchToNext at hnext
    split at hnext <;> exact hswitch _ _ hnext
  next =>
    unfold resumed doFreeTasks at h
    split at h
    next => cases h
    next =>
      split at h
      next e' hstacks =>
        cases h
        exact hfree _ _ hstacks
      next => cases h

theorem putSigactions_fault (h : k.putSigactions = .error e) : e = .useAfterFree := by
  unfold putSigactions at h
  simp only at h
  split at h
  next =>
    cases h
    rfl
  next => cases h

theorem notifyParent_fault (h : k.notifyParent = .error e) :
    e = .useAfterFree ∨ e = .panic ∧ k.cur.ppid = 0 ∨
      e = .errorPointer ∧ k.getTaskFromPid k.cur.ppid = none := by
  have hsend : ∀ (k₀ : Kernel) (parent : TaskId),
      k₀.sendSigInfo parent k.exitSiginfo = .error e → e = .useAfterFree := by
    intro k₀ parent h₀
    rcases sendSigInfo_fault h₀ with h₁ | ⟨-, hge⟩
    · exact h₁
    · exact absurd hge (by simp [exitSiginfo, SIGCHLD, nsig])
  unfold notifyParent at h
  split at h
  next hzero =>
    cases h
    exact .inr (.inl ⟨rfl, hzero⟩)
  next =>
    split at h
    next hnone =>
      cases h
      exact .inr (.inr ⟨rfl, hnone⟩)
    next =>
      split at h
      next e' hact =>
        cases h
        rcases sigactionOf_fault hact with h | ⟨-, hge⟩
        · exact .inl h
        · exact absurd hge (by decide)
      next =>
        split at h
        next => cases h
        next =>
          split at h
          next => exact .inl (hsend _ _ h)
          next => exact .inl (hsend _ _ h)

theorem exitStage_fault {stage : ExitStage} (h : k.exitStage stage = .error e) :
    e = .useAfterFree ∨ stage = .notify ∧ k.notifyParent = .error e := by
  cases stage with
  | closing => cases h
  | putSigactions =>
      simp only [exitStage] at h
      split at h
      next e' hput =>
        cases h
        exact .inl (putSigactions_fault hput)
      next => cases h
  | putSiginfos =>
      simp only [exitStage] at h
      split at h
      next e' hput =>
        cases h
        unfold putSiginfos at hput
        split at hput
        next e' hdestroy =>
          cases hput
          unfold Structure.Array.destroy at hdestroy
          split at hdestroy
          next => cases hdestroy
          next => cases hdestroy
          next =>
            cases hdestroy
            exact .inl rfl
        next => cases hput
      next => cases h
  | notify =>
      simp only [exitStage] at h
      split at h
      next e' hnotify =>
        cases h
        exact .inr ⟨rfl, hnotify⟩
      next => cases h
  | reparent => cases h
  | sched => exact .inl (schedule_fault h)

theorem waitReturn_fault {oldaction : Sigaction} (h : k.waitReturn oldaction = .error e) :
    e = .useAfterFree := by
  unfold waitReturn at h
  split at h
  next e' hset =>
    cases h
    rcases setSigaction_fault hset with h | ⟨-, hge⟩
    · exact h
    · exact absurd hge (by decide)
  next => cases h

theorem waitSleep_fault {wait : Sigaction → Pc} (h : k.waitSleep wait = .error e) :
    e = .useAfterFree := by
  unfold waitSleep at h
  split at h
  next e' hact =>
    cases h
    rcases sigactionOf_fault hact with h | ⟨-, hge⟩
    · exact h
    · exact absurd hge (by decide)
  next =>
    split at h
    next e' hset =>
      cases h
      rcases setSigaction_fault hset with h | ⟨-, hge⟩
      · exact h
      · exact absurd hge (by decide)
    next => cases h

theorem doWait_fault (h : k.doWait t = .error e) : e = .useAfterFree := by
  unfold doWait at h
  split at h
  next =>
    cases h
    rfl
  next =>
    split at h
    next => cases h
    next =>
      split at h
      next => cases h
      next => exact waitSleep_fault h

theorem doWaitpg_fault {pgid : Nat} {wait : Bool} (h : k.doWaitpg pgid wait = .error e) :
    e = .useAfterFree := by
  unfold doWaitpg at h
  split at h
  next => cases h
  next =>
    split at h
    next => cases h
    next =>
      split at h
      next => cases h
      next => exact waitSleep_fault h

theorem doSysWaitpid_fault {pid : Int} {wnohang : Bool}
    (h : k.doSysWaitpid pid wnohang = .error e) : e = .useAfterFree := by
  unfold doSysWaitpid at h
  split at h
  next => exact doWaitpg_fault h
  next =>
    split at h
    next => cases h
    next =>
      split at h
      next => cases h
      next => exact doWait_fault h

theorem doWaitSignal_fault {oldaction : Sigaction} (h : k.doWaitSignal t oldaction = .error e) :
    e = .useAfterFree ∨ e = .nullPointer := by
  unfold doWaitSignal at h
  split at h
  next e' hpeek =>
    cases h
    exact kernelPeekPendingSig_fault hpeek
  next => exact .inl (waitReturn_fault h)
  next =>
    split at h
    next =>
      split at h
      next =>
        cases h
        exact .inl rfl
      next => split at h <;> exact .inl (waitReturn_fault h)
    next => exact .inl (waitReturn_fault h)

theorem doWaitpgSignal_fault {pgid : Nat} {oldaction : Sigaction}
    (h : k.doWaitpgSignal pgid oldaction = .error e) :
    e = .useAfterFree ∨ e = .nullPointer ∨ e = .errorPointer := by
  unfold doWaitpgSignal at h
  split at h
  next e' hpeek =>
    cases h
    rcases kernelPeekPendingSig_fault hpeek with h | h
    · exact .inl h
    · exact .inr (.inl h)
  next => exact .inl (waitReturn_fault h)
  next =>
    split at h
    next =>
      split at h
      next =>
        cases h
        exact .inr (.inr rfl)
      next => split at h <;> exact .inl (waitReturn_fault h)
    next => exact .inl (waitReturn_fault h)

theorem waitLoop_fault {wait : Phase → Pc} {found : Except Fault Kernel} {phase : Phase}
    (h : k.waitLoop wait found phase = .error e) :
    e = .useAfterFree ∨ phase = .check ∧ found = .error e := by
  cases phase with
  | sched => exact .inl (schedule_fault h)
  | woken => cases h
  | check =>
      simp only [waitLoop] at h
      split at h
      next => exact .inr ⟨rfl, h⟩
      next => cases h

/-! ### Calls -/

theorem doClone_fault {flags : BitVec 32} {user : Bool} (h : k.doClone flags user = .error e) :
    e = .useAfterFree := by
  unfold doClone at h
  split at h
  next => cases h
  next =>
    split at h
    next =>
      cases h
      rfl
    next => cases h

theorem finish_fault {r : Except Fault Kernel} (h : finish r = .error e) : r = .error e := by
  unfold finish at h
  split at h
  next =>
    cases h
    rfl
  next => cases h

/-- The faults of a call. -/
theorem runCall_fault {c : Call} (hown : c.namesOwn = true) (h : k.runCall c = .error e) :
    e = .useAfterFree ∨ e = .outOfBounds ∧ BeyondTable k (.call c) := by
  cases c with
  | clone flags => exact .inl (doClone_fault (finish_fault h))
  | kernelThread => exact .inl (doClone_fault (finish_fault h))
  | execute =>
      simp only [runCall] at h
      split at h
      next e' hclone =>
        cases h
        exact .inl (doClone_fault hclone)
      next =>
        split at h
        next => cases h
        next => exact .inl (doWait_fault h)
  | execve subsystem =>
      simp only [runCall, execPut] at h
      split at h
      next e' hput =>
        cases h
        exact .inl (putSigactions_fault hput)
      next => cases h
  | kill pid signum => exact kill_fault (finish_fault h)
  | tgkill tgid tid signum => exact tgkill_fault (finish_fault h)
  | waitpid pid wnohang => exact .inl (doSysWaitpid_fault h)
  | rtSigaction signum act =>
      simp only [runCall] at h
      split at h
      next hallowed =>
        rcases setSigaction_fault (finish_fault h) with h | ⟨-, hge⟩
        · exact .inl h
        · simp only [sigactionAllowed, decide_eq_true_eq] at hallowed
          omega
      next => cases h
  | exception signum =>
      refine .inl (sendSig_fault ?_ (finish_fault h))
      simp only [Call.namesOwn, decide_eq_true_eq, List.mem_cons, List.not_mem_nil,
        or_false] at hown
      rcases hown with rfl | rfl | rfl | rfl <;> decide
  | forceSegv => exact .inl (forceSig_fault (by decide) (finish_fault h))
  | kernelMaskSignal signum =>
      simp only [Call.namesOwn, decide_eq_true_eq] at hown
      rcases setSigaction_fault h with h | ⟨-, hge⟩
      · exact .inl h
      · omega
  | kernelUnmaskSignal signum =>
      simp only [Call.namesOwn, decide_eq_true_eq] at hown
      rcases setSigaction_fault h with h | ⟨-, hge⟩
      · exact .inl h
      · omega
  | _ => cases h

/-- The faults of going on from a control point. -/
theorem goOn_fault {choice : Bool} (h : k.goOn choice = .error e) : Blame k (.go choice) e := by
  have hgo : Label.IsGo (.go choice) := ⟨choice, rfl⟩
  have hfree : e = .useAfterFree → Blame k (.go choice) e := fun he => he ▸ .useAfterFree
  unfold goOn at h
  split at h
  next => cases h
  next =>
    split at h
    next => cases h
    next => exact hfree (schedule_fault h)
  next => cases h
  next hpc =>
    rcases deliverSignal_fault h with h | ⟨rfl, hcont⟩
    · exact hfree h
    · exact .contDelivered hgo hpc hcont
  next =>
    split at h
    next => cases h
    next => exact hfree (schedule_fault h)
  next hpc =>
    split at h
    next => cases h
    next hst =>
      cases h
      exact .continued ⟨hgo, hpc, by simpa using hst⟩
  next => exact hfree (schedule_fault h)
  next d phase _ =>
    refine hfree ?_
    cases phase with
    | sched => exact schedule_fault h
    | check =>
        simp only [readLoop] at h
        split at h <;> cases h
  next spec phase _ =>
    refine hfree ?_
    cases phase with
    | sched => exact schedule_fault h
    | woken => cases h
    | check =>
        simp only [nanosleepLoop] at h
        split at h <;> cases h
  next call phase _ =>
    refine hfree ?_
    cases phase with
    | sched => exact schedule_fault h
    | woken => cases h
    | check =>
        simp only [pollLoop] at h
        split at h
        · cases h
        · split at h <;> cases h
  next t oldaction phase _ =>
    rcases waitLoop_fault h with h | ⟨-, h⟩
    · exact hfree h
    · rcases doWaitSignal_fault h with h | rfl
      · exact hfree h
      · exact .nullPointer
  next pgid oldaction phase hpc =>
    rcases waitLoop_fault h with he | ⟨rfl, hfound⟩
    · exact hfree he
    · rcases doWaitpgSignal_fault hfound with he | rfl | rfl
      · exact hfree he
      · exact .nullPointer
      · exact .noChild hgo hpc
  next => cases h
  next stage hpc =>
    rcases exitStage_fault h with he | ⟨rfl, hnotify⟩
    · exact hfree he
    · rcases notifyParent_fault hnotify with he | ⟨rfl, hzero⟩ | ⟨rfl, hnone⟩
      · exact hfree he
      · exact .panic hgo hpc hzero
      · exact .noParent hgo hpc hnone
  next hpc =>
    cases h
    exact .exited hgo hpc

end Functions

/-- The inversion lemma for the faults of the machine. -/
theorem faults_blame {k : Kernel} {l : Label} {e : Fault} (h : machine.Faults k l e) :
    Blame k l e := by
  obtain ⟨hen, hs⟩ := h
  change k.enabledLabel l = true at hen
  change k.execLabel l = .error e at hs
  unfold execLabel at hs
  split at hs
  next =>
    cases hs
    exact .useAfterFree
  next =>
    cases l with
    | call c =>
        simp only [enabledLabel, decide_eq_true_eq] at hen
        rcases runCall_fault hen.2.2.2 hs with rfl | ⟨rfl, hbeyond⟩
        · exact .useAfterFree
        · exact .outOfBounds hbeyond
    | go choice => exact goOn_fault hs
    | irqDevice d => cases hs
    | irqSleep ticks => cases hs
    | irqPit => cases hs
    | irqTty pgid =>
        simp only at hs
        split at hs
        next e' hsend =>
          cases hs
          rcases sendSigInfoPg_fault hsend with rfl | ⟨-, hge⟩
          · exact .useAfterFree
          · exact absurd hge (by decide)
        next => cases hs

end Task
end JkxyKernel
