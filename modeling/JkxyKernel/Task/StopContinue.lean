import JkxyKernel.Task.Scheduling
import JkxyKernel.Task.SignalNumbers

/-!
# Stop and continue

`deliver_signal` serves a stop signal in a loop around `schedule()`.  The loop ends when
`SIGCONT` has cleared the mark, and the code then runs on into the next case of the
switch, which is `BUG()`.  So a stopped task can only stay in the loop or end there: it
never gets back to user mode.  Apart from this, `deliver_signal` reaches no `BUG()`,
because `SIGCONT` itself is never pending.
-/

namespace JkxyKernel
namespace Task

open Kernel

section Delivery

variable {k k' : Kernel}

/-- `SIGCONT` has no other default action to stand in for it. -/
theorem eq_sigcont {signum : Nat} (h : defaultSigAction signum = .cont) : signum = SIGCONT := by
  unfold defaultSigAction at h
  split at h
  · cases h
  · split at h
    · cases h
    · split at h
      · assumption
      · cases h

/-- `deliver_signal` never meets the default action of `SIGCONT`. -/
theorem MaskInv.not_cont (h : MaskInv k) (t : TaskId) :
    defaultSigAction (signalPendingOne (k.task t)) ≠ .cont := by
  intro hcont
  have hone := eq_sigcont hcont
  have hsig : signalPending (k.task t) ≠ 0 := by
    rw [signalPending_iff (h t), hone]
    decide
  have hbit := signalPendingOne_bit hsig
  rw [hone, (h t).cont] at hbit
  cases hbit

/-- Where `BUG()` can be reached. -/
theorem bug_cases {l : Label} (h : MaskInv k) (hf : machine.Faults k l .bug) :
    Continued k l ∨ l.IsGo ∧ k.pc k.current = .exited := by
  cases faults_blame hf with
  | contDelivered _ _ hcont => exact absurd hcont (h.not_cont _)
  | continued hc => exact .inl hc
  | exited hgo hpc => exact .inr ⟨hgo, hpc⟩

end Delivery

section StopLoop

variable {k k' : Kernel} {l : Label}

theorem wakeSleepers_pc (k : Kernel) (specs : List SleepSpec) :
    (k.wakeSleepers specs).pc = k.pc ∧ (k.wakeSleepers specs).current = k.current := by
  induction specs generalizing k with
  | nil => exact ⟨rfl, rfl⟩
  | cons spec specs ih =>
      have hpc : (k.wakeUpProcess spec.task).pc = k.pc := by rw [wakeUpProcess_eq]
      have hcur : (k.wakeUpProcess spec.task).current = k.current := by rw [wakeUpProcess_eq]
      obtain ⟨h₁, h₂⟩ := ih (k.wakeUpProcess spec.task)
      exact ⟨h₁.trans hpc, h₂.trans hcur⟩

theorem deviceHandler_pc (k : Kernel) (d : Device) :
    (k.deviceHandler d).pc = k.pc ∧ (k.deviceHandler d).current = k.current := by
  unfold Kernel.deviceHandler
  simp only
  split
  · exact ⟨rfl, rfl⟩
  · rw [wakeUpProcess_eq]
    exact ⟨rfl, rfl⟩

theorem irqReturn_pc {phase : SpinPhase} (hpc : k.pc k.current = .stopLoop phase) :
    k.irqReturn.pc k.current = .stopLoop phase := by
  have hne : ¬ (k.pc k.current = .body ∧ k.cur.user = true) := by
    rintro ⟨hbody, -⟩
    rw [hpc] at hbody
    cases hbody
  rw [Kernel.irqReturn, if_neg hne]
  exact hpc

/-- An interrupt leaves a task in the stop loop where it is. -/
theorem irqReturn_stopLoop {k₁ : Kernel} {phase : SpinPhase}
    (h : k₁.pc = k.pc ∧ k₁.current = k.current) (hpc : k.pc k.current = .stopLoop phase) :
    k₁.irqReturn.pc k.current = .stopLoop phase := by
  have h₁ : k₁.pc k₁.current = .stopLoop phase := by rw [h.1, h.2, hpc]
  rw [← h.2]
  exact irqReturn_pc h₁

/-- The running task stays in the stop loop, whatever happens. -/
theorem stopLoop_stays {phase : SpinPhase}
    (hpc : k.pc k.current = .stopLoop phase) (hstep : machine.Step k l k') :
    ∃ phase', k'.pc k.current = .stopLoop phase' := by
  cases step_cases hstep with
  | call hbody _ hs =>
      rw [hpc] at hbody
      cases hbody
  | go hs =>
      cases phase with
      | check =>
          simp only [Kernel.goOn, hpc] at hs
          split at hs
          next =>
            cases hs
            exact ⟨.sched, by simp [Kernel.setPc]⟩
          next => cases hs
      | sched =>
          simp only [Kernel.goOn, hpc] at hs
          refine ⟨.check, ?_⟩
          rw [(schedule_spec hs).frame]
          simp
  | irqDevice d => exact ⟨phase, irqReturn_stopLoop (deviceHandler_pc k d) hpc⟩
  | irqSleep ticks => exact ⟨phase, irqReturn_stopLoop (wakeSleepers_pc _ _) hpc⟩
  | irqPit => exact ⟨phase, irqReturn_stopLoop ⟨rfl, rfl⟩ hpc⟩
  | @irqTty pgid k₁ hsend =>
      have hframe : k₁.pc = k.pc ∧ k₁.current = k.current := by
        refine sendSigInfoPg_rule (P := fun k₁ => k₁.pc = k.pc ∧ k₁.current = k.current)
          (fun k₁ k₂ t h₁ _ h₂ => ?_) ⟨rfl, rfl⟩ hsend
        rw [sendSigInfo_frame h₂]
        exact h₁
      exact ⟨phase, irqReturn_stopLoop hframe hpc⟩

/-- A continued task gets no further. -/
theorem continued_stuck (h : Continued k l) :
    (¬ ∃ k', machine.Step k l k') ∧
      (k.freed k.current = false → machine.Faults k l .bug) := by
  obtain ⟨⟨choice, rfl⟩, hpc, hst⟩ := h
  have hexec : k.goOn choice = .error .bug := by
    simp [Kernel.goOn, hpc, hst]
  have hen : machine.enabled (.go choice) k = true := by
    change k.enabledLabel (.go choice) = true
    simp [Kernel.enabledLabel, hpc]
  refine ⟨?_, fun hlive => ⟨hen, ?_⟩⟩
  · rintro ⟨k', hstep⟩
    have hs := step_go hstep
    rw [hexec] at hs
    cases hs
  · change k.execLabel (.go choice) = .error .bug
    unfold Kernel.execLabel
    rw [hlive]
    exact hexec

end StopLoop

/-- **Stop and continue.**  While no stopped task runs on after a `SIGCONT`, every stopped
task stands in the stop loop and no step reaches the `BUG()` of `deliver_signal`; the one
behind `do_exit` stays out of reach too while exiting tasks find their flag clear.  From
the stop loop no step of any run leads back to user mode, and a task that runs on after a
`SIGCONT` ends in `BUG()`. -/
theorem stoppedTasks_stay (k : Kernel) :
    (machine.Reach Init (fun k l => ¬ Continued k l) k →
      (∀ t, (k.task t).stopped = true → ∃ phase, k.pc t = .stopLoop phase) ∧
      ∀ l, ¬ Continued k l → machine.Faults k l .bug → k.pc k.current = .exited) ∧
    (machine.Reach Init (fun k l => ¬ Continued k l ∧ FlagClear k l) k →
      ∀ l, ¬ Continued k l → ¬ machine.Faults k l .bug) ∧
    (∀ l k' phase, machine.Reach Init (fun _ _ => True) k →
      k.pc k.current = .stopLoop phase → machine.Step k l k' →
        ∃ phase', k'.pc k.current = .stopLoop phase') ∧
    ∀ l, machine.Reach Init (fun _ _ => True) k → Continued k l →
      (¬ ∃ k', machine.Step k l k') ∧
        (k.freed k.current = false → machine.Faults k l .bug) := by
  refine ⟨fun h => ⟨fun t ht => ?_, fun l hl hf => ?_⟩, fun h l hl hf => ?_,
    fun l k' phase _ hpc hstep => stopLoop_stays hpc hstep,
    fun l _ hc => continued_stuck hc⟩
  · have hinv : SchedInv False k := .reach (fun _ _ _ hfalse => hfalse.elim) h
    exact (hinv.fits t).stopped ht
  · rcases bug_cases (.reach h) hf with hc | ⟨-, hpc⟩
    · exact absurd hc hl
    · exact hpc
  · have hinv : SchedInv True k := .reach (fun _ _ hok _ => hok.2) h
    rcases bug_cases (.reach h) hf with hc | ⟨-, hpc⟩
    · exact hl hc
    · exact hinv.currentLive trivial hpc

/-- A process stops its child and continues it. -/
def stopRun : List Label :=
  [.go false, .go false, .call (.execve .linux), .go false, .go false, .go false,
    .call (.clone 0), .go false, .go false, .call (.kill 2 SIGSTOP), .go false, .go false,
    .irqPit, .go false, .go false,
    -- the child
    .go false, .go false, .go false, .go false,
    -- the parent
    .call (.kill 2 SIGCONT), .go false, .go false, .irqPit, .go false, .go false]

/-- The child runs into `BUG()` when it is continued. -/
theorem continuedTask_bug :
    ∃ k, machine.Reach Init (fun _ _ => True) k ∧ k.current = 2 ∧
      k.pc 2 = .stopLoop .check ∧ (k.task 2).stopped = false ∧
      machine.Faults k (.go false) .bug := by
  have hrun : (machine.runLabels stopRun boot).any (fun k =>
      k.current = 2 ∧ k.pc 2 = .stopLoop .check ∧ (k.task 2).stopped = false ∧
        machine.faultsWith (.go false) .bug k = true) = true := by
    decide +kernel
  obtain ⟨k, hreach, hk⟩ := Machine.exists_reach_of_run (show Init boot from rfl) hrun
  simp only [decide_eq_true_eq] at hk
  exact ⟨k, hreach, hk.1, hk.2.1, hk.2.2.1, Machine.faults_of_faultsWith hk.2.2.2⟩

end Task
end JkxyKernel
