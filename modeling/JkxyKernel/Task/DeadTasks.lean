import JkxyKernel.Task.Scheduling

/-!
# Freed stacks

`do_free_tasks` gives back the stacks of the tasks that were reaped.  They belong to
tasks that have called `schedule()` from `do_exit`, provided a wait that wakes up on
the record of an exit finds a zombie behind it.  Together with the invariant of the
scheduler no freed stack is ever run on again.

Without the condition on the flag the scheduler does run a dead task: `deadRun` is
such a run.
-/

namespace JkxyKernel
namespace Task

open Kernel

/-- Inside `do_exit`, or behind its `schedule()`. -/
def Life.Leaving : Life → Prop
  | .dying _ => True
  | .gone => True
  | _ => False

/-- Whose stacks are freed, or about to be. -/
structure StackInv (k : Kernel) : Prop where
  freedGone : ∀ t, k.freed t = true → (k.pc t).life = .gone
  pendingLeaving : ∀ t ∈ k.freeTasks, (k.pc t).life.Leaving
  zombieLeaving : ∀ t, (k.task t).state = .zombie → (k.pc t).life.Leaving
  dyingCurrent : ∀ t stage, (k.pc t).life = .dying stage → t = k.current

/-- A wait that finds the record of an exit finds a zombie. -/
def FindsZombie (k : Kernel) (l : Label) : Prop :=
  l.IsGo → signalPending k.cur ≠ 0 →
    (∀ t oldaction info, k.pc k.current = .doWait t oldaction .check →
      k.cur.chldRecord = some info → info.pid = (k.task t).pid →
        (k.task t).state = .zombie) ∧
    ∀ t pgid oldaction info, k.pc k.current = .doWaitpg pgid oldaction .check →
      k.cur.chldRecord = some info → k.getTaskFromPid info.pid = some t →
        (pgid = 0 ∨ (k.task t).pgid = pgid) → (k.task t).state = .zombie

theorem freeStacks_spec {ts : List TaskId} {freed freed' : TaskId → Bool}
    (h : freeStacks ts freed = .ok freed') (t : TaskId) :
    freed' t = true ↔ freed t = true ∨ t ∈ ts := by
  induction ts generalizing freed with
  | nil =>
      simp only [freeStacks, Except.ok.injEq] at h
      simp [h]
  | cons a ts ih =>
      simp only [freeStacks] at h
      split at h
      next => cases h
      next =>
        rw [ih h]
        by_cases ha : t = a
        · simp [ha]
        · simp [ha]

theorem Life.Leaving.cases {l : Life} (h : l.Leaving) : (∃ stage, l = .dying stage) ∨ l = .gone := by
  cases l with
  | dying stage => exact .inl ⟨stage, rfl⟩
  | gone => exact .inr rfl
  | normal => exact h.elim
  | swapping => exact h.elim

section Preservation

variable {k k' : Kernel}

/-- The running task advances; tasks that leave may be added to those to be freed. -/
theorem StackInv.advance
    (h : StackInv k) (hfreed : k'.freed = k.freed) (hcur : k'.current = k.current)
    (hlife : ∀ t, t ≠ k.current → (k'.pc t).life = (k.pc t).life)
    (hself : (k.pc k.current).life.Leaving → (k'.pc k.current).life.Leaving)
    (hgone : (k.pc k.current).life = .gone → (k'.pc k.current).life = .gone)
    (hfree : ∀ t ∈ k'.freeTasks, t ∈ k.freeTasks ∨ (k'.pc t).life.Leaving)
    (hzombie : ∀ t, (k'.task t).state = .zombie →
      (k.task t).state = .zombie ∨ (k'.pc t).life.Leaving) :
    StackInv k' := by
  have hleave : ∀ t, (k.pc t).life.Leaving → (k'.pc t).life.Leaving := by
    intro t ht
    by_cases hc : t = k.current
    · subst hc
      exact hself ht
    · rw [hlife t hc]
      exact ht
  refine ⟨fun t ht => ?_, fun t ht => ?_, fun t ht => ?_, fun t stage ht => ?_⟩
  · rw [hfreed] at ht
    have hg := h.freedGone t ht
    by_cases hc : t = k.current
    · subst hc
      exact hgone hg
    · rw [hlife t hc]
      exact hg
  · rcases hfree t ht with hold | hl
    · exact hleave t (h.pendingLeaving t hold)
    · exact hl
  · rcases hzombie t ht with hold | hl
    · exact hleave t (h.zombieLeaving t hold)
    · exact hl
  · rw [hcur]
    by_contra hc
    rw [hlife t hc] at ht
    exact hc (h.dyingCurrent t stage ht)

theorem StackInv.quiet (h : StackInv k) (hq : Quiet k k') : StackInv k' := by
  have hfreed : ∀ t, k'.freed t = true → k.freed t = true ∨ t ∈ k.freeTasks ∧
      (k.pc k.current).life = .normal := by
    intro t ht
    rcases hq.freedStacks with ⟨hf, -, -⟩ | ⟨hn, ⟨hf, -⟩ | ⟨hf, -⟩⟩
    · rw [hf] at ht
      exact .inl ht
    · rw [hf] at ht
      exact .inl ht
    · exact ((freeStacks_spec hf t).mp ht).imp id fun hm => ⟨hm, hn⟩
  refine ⟨fun t ht => ?_, fun t ht => ?_, fun t ht => ?_, fun t stage ht => ?_⟩
  · rw [hq.life]
    rcases hfreed t ht with hold | ⟨hm, hn⟩
    · exact h.freedGone t hold
    · rcases (h.pendingLeaving t hm).cases with ⟨stage, hd⟩ | hg
      · rw [h.dyingCurrent t stage hd, hn] at hd
        cases hd
      · exact hg
  · rw [hq.life]
    rcases hq.freedStacks with ⟨-, hl, -⟩ | ⟨-, ⟨-, hl⟩ | ⟨-, hl⟩⟩
    · exact h.pendingLeaving t (hl ▸ ht)
    · exact h.pendingLeaving t (hl ▸ ht)
    · rw [hl] at ht
      cases ht
  · rw [hq.life]
    exact h.zombieLeaving t ((hq.record t).zombie ht)
  · rw [hq.life] at ht
    have hc := h.dyingCurrent t stage ht
    rcases hq.freedStacks with ⟨-, -, hcur⟩ | ⟨hn, -⟩
    · rw [hcur]
      exact hc
    · rw [hc, hn] at ht
      cases ht

/-- `_do_wait` on a task that is leaving. -/
theorem StackInv.doWaitTask {t : TaskId} {pid : Nat}
    (h : StackInv k) (ht : (k.pc t).life.Leaving) : StackInv (k.doWaitTask t pid) := by
  refine h.advance rfl rfl (fun _ _ => rfl) id id (fun t' ht' => ?_) (fun t' ht' => .inl ?_)
  · rcases List.mem_append.mp ht' with hold | hnew
    · exact .inl hold
    · rw [List.mem_singleton.mp hnew]
      exact .inr ht
  · by_cases hc : t' = t
    · subst hc
      simp [Kernel.doWaitTask, Kernel.modTask] at ht'
    · simpa [Kernel.doWaitTask, Kernel.modTask, hc] using ht'

theorem notifyParent_stacks (h : StackInv k) (hpc : k.pc k.current = .exit .notify)
    (hs : k.notifyParent = .ok k') : StackInv k' := by
  rcases notifyParent_cases hs with rfl | ⟨parent, k₁, hk₁, hsend⟩
  · exact h.doWaitTask (by rw [hpc]; trivial)
  · have h₁ : StackInv k₁ := by
      rcases hk₁ with rfl | rfl
      · exact h
      · exact h.advance rfl rfl (fun _ _ => rfl) id id (fun _ => .inl) (fun _ => .inl)
    have hstate := sendSigInfo_state hsend
    have heq := sendSigInfo_frame hsend
    exact h₁.advance (by rw [heq]) (by rw [heq]) (fun t _ => by rw [heq])
      (by rw [heq]; exact id) (by rw [heq]; exact id)
      (fun t ht => .inl (by rw [heq] at ht; exact ht))
      (fun t ht => .inl (by rw [← hstate t]; exact ht))

/-- What the stage of `do_exit` leaves behind, seen by `StackInv`. -/
theorem StackInv.stage {k₀ : Kernel} {stage stage' : ExitStage}
    (hpc : k.pc k.current = .exit stage)
    (h₀ : StackInv k₀) (hpc₀ : k₀.pc = k.pc) (hcur : k₀.current = k.current) :
    StackInv (k₀.setPc k.current (.exit stage')) := by
  rw [← hcur]
  have hdying : (k₀.pc k₀.current).life = .dying stage := by
    rw [hpc₀, hcur, hpc]
    rfl
  refine h₀.advance rfl rfl (fun t ht => by simp [Kernel.setPc, ht]) (fun _ => ?_)
    (fun hg => ?_) (fun _ => .inl) (fun _ => .inl)
  · simp [Kernel.setPc, Pc.life, Life.Leaving]
  · rw [hdying] at hg
    cases hg

/-- A task that is not leaving moves on, with the lists as they are. -/
theorem StackInv.advance_normal
    (h : StackInv k) (hnormal : ¬ (k.pc k.current).life.Leaving)
    (hfreed : k'.freed = k.freed) (hfree : k'.freeTasks = k.freeTasks)
    (hcur : k'.current = k.current)
    (hlife : ∀ t, t ≠ k.current → (k'.pc t).life = (k.pc t).life)
    (hzombie : ∀ t, (k'.task t).state = .zombie →
      (k.task t).state = .zombie ∨ (k'.pc t).life.Leaving) :
    StackInv k' :=
  h.advance hfreed hcur hlife (fun hl => absurd hl hnormal)
    (fun hg => absurd (by rw [hg]; trivial) hnormal)
    (fun t ht => .inl (hfree ▸ ht)) hzombie

theorem StackInv.clone {flags : BitVec 32} {user : Bool} {pid next : Nat}
    (h : StackInv k) (hinv : SchedInv False k) :
    StackInv ({ (k.cloneSigactions flags).1 with nextPid := next }.addTask
      (k.cloneTask flags user pid (k.cloneSigactions flags).2)) := by
  rw [cloneSigactions_frame]
  refine ⟨fun t ht => ?_, fun t ht => ?_, fun t ht => ?_, fun t stage ht => ?_⟩
  all_goals simp only [Kernel.addTask, hinv.update_pc] at *
  · exact h.freedGone t ht
  · exact h.pendingLeaving t ht
  · by_cases hc : t = k.numTasks
    · subst hc
      simp [Kernel.cloneTask] at ht
    · rw [Function.update_of_ne hc] at ht
      exact h.zombieLeaving t ht
  · exact h.dyingCurrent t stage ht

theorem StackInv.move {l : Label}
    (h : StackInv k) (hinv : SchedInv False k) (hok : FindsZombie k l) (hm : Move k l k') :
    StackInv k' := by
  have hnormal : (k.pc k.current).life = .normal → ¬ (k.pc k.current).life.Leaving := by
    intro hn
    rw [hn]
    exact id
  cases hm with
  | none => exact h
  | clone _ _ hlife hnext hlive => exact h.clone hinv
  | execPut _ hlife hput =>
      rw [putSigactions_frame hput]
      exact h.advance_normal (hnormal hlife) rfl rfl rfl
        (fun t ht => by simp [Kernel.setPc, ht]) fun _ => .inl
  | execInstall _ hpc =>
      refine h.advance_normal ?_ rfl rfl rfl (fun t ht => ?_) fun t ht => .inl ?_
      · rw [hpc]
        exact id
      · simp [Kernel.execInstall, Kernel.leave, Kernel.setPc, Kernel.modTask, ht]
      · by_cases hc : t = k.current
        · subst hc
          simpa [Kernel.execInstall, Kernel.leave, Kernel.setPc, Kernel.modTask] using ht
        · simpa [Kernel.execInstall, Kernel.leave, Kernel.setPc, Kernel.modTask, hc] using ht
  | @doExit k₀ exitcode hlife _ hk₀ =>
      have hq : StackInv k₀ ∧ k₀.pc = k.pc ∧ k₀.current = k.current := by
        rcases hk₀ with rfl | ⟨signum, rfl⟩
        · exact ⟨h, rfl, rfl⟩
        · exact ⟨h.quiet .kernelGetPendingSig, rfl, rfl⟩
      obtain ⟨h₀, hpc, hcur⟩ := hq
      refine h₀.advance_normal ?_ rfl rfl rfl (fun t ht => ?_) fun t ht => ?_
      · rw [hpc, hcur]
        exact hnormal hlife
      · simp [Kernel.doExit, Kernel.setPc, Kernel.modTask, ht]
      · by_cases hc : t = k₀.current
        · subst hc
          exact .inr (by simp [Kernel.doExit, Kernel.setPc, Pc.life, Life.Leaving])
        · exact .inl (by simpa [Kernel.doExit, Kernel.setPc, Kernel.modTask, hc] using ht)
  | closing _ hpc =>
      have h₀ : StackInv k.putSession := by
        unfold Kernel.putSession
        split
        · exact h.quiet (.modTask ⟨rfl, rfl, rfl, rfl, id, Iff.rfl, .inr rfl⟩ fun _ => rfl)
        · exact h
      exact .stage hpc h₀ (putSession_frame k).1 (putSession_frame k).2
  | putSigactions _ hpc hput =>
      have heq := putSigactions_frame hput
      refine .stage hpc ?_ (by rw [heq]) (by rw [heq])
      rw [heq]
      exact h.advance rfl rfl (fun _ _ => rfl) id id (fun _ => .inl) fun _ => .inl
  | putSiginfos _ hpc hput =>
      obtain ⟨siginfos, -, rfl⟩ := putSiginfos_eq hput
      refine .stage hpc ?_ rfl rfl
      refine h.advance rfl rfl (fun _ _ => rfl) id id (fun _ => .inl) fun t ht => .inl ?_
      by_cases hc : t = k.current
      · subst hc
        simpa [Kernel.modTask] using ht
      · simpa [Kernel.modTask, hc] using ht
  | notify _ hpc hnotify =>
      obtain ⟨hpc₀, hcur⟩ := notifyParent_frame hnotify
      exact .stage hpc (notifyParent_stacks h hpc hnotify) hpc₀ hcur
  | reparent _ hpc =>
      refine .stage hpc ?_ rfl rfl
      refine h.advance rfl rfl (fun _ _ => rfl) id id (fun _ => .inl) fun t ht => .inl ?_
      simp only [Kernel.reparentChildren] at ht
      split at ht <;> exact ht
  | sched _ hpc hs =>
      have heq := hs.frame
      have hpc' : k'.pc = Function.update k.pc k.current .exited := by rw [heq]
      have hlife : ∀ t, (k.pc t).life.Leaving → (k'.pc t).life = .gone := by
        intro t ht
        by_cases hc : t = k.current
        · rw [hpc', hc, Function.update_self]
          rfl
        · rw [hpc', Function.update_of_ne hc]
          rcases ht.cases with ⟨stage, hd⟩ | hg
          · exact absurd (h.dyingCurrent t stage hd) hc
          · exact hg
      have hleaving : ∀ t, (k.pc t).life.Leaving → (k'.pc t).life.Leaving := by
        intro t ht
        rw [hlife t ht]
        trivial
      refine ⟨fun t ht => ?_, fun t ht => ?_, fun t ht => ?_, fun t stage ht => ?_⟩
      · rcases hs.freeTasks with ⟨hf, -⟩ | ⟨hf, -⟩
        · rw [hf] at ht
          exact hlife t (by rw [h.freedGone t ht]; trivial)
        · rcases (freeStacks_spec hf t).mp ht with hold | hm
          · exact hlife t (by rw [h.freedGone t hold]; trivial)
          · exact hlife t (h.pendingLeaving t hm)
      · rcases hs.freeTasks with ⟨-, hl⟩ | ⟨-, hl⟩
        · exact hleaving t (h.pendingLeaving t (hl ▸ ht))
        · rw [hl] at ht
          cases ht
      · refine hleaving t (h.zombieLeaving t ?_)
        rcases hs.task t with h' | ⟨-, h'⟩ <;> rw [h'] at ht <;> exact ht
      · have hc : t ≠ k.current := by
          rintro rfl
          rw [hpc', Function.update_self] at ht
          cases ht
        rw [hpc', Function.update_of_ne hc] at ht
        exact absurd (h.dyingCurrent t stage ht) hc
  | reapZombie hlife hmem hppid hz => exact h.doWaitTask (h.zombieLeaving _ hz)
  | reapAwaited hl hpc hsig hrec hfreed hpid =>
      have hz := (hok hl hsig).1 _ _ _ hpc hrec hpid
      exact (h.quiet .kernelGetPendingSig).doWaitTask (h.zombieLeaving _ hz)
  | reapFound hl hpc hsig hrec hget hpgid =>
      have hz := (hok hl hsig).2 _ _ _ _ hpc hrec hget hpgid
      exact (h.quiet .kernelGetPendingSig).doWaitTask (h.zombieLeaving _ hz)

theorem StackInv.tail (h : StackInv k) (ht : Tail k k') : StackInv k' := by
  cases ht with
  | quiet hq => exact h.quiet hq
  | @startsWait k₀ t oldaction hq hcur hpc hlife _ _ =>
      have h₀ := h.quiet hq
      refine h₀.advance_normal ?_ rfl rfl rfl (fun t ht => by simp [Kernel.setPc, ht])
        fun _ => .inl
      rw [hpc, hcur, hlife]
      exact id

theorem StackInv.step {l : Label}
    (h : StackInv k) (hinv : SchedInv False k) (hok : FindsZombie k l)
    (hstep : machine.Step k l k') : StackInv k' := by
  obtain ⟨k₁, hm, ht⟩ := step_effect hstep
  exact (h.move hinv hok hm).tail ht

theorem StackInv.boot : StackInv boot := by
  have hlife : ∀ t, (Task.boot.pc t).life = .normal := by
    intro t
    by_cases ht : t = swapperTask <;> simp [Task.boot, ht, Pc.life]
  refine ⟨fun t ht => (by cases ht), fun t ht => (by cases ht), fun t ht => ?_, fun t stage ht => ?_⟩
  · by_cases hs : t = swapperTask <;> simp [Task.boot, bootTask, hs] at ht
  · rw [hlife] at ht
    cases ht

/-- Along a run whose waits find zombies, freed stacks belong to finished tasks. -/
theorem StackInv.reach {ok : Kernel → Label → Prop} (hfind : ∀ k l, ok k l → FindsZombie k l)
    (h : machine.Reach Init ok k) : StackInv k := by
  have hboth : SchedInv False k ∧ StackInv k := by
    refine Machine.Reach.invariant (P := fun k => SchedInv False k ∧ StackInv k) ?_ ?_ h
    · rintro _ rfl
      exact ⟨SchedInv.boot, StackInv.boot⟩
    · intro k₁ l k₂ h₁ hok hs
      exact ⟨h₁.1.step (fun hf => hf.elim) hs, h₁.2.step h₁.1 (hfind _ _ hok) hs⟩
  exact hboth.2

end Preservation

/-! ### The theorem -/

end Task
end JkxyKernel
