import JkxyKernel.Task.Effects

/-!
# Dead tasks never run

A task that has called `schedule()` from `do_exit` stays off `schedule_queue` and is
never switched to, as long as `schedule()` finds its `wakeup_current` flag clear
there.  The flag is set by an interrupt that wakes the running task, and only the
next `schedule()` clears it, so a sleeping call that finds its data without
scheduling leaves it behind.

`SchedInv` is the invariant: a control point answers for every wait registration of
its task (`Fits`), so an exiting task has none, and the queue holds each live task
at most once.
-/

namespace JkxyKernel
namespace Task

open Kernel

/-- The `task` pointers of devices that a control point answers for. -/
def Pc.HoldsWaiter : Pc → Device → Prop
  | .read d _, d' => d = d'
  | .poll call _, d => d ∈ call.devices
  | _, _ => False

/-- The entries of the sleep queue that a control point answers for. -/
def Pc.HoldsSpec : Pc → SleepSpec → Prop
  | .nanosleep spec _, s => s = spec
  | .poll call _, s => call.spec = some s
  | _, _ => False

/-- Control points inside `do_exit`. -/
def Pc.Exiting : Pc → Prop
  | .exit _ => True
  | .exited => True
  | _ => False

/-- Task `t` may stand at `p`: the control point accounts for what is registered. -/
structure Fits (k : Kernel) (t : TaskId) (p : Pc) : Prop where
  waiter : ∀ d, k.waiter d = some t → p.HoldsWaiter d
  spec : ∀ s ∈ k.sleepQueue, s.task = t → p.HoldsSpec s
  stopped : (k.task t).stopped = true → ∃ phase, p = .stopLoop phase
  ended : p.Exiting → (k.task t).state = .zombie ∨ (k.task t).state = .dead
  swapper : t = swapperTask → p = .idle

/-- The invariant of the scheduler.  The part about dead tasks is subject to `strict`;
everything else holds in every run. -/
structure SchedInv (strict : Prop) (k : Kernel) : Prop where
  fits : ∀ t, Fits k t (k.pc t)
  nodup : k.scheduleQueue.Nodup
  current_notMem : k.current ∉ k.scheduleQueue
  queueLive : strict → ∀ t ∈ k.scheduleQueue, k.pc t ≠ .exited
  currentLive : strict → k.pc k.current ≠ .exited
  exitCurrent : ∀ t stage, k.pc t = .exit stage → t = k.current
  unborn : ∀ t, k.numTasks ≤ t → k.pc t = .entry
  currentBorn : k.current < k.numTasks
  queueBorn : ∀ t ∈ k.scheduleQueue, t < k.numTasks
  listedBorn : ∀ t ∈ k.tasks, t < k.numTasks
  swapperBorn : swapperTask < k.numTasks

section Rules

variable {strict : Prop} {k k' : Kernel} {t : TaskId} {p : Pc}

/-- A registration keeps its control point when nobody else registers the task. -/
theorem Fits.mono
    (h : Fits k t p)
    (hw : ∀ d, k'.waiter d = some t → k.waiter d = some t)
    (hs : ∀ s ∈ k'.sleepQueue, s.task = t → s ∈ k.sleepQueue)
    (hstop : (k'.task t).stopped = true → (k.task t).stopped = true)
    (hstate : (k'.task t).state = (k.task t).state ∨ (k'.task t).state = .dead) :
    Fits k' t p where
  waiter d hd := h.waiter d (hw d hd)
  spec s hmem ht := h.spec s (hs s hmem ht) ht
  stopped hst := h.stopped (hstop hst)
  ended hex := by
    rcases hstate with heq | hdead
    · rw [heq]
      exact h.ended hex
    · exact .inr hdead
  swapper := h.swapper

/-- `k'` differs from `k` only in what concerns the running task, and in records whose
state and stop mark say no more than before. -/
structure Local (k k' : Kernel) : Prop where
  current : k'.current = k.current
  queue : k'.scheduleQueue = k.scheduleQueue
  numTasks : k'.numTasks = k.numTasks
  tasks : ∀ t ∈ k'.tasks, t ∈ k.tasks
  pc : ∀ t, t ≠ k.current → k'.pc t = k.pc t
  waiter : ∀ d t, t ≠ k.current → k'.waiter d = some t → k.waiter d = some t
  sleep : ∀ s ∈ k'.sleepQueue, s.task ≠ k.current → s ∈ k.sleepQueue
  stopped : ∀ t, t ≠ k.current → (k'.task t).stopped = true → (k.task t).stopped = true
  state : ∀ t, t ≠ k.current →
    (k'.task t).state = (k.task t).state ∨ (k'.task t).state = .dead

/-- A local change keeps the invariant when the new control point fits. -/
theorem SchedInv.local
    (h : SchedInv strict k) (hl : Local k k')
    (hfit : Fits k' k.current (k'.pc k.current)) (hlive : strict → k'.pc k.current ≠ .exited) :
    SchedInv strict k' where
  fits t := by
    by_cases ht : t = k.current
    · subst ht
      exact hfit
    · rw [hl.pc t ht]
      exact (h.fits t).mono (fun d => hl.waiter d t ht)
        (fun s hs hst => hl.sleep s hs (by rw [hst]; exact ht)) (hl.stopped t ht) (hl.state t ht)
  nodup := by rw [hl.queue]; exact h.nodup
  current_notMem := by rw [hl.queue, hl.current]; exact h.current_notMem
  queueLive hst t ht := by
    rw [hl.queue] at ht
    have hne : t ≠ k.current := fun heq => h.current_notMem (heq ▸ ht)
    rw [hl.pc t hne]
    exact h.queueLive hst t ht
  currentLive := by rw [hl.current]; exact hlive
  exitCurrent t stage hpc := by
    by_contra hne
    rw [hl.current] at hne
    rw [hl.pc t hne] at hpc
    exact hne (h.exitCurrent t stage hpc)
  unborn t ht := by
    rw [hl.numTasks] at ht
    have hne : t ≠ k.current := fun hc => Nat.not_le_of_lt h.currentBorn (hc ▸ ht)
    rw [hl.pc t hne]
    exact h.unborn t ht
  currentBorn := by rw [hl.current, hl.numTasks]; exact h.currentBorn
  queueBorn t ht := by
    rw [hl.queue] at ht
    rw [hl.numTasks]
    exact h.queueBorn t ht
  listedBorn t ht := by
    rw [hl.numTasks]
    exact h.listedBorn t (hl.tasks t ht)
  swapperBorn := by rw [hl.numTasks]; exact h.swapperBorn

/-- Waking a task that has not called `schedule()` from `do_exit`. -/
theorem SchedInv.wake
    (h : SchedInv strict k) (ht : t < k.numTasks) (hlive : strict → k.pc t ≠ .exited) :
    SchedInv strict (k.wakeUpProcess t) := by
  have heq := wakeUpProcess_eq k t
  have htask : ∀ t', ((k.wakeUpProcess t).task t').stopped = (k.task t').stopped ∧
      ((k.wakeUpProcess t).task t').state = (k.task t').state := by
    intro t'
    rcases wakeUpProcess_task k t t' with h' | ⟨-, h'⟩ <;> simp [h']
  have hmem := wakeUpProcess_queue k t
  have hnodup : (k.wakeUpProcess t).scheduleQueue.Nodup := by
    unfold wakeUpProcess
    split
    next => exact h.nodup
    next =>
      split
      next => exact h.nodup
      next hnot =>
        exact List.nodup_append.mpr ⟨h.nodup, by simp, by
          simpa using fun t' ht' (hc : t' = t) => hnot (hc ▸ ht')⟩
  have hqueue : ∀ t' ∈ (k.wakeUpProcess t).scheduleQueue,
      (strict → k.pc t' ≠ .exited) ∧ t' < k.numTasks ∧ t' ≠ k.current := by
    intro t' ht'
    rcases (hmem t').mp ht' with hold | ⟨rfl, hne⟩
    · exact ⟨fun hst => h.queueLive hst t' hold, h.queueBorn t' hold,
        fun hc => h.current_notMem (hc ▸ hold)⟩
    · exact ⟨hlive, ht, hne⟩
  generalize k.wakeUpProcess t = k₁ at heq htask hnodup hqueue
  have hpc : k₁.pc = k.pc := by rw [heq]
  have hcur : k₁.current = k.current := by rw [heq]
  have hnum : k₁.numTasks = k.numTasks := by rw [heq]
  refine
    { fits := fun t' => ?_
      nodup := hnodup
      current_notMem := fun hc => (hqueue _ hc).2.2 hcur
      queueLive := fun hst t' ht' => hpc ▸ (hqueue t' ht').1 hst
      currentLive := by rw [hpc, hcur]; exact h.currentLive
      exitCurrent := by rw [hpc, hcur]; exact h.exitCurrent
      unborn := by rw [hpc, hnum]; exact h.unborn
      currentBorn := by rw [hcur, hnum]; exact h.currentBorn
      queueBorn := fun t' ht' => hnum ▸ (hqueue t' ht').2.1
      listedBorn := ?_
      swapperBorn := by rw [hnum]; exact h.swapperBorn }
  · rw [hpc]
    refine (h.fits t').mono ?_ ?_ ?_ ?_
    · rw [show k₁.waiter = k.waiter by rw [heq]]; exact fun _ hd => hd
    · rw [show k₁.sleepQueue = k.sleepQueue by rw [heq]]; exact fun _ hs _ => hs
    · rw [(htask t').1]; exact id
    · exact .inl (htask t').2
  · rw [hnum]
    rw [heq]
    exact h.listedBorn

/-- `schedule`, when an exiting caller is not put back on the queue. -/
theorem SchedInv.schedule
    (h : SchedInv strict k) (hs : Scheduled k p k')
    (hfit : Fits k k.current p) (hstage : ∀ stage, p ≠ .exit stage)
    (hexit : strict → p = .exited → k.requeues = false) :
    SchedInv strict k' := by
  have heq := hs.frame
  have hpc : k'.pc = Function.update k.pc k.current p := by rw [heq]
  have hnum : k'.numTasks = k.numTasks := by rw [heq]
  have htask : ∀ t, (k'.task t).stopped = (k.task t).stopped ∧
      (k'.task t).state = (k.task t).state := by
    intro t
    rcases hs.task t with h' | ⟨-, h'⟩ <;> simp [h']
  -- the tasks in the queue `schedule` picks from
  have hnodup : (requeued k).Nodup := by
    unfold requeued
    split
    next => exact List.nodup_append.mpr ⟨h.nodup, by simp, by
      simpa using fun t ht (hc : t = k.current) => h.current_notMem (hc ▸ ht)⟩
    next => exact h.nodup
  have hlive : ∀ t ∈ requeued k, (strict → k'.pc t ≠ .exited) ∧ t < k.numTasks := by
    intro t ht
    have hcases : t ∈ k.scheduleQueue ∨ t = k.current ∧ k.requeues = true := by
      unfold requeued at ht
      split at ht
      next hr => simpa [hr] using ht
      next => exact .inl ht
    rcases hcases with hold | ⟨rfl, hr⟩
    · have hne : t ≠ k.current := fun hc => h.current_notMem (hc ▸ hold)
      rw [hpc, Function.update_of_ne hne]
      exact ⟨fun hst => h.queueLive hst t hold, h.queueBorn t hold⟩
    · rw [hpc, Function.update_self]
      refine ⟨fun hst hp => ?_, h.currentBorn⟩
      rw [hexit hst hp] at hr
      cases hr
  have hsub : ∀ t ∈ k'.scheduleQueue, t ∈ requeued k := by
    intro t ht
    rcases hs.pick with hq | ⟨-, -, hq⟩
    · rw [hq]; exact List.mem_cons_of_mem _ ht
    · rw [hq] at ht; cases ht
  have hcurrent : (strict → k'.pc k'.current ≠ .exited) ∧ k'.current < k.numTasks := by
    rcases hs.pick with hq | ⟨-, hc, -⟩
    · exact hlive _ (hq ▸ List.mem_cons_self ..)
    · rw [hc]
      refine ⟨fun _ => ?_, h.swapperBorn⟩
      by_cases hcur : swapperTask = k.current
      · rw [hpc, hcur, Function.update_self, hfit.swapper hcur.symm]
        simp
      · rw [hpc, Function.update_of_ne hcur, (h.fits _).swapper rfl]
        simp
  have hnoExit : ∀ t stage, k'.pc t ≠ .exit stage := by
    intro t stage
    by_cases ht : t = k.current
    · rw [hpc, ht, Function.update_self]
      exact hstage stage
    · rw [hpc, Function.update_of_ne ht]
      exact fun he => ht (h.exitCurrent t stage he)
  refine
    { fits := fun t => ?_
      nodup := ?_
      current_notMem := ?_
      queueLive := fun hst t ht => (hlive t (hsub t ht)).1 hst
      currentLive := hcurrent.1
      exitCurrent := fun t stage he => absurd he (hnoExit t stage)
      unborn := fun t ht => ?_
      currentBorn := hnum ▸ hcurrent.2
      queueBorn := fun t ht => hnum ▸ (hlive t (hsub t ht)).2
      listedBorn := ?_
      swapperBorn := hnum ▸ h.swapperBorn }
  · have hpre : Fits k t (k'.pc t) := by
      by_cases ht : t = k.current
      · subst ht
        rw [hpc, Function.update_self]
        exact hfit
      · rw [hpc, Function.update_of_ne ht]
        exact h.fits t
    refine hpre.mono ?_ ?_ ?_ (.inl (htask t).2)
    · rw [show k'.waiter = k.waiter by rw [heq]]; exact fun _ hd => hd
    · rw [show k'.sleepQueue = k.sleepQueue by rw [heq]]; exact fun _ hs _ => hs
    · rw [(htask t).1]; exact id
  · rcases hs.pick with hq | ⟨-, -, hq⟩
    · rw [hq] at hnodup; exact (List.nodup_cons.mp hnodup).2
    · rw [hq]; exact List.nodup_nil
  · rcases hs.pick with hq | ⟨-, -, hq⟩
    · rw [hq] at hnodup; exact (List.nodup_cons.mp hnodup).1
    · rw [hq]; exact List.not_mem_nil
  · rw [hnum] at ht
    have hne : t ≠ k.current := fun hc => Nat.not_le_of_lt h.currentBorn (hc ▸ ht)
    rw [hpc, Function.update_of_ne hne]
    exact h.unborn t ht
  · rw [hnum]
    rw [heq]
    exact h.listedBorn

/-- A task moves to a control point that answers for as much as the old one. -/
theorem Fits.move {p' : Pc}
    (h : Fits k t p)
    (hw : ∀ d, p.HoldsWaiter d → p'.HoldsWaiter d)
    (hs : ∀ s, p.HoldsSpec s → p'.HoldsSpec s)
    (hstop : ∀ phase, p = .stopLoop phase → ∃ phase, p' = .stopLoop phase)
    (hend : p'.Exiting → (k.task t).state = .zombie ∨ (k.task t).state = .dead)
    (hidle : p = .idle → p' = .idle) :
    Fits k t p' where
  waiter d hd := hw d (h.waiter d hd)
  spec s hmem ht := hs s (h.spec s hmem ht)
  stopped hst := (h.stopped hst).elim fun phase hp => hstop phase hp
  ended := hend
  swapper ht := hidle (h.swapper ht)

/-- The running task moves on. -/
theorem SchedInv.setPc
    (h : SchedInv strict k) (hfit : Fits k k.current p) (hlive : p ≠ .exited) :
    SchedInv strict (k.setPc k.current p) := by
  refine h.local
    { current := rfl, queue := rfl, numTasks := rfl, tasks := fun _ => id
      pc := fun t ht => by simp [Kernel.setPc, ht]
      waiter := fun _ _ _ => id, sleep := fun _ hs _ => hs
      stopped := fun _ _ => id, state := fun _ _ => .inl rfl } ?_ ?_
  · have hfit' : Fits (k.setPc k.current p) k.current p :=
      hfit.mono (fun _ => id) (fun _ hs _ => hs) id (.inl rfl)
    simpa [Kernel.setPc] using hfit'
  · simpa [Kernel.setPc] using fun _ => hlive

/-- A change that touches no control point, no registration and no list but the
lists of tasks to be freed, and keeps states and stop marks. -/
theorem SchedInv.quiet
    (h : SchedInv strict k)
    (hpc : k'.pc = k.pc) (hcur : k'.current = k.current)
    (hqueue : k'.scheduleQueue = k.scheduleQueue) (hnum : k'.numTasks = k.numTasks)
    (htasks : ∀ t ∈ k'.tasks, t ∈ k.tasks)
    (hwaiter : k'.waiter = k.waiter) (hsleep : k'.sleepQueue = k.sleepQueue)
    (hstop : ∀ t, (k'.task t).stopped = true → (k.task t).stopped = true)
    (hstate : ∀ t, (k'.task t).state = (k.task t).state ∨ (k'.task t).state = .dead) :
    SchedInv strict k' := by
  refine h.local
    { current := hcur, queue := hqueue, numTasks := hnum, tasks := htasks
      pc := fun t _ => by rw [hpc]
      waiter := fun d t _ => by rw [hwaiter]; exact id
      sleep := fun s hs _ => by rw [hsleep] at hs; exact hs
      stopped := fun t _ => hstop t, state := fun t _ => hstate t } ?_ ?_
  · rw [hpc]
    exact (h.fits _).mono (by rw [hwaiter]; exact fun _ => id)
      (by rw [hsleep]; exact fun _ hs _ => hs) (hstop _) (hstate _)
  · rw [hpc]
    exact h.currentLive

/-- Nothing changes that has to do with scheduling. -/
theorem SchedInv.outside
    (h : SchedInv strict k)
    (hsame : k' = { k' with
      task := k.task, pc := k.pc, current := k.current, scheduleQueue := k.scheduleQueue
      numTasks := k.numTasks, tasks := k.tasks, waiter := k.waiter
      sleepQueue := k.sleepQueue }) : SchedInv strict k' := by
  rw [hsame]
  exact h.quiet rfl rfl rfl rfl (fun _ => id) rfl rfl (fun _ => id) fun _ => .inl rfl

/-- A record is rewritten without stopping the task or waking the dead. -/
theorem SchedInv.modTask {f : TaskStruct → TaskStruct}
    (h : SchedInv strict k)
    (hstop : (f (k.task t)).stopped = true → (k.task t).stopped = true)
    (hstate : (f (k.task t)).state = (k.task t).state) :
    SchedInv strict (k.modTask t f) := by
  refine h.quiet rfl rfl rfl rfl (fun _ => id) rfl rfl (fun t' => ?_) (fun t' => ?_)
  · by_cases ht : t' = t
    · subst ht
      simpa [Kernel.modTask] using hstop
    · simp [Kernel.modTask, ht]
  · by_cases ht : t' = t
    · subst ht
      simp [Kernel.modTask, hstate]
    · simp [Kernel.modTask, ht]

/-- The running task sets its state, outside `do_exit`. -/
theorem SchedInv.setState {state : TaskState}
    (h : SchedInv strict k) (hp : ¬ (k.pc k.current).Exiting) :
    SchedInv strict (k.setState state) := by
  have hlive := h.currentLive
  refine h.local
    { current := rfl, queue := rfl, numTasks := rfl, tasks := fun _ => id
      pc := fun _ _ => rfl, waiter := fun _ _ _ => id, sleep := fun _ hs _ => hs
      stopped := fun t ht => by simp [Kernel.setState, Kernel.modTask, ht]
      state := fun t ht => by simp [Kernel.setState, Kernel.modTask, ht] } ?_ hlive
  have hf := h.fits k.current
  exact
    { waiter := hf.waiter
      spec := hf.spec
      stopped := fun hst => hf.stopped (by simpa [Kernel.setState, Kernel.modTask] using hst)
      ended := fun he => absurd he hp
      swapper := hf.swapper }

end Rules

/-- Control points that answer for nothing. -/
def Pc.Plain : Pc → Prop
  | .read _ _ | .nanosleep _ _ | .poll _ _ | .stopLoop _ | .exit _ | .exited | .idle => False
  | _ => True

section Functions

variable {strict : Prop} {k k' : Kernel} {p : Pc}

theorem Fits.of_plain {t : TaskId} {p' : Pc}
    (h : Fits k t p) (hp : p.Plain) (hend : ¬ p'.Exiting) : Fits k t p' := by
  refine h.move ?_ ?_ ?_ (fun he => absurd he hend) ?_
  all_goals
    revert hp
    cases p <;> simp [Pc.Plain, Pc.HoldsWaiter, Pc.HoldsSpec]

theorem SchedInv.setPc_of_plain
    (h : SchedInv strict k) (hplain : (k.pc k.current).Plain) (hp : ¬ p.Exiting) :
    SchedInv strict (k.setPc k.current p) :=
  h.setPc ((h.fits _).of_plain hplain hp) fun he => hp (he ▸ trivial)

theorem retPc_not_exiting (k : Kernel) : ¬ k.retPc.Exiting := by
  unfold retPc
  split <;> simp [Pc.Exiting]

theorem SchedInv.leave (h : SchedInv strict k) (hplain : (k.pc k.current).Plain) :
    SchedInv strict k.leave :=
  h.setPc_of_plain hplain (retPc_not_exiting k)

/-- A signal sent to a task, whatever its state. -/
theorem SchedInv.sendSigInfo {t : TaskId} {info : Siginfo}
    (h : SchedInv strict k) (hborn : t < k.numTasks) (hs : k.sendSigInfo t info = .ok k') :
    SchedInv strict k' := by
  rcases sendSigInfo_cases hs with rfl | ⟨hst, rfl⟩ | ⟨_, siginfos, _, _, _, _, kp, hkp, hk'⟩
  · exact h
  · obtain ⟨phase, hpc⟩ := (h.fits t).stopped hst
    have h₁ : SchedInv strict (k.modTask t fun task => { task with stopped := false }) :=
      h.modTask (by simp) rfl
    refine h₁.wake hborn ?_
    simp [Kernel.modTask, hpc]
  · have h₁ : SchedInv strict kp := by
      rw [hkp]
      exact h.modTask id rfl
    rcases hk' with rfl | ⟨hint, rfl⟩
    · exact h₁
    · refine h₁.wake (by rw [hkp]; exact hborn) ?_
      rw [hkp]
      intro _ hpc
      have hend := (h.fits t).ended (by rw [show k.pc t = .exited from hpc]; trivial)
      rw [hint] at hend
      simp at hend

/-- Sending a signal leaves the running task where it is. -/
def SentFrom (strict : Prop) (k k₁ : Kernel) : Prop :=
  SchedInv strict k₁ ∧ k₁ = { k with task := k₁.task, scheduleQueue := k₁.scheduleQueue }

theorem SentFrom.step {k₁ k₂ : Kernel} {t : TaskId} {info : Siginfo}
    (h : SentFrom strict k k₁) (ht : t ∈ k.tasks) (hs : k₁.sendSigInfo t info = .ok k₂) :
    SentFrom strict k k₂ := by
  obtain ⟨hinv, hframe⟩ := h
  have htasks : k₁.tasks = k.tasks := by rw [hframe]
  refine ⟨hinv.sendSigInfo (hinv.listedBorn t (htasks ▸ ht)) hs, ?_⟩
  rw [sendSigInfo_frame hs, hframe]

theorem SentFrom.leave (h : SentFrom strict k k') (hplain : (k.pc k.current).Plain) :
    SchedInv strict k'.leave := by
  refine h.1.leave ?_
  rw [h.2]
  exact hplain

theorem sentFrom_kill {pid : Int} {signum : Nat}
    (h : SchedInv strict k) (hs : k.kill pid signum = .ok k') : SentFrom strict k k' :=
  kill_rule (P := SentFrom strict k) (fun _ _ _ h₁ ht h₂ => h₁.step ht h₂) ⟨h, rfl⟩ hs

theorem sentFrom_tgkill {tgid tid : Int} {signum : Nat}
    (h : SchedInv strict k) (hs : k.tgkill tgid tid signum = .ok k') : SentFrom strict k k' :=
  tgkill_rule (P := SentFrom strict k) (fun _ _ _ h₁ ht h₂ => h₁.step ht h₂) ⟨h, rfl⟩ hs

theorem sentFrom_pg {pgid : Nat} {info : Siginfo}
    (h : SchedInv strict k) (hs : k.sendSigInfoPg pgid info = .ok k') : SentFrom strict k k' :=
  sendSigInfoPg_rule (P := SentFrom strict k) (fun _ _ _ h₁ ht h₂ => h₁.step ht h₂) ⟨h, rfl⟩ hs

theorem sentFrom_current {info : Siginfo}
    (h : SchedInv strict k) (hs : k.sendSigInfo k.current info = .ok k') : SentFrom strict k k' :=
  ⟨h.sendSigInfo h.currentBorn hs, sendSigInfo_frame hs⟩

theorem sentFrom_force {signum : Nat}
    (h : SchedInv strict k) (hs : k.forceSig k.current signum = .ok k') : SentFrom strict k k' := by
  unfold forceSig sendSig at hs
  split at hs
  next => cases hs
  next k₁ hsend =>
    cases hs
    obtain ⟨h₁, hframe⟩ := sentFrom_current h hsend
    refine ⟨h₁.modTask id rfl, ?_⟩
    rw [hframe]
    rfl

/-- The running task dies: its state and its control point change together. -/
theorem SchedInv.doExit {exitcode : Int}
    (h : SchedInv strict k) (hplain : (k.pc k.current).Plain) : SchedInv strict (k.doExit exitcode) := by
  have hf : Fits k k.current .body := (h.fits k.current).of_plain hplain (by simp [Pc.Exiting])
  refine h.local
    { current := rfl, queue := rfl, numTasks := rfl, tasks := fun _ => id
      pc := fun t ht => by simp [Kernel.doExit, Kernel.setPc, Kernel.modTask, ht]
      waiter := fun _ _ _ => id, sleep := fun _ hs _ => hs
      stopped := fun t ht => by simp [Kernel.doExit, Kernel.setPc, Kernel.modTask, ht]
      state := fun t ht => by simp [Kernel.doExit, Kernel.setPc, Kernel.modTask, ht] } ?_ ?_
  · simp only [Kernel.doExit, Kernel.setPc, Kernel.modTask, Function.update_self]
    exact
      { waiter := fun d hd => (hf.waiter d hd).elim
        spec := fun s hs ht => (hf.spec s hs ht).elim
        stopped := fun hst => by
          obtain ⟨phase, hp⟩ := hf.stopped (by simpa using hst)
          cases hp
        ended := fun _ => by simp
        swapper := fun ht => by cases hf.swapper ht }
  · simp [Kernel.doExit, Kernel.setPc]

/-- A stopped task waits in its own loop. -/
theorem SchedInv.stop (h : SchedInv strict k) (hplain : (k.pc k.current).Plain) :
    SchedInv strict ((k.modTask k.current fun task => { task with stopped := true }).setPc
      k.current (.stopLoop .check)) := by
  have hf : Fits k k.current .body := (h.fits k.current).of_plain hplain (by simp [Pc.Exiting])
  refine h.local
    { current := rfl, queue := rfl, numTasks := rfl, tasks := fun _ => id
      pc := fun t ht => by simp [Kernel.setPc, Kernel.modTask, ht]
      waiter := fun _ _ _ => id, sleep := fun _ hs _ => hs
      stopped := fun t ht => by simp [Kernel.setPc, Kernel.modTask, ht]
      state := fun t ht => by simp [Kernel.setPc, Kernel.modTask, ht] } ?_ ?_
  · simp only [Kernel.setPc, Kernel.modTask, Function.update_self]
    exact
      { waiter := fun d hd => (hf.waiter d hd).elim
        spec := fun s hs ht => (hf.spec s hs ht).elim
        stopped := fun _ => ⟨_, rfl⟩
        ended := fun he => he.elim
        swapper := fun ht => by cases hf.swapper ht }
  · simp [Kernel.setPc]

theorem SchedInv.setSigaction {signum : Nat} {act : Sigaction}
    (h : SchedInv strict k) (hs : k.setSigaction signum act = .ok k') : SchedInv strict k' := by
  rw [setSigaction_frame hs]
  exact h.outside rfl

theorem SchedInv.enterHandler {signum : Nat} {act : Sigaction} {pushFails : Bool}
    (h : SchedInv strict k) (hplain : (k.pc k.current).Plain)
    (hs : k.enterHandler signum act pushFails = .ok k') : SchedInv strict k' := by
  unfold Kernel.enterHandler at hs
  split at hs
  next =>
    split at hs
    next => exact (sentFrom_force h hs).1
    next =>
      cases hs
      have h₁ : SchedInv strict (k.setSigmask act.mask) := h.modTask id rfl
      exact h₁.setPc_of_plain hplain (by simp [Pc.Exiting])
  next =>
    split at hs
    next => exact (sentFrom_force h hs).1
    next =>
      cases hs
      exact h.setPc_of_plain hplain (by simp [Pc.Exiting])

theorem SchedInv.deliverSignal {pushFails : Bool}
    (h : SchedInv strict k) (hplain : (k.pc k.current).Plain)
    (hs : k.deliverSignal pushFails = .ok k') : SchedInv strict k' := by
  unfold Kernel.deliverSignal at hs
  simp only at hs
  split at hs
  next =>
    cases hs
    exact h.setPc_of_plain hplain (by simp [Pc.Exiting])
  next =>
    generalize hsig : signalPendingOne k.cur = signum at hs
    have h₁ : SchedInv strict (k.kernelGetPendingSig signum) := h.modTask id rfl
    have hp₁ : ((k.kernelGetPendingSig signum).pc (k.kernelGetPendingSig signum).current).Plain :=
      hplain
    generalize k.kernelGetPendingSig signum = k₁ at hs h₁ hp₁
    split at hs
    next => cases hs
    next act _ =>
      split at hs
      next =>
        split at hs
        next =>
          cases hs
          exact h₁.setPc_of_plain hp₁ (by simp [Pc.Exiting])
        next =>
          cases hs
          exact h₁.doExit hp₁
        next =>
          cases hs
          exact h₁.stop hp₁
        next => cases hs
      next =>
        split at hs
        next =>
          cases hs
          exact h₁.setPc_of_plain hp₁ (by simp [Pc.Exiting])
        next => exact h₁.enterHandler hp₁ hs

/-- `_do_wait` changes no control point. -/
theorem SchedInv.doWaitTask {t : TaskId} {pid : Nat} (h : SchedInv strict k) :
    SchedInv strict (k.doWaitTask t pid) := by
  refine h.quiet rfl rfl rfl rfl (fun t' ht' => (List.mem_filter.mp ht').1) rfl rfl
    (fun t' => ?_) (fun t' => ?_)
  all_goals
    by_cases ht : t' = t
    · subst ht
      simp [Kernel.doWaitTask, Kernel.modTask]
    · simp [Kernel.doWaitTask, Kernel.modTask, ht]

/-! ### Creating and replacing tasks -/

theorem SchedInv.putSigactions (h : SchedInv strict k) (hs : k.putSigactions = .ok k') :
    SchedInv strict k' ∧ k'.pc = k.pc ∧ k'.current = k.current := by
  rw [putSigactions_frame hs]
  exact ⟨h.outside rfl, rfl, rfl⟩

theorem SchedInv.execPut {subsystem : Subsystem}
    (h : SchedInv strict k) (hplain : (k.pc k.current).Plain) (hs : k.execPut subsystem = .ok k') :
    SchedInv strict k' := by
  unfold Kernel.execPut at hs
  split at hs
  next => cases hs
  next k₁ hput =>
    cases hs
    obtain ⟨h₁, hpc, hcur⟩ := h.putSigactions hput
    rw [← hcur]
    exact h₁.setPc_of_plain (by rw [hpc, hcur]; exact hplain) (by simp [Pc.Exiting])

theorem SchedInv.execInstall {subsystem : Subsystem}
    (h : SchedInv strict k) (hplain : (k.pc k.current).Plain) :
    SchedInv strict (k.execInstall subsystem) := by
  refine SchedInv.leave (SchedInv.modTask ?_ id rfl) hplain
  exact h.outside rfl

/-- A task that is made stands where it stood before. -/
theorem SchedInv.update_pc (h : SchedInv strict k) :
    Function.update k.pc k.numTasks .entry = k.pc :=
  Function.update_eq_self_iff.mpr (h.unborn k.numTasks (Nat.le_refl _)).symm

/-- A fresh task stands at its entry and is registered nowhere. -/
theorem SchedInv.addTask
    (h : SchedInv strict k) (task : TaskStruct) (hstop : task.stopped = false) :
    SchedInv strict (k.addTask task) := by
  have hpc : (k.addTask task).pc = k.pc := h.update_pc
  have hentry : Fits k k.numTasks .entry :=
    h.unborn k.numTasks (Nat.le_refl _) ▸ h.fits k.numTasks
  refine
    { fits := fun t => ?_
      nodup := h.nodup
      current_notMem := h.current_notMem
      queueLive := fun hst t ht => by rw [hpc]; exact h.queueLive hst t ht
      currentLive := by rw [hpc]; exact h.currentLive
      exitCurrent := fun t stage he => by rw [hpc] at he; exact h.exitCurrent t stage he
      unborn := fun t ht => by rw [hpc]; exact h.unborn t (Nat.le_of_succ_le ht)
      currentBorn := Nat.lt_succ_of_lt h.currentBorn
      queueBorn := fun t ht => Nat.lt_succ_of_lt (h.queueBorn t ht)
      listedBorn := fun t ht => ?_
      swapperBorn := Nat.lt_succ_of_lt h.swapperBorn }
  · rw [hpc]
    by_cases ht : t = k.numTasks
    · subst ht
      rw [h.unborn k.numTasks (Nat.le_refl _)]
      exact
        { waiter := hentry.waiter
          spec := hentry.spec
          stopped := fun hst => by simp [Kernel.addTask, hstop] at hst
          ended := fun he => he.elim
          swapper := hentry.swapper }
    · exact (h.fits t).mono (fun _ => id) (fun _ hs _ => hs)
        (by simp [Kernel.addTask, ht]) (by simp [Kernel.addTask, ht])
  · rcases List.mem_append.mp ht with hold | hnew
    · exact Nat.lt_succ_of_lt (h.listedBorn t hold)
    · rw [List.mem_singleton.mp hnew]
      exact Nat.lt_succ_self _

theorem SchedInv.cloneSigactions (h : SchedInv strict k) (flags : BitVec 32) :
    SchedInv strict (k.cloneSigactions flags).1 ∧
      (k.cloneSigactions flags).1.pc = k.pc ∧
      (k.cloneSigactions flags).1.current = k.current ∧
      (k.cloneSigactions flags).1.numTasks = k.numTasks := by
  unfold Kernel.cloneSigactions
  simp only
  split
  all_goals
    exact ⟨h.outside rfl,
      rfl, rfl, rfl⟩

/-- A clone keeps the caller in place. -/
theorem SchedInv.doClone {flags : BitVec 32} {user : Bool}
    (h : SchedInv strict k) (hs : k.doClone flags user = .ok k') :
    SchedInv strict k' ∧ k'.current = k.current ∧ k'.pc k.current = k.pc k.current := by
  unfold Kernel.doClone at hs
  split at hs
  next =>
    cases hs
    exact ⟨h, rfl, rfl⟩
  next pid next _ =>
    split at hs
    next => cases hs
    next =>
      cases hs
      obtain ⟨h₁, hpc, hcur, hnum⟩ := h.cloneSigactions flags
      generalize (k.cloneSigactions flags).1 = k₁ at h₁ hpc hcur hnum
      have h₂ : SchedInv strict { k₁ with nextPid := next } :=
        h₁.outside rfl
      have h₃ := h₂.addTask (k.cloneTask flags user pid (k.cloneSigactions flags).2) rfl
      have hne : k.current ≠ k.numTasks := Nat.ne_of_lt h.currentBorn
      refine ⟨h₃.wake ?_ ?_, ?_, ?_⟩
      · rw [← hnum]
        exact Nat.lt_succ_self _
      · simp [Kernel.addTask, hnum]
      · rw [wakeUpProcess_eq]
        exact hcur
      · rw [wakeUpProcess_eq]
        simp [Kernel.addTask, hnum, hne, hpc]

/-! ### Waiting for children -/

theorem SchedInv.waitSleep {wait : Sigaction → Pc}
    (h : SchedInv strict k) (hplain : (k.pc k.current).Plain)
    (hwait : ∀ act, ¬ (wait act).Exiting) (hs : k.waitSleep wait = .ok k') :
    SchedInv strict k' := by
  unfold Kernel.waitSleep at hs
  split at hs
  next => cases hs
  next act _ =>
    split at hs
    next => cases hs
    next k₁ hset =>
      cases hs
      have h₁ := h.setSigaction hset
      have hpc : k₁.pc = k.pc ∧ k₁.current = k.current := by
        rw [setSigaction_frame hset]
        exact ⟨rfl, rfl⟩
      have hp₁ : (k₁.pc k₁.current).Plain := by
        rw [hpc.1, hpc.2]
        exact hplain
      have hne : ¬ (k₁.pc k₁.current).Exiting := by
        revert hp₁
        cases k₁.pc k₁.current <;> simp [Pc.Plain, Pc.Exiting]
      rw [← hpc.2]
      exact (h₁.setState hne).setPc_of_plain hp₁ (hwait act)

theorem SchedInv.waitReturn {oldaction : Sigaction}
    (h : SchedInv strict k) (hplain : (k.pc k.current).Plain)
    (hs : k.waitReturn oldaction = .ok k') : SchedInv strict k' := by
  unfold Kernel.waitReturn at hs
  split at hs
  next => cases hs
  next k₁ hset =>
    cases hs
    refine (h.setSigaction hset).leave ?_
    rw [setSigaction_frame hset]
    exact hplain

theorem SchedInv.doWait {t : TaskId}
    (h : SchedInv strict k) (hplain : (k.pc k.current).Plain) (hs : k.doWait t = .ok k') :
    SchedInv strict k' := by
  unfold Kernel.doWait at hs
  split at hs
  next => cases hs
  next =>
    split at hs
    next =>
      cases hs
      exact h.leave hplain
    next =>
      split at hs
      next =>
        cases hs
        exact h.doWaitTask.leave hplain
      next => exact h.waitSleep hplain (by simp [Pc.Exiting]) hs

theorem SchedInv.doWaitSignal {t : TaskId} {oldaction : Sigaction}
    (h : SchedInv strict k) (hplain : (k.pc k.current).Plain)
    (hs : k.doWaitSignal t oldaction = .ok k') : SchedInv strict k' := by
  unfold Kernel.doWaitSignal at hs
  split at hs
  next => cases hs
  next => exact h.waitReturn hplain hs
  next info _ =>
    split at hs
    next =>
      split at hs
      next => cases hs
      next =>
        split at hs
        next =>
          have h₁ : SchedInv strict (k.kernelGetPendingSig SIGCHLD) := h.modTask id rfl
          exact h₁.doWaitTask.waitReturn hplain hs
        next => exact h.waitReturn hplain hs
    next => exact h.waitReturn hplain hs

theorem SchedInv.doWaitpg {pgid : Nat} {wait : Bool}
    (h : SchedInv strict k) (hplain : (k.pc k.current).Plain) (hs : k.doWaitpg pgid wait = .ok k') :
    SchedInv strict k' := by
  unfold Kernel.doWaitpg at hs
  split at hs
  next =>
    cases hs
    exact h.doWaitTask.leave hplain
  next =>
    split at hs
    next =>
      cases hs
      exact h.leave hplain
    next =>
      split at hs
      next =>
        cases hs
        exact h.leave hplain
      next => exact h.waitSleep hplain (by simp [Pc.Exiting]) hs

theorem SchedInv.doWaitpgSignal {pgid : Nat} {oldaction : Sigaction}
    (h : SchedInv strict k) (hplain : (k.pc k.current).Plain)
    (hs : k.doWaitpgSignal pgid oldaction = .ok k') : SchedInv strict k' := by
  unfold Kernel.doWaitpgSignal at hs
  split at hs
  next => cases hs
  next => exact h.waitReturn hplain hs
  next info _ =>
    split at hs
    next =>
      split at hs
      next => cases hs
      next =>
        split at hs
        next =>
          have h₁ : SchedInv strict (k.kernelGetPendingSig SIGCHLD) := h.modTask id rfl
          exact h₁.doWaitTask.waitReturn hplain hs
        next => exact h.waitReturn hplain hs
    next => exact h.waitReturn hplain hs

theorem SchedInv.doSysWaitpid {pid : Int} {wnohang : Bool}
    (h : SchedInv strict k) (hplain : (k.pc k.current).Plain)
    (hs : k.doSysWaitpid pid wnohang = .ok k') : SchedInv strict k' := by
  unfold Kernel.doSysWaitpid at hs
  split at hs
  next => exact h.doWaitpg hplain hs
  next =>
    split at hs
    next =>
      cases hs
      exact h.leave hplain
    next =>
      split at hs
      next =>
        cases hs
        exact h.leave hplain
      next => exact h.doWait hplain hs

/-- `schedule` from a control point that answers for nothing. -/
theorem SchedInv.schedule_of_plain
    (h : SchedInv strict k) (hplain : (k.pc k.current).Plain) (hp : ¬ p.Exiting)
    (hs : k.schedule p = .ok k') : SchedInv strict k' :=
  h.schedule (schedule_spec hs) ((h.fits _).of_plain hplain hp)
    (fun _ he => hp (he ▸ trivial)) fun _ he => (hp (he ▸ trivial)).elim

/-- The common loop of `do_wait` and `do_waitpg`. -/
theorem SchedInv.waitLoop {wait : Phase → Pc} {found : Except Fault Kernel} {phase : Phase}
    (h : SchedInv strict k) (hpc : k.pc k.current = wait phase)
    (hplain : ∀ phase, (wait phase).Plain) (hfound : found = .ok k' → SchedInv strict k')
    (hs : k.waitLoop wait found phase = .ok k') : SchedInv strict k' := by
  have hnot : ∀ phase, ¬ (wait phase).Exiting := by
    intro phase
    have := hplain phase
    revert this
    cases wait phase <;> simp [Pc.Plain, Pc.Exiting]
  have hp : (k.pc k.current).Plain := by
    rw [hpc]
    exact hplain phase
  have hn : ¬ (k.pc k.current).Exiting := by
    rw [hpc]
    exact hnot phase
  cases phase with
  | sched => exact h.schedule_of_plain hp (hnot _) hs
  | woken =>
      cases hs
      exact (h.setState hn).setPc_of_plain hp (hnot _)
  | check =>
      simp only [Kernel.waitLoop] at hs
      split at hs
      next => exact hfound hs
      next =>
        cases hs
        exact (h.setState hn).setPc_of_plain hp (hnot _)

/-! ### Devices and timers -/

theorem SchedInv.readEnter {d : Device} (h : SchedInv strict k) (hplain : (k.pc k.current).Plain) :
    SchedInv strict (k.readEnter d) := by
  unfold Kernel.readEnter
  split
  next => exact h.leave hplain
  next hnone =>
    have hf : Fits k k.current .body := (h.fits k.current).of_plain hplain (by simp [Pc.Exiting])
    refine h.local
      { current := rfl, queue := rfl, numTasks := rfl, tasks := fun _ => id
        pc := fun t ht => by simp [Kernel.setPc, Kernel.setState, Kernel.modTask, ht]
        waiter := fun d' t ht hw => ?_, sleep := fun _ hs _ => hs
        stopped := fun t ht => by simp [Kernel.setPc, Kernel.setState, Kernel.modTask, ht]
        state := fun t ht => by simp [Kernel.setPc, Kernel.setState, Kernel.modTask, ht] } ?_ ?_
    · by_cases hd : d' = d
      · subst hd
        simp [Kernel.setPc, Kernel.setState, Kernel.modTask] at hw
        exact absurd hw.symm ht
      · simpa [Kernel.setPc, Kernel.setState, Kernel.modTask, hd] using hw
    · simp only [Kernel.setPc, Kernel.setState, Kernel.modTask, Function.update_self]
      exact
        { waiter := fun d' hw => by
            by_cases hd : d' = d
            · exact hd.symm
            · simp only [Function.update_of_ne hd] at hw
              exact (hf.waiter d' hw).elim
          spec := fun s hs ht => (hf.spec s hs ht).elim
          stopped := fun hst => by
            obtain ⟨phase, hp⟩ := hf.stopped (by simpa using hst)
            cases hp
          ended := fun he => he.elim
          swapper := fun ht => by cases hf.swapper ht }
    · simp [Kernel.setPc]

/-- Leaving a wait: nothing may stay registered. -/
theorem SchedInv.leaveWait
    (h : SchedInv strict k) (hl : Local k k')
    (hwaiter : ∀ d, k'.waiter d ≠ some k.current)
    (hspec : ∀ s ∈ k'.sleepQueue, s.task ≠ k.current)
    (hstop : (k'.task k.current).stopped = true → (k.task k.current).stopped = true)
    (hpc : ∀ phase, k.pc k.current ≠ .stopLoop phase) (hidle : k.pc k.current ≠ .idle) :
    SchedInv strict k'.leave := by
  have hret := retPc_not_exiting k'
  have hcur := hl.current
  refine h.local
    { current := hcur, queue := hl.queue, numTasks := hl.numTasks, tasks := hl.tasks
      pc := fun t ht => ?_
      waiter := hl.waiter, sleep := hl.sleep, stopped := hl.stopped, state := hl.state } ?_ ?_
  · have hne : t ≠ k'.current := hcur ▸ ht
    simp only [Kernel.leave, Kernel.setPc, Function.update_of_ne hne]
    exact hl.pc t ht
  · have hself : k'.leave.pc k.current = k'.retPc := by
      simp [Kernel.leave, Kernel.setPc, ← hcur]
    rw [hself]
    exact
      { waiter := fun d hd => absurd hd (hwaiter d)
        spec := fun s hs ht => absurd ht (hspec s hs)
        stopped := fun hst => by
          obtain ⟨phase, hp⟩ := (h.fits _).stopped (hstop hst)
          exact absurd hp (hpc phase)
        ended := fun he => absurd he hret
        swapper := fun ht => absurd ((h.fits _).swapper ht) hidle }
  · have hself : k'.leave.pc k.current = k'.retPc := by
      simp [Kernel.leave, Kernel.setPc, ← hcur]
    rw [hself]
    exact fun _ he => hret (he ▸ trivial)

theorem SchedInv.readLoop {d : Device} {rest : Bool} {phase : SpinPhase}
    (h : SchedInv strict k) (hpc : k.pc k.current = .read d phase)
    (hs : k.readLoop d rest phase = .ok k') : SchedInv strict k' := by
  have hf := h.fits k.current
  rw [hpc] at hf
  have hmove : ∀ phase', Fits k k.current (.read d phase') := fun phase' =>
    hf.move (fun _ => id) (fun _ => id) (by simp) (by simp [Pc.Exiting]) (by simp)
  cases phase with
  | sched => exact h.schedule (schedule_spec hs) (hmove _) (by simp) (by simp)
  | check =>
      simp only [Kernel.readLoop] at hs
      split at hs
      next =>
        cases hs
        refine h.leaveWait
          { current := rfl, queue := rfl, numTasks := rfl, tasks := fun _ => id
            pc := fun _ _ => rfl
            waiter := fun d' t ht hw => ?_, sleep := fun _ hs _ => hs
            stopped := fun t ht => by simp [Kernel.setState, Kernel.modTask, ht]
            state := fun t ht => by simp [Kernel.setState, Kernel.modTask, ht] }
          (fun d' hw => ?_) (fun s hs ht => (hf.spec s hs ht).elim)
          (by simp [Kernel.setState, Kernel.modTask]) (by simp [hpc]) (by simp [hpc])
        · by_cases hd : d' = d
          · subst hd
            simp at hw
          · simpa [hd, Kernel.setState, Kernel.modTask] using hw
        · by_cases hd : d' = d
          · subst hd
            simp at hw
          · refine hd (hf.waiter d' ?_).symm
            simpa [hd, Kernel.setState, Kernel.modTask] using hw
      next =>
        cases hs
        exact h.setPc (hmove _) (by simp)

theorem mem_sleepAdd {time : Nat} {s : SleepSpec} :
    s ∈ (k.sleepAdd time).1.sleepQueue ↔ s = (k.sleepAdd time).2 ∨ s ∈ k.sleepQueue := by
  have hsplit := List.takeWhile_append_dropWhile
    (p := fun e : SleepSpec => decide (e.endtime ≤ k.now + time)) (l := k.sleepQueue)
  constructor
  · intro hs
    rcases List.mem_append.mp hs with h | h
    · exact .inr ((List.takeWhile_prefix _).subset h)
    · rcases List.mem_cons.mp h with h | h
      · exact .inl h
      · exact .inr ((List.dropWhile_suffix _).subset h)
  · rintro (h | h)
    · exact List.mem_append.mpr (.inr (h ▸ List.mem_cons_self ..))
    · rw [← hsplit] at h
      rcases List.mem_append.mp h with h | h
      · exact List.mem_append.mpr (.inl h)
      · exact List.mem_append.mpr (.inr (List.mem_cons_of_mem _ h))

/-- Entering a timed sleep: the new entry is answered for by the new control point. -/
theorem SchedInv.sleepEnter {time : Nat}
    (h : SchedInv strict k) (hplain : (k.pc k.current).Plain) (hp : ¬ p.Exiting)
    (hspec : p.HoldsSpec (k.sleepAdd time).2) :
    SchedInv strict ((k.sleepAdd time).1.setPc k.current p) := by
  have hf : Fits k k.current .body := (h.fits k.current).of_plain hplain (by simp [Pc.Exiting])
  refine h.local
    { current := rfl, queue := rfl, numTasks := rfl, tasks := fun _ => id
      pc := fun t ht => by simp [Kernel.setPc, Kernel.sleepAdd, ht]
      waiter := fun _ _ _ => id
      sleep := fun s hs ht => ?_
      stopped := fun _ _ => id
      state := fun _ _ => .inl rfl } ?_ ?_
  · rcases mem_sleepAdd.mp hs with rfl | hold
    · exact absurd rfl ht
    · exact hold
  · simp only [Kernel.setPc, Function.update_self]
    exact
      { waiter := fun d hd => (hf.waiter d hd).elim
        spec := fun s hs ht => by
          rcases mem_sleepAdd.mp hs with rfl | hold
          · exact hspec
          · exact (hf.spec s hold ht).elim
        stopped := fun hst => by
          obtain ⟨phase, hp⟩ := hf.stopped hst
          cases hp
        ended := fun he => absurd he hp
        swapper := fun ht => by cases hf.swapper ht }
  · simpa [Kernel.setPc] using fun _ (he : p = .exited) => hp (he ▸ trivial)

theorem SchedInv.nanosleepEnter {time : Nat}
    (h : SchedInv strict k) (hplain : (k.pc k.current).Plain) :
    SchedInv strict (k.nanosleepEnter time) :=
  h.sleepEnter hplain (by simp [Pc.Exiting]) rfl

theorem SchedInv.nanosleepLoop {spec : SleepSpec} {phase : Phase}
    (h : SchedInv strict k) (hpc : k.pc k.current = .nanosleep spec phase)
    (hs : k.nanosleepLoop spec phase = .ok k') : SchedInv strict k' := by
  have hf := h.fits k.current
  rw [hpc] at hf
  have hn : ¬ (k.pc k.current).Exiting := by simp [hpc, Pc.Exiting]
  have hset : ∀ state phase',
      SchedInv strict ((k.setState state).setPc k.current (.nanosleep spec phase')) := by
    intro state phase'
    refine (h.setState hn).setPc ?_ (by simp)
    have hst : SchedInv strict (k.setState state) := h.setState hn
    have hf' := hst.fits k.current
    rw [show (k.setState state).pc k.current = .nanosleep spec phase from hpc] at hf'
    exact hf'.move (fun _ => id) (fun _ => id) (by simp) (by simp [Pc.Exiting]) (by simp)
  cases phase with
  | sched =>
      refine h.schedule (schedule_spec hs) ?_ (by simp) (by simp)
      exact hf.move (fun _ => id) (fun _ => id) (by simp) (by simp [Pc.Exiting]) (by simp)
  | woken =>
      cases hs
      exact hset _ _
  | check =>
      simp only [Kernel.nanosleepLoop] at hs
      split at hs
      next =>
        cases hs
        refine h.leaveWait
          { current := rfl, queue := rfl, numTasks := rfl, tasks := fun _ => id
            pc := fun _ _ => rfl, waiter := fun _ _ _ => id
            sleep := fun s hs _ => (List.mem_filter.mp hs).1
            stopped := fun _ _ => id, state := fun _ _ => .inl rfl }
          (fun d hd => (hf.waiter d hd).elim) (fun s hs ht => ?_)
          id (by simp [hpc]) (by simp [hpc])
        have hmem := List.mem_filter.mp hs
        have heq : s = spec := hf.spec s hmem.1 ht
        simp [heq] at hmem
      next =>
        cases hs
        exact hset _ _

theorem SchedInv.pollEnter {devices : List Device} {immediate : Bool} {timeout : Int}
    (h : SchedInv strict k) (hplain : (k.pc k.current).Plain) :
    SchedInv strict (k.pollEnter devices immediate timeout) := by
  unfold Kernel.pollEnter
  split
  next => exact h.sleepEnter hplain (by simp [Pc.Exiting]) rfl
  next => exact h.setPc_of_plain hplain (by simp [Pc.Exiting])

/-- Watching the devices of a poll registers the running task with some of them. -/
theorem SchedInv.pollRegister {call : PollCall} {phase : Phase}
    (h : SchedInv strict k) (hpc : k.pc k.current = .poll call phase) :
    SchedInv strict (k.pollRegister call.devices) := by
  have hf := h.fits k.current
  refine h.local
    { current := rfl, queue := rfl, numTasks := rfl, tasks := fun _ => id
      pc := fun _ _ => rfl
      waiter := fun d t ht hw => ?_, sleep := fun _ hs _ => hs
      stopped := fun _ _ => id, state := fun _ _ => .inl rfl } ?_ h.currentLive
  · simp only [Kernel.pollRegister] at hw
    split at hw
    next => exact absurd (Option.some.inj hw).symm ht
    next => exact hw
  · refine
      { waiter := fun d hw => ?_
        spec := hf.spec, stopped := hf.stopped, ended := hf.ended, swapper := hf.swapper }
    simp only [Kernel.pollRegister] at hw ⊢
    split at hw
    next hmem =>
      rw [hpc]
      exact hmem.1
    next => exact hf.waiter d hw

theorem SchedInv.pollLeave {call : PollCall} {phase : Phase}
    (h : SchedInv strict k) (hpc : k.pc k.current = .poll call phase) :
    SchedInv strict (k.pollLeave call) := by
  have hf := h.fits k.current
  rw [hpc] at hf
  have hwaiter : ∀ d, (k.pollUnregister call.devices).waiter d ≠ some k.current := by
    intro d hw
    simp only [Kernel.pollUnregister] at hw
    split at hw
    next => cases hw
    next hnot => exact hnot ⟨hf.waiter d hw, hw⟩
  have hothers : ∀ d t, t ≠ k.current →
      (k.pollUnregister call.devices).waiter d = some t → k.waiter d = some t := by
    intro d t _ hw
    simp only [Kernel.pollUnregister] at hw
    split at hw
    next => cases hw
    next => exact hw
  unfold Kernel.pollLeave
  split
  next hnone =>
    refine h.leaveWait
      { current := rfl, queue := rfl, numTasks := rfl, tasks := fun _ => id
        pc := fun _ _ => rfl, waiter := hothers, sleep := fun _ hs _ => hs
        stopped := fun _ _ => id, state := fun _ _ => .inl rfl }
      hwaiter (fun s hs ht => ?_) id (by simp [hpc]) (by simp [hpc])
    have hheld : call.spec = some s := hf.spec s hs ht
    rw [hnone] at hheld
    cases hheld
  next spec hsome =>
    refine h.leaveWait
      { current := rfl, queue := rfl, numTasks := rfl, tasks := fun _ => id
        pc := fun _ _ => rfl, waiter := hothers
        sleep := fun s hs _ => (List.mem_filter.mp hs).1
        stopped := fun _ _ => id, state := fun _ _ => .inl rfl }
      hwaiter (fun s hs ht => ?_) id (by simp [hpc]) (by simp [hpc])
    have hmem := List.mem_filter.mp hs
    have hheld : call.spec = some s := hf.spec s hmem.1 ht
    rw [hsome] at hheld
    simp [Option.some.inj hheld] at hmem

theorem SchedInv.pollLoop {call : PollCall} {phase : Phase}
    (h : SchedInv strict k) (hpc : k.pc k.current = .poll call phase)
    (hs : k.pollLoop call phase = .ok k') : SchedInv strict k' := by
  have hset : ∀ {k₁ : Kernel} state phase', SchedInv strict k₁ →
      k₁.pc k₁.current = .poll call phase →
      SchedInv strict ((k₁.setState state).setPc k₁.current (.poll call phase')) := by
    intro k₁ state phase' h₁ hpc₁
    have hn : ¬ (k₁.pc k₁.current).Exiting := by simp [hpc₁, Pc.Exiting]
    refine (h₁.setState hn).setPc ?_ (by simp)
    have hst : SchedInv strict (k₁.setState state) := h₁.setState hn
    have hf' := hst.fits k₁.current
    rw [show (k₁.setState state).pc k₁.current = .poll call phase from hpc₁] at hf'
    exact hf'.move (fun _ => id) (fun _ => id) (by simp) (by simp [Pc.Exiting]) (by simp)
  cases phase with
  | sched =>
      have hf := h.fits k.current
      rw [hpc] at hf
      refine h.schedule (schedule_spec hs) ?_ (by simp) (by simp)
      exact hf.move (fun _ => id) (fun _ => id) (by simp) (by simp [Pc.Exiting]) (by simp)
  | woken =>
      cases hs
      exact hset _ _ h hpc
  | check =>
      simp only [Kernel.pollLoop] at hs
      split at hs
      next =>
        cases hs
        exact h.pollLeave hpc
      next =>
        have h₁ := h.pollRegister hpc
        split at hs
        next =>
          cases hs
          exact h₁.pollLeave hpc
        next =>
          cases hs
          exact hset _ _ h₁ hpc

/-- A task that is registered anywhere has been born and has not died. -/
theorem SchedInv.live_of_holds {t : TaskId}
    (h : SchedInv strict k) (hhold : (∃ d, (k.pc t).HoldsWaiter d) ∨ ∃ s, (k.pc t).HoldsSpec s) :
    t < k.numTasks ∧ k.pc t ≠ .exited := by
  constructor
  · by_contra hlt
    rw [h.unborn t (Nat.le_of_not_lt hlt)] at hhold
    simp [Pc.HoldsWaiter, Pc.HoldsSpec] at hhold
  · intro he
    rw [he] at hhold
    simp [Pc.HoldsWaiter, Pc.HoldsSpec] at hhold

theorem SchedInv.deviceHandler {d : Device} (h : SchedInv strict k) :
    SchedInv strict (k.deviceHandler d) ∧
      (k.deviceHandler d).pc = k.pc ∧ (k.deviceHandler d).current = k.current := by
  have h₁ : SchedInv strict { k with ready := Function.update k.ready d true } :=
    h.outside rfl
  unfold Kernel.deviceHandler
  simp only
  split
  next => exact ⟨h₁, rfl, rfl⟩
  next t hw =>
    obtain ⟨hborn, hlive⟩ := h.live_of_holds (.inl ⟨d, (h.fits t).waiter d hw⟩)
    refine ⟨h₁.wake hborn fun _ => hlive, ?_, ?_⟩
    all_goals rw [wakeUpProcess_eq]

theorem SchedInv.wakeSleepers {specs : List SleepSpec}
    (h : SchedInv strict k) (hlive : ∀ s ∈ specs, s.task < k.numTasks ∧ k.pc s.task ≠ .exited) :
    SchedInv strict (k.wakeSleepers specs) ∧
      (k.wakeSleepers specs).pc = k.pc ∧ (k.wakeSleepers specs).current = k.current := by
  induction specs generalizing k with
  | nil => exact ⟨h, rfl, rfl⟩
  | cons spec specs ih =>
      have hspec := hlive spec (List.mem_cons_self ..)
      have h₁ := h.wake hspec.1 fun _ => hspec.2
      have heq := wakeUpProcess_eq k spec.task
      obtain ⟨h₂, hpc, hcur⟩ := ih h₁ (by
        rw [heq]
        exact fun s hs => hlive s (List.mem_cons_of_mem _ hs))
      refine ⟨h₂, hpc.trans ?_, hcur.trans ?_⟩
      all_goals rw [heq]

theorem SchedInv.sleepHandler {ticks : Nat} (h : SchedInv strict k) :
    SchedInv strict (k.sleepHandler ticks) ∧
      (k.sleepHandler ticks).pc = k.pc ∧ (k.sleepHandler ticks).current = k.current := by
  unfold Kernel.sleepHandler
  simp only
  refine SchedInv.wakeSleepers ?_ fun s hs => ?_
  · refine h.local
      { current := rfl, queue := rfl, numTasks := rfl, tasks := fun _ => id
        pc := fun _ _ => rfl, waiter := fun _ _ _ => id
        sleep := fun s hs _ => (List.mem_filter.mp hs).1
        stopped := fun _ _ => id, state := fun _ _ => .inl rfl } ?_ h.currentLive
    exact (h.fits _).mono (fun _ => id) (fun s hs _ => (List.mem_filter.mp hs).1) id (.inl rfl)
  · exact h.live_of_holds (.inr ⟨s, (h.fits s.task).spec s (List.mem_filter.mp hs).1 rfl⟩)

theorem SchedInv.irqReturn (h : SchedInv strict k) : SchedInv strict k.irqReturn := by
  unfold Kernel.irqReturn
  split
  next hbody =>
    refine h.setPc_of_plain ?_ (by simp [Pc.Exiting])
    rw [hbody.1]
    trivial
  next => exact h

/-! ### The stages of do_exit -/

/-- From one stage of `do_exit` to the next. -/
theorem SchedInv.nextStage {stage stage' : ExitStage}
    (h : SchedInv strict k) (hpc : k.pc k.current = .exit stage) :
    SchedInv strict (k.setPc k.current (.exit stage')) := by
  have hf := h.fits k.current
  rw [hpc] at hf
  exact h.setPc (hf.move (fun _ => id) (fun _ => id) (by simp) (fun _ => hf.ended trivial)
    (by simp)) (by simp)

theorem SchedInv.putSession (h : SchedInv strict k) : SchedInv strict k.putSession := by
  unfold Kernel.putSession
  split
  next => exact h.modTask id rfl
  next => exact h

theorem putSession_frame (k : Kernel) : k.putSession.pc = k.pc ∧ k.putSession.current = k.current := by
  unfold Kernel.putSession
  split <;> exact ⟨rfl, rfl⟩

theorem SchedInv.notifyParent (h : SchedInv strict k) (hs : k.notifyParent = .ok k') :
    SchedInv strict k' ∧ k'.pc = k.pc ∧ k'.current = k.current := by
  unfold Kernel.notifyParent at hs
  split at hs
  next => cases hs
  next =>
    split at hs
    next => cases hs
    next parent hget =>
      have hborn := h.listedBorn parent (getTaskFromPid_mem hget).1
      split at hs
      next => cases hs
      next =>
        split at hs
        next =>
          cases hs
          exact ⟨h.doWaitTask, rfl, rfl⟩
        next =>
          have hlog : SchedInv strict (k.logQueued parent) :=
            h.outside rfl
          split at hs
          next =>
            refine ⟨hlog.sendSigInfo hborn hs, ?_⟩
            rw [sendSigInfo_frame hs]
            exact ⟨rfl, rfl⟩
          next =>
            refine ⟨h.sendSigInfo hborn hs, ?_⟩
            rw [sendSigInfo_frame hs]
            exact ⟨rfl, rfl⟩

theorem SchedInv.reparentChildren (h : SchedInv strict k) : SchedInv strict k.reparentChildren := by
  refine h.quiet rfl rfl rfl rfl (fun _ => id) rfl rfl (fun t => ?_) (fun t => ?_)
  all_goals
    simp only [Kernel.reparentChildren]
    split
  · exact id
  · exact id
  · exact .inl rfl
  · exact .inl rfl

/-- When a zombie calls `schedule()` from `do_exit`, its `wakeup_current` flag is clear. -/
def FlagClear (k : Kernel) (l : Label) : Prop :=
  ∀ choice, l = .go choice → k.pc k.current = .exit .sched → k.cur.wakeupCurrent = false

theorem SchedInv.exitStage {stage : ExitStage}
    (h : SchedInv strict k) (hpc : k.pc k.current = .exit stage)
    (hflag : strict → stage = .sched → k.cur.wakeupCurrent = false)
    (hs : k.exitStage stage = .ok k') : SchedInv strict k' := by
  cases stage with
  | closing =>
      cases hs
      obtain ⟨hp, hc⟩ := putSession_frame k
      rw [← hc]
      exact h.putSession.nextStage (by rw [hp, hc]; exact hpc)
  | putSigactions =>
      simp only [Kernel.exitStage] at hs
      split at hs
      next => cases hs
      next k₁ hput =>
        cases hs
        obtain ⟨h₁, hp, hc⟩ := h.putSigactions hput
        rw [← hc]
        exact h₁.nextStage (by rw [hp, hc]; exact hpc)
  | putSiginfos =>
      simp only [Kernel.exitStage] at hs
      split at hs
      next => cases hs
      next k₁ hput =>
        cases hs
        obtain ⟨siginfos, -, rfl⟩ := putSiginfos_eq hput
        have h₁ : SchedInv strict (k.modTask k.current fun task =>
            { task with sigpending := { task.sigpending with siginfos := siginfos } }) :=
          h.modTask id rfl
        refine SchedInv.nextStage ?_ hpc
        exact h₁.outside rfl
  | notify =>
      simp only [Kernel.exitStage] at hs
      split at hs
      next => cases hs
      next k₁ hnotify =>
        cases hs
        obtain ⟨h₁, hp, hc⟩ := h.notifyParent hnotify
        rw [← hc]
        exact h₁.nextStage (by rw [hp, hc]; exact hpc)
  | reparent =>
      cases hs
      exact h.reparentChildren.nextStage hpc
  | sched =>
      have hf := h.fits k.current
      rw [hpc] at hf
      refine h.schedule (schedule_spec hs) ?_ (by simp) fun hst _ => ?_
      · exact hf.move (fun _ => id) (fun _ => id) (by simp) (fun _ => hf.ended trivial) (by simp)
      · -- a zombie is not `TASK_RUNNING`, and its flag is clear
        have hstate : k.cur.state ≠ .running := by
          rcases hf.ended trivial with hz | hd
          · simp [Kernel.cur, hz]
          · simp [Kernel.cur, hd]
        simp [Kernel.requeues, hstate, hflag hst rfl]

/-! ### Steps and runs -/

theorem SchedInv.goOn {choice : Bool}
    (h : SchedInv strict k)
    (hflag : strict → k.pc k.current = .exit .sched → k.cur.wakeupCurrent = false)
    (hs : k.goOn choice = .ok k') : SchedInv strict k' := by
  have hplain : ∀ {p : Pc}, k.pc k.current = p → p.Plain → (k.pc k.current).Plain :=
    fun hp hpl => hp ▸ hpl
  unfold Kernel.goOn at hs
  split at hs
  next hpc =>
    cases hs
    exact h.leave (hplain hpc trivial)
  next hpc =>
    split at hs
    next =>
      cases hs
      exact h
    next =>
      refine h.schedule (schedule_spec hs) ?_ (by simp) (by simp)
      rw [← hpc]
      exact h.fits _
  next =>
    cases hs
    exact h
  next hpc => exact h.deliverSignal (hplain hpc trivial) hs
  next hpc =>
    split at hs
    next =>
      cases hs
      exact h.setPc_of_plain (hplain hpc trivial) (by simp [Pc.Exiting])
    next => exact h.schedule_of_plain (hplain hpc trivial) (by simp [Pc.Exiting]) hs
  next hpc =>
    split at hs
    next =>
      cases hs
      have hf := h.fits k.current
      rw [hpc] at hf
      exact h.setPc (hf.move (fun _ => id) (fun _ => id) (fun _ _ => ⟨_, rfl⟩)
        (by simp [Pc.Exiting]) (by simp)) (by simp)
    next => cases hs
  next hpc =>
    have hf := h.fits k.current
    rw [hpc] at hf
    exact h.schedule (schedule_spec hs) (hf.move (fun _ => id) (fun _ => id)
      (fun _ _ => ⟨_, rfl⟩) (by simp [Pc.Exiting]) (by simp)) (by simp) (by simp)
  next hpc => exact h.readLoop hpc hs
  next hpc => exact h.nanosleepLoop hpc hs
  next hpc => exact h.pollLoop hpc hs
  next hpc =>
    exact h.waitLoop hpc (fun _ => trivial)
      (fun hf => h.doWaitSignal (hplain hpc trivial) hf) hs
  next hpc =>
    exact h.waitLoop hpc (fun _ => trivial)
      (fun hf => h.doWaitpgSignal (hplain hpc trivial) hf) hs
  next hpc =>
    cases hs
    exact h.execInstall (hplain hpc trivial)
  next hpc => exact h.exitStage hpc (fun hst hstage => hflag hst (hstage ▸ hpc)) hs
  next => cases hs

theorem SchedInv.finish {r : Except Fault Kernel}
    (hs : Kernel.finish r = .ok k')
    (hr : ∀ k₁, r = .ok k₁ → SchedInv strict k₁ ∧ (k₁.pc k₁.current).Plain) : SchedInv strict k' := by
  unfold Kernel.finish at hs
  split at hs
  next => cases hs
  next k₁ =>
    cases hs
    obtain ⟨h₁, hp⟩ := hr k₁ rfl
    exact h₁.leave hp

theorem SentFrom.plain (h : SentFrom strict k k') (hp : (k.pc k.current).Plain) :
    SchedInv strict k' ∧ (k'.pc k'.current).Plain := by
  refine ⟨h.1, ?_⟩
  rw [h.2]
  exact hp

theorem SchedInv.runCall {c : Call}
    (h : SchedInv strict k) (hp : (k.pc k.current).Plain) (hs : k.runCall c = .ok k') :
    SchedInv strict k' := by
  have hclone : ∀ {flags user k₁}, k.doClone flags user = .ok k₁ →
      SchedInv strict k₁ ∧ (k₁.pc k₁.current).Plain := by
    intro flags user k₁ hc
    obtain ⟨h₁, hcur, hpc⟩ := h.doClone hc
    exact ⟨h₁, by rw [hcur, hpc]; exact hp⟩
  cases c with
  | clone flags => exact SchedInv.finish hs fun _ hc => hclone hc
  | kernelThread => exact SchedInv.finish hs fun _ hc => hclone hc
  | execute =>
      simp only [Kernel.runCall] at hs
      split at hs
      next => cases hs
      next k₁ hc =>
        split at hs
        next =>
          cases hs
          exact h
        next => exact (hclone hc).1.doWait (hclone hc).2 hs
  | execve subsystem => exact h.execPut hp hs
  | exit status =>
      cases hs
      exact h.doExit hp
  | halt status =>
      cases hs
      exact h.doExit hp
  | threadReturn exitcode =>
      cases hs
      exact h.doExit hp
  | kill pid signum => exact SchedInv.finish hs fun _ hk => (sentFrom_kill h hk).plain hp
  | tgkill tgid tid signum =>
      exact SchedInv.finish hs fun _ hk => (sentFrom_tgkill h hk).plain hp
  | waitpid pid wnohang => exact h.doSysWaitpid hp hs
  | rtSigaction signum act =>
      simp only [Kernel.runCall] at hs
      split at hs
      next =>
        refine SchedInv.finish hs fun k₁ hk => ⟨h.setSigaction hk, ?_⟩
        rw [setSigaction_frame hk]
        exact hp
      next =>
        cases hs
        exact h.leave hp
  | rtSigprocmask how set =>
      cases hs
      have h₁ : SchedInv strict (k.sigprocmask how set) ∧
          ((k.sigprocmask how set).pc (k.sigprocmask how set).current).Plain := by
        unfold Kernel.sigprocmask
        split
        · exact ⟨h.modTask id rfl, hp⟩
        · exact ⟨h.modTask id rfl, hp⟩
        · exact ⟨h.modTask id rfl, hp⟩
        · exact ⟨h, hp⟩
      exact h₁.1.leave h₁.2
  | sigreturn oldmask =>
      cases hs
      have h₁ : SchedInv strict (k.setSigmask oldmask) := h.modTask id rfl
      exact h₁.leave hp
  | setsid =>
      cases hs
      have h₁ : SchedInv strict k.doSetsid ∧ (k.doSetsid.pc k.doSetsid.current).Plain := by
        unfold Kernel.doSetsid
        split
        next => exact ⟨h, hp⟩
        next =>
          have hm : SchedInv strict (k.modTask k.current fun task => { task with
              session := some { id := k.numSessions, sid := task.pid }, pgid := task.pid }) :=
            h.modTask id rfl
          exact ⟨hm.outside rfl, hp⟩
      exact h₁.1.leave h₁.2
  | setpgid pid pgid =>
      cases hs
      have h₁ : SchedInv strict (k.doSetpgid pid pgid) ∧
          ((k.doSetpgid pid pgid).pc (k.doSetpgid pid pgid).current).Plain := by
        unfold Kernel.doSetpgid
        simp only
        split
        next =>
          split
          next =>
            split
            next => exact ⟨h, hp⟩
            next => exact ⟨h.modTask id rfl, hp⟩
          next => exact ⟨h, hp⟩
        next => exact ⟨h, hp⟩
      exact h₁.1.leave h₁.2
  | read d =>
      cases hs
      exact h.readEnter hp
  | nanosleep time =>
      cases hs
      exact h.nanosleepEnter hp
  | poll devices immediate timeout =>
      cases hs
      exact h.pollEnter hp
  | exception signum =>
      exact SchedInv.finish hs fun _ hk => (sentFrom_current h hk).plain hp
  | forceSegv => exact SchedInv.finish hs fun _ hk => (sentFrom_force h hk).plain hp
  | kernelGetPendingSig signum =>
      cases hs
      exact h.modTask id rfl
  | kernelMaskSignal signum => exact h.setSigaction hs
  | kernelUnmaskSignal signum => exact h.setSigaction hs
  | other =>
      cases hs
      exact h.leave hp

/-- One step keeps the invariant of the scheduler. -/
theorem SchedInv.step {l : Label}
    (h : SchedInv strict k) (hflag : strict → FlagClear k l) (hstep : machine.Step k l k') :
    SchedInv strict k' := by
  cases step_cases hstep with
  | call hpc _ hs => exact h.runCall (by rw [hpc]; trivial) hs
  | go hs => exact h.goOn (fun hst => hflag hst _ rfl) hs
  | irqDevice d => exact h.deviceHandler.1.irqReturn
  | irqSleep ticks => exact h.sleepHandler.1.irqReturn
  | irqPit =>
      refine SchedInv.irqReturn ?_
      exact h.outside rfl
  | irqTty hsend => exact (sentFrom_pg h hsend).1.irqReturn

theorem SchedInv.boot : SchedInv strict boot where
  fits t :=
    { waiter := fun d hd => by cases hd
      spec := fun s hs => by cases hs
      stopped := fun hst => by
        by_cases ht : t = swapperTask <;> simp [Task.boot, bootTask, ht] at hst
      ended := fun he => by
        by_cases ht : t = swapperTask <;> simp [Task.boot, ht, Pc.Exiting] at he
      swapper := fun ht => by simp [Task.boot, ht] }
  nodup := by simp [Task.boot]
  current_notMem := by simp [Task.boot, swapperTask]
  queueLive := by simp [Task.boot, swapperTask]
  currentLive := by simp [Task.boot]
  exitCurrent t stage he := by
    by_cases ht : t = swapperTask <;> simp [Task.boot, ht] at he
  unborn t ht := by
    have hne : t ≠ swapperTask := by
      rintro rfl
      exact absurd ht (by decide)
    simp [Task.boot, hne]
  currentBorn := by decide
  queueBorn := by decide
  listedBorn := by decide
  swapperBorn := by decide

/-- The invariant of the scheduler along every run. -/
theorem SchedInv.reach {ok : Kernel → Label → Prop}
    (hflag : ∀ k l, ok k l → strict → FlagClear k l)
    (h : machine.Reach Init ok k) : SchedInv strict k :=
  h.invariant (fun _ h0 => h0 ▸ SchedInv.boot) fun _ l _ h₁ hok hs =>
    h₁.step (fun hst => hflag _ l hok hst) hs

end Functions
end Task
end JkxyKernel
