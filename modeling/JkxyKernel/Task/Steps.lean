import JkxyKernel.Lib.Search
import JkxyKernel.Task.System

/-!
# What the steps can do

Inversion lemmas for the functions that every invariant meets: `schedule`,
`send_sig_info` and the senders built on it, and `do_clone`; and one for the step of the
machine, which is a call, a piece of one, or an interrupt.  Each says once what can have
been done; the invariants of the later modules are derived from these.
-/

namespace JkxyKernel
namespace Task

open Kernel

/-! ### schedule -/

/-- The queue `schedule` picks from. -/
def requeued (k : Kernel) : List TaskId :=
  if k.requeues then k.scheduleQueue ++ [k.current] else k.scheduleQueue

/-- What one call of `schedule` does. -/
structure Scheduled (k : Kernel) (after : Pc) (k' : Kernel) : Prop where
  /-- Nothing else changes. -/
  frame : k' = { k with
    pc := Function.update k.pc k.current after
    task := k'.task
    scheduleQueue := k'.scheduleQueue
    current := k'.current
    schedulePitCounter := k'.schedulePitCounter
    freed := k'.freed
    freeTasks := k'.freeTasks }
  /-- Only the flag of the caller is touched. -/
  task : ∀ t, k'.task t = k.task t ∨
    t = k.current ∧ k'.task t = { k.task t with wakeupCurrent := false }
  /-- The first of the queue runs next, the swapper if there is none. -/
  pick : requeued k = k'.current :: k'.scheduleQueue ∨
    requeued k = [] ∧ k'.current = swapperTask ∧ k'.scheduleQueue = []
  /-- A task that was parked in `schedule` frees the stacks that wait for it. -/
  freeTasks : k'.freed = k.freed ∧ k'.freeTasks = k.freeTasks ∨
    freeStacks k.freeTasks k.freed = .ok k'.freed ∧ k'.freeTasks = []

theorem switchTo_eq {k k' : Kernel} {t : TaskId} (h : k.switchTo t = .ok k') :
    k' = { k with current := t, schedulePitCounter := k'.schedulePitCounter } := by
  unfold switchTo at h
  split at h
  next heq =>
    cases h
    rw [heq]
  next =>
    split at h
    next => cases h
    next =>
      cases h
      rfl

theorem resumed_cases {k k' : Kernel} (h : k.resumed = .ok k') :
    k' = k ∨
      ∃ freed, freeStacks k.freeTasks k.freed = .ok freed ∧
        k' = { k with freed := freed, freeTasks := [] } := by
  unfold resumed doFreeTasks at h
  split at h
  next =>
    cases h
    exact .inl rfl
  next =>
    split at h
    next => cases h
    next freed hfree =>
      cases h
      exact .inr ⟨freed, hfree, rfl⟩

theorem requeueCurrent_eq (k : Kernel) :
    k.requeueCurrent = { k with
      task := k.requeueCurrent.task
      scheduleQueue := requeued k } := by
  unfold requeueCurrent requeued
  split <;> rfl

theorem requeueCurrent_task (k : Kernel) (t : TaskId) :
    k.requeueCurrent.task t = k.task t ∨
      t = k.current ∧ k.requeueCurrent.task t = { k.task t with wakeupCurrent := false } := by
  unfold requeueCurrent
  split
  next =>
    by_cases ht : t = k.current
    · subst ht
      exact .inr ⟨rfl, by simp [modTask]⟩
    · exact .inl (by simp [modTask, ht])
  next => exact .inl rfl

theorem requeued_setPc (k : Kernel) (t : TaskId) (p : Pc) :
    requeued (k.setPc t p) = requeued k := by
  rfl

/-- The inversion lemma of `schedule`. -/
theorem schedule_spec {k k' : Kernel} {after : Pc} (h : k.schedule after = .ok k') :
    Scheduled k after k' := by
  unfold schedule at h
  split at h
  next => cases h
  next k₁ hswitch =>
    have hq := requeueCurrent_eq (k.setPc k.current after)
    have ht := requeueCurrent_task (k.setPc k.current after)
    rw [requeued_setPc] at hq
    generalize (k.setPc k.current after).requeueCurrent = r at hswitch hq ht
    -- the state right after the switch
    have hk₁ : ∃ queue, k₁ = { k with
        pc := Function.update k.pc k.current after
        task := r.task
        scheduleQueue := queue
        current := k₁.current
        schedulePitCounter := k₁.schedulePitCounter } ∧
        (requeued k = k₁.current :: queue ∨
          requeued k = [] ∧ k₁.current = swapperTask ∧ queue = []) := by
      unfold switchToNext at hswitch
      split at hswitch
      next hempty =>
        have heq := switchTo_eq hswitch
        rw [hq] at hempty heq
        exact ⟨[], by rw [heq]; simpa [setPc] using hempty,
          .inr ⟨hempty, by rw [heq], rfl⟩⟩
      next t queue hcons =>
        have heq := switchTo_eq hswitch
        rw [hq] at hcons heq
        exact ⟨queue, by rw [heq]; rfl, .inl (by rw [heq]; exact hcons)⟩
    obtain ⟨queue, hk₁, hpick⟩ := hk₁
    have htask : ∀ t, k₁.task t = k.task t ∨
        t = k.current ∧ k₁.task t = { k.task t with wakeupCurrent := false } := by
      rw [hk₁]
      exact ht
    have hqueue : k₁.scheduleQueue = queue := by rw [hk₁]
    have hfree : k₁.freed = k.freed ∧ k₁.freeTasks = k.freeTasks := by
      constructor <;> rw [hk₁]
    rcases resumed_cases h with heq | ⟨freed, hfreed, heq⟩
    · subst heq
      exact ⟨by rw [hk₁], htask, by rw [hqueue]; exact hpick, .inl hfree⟩
    · have hframe : k' = { k with
          pc := Function.update k.pc k.current after
          task := k'.task
          scheduleQueue := k'.scheduleQueue
          current := k'.current
          schedulePitCounter := k'.schedulePitCounter
          freed := k'.freed
          freeTasks := k'.freeTasks } := by
        rw [heq, hk₁]
      refine ⟨hframe, ?_, ?_, .inr ⟨?_, ?_⟩⟩
      · rw [heq]; exact htask
      · rw [heq]; rw [← hqueue] at hpick; exact hpick
      · rw [heq, ← hfree.1, ← hfree.2]; exact hfreed
      · rw [heq]

/-! ### wake_up_process -/

theorem wakeUpProcess_eq (k : Kernel) (t : TaskId) :
    k.wakeUpProcess t = { k with
      task := (k.wakeUpProcess t).task
      scheduleQueue := (k.wakeUpProcess t).scheduleQueue } := by
  unfold wakeUpProcess
  split
  next => rfl
  next => split <;> rfl

theorem wakeUpProcess_task (k : Kernel) (t t' : TaskId) :
    (k.wakeUpProcess t).task t' = k.task t' ∨
      t' = k.current ∧ (k.wakeUpProcess t).task t' =
        { k.task t' with wakeupCurrent := true } := by
  unfold wakeUpProcess
  split
  next heq =>
    by_cases ht : t' = k.current
    · subst ht
      exact .inr ⟨rfl, by simp [modTask, heq]⟩
    · exact .inl (by simp [modTask, heq, ht])
  next => split <;> exact .inl rfl

theorem wakeUpProcess_queue (k : Kernel) (t t' : TaskId) :
    t' ∈ (k.wakeUpProcess t).scheduleQueue ↔
      t' ∈ k.scheduleQueue ∨ t' = t ∧ t ≠ k.current := by
  unfold wakeUpProcess
  split
  next heq => simp [modTask, heq]
  next hne =>
    split
    next hmem =>
      constructor
      · exact .inl
      · rintro (h | ⟨rfl, -⟩)
        · exact h
        · exact hmem
    next hmem => simp [hne]

/-! ### send_sig_info -/

/-- The inversion lemma of `send_sig_info`: it does nothing, continues a stopped task,
or records the signal and wakes an interruptible sleeper. -/
theorem sendSigInfo_cases {k k' : Kernel} {t : TaskId} {info : Siginfo}
    (h : k.sendSigInfo t info = .ok k') :
    k' = k ∨
    (k.task t).stopped = true ∧
      k' = (k.modTask t fun task => { task with stopped := false }).wakeUpProcess t ∨
    ∃ act siginfos, k.sigactionOf t info.signo = .ok act ∧ act.sigaction ≠ .ign ∧
      (k.task t).sigpending.pendingMask &&& maskval info.signo = 0 ∧
      (k.task t).sigpending.siginfos.set info.signo (some info) = .ok siginfos ∧
      ∃ kp, kp = (k.modTask t fun task => { task with
          sigpending := { task.sigpending with
            pendingMask := task.sigpending.pendingMask ||| maskval info.signo
            siginfos := siginfos } }) ∧
        (k' = kp ∨ (k.task t).state = .interruptible ∧ k' = kp.wakeUpProcess t) := by
  unfold sendSigInfo at h
  split at h
  next => cases h
  next =>
    split at h
    next => cases h; exact .inl rfl
    next hmask =>
      split at h
      next => cases h
      next act hact =>
        split at h
        next => cases h; exact .inl rfl
        next hign =>
          split at h
          next hcont =>
            cases h
            unfold sendCont
            split
            next hst => exact .inr (.inl ⟨hst, rfl⟩)
            next => exact .inl rfl
          next =>
            split at h
            next => cases h
            next kp hpost =>
              unfold postSignal at hpost
              split at hpost
              next => cases hpost
              next siginfos hset =>
                cases hpost
                refine .inr (.inr ⟨act, siginfos, hact, hign, by simpa using hmask, hset,
                  _, rfl, ?_⟩)
                split at h
                next hst =>
                  cases h
                  exact .inr ⟨hst, rfl⟩
                next =>
                  cases h
                  exact .inl rfl

/-- Only records and the queue change when a signal is sent. -/
theorem sendSigInfo_frame {k k' : Kernel} {t : TaskId} {info : Siginfo}
    (h : k.sendSigInfo t info = .ok k') :
    k' = { k with task := k'.task, scheduleQueue := k'.scheduleQueue } := by
  rcases sendSigInfo_cases h with rfl | ⟨-, rfl⟩ | ⟨_, _, _, _, _, _, kp, hkp, rfl | ⟨-, rfl⟩⟩
  · rfl
  · exact wakeUpProcess_eq _ t
  · rw [hkp]; rfl
  · rw [wakeUpProcess_eq kp t, hkp]; rfl

/-- A part of the task record that sending a signal does not touch. -/
def Unsent {α : Type} (field : TaskStruct → α) : Prop :=
  ∀ (x : TaskStruct) (stopped wakeup : Bool) (pending : Sigpending),
    field { x with stopped := stopped, wakeupCurrent := wakeup, sigpending := pending } = field x

/-- Sending a signal touches only the pending signals and the two flags of a record. -/
theorem sendSigInfo_unsent {α : Type} (field : TaskStruct → α) (hf : Unsent field)
    {k k' : Kernel} {t : TaskId} {info : Siginfo}
    (h : k.sendSigInfo t info = .ok k') (t' : TaskId) :
    field (k'.task t') = field (k.task t') := by
  have hmod : ∀ f : TaskStruct → TaskStruct, (∀ x, field (f x) = field x) →
      field ((k.modTask t f).task t') = field (k.task t') := by
    intro f hfx
    by_cases ht : t' = t
    · subst ht
      simp [modTask, hfx]
    · simp [modTask, ht]
  have hwake : ∀ k₁ : Kernel, field ((k₁.wakeUpProcess t).task t') = field (k₁.task t') := by
    intro k₁
    rcases wakeUpProcess_task k₁ t t' with h' | ⟨-, h'⟩
    · rw [h']
    · rw [h']
      exact hf _ _ _ _
  rcases sendSigInfo_cases h with rfl | ⟨-, rfl⟩ | ⟨_, _, _, _, _, _, kp, rfl, rfl | ⟨-, rfl⟩⟩
  · rfl
  · rw [hwake]
    exact hmod _ fun x => hf x false x.wakeupCurrent x.sigpending
  · exact hmod _ fun x => hf x x.stopped x.wakeupCurrent _
  · rw [hwake]
    exact hmod _ fun x => hf x x.stopped x.wakeupCurrent _

/-- Sending a signal neither frees nor revives an array of records. -/
theorem sendSigInfo_mem {k k' : Kernel} {t : TaskId} {info : Siginfo}
    (h : k.sendSigInfo t info = .ok k') (t' : TaskId) :
    (k'.task t').sigpending.siginfos.mem = .freed ↔
      (k.task t').sigpending.siginfos.mem = .freed := by
  have hwake : ∀ k₁ : Kernel, ((k₁.wakeUpProcess t).task t').sigpending =
      (k₁.task t').sigpending := by
    intro k₁
    rcases wakeUpProcess_task k₁ t t' with h' | ⟨-, h'⟩ <;> rw [h']
  rcases sendSigInfo_cases h with
    rfl | ⟨-, rfl⟩ | ⟨_, siginfos, _, _, _, hset, kp, rfl, hk'⟩
  · rfl
  · rw [hwake]
    by_cases ht : t' = t
    · subst ht
      simp [modTask]
    · simp [modTask, ht]
  · have hmem := (Structure.Array.set_spec hset).1
    rcases hk' with rfl | ⟨-, rfl⟩
    all_goals
      try rw [hwake]
      by_cases ht : t' = t
      · subst ht
        simpa [modTask] using hmem
      · simp [modTask, ht]

/-- No task changes its state when a signal is sent. -/
theorem sendSigInfo_state {k k' : Kernel} {t : TaskId} {info : Siginfo}
    (h : k.sendSigInfo t info = .ok k') (t' : TaskId) :
    (k'.task t').state = (k.task t').state :=
  sendSigInfo_unsent TaskStruct.state (fun _ _ _ _ => rfl) h t'

section Senders

variable {P : Kernel → Prop} {k k' : Kernel} {info : Siginfo}

/-- What every single send keeps, sending to a list of tasks keeps. -/
theorem sendSigInfoAll_rule {ts : List TaskId}
    (hstep : ∀ k k' t, P k → t ∈ ts → k.sendSigInfo t info = .ok k' → P k')
    (hP : P k) (h : k.sendSigInfoAll info ts = .ok k') : P k' := by
  induction ts generalizing k with
  | nil =>
      simp only [sendSigInfoAll, Except.ok.injEq] at h
      exact h ▸ hP
  | cons t ts ih =>
      simp only [sendSigInfoAll] at h
      split at h
      next => cases h
      next k₁ hsend =>
        exact ih (fun k k' t' hk ht' => hstep k k' t' hk (List.mem_cons_of_mem _ ht'))
          (hstep _ _ _ hP (List.mem_cons_self ..) hsend) h

theorem getTaskFromPid_mem {k : Kernel} {pid : Nat} {t : TaskId}
    (h : k.getTaskFromPid pid = some t) :
    t ∈ k.tasks ∧ (k.task t).pid = pid % 2 ^ 16 := by
  unfold getTaskFromPid at h
  split at h
  next => cases h
  next =>
    have hp := List.find?_some h
    exact ⟨List.mem_of_find?_eq_some h, by simpa using hp⟩

variable (hstep : ∀ k₁ k₂ t, P k₁ → t ∈ k.tasks → k₁.sendSigInfo t info = .ok k₂ → P k₂)
include hstep

theorem sendSigInfoPg_rule {pgid : Nat}
    (hP : P k) (h : k.sendSigInfoPg pgid info = .ok k') : P k' := by
  unfold sendSigInfoPg at h
  split at h
  next =>
    cases h
    exact hP
  next leader hleader =>
    split at h
    next => exact hstep _ _ _ hP (getTaskFromPid_mem hleader).1 h
    next =>
      exact sendSigInfoAll_rule
        (fun k₁ k₂ t h₁ ht h₂ => hstep k₁ k₂ t h₁ (List.mem_filter.mp ht).1 h₂) hP h

end Senders

/-- Writing a signal action changes nothing else. -/
theorem setSigaction_frame {k k' : Kernel} {signum : Nat} {act : Sigaction}
    (h : k.setSigaction signum act = .ok k') :
    k' = k.modSigactions k.cur.sigactions fun a =>
      { a with sigactions := Function.update a.sigactions signum act } := by
  unfold setSigaction at h
  split at h
  next => cases h
  next =>
    split at h
    next => cases h
    next =>
      cases h
      rfl

/-- The record that `kill` and `tgkill` send. -/
def killInfo (k : Kernel) (signum : Nat) : Siginfo where
  signo := signum
  code := .siUser
  pid := k.cur.pid
  status := 0

section Killers

variable {P : Kernel → Prop} {k k' : Kernel} {signum : Nat}
variable (hstep : ∀ k₁ k₂ t, P k₁ → t ∈ k.tasks →
  k₁.sendSigInfo t (killInfo k signum) = .ok k₂ → P k₂)
include hstep

/-- What sending to listed tasks keeps, `kill` keeps. -/
theorem kill_rule {pid : Int} (hP : P k) (h : k.kill pid signum = .ok k') : P k' := by
  unfold Kernel.kill at h
  simp only at h
  split at h
  next => cases h; exact hP
  next =>
    split at h
    next =>
      split at h
      next => cases h; exact hP
      next =>
        refine sendSigInfoAll_rule (fun k₁ k₂ t h₁ ht h₂ => ?_) hP h
        exact hstep k₁ k₂ t h₁ (List.mem_filter.mp ht).1 h₂
    next =>
      split at h
      next => cases h; exact hP
      next t hget =>
        split at h
        next => cases h; exact hP
        next => exact hstep _ _ _ hP (getTaskFromPid_mem hget).1 h

/-- What sending to listed tasks keeps, `tgkill` keeps. -/
theorem tgkill_rule {tgid tid : Int} (hP : P k) (h : k.tgkill tgid tid signum = .ok k') :
    P k' := by
  unfold Kernel.tgkill at h
  simp only at h
  split at h
  next => cases h; exact hP
  next =>
    split at h
    next => cases h; exact hP
    next =>
      split at h
      next => cases h; exact hP
      next t hget =>
        split at h
        next => cases h; exact hP
        next => exact hstep _ _ _ hP (getTaskFromPid_mem hget).1 h

end Killers

/-! ### do_exit -/

/-- Telling the parent: the task reaps itself, or a signal goes to the parent. -/
theorem notifyParent_cases {k k' : Kernel} (h : k.notifyParent = .ok k') :
    k' = k.doWaitTask k.current k.cur.pid ∨
      ∃ parent k₁, (k₁ = k ∨ k₁ = k.logQueued parent) ∧
        k₁.sendSigInfo parent k.exitSiginfo = .ok k' := by
  unfold notifyParent at h
  split at h
  next => cases h
  next =>
    split at h
    next => cases h
    next parent _ =>
      split at h
      next => cases h
      next =>
        split at h
        next =>
          cases h
          exact .inl rfl
        next =>
          split at h
          next => exact .inr ⟨parent, _, .inr rfl, h⟩
          next => exact .inr ⟨parent, _, .inl rfl, h⟩

theorem notifyParent_frame {k k' : Kernel} (h : k.notifyParent = .ok k') :
    k'.pc = k.pc ∧ k'.current = k.current := by
  rcases notifyParent_cases h with rfl | ⟨parent, k₁, rfl | rfl, hs⟩
  · exact ⟨rfl, rfl⟩
  all_goals
    rw [sendSigInfo_frame hs]
    exact ⟨rfl, rfl⟩

/-! ### Giving up -/

section GivingUp

variable {k k' : Kernel}

/-- The block loses a reference, and is freed with the last one. -/
theorem putSigactions_eq (h : k.putSigactions = .ok k') :
    k' = k.modSigactions k.cur.sigactions fun block =>
      { block with
        refcount := block.refcount - 1
        freed := decide (block.refcount - 1 = 0) } := by
  simp only [putSigactions] at h
  split at h
  next => cases h
  next =>
    cases h
    rfl

theorem putSigactions_frame (h : k.putSigactions = .ok k') :
    k' = { k with sigactions := k'.sigactions } := by
  rw [putSigactions_eq h]
  rfl

/-- The records of the signals are freed, and nothing else is. -/
theorem putSiginfos_eq (h : k.putSiginfos = .ok k') :
    ∃ siginfos, k.cur.sigpending.siginfos.destroy = .ok siginfos ∧
      k' = { k.modTask k.current fun task =>
          { task with sigpending := { task.sigpending with siginfos := siginfos } } with
        log := if siginfos.mem = .freed then .infosFreed k.current :: k.log else k.log } := by
  simp only [putSiginfos] at h
  split at h
  next => cases h
  next siginfos hdestroy =>
    cases h
    exact ⟨siginfos, hdestroy, rfl⟩

end GivingUp

/-! ### next_pid -/

/-- `get_task_from_pid` finds nobody. -/
def Kernel.pidFree (k : Kernel) (pid : Nat) : Bool :=
  (k.getTaskFromPid pid).isNone

section NextPid

open Search

variable {k : Kernel} {pid : Nat}

/-- `next_pid` is a search with a counter that goes round. -/
theorem nextPidFrom_eq (k : Kernel) (rounds start : Nat) :
    k.nextPidFrom rounds start = searchFrom succPid k.pidFree rounds start := by
  induction rounds generalizing start with
  | zero => rfl
  | succ rounds ih =>
      simp only [Kernel.nextPidFrom, searchFrom, Kernel.pidFree, ih]
      rfl

theorem succPid_eq (pid : Nat) : succPid pid = cycle looppid maxpid pid := rfl

theorem pidFree_iff (hle : pid ≤ maxpid) :
    k.pidFree pid = true ↔ ∀ t ∈ k.tasks, (k.task t).pid ≠ pid := by
  have hmod : pid % 2 ^ 16 = pid := Nat.mod_eq_of_lt (by simp only [maxpid] at hle; omega)
  simp only [Kernel.pidFree, Kernel.getTaskFromPid, hmod, if_neg (Nat.not_lt.mpr hle),
    Option.isNone_iff_eq_none, List.find?_eq_none, decide_eq_true_eq, ne_eq]

end NextPid

/-! ### Labels -/

/-- What one step of the machine runs. -/
inductive Stepped (k : Kernel) : Label → Kernel → Prop
  | call {c k'} (hpc : k.pc k.current = .body) (hown : c.namesOwn = true)
      (hs : k.runCall c = .ok k') : Stepped k (.call c) k'
  | go {choice k'} (hs : k.goOn choice = .ok k') : Stepped k (.go choice) k'
  | irqDevice (d) : Stepped k (.irqDevice d) (k.deviceHandler d).irqReturn
  | irqSleep (ticks) : Stepped k (.irqSleep ticks) (k.sleepHandler ticks).irqReturn
  | irqPit : Stepped k .irqPit
      ({ k with schedulePitCounter := k.schedulePitCounter + 1 } : Kernel).irqReturn
  | irqTty {pgid k₁}
      (hs : k.sendSigInfoPg pgid { signo := SIGINT, code := .siKernel, pid := 0, status := 0 } =
        .ok k₁) : Stepped k (.irqTty pgid) k₁.irqReturn

section Labels

variable {k k' : Kernel} {l : Label} {choice : Bool} {e : Fault}

theorem step_cases (h : machine.Step k l k') : Stepped k l k' := by
  obtain ⟨hen, hs⟩ := h
  change k.enabledLabel l = true at hen
  change k.execLabel l = .ok k' at hs
  simp only [execLabel] at hs
  split at hs
  next => cases hs
  next =>
    cases l with
    | call c =>
        simp only [enabledLabel, decide_eq_true_eq] at hen
        exact .call hen.1 hen.2.2.2 hs
    | go choice => exact .go hs
    | irqDevice d =>
        cases hs
        exact .irqDevice d
    | irqSleep ticks =>
        cases hs
        exact .irqSleep ticks
    | irqPit =>
        cases hs
        exact .irqPit
    | irqTty pgid =>
        simp only at hs
        split at hs
        next => cases hs
        next hsend =>
          cases hs
          exact .irqTty hsend

theorem step_go (h : machine.Step k (.go choice) k') : k.goOn choice = .ok k' := by
  cases step_cases h with
  | go hs => exact hs

theorem faults_go (h : machine.Faults k (.go choice) e) :
    e = .useAfterFree ∨ k.goOn choice = .error e := by
  have hexec := h.2
  change k.execLabel (.go choice) = .error e at hexec
  simp only [execLabel] at hexec
  split at hexec
  next =>
    cases hexec
    exact .inl rfl
  next => exact .inr hexec

end Labels

end Task
end JkxyKernel
