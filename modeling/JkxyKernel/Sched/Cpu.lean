import JkxyKernel.Task.Steps

/-!
# The processor and its run queue

`schedule` and `wake_up_process` once more, cut down to the state they share: the running
task, `schedule_queue`, and the three fields of a task record that decide who is put
back.  Unlike the model of the process subsystem, this one lets `kmalloc` fail:
`list_insert_back` then returns `-ENOMEM` and leaves the list alone, and both callers
ignore it.

With memory at hand the two functions are those of the process subsystem
(`cpu_wakeUpProcess`, `cpu_schedule`).
-/

namespace JkxyKernel
namespace Sched

open JkxyKernel.Task (TaskId TaskState swapperTask)

/-- `list_insert_back`; `mem` says whether `kmalloc` finds memory for the node. -/
def listInsertBack {α : Type} (mem : Bool) (list : List α) (value : α) : Option (List α) :=
  if mem then some (list ++ [value]) else none

/-- What `schedule` and `wake_up_process` read and write. -/
structure Cpu where
  current : TaskId
  scheduleQueue : List TaskId
  state : TaskId → TaskState
  wakeupCurrent : TaskId → Bool
  stopped : TaskId → Bool

namespace Cpu

/-- `wake_up_process` -/
def wakeUpProcess (c : Cpu) (mem : Bool) (t : TaskId) : Cpu :=
  if t = c.current then { c with wakeupCurrent := Function.update c.wakeupCurrent t true }
  else if t ∈ c.scheduleQueue then c
  else { c with scheduleQueue := (listInsertBack mem c.scheduleQueue t).getD c.scheduleQueue }

/-- Does `schedule` put its caller back on the queue? -/
def requeues (c : Cpu) : Bool :=
  c.current ≠ swapperTask ∧ c.stopped c.current = false ∧
    (c.state c.current = .running ∨ c.wakeupCurrent c.current = true)

/-- The first part of `schedule`. -/
def requeueCurrent (c : Cpu) (mem : Bool) : Cpu :=
  if c.requeues then
    { c with
      scheduleQueue :=
        (listInsertBack mem c.scheduleQueue c.current).getD c.scheduleQueue
      wakeupCurrent := Function.update c.wakeupCurrent c.current false }
  else c

/-- The second part of `schedule`: the first task of the queue, or the swapper. -/
def switchToNext (c : Cpu) : Cpu :=
  match c.scheduleQueue with
  | [] => { c with current := swapperTask }
  | t :: queue => { c with current := t, scheduleQueue := queue }

/-- `schedule` -/
def schedule (c : Cpu) (mem : Bool) : Cpu :=
  (c.requeueCurrent mem).switchToNext

/-- Write a task's `state`. -/
def setState (c : Cpu) (t : TaskId) (state : TaskState) : Cpu :=
  { c with state := Function.update c.state t state }

/-- Write a task's `stopped`. -/
def setStopped (c : Cpu) (t : TaskId) (stopped : Bool) : Cpu :=
  { c with stopped := Function.update c.stopped t stopped }

variable {c : Cpu} {mem : Bool} {t u : TaskId}

@[simp] theorem setState_current (s : TaskState) : (c.setState t s).current = c.current := rfl

@[simp] theorem setState_queue (s : TaskState) :
    (c.setState t s).scheduleQueue = c.scheduleQueue := rfl

@[simp] theorem setState_wakeup (s : TaskState) :
    (c.setState t s).wakeupCurrent = c.wakeupCurrent := rfl

@[simp] theorem setStopped_current (b : Bool) : (c.setStopped t b).current = c.current := rfl

@[simp] theorem setStopped_queue (b : Bool) :
    (c.setStopped t b).scheduleQueue = c.scheduleQueue := rfl

@[simp] theorem setStopped_wakeup (b : Bool) :
    (c.setStopped t b).wakeupCurrent = c.wakeupCurrent := rfl

@[simp] theorem wakeUpProcess_current : (c.wakeUpProcess mem t).current = c.current := by
  unfold wakeUpProcess
  split
  · rfl
  · split <;> rfl

theorem mem_insertBack {q : List TaskId} :
    u ∈ (listInsertBack mem q t).getD q ↔ u ∈ q ∨ mem = true ∧ u = t := by
  cases mem <;> simp [listInsertBack]

/-- The inversion lemma of `wake_up_process`. -/
theorem mem_wakeUpProcess :
    u ∈ (c.wakeUpProcess mem t).scheduleQueue ↔
      u ∈ c.scheduleQueue ∨ u = t ∧ t ≠ c.current ∧ mem = true := by
  unfold wakeUpProcess
  split
  next hcur => simp [hcur]
  next hne =>
    split
    next hmem =>
      constructor
      · exact .inl
      · rintro (h | ⟨rfl, -, -⟩)
        · exact h
        · exact hmem
    next =>
      rw [mem_insertBack]
      constructor
      · rintro (h | ⟨hm, rfl⟩)
        · exact .inl h
        · exact .inr ⟨rfl, hne, hm⟩
      · rintro (h | ⟨rfl, -, hm⟩)
        · exact .inl h
        · exact .inr ⟨hm, rfl⟩

theorem wakeUpProcess_wakeup (h : c.wakeupCurrent u = true) :
    (c.wakeUpProcess mem t).wakeupCurrent u = true := by
  unfold wakeUpProcess
  split
  · by_cases hu : u = t
    · simp [hu]
    · simpa [hu] using h
  · split <;> exact h

theorem nodup_snoc {q : List TaskId} (h : q.Nodup) (hnew : t ∉ q) : (q ++ [t]).Nodup := by
  refine List.nodup_append.mpr ⟨h, by simp, fun a ha b hb => ?_⟩
  rw [List.mem_singleton.mp hb]
  rintro rfl
  exact hnew ha

theorem wakeUpProcess_nodup (h : c.scheduleQueue.Nodup) :
    (c.wakeUpProcess mem t).scheduleQueue.Nodup := by
  unfold wakeUpProcess
  split
  · exact h
  · split
    · exact h
    next hmem =>
      cases mem with
      | true => simpa [listInsertBack] using nodup_snoc h hmem
      | false => simpa [listInsertBack] using h

/-- The queue `schedule` picks from. -/
def requeued (c : Cpu) (mem : Bool) : List TaskId :=
  (c.requeueCurrent mem).scheduleQueue

theorem mem_requeued :
    u ∈ c.requeued mem ↔ u ∈ c.scheduleQueue ∨
      u = c.current ∧ c.requeues = true ∧ mem = true := by
  unfold requeued requeueCurrent
  split
  next hr =>
    rw [mem_insertBack]
    constructor
    · rintro (h | ⟨hm, rfl⟩)
      · exact .inl h
      · exact .inr ⟨rfl, hr, hm⟩
    · rintro (h | ⟨rfl, -, hm⟩)
      · exact .inl h
      · exact .inr ⟨hm, rfl⟩
  next hr => simp [hr]

theorem requeued_nodup (h : c.scheduleQueue.Nodup) (hcur : c.current ∉ c.scheduleQueue) :
    (c.requeued mem).Nodup := by
  unfold requeued requeueCurrent
  split
  · cases mem with
    | true => simpa [listInsertBack] using nodup_snoc h hcur
    | false => simpa [listInsertBack] using h
  · exact h

/-- The inversion lemma of `schedule`: the head of the queue runs next, the swapper if
there is none. -/
theorem schedule_pick (c : Cpu) (mem : Bool) :
    c.requeued mem = (c.schedule mem).current :: (c.schedule mem).scheduleQueue ∨
      c.requeued mem = [] ∧ (c.schedule mem).current = swapperTask ∧
        (c.schedule mem).scheduleQueue = [] := by
  unfold schedule switchToNext requeued
  split
  next hempty => exact .inr ⟨hempty, rfl, hempty⟩
  next t queue hcons => exact .inl hcons

/-- Who stood in the queue stays there or runs. -/
theorem schedule_keeps (h : u ∈ c.requeued mem) :
    u ∈ (c.schedule mem).scheduleQueue ∨ (c.schedule mem).current = u := by
  rcases schedule_pick c mem with hq | ⟨hq, -, -⟩
  · rw [hq] at h
    rcases List.mem_cons.mp h with h | h
    · exact .inr h.symm
    · exact .inl h
  · rw [hq] at h
    cases h

theorem schedule_wakeup (hne : u ≠ c.current) :
    (c.schedule mem).wakeupCurrent u = c.wakeupCurrent u := by
  have hreq : (c.requeueCurrent mem).wakeupCurrent u = c.wakeupCurrent u := by
    unfold requeueCurrent
    split
    · simp [hne]
    · rfl
  unfold schedule switchToNext
  split <;> exact hreq

end Cpu

/-! ### The process subsystem -/

/-- The part of the kernel state that the scheduler looks at. -/
def cpuOf (k : Task.Kernel) : Cpu where
  current := k.current
  scheduleQueue := k.scheduleQueue
  state t := (k.task t).state
  wakeupCurrent t := (k.task t).wakeupCurrent
  stopped t := (k.task t).stopped

/-- Only the wake-up marks and the queue change. -/
theorem cpuOf_congr {k : Task.Kernel} {c : Cpu}
    (hcur : k.current = c.current) (hqueue : k.scheduleQueue = c.scheduleQueue)
    (hrecord : ∀ t, (k.task t).state = c.state t ∧
      (k.task t).wakeupCurrent = c.wakeupCurrent t ∧ (k.task t).stopped = c.stopped t) :
    cpuOf k = c := by
  cases c
  simp only [cpuOf, Cpu.mk.injEq]
  exact ⟨hcur, hqueue, funext fun t => (hrecord t).1, funext fun t => (hrecord t).2.1,
    funext fun t => (hrecord t).2.2⟩

/-- With memory at hand `wake_up_process` is that of the process subsystem. -/
theorem cpu_wakeUpProcess (k : Task.Kernel) (t : TaskId) :
    cpuOf (k.wakeUpProcess t) = (cpuOf k).wakeUpProcess true t := by
  unfold Task.Kernel.wakeUpProcess Cpu.wakeUpProcess
  by_cases hcur : t = k.current
  · rw [if_pos hcur, if_pos (show t = (cpuOf k).current from hcur)]
    refine cpuOf_congr rfl rfl fun u => ?_
    by_cases hu : u = t
    · subst hu
      simp [Task.Kernel.modTask, cpuOf]
    · simp [Task.Kernel.modTask, cpuOf, hu]
  · rw [if_neg hcur, if_neg (show ¬ t = (cpuOf k).current from hcur)]
    by_cases hmem : t ∈ k.scheduleQueue
    · rw [if_pos hmem, if_pos (show t ∈ (cpuOf k).scheduleQueue from hmem)]
    · rw [if_neg hmem, if_neg (show ¬ t ∈ (cpuOf k).scheduleQueue from hmem)]
      rfl

theorem cpu_requeueCurrent (k : Task.Kernel) :
    cpuOf k.requeueCurrent = (cpuOf k).requeueCurrent true := by
  unfold Task.Kernel.requeueCurrent Cpu.requeueCurrent
  by_cases hr : k.requeues = true
  · rw [if_pos hr, if_pos (show (cpuOf k).requeues = true from hr)]
    refine cpuOf_congr rfl rfl fun u => ?_
    by_cases hu : u = k.current
    · subst hu
      simp [Task.Kernel.modTask, cpuOf]
    · simp [Task.Kernel.modTask, cpuOf, hu]
  · rw [if_neg hr, if_neg (show ¬ (cpuOf k).requeues = true from hr)]

theorem cpu_switchToNext {k k' : Task.Kernel} (h : k.switchToNext = .ok k') :
    cpuOf k' = (cpuOf k).switchToNext := by
  unfold Task.Kernel.switchToNext at h
  unfold Cpu.switchToNext
  change _ = match k.scheduleQueue with
    | [] => { cpuOf k with current := swapperTask }
    | t :: queue => { cpuOf k with current := t, scheduleQueue := queue }
  cases hq : k.scheduleQueue with
  | nil =>
      rw [hq] at h
      rw [Task.switchTo_eq h]
      rfl
  | cons t queue =>
      rw [hq] at h
      rw [Task.switchTo_eq h]
      rfl

/-- With memory at hand `schedule` is that of the process subsystem. -/
theorem cpu_schedule {k k' : Task.Kernel} {after : Task.Pc} (h : k.schedule after = .ok k') :
    cpuOf k' = (cpuOf k).schedule true := by
  unfold Task.Kernel.schedule at h
  split at h
  next => cases h
  next k₁ hswitch =>
    have h₁ : cpuOf k₁ = (cpuOf k).schedule true := by
      rw [cpu_switchToNext hswitch, cpu_requeueCurrent]
      rfl
    rcases Task.resumed_cases h with rfl | ⟨freed, -, rfl⟩
    · exact h₁
    · exact h₁

end Sched
end JkxyKernel
