import JkxyKernel.Sched.Cpu

/-!
# The discipline of the run queue

The machine of this module interleaves calls of `schedule` and `wake_up_process`, from
tasks and from interrupts, with any writes to the states of the tasks.  `wake_up_process`
compares with `current` before it disables interrupts; only the running code changes
`current`, so a call is one step all the same.

Next to the processor the state keeps a record of the tasks that are owed the processor
(`owed`): those that entered `schedule` runnable, and those that were woken while
another task was running.  The record is no part of the kernel.

The queue never holds a task twice and never the running one.  A task in the record is
on the queue, as long as `kmalloc` finds the memory for its node; otherwise the task is
lost, since both callers drop the `-ENOMEM` of `list_insert_back`.
-/

namespace JkxyKernel
namespace Sched

open JkxyKernel.Task (TaskId TaskState swapperTask)

/-- The processor, and the tasks that are owed it. -/
structure Ledger where
  cpu : Cpu
  owed : TaskId → Bool

/-- What can happen to the run queue, and around it. -/
inductive Op
  | schedule (mem : Bool)
  | wakeUpProcess (t : TaskId) (mem : Bool)
  /-- Some code writes the state of a task. -/
  | setState (t : TaskId) (state : TaskState)
  /-- Some code writes the stop mark of a task. -/
  | setStopped (t : TaskId) (stopped : Bool)
  deriving DecidableEq, Repr

/-- A task other than the swapper, unstopped, and running or with a wake-up recorded. -/
def Runnable (c : Cpu) (t : TaskId) : Prop :=
  t ≠ swapperTask ∧ c.stopped t = false ∧ (c.state t = .running ∨ c.wakeupCurrent t = true)

instance (c : Cpu) (t : TaskId) : Decidable (Runnable c t) :=
  inferInstanceAs (Decidable (_ ∧ _ ∧ (_ ∨ _)))

namespace Ledger

/-- `schedule`, with the record kept. -/
def schedule (s : Ledger) (mem : Bool) : Ledger :=
  let cpu := s.cpu.schedule mem
  { cpu := cpu
    owed := fun t =>
      t ≠ cpu.current ∧ (s.owed t = true ∨ t = s.cpu.current ∧ Runnable s.cpu t) }

/-- `wake_up_process`, with the record kept. -/
def wakeUpProcess (s : Ledger) (t : TaskId) (mem : Bool) : Ledger where
  cpu := s.cpu.wakeUpProcess mem t
  owed u := s.owed u = true ∨ u = t ∧ t ≠ s.cpu.current

end Ledger

/-- The run queue under any interleaving of its callers. -/
def machine : Machine Ledger Op Fault where
  enabled _ _ := true
  exec
    | .schedule mem, s => .ok (s.schedule mem)
    | .wakeUpProcess t mem, s => .ok (s.wakeUpProcess t mem)
    | .setState t state, s => .ok { s with cpu := s.cpu.setState t state }
    | .setStopped t stopped, s => .ok { s with cpu := s.cpu.setStopped t stopped }

/-- The swapper is running, nobody is queued or owed anything. -/
def Init (s : Ledger) : Prop :=
  s.cpu.current = swapperTask ∧ s.cpu.scheduleQueue = [] ∧ ∀ t, s.owed t = false

/-- Where the run queue needs a new node, there is memory for it. -/
def HasMemory (s : Ledger) : Op → Prop
  | .schedule mem => Runnable s.cpu s.cpu.current → mem = true
  | .wakeUpProcess t mem =>
      t ≠ s.cpu.current → t ∉ s.cpu.scheduleQueue → mem = true
  | _ => True

/-- The queue holds no task twice, nor the running one. -/
structure QueueInv (c : Cpu) : Prop where
  nodup : c.scheduleQueue.Nodup
  current_notMem : c.current ∉ c.scheduleQueue

/-- Who is owed the processor is queued. -/
def Served (s : Ledger) : Prop :=
  ∀ t, s.owed t = true → t ∈ s.cpu.scheduleQueue

section Steps

variable {s s' : Ledger} {mem : Bool} {t : TaskId} {op : Op}

theorem runnable_iff {c : Cpu} : Runnable c c.current ↔ c.requeues = true := by
  simp [Runnable, Cpu.requeues]

theorem QueueInv.schedule {c : Cpu} (h : QueueInv c) : QueueInv (c.schedule mem) := by
  have hnodup : (c.requeued mem).Nodup := Cpu.requeued_nodup h.nodup h.current_notMem
  rcases Cpu.schedule_pick c mem with hq | ⟨-, -, hq⟩
  · rw [hq] at hnodup
    exact ⟨(List.nodup_cons.mp hnodup).2, (List.nodup_cons.mp hnodup).1⟩
  · constructor
    · rw [hq]
      exact List.nodup_nil
    · rw [hq]
      exact List.not_mem_nil

theorem QueueInv.wakeUpProcess {c : Cpu} (h : QueueInv c) :
    QueueInv (c.wakeUpProcess mem t) := by
  refine ⟨Cpu.wakeUpProcess_nodup h.nodup, ?_⟩
  rw [Cpu.mem_wakeUpProcess, Cpu.wakeUpProcess_current]
  rintro (hmem | ⟨heq, hne, -⟩)
  · exact h.current_notMem hmem
  · exact hne heq.symm

/-- Every step keeps the discipline of the queue, memory or not. -/
theorem QueueInv.step (h : QueueInv s.cpu) (hs : machine.Step s op s') : QueueInv s'.cpu := by
  obtain ⟨-, hex⟩ := hs
  cases op with
  | schedule mem =>
      cases hex
      exact h.schedule
  | wakeUpProcess t mem =>
      cases hex
      exact h.wakeUpProcess
  | setState t state =>
      cases hex
      exact ⟨h.nodup, h.current_notMem⟩
  | setStopped t stopped =>
      cases hex
      exact ⟨h.nodup, h.current_notMem⟩

/-- With memory every step serves whom it owes the processor. -/
theorem Served.step (h : Served s) (hok : HasMemory s op) (hs : machine.Step s op s') :
    Served s' := by
  obtain ⟨-, hex⟩ := hs
  cases op with
  | schedule mem =>
      cases hex
      intro u hu
      simp only [Ledger.schedule, decide_eq_true_eq] at hu
      obtain ⟨hne, howed⟩ := hu
      have hmem : u ∈ s.cpu.requeued mem := by
        rw [Cpu.mem_requeued]
        rcases howed with howed | ⟨rfl, hrun⟩
        · exact .inl (h u howed)
        · exact .inr ⟨rfl, runnable_iff.mp hrun, hok hrun⟩
      rcases Cpu.schedule_keeps hmem with hq | hcur
      · exact hq
      · exact absurd hcur.symm hne
  | wakeUpProcess t mem =>
      cases hex
      intro u hu
      simp only [Ledger.wakeUpProcess, decide_eq_true_eq] at hu
      change u ∈ (s.cpu.wakeUpProcess mem t).scheduleQueue
      rw [Cpu.mem_wakeUpProcess]
      rcases hu with howed | ⟨rfl, hne⟩
      · exact .inl (h u howed)
      · by_cases hmem : u ∈ s.cpu.scheduleQueue
        · exact .inl hmem
        · exact .inr ⟨rfl, hne, hok hne hmem⟩
  | setState t state =>
      cases hex
      exact h
  | setStopped t stopped =>
      cases hex
      exact h

/-- Without memory the task in question is lost. -/
theorem lost_of_not_hasMemory
    (h : QueueInv s.cpu) (hno : ¬ HasMemory s op) (hs : machine.Step s op s') :
    ∃ t, s'.owed t = true ∧ t ∉ s'.cpu.scheduleQueue ∧ s'.cpu.current ≠ t := by
  obtain ⟨-, hex⟩ := hs
  cases op with
  | schedule mem =>
      cases hex
      simp only [HasMemory, Classical.not_imp, Bool.not_eq_true] at hno
      obtain ⟨hrun, rfl⟩ := hno
      -- the caller is on neither side of the switch
      have hout : s.cpu.current ∉ s.cpu.requeued false := by
        rw [Cpu.mem_requeued]
        rintro (hmem | ⟨-, -, hmem⟩)
        · exact h.current_notMem hmem
        · cases hmem
      have hpick : s.cpu.current ∉ (s.cpu.schedule false).scheduleQueue ∧
          (s.cpu.schedule false).current ≠ s.cpu.current := by
        rcases Cpu.schedule_pick s.cpu false with hq | ⟨-, hcur, hq⟩
        · rw [hq, List.mem_cons, not_or] at hout
          exact ⟨hout.2, Ne.symm hout.1⟩
        · rw [hq, hcur]
          exact ⟨List.not_mem_nil, Ne.symm hrun.1⟩
      refine ⟨s.cpu.current, ?_, hpick⟩
      simp only [Ledger.schedule, decide_eq_true_eq]
      exact ⟨Ne.symm hpick.2, .inr ⟨trivial, hrun⟩⟩
  | wakeUpProcess t mem =>
      cases hex
      simp only [HasMemory, Classical.not_imp, Bool.not_eq_true] at hno
      obtain ⟨hne, hmem, rfl⟩ := hno
      refine ⟨t, by simp [Ledger.wakeUpProcess, hne], ?_, ?_⟩
      · change t ∉ (s.cpu.wakeUpProcess false t).scheduleQueue
        rw [Cpu.mem_wakeUpProcess]
        rintro (hin | ⟨-, -, hm⟩)
        · exact hmem hin
        · cases hm
      · change (s.cpu.wakeUpProcess false t).current ≠ t
        rw [Cpu.wakeUpProcess_current]
        exact Ne.symm hne
  | setState t state => exact absurd trivial hno
  | setStopped t stopped => exact absurd trivial hno

theorem QueueInv.reach {ok : Ledger → Op → Prop} (h : machine.Reach Init ok s) :
    QueueInv s.cpu := by
  refine h.invariant (P := fun s => QueueInv s.cpu) ?_ fun _ _ _ h₁ _ hs => h₁.step hs
  rintro s ⟨-, hq, -⟩
  constructor
  · rw [hq]
    exact List.nodup_nil
  · rw [hq]
    exact List.not_mem_nil

theorem Served.reach (h : machine.Reach Init HasMemory s) : Served s := by
  refine h.invariant (P := Served) ?_ fun _ _ _ h₁ hok hs => h₁.step hok hs
  rintro s ⟨-, -, hnone⟩ t ht
  rw [hnone] at ht
  cases ht

end Steps

/-- **The discipline of the run queue.**  In every run the queue holds no task twice and
never the running one.  While every insertion finds memory, a task that entered
`schedule` runnable, or was woken off the processor, is on the queue until it is switched
to.  One insertion without memory loses its task. -/
theorem runQueue_discipline (s : Ledger) :
    (machine.Reach Init (fun _ _ => True) s →
      s.cpu.scheduleQueue.Nodup ∧ s.cpu.current ∉ s.cpu.scheduleQueue) ∧
    (machine.Reach Init HasMemory s →
      ∀ t, s.owed t = true → t ∈ s.cpu.scheduleQueue) ∧
    ∀ op s', machine.Reach Init (fun _ _ => True) s → ¬ HasMemory s op →
      machine.Step s op s' →
        ∃ t, s'.owed t = true ∧ t ∉ s'.cpu.scheduleQueue ∧ s'.cpu.current ≠ t := by
  refine ⟨fun h => ?_, fun h => Served.reach h, fun op s' h hno hs => ?_⟩
  · have hinv := QueueInv.reach h
    exact ⟨hinv.nodup, hinv.current_notMem⟩
  · exact lost_of_not_hasMemory (QueueInv.reach h) hno hs

/-- The state the kernel starts from, as far as the run queue goes. -/
def idle : Ledger where
  cpu :=
    { current := swapperTask, scheduleQueue := [], state := fun _ => .running
      wakeupCurrent := fun _ => false, stopped := fun _ => false }
  owed _ := false

/-- A task is preempted while there is no memory for a list node. -/
def exhaustedRun : List Op :=
  [.wakeUpProcess 1 true, .schedule true, .schedule false]

/-- The preempted task is runnable and never runs again. -/
theorem runnableTask_lost :
    ∃ s, machine.Reach Init (fun _ _ => True) s ∧ Runnable s.cpu 1 ∧ s.owed 1 = true ∧
      1 ∉ s.cpu.scheduleQueue ∧ s.cpu.current ≠ 1 := by
  have hrun : (machine.runLabels exhaustedRun idle).any (fun s =>
      Runnable s.cpu 1 ∧ s.owed 1 = true ∧ 1 ∉ s.cpu.scheduleQueue ∧ s.cpu.current ≠ 1) = true := by
    decide
  obtain ⟨s, hreach, hs⟩ := Machine.exists_reach_of_run
    (show Init idle from ⟨rfl, rfl, fun _ => rfl⟩) hrun
  simp only [decide_eq_true_eq] at hs
  exact ⟨s, hreach, hs⟩

end Sched
end JkxyKernel
