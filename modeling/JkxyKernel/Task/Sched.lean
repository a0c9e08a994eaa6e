import JkxyKernel.Task.Defs

/-!
# The scheduler

`wake_up_process`, `schedule` and `do_free_tasks`.

`schedule` runs with interrupts off, so it is one step of the model.  It parks
the caller at a given control point, chooses the next task and lets that one
continue: a task that was parked inside an earlier `schedule` finishes that call,
and so runs `do_free_tasks`; a new task does not.
-/

namespace JkxyKernel
namespace Task
namespace Kernel

/-- `wake_up_process` -/
def wakeUpProcess (k : Kernel) (t : TaskId) : Kernel :=
  if t = k.current then
    k.modTask t fun task => { task with wakeupCurrent := true }
  else if t ∈ k.scheduleQueue then k
  else { k with scheduleQueue := k.scheduleQueue ++ [t] }

/-- Does `schedule` put its caller back on the queue? -/
def requeues (k : Kernel) : Bool :=
  k.current ≠ swapperTask ∧ k.cur.stopped = false ∧
    (k.cur.state = .running ∨ k.cur.wakeupCurrent = true)

/-- The first part of `schedule`: the caller goes to the end of the queue. -/
def requeueCurrent (k : Kernel) : Kernel :=
  if k.requeues then
    { k.modTask k.current fun task => { task with wakeupCurrent := false } with
      scheduleQueue := k.scheduleQueue ++ [k.current] }
  else k

/-- `switch_to` -/
def switchTo (k : Kernel) (t : TaskId) : Except Fault Kernel :=
  if t = k.current then .ok k
  else if k.freed t then .error .useAfterFree
  else .ok { k with current := t, schedulePitCounter := 0 }

/-- The second part of `schedule`: take the first task of the queue. -/
def switchToNext (k : Kernel) : Except Fault Kernel :=
  match k.scheduleQueue with
  | [] => k.switchTo swapperTask
  | t :: queue => { k with scheduleQueue := queue }.switchTo t

/-- `free_pages` on the stacks of a list of tasks. -/
def freeStacks : List TaskId → (TaskId → Bool) → Except Fault (TaskId → Bool)
  | [], freed => .ok freed
  | t :: ts, freed =>
      if freed t then .error .useAfterFree
      else freeStacks ts (Function.update freed t true)

/-- `do_free_tasks` -/
def doFreeTasks (k : Kernel) : Except Fault Kernel :=
  match freeStacks k.freeTasks k.freed with
  | .error e => .error e
  | .ok freed => .ok { k with freed := freed, freeTasks := [] }

/-- The end of `schedule`, executed by the task that was switched to. -/
def resumed (k : Kernel) : Except Fault Kernel :=
  if k.pc k.current = .entry then .ok k else k.doFreeTasks

/-- `schedule`; `after` is where the caller stands behind the call. -/
def schedule (k : Kernel) (after : Pc) : Except Fault Kernel :=
  match (k.setPc k.current after).requeueCurrent.switchToNext with
  | .error e => .error e
  | .ok k' => k'.resumed

end Kernel
end Task
end JkxyKernel
