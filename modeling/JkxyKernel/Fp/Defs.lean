import JkxyKernel.Lib.Machine
import JkxyKernel.Task.Defs

/-!
# Floating-point registers across the kernel

The kernel does not use the floating-point registers, so it leaves them to the user task
that entered it until it switches to another task.  `sched_fxsave` saves them at the
first switch, `retuser_fxrstor` loads them again on the way to user mode and frees the
copy.  `do_clone` gives the child a copy, `do_execve` drops the copy and resets the
registers, `do_exit` frees the copy and leaves the pointer.

The register file is an arbitrary type, and `finit` loads an arbitrary value of it.  The
kernel can switch at any call of `schedule`, so a task in the kernel is cut into the
stretches of `do_execve` and `do_exit` in which it may sleep.

Next to the source's fields the state keeps the registers every task is due at its next
return to user mode.  They are no part of the kernel.
-/

namespace JkxyKernel
namespace Fp

open JkxyKernel.Task (TaskId TaskState)

/-- The pointer `fxsave_data` and the block behind it. -/
inductive Copy (ρ : Type)
  | null
  | data (registers : ρ)
  /-- The block is freed, the pointer still there. -/
  | freed
  deriving DecidableEq, Repr

def Copy.isNull {ρ : Type} : Copy ρ → Bool
  | .null => true
  | _ => false

/-- What of `struct task_struct` concerns the floating-point registers. -/
structure TaskStruct (ρ : Type) where
  /-- Is `mm` set? -/
  mm : Bool
  state : TaskState
  fxsaveData : Copy ρ
  /-- Does `entry_regs` lead back to user mode? -/
  userFrame : Bool

/-- Where a task is. -/
inductive Pc
  /-- There is no such task. -/
  | free
  | user
  | kernel
  /-- In `do_execve`, past the write to `entry_regs`. -/
  | execFrame
  /-- In `do_execve`, past `finit`. -/
  | execLoad
  /-- In `do_exit`. -/
  | exiting
  /-- In `do_exit`, past the `kfree` of the copy. -/
  | exited
  deriving DecidableEq, Repr

/-- Will the task possibly see user mode again? -/
def Pc.alive : Pc → Bool
  | .user | .kernel | .execFrame | .execLoad => true
  | .free | .exiting | .exited => false

structure State (ρ : Type) where
  current : TaskId
  task : TaskId → TaskStruct ρ
  pc : TaskId → Pc
  /-- The registers of the processor. -/
  registers : ρ
  /-- What a task should find in the registers when it returns to user mode: what it left
  there, what its parent was due when it was cloned, or the reset state after
  `do_execve`. -/
  due : TaskId → Option ρ

namespace State

variable {ρ : Type} (s : State ρ)

def modTask (t : TaskId) (f : TaskStruct ρ → TaskStruct ρ) : State ρ :=
  { s with task := Function.update s.task t (f (s.task t)) }

/-- Move the program counter of the running task. -/
def setPc (pc : Pc) : State ρ :=
  { s with pc := Function.update s.pc s.current pc }

/-- `sched_fxsave` -/
def schedFxsave (mem : Bool) : Except Fault (State ρ) :=
  let r := s.task s.current
  if r.fxsaveData.isNull = false ∨ r.mm = false ∨ r.state = .zombie ∨ r.state = .dead then .ok s
  else if !mem then .error .nullPointer
  else .ok (s.modTask s.current fun r => { r with fxsaveData := .data s.registers })

/-- `switch_to` -/
def switchTo (t : TaskId) (mem : Bool) : Except Fault (State ρ) :=
  if t = s.current then .ok s
  else
    match s.schedFxsave mem with
    | .error e => .error e
    | .ok s => .ok { s with current := t }

/-- `retuser_fxrstor` -/
def retuserFxrstor : Except Fault (State ρ) :=
  match (s.task s.current).fxsaveData with
  | .null => .ok s
  | .freed => .error .useAfterFree
  | .data registers =>
      .ok ({ s with registers := registers }.modTask s.current fun r =>
        { r with fxsaveData := .null })

/-- `return_to_userspace`, the last part, and `iret`. -/
def returnToUserspace : Except Fault (State ρ) :=
  match s.retuserFxrstor with
  | .error e => .error e
  | .ok s => .ok (s.setPc .user)

/-- An interrupt, an exception or a system call of a task in user mode. -/
def enterKernel : State ρ :=
  { s with due := Function.update s.due s.current (some s.registers) }.setPc .kernel

/-- The copy that `do_clone` makes for the child. -/
def cloneCopy (mem : Bool) : Except Fault (Copy ρ) :=
  if !(s.task s.current).mm then .ok .null
  else if !mem then .error .nullPointer
  else
    match (s.task s.current).fxsaveData with
    | .null => .ok (.data s.registers)
    | .freed => .error .useAfterFree
    | .data registers => .ok (.data registers)

/-- `do_clone`; `userFrame` if the child starts from a copy of the caller's user frame,
and not in a kernel function. -/
def doClone (child : TaskId) (userFrame mem : Bool) : Except Fault (State ρ) :=
  match s.cloneCopy mem with
  | .error e => .error e
  | .ok copy =>
      .ok
        { s with
          task := Function.update s.task child
            { mm := (s.task s.current).mm, state := .running, fxsaveData := copy
              userFrame := userFrame }
          pc := Function.update s.pc child .kernel
          due := Function.update s.due child (s.due s.current) }

/-- `do_execve`: the user frame is set up. -/
def execFrame : State ρ :=
  (s.modTask s.current fun r => { r with userFrame := true }).setPc .execFrame

/-- `do_execve`: the new `mm`, and the registers reset by `finit`. -/
def execReset (finit : ρ) : Except Fault (State ρ) :=
  match (s.task s.current).fxsaveData with
  | .freed => .error .useAfterFree
  | .null | .data _ =>
      let fresh := s.modTask s.current fun r => { r with mm := true, fxsaveData := .null }
      .ok ({ fresh with
        registers := finit
        due := Function.update s.due s.current (some finit) }.setPc .execLoad)

/-- `do_exit` marks the task. -/
def exitMark : State ρ :=
  (s.modTask s.current fun r => { r with state := .zombie }).setPc .exiting

/-- `do_exit` frees the copy. -/
def exitFree : Except Fault (State ρ) :=
  match (s.task s.current).fxsaveData with
  | .null => .ok (s.setPc .exited)
  | .freed => .error .useAfterFree
  | .data _ => .ok ((s.modTask s.current fun r => { r with fxsaveData := .freed }).setPc .exited)

/-- A task in the kernel is about to sleep or has slept. -/
def setState (state : TaskState) : State ρ :=
  s.modTask s.current fun r => { r with state := state }

end State

/-- What the running task does, and what others do to it. -/
inductive Label (ρ : Type)
  /-- The task in user mode computes. -/
  | compute (registers : ρ)
  | enterKernel
  | returnToUserspace
  /-- `schedule` picks a task. -/
  | switchTo (t : TaskId) (mem : Bool)
  | setState (state : TaskState)
  | clone (child : TaskId) (userFrame mem : Bool)
  | execFrame
  | execReset
  /-- The loading ends, with a success or with a forced `SIGSEGV`. -/
  | execDone
  | exitMark
  | exitFree
  /-- `_do_wait` of a zombie. -/
  | reap (t : TaskId)
  /-- `do_free_tasks` -/
  | freeTask (t : TaskId)

/-- User tasks and kernel threads in any order. -/
def machine {ρ : Type} (finit : ρ) : Machine (State ρ) (Label ρ) Fault where
  enabled l s :=
    match l with
    | .compute _ | .enterKernel => s.pc s.current = .user
    | .returnToUserspace => s.pc s.current = .kernel ∧ (s.task s.current).userFrame = true
    | .switchTo t _ => s.pc s.current ≠ .user ∧ s.pc t ≠ .free
    | .setState state =>
        s.pc s.current ≠ .user ∧ state ≠ .zombie ∧ state ≠ .dead
    | .clone child userFrame _ =>
        s.pc s.current = .kernel ∧ s.pc child = .free ∧
          (userFrame = true → (s.task s.current).userFrame = true)
    | .execFrame => s.pc s.current = .kernel
    | .execReset => s.pc s.current = .execFrame
    | .execDone => s.pc s.current = .execLoad
    | .exitMark => s.pc s.current = .kernel
    | .exitFree => s.pc s.current = .exiting
    | .reap t => (s.task t).state = .zombie
    | .freeTask t => s.pc t = .exited ∧ t ≠ s.current
  exec
    | .compute registers, s => .ok { s with registers := registers }
    | .enterKernel, s => .ok s.enterKernel
    | .returnToUserspace, s => s.returnToUserspace
    | .switchTo t mem, s => s.switchTo t mem
    | .setState state, s => .ok (s.setState state)
    | .clone child userFrame mem, s => s.doClone child userFrame mem
    | .execFrame, s => .ok s.execFrame
    | .execReset, s => s.execReset finit
    | .execDone, s => .ok (s.setPc .kernel)
    | .exitMark, s => .ok s.exitMark
    | .exitFree, s => s.exitFree
    | .reap t, s => .ok (s.modTask t fun r => { r with state := .dead })
    | .freeTask t, s => .ok { s with pc := Function.update s.pc t .free }

/-- The swapper runs in the kernel, without `mm`, and is the only task. -/
def Init {ρ : Type} (s : State ρ) : Prop :=
  s.pc s.current = .kernel ∧ (∀ t, t ≠ s.current → s.pc t = .free) ∧
    s.task s.current = { mm := false, state := .running, fxsaveData := .null, userFrame := false }

end Fp
end JkxyKernel
