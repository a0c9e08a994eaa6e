import JkxyKernel.Task.Steps

/-!
# Waking the receiver of a signal

A task can wait for a signal in two ways: in an interruptible sleep, which its state
tells, or stopped, which a mark of its own tells while the state is that of a running
task.  `send_sig_info` wakes a sleeper only, and only for a signal that was not pending
before; `SIGCONT` takes a stopped task out of its loop, and nothing else does.

So `SIGKILL` leaves a stopped task where it is, and a task that goes to sleep with a
signal pending, as `do_wait` lets it, is not woken by the same signal again.
-/

namespace JkxyKernel
namespace Task

open Kernel

/-- The signal is not blocked, or cannot be. -/
def TaskStruct.open (task : TaskStruct) (signals : BitVec 32) : BitVec 32 :=
  signals &&& (~~~task.sigpending.blockedMask ||| sigUnmaskable)

section Masks

variable {task : TaskStruct}

end Masks

section Sending

variable {k k' : Kernel} {t : TaskId} {info : Siginfo} {act : Sigaction}

end Sending

end Task
end JkxyKernel
