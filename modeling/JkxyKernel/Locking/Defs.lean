import JkxyKernel.Sched.Cpu

/-!
# Mutexes

A mutex is a queue of tasks: `mutex_lock_interruptable` and `mutex_lock_uninterruptable`
put the caller at the back and sleep until it is at the front, `mutex_unlock` takes the
caller off the front and wakes the next.  Who holds the mutex is nowhere written down.

The kernel is not preempted in kernel mode, so a task loses the processor at its own
calls of `schedule` only; interrupts can come anywhere, send signals and wake tasks.
The two lock functions are cut at every place where an interrupt could tell the
difference, and a task between two such places has a program counter inside the lock.

Each mutex carries a ledger that is no part of the kernel: who is between a lock that
returned `0` and the unlock, and a ticket for every time a task queued, with the tickets
that got the mutex and those that were interrupted.
-/

namespace JkxyKernel
namespace Locking

open JkxyKernel.Task (TaskId TaskState)
open JkxyKernel.Sched (Cpu listInsertBack)

abbrev MutexId := Nat

/-- Which of the two lock functions a task is in. -/
inductive Kind
  | interruptable
  | uninterruptable
  deriving DecidableEq, Repr

/-- Where in the lock function a task is. -/
inductive Stage
  /-- Behind `list_insert_back`. -/
  | entered
  /-- Before the condition of the loop. -/
  | check
  /-- Before `schedule()`. -/
  | sched
  /-- Behind the loop. -/
  | out
  /-- Before the last look at the signals. -/
  | test
  /-- Before `list_remove`. -/
  | giveUp
  deriving DecidableEq, Repr

inductive Pc
  /-- Outside the lock functions. -/
  | body
  | lock (m : MutexId) (kind : Kind) (stage : Stage)
  deriving DecidableEq, Repr

/-- `struct mutex` and its ledger. -/
structure Mutex where
  queue : List TaskId
  /-- Is the task between a lock that returned `0` and its unlock? -/
  holds : TaskId → Bool
  nextTicket : Nat
  /-- The ticket a task drew when it last queued. -/
  ticket : TaskId → Nat
  /-- The tickets that got the mutex, the latest first. -/
  acquired : List Nat
  /-- The tickets that were given up with `-EINTR`. -/
  interrupted : List Nat

structure State where
  cpu : Cpu
  /-- `signal_pending` -/
  pending : TaskId → Bool
  pc : TaskId → Pc
  mutex : MutexId → Mutex

/-- The state a waiting task sleeps in. -/
def Kind.sleepState : Kind → TaskState
  | .interruptable => .interruptible
  | .uninterruptable => .uninterruptible

/-- Does a pending signal end the wait? -/
def Kind.cutShort (kind : Kind) (pending : Bool) : Bool :=
  match kind with
  | .interruptable => pending
  | .uninterruptable => false

namespace Mutex

/-- `mutex_init` -/
def init : Mutex where
  queue := []
  holds _ := false
  nextTicket := 0
  ticket _ := 0
  acquired := []
  interrupted := []

/-- A task has queued. -/
def queued (x : Mutex) (t : TaskId) (queue : List TaskId) : Mutex :=
  { x with
    queue := queue
    ticket := Function.update x.ticket t x.nextTicket
    nextTicket := x.nextTicket + 1 }

/-- The lock function returns `0` to a task. -/
def acquire (x : Mutex) (t : TaskId) : Mutex :=
  { x with
    holds := Function.update x.holds t true
    acquired := x.ticket t :: x.acquired }

/-- A task takes itself off the queue and returns `-EINTR`. -/
def giveUp (x : Mutex) (t : TaskId) : Mutex :=
  { x with
    queue := x.queue.filter (· ≠ t)
    interrupted := x.ticket t :: x.interrupted }

/-- `mutex_unlock` has taken its caller off the front. -/
def release (x : Mutex) (t : TaskId) (queue : List TaskId) : Mutex :=
  { x with
    queue := queue
    holds := Function.update x.holds t false }

end Mutex

namespace State

/-- Move the program counter of the running task. -/
def setPc (s : State) (pc : Pc) : State :=
  { s with pc := Function.update s.pc s.cpu.current pc }

def modMutex (s : State) (m : MutexId) (f : Mutex → Mutex) : State :=
  { s with mutex := Function.update s.mutex m (f (s.mutex m)) }

/-- `current->state = ..` -/
def setState (s : State) (state : TaskState) : State :=
  { s with cpu := s.cpu.setState s.cpu.current state }

def wakeUpProcess (s : State) (mem : Bool) (t : TaskId) : State :=
  { s with cpu := s.cpu.wakeUpProcess mem t }

def schedule (s : State) (mem : Bool) : State :=
  { s with cpu := s.cpu.schedule mem }

/-- The part of `send_sig_info` that the receiver can tell. -/
def sendSig (s : State) (mem : Bool) (t : TaskId) : State :=
  let s := { s with pending := Function.update s.pending t true }
  if s.cpu.state t = .interruptible then s.wakeUpProcess mem t else s

/-- The entry of the lock functions, up to `list_insert_back`. -/
def mutexLock (s : State) (kind : Kind) (m : MutexId) (mem : Bool) : Except Fault State :=
  if s.cpu.current ∈ (s.mutex m).queue then .error .bug
  else
    match listInsertBack mem (s.mutex m).queue s.cpu.current with
    | none => .ok s
    | some queue =>
        .ok ((s.modMutex m fun x => x.queued s.cpu.current queue).setPc (.lock m kind .entered))

/-- `mutex_lock_interruptable` -/
def mutexLockInterruptable (s : State) (m : MutexId) (mem : Bool) : Except Fault State :=
  s.mutexLock .interruptable m mem

/-- `mutex_lock_uninterruptable` -/
def mutexLockUninterruptable (s : State) (m : MutexId) (mem : Bool) : Except Fault State :=
  s.mutexLock .uninterruptable m mem

/-- The lock functions behind their entry, up to the next cut. -/
def lockStep (s : State) (m : MutexId) (kind : Kind) (mem : Bool) : Stage → State
  | .entered => (s.setState kind.sleepState).setPc (.lock m kind .check)
  | .check =>
      if (s.mutex m).queue.head? ≠ some s.cpu.current ∧
          kind.cutShort (s.pending s.cpu.current) = false then
        s.setPc (.lock m kind .sched)
      else s.setPc (.lock m kind .out)
  | .sched => (s.setPc (.lock m kind .check)).schedule mem
  | .out => (s.setState .running).setPc (.lock m kind .test)
  | .test =>
      if kind.cutShort (s.pending s.cpu.current) = true then s.setPc (.lock m kind .giveUp)
      else (s.modMutex m fun x => x.acquire s.cpu.current).setPc .body
  | .giveUp => (s.modMutex m fun x => x.giveUp s.cpu.current).setPc .body

/-- `mutex_unlock` -/
def mutexUnlock (s : State) (m : MutexId) (mem : Bool) : Except Fault State :=
  match (s.mutex m).queue with
  | [] => .error .bug
  | t :: queue =>
      if t ≠ s.cpu.current then .error .bug
      else
        let s := s.modMutex m fun x => x.release t queue
        match queue.head? with
        | none => .ok s
        | some u => .ok (s.wakeUpProcess mem u)

end State

/-- What the running task does, and what interrupts do to it. -/
inductive Label
  | lockInterruptable (m : MutexId) (mem : Bool)
  | lockUninterruptable (m : MutexId) (mem : Bool)
  | unlock (m : MutexId) (mem : Bool)
  /-- The running task goes on inside a lock function. -/
  | go (mem : Bool)
  /-- The running task calls `schedule` outside the lock functions. -/
  | schedule (mem : Bool)
  /-- It writes its own state there. -/
  | setState (state : TaskState)
  /-- It takes delivery of its signals there, or changes its mask. -/
  | setPending (pending : Bool)
  | sendSig (t : TaskId) (mem : Bool)
  | wakeUpProcess (t : TaskId) (mem : Bool)
  | setStopped (t : TaskId) (stopped : Bool)
  deriving DecidableEq, Repr

namespace Label

/-- Is this a step of the running task outside the lock functions? -/
def inBody : Label → Bool
  | .lockInterruptable .. | .lockUninterruptable .. | .unlock .. => true
  | .schedule .. | .setState .. | .setPending .. => true
  | .go .. | .sendSig .. | .wakeUpProcess .. | .setStopped .. => false

end Label

/-- Tasks and interrupts at work on any number of mutexes. -/
def machine : Machine State Label Fault where
  enabled l s :=
    match l with
    | .go _ => s.pc s.cpu.current ≠ .body
    | l => l.inBody → s.pc s.cpu.current = .body
  exec
    | .lockInterruptable m mem, s => s.mutexLockInterruptable m mem
    | .lockUninterruptable m mem, s => s.mutexLockUninterruptable m mem
    | .unlock m mem, s => s.mutexUnlock m mem
    | .go mem, s =>
        match s.pc s.cpu.current with
        | .body => .ok s
        | .lock m kind stage => .ok (s.lockStep m kind mem stage)
    | .schedule mem, s => .ok (s.schedule mem)
    | .setState state, s => .ok (s.setState state)
    | .setPending pending, s =>
        .ok { s with pending := Function.update s.pending s.cpu.current pending }
    | .sendSig t mem, s => .ok (s.sendSig mem t)
    | .wakeUpProcess t mem, s => .ok (s.wakeUpProcess mem t)
    | .setStopped t stopped, s => .ok { s with cpu := s.cpu.setStopped t stopped }

/-- All mutexes are fresh and nobody is in a lock function. -/
def Init (s : State) : Prop :=
  (∀ m, s.mutex m = Mutex.init) ∧ ∀ t, s.pc t = .body

section Fields

variable {s : State} {m m' : MutexId} {mem : Bool} {t : TaskId} {pc : Pc} {f : Mutex → Mutex}
variable {state : TaskState}

@[simp] theorem setPc_cpu : (s.setPc pc).cpu = s.cpu := rfl

@[simp] theorem setPc_pending : (s.setPc pc).pending = s.pending := rfl

@[simp] theorem setPc_mutex : (s.setPc pc).mutex = s.mutex := rfl

@[simp] theorem modMutex_cpu : (s.modMutex m f).cpu = s.cpu := rfl

@[simp] theorem modMutex_pending : (s.modMutex m f).pending = s.pending := rfl

@[simp] theorem modMutex_pc : (s.modMutex m f).pc = s.pc := rfl

@[simp] theorem modMutex_same : (s.modMutex m f).mutex m = f (s.mutex m) := by
  simp [State.modMutex]

theorem modMutex_other (h : m' ≠ m) : (s.modMutex m f).mutex m' = s.mutex m' := by
  simp [State.modMutex, h]

@[simp] theorem setState_pending : (s.setState state).pending = s.pending := rfl

@[simp] theorem setState_pc : (s.setState state).pc = s.pc := rfl

@[simp] theorem setState_mutex : (s.setState state).mutex = s.mutex := rfl

@[simp] theorem setState_current : (s.setState state).cpu.current = s.cpu.current := rfl

@[simp] theorem schedule_pending : (s.schedule mem).pending = s.pending := rfl

@[simp] theorem schedule_pc : (s.schedule mem).pc = s.pc := rfl

@[simp] theorem schedule_mutex : (s.schedule mem).mutex = s.mutex := rfl

@[simp] theorem wakeUpProcess_current :
    (s.wakeUpProcess mem t).cpu.current = s.cpu.current :=
  Cpu.wakeUpProcess_current

@[simp] theorem wakeUpProcess_pending : (s.wakeUpProcess mem t).pending = s.pending := rfl

@[simp] theorem wakeUpProcess_pc : (s.wakeUpProcess mem t).pc = s.pc := rfl

@[simp] theorem wakeUpProcess_mutex : (s.wakeUpProcess mem t).mutex = s.mutex := rfl

theorem setPc_current : (s.setPc pc).pc s.cpu.current = pc := by
  simp [State.setPc]

theorem setPc_other (h : t ≠ s.cpu.current) : (s.setPc pc).pc t = s.pc t := by
  simp [State.setPc, h]

theorem modMutex_setPc_current : ((s.modMutex m f).setPc pc).pc s.cpu.current = pc :=
  setPc_current

theorem modMutex_setPc_other (h : t ≠ s.cpu.current) :
    ((s.modMutex m f).setPc pc).pc t = s.pc t :=
  setPc_other h

@[simp] theorem sendSig_pc : (s.sendSig mem t).pc = s.pc := by
  simp only [State.sendSig]
  split <;> rfl

@[simp] theorem sendSig_mutex : (s.sendSig mem t).mutex = s.mutex := by
  simp only [State.sendSig]
  split <;> rfl

theorem sendSig_pending {u : TaskId} (h : s.pending u = true) :
    (s.sendSig mem t).pending u = true := by
  have hset : Function.update s.pending t true u = true := by
    by_cases hu : u = t
    · simp [hu]
    · simpa [hu] using h
  simp only [State.sendSig]
  split <;> exact hset

theorem cutShort_eq_true {kind : Kind} {pending : Bool} :
    kind.cutShort pending = true ↔ kind = .interruptable ∧ pending = true := by
  cases kind <;> simp [Kind.cutShort]

/-- The inversion lemma of the entry. -/
theorem mutexLock_cases {s' : State} {kind : Kind} (h : s.mutexLock kind m mem = .ok s') :
    s.cpu.current ∉ (s.mutex m).queue ∧
      (s' = s ∨
        s' = (s.modMutex m fun x =>
          x.queued s.cpu.current ((s.mutex m).queue ++ [s.cpu.current])).setPc
            (.lock m kind .entered)) := by
  simp only [State.mutexLock] at h
  split at h
  next => cases h
  next hnew =>
    refine ⟨hnew, ?_⟩
    cases mem with
    | false =>
        cases h
        exact .inl rfl
    | true =>
        cases h
        exact .inr rfl

/-- The inversion lemma of `mutex_unlock`. -/
theorem mutexUnlock_cases {s' : State} (h : s.mutexUnlock m mem = .ok s') :
    ∃ queue, (s.mutex m).queue = s.cpu.current :: queue ∧
      (queue = [] ∧ s' = (s.modMutex m fun x => x.release s.cpu.current queue) ∨
        ∃ u rest, queue = u :: rest ∧
          s' = (s.modMutex m fun x => x.release s.cpu.current queue).wakeUpProcess mem u) := by
  simp only [State.mutexUnlock] at h
  split at h
  next => cases h
  next t queue hq =>
    split at h
    next => cases h
    next hcur =>
      have ht : t = s.cpu.current := not_not.mp hcur
      subst ht
      refine ⟨queue, hq, ?_⟩
      cases queue with
      | nil =>
          cases h
          exact .inl ⟨rfl, rfl⟩
      | cons u rest =>
          cases h
          exact .inr ⟨u, rest, rfl, rfl⟩

/-- The task at the front can unlock. -/
theorem mutexUnlock_no_bug {e : Fault}
    (h : (s.mutex m).queue.head? = some s.cpu.current) : s.mutexUnlock m mem ≠ .error e := by
  intro hbug
  simp only [State.mutexUnlock] at hbug
  split at hbug
  next hq => simp [hq] at h
  next t queue hq =>
    have ht : t = s.cpu.current := by simpa [hq] using h
    rw [if_neg (not_not.mpr ht)] at hbug
    split at hbug <;> cases hbug

end Fields

end Locking
end JkxyKernel
