import JkxyKernel.Task.SignalSafety

/-!
# Reaping

An exit leaves two traces: the zombie in the list `tasks`, and a record queued with the
parent.  The fast path of `do_wait` and `do_waitpg` looks at the first, the slow path at
the second, and each consumes only its own.

A record is stale when the child that left it has been reaped already.  As long as no
slow path acts on a stale record, and no task waits for a child that has reaped itself,
every exit is reaped at most once, by the parent, with its own pid and exit code
(`ReapInv`).
-/

namespace JkxyKernel
namespace Task

open Kernel

/-- The child whose record was the last to be queued with a task. -/
def lastQueued : List Event → TaskId → Option TaskId
  | [], _ => none
  | .queued parent child :: log, p => if parent = p then some child else lastQueued log p
  | .reaped _ _ _ _ :: log, p => lastQueued log p
  | .infosFreed _ :: log, p => lastQueued log p

/-- `_do_wait` has been applied to the task. -/
def Reaped (k : Kernel) (t : TaskId) : Prop :=
  ∃ caller pid exitcode, Event.reaped caller t pid exitcode ∈ k.log

/-- The part of `do_exit` behind the notification of the parent. -/
def Life.Notified : Life → Prop
  | .dying .reparent => True
  | .dying .sched => True
  | .gone => True
  | _ => False

/-- The tasks whose pids are in use: those listed, and one inside `do_exit`. -/
def InPlay (k : Kernel) (t : TaskId) : Prop :=
  t ∈ k.tasks ∨ ∃ stage, (k.pc t).life = .dying stage

/-- The invariant of waiting and exiting. -/
structure ReapInv (k : Kernel) : Prop where
  nextPid : k.nextPid ≤ maxpid
  pid_le : ∀ t, (k.task t).pid ≤ maxpid
  ppid_le : ∀ t, (k.task t).ppid ≤ maxpid
  unique : ∀ t u, InPlay k t → InPlay k u → (k.task t).pid = (k.task u).pid → t = u
  listed : ∀ t, t ∈ k.tasks ↔ t < k.numTasks ∧ t ≠ swapperTask ∧ ¬ Reaped k t
  reaped : ∀ t, Reaped k t → (k.pc t).life.Notified
  zombie : ∀ t, (k.pc t).life.Leaving → ¬ Reaped k t → (k.task t).state = .zombie
  queued : ∀ p x, lastQueued k.log p = some x →
    (p < k.numTasks ∧ p ≠ swapperTask) ∧ (x < k.numTasks ∧ x ≠ swapperTask) ∧
      (k.pc x).life.Notified ∧
      (¬ (k.pc p).life.Leaving → (k.task x).ppid = (k.task p).pid)
  record : ∀ p info, (k.task p).chldRecord = some info →
    ∃ x, lastQueued k.log p = some x ∧ info.pid = (k.task x).pid
  awaited : ∀ u c, (k.pc u).awaited = some c →
    (c < k.numTasks ∧ c ≠ swapperTask) ∧ (k.task c).ppid = (k.task u).pid

theorem Life.Notified.leaving {l : Life} (h : l.Notified) : l.Leaving := by
  cases l with
  | dying stage => trivial
  | gone => trivial
  | normal => exact h.elim
  | swapping => exact h.elim

section Frames

variable {k k' : Kernel}

/-- A change that neither creates nor reaps a task, nor posts the record of an exit, nor
changes a parent. -/
structure SameFamily (k k' : Kernel) : Prop where
  tasks : k'.tasks = k.tasks
  numTasks : k'.numTasks = k.numTasks
  nextPid : k'.nextPid = k.nextPid
  pid : ∀ t, (k'.task t).pid = (k.task t).pid
  ppid : ∀ t, (k'.task t).ppid = (k.task t).ppid
  reaped : ∀ t, Reaped k' t ↔ Reaped k t
  queued : ∀ p, lastQueued k'.log p = lastQueued k.log p
  chld : ∀ t, (k'.task t).chldRecord = none ∨ (k'.task t).chldRecord = (k.task t).chldRecord
  awaited : ∀ u, (k'.pc u).awaited = none ∨ (k'.pc u).awaited = (k.pc u).awaited
  notified : ∀ t, (k.pc t).life.Notified → (k'.pc t).life.Notified
  leaving : ∀ t, (k.pc t).life.Leaving → (k'.pc t).life.Leaving
  /-- Only a listed task can begin to exit. -/
  dying : ∀ t stage, (k'.pc t).life = .dying stage →
    (∃ stage', (k.pc t).life = .dying stage') ∨ t ∈ k.tasks
  zombie : ∀ t, (k'.pc t).life.Leaving →
    (k'.task t).state = .zombie ∨
      (k.pc t).life.Leaving ∧ (k'.task t).state = (k.task t).state

theorem ReapInv.same (h : ReapInv k) (hs : SameFamily k k') : ReapInv k' := by
  have hplay : ∀ t, InPlay k' t → InPlay k t := by
    rintro t (hmem | ⟨stage, hd⟩)
    · exact .inl (hs.tasks ▸ hmem)
    · rcases hs.dying t stage hd with hold | hmem
      · exact .inr hold
      · exact .inl hmem
  refine
    { nextPid := by rw [hs.nextPid]; exact h.nextPid
      pid_le := fun t => by rw [hs.pid]; exact h.pid_le t
      ppid_le := fun t => by rw [hs.ppid]; exact h.ppid_le t
      unique := fun t u ht hu heq => ?_
      listed := fun t => by rw [hs.tasks, hs.numTasks, hs.reaped]; exact h.listed t
      reaped := fun t ht => hs.notified t (h.reaped t ((hs.reaped t).mp ht))
      zombie := fun t ht hr => ?_
      queued := fun p x hx => ?_
      record := fun p info hi => ?_
      awaited := fun u c hc => ?_ }
  · rw [hs.pid, hs.pid] at heq
    exact h.unique t u (hplay t ht) (hplay u hu) heq
  · rcases hs.zombie t ht with hz | ⟨hl, hst⟩
    · exact hz
    · rw [hst]
      exact h.zombie t hl fun hc => hr ((hs.reaped t).mpr hc)
  · rw [hs.queued] at hx
    obtain ⟨hp, hxb, hn, hlink⟩ := h.queued p x hx
    rw [hs.numTasks, hs.ppid, hs.pid]
    exact ⟨hp, hxb, hs.notified x hn, fun hl => hlink fun hc => hl (hs.leaving p hc)⟩
  · rcases hs.chld p with hn | heq
    · rw [hn] at hi
      cases hi
    · rw [heq] at hi
      obtain ⟨x, hx, hpid⟩ := h.record p info hi
      exact ⟨x, by rw [hs.queued]; exact hx, by rw [hs.pid]; exact hpid⟩
  · rcases hs.awaited u with hn | heq
    · rw [hn] at hc
      cases hc
    · rw [heq] at hc
      rw [hs.numTasks, hs.ppid, hs.pid]
      exact h.awaited u c hc

theorem SameFamily.quiet (hq : Quiet k k') : SameFamily k k' where
  tasks := hq.tasks
  numTasks := hq.numTasks
  nextPid := hq.nextPid
  pid t := (hq.record t).pid
  ppid t := (hq.record t).ppid
  reaped t := by
    unfold Reaped
    rw [hq.log]
  queued p := by rw [hq.log]
  chld t := (hq.record t).chld
  awaited := hq.awaited
  notified t ht := by rw [hq.life]; exact ht
  leaving t ht := by rw [hq.life]; exact ht
  dying t stage hd := by
    rw [hq.life] at hd
    exact .inl ⟨stage, hd⟩
  zombie t ht := by
    rw [hq.life] at ht
    refine .inr ⟨ht, hq.ended t ?_⟩
    intro hn
    rw [hn] at ht
    exact ht

/-- One task moves on, and its record changes in ways the family does not see. -/
theorem SameFamily.advance {p : Pc}
    (htasks : k'.tasks = k.tasks) (hnum : k'.numTasks = k.numTasks)
    (hnext : k'.nextPid = k.nextPid)
    (hlog : k'.log = k.log ∨ k'.log = .infosFreed k.current :: k.log)
    (hpc : k'.pc = Function.update k.pc k.current p) (hawait : p.awaited = none)
    (hrecord : ∀ t, (k'.task t).pid = (k.task t).pid ∧ (k'.task t).ppid = (k.task t).ppid ∧
      ((k'.task t).chldRecord = none ∨ (k'.task t).chldRecord = (k.task t).chldRecord))
    (hstate : ∀ t, t ≠ k.current → (k'.task t).state = (k.task t).state)
    (hself : p.life.Leaving → (k'.task k.current).state = .zombie ∨
      (k.pc k.current).life.Leaving ∧ (k'.task k.current).state = (k.task k.current).state)
    (hnotified : (k.pc k.current).life.Notified → p.life.Notified)
    (hleaving : (k.pc k.current).life.Leaving → p.life.Leaving)
    (hdying : ∀ stage, p.life = .dying stage →
      (∃ stage', (k.pc k.current).life = .dying stage') ∨ k.current ∈ k.tasks) :
    SameFamily k k' where
  tasks := htasks
  numTasks := hnum
  nextPid := hnext
  pid t := (hrecord t).1
  ppid t := (hrecord t).2.1
  reaped t := by
    unfold Reaped
    rcases hlog with hl | hl <;> simp [hl]
  queued q := by rcases hlog with hl | hl <;> simp [hl, lastQueued]
  chld t := (hrecord t).2.2
  awaited u := by
    by_cases hu : u = k.current
    · subst hu
      exact .inl (by simp [hpc, hawait])
    · exact .inr (by simp [hpc, hu])
  notified t ht := by
    by_cases hc : t = k.current
    · subst hc
      simpa [hpc] using hnotified ht
    · simpa [hpc, hc] using ht
  leaving t ht := by
    by_cases hc : t = k.current
    · subst hc
      simpa [hpc] using hleaving ht
    · simpa [hpc, hc] using ht
  dying t stage hd := by
    by_cases hc : t = k.current
    · subst hc
      exact hdying stage (by simpa [hpc] using hd)
    · exact .inl ⟨stage, by simpa [hpc, hc] using hd⟩
  zombie t ht := by
    by_cases hc : t = k.current
    · subst hc
      exact hself (by simpa [hpc] using ht)
    · exact .inr ⟨by simpa [hpc, hc] using ht, hstate t hc⟩

end Frames

section Moves

variable {k k' : Kernel}

/-- A living task is listed. -/
theorem ReapInv.mem_tasks {t : TaskId}
    (h : ReapInv k) (hborn : t < k.numTasks) (hswapper : t ≠ swapperTask)
    (halive : ¬ (k.pc t).life.Notified) : t ∈ k.tasks :=
  (h.listed t).mpr ⟨hborn, hswapper, fun hr => halive (h.reaped t hr)⟩

theorem Life.not_leaving_normal {l : Life} (h : l = .normal) : ¬ l.Leaving ∧ ¬ l.Notified := by
  rw [h]
  exact ⟨id, id⟩

/-- A task that waits for a child is listed. -/
theorem ReapInv.waiter_mem {u c : TaskId}
    (h : ReapInv k) (hinv : SchedInv False k) (hc : (k.pc u).awaited = some c) :
    u ∈ k.tasks ∧ ¬ (k.pc u).life.Leaving := by
  have hborn : u < k.numTasks := by
    by_contra hge
    rw [hinv.unborn u (Nat.le_of_not_lt hge)] at hc
    cases hc
  have hswapper : u ≠ swapperTask := by
    intro hs
    rw [(hinv.fits u).swapper hs] at hc
    cases hc
  have hlife : (k.pc u).life = .normal := by
    cases hp : k.pc u <;> simp_all [Pc.awaited, Pc.life]
  have hnot := Life.not_leaving_normal hlife
  exact ⟨h.mem_tasks hborn hswapper hnot.2, hnot.1⟩

/-! ### Records of exits -/

theorem chldRecord_congr {x y : TaskStruct} (h : y.sigpending = x.sigpending) :
    y.chldRecord = x.chldRecord := by
  simp only [TaskStruct.chldRecord, h]

/-- What sending the record of an exit does to the records of the tasks. -/
theorem sendSigInfo_chld {t : TaskId} {info : Siginfo} (hsigno : info.signo = SIGCHLD)
    (hs : k.sendSigInfo t info = .ok k') (t' : TaskId) :
    (k'.task t').chldRecord = (k.task t').chldRecord ∨
      t' = t ∧ ((k'.task t').chldRecord = none ∨ (k'.task t').chldRecord = some info) := by
  have hwake : ∀ k₁ : Kernel, ((k₁.wakeUpProcess t).task t').chldRecord =
      (k₁.task t').chldRecord := by
    intro k₁
    rcases wakeUpProcess_task k₁ t t' with h' | ⟨-, h'⟩ <;> rw [h']
    exact chldRecord_congr rfl
  rcases sendSigInfo_cases hs with
    rfl | ⟨-, rfl⟩ | ⟨act, siginfos, hact, -, -, hset, kp, rfl, hk'⟩
  · exact .inl rfl
  · refine .inl ?_
    rw [hwake]
    by_cases ht : t' = t
    · subst ht
      simp only [Kernel.modTask, Function.update_self]
      exact chldRecord_congr rfl
    · simp [Kernel.modTask, ht]
  · have hself := Structure.Array.set_lookup_self
      (Nat.lt_of_lt_of_le (sigactionOf_lt hact) (by decide)) hset
    have hpost : ∀ k₁ : Kernel, (k₁.task t').chldRecord = (((k.modTask t fun task => { task with
        sigpending := { task.sigpending with
          pendingMask := task.sigpending.pendingMask ||| maskval info.signo
          siginfos := siginfos } }).task t').chldRecord) →
        (k₁.task t').chldRecord = (k.task t').chldRecord ∨
          t' = t ∧ ((k₁.task t').chldRecord = none ∨ (k₁.task t').chldRecord = some info) := by
      intro k₁ h₁
      rw [h₁]
      by_cases ht : t' = t
      · subst ht
        refine .inr ⟨rfl, ?_⟩
        rw [hsigno] at hself
        simp only [Kernel.modTask, Function.update_self, TaskStruct.chldRecord, hself]
        split
        · exact .inl rfl
        · by_cases hcode : info.code = .cldExited
          · exact .inr (by simp [hcode])
          · exact .inl (by simp [hcode])
      · exact .inl (by simp [Kernel.modTask, ht])
    rcases hk' with rfl | ⟨-, rfl⟩
    · exact hpost _ rfl
    · exact hpost _ (hwake _)

/-- While a record is pending, another signal of its kind is dropped. -/
theorem sendSigInfo_pending {t : TaskId} {info : Siginfo}
    (hp : k.queues t info.signo = false) (hs : k.sendSigInfo t info = .ok k') : k' = k := by
  simp only [Kernel.queues, decide_eq_false_iff_not] at hp
  simp only [Kernel.sendSigInfo] at hs
  split at hs
  next => cases hs
  next =>
    cases hs
    rfl

theorem chldRecord_of_queues {t : TaskId} (hq : k.queues t SIGCHLD = true) :
    (k.task t).chldRecord = none := by
  simp only [Kernel.queues, decide_eq_true_eq] at hq
  exact if_pos hq

/-- The record of an exit is posted, and the log says so. -/
theorem ReapInv.post {p x : TaskId}
    (h : ReapInv k) (hp : p ∈ k.tasks) (hx : x < k.numTasks ∧ x ≠ swapperTask)
    (hn : (k.pc x).life.Notified) (hlink : (k.task x).ppid = (k.task p).pid)
    (htasks : k'.tasks = k.tasks) (hnum : k'.numTasks = k.numTasks)
    (hnext : k'.nextPid = k.nextPid) (hlog : k'.log = .queued p x :: k.log)
    (hpc : k'.pc = k.pc)
    (hrecord : ∀ t, (k'.task t).pid = (k.task t).pid ∧ (k'.task t).ppid = (k.task t).ppid ∧
      (k'.task t).state = (k.task t).state)
    (hother : ∀ t, t ≠ p → (k'.task t).chldRecord = (k.task t).chldRecord)
    (hself : ∀ info, (k'.task p).chldRecord = some info → info.pid = (k.task x).pid) :
    ReapInv k' := by
  have hreaped : ∀ t, Reaped k' t ↔ Reaped k t := by
    intro t
    unfold Reaped
    simp [hlog]
  have hplay : ∀ t, InPlay k' t ↔ InPlay k t := by
    intro t
    unfold InPlay
    rw [htasks, hpc]
  have hpb := (h.listed p).mp hp
  refine
    { nextPid := by rw [hnext]; exact h.nextPid
      pid_le := fun t => by rw [(hrecord t).1]; exact h.pid_le t
      ppid_le := fun t => by rw [(hrecord t).2.1]; exact h.ppid_le t
      unique := fun t u ht hu heq => ?_
      listed := fun t => by rw [htasks, hnum, hreaped]; exact h.listed t
      reaped := fun t ht => by rw [hpc]; exact h.reaped t ((hreaped t).mp ht)
      zombie := fun t ht hr => ?_
      queued := fun q y hy => ?_
      record := fun q info hi => ?_
      awaited := fun u c hc => ?_ }
  · rw [(hrecord t).1, (hrecord u).1] at heq
    exact h.unique t u ((hplay t).mp ht) ((hplay u).mp hu) heq
  · rw [(hrecord t).2.2]
    exact h.zombie t (hpc ▸ ht) fun hc => hr ((hreaped t).mpr hc)
  · rw [hlog] at hy
    rw [hnum, hpc, (hrecord y).2.1, (hrecord q).1]
    simp only [lastQueued] at hy
    split at hy
    next hq =>
      simp only [Option.some.injEq] at hy
      subst hy
      subst hq
      exact ⟨⟨hpb.1, hpb.2.1⟩, hx, hn, fun _ => hlink⟩
    next => exact h.queued q y hy
  · by_cases hq : q = p
    · subst hq
      refine ⟨x, by simp [hlog, lastQueued], ?_⟩
      rw [(hrecord x).1]
      exact hself info hi
    · rw [hother q hq] at hi
      obtain ⟨y, hy, hpid⟩ := h.record q info hi
      refine ⟨y, ?_, by rw [(hrecord y).1]; exact hpid⟩
      simpa [hlog, lastQueued, Ne.symm hq] using hy
  · rw [hpc] at hc
    rw [hnum, (hrecord c).2.1, (hrecord u).1]
    exact h.awaited u c hc

/-- `_do_wait` on a listed task whose exit has got past the notification. -/
theorem ReapInv.reap {c : TaskId} {pid : Nat}
    (h : ReapInv k) (hmem : c ∈ k.tasks) (hn : (k.pc c).life.Notified) :
    ReapInv (k.doWaitTask c pid) := by
  have hreaped : ∀ t, Reaped (k.doWaitTask c pid) t ↔ t = c ∨ Reaped k t := by
    intro t
    constructor
    · rintro ⟨caller, pid', code, hev⟩
      rcases List.mem_cons.mp hev with heq | hold
      · cases heq
        exact .inl rfl
      · exact .inr ⟨caller, pid', code, hold⟩
    · rintro (rfl | ⟨caller, pid', code, hev⟩)
      · exact ⟨_, _, _, List.mem_cons_self ..⟩
      · exact ⟨caller, pid', code, List.mem_cons_of_mem _ hev⟩
  have hmod : ∀ t, ((k.doWaitTask c pid).task t).pid = (k.task t).pid ∧
      ((k.doWaitTask c pid).task t).ppid = (k.task t).ppid ∧
      ((k.doWaitTask c pid).task t).chldRecord = (k.task t).chldRecord := by
    intro t
    by_cases ht : t = c
    · subst ht
      simp only [Kernel.doWaitTask, Kernel.modTask, Function.update_self]
      exact ⟨trivial, trivial, chldRecord_congr rfl⟩
    · simp [Kernel.doWaitTask, Kernel.modTask, ht]
  have hplay : ∀ t, InPlay (k.doWaitTask c pid) t → InPlay k t := by
    rintro t (ht | ht)
    · exact .inl (List.mem_filter.mp ht).1
    · exact .inr ht
  refine
    { nextPid := h.nextPid
      pid_le := fun t => by rw [(hmod t).1]; exact h.pid_le t
      ppid_le := fun t => by rw [(hmod t).2.1]; exact h.ppid_le t
      unique := fun t u ht hu heq => ?_
      listed := fun t => ?_
      reaped := fun t ht => ?_
      zombie := fun t ht hr => ?_
      queued := fun p x hx => ?_
      record := fun p info hi => ?_
      awaited := fun u a ha => ?_ }
  · rw [(hmod t).1, (hmod u).1] at heq
    exact h.unique t u (hplay t ht) (hplay u hu) heq
  · rw [hreaped]
    change t ∈ k.tasks.filter (· ≠ c) ↔ t < k.numTasks ∧ t ≠ swapperTask ∧ _
    rw [List.mem_filter, h.listed t]
    simp only [ne_eq, decide_not, Bool.not_eq_eq_eq_not, Bool.not_true, decide_eq_false_iff_not,
      not_or]
    constructor
    · rintro ⟨⟨hb, hs, hr⟩, hne⟩
      exact ⟨hb, hs, hne, hr⟩
    · rintro ⟨hb, hs, hne, hr⟩
      exact ⟨⟨hb, hs, hr⟩, hne⟩
  · rcases (hreaped t).mp ht with rfl | hold
    · exact hn
    · exact h.reaped t hold
  · have hne : t ≠ c := fun hc => hr ((hreaped t).mpr (.inl hc))
    have hst : ((k.doWaitTask c pid).task t).state = (k.task t).state := by
      simp [Kernel.doWaitTask, Kernel.modTask, hne]
    rw [hst]
    exact h.zombie t ht fun hold => hr ((hreaped t).mpr (.inr hold))
  · rw [(hmod x).2.1, (hmod p).1]
    exact h.queued p x hx
  · rw [(hmod p).2.2] at hi
    obtain ⟨x, hx, hpid⟩ := h.record p info hi
    exact ⟨x, hx, by rw [(hmod x).1]; exact hpid⟩
  · rw [(hmod a).2.1, (hmod u).1]
    exact h.awaited u a ha

/-- The children of the exiting task are handed over. -/
theorem ReapInv.reparent {stage : ExitStage}
    (h : ReapInv k) (hinv : SchedInv False k) (hd : (k.pc k.current).life = .dying stage) :
    ReapInv k.reparentChildren := by
  have hrec : ∀ t, k.reparentChildren.task t = k.task t ∨
      (k.task t).ppid = k.cur.pid ∧
        k.reparentChildren.task t = { k.task t with ppid := 1 } := by
    intro t
    simp only [Kernel.reparentChildren]
    split
    next hc => exact .inr ⟨hc.2, rfl⟩
    next => exact .inl rfl
  have hmod : ∀ t, (k.reparentChildren.task t).pid = (k.task t).pid ∧
      (k.reparentChildren.task t).state = (k.task t).state ∧
      (k.reparentChildren.task t).chldRecord = (k.task t).chldRecord := by
    intro t
    rcases hrec t with heq | ⟨-, heq⟩
    · rw [heq]
      exact ⟨rfl, rfl, rfl⟩
    · rw [heq]
      exact ⟨rfl, rfl, chldRecord_congr rfl⟩
  -- the parent of a living task's child is not the exiting task
  have hkeep : ∀ x p, p ∈ k.tasks → ¬ (k.pc p).life.Leaving →
      (k.task x).ppid = (k.task p).pid → (k.reparentChildren.task x).ppid = (k.task p).pid := by
    intro x p hp hl hlink
    rcases hrec x with heq | ⟨hppid, -⟩
    · rw [heq]
      exact hlink
    · have hpid : (k.task p).pid = (k.task k.current).pid := by
        rw [← hlink]
        exact hppid
      have heq := h.unique p k.current (.inl hp) (.inr ⟨stage, hd⟩) hpid
      rw [heq, hd] at hl
      exact absurd trivial hl
  refine
    { nextPid := h.nextPid
      pid_le := fun t => by rw [(hmod t).1]; exact h.pid_le t
      ppid_le := fun t => ?_
      unique := fun t u ht hu heq => ?_
      listed := h.listed
      reaped := h.reaped
      zombie := fun t ht hr => by rw [(hmod t).2.1]; exact h.zombie t ht hr
      queued := fun p x hx => ?_
      record := fun p info hi => ?_
      awaited := fun u c hc => ?_ }
  · rcases hrec t with heq | ⟨-, heq⟩
    · rw [heq]
      exact h.ppid_le t
    · rw [heq]
      show 1 ≤ maxpid
      decide
  · rw [(hmod t).1, (hmod u).1] at heq
    exact h.unique t u ht hu heq
  · obtain ⟨hp, hxb, hn, hlink⟩ := h.queued p x hx
    refine ⟨hp, hxb, hn, fun hl => ?_⟩
    rw [(hmod p).1]
    exact hkeep x p (h.mem_tasks hp.1 hp.2 fun hc => hl hc.leaving) hl (hlink hl)
  · rw [(hmod p).2.2] at hi
    obtain ⟨x, hx, hpid⟩ := h.record p info hi
    exact ⟨x, hx, by rw [(hmod x).1]; exact hpid⟩
  · obtain ⟨hc', hlink⟩ := h.awaited u c hc
    obtain ⟨hu, hl⟩ := h.waiter_mem hinv hc
    rw [(hmod u).1]
    exact ⟨hc', hkeep c u hu hl hlink⟩

/-! ### Creating a task -/

theorem nextPidFrom_spec {fuel start pid next : Nat}
    (hle : start ≤ maxpid) (hs : k.nextPidFrom fuel start = some (pid, next)) :
    pid ≤ maxpid ∧ next ≤ maxpid ∧ ∀ t ∈ k.tasks, (k.task t).pid ≠ pid := by
  rw [nextPidFrom_eq] at hs
  obtain ⟨hpid, hnext, hfree⟩ := Search.searchFrom_invariant (P := (· ≤ maxpid))
    (fun _ _ => Search.cycle_le (by decide)) hle hs
  exact ⟨hpid, hnext, (pidFree_iff hpid).mp hfree⟩

theorem ReapInv.clone {flags : BitVec 32} {user : Bool} {pid next : Nat}
    (h : ReapInv k) (hinv : SchedInv False k) (hlife : (k.pc k.current).life = .normal)
    (hdying : ∀ t stage, (k.pc t).life = .dying stage → t = k.current)
    (hnext : k.nextPidFrom (maxpid + 1) k.nextPid = some (pid, next)) :
    ReapInv ({ (k.cloneSigactions flags).1 with nextPid := next }.addTask
      (k.cloneTask flags user pid (k.cloneSigactions flags).2)) := by
  rw [cloneSigactions_frame]
  obtain ⟨hpid, hnextle, hfree⟩ := nextPidFrom_spec h.nextPid hnext
  have hnone : ∀ t stage, (k.pc t).life ≠ .dying stage := by
    intro t stage hd
    rw [hdying t stage hd, hlife] at hd
    cases hd
  have hunborn := hinv.unborn k.numTasks (Nat.le_refl _)
  have hnew : ¬ Reaped k k.numTasks := by
    intro hr
    have := h.reaped _ hr
    rw [hunborn] at this
    exact this
  have hmem : ∀ t ∈ k.tasks, t ≠ k.numTasks := fun t ht =>
    Nat.ne_of_lt ((h.listed t).mp ht).1
  have hold : ∀ {t}, t ≠ k.numTasks → Function.update k.task k.numTasks
      (k.cloneTask flags user pid (k.cloneSigactions flags).2) t = k.task t :=
    fun ht => Function.update_of_ne ht _ _
  refine
    { nextPid := hnextle, pid_le := fun t => ?_, ppid_le := fun t => ?_
      unique := fun t u ht hu heq => ?_, listed := fun t => ?_, reaped := fun t ht => ?_
      zombie := fun t ht hr => ?_, queued := fun p x hx => ?_, record := fun p info hi => ?_
      awaited := fun u c hc => ?_ }
  all_goals simp only [Kernel.addTask, InPlay, Reaped, hinv.update_pc] at *
  · by_cases ht : t = k.numTasks
    · subst ht
      simpa [Kernel.cloneTask] using hpid
    · rw [hold ht]
      exact h.pid_le t
  · by_cases ht : t = k.numTasks
    · subst ht
      simp only [Function.update_self, Kernel.cloneTask]
      split
      · exact h.ppid_le _
      · exact h.pid_le _
    · rw [hold ht]
      exact h.ppid_le t
  · have hcases : ∀ v, (v ∈ k.tasks ++ [k.numTasks] ∨ ∃ stage, (k.pc v).life = .dying stage) →
        v ∈ k.tasks ∨ v = k.numTasks := by
      rintro v (hv | ⟨stage, hv⟩)
      · exact (List.mem_append.mp hv).imp id List.mem_singleton.mp
      · exact absurd hv (hnone v stage)
    rcases hcases t ht with ht | rfl <;> rcases hcases u hu with hu | rfl
    · rw [hold (hmem t ht), hold (hmem u hu)] at heq
      exact h.unique t u (.inl ht) (.inl hu) heq
    · rw [hold (hmem t ht), Function.update_self] at heq
      exact absurd heq (hfree t ht)
    · rw [hold (hmem u hu), Function.update_self] at heq
      exact absurd heq.symm (hfree u hu)
    · rfl
  · rw [List.mem_append, List.mem_singleton, h.listed t]
    constructor
    · rintro (⟨hb, hs, hr⟩ | rfl)
      · exact ⟨Nat.lt_succ_of_lt hb, hs, hr⟩
      · exact ⟨Nat.lt_succ_self _, Nat.ne_of_gt hinv.swapperBorn, hnew⟩
    · rintro ⟨hb, hs, hr⟩
      by_cases ht : t = k.numTasks
      · exact .inr ht
      · exact .inl ⟨(lt_succ_iff_of_ne ht).mp hb, hs, hr⟩
  · exact h.reaped t ht
  · have hne : t ≠ k.numTasks := by
      rintro rfl
      rw [hunborn] at ht
      exact ht
    rw [hold hne]
    exact h.zombie t ht hr
  · obtain ⟨hp, hxb, hn, hlink⟩ := h.queued p x hx
    rw [hold (Nat.ne_of_lt hp.1), hold (Nat.ne_of_lt hxb.1)]
    exact ⟨⟨Nat.lt_succ_of_lt hp.1, hp.2⟩, ⟨Nat.lt_succ_of_lt hxb.1, hxb.2⟩, hn, hlink⟩
  · by_cases hp : p = k.numTasks
    · subst hp
      simp [Kernel.cloneTask, TaskStruct.chldRecord, Sigpending.empty] at hi
    · rw [hold hp] at hi
      obtain ⟨x, hx, hpidx⟩ := h.record p info hi
      refine ⟨x, hx, ?_⟩
      rw [hold (Nat.ne_of_lt (h.queued p x hx).2.1.1)]
      exact hpidx
  · obtain ⟨hcb, hlink⟩ := h.awaited u c hc
    have hu : u ≠ k.numTasks := by
      rintro rfl
      rw [hunborn] at hc
      cases hc
    rw [hold hu, hold (Nat.ne_of_lt hcb.1)]
    exact ⟨⟨Nat.lt_succ_of_lt hcb.1, hcb.2⟩, hlink⟩

/-! ### The other moves -/

/-- One record is replaced by one that looks the same to the family. -/
theorem records_update {t u : TaskId} {x : TaskStruct} {task : TaskId → TaskStruct}
    (htask : task = Function.update k.task u x)
    (hpid : x.pid = (k.task u).pid) (hppid : x.ppid = (k.task u).ppid)
    (hchld : x.chldRecord = none ∨ x.chldRecord = (k.task u).chldRecord) :
    (task t).pid = (k.task t).pid ∧ (task t).ppid = (k.task t).ppid ∧
      ((task t).chldRecord = none ∨ (task t).chldRecord = (k.task t).chldRecord) := by
  rw [htask]
  by_cases ht : t = u
  · subst ht
    simpa using ⟨hpid, hppid, hchld⟩
  · simp [ht]

theorem records_refl (k : Kernel) (t : TaskId) :
    (k.task t).pid = (k.task t).pid ∧ (k.task t).ppid = (k.task t).ppid ∧
      ((k.task t).chldRecord = none ∨ (k.task t).chldRecord = (k.task t).chldRecord) :=
  ⟨rfl, rfl, .inr rfl⟩

/-- From one stage of `do_exit` to the next. -/
theorem SameFamily.stage {k₀ : Kernel} {stage stage' : ExitStage}
    (hpc : k.pc k.current = .exit stage)
    (hframe : k₀.tasks = k.tasks ∧ k₀.numTasks = k.numTasks ∧ k₀.nextPid = k.nextPid ∧
      k₀.pc = k.pc)
    (hlog : k₀.log = k.log ∨ k₀.log = .infosFreed k.current :: k.log)
    (hrecord : ∀ t, (k₀.task t).pid = (k.task t).pid ∧ (k₀.task t).ppid = (k.task t).ppid ∧
      ((k₀.task t).chldRecord = none ∨ (k₀.task t).chldRecord = (k.task t).chldRecord))
    (hstate : ∀ t, (k₀.task t).state = (k.task t).state)
    (hnotified : (Life.dying stage).Notified → (Life.dying stage').Notified) :
    SameFamily k (k₀.setPc k.current (.exit stage')) := by
  obtain ⟨htasks, hnum, hnext, hpc₀⟩ := hframe
  have hlife : (k.pc k.current).life = .dying stage := by rw [hpc]; rfl
  refine .advance htasks hnum hnext hlog (p := .exit stage') ?_ rfl hrecord
    (fun t _ => hstate t) (fun _ => .inr ⟨by rw [hlife]; trivial, hstate _⟩) ?_
    (fun _ => trivial) fun _ _ => .inl ⟨stage, hlife⟩
  · simp only [Kernel.setPc, hpc₀]
  · rw [hlife]
    exact hnotified

theorem putSession_family (k : Kernel) :
    (k.putSession.tasks = k.tasks ∧ k.putSession.numTasks = k.numTasks ∧
      k.putSession.nextPid = k.nextPid ∧ k.putSession.pc = k.pc) ∧
      k.putSession.log = k.log ∧
      ∀ t, ((k.putSession.task t).pid = (k.task t).pid ∧
        (k.putSession.task t).ppid = (k.task t).ppid ∧
        ((k.putSession.task t).chldRecord = none ∨
          (k.putSession.task t).chldRecord = (k.task t).chldRecord)) ∧
        (k.putSession.task t).state = (k.task t).state := by
  unfold Kernel.putSession
  split
  · refine ⟨⟨rfl, rfl, rfl, rfl⟩, rfl, fun t => ⟨?_, ?_⟩⟩
    · exact records_update rfl rfl rfl (.inr (chldRecord_congr rfl))
    · by_cases ht : t = k.current
      · subst ht
        simp [Kernel.modTask]
      · simp [Kernel.modTask, ht]
  · exact ⟨⟨rfl, rfl, rfl, rfl⟩, rfl, fun t => ⟨records_refl k t, rfl⟩⟩

theorem putSiginfos_family (hs : k.putSiginfos = .ok k') :
    (k'.tasks = k.tasks ∧ k'.numTasks = k.numTasks ∧ k'.nextPid = k.nextPid ∧ k'.pc = k.pc) ∧
      (k'.log = k.log ∨ k'.log = .infosFreed k.current :: k.log) ∧
      ∀ t, ((k'.task t).pid = (k.task t).pid ∧ (k'.task t).ppid = (k.task t).ppid ∧
        ((k'.task t).chldRecord = none ∨ (k'.task t).chldRecord = (k.task t).chldRecord)) ∧
        (k'.task t).state = (k.task t).state := by
  obtain ⟨siginfos, hdestroy, rfl⟩ := putSiginfos_eq hs
  have hlook : siginfos.lookup SIGCHLD = k.cur.sigpending.siginfos.lookup SIGCHLD := by
    unfold Structure.Array.destroy at hdestroy
    split at hdestroy <;> cases hdestroy <;> rfl
  refine ⟨⟨rfl, rfl, rfl, rfl⟩, ?_, fun t => ⟨?_, ?_⟩⟩
  · simp only
    split
    · exact .inr rfl
    · exact .inl rfl
  · have hchld : ({ k.cur with sigpending := { k.cur.sigpending with
        siginfos := siginfos } } : TaskStruct).chldRecord = k.cur.chldRecord := by
      simp only [TaskStruct.chldRecord, hlook]
    exact records_update rfl rfl rfl (.inr hchld)
  · by_cases ht : t = k.current
    · subst ht
      simp [Kernel.modTask]
    · simp [Kernel.modTask, ht]

theorem ReapInv.doExit {exitcode : Int}
    (h : ReapInv k) (hinv : SchedInv False k) (hlife : (k.pc k.current).life = .normal)
    (hidle : k.pc k.current ≠ .idle) : ReapInv (k.doExit exitcode) := by
  obtain ⟨hl, hn⟩ := Life.not_leaving_normal hlife
  have hswapper : k.current ≠ swapperTask := fun hs => hidle ((hinv.fits _).swapper hs)
  refine h.same (.advance rfl rfl rfl (.inl rfl) (p := .exit .closing) rfl rfl ?_ ?_ ?_
    (fun hc => absurd hc hn) (fun hc => absurd hc hl)
    fun _ _ => .inr (h.mem_tasks hinv.currentBorn hswapper hn))
  · exact fun t => records_update rfl rfl rfl (.inr (chldRecord_congr rfl))
  · exact fun t ht => by simp [Kernel.doExit, Kernel.setPc, Kernel.modTask, ht]
  · exact fun _ => .inl (by simp [Kernel.doExit, Kernel.setPc, Kernel.modTask])

/-- Telling the parent. -/
theorem ReapInv.notify
    (h : ReapInv k) (hinv : SchedInv False k) (hpc : k.pc k.current = .exit .notify)
    {k₀ : Kernel} (hs : k.notifyParent = .ok k₀) :
    ReapInv (k₀.setPc k.current (.exit .reparent)) := by
  have hlife : (k.pc k.current).life = .dying .notify := by rw [hpc]; rfl
  have hswapper : k.current ≠ swapperTask := by
    intro hc
    have := (hinv.fits _).swapper hc
    rw [hpc] at this
    cases this
  have hmem : k.current ∈ k.tasks := by
    refine h.mem_tasks hinv.currentBorn hswapper ?_
    rw [hlife]
    exact id
  -- the same step, with the control point moved first
  have h₁ : ReapInv (k.setPc k.current (.exit .reparent)) :=
    h.same (.stage hpc ⟨rfl, rfl, rfl, rfl⟩ (.inl rfl) (records_refl k) (fun _ => rfl)
      fun hc => hc.elim)
  have hn₁ : ((k.setPc k.current (.exit .reparent)).pc k.current).life.Notified := by
    simp [Kernel.setPc, Pc.life, Life.Notified]
  unfold Kernel.notifyParent at hs
  split at hs
  next => cases hs
  next =>
    split at hs
    next => cases hs
    next parent hget =>
      split at hs
      next => cases hs
      next =>
        split at hs
        next =>
          cases hs
          exact h₁.reap hmem hn₁
        next =>
          obtain ⟨hp, hpid⟩ := getTaskFromPid_mem hget
          have hlink : (k.task k.current).ppid = (k.task parent).pid := by
            have hle := h.ppid_le k.current
            simp only [maxpid] at hle
            have hmod : k.cur.ppid % 2 ^ 16 = k.cur.ppid :=
              Nat.mod_eq_of_lt (Nat.lt_of_le_of_lt hle (by decide))
            rw [hpid, hmod]
            rfl
          split at hs
          next hq =>
            have heq := sendSigInfo_frame hs
            have hpidf := sendSigInfo_unsent TaskStruct.pid (fun _ _ _ _ => rfl) hs
            have hppidf := sendSigInfo_unsent TaskStruct.ppid (fun _ _ _ _ => rfl) hs
            have hstate := sendSigInfo_state hs
            have hchld := sendSigInfo_chld rfl hs
            have hnone := chldRecord_of_queues hq
            refine h₁.post (p := parent) (x := k.current) hp ⟨hinv.currentBorn, hswapper⟩ hn₁
              hlink (by rw [heq]; rfl) (by rw [heq]; rfl) (by rw [heq]; rfl) (by rw [heq]; rfl)
              (by rw [heq]; rfl) (fun t => ⟨hpidf t, hppidf t, hstate t⟩) (fun t ht => ?_)
              fun info hi => ?_
            · rcases hchld t with hold | ⟨hc, -⟩
              · exact hold
              · exact absurd hc ht
            · rcases hchld parent with hold | ⟨-, hold | hold⟩
              · rw [show (k₀.setPc k.current (.exit .reparent)).task = k₀.task from rfl, hold] at hi
                rw [show (k.logQueued parent).task = k.task from rfl, hnone] at hi
                cases hi
              · rw [show (k₀.setPc k.current (.exit .reparent)).task = k₀.task from rfl, hold] at hi
                cases hi
              · rw [show (k₀.setPc k.current (.exit .reparent)).task = k₀.task from rfl, hold] at hi
                cases hi
                rfl
          next hq =>
            have hpending : k.queues parent k.exitSiginfo.signo = false :=
              Bool.eq_false_iff.mpr hq
            rw [sendSigInfo_pending hpending hs]
            exact h₁

theorem ReapInv.sched
    (h : ReapInv k) (hpc : k.pc k.current = .exit .sched) (hs : Scheduled k .exited k') :
    ReapInv k' := by
  have heq := hs.frame
  have hlife : (k.pc k.current).life = .dying .sched := by rw [hpc]; rfl
  have hrec : ∀ t, (k'.task t).pid = (k.task t).pid ∧ (k'.task t).ppid = (k.task t).ppid ∧
      (k'.task t).state = (k.task t).state ∧
      (k'.task t).chldRecord = (k.task t).chldRecord := by
    intro t
    rcases hs.task t with h' | ⟨-, h'⟩ <;> rw [h']
    · exact ⟨rfl, rfl, rfl, rfl⟩
    · exact ⟨rfl, rfl, rfl, chldRecord_congr rfl⟩
  refine h.same (.advance (by rw [heq]) (by rw [heq]) (by rw [heq]) (.inl (by rw [heq]))
    (p := .exited) (by rw [heq]) rfl (fun t => ⟨(hrec t).1, (hrec t).2.1, .inr (hrec t).2.2.2⟩)
    (fun t _ => (hrec t).2.2.1) (fun _ => .inr ⟨by rw [hlife]; trivial, (hrec _).2.2.1⟩)
    (fun _ => trivial) (fun _ => trivial) fun _ _ => .inl ⟨.sched, hlife⟩)

end Moves

/-! ### Stale records -/

/-- The slow paths act on no stale record: when a wait takes the record of an exit for
its child's, the child that left the record has not been reaped, nor has the child that
`do_wait` was called for. -/
def NotStale (k : Kernel) (l : Label) : Prop :=
  l.IsGo → signalPending k.cur ≠ 0 →
    ∀ info x, k.cur.chldRecord = some info → lastQueued k.log k.current = some x →
      (∀ c oldaction, k.pc k.current = .doWait c oldaction .check →
        info.pid = (k.task c).pid → ¬ Reaped k x ∧ ¬ Reaped k c) ∧
      ∀ pgid oldaction, k.pc k.current = .doWaitpg pgid oldaction .check →
        (∀ t, k.getTaskFromPid info.pid = some t → pgid = 0 ∨ (k.task t).pgid = pgid) →
          ¬ Reaped k x

section Families

variable {k k' : Kernel} {l : Label}

/-- What a child that left a record and was not reaped is like. -/
theorem ReapInv.unreaped {x : TaskId}
    (h : ReapInv k) (hx : lastQueued k.log k.current = some x) (hr : ¬ Reaped k x) :
    x ∈ k.tasks ∧ (k.pc x).life.Notified ∧ (k.task x).state = .zombie := by
  obtain ⟨-, hxb, hn, -⟩ := h.queued _ _ hx
  exact ⟨(h.listed x).mpr ⟨hxb.1, hxb.2, hr⟩, hn, h.zombie x hn.leaving hr⟩

/-- The slow path of `do_wait` reaps the child it was called for, a zombie. -/
theorem ReapInv.reapAwaited_spec {c : TaskId} {oldaction : Sigaction} {info : Siginfo}
    (h : ReapInv k) (hok : NotStale k l) (hl : l.IsGo) (hsig : signalPending k.cur ≠ 0)
    (hpc : k.pc k.current = .doWait c oldaction .check)
    (hrec : k.cur.chldRecord = some info) (hpid : info.pid = (k.task c).pid) :
    c ∈ k.tasks ∧ (k.pc c).life.Notified ∧ (k.task c).state = .zombie ∧
      (k.task c).ppid = k.cur.pid := by
  obtain ⟨x, hx, hpidx⟩ := h.record k.current info hrec
  obtain ⟨hrx, hrc⟩ := (hok hl hsig info x hrec hx).1 c oldaction hpc hpid
  obtain ⟨hmem, hn, hz⟩ := h.unreaped hx hrx
  obtain ⟨hcb, hppid⟩ := h.awaited k.current c (by rw [hpc]; rfl)
  have hcmem : c ∈ k.tasks := (h.listed c).mpr ⟨hcb.1, hcb.2, hrc⟩
  have hcx : c = x := h.unique c x (.inl hcmem) (.inl hmem) (by rw [← hpid, hpidx])
  rw [hcx]
  exact ⟨hmem, hn, hz, hcx ▸ hppid⟩

/-- The slow path of `do_waitpg` finds the child that left the record. -/
theorem ReapInv.getTaskFromPid_record {x : TaskId} {info : Siginfo}
    (h : ReapInv k) (hx : lastQueued k.log k.current = some x) (hr : ¬ Reaped k x)
    (hpid : info.pid = (k.task x).pid) :
    k.getTaskFromPid info.pid = some x := by
  obtain ⟨hmem, -, -⟩ := h.unreaped hx hr
  have hle := h.pid_le x
  have hmod : (k.task x).pid % 2 ^ 16 = (k.task x).pid :=
    Nat.mod_eq_of_lt (Nat.lt_of_le_of_lt hle (by decide))
  have hfind : (k.tasks.find? fun t => (k.task t).pid = (k.task x).pid).isSome = true :=
    List.find?_isSome.mpr ⟨x, hmem, by simp⟩
  obtain ⟨t, ht⟩ := Option.isSome_iff_exists.mp hfind
  have htx : t = x := by
    have hp := List.find?_some ht
    refine h.unique t x (.inl (List.mem_of_find?_eq_some ht)) (.inl hmem) ?_
    simpa using hp
  unfold Kernel.getTaskFromPid
  rw [hpid, hmod, if_neg (Nat.not_lt.mpr hle), ht, htx]

theorem ReapInv.reapFound_spec {t : TaskId} {pgid : Nat} {oldaction : Sigaction}
    {info : Siginfo}
    (h : ReapInv k) (hok : NotStale k l) (hl : l.IsGo) (hsig : signalPending k.cur ≠ 0)
    (hpc : k.pc k.current = .doWaitpg pgid oldaction .check)
    (hrec : k.cur.chldRecord = some info) (hget : k.getTaskFromPid info.pid = some t)
    (hpgid : pgid = 0 ∨ (k.task t).pgid = pgid) :
    t ∈ k.tasks ∧ (k.pc t).life.Notified ∧ (k.task t).state = .zombie ∧
      (k.task t).ppid = k.cur.pid := by
  obtain ⟨x, hx, hpidx⟩ := h.record k.current info hrec
  have hr := (hok hl hsig info x hrec hx).2 pgid oldaction hpc fun t' ht' => by
    rw [hget] at ht'
    cases ht'
    exact hpgid
  have htx : t = x := by
    have := h.getTaskFromPid_record hx hr hpidx
    rw [hget] at this
    cases this
    rfl
  obtain ⟨hmem, hn, hz⟩ := h.unreaped hx hr
  obtain ⟨-, -, -, hlink⟩ := h.queued _ _ hx
  have hlife : (k.pc k.current).life = .normal := by rw [hpc]; rfl
  rw [htx]
  exact ⟨hmem, hn, hz, hlink (Life.not_leaving_normal hlife).1⟩

/-- Waits that act on no stale record find zombies. -/
theorem ReapInv.findsZombie (h : ReapInv k) (hok : NotStale k l) : FindsZombie k l := by
  intro hl hsig
  exact ⟨fun c oldaction info hpc hrec hpid =>
      (h.reapAwaited_spec hok hl hsig hpc hrec hpid).2.2.1,
    fun t pgid oldaction info hpc hrec hget hpgid =>
      (h.reapFound_spec hok hl hsig hpc hrec hget hpgid).2.2.1⟩

/-- The invariants that reaping rests on. -/
structure FamilyInv (k : Kernel) : Prop where
  sched : SchedInv False k
  stack : StackInv k
  reap : ReapInv k

theorem FamilyInv.notified_of_zombie {t : TaskId}
    (h : FamilyInv k) (hlife : (k.pc k.current).life = .normal)
    (hz : (k.task t).state = .zombie) : (k.pc t).life.Notified := by
  rcases (h.stack.zombieLeaving t hz).cases with ⟨stage, hd⟩ | hg
  · rw [h.stack.dyingCurrent t stage hd, hlife] at hd
    cases hd
  · rw [hg]
    trivial

theorem FamilyInv.move (h : FamilyInv k) (hok : NotStale k l) (hm : Move k l k') :
    ReapInv k' := by
  have hr := h.reap
  cases hm with
  | none => exact hr
  | clone _ _ hlife hnext _ => exact hr.clone h.sched hlife h.stack.dyingCurrent hnext
  | execPut _ hlife hput =>
      rw [putSigactions_frame hput]
      obtain ⟨hl, hn⟩ := Life.not_leaving_normal hlife
      exact hr.same (.advance rfl rfl rfl (.inl rfl) (p := .execSwap _) rfl rfl (records_refl k)
        (fun _ _ => rfl) (fun hc => hc.elim) (fun hc => absurd hc hn) (fun hc => absurd hc hl)
        fun _ hd => by cases hd)
  | execInstall _ hpc =>
      have hlife : (k.pc k.current).life = .swapping := by rw [hpc]; rfl
      have hret : ∀ k₀ : Kernel, k₀.retPc.awaited = none ∧ k₀.retPc.life = .normal := by
        intro k₀
        simp only [Kernel.retPc]
        split <;> exact ⟨rfl, rfl⟩
      refine hr.same (.advance rfl rfl rfl (.inl rfl) rfl (hret _).1 (fun t => ?_) (fun t ht => ?_)
        (fun hc => ?_) (fun hc => ?_) (fun hc => ?_) fun stage hd => ?_)
      · exact records_update rfl rfl rfl (.inr (chldRecord_congr rfl))
      · simp [Kernel.execInstall, Kernel.leave, Kernel.setPc, Kernel.modTask, ht]
      · exact absurd hc (Life.not_leaving_normal (hret _).2).1
      · rw [hlife] at hc
        exact hc.elim
      · rw [hlife] at hc
        exact hc.elim
      · rw [(hret _).2] at hd
        cases hd
  | @doExit k₀ exitcode hlife hidle hk₀ =>
      have hq : ReapInv k₀ ∧ SchedInv False k₀ ∧ k₀.pc = k.pc ∧ k₀.current = k.current := by
        rcases hk₀ with rfl | ⟨signum, rfl⟩
        · exact ⟨hr, h.sched, rfl, rfl⟩
        · exact ⟨hr.same (.quiet .kernelGetPendingSig), h.sched.modTask id rfl, rfl, rfl⟩
      obtain ⟨hr₀, hs₀, hpc, hcur⟩ := hq
      exact hr₀.doExit hs₀ (by rw [hpc, hcur]; exact hlife) (by rw [hpc, hcur]; exact hidle)
  | closing _ hpc =>
      obtain ⟨hframe, hlog, hrec⟩ := putSession_family k
      exact hr.same (.stage hpc hframe (.inl hlog) (fun t => (hrec t).1) (fun t => (hrec t).2) id)
  | putSigactions _ hpc hput =>
      rw [putSigactions_frame hput]
      exact hr.same (.stage hpc ⟨rfl, rfl, rfl, rfl⟩ (.inl rfl) (records_refl k) (fun _ => rfl) id)
  | putSiginfos _ hpc hput =>
      obtain ⟨hframe, hlog, hrec⟩ := putSiginfos_family hput
      exact hr.same (.stage hpc hframe hlog (fun t => (hrec t).1) (fun t => (hrec t).2) id)
  | notify _ hpc hput => exact hr.notify h.sched hpc hput
  | reparent _ hpc =>
      have hlife : (k.pc k.current).life = .dying .reparent := by rw [hpc]; rfl
      have hr₁ := hr.reparent h.sched hlife
      exact hr₁.same (.stage (k := k.reparentChildren) hpc ⟨rfl, rfl, rfl, rfl⟩ (.inl rfl)
        (records_refl _) (fun _ => rfl) fun _ => trivial)
  | sched _ hpc hs => exact hr.sched hpc hs
  | reapZombie hlife hmem _ hz => exact hr.reap hmem (h.notified_of_zombie hlife hz)
  | reapAwaited hl hpc hsig hrec _ hpid =>
      obtain ⟨hmem, hn, -⟩ := hr.reapAwaited_spec hok hl hsig hpc hrec hpid
      exact (hr.same (.quiet .kernelGetPendingSig)).reap hmem hn
  | reapFound hl hpc hsig hrec hget hpgid =>
      obtain ⟨hmem, hn, -⟩ := hr.reapFound_spec hok hl hsig hpc hrec hget hpgid
      exact (hr.same (.quiet .kernelGetPendingSig)).reap hmem hn

theorem ReapInv.tail (h : ReapInv k) (ht : Tail k k') : ReapInv k' := by
  cases ht with
  | quiet hq => exact h.same (.quiet hq)
  | @startsWait k₀ c oldaction hq hcur hpc hlife hmem hppid =>
      have h₀ := h.same (.quiet hq)
      have hcb := (h.listed c).mp hmem
      have hlife₀ : (k₀.pc k₀.current).life = .normal := by
        rw [hpc, hcur]
        exact hlife
      have hpcs : ∀ t, ((k₀.setPc k₀.current (.doWait c oldaction .sched)).pc t).life =
          (k₀.pc t).life := by
        intro t
        by_cases hc : t = k₀.current
        · subst hc
          rw [hlife₀]
          simp [Kernel.setPc, Pc.life]
        · simp [Kernel.setPc, hc]
      refine
        { nextPid := h₀.nextPid, pid_le := h₀.pid_le, ppid_le := h₀.ppid_le
          unique := fun t u ht hu => ?_, listed := h₀.listed
          reaped := fun t ht => ?_, zombie := fun t ht hr => ?_
          queued := fun p x hx => ?_, record := h₀.record, awaited := fun u a ha => ?_ }
      · simp only [InPlay, hpcs] at ht hu
        exact h₀.unique t u ht hu
      · rw [hpcs]
        exact h₀.reaped t ht
      · rw [hpcs] at ht
        exact h₀.zombie t ht hr
      · rw [hpcs, hpcs]
        exact h₀.queued p x hx
      · by_cases hu : u = k₀.current
        · subst hu
          simp only [Kernel.setPc, Function.update_self, Pc.awaited, Option.some.injEq] at ha
          subst ha
          refine ⟨⟨hq.numTasks ▸ hcb.1, hcb.2.1⟩, ?_⟩
          change (k₀.task c).ppid = (k₀.task k₀.current).pid
          rw [(hq.record c).ppid, (hq.record _).pid, hcur]
          exact hppid
        · simp only [Kernel.setPc, Function.update_of_ne hu] at ha
          exact h₀.awaited u a ha

theorem FamilyInv.step (h : FamilyInv k) (hok : NotStale k l) (hs : machine.Step k l k') :
    FamilyInv k' := by
  obtain ⟨k₁, hm, ht⟩ := step_effect hs
  exact
    { sched := h.sched.step (fun hf => hf.elim) hs
      stack := h.stack.step h.sched (h.reap.findsZombie hok) hs
      reap := (h.move hok hm).tail ht }

theorem FamilyInv.boot : FamilyInv boot := by
  have hpc : ∀ t, (Task.boot.pc t).life = .normal ∧ (Task.boot.pc t).awaited = none := by
    intro t
    by_cases ht : t = swapperTask <;> simp [Task.boot, ht, Pc.life, Pc.awaited]
  have hreaped : ∀ t, ¬ Reaped Task.boot t := by
    rintro t ⟨caller, pid, code, hev⟩
    cases hev
  have htask : ∀ t, (Task.boot.task t).pid ≤ 1 ∧ (Task.boot.task t).ppid = 0 ∧
      (Task.boot.task t).chldRecord = none := by
    intro t
    by_cases ht : t = swapperTask <;>
      simp [Task.boot, bootTask, ht, TaskStruct.chldRecord, Sigpending.empty]
  refine ⟨SchedInv.boot, StackInv.boot, ?_⟩
  refine
    { nextPid := by decide
      pid_le := fun t => Nat.le_trans (htask t).1 (by decide)
      ppid_le := fun t => by rw [(htask t).2.1]; decide
      unique := fun t u ht hu _ => ?_
      listed := fun t => ?_
      reaped := fun t ht => absurd ht (hreaped t)
      zombie := fun t ht _ => ?_
      queued := fun p x hx => by cases hx
      record := fun p info hi => ?_
      awaited := fun u c hc => ?_ }
  · have hone : ∀ v, InPlay Task.boot v → v = 1 := by
      rintro v (hv | ⟨stage, hv⟩)
      · exact List.mem_singleton.mp hv
      · rw [(hpc v).1] at hv
        cases hv
    rw [hone t ht, hone u hu]
  · constructor
    · intro ht
      rw [List.mem_singleton.mp ht]
      exact ⟨by decide, by decide, hreaped 1⟩
    · rintro ⟨hb, hs, -⟩
      have h1 : t = 1 := Nat.le_antisymm (Nat.lt_succ_iff.mp hb) (Nat.pos_of_ne_zero hs)
      rw [h1]
      exact List.mem_singleton_self 1
  · rw [(hpc t).1] at ht
    exact ht.elim
  · rw [(htask p).2.2] at hi
    cases hi
  · rw [(hpc u).2] at hc
    cases hc

theorem FamilyInv.reach (h : machine.Reach Init NotStale k) : FamilyInv k := by
  refine Machine.Reach.invariant (fun k hk => ?_) (fun _ _ _ h hok hs => h.step hok hs) h
  rw [hk]
  exact .boot

/-- What a move writes into the log; only zombies are reaped. -/
theorem FamilyInv.log_cases (h : FamilyInv k) (hok : NotStale k l) (hm : Move k l k') :
    k'.log = k.log ∨ (∃ parent, k'.log = .queued parent k.current :: k.log) ∨
      k'.log = .infosFreed k.current :: k.log ∨
      ∃ t, k'.log = .reaped k.current t (k.task t).pid (k.task t).exitcode :: k.log ∧
        t ∈ k.tasks ∧ (k.task t).state = .zombie ∧
        ((k.task t).ppid = k.cur.pid ∨ t = k.current ∧ k.pc t = .exit .notify) := by
  have hget : ∀ t, ((k.kernelGetPendingSig SIGCHLD).task t).exitcode = (k.task t).exitcode := by
    intro t
    by_cases ht : t = k.current
    · subst ht
      simp [Kernel.kernelGetPendingSig, Kernel.modTask]
    · simp [Kernel.kernelGetPendingSig, Kernel.modTask, ht]
  cases hm with
  | none => exact .inl rfl
  | clone =>
      rw [cloneSigactions_frame]
      exact .inl rfl
  | execPut _ _ hput =>
      rw [putSigactions_frame hput]
      exact .inl rfl
  | execInstall => exact .inl rfl
  | doExit _ _ hk₀ => rcases hk₀ with rfl | ⟨signum, rfl⟩ <;> exact .inl rfl
  | closing => exact .inl (putSession_family k).2.1
  | putSigactions _ _ hput =>
      rw [putSigactions_frame hput]
      exact .inl rfl
  | putSiginfos _ _ hput =>
      rcases (putSiginfos_family hput).2.1 with heq | heq
      · exact .inl heq
      · exact .inr (.inr (.inl heq))
  | notify _ hpc hnotify =>
      rcases notifyParent_cases hnotify with rfl | ⟨parent, k₁, hk₁, hsend⟩
      · have hlife : (k.pc k.current).life = .dying .notify := by rw [hpc]; rfl
        have hnot : ¬ (k.pc k.current).life.Notified := by
          rw [hlife]
          exact id
        have hswapper : k.current ≠ swapperTask := by
          intro hc
          have := (h.sched.fits _).swapper hc
          rw [hpc] at this
          cases this
        refine .inr (.inr (.inr ⟨k.current, rfl, ?_, ?_, .inr ⟨rfl, hpc⟩⟩))
        · exact h.reap.mem_tasks h.sched.currentBorn hswapper hnot
        · exact h.reap.zombie _ (by rw [hlife]; trivial) fun hr => hnot (h.reap.reaped _ hr)
      · rw [sendSigInfo_frame hsend]
        rcases hk₁ with rfl | rfl
        · exact .inl rfl
        · exact .inr (.inl ⟨parent, rfl⟩)
  | reparent => exact .inl rfl
  | sched _ _ hs => exact .inl (by rw [hs.frame])
  | reapZombie _ hmem hppid hz => exact .inr (.inr (.inr ⟨_, rfl, hmem, hz, .inl hppid⟩))
  | reapAwaited hl hpc hsig hrec _ hpid =>
      obtain ⟨hmem, -, hz, hppid⟩ := h.reap.reapAwaited_spec hok hl hsig hpc hrec hpid
      refine .inr (.inr (.inr ⟨_, ?_, hmem, hz, .inl hppid⟩))
      simp only [Kernel.doWaitTask, hget]
      rfl
  | reapFound hl hpc hsig hrec hget' hpgid =>
      obtain ⟨hmem, -, hz, hppid⟩ := h.reap.reapFound_spec hok hl hsig hpc hrec hget' hpgid
      refine .inr (.inr (.inr ⟨_, ?_, hmem, hz, .inl hppid⟩))
      simp only [Kernel.doWaitTask, hget]
      rfl

theorem Tail.log (ht : Tail k k') : k'.log = k.log := by
  cases ht with
  | quiet hq => exact hq.log
  | startsWait hq _ _ _ _ _ => exact hq.log

/-- The pid and the exit code of a task that is leaving are settled. -/
theorem Move.settled {t : TaskId} (hm : Move k l k') (ht : (k.pc t).life.Leaving)
    (hborn : t ≠ k.numTasks) :
    (k'.task t).pid = (k.task t).pid ∧ (k'.task t).exitcode = (k.task t).exitcode := by
  have hmod : ∀ {k₀ : Kernel} {u : TaskId} {x : TaskStruct} {task : TaskId → TaskStruct},
      task = Function.update k₀.task u x → x.pid = (k₀.task u).pid →
      x.exitcode = (k₀.task u).exitcode →
      (task t).pid = (k₀.task t).pid ∧ (task t).exitcode = (k₀.task t).exitcode := by
    intro k₀ u x task htask hpid hcode
    rw [htask]
    by_cases hu : t = u
    · subst hu
      simpa using ⟨hpid, hcode⟩
    · simp [hu]
  have hget : ∀ signum, ((k.kernelGetPendingSig signum).task t).pid = (k.task t).pid ∧
      ((k.kernelGetPendingSig signum).task t).exitcode = (k.task t).exitcode :=
    fun _ => hmod rfl rfl rfl
  have hreap : ∀ (k₀ : Kernel) u pid, ((k₀.doWaitTask u pid).task t).pid = (k₀.task t).pid ∧
      ((k₀.doWaitTask u pid).task t).exitcode = (k₀.task t).exitcode :=
    fun _ _ _ => hmod rfl rfl rfl
  cases hm with
  | none => exact ⟨rfl, rfl⟩
  | clone =>
      rw [cloneSigactions_frame]
      simp [Kernel.addTask, hborn]
  | execPut _ _ hput =>
      rw [putSigactions_frame hput]
      exact ⟨rfl, rfl⟩
  | execInstall => exact hmod rfl rfl rfl
  | doExit hlife _ hk₀ =>
      have hne : t ≠ k.current := by
        rintro rfl
        exact (Life.not_leaving_normal hlife).1 ht
      rcases hk₀ with rfl | ⟨signum, rfl⟩
      · simp [Kernel.doExit, Kernel.setPc, Kernel.modTask, hne]
      · simp [Kernel.doExit, Kernel.setPc, Kernel.modTask, Kernel.kernelGetPendingSig, hne]
  | closing =>
      simp only [Kernel.putSession]
      split
      · exact hmod rfl rfl rfl
      · exact ⟨rfl, rfl⟩
  | putSigactions _ _ hput =>
      rw [putSigactions_frame hput]
      exact ⟨rfl, rfl⟩
  | putSiginfos _ _ hput =>
      simp only [Kernel.putSiginfos] at hput
      split at hput
      next => cases hput
      next =>
        cases hput
        exact hmod rfl rfl rfl
  | notify _ _ hnotify =>
      rcases notifyParent_cases hnotify with rfl | ⟨parent, k₁, hk₁, hsend⟩
      · exact hreap k k.current k.cur.pid
      · have hpid := sendSigInfo_unsent TaskStruct.pid (fun _ _ _ _ => rfl) hsend t
        have hcode := sendSigInfo_unsent TaskStruct.exitcode (fun _ _ _ _ => rfl) hsend t
        rcases hk₁ with rfl | rfl <;> exact ⟨hpid, hcode⟩
  | reparent =>
      simp only [Kernel.setPc, Kernel.reparentChildren]
      split <;> exact ⟨rfl, rfl⟩
  | sched _ _ hs => rcases hs.task t with h' | ⟨-, h'⟩ <;> rw [h'] <;> exact ⟨rfl, rfl⟩
  | reapZombie => exact hreap _ _ _
  | reapAwaited => exact ⟨(hreap _ _ _).1.trans (hget _).1, (hreap _ _ _).2.trans (hget _).2⟩
  | reapFound => exact ⟨(hreap _ _ _).1.trans (hget _).1, (hreap _ _ _).2.trans (hget _).2⟩

theorem Tail.settled (ht : Tail k k') (t : TaskId) :
    (k'.task t).pid = (k.task t).pid ∧ (k'.task t).exitcode = (k.task t).exitcode := by
  cases ht with
  | quiet hq => exact ⟨(hq.record t).pid, (hq.record t).exitcode⟩
  | startsWait hq _ _ _ _ _ => exact ⟨(hq.record t).pid, (hq.record t).exitcode⟩

/-- `do_waitpg` dereferences an error pointer when the pid of a record is nobody's. -/
theorem doWaitpgSignal_errorPointer {pgid : Nat} {oldaction : Sigaction}
    (hs : k.doWaitpgSignal pgid oldaction = .error .errorPointer) :
    ∃ info, k.cur.chldRecord = some info ∧ k.getTaskFromPid info.pid = none := by
  have hreturn : ∀ k₀ : Kernel, k₀.waitReturn oldaction ≠ .error .errorPointer := by
    intro k₀ h₀
    simp only [Kernel.waitReturn] at h₀
    split at h₀
    next e hset =>
      cases h₀
      simp only [Kernel.setSigaction] at hset
      split at hset
      · cases hset
      · split at hset <;> cases hset
    next => cases h₀
  simp only [Kernel.doWaitpgSignal] at hs
  split at hs
  next e hpeek =>
    cases hs
    simp only [Kernel.kernelPeekPendingSig] at hpeek
    split at hpeek
    next => cases hpeek
    next =>
      split at hpeek
      next e' hget =>
        cases hpeek
        simp only [Structure.Array.get] at hget
        split at hget <;> cases hget
      next => cases hpeek
      next => cases hpeek
  next => exact absurd hs (hreturn _)
  next info hpeek =>
    split at hs
    next hcode =>
      split at hs
      next hnone => exact ⟨info, chldRecord_of_peek hpeek hcode, hnone⟩
      next =>
        split at hs
        next => exact absurd hs (hreturn _)
        next => exact absurd hs (hreturn _)
    next => exact absurd hs (hreturn _)

end Families

/-- **Reaping exactly once.**  In every run whose waits act on no stale record,
`_do_wait` is applied to zombies only, children of the caller or the exiting task
itself; it is applied to each of them at most once, and reports its pid and its exit
code, which are settled when the task exits; a task that has exited and was not reaped
is still listed as a zombie, for a wait to find; and `do_waitpg` dereferences no error
pointer. -/
theorem children_reaped_once (k : Kernel) :
    (∀ l k', machine.Reach Init NotStale k → NotStale k l → machine.Step k l k' →
      (k'.log = k.log ∨ ∃ e, k'.log = e :: k.log) ∧
      (∀ caller child pid exitcode, k'.log = .reaped caller child pid exitcode :: k.log →
        caller = k.current ∧ (k.task child).state = .zombie ∧
          ((k.task child).ppid = k.cur.pid ∨ child = k.current ∧ k.pc child = .exit .notify) ∧
          ¬ Reaped k child ∧ pid = (k.task child).pid ∧
          exitcode = (k.task child).exitcode) ∧
      ∀ t, (k.pc t).life.Leaving → (k'.task t).pid = (k.task t).pid ∧
        (k'.task t).exitcode = (k.task t).exitcode) ∧
    (machine.Reach Init NotStale k →
      (∀ t, (k.pc t).life.Leaving → ¬ Reaped k t →
        t ∈ k.tasks ∧ (k.task t).state = .zombie) ∧
      ∀ choice pgid oldaction, NotStale k (.go choice) →
        k.pc k.current = .doWaitpg pgid oldaction .check →
          ¬ machine.Faults k (.go choice) .errorPointer) := by
  refine ⟨fun l k' h hok hstep => ?_, fun h => ⟨fun t ht hr => ?_, ?_⟩⟩
  · have hinv := FamilyInv.reach h
    obtain ⟨k₁, hm, htail⟩ := step_effect hstep
    have hlog := htail.log
    have hcases := hinv.log_cases hok hm
    rw [← hlog] at hcases
    refine ⟨?_, fun caller child pid exitcode heq => ?_, fun t ht => ?_⟩
    · rcases hcases with heq | ⟨parent, heq⟩ | heq | ⟨t, heq, -⟩
      · exact .inl heq
      · exact .inr ⟨_, heq⟩
      · exact .inr ⟨_, heq⟩
      · exact .inr ⟨_, heq⟩
    · rw [heq] at hcases
      rcases hcases with hself | ⟨parent, hq⟩ | hf | ⟨t, hr, hmem, hz, hwho⟩
      · exact absurd hself (List.cons_ne_self _ _)
      · cases hq
      · cases hf
      · cases hr
        exact ⟨rfl, hz, hwho, ((hinv.reap.listed _).mp hmem).2.2, rfl, rfl⟩
    · have hborn : t ≠ k.numTasks := by
        rintro rfl
        rw [hinv.sched.unborn _ (Nat.le_refl _)] at ht
        exact ht
      have hm' := hm.settled ht hborn
      have ht' := htail.settled t
      exact ⟨ht'.1.trans hm'.1, ht'.2.trans hm'.2⟩
  · have hinv := FamilyInv.reach h
    refine ⟨?_, hinv.reap.zombie t ht hr⟩
    have hborn : t < k.numTasks := by
      by_contra hge
      rw [hinv.sched.unborn t (Nat.le_of_not_lt hge)] at ht
      exact ht
    refine (hinv.reap.listed t).mpr ⟨hborn, fun hs => ?_, hr⟩
    rw [(hinv.sched.fits t).swapper hs] at ht
    exact ht
  · intro choice pgid oldaction hok hpc hfault
    have hinv := FamilyInv.reach h
    have hexec : k.goOn choice = .error .errorPointer :=
      (faults_go hfault).resolve_left nofun
    simp only [Kernel.goOn, hpc, Kernel.waitLoop] at hexec
    split at hexec
    next hsig =>
      obtain ⟨info, hrec, hnone⟩ := doWaitpgSignal_errorPointer hexec
      obtain ⟨x, hx, hpidx⟩ := hinv.reap.record _ _ hrec
      have hr := (hok ⟨choice, rfl⟩ hsig info x hrec hx).2 pgid oldaction hpc fun t ht => by
        rw [hnone] at ht
        cases ht
      have hget := hinv.reap.getTaskFromPid_record hx hr hpidx
      rw [hnone] at hget
      cases hget
    next => cases hexec

/-- With `SIGCHLD` blocked, a parent reaps its first child, which leaves the record of
the exit behind, and waits for its second one, which sends it a signal. -/
def staleRun : List Label :=
  [.go false, .go false, .call (.execve .linux), .go false, .go false, .go false,
    .call (.rtSigprocmask 0 (maskval SIGCHLD)), .go false, .go false,
    .call (.clone 0), .go false, .go false, .call (.clone 0), .go false, .go false,
    .irqPit, .go false, .go false,
    -- the first child
    .go false, .go false, .go false, .call (.exit 0), .go false, .go false, .go false,
    .go false, .go false, .go false,
    -- the second child
    .go false, .go false, .go false, .irqPit, .go false, .go false,
    -- the parent
    .call (.waitpid 2 false), .go false, .go false, .call (.waitpid (-1) false), .go false,
    -- the second child
    .call (.kill 1 SIGTERM), .go false, .go false, .irqPit, .go false, .go false,
    .go false]

/-- The parent has reaped the child with pid 2, finds its record again in `do_waitpg`,
and dereferences what `get_task_from_pid` says about it. -/
theorem staleRecord_faults :
    ∃ k, machine.Reach Init (fun _ _ => True) k ∧
      Event.reaped 1 2 2 0 ∈ k.log ∧ k.current = 1 ∧
      k.pc k.current = .doWaitpg 0 Sigaction.default .check ∧
      k.getTaskFromPid 2 = none ∧ machine.Faults k (.go false) .errorPointer := by
  have hrun : (machine.runLabels staleRun boot).any (fun k =>
      Event.reaped 1 2 2 0 ∈ k.log ∧ k.current = 1 ∧
        k.pc k.current = .doWaitpg 0 Sigaction.default .check ∧
        k.getTaskFromPid 2 = none ∧
        machine.faultsWith (.go false) .errorPointer k = true) = true := by
    decide +kernel
  obtain ⟨k, hreach, hk⟩ := Machine.exists_reach_of_run (show Init boot from rfl) hrun
  simp only [decide_eq_true_eq] at hk
  obtain ⟨hlog, hcur, hpc, hget, hfault⟩ := hk
  exact ⟨k, hreach, hlog, hcur, hpc, hget, Machine.faults_of_faultsWith hfault⟩

end Task
end JkxyKernel
