import JkxyKernel.Task.Reaping

/-!
# The allocation of pids

`next_pid` moves the counter of `_next_pid` on until no listed task has the pid it shows.
The counter goes up to `MAXPID` and then starts again at `LOOPPID`, so a free pid from
there on is found; pids below `LOOPPID` are handed out in the first pass only.

Only `do_clone` changes the pids of the listed tasks; a task that is reaped leaves the
list.  So the pids of the listed tasks, zombies among them, differ in every state.
-/

namespace JkxyKernel
namespace Task

open Kernel Search

namespace Kernel

/-- What `_next_pid` returns in a call of `next_pid`, one after the other. -/
def pidsTried (k : Kernel) : List Nat :=
  tried succPid k.pidFree (maxpid + 1) k.nextPid

end Kernel

/-- The histories of the kernel, with everything `_next_pid` has returned. -/
inductive PidHistory : Kernel → List Nat → Prop
  | start {k : Kernel} : Init k → PidHistory k []
  | step {k k' : Kernel} {l : Label} {history : List Nat} :
      PidHistory k history → machine.Step k l k' → k'.numTasks = k.numTasks →
      PidHistory k' history
  /-- A task was created. -/
  | create {k k' : Kernel} {l : Label} {history : List Nat} :
      PidHistory k history → machine.Step k l k' → k'.numTasks ≠ k.numTasks →
      PidHistory k' (history ++ k.pidsTried)

section Search

variable {k : Kernel} {rounds pid next : Nat}

/-- The values of the counter. -/
def InRange (pid : Nat) : Prop :=
  0 < pid ∧ pid ≤ maxpid

theorem InRange.succPid (h : InRange pid) : InRange (succPid pid) := by
  rw [succPid_eq]
  exact ⟨Nat.lt_of_lt_of_le Nat.one_pos (le_cycle (by decide) h.1), cycle_le (by decide)⟩

/-- What `next_pid` returns is in range, and no listed task has it. -/
theorem nextPidFrom_fresh (h : InRange k.nextPid)
    (hs : k.nextPidFrom rounds k.nextPid = some (pid, next)) :
    InRange pid ∧ InRange next ∧ ∀ t ∈ k.tasks, (k.task t).pid ≠ pid := by
  rw [nextPidFrom_eq] at hs
  obtain ⟨hpid, hnext, hfree⟩ := searchFrom_invariant (P := InRange) (fun _ => InRange.succPid) h hs
  exact ⟨hpid, hnext, (pidFree_iff hpid.2).mp hfree⟩

/-- `next_pid` finds a pid when one of the loop is free. -/
theorem nextPidFrom_terminates (h : k.nextPid ≤ maxpid)
    (hlo : looppid ≤ pid) (hhi : pid ≤ maxpid) (hfree : ∀ t ∈ k.tasks, (k.task t).pid ≠ pid) :
    (k.nextPidFrom (maxpid + 1) k.nextPid).isSome = true := by
  obtain ⟨i, hi, hpid⟩ := exists_cycle_iterate h hlo hhi
  rw [nextPidFrom_eq]
  refine searchFrom_isSome (i := i) (Nat.lt_succ_of_le hi) ?_
  have hpid' : succPid^[i] k.nextPid = pid := hpid
  rw [hpid']
  exact (pidFree_iff hhi).mpr hfree

theorem looppid_le_succPid (h : looppid ≤ pid) : looppid ≤ succPid pid := by
  rw [succPid_eq]
  exact le_cycle (Nat.le_refl _) h

end Search

section Steps

variable {k k' : Kernel} {l : Label}

/-- A change that creates no task. -/
structure SamePids (k k' : Kernel) : Prop where
  tasks : k'.tasks.Sublist k.tasks
  numTasks : k'.numTasks = k.numTasks
  nextPid : k'.nextPid = k.nextPid
  pid : ∀ t, (k'.task t).pid = (k.task t).pid

/-- A task was created with a pid of `next_pid`. -/
structure CreatedPid (k k' : Kernel) (pid : Nat) : Prop where
  found : k.nextPidFrom (maxpid + 1) k.nextPid = some (pid, k'.nextPid)
  tasks : k'.tasks = k.tasks ++ [k.numTasks]
  numTasks : k'.numTasks = k.numTasks + 1
  own : (k'.task k.numTasks).pid = pid
  others : ∀ t, t ≠ k.numTasks → (k'.task t).pid = (k.task t).pid

theorem SamePids.refl (k : Kernel) : SamePids k k :=
  ⟨List.Sublist.refl _, rfl, rfl, fun _ => rfl⟩

theorem SamePids.trans {k₁ k₂ k₃ : Kernel} (h : SamePids k₁ k₂) (h' : SamePids k₂ k₃) :
    SamePids k₁ k₃ where
  tasks := h'.tasks.trans h.tasks
  numTasks := h'.numTasks.trans h.numTasks
  nextPid := h'.nextPid.trans h.nextPid
  pid t := (h'.pid t).trans (h.pid t)

theorem Quiet.samePids (h : Quiet k k') : SamePids k k' where
  tasks := by rw [h.tasks]
  numTasks := h.numTasks
  nextPid := h.nextPid
  pid t := (h.record t).pid

/-- One record is replaced by one with the same pid. -/
theorem SamePids.update {u : TaskId} {x : TaskStruct}
    (htasks : k'.tasks.Sublist k.tasks) (hnum : k'.numTasks = k.numTasks)
    (hnext : k'.nextPid = k.nextPid) (htask : k'.task = Function.update k.task u x)
    (hpid : x.pid = (k.task u).pid) : SamePids k k' := by
  refine ⟨htasks, hnum, hnext, fun t => ?_⟩
  rw [htask]
  by_cases ht : t = u
  · rw [ht, Function.update_self, hpid]
  · rw [Function.update_of_ne ht]

/-- The records stay as they are. -/
theorem SamePids.of_task
    (htasks : k'.tasks = k.tasks) (hnum : k'.numTasks = k.numTasks)
    (hnext : k'.nextPid = k.nextPid) (htask : k'.task = k.task) : SamePids k k' :=
  ⟨by rw [htasks], hnum, hnext, fun t => by rw [htask]⟩

theorem samePids_doWaitTask (t : TaskId) (pid : Nat) : SamePids k (k.doWaitTask t pid) :=
  .update List.filter_sublist rfl rfl rfl rfl

theorem samePids_notifyParent (h : k.notifyParent = .ok k') : SamePids k k' := by
  rcases notifyParent_cases h with rfl | ⟨parent, k₁, hk₁, hsend⟩
  · exact samePids_doWaitTask _ _
  · have hlogged : SamePids k k₁ := by
      rcases hk₁ with rfl | rfl
      · exact .refl _
      · exact .of_task rfl rfl rfl rfl
    have hframe := sendSigInfo_frame hsend
    refine hlogged.trans ⟨?_, ?_, ?_, sendSigInfo_unsent TaskStruct.pid (fun _ _ _ _ => rfl) hsend⟩
    · rw [hframe]
    · rw [hframe]
    · rw [hframe]

/-- Of the moves only `do_clone` creates a task. -/
theorem Move.pids (h : Move k l k') : SamePids k k' ∨ ∃ pid, CreatedPid k k' pid := by
  cases h with
  | none => exact .inl (.refl _)
  | @clone flags user pid next _ hnext _ =>
      rw [cloneSigactions_frame]
      refine .inr ⟨pid, hnext, rfl, rfl, ?_, fun t ht => ?_⟩
      · simp [Kernel.addTask, Kernel.cloneTask]
      · simp [Kernel.addTask, ht]
  | execPut _ _ hput =>
      rw [putSigactions_frame hput]
      exact .inl (.of_task rfl rfl rfl rfl)
  | execInstall => exact .inl (.update (List.Sublist.refl _) rfl rfl rfl rfl)
  | doExit _ _ hk₀ =>
      rcases hk₀ with rfl | ⟨signum, rfl⟩
      · exact .inl (.update (List.Sublist.refl _) rfl rfl rfl rfl)
      · exact .inl (Quiet.kernelGetPendingSig.samePids.trans
          (.update (List.Sublist.refl _) rfl rfl rfl rfl))
  | closing =>
      obtain ⟨⟨htasks, hnum, hnext, -⟩, -, hrec⟩ := putSession_family k
      exact .inl ⟨by rw [← htasks]; exact List.Sublist.refl _, hnum, hnext,
        fun t => (hrec t).1.1⟩
  | putSigactions _ _ hput =>
      rw [putSigactions_frame hput]
      exact .inl (.of_task rfl rfl rfl rfl)
  | putSiginfos _ _ hput =>
      obtain ⟨⟨htasks, hnum, hnext, -⟩, -, hrec⟩ := putSiginfos_family hput
      exact .inl ⟨by rw [← htasks]; exact List.Sublist.refl _, hnum, hnext,
        fun t => (hrec t).1.1⟩
  | notify _ _ hput =>
      exact .inl ((samePids_notifyParent hput).trans (.of_task rfl rfl rfl rfl))
  | reparent =>
      refine .inl ⟨List.Sublist.refl _, rfl, rfl, fun t => ?_⟩
      simp only [Kernel.setPc, Kernel.reparentChildren]
      split <;> rfl
  | sched _ _ hs =>
      have hframe := hs.frame
      refine .inl ⟨by rw [hframe], by rw [hframe], by rw [hframe], fun t => ?_⟩
      rcases hs.task t with htask | ⟨-, htask⟩
      · rw [htask]
      · rw [htask]
  | reapZombie => exact .inl (samePids_doWaitTask _ _)
  | reapAwaited =>
      exact .inl (Quiet.kernelGetPendingSig.samePids.trans (samePids_doWaitTask _ _))
  | reapFound =>
      exact .inl (Quiet.kernelGetPendingSig.samePids.trans (samePids_doWaitTask _ _))

theorem Tail.samePids (h : Tail k k') : SamePids k k' := by
  cases h with
  | quiet hq => exact hq.samePids
  | startsWait hq => exact hq.samePids.trans (.of_task rfl rfl rfl rfl)

/-- A step creates no task, or one with the pid that `next_pid` finds. -/
theorem step_pids (h : machine.Step k l k') :
    SamePids k k' ∨ ∃ pid, CreatedPid k k' pid := by
  obtain ⟨k₁, hmove, htail⟩ := step_effect h
  have hsame := htail.samePids
  rcases hmove.pids with hmove | ⟨pid, hmove⟩
  · exact .inl (hmove.trans hsame)
  · have htasks : k'.tasks = k₁.tasks := by
      cases htail with
      | quiet hq => exact hq.tasks
      | startsWait hq => exact hq.tasks
    refine .inr ⟨pid, ?_, htasks.trans hmove.tasks, hsame.numTasks.trans hmove.numTasks, ?_,
      fun t ht => (hsame.pid t).trans (hmove.others t ht)⟩
    · rw [hsame.nextPid]
      exact hmove.found
    · rw [hsame.pid]
      exact hmove.own

end Steps

/-! ### The invariant -/

/-- The invariant of the pids, with everything `_next_pid` has returned. -/
structure PidInv (k : Kernel) (history : List Nat) : Prop where
  counter : InRange k.nextPid
  born : ∀ t ∈ k.tasks, t < k.numTasks
  range : ∀ t ∈ k.tasks, InRange (k.task t).pid
  distinct : (k.tasks.map fun t => (k.task t).pid).Nodup
  /-- Behind the first wrap the counter stays in the loop. -/
  wrapped : ∀ before after, history = before ++ maxpid :: after →
    (∀ pid ∈ after, looppid ≤ pid) ∧ looppid ≤ k.nextPid

section Invariant

variable {k k' : Kernel} {history : List Nat} {pid : Nat}

theorem PidInv.same (h : PidInv k history) (hs : SamePids k k') : PidInv k' history where
  counter := by
    rw [hs.nextPid]
    exact h.counter
  born t ht := by
    rw [hs.numTasks]
    exact h.born t (hs.tasks.subset ht)
  range t ht := by
    rw [hs.pid]
    exact h.range t (hs.tasks.subset ht)
  distinct := by
    simp only [hs.pid]
    exact h.distinct.sublist (hs.tasks.map _)
  wrapped before after heq := by
    rw [hs.nextPid]
    exact h.wrapped before after heq

/-- The search, begun in the loop, stays there. -/
theorem looppid_le_tried {rounds start : Nat} (h : looppid ≤ start) :
    ∀ pid ∈ tried succPid k.pidFree rounds start, looppid ≤ pid :=
  tried_invariant (fun _ => looppid_le_succPid) h

/-- A value in a history is in its older part or in its newer one. -/
theorem split_history {older newer before after : List Nat} {pid : Nat}
    (h : older ++ newer = before ++ pid :: after) :
    (∃ mid, older = before ++ pid :: mid ∧ after = mid ++ newer) ∨
      ∃ mid, newer = mid ++ pid :: after := by
  rcases List.append_eq_append_iff.mp h with ⟨mid, -, hnewer⟩ | ⟨mid, holder, hrest⟩
  · exact .inr ⟨mid, hnewer⟩
  · cases mid with
    | nil => exact .inr ⟨[], hrest.symm⟩
    | cons x mid =>
        obtain ⟨rfl, hafter⟩ := List.cons.inj hrest
        exact .inl ⟨mid, holder, hafter⟩

/-- What `next_pid` tries after a wrap, in an earlier call or in its own, is in the loop. -/
theorem PidInv.wrapped_create (h : PidInv k history) (hc : CreatedPid k k' pid)
    (before after : List Nat) (heq : history ++ k.pidsTried = before ++ maxpid :: after) :
    (∀ pid ∈ after, looppid ≤ pid) ∧ looppid ≤ k'.nextPid := by
  have hfound := hc.found
  rw [nextPidFrom_eq] at hfound
  obtain ⟨hnext, front, hfront⟩ := tried_of_searchFrom hfound
  have hlast : k.pidsTried.getLast? = some pid := by
    rw [Kernel.pidsTried, hfront]
    simp
  rw [hnext]
  rcases split_history heq with ⟨mid, hhistory, rfl⟩ | ⟨mid, htried⟩
  · -- the counter was in the loop before the call
    obtain ⟨hmid, hle⟩ := h.wrapped before mid hhistory
    have hloop : ∀ p ∈ k.pidsTried, looppid ≤ p := looppid_le_tried hle
    refine ⟨fun p hp => ?_, looppid_le_succPid (hloop pid (List.mem_of_getLast? hlast))⟩
    rcases List.mem_append.mp hp with hp | hp
    · exact hmid p hp
    · exact hloop p hp
  · -- the call itself brings the counter back
    obtain ⟨rounds', hafter⟩ := tried_eq_append htried
    have hloop : ∀ p ∈ after, looppid ≤ p := by
      rcases hafter with rfl | rfl
      · exact looppid_le_tried (Nat.le_refl looppid)
      · nofun
    have hmem : pid ∈ maxpid :: after := by
      rw [htried, List.getLast?_append_of_ne_nil _ (List.cons_ne_nil _ _)] at hlast
      exact List.mem_of_getLast? hlast
    refine ⟨hloop, looppid_le_succPid ?_⟩
    rcases List.mem_cons.mp hmem with rfl | hmem
    · decide
    · exact hloop pid hmem

theorem PidInv.create (h : PidInv k history) (hc : CreatedPid k k' pid) :
    PidInv k' (history ++ k.pidsTried) := by
  obtain ⟨hpid, hnext, hfree⟩ := nextPidFrom_fresh h.counter hc.found
  have hold : ∀ t ∈ k.tasks, (k'.task t).pid = (k.task t).pid := fun t ht =>
    hc.others t (Nat.ne_of_lt (h.born t ht))
  refine ⟨hnext, fun t ht => ?_, fun t ht => ?_, ?_, h.wrapped_create hc⟩
  · rw [hc.tasks, List.mem_append, List.mem_singleton] at ht
    rw [hc.numTasks]
    rcases ht with ht | rfl
    · exact Nat.lt_succ_of_lt (h.born t ht)
    · exact Nat.lt_succ_self _
  · rw [hc.tasks, List.mem_append, List.mem_singleton] at ht
    rcases ht with ht | rfl
    · rw [hold t ht]
      exact h.range t ht
    · rw [hc.own]
      exact hpid
  · rw [hc.tasks, List.map_append, List.map_singleton, hc.own, List.map_congr_left hold,
      List.nodup_append]
    refine ⟨h.distinct, List.nodup_singleton _, ?_⟩
    rintro _ hmem _ hsingle rfl
    obtain ⟨t, ht, heq⟩ := List.mem_map.mp hmem
    exact hfree t ht (heq.trans (List.mem_singleton.mp hsingle))

theorem PidInv.init (h : Init k) : PidInv k [] := by
  cases h
  refine ⟨⟨by decide, by decide⟩, fun t ht => ?_, fun t ht => ?_, by decide, by simp⟩
  · rw [List.mem_singleton.mp ht]
    decide
  · rw [List.mem_singleton.mp ht]
    exact ⟨by decide, by decide⟩

/-- The invariant holds along every history. -/
theorem PidHistory.inv (h : PidHistory k history) : PidInv k history := by
  induction h with
  | start hinit => exact .init hinit
  | step _ hstep hnum ih =>
      rcases step_pids hstep with hsame | ⟨pid, hcreated⟩
      · exact ih.same hsame
      · rw [hcreated.numTasks] at hnum
        exact absurd hnum (Nat.succ_ne_self _)
  | create _ hstep hnum ih =>
      rcases step_pids hstep with hsame | ⟨pid, hcreated⟩
      · exact absurd hsame.numTasks hnum
      · exact ih.create hcreated

/-- Every reachable state has a history. -/
theorem exists_pidHistory (h : machine.Reach Init (fun _ _ => True) k) :
    ∃ history, PidHistory k history := by
  induction h with
  | start hinit => exact ⟨[], .start hinit⟩
  | @step k k' l _ _ hstep ih =>
      obtain ⟨history, hhistory⟩ := ih
      by_cases hnum : k'.numTasks = k.numTasks
      · exact ⟨history, .step hhistory hstep hnum⟩
      · exact ⟨_, .create hhistory hstep hnum⟩

end Invariant

/-- What is promised about `next_pid` and the pids it has handed out. -/
structure PidsAllocated (k : Kernel) (history : List Nat) : Prop where
  /-- `next_pid` terminates when a pid of the loop is free. -/
  terminates : (∃ pid, looppid ≤ pid ∧ pid ≤ maxpid ∧ ∀ t ∈ k.tasks, (k.task t).pid ≠ pid) →
    (k.nextPidFrom (maxpid + 1) k.nextPid).isSome = true
  /-- What it returns is in range and new. -/
  fresh : ∀ rounds pid next, k.nextPidFrom rounds k.nextPid = some (pid, next) →
    1 ≤ pid ∧ pid ≤ maxpid ∧ ∀ t ∈ k.tasks, (k.task t).pid ≠ pid
  distinct : (k.tasks.map fun t => (k.task t).pid).Nodup
  /-- Nothing below `LOOPPID` was tried after the counter had reached its end. -/
  wrapped : ∀ before after, history = before ++ maxpid :: after →
    ∀ pid ∈ after, looppid ≤ pid
  /-- Nor will anything below it be returned. -/
  later : maxpid ∈ history → ∀ rounds pid next,
    k.nextPidFrom rounds k.nextPid = some (pid, next) → looppid ≤ pid

/-- **The allocation of pids.**  Along every history of the kernel `next_pid` terminates
when it can and returns a pid that is in range and new; the pids of the listed tasks
differ; and after the first wrap no pid below `LOOPPID` comes up again. -/
theorem pids_allocated {k : Kernel} {history : List Nat} (h : PidHistory k history) :
    PidsAllocated k history := by
  have hinv := h.inv
  refine ⟨?_, fun rounds pid next hs => ?_, hinv.distinct, fun before after heq =>
    (hinv.wrapped before after heq).1, fun hmem rounds pid next hs => ?_⟩
  · rintro ⟨pid, hlo, hhi, hfree⟩
    exact nextPidFrom_terminates hinv.counter.2 hlo hhi hfree
  · obtain ⟨⟨hpos, hle⟩, -, hfree⟩ := nextPidFrom_fresh hinv.counter hs
    exact ⟨hpos, hle, hfree⟩
  · obtain ⟨before, after, heq⟩ := List.append_of_mem hmem
    rw [nextPidFrom_eq] at hs
    exact (searchFrom_invariant (P := (looppid ≤ ·)) (fun _ => looppid_le_succPid)
      (hinv.wrapped before after heq).2 hs).1

/-- The first process and a child of it, with the pids 1 and 2. -/
theorem pids_allocated_child :
    ∃ k history, k.tasks.map (fun t => (k.task t).pid) = [1, 2] ∧ PidHistory k history ∧
      PidsAllocated k history := by
  have hrun : (machine.runLabels (userRun ++ [.call (.clone 0)]) boot).any (fun k => k.tasks.map (fun t => (k.task t).pid) = [1, 2]) = true := by
    decide +kernel
  obtain ⟨k, hreach, hk⟩ := Machine.exists_reach_of_run (show Init boot from rfl) hrun
  obtain ⟨history, hhistory⟩ := exists_pidHistory hreach
  exact ⟨k, history, by simpa using hk, hhistory, pids_allocated hhistory⟩

end Task
end JkxyKernel
