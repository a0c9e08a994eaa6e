import JkxyKernel.Task.Faults
import JkxyKernel.Task.Reaping

/-!
# Parents

Every listed task with a parent number has a parent: a listed task that is not on its
way out, or the running task inside `do_exit`, which hands its children over to the
first process before it calls `schedule()`.  The second case is there by design.  A task
whose own parent ignores `SIGCHLD` even leaves the list, by `_do_wait(current)`, before
it hands its children over.

The theorem is about runs whose waits act on no stale record; a stale record can reap a
living parent.
-/

namespace JkxyKernel
namespace Task

open Kernel

/-- The part of `do_exit` that has not handed the children over yet. -/
def Life.Owning : Life → Prop
  | .dying .sched => False
  | .dying _ => True
  | _ => False

/-- The tasks that can be somebody's parent. -/
def Keeper (k : Kernel) (p : TaskId) : Prop :=
  p ∈ k.tasks ∧ ¬ (k.pc p).life.Leaving ∨ p = k.current ∧ (k.pc p).life.Owning

/-- Task `p` is the parent of `t`. -/
def ParentOf (k : Kernel) (p t : TaskId) : Prop :=
  p ≠ t ∧ (k.task p).pid = (k.task t).ppid ∧ Keeper k p

/-- The invariant of parenthood. -/
structure ParentInv (k : Kernel) : Prop where
  swapper : (k.task swapperTask).pid = 0 ∧ (k.task swapperTask).ppid = 0
  firstBorn : 1 < k.numTasks
  first : (k.task 1).pid = 1 ∧ (k.task 1).ppid = 0
  firstAlive : ¬ (k.pc 1).life.Notified
  nextPos : 0 < k.nextPid
  pidPos : ∀ t, t < k.numTasks → t ≠ swapperTask → (k.task t).pid ≠ 0
  parent : ∀ t ∈ k.tasks, (k.task t).ppid ≠ 0 → ∃ p, ParentOf k p t

section Frames

variable {k k' : Kernel}

/-- Nobody changes its number or its parent, and parents stay. -/
theorem ParentInv.same
    (h : ParentInv k)
    (hnum : k'.numTasks = k.numTasks) (hnext : k'.nextPid = k.nextPid)
    (htasks : ∀ t ∈ k'.tasks, t ∈ k.tasks)
    (hids : ∀ t, (k'.task t).pid = (k.task t).pid ∧ (k'.task t).ppid = (k.task t).ppid)
    (hfirst : ¬ (k'.pc 1).life.Notified)
    (hkeep : ∀ p, Keeper k p → Keeper k' p) :
    ParentInv k' where
  swapper := by
    rw [(hids _).1, (hids _).2]
    exact h.swapper
  firstBorn := hnum ▸ h.firstBorn
  first := by
    rw [(hids _).1, (hids _).2]
    exact h.first
  firstAlive := hfirst
  nextPos := hnext ▸ h.nextPos
  pidPos t ht hs := by
    rw [(hids t).1]
    exact h.pidPos t (hnum ▸ ht) hs
  parent t ht hppid := by
    rw [(hids t).2] at hppid
    obtain ⟨p, hne, hpid, hk⟩ := h.parent t (htasks t ht) hppid
    refine ⟨p, hne, ?_, hkeep p hk⟩
    rw [(hids p).1, (hids t).2]
    exact hpid

theorem Life.Owning.leaving {l : Life} (h : l.Owning) : l.Leaving := by
  cases l with
  | dying stage => trivial
  | gone => exact h.elim
  | normal => exact h.elim
  | swapping => exact h.elim

/-- The running task moves on without giving up its children. -/
theorem Keeper.advance {q : Pc}
    (htasks : k'.tasks = k.tasks) (hcur : k'.current = k.current)
    (hpc : k'.pc = Function.update k.pc k.current q)
    (halive : ¬ (k.pc k.current).life.Leaving → ¬ q.life.Leaving ∨ q.life.Owning)
    (howning : (k.pc k.current).life.Owning → q.life.Owning)
    {p : TaskId} (h : Keeper k p) : Keeper k' p := by
  by_cases hp : p = k.current
  · subst hp
    rcases h with ⟨hmem, hl⟩ | ⟨-, ho⟩
    · rcases halive hl with hq | hq
      · exact .inl ⟨htasks ▸ hmem, by simpa [hpc] using hq⟩
      · exact .inr ⟨hcur.symm, by simpa [hpc] using hq⟩
    · exact .inr ⟨hcur.symm, by simpa [hpc] using howning ho⟩
  · rcases h with ⟨hmem, hl⟩ | ⟨heq, -⟩
    · exact .inl ⟨htasks ▸ hmem, by simpa [hpc, hp] using hl⟩
    · exact absurd heq hp

/-- The first process stays out of the end of `do_exit`, if the running task does. -/
theorem ParentInv.firstAlive_advance {q : Pc}
    (h : ParentInv k) (hpc : k'.pc = Function.update k.pc k.current q)
    (hq : k.current = 1 → ¬ q.life.Notified) : ¬ (k'.pc 1).life.Notified := by
  rw [hpc]
  by_cases h1 : k.current = 1
  · rw [h1, Function.update_self]
    exact hq h1
  · rw [Function.update_of_ne (Ne.symm h1)]
    exact h.firstAlive

theorem ParentInv.advance {q : Pc}
    (h : ParentInv k)
    (hframe : k'.numTasks = k.numTasks ∧ k'.nextPid = k.nextPid ∧ k'.tasks = k.tasks ∧
      k'.current = k.current)
    (hpc : k'.pc = Function.update k.pc k.current q)
    (hids : ∀ t, (k'.task t).pid = (k.task t).pid ∧ (k'.task t).ppid = (k.task t).ppid)
    (halive : ¬ (k.pc k.current).life.Leaving → ¬ q.life.Leaving ∨ q.life.Owning)
    (howning : (k.pc k.current).life.Owning → q.life.Owning)
    (hq : ¬ q.life.Notified) :
    ParentInv k' := by
  obtain ⟨hnum, hnext, htasks, hcur⟩ := hframe
  exact h.same hnum hnext (fun t ht => htasks ▸ ht) hids (h.firstAlive_advance hpc fun _ => hq)
    fun p hp => hp.advance htasks hcur hpc halive howning

theorem ParentInv.quiet (h : ParentInv k) (hq : Quiet k k') : ParentInv k' := by
  refine h.same hq.numTasks hq.nextPid (fun t ht => hq.tasks ▸ ht)
    (fun t => ⟨(hq.record t).pid, (hq.record t).ppid⟩) (by rw [hq.life]; exact h.firstAlive)
    fun p hp => ?_
  rcases hp with ⟨hmem, hl⟩ | ⟨rfl, ho⟩
  · exact .inl ⟨hq.tasks ▸ hmem, by rw [hq.life]; exact hl⟩
  · rcases hq.freedStacks with ⟨-, -, hcur⟩ | ⟨hlife, -⟩
    · exact .inr ⟨hcur.symm, by rw [hq.life]; exact ho⟩
    · rw [hlife] at ho
      exact ho.elim

theorem ids_update {task : TaskId → TaskStruct} {u : TaskId} {x : TaskStruct}
    (htask : task = Function.update k.task u x)
    (hpid : x.pid = (k.task u).pid) (hppid : x.ppid = (k.task u).ppid) (t : TaskId) :
    (task t).pid = (k.task t).pid ∧ (task t).ppid = (k.task t).ppid := by
  rw [htask]
  by_cases ht : t = u
  · subst ht
    simpa using ⟨hpid, hppid⟩
  · simp [ht]

end Frames

section Moves

variable {k k' : Kernel} {l : Label}

theorem FamilyInv.current_mem (hf : FamilyInv k) (h : ParentInv k)
    (hn : ¬ (k.pc k.current).life.Notified) (hpid : k.cur.pid ≠ 0) : k.current ∈ k.tasks := by
  refine hf.reap.mem_tasks hf.sched.currentBorn ?_ hn
  intro hs
  refine hpid ?_
  unfold Kernel.cur
  rw [hs]
  exact h.swapper.1

theorem nextPidFrom_pos {fuel start pid next : Nat}
    (hpos : 0 < start) (hs : k.nextPidFrom fuel start = some (pid, next)) :
    0 < pid ∧ 0 < next := by
  rw [nextPidFrom_eq] at hs
  have hinv := Search.searchFrom_invariant (P := (0 < ·))
    (fun _ => Search.le_cycle (by decide)) hpos hs
  exact ⟨hinv.1, hinv.2.1⟩

theorem ParentInv.clone {flags : BitVec 32} {user : Bool} {pid next : Nat}
    (h : ParentInv k) (hf : FamilyInv k) (hlife : (k.pc k.current).life = .normal)
    (hnext : k.nextPidFrom (maxpid + 1) k.nextPid = some (pid, next)) :
    ParentInv ({ (k.cloneSigactions flags).1 with nextPid := next }.addTask
      (k.cloneTask flags user pid (k.cloneSigactions flags).2)) := by
  rw [cloneSigactions_frame]
  obtain ⟨hl, hn⟩ := Life.not_leaving_normal hlife
  have hcurne : k.current ≠ k.numTasks := Nat.ne_of_lt hf.sched.currentBorn
  have hold : ∀ {t}, t ≠ k.numTasks → Function.update k.task k.numTasks
      (k.cloneTask flags user pid (k.cloneSigactions flags).2) t = k.task t :=
    fun ht => Function.update_of_ne ht _ _
  have hborn : ∀ p, Keeper k p → p ≠ k.numTasks := by
    rintro p (⟨hmem, -⟩ | ⟨rfl, -⟩)
    · exact Nat.ne_of_lt ((hf.reap.listed p).mp hmem).1
    · exact hcurne
  have hkeep : ∀ p, Keeper k p → p ∈ k.tasks ++ [k.numTasks] ∧ ¬ (k.pc p).life.Leaving ∨
      p = k.current ∧ (k.pc p).life.Owning := by
    rintro p (⟨hmem, hp⟩ | hp)
    · exact .inl ⟨List.mem_append_left _ hmem, hp⟩
    · exact .inr hp
  have h1 : (1 : Nat) ≠ k.numTasks := Nat.ne_of_lt h.firstBorn
  have h0 : swapperTask ≠ k.numTasks := Nat.ne_of_lt hf.sched.swapperBorn
  refine
    { swapper := ?_, firstBorn := Nat.lt_succ_of_lt h.firstBorn, first := ?_
      firstAlive := ?_, nextPos := (nextPidFrom_pos h.nextPos hnext).2
      pidPos := fun t ht hs => ?_, parent := fun t ht hppid => ?_ }
  all_goals simp only [Kernel.addTask, ParentOf, Keeper, hf.sched.update_pc] at *
  · rw [hold h0]
    exact h.swapper
  · rw [hold h1]
    exact h.first
  · exact h.firstAlive
  · by_cases htn : t = k.numTasks
    · subst htn
      rw [Function.update_self]
      exact Nat.ne_of_gt (nextPidFrom_pos h.nextPos hnext).1
    · rw [hold htn]
      exact h.pidPos t ((lt_succ_iff_of_ne htn).mp ht) hs
  · -- an old task keeps its parent; the new one gets the caller or the caller's parent
    rcases List.mem_append.mp ht with ht | ht
    · have htne : t ≠ k.numTasks := Nat.ne_of_lt ((hf.reap.listed t).mp ht).1
      rw [hold htne] at hppid
      obtain ⟨p, hne, hpid, hk⟩ := h.parent t ht hppid
      refine ⟨p, hne, ?_, hkeep p hk⟩
      rw [hold (hborn p hk), hold htne]
      exact hpid
    · rw [List.mem_singleton] at ht
      subst ht
      rw [Function.update_self] at hppid ⊢
      have hnew : (k.cloneTask flags user pid (k.cloneSigactions flags).2).ppid =
          if cloneParent flags then k.cur.ppid else k.cur.pid := rfl
      rw [hnew] at hppid ⊢
      split at hppid
      next hflag =>
        have hmem : k.current ∈ k.tasks := by
          refine hf.reap.mem_tasks hf.sched.currentBorn ?_ hn
          intro hs
          refine hppid ?_
          unfold Kernel.cur
          rw [hs]
          exact h.swapper.2
        obtain ⟨p, -, hpid, hk⟩ := h.parent _ hmem hppid
        refine ⟨p, hborn p hk, ?_, hkeep p hk⟩
        rw [hold (hborn p hk), if_pos hflag]
        exact hpid
      next hflag =>
        have hk : Keeper k k.current := .inl ⟨hf.current_mem h hn hppid, hl⟩
        refine ⟨k.current, hcurne, ?_, hkeep _ hk⟩
        rw [hold hcurne, if_neg hflag]
        rfl

/-- A task behind the notification of its parent is nobody's parent. -/
theorem ParentInv.reap {c : TaskId} {pid : Nat}
    (h : ParentInv k) (hn : (k.pc c).life.Leaving) :
    ParentInv (k.doWaitTask c pid) := by
  refine h.same rfl rfl (fun t ht => (List.mem_filter.mp ht).1) (ids_update rfl rfl rfl)
    h.firstAlive fun p hp => ?_
  rcases hp with ⟨hmem, hl⟩ | hp
  · have hne : p ≠ c := by
      rintro rfl
      exact hl hn
    exact .inl ⟨List.mem_filter.mpr ⟨hmem, by simpa using hne⟩, hl⟩
  · exact .inr hp

theorem ParentInv.notify
    (h : ParentInv k) (hpc : k.pc k.current = .exit .notify)
    {k₀ : Kernel} (hs : k.notifyParent = .ok k₀) :
    ParentInv (k₀.setPc k.current (.exit .reparent)) := by
  have hlife : (k.pc k.current).life = .dying .notify := by rw [hpc]; rfl
  have hfirst : k.current ≠ 1 := by
    intro h1
    have hzero : k.cur.ppid = 0 := by
      unfold Kernel.cur
      rw [h1]
      exact h.first.2
    rw [Kernel.notifyParent, if_pos hzero] at hs
    cases hs
  have hkeep : ∀ p, Keeper k p → Keeper (k.setPc k.current (.exit .reparent)) p := by
    intro p hp
    refine Keeper.advance (q := .exit .reparent) ?_ ?_ ?_ (fun _ => .inr trivial)
      (fun _ => trivial) hp
    · rfl
    · rfl
    · rfl
  -- the same step, with the control point moved first
  have h₁ : ParentInv (k.setPc k.current (.exit .reparent)) :=
    h.same rfl rfl (fun _ ht => ht) (fun _ => ⟨rfl, rfl⟩)
      (h.firstAlive_advance rfl fun h1 => absurd h1 hfirst) hkeep
  have hleaving : ((k.setPc k.current (.exit .reparent)).pc k.current).life.Leaving := by
    simp [Kernel.setPc, Pc.life, Life.Leaving]
  rcases notifyParent_cases hs with rfl | ⟨parent, k₁, hk₁, hsend⟩
  · exact h₁.reap hleaving
  · have hpid := sendSigInfo_unsent TaskStruct.pid (fun _ _ _ _ => rfl) hsend
    have hppid := sendSigInfo_unsent TaskStruct.ppid (fun _ _ _ _ => rfl) hsend
    have heq := sendSigInfo_frame hsend
    refine h₁.same ?_ ?_ (fun t ht => ?_) (fun t => ?_) ?_ fun p hp => ?_
    · rw [heq]
      rcases hk₁ with rfl | rfl <;> rfl
    · rw [heq]
      rcases hk₁ with rfl | rfl <;> rfl
    · rw [heq] at ht
      rcases hk₁ with rfl | rfl <;> exact ht
    · rcases hk₁ with rfl | rfl <;> exact ⟨hpid t, hppid t⟩
    · rw [heq]
      rcases hk₁ with rfl | rfl <;> exact h₁.firstAlive
    · rw [heq]
      rcases hk₁ with rfl | rfl <;> exact hp

/-- The children of the exiting task get the first process for a parent. -/
theorem ParentInv.reparent
    (h : ParentInv k) (hf : FamilyInv k) (hpc : k.pc k.current = .exit .reparent) :
    ParentInv (k.reparentChildren.setPc k.current (.exit .sched)) := by
  have hlife : (k.pc k.current).life = .dying .reparent := by rw [hpc]; rfl
  have hcur1 : k.current ≠ 1 := by
    intro h1
    have := h.firstAlive
    rw [← h1, hlife] at this
    exact this trivial
  have hmem1 : (1 : Nat) ∈ k.tasks :=
    hf.reap.mem_tasks h.firstBorn (by decide) h.firstAlive
  have halive1 : ¬ (k.pc 1).life.Leaving := by
    intro hl
    rcases hl.cases with ⟨stage, hd⟩ | hg
    · exact hcur1 (hf.stack.dyingCurrent 1 stage hd).symm
    · refine h.firstAlive ?_
      rw [hg]
      trivial
  have hpid : ∀ t, (k.reparentChildren.task t).pid = (k.task t).pid := by
    intro t
    simp only [Kernel.reparentChildren]
    split <;> rfl
  have hcurpid : k.cur.pid ≠ 0 := by
    refine h.pidPos _ hf.sched.currentBorn fun hs => ?_
    have := (hf.sched.fits _).swapper hs
    rw [hpc] at this
    cases this
  have hsame : ∀ t, (k.task t).ppid ≠ k.cur.pid → k.reparentChildren.task t = k.task t := by
    intro t hne
    simp only [Kernel.reparentChildren]
    rw [if_neg fun hc => hne hc.2]
  have hroot : ∀ t, (k.task t).ppid = 0 → k.reparentChildren.task t = k.task t :=
    fun t h0 => hsame t (h0 ▸ Ne.symm hcurpid)
  have hkeep : ∀ p, Keeper k p → p ≠ k.current →
      Keeper (k.reparentChildren.setPc k.current (.exit .sched)) p := by
    rintro p (⟨hmem, hl⟩ | ⟨heq, -⟩) hne
    · refine .inl ⟨hmem, ?_⟩
      simp only [Kernel.setPc, Function.update_of_ne hne]
      exact hl
    · exact absurd heq hne
  refine
    { swapper := ?_, firstBorn := h.firstBorn, first := ?_
      firstAlive := h.firstAlive_advance rfl fun h1 => absurd h1 hcur1
      nextPos := h.nextPos, pidPos := fun t ht hs => ?_, parent := fun t ht hppid => ?_ }
  · change (k.reparentChildren.task _).pid = 0 ∧ (k.reparentChildren.task _).ppid = 0
    rw [hroot _ h.swapper.2]
    exact h.swapper
  · change (k.reparentChildren.task _).pid = 1 ∧ (k.reparentChildren.task _).ppid = 0
    rw [hroot _ h.first.2]
    exact h.first
  · change (k.reparentChildren.task t).pid ≠ 0
    rw [hpid]
    exact h.pidPos t ht hs
  · change (k.reparentChildren.task t).ppid ≠ 0 at hppid
    by_cases hchild : (k.task t).ppid = k.cur.pid
    · refine ⟨1, ?_, ?_, hkeep 1 (.inl ⟨hmem1, halive1⟩) (Ne.symm hcur1)⟩
      · rintro rfl
        rw [h.first.2] at hchild
        exact hcurpid hchild.symm
      · change (k.reparentChildren.task 1).pid = (k.reparentChildren.task t).ppid
        rw [hpid, h.first.1]
        simp only [Kernel.reparentChildren]
        rw [if_pos ⟨ht, hchild⟩]
    · rw [hsame t hchild] at hppid
      obtain ⟨p, hne, hlink, hk⟩ := h.parent t ht hppid
      refine ⟨p, hne, ?_, hkeep p hk ?_⟩
      · change (k.reparentChildren.task p).pid = (k.reparentChildren.task t).ppid
        rw [hpid, hsame t hchild, hlink]
      · rintro rfl
        exact hchild hlink.symm

theorem ParentInv.move (h : ParentInv k) (hf : FamilyInv k) (hok : NotStale k l)
    (hm : Move k l k') : ParentInv k' := by
  cases hm with
  | none => exact h
  | clone _ _ hlife hnext _ => exact h.clone hf hlife hnext
  | execPut _ hlife hput =>
      rw [putSigactions_frame hput]
      obtain ⟨-, hn⟩ := Life.not_leaving_normal hlife
      exact h.advance ⟨rfl, rfl, rfl, rfl⟩ (q := .execSwap _) rfl (fun _ => ⟨rfl, rfl⟩)
        (fun _ => .inl id) (fun ho => by rw [hlife] at ho; exact ho) id
  | execInstall _ hpc =>
      have hlife : (k.pc k.current).life = .swapping := by rw [hpc]; rfl
      have hret : ∀ k₀ : Kernel, k₀.retPc.life = .normal := by
        intro k₀
        simp only [Kernel.retPc]
        split <;> rfl
      obtain ⟨hl, hn⟩ := Life.not_leaving_normal (hret _)
      exact h.advance ⟨rfl, rfl, rfl, rfl⟩ rfl (ids_update rfl rfl rfl) (fun _ => .inl hl)
        (fun ho => by rw [hlife] at ho; exact ho.elim) hn
  | @doExit k₀ exitcode hlife _ hk₀ =>
      obtain ⟨hl, -⟩ := Life.not_leaving_normal hlife
      have h₀ : ∀ k₀ : Kernel, ParentInv k₀ → (k₀.pc k₀.current).life = .normal →
          ParentInv (k₀.doExit exitcode) := by
        intro k₀ h₀ hlife₀
        exact h₀.advance ⟨rfl, rfl, rfl, rfl⟩ (q := .exit .closing) rfl (ids_update rfl rfl rfl)
          (fun _ => .inr trivial) (fun _ => trivial) id
      rcases hk₀ with rfl | ⟨signum, rfl⟩
      · exact h₀ _ h hlife
      · exact h₀ _ (h.quiet .kernelGetPendingSig) hlife
  | closing _ hpc =>
      obtain ⟨⟨htasks, hnum, hnext, hpcs⟩, -, hrec⟩ := putSession_family k
      refine h.advance ⟨hnum, hnext, htasks, (putSession_frame k).2⟩ (q := .exit .putSigactions)
        ?_ (fun t => ⟨(hrec t).1.1, (hrec t).1.2.1⟩) (fun _ => .inr trivial) (fun _ => trivial) id
      simp only [Kernel.setPc, hpcs]
  | putSigactions _ hpc hput =>
      rw [putSigactions_frame hput]
      exact h.advance ⟨rfl, rfl, rfl, rfl⟩ (q := .exit .putSiginfos) rfl (fun _ => ⟨rfl, rfl⟩)
        (fun _ => .inr trivial) (fun _ => trivial) id
  | @putSiginfos k₀ _ hpc hput =>
      obtain ⟨⟨htasks, hnum, hnext, hpcs⟩, -, hrec⟩ := putSiginfos_family hput
      have hcur : k₀.current = k.current := by
        simp only [Kernel.putSiginfos] at hput
        split at hput
        next => cases hput
        next =>
          cases hput
          rfl
      refine h.advance ⟨hnum, hnext, htasks, hcur⟩ (q := .exit .notify)
        ?_ (fun t => ⟨(hrec t).1.1, (hrec t).1.2.1⟩) (fun _ => .inr trivial) (fun _ => trivial) id
      simp only [Kernel.setPc, hpcs]
  | notify _ hpc hput => exact h.notify hpc hput
  | reparent _ hpc => exact h.reparent hf hpc
  | sched _ hpc hs =>
      have hlife : (k.pc k.current).life = .dying .sched := by rw [hpc]; rfl
      have heq := hs.frame
      have hcur1 : k.current ≠ 1 := by
        intro h1
        have := h.firstAlive
        rw [← h1, hlife] at this
        exact this trivial
      have hids : ∀ t, (k'.task t).pid = (k.task t).pid ∧ (k'.task t).ppid = (k.task t).ppid := by
        intro t
        rcases hs.task t with h' | ⟨-, h'⟩ <;> rw [h'] <;> exact ⟨rfl, rfl⟩
      refine h.same (by rw [heq]) (by rw [heq]) (fun t ht => by rw [heq] at ht; exact ht) hids
        (h.firstAlive_advance (q := .exited) (by rw [heq]) fun h1 => absurd h1 hcur1) fun p hp => ?_
      have hne : p ≠ k.current := by
        rintro rfl
        rcases hp with ⟨-, hl⟩ | ⟨-, ho⟩
        · exact hl (by rw [hlife]; trivial)
        · rw [hlife] at ho
          exact ho
      rcases hp with ⟨hmem, hl⟩ | ⟨heqp, -⟩
      · refine .inl ⟨by rw [heq]; exact hmem, ?_⟩
        rw [heq]
        simpa [hne] using hl
      · exact absurd heqp hne
  | reapZombie hlife hmem _ hz =>
      exact h.reap (hf.notified_of_zombie hlife hz).leaving
  | reapAwaited hl hpc hsig hrec _ hpid =>
      obtain ⟨-, hn, -⟩ := hf.reap.reapAwaited_spec hok hl hsig hpc hrec hpid
      exact (h.quiet .kernelGetPendingSig).reap hn.leaving
  | reapFound hl hpc hsig hrec hget hpgid =>
      obtain ⟨-, hn, -⟩ := hf.reap.reapFound_spec hok hl hsig hpc hrec hget hpgid
      exact (h.quiet .kernelGetPendingSig).reap hn.leaving

theorem ParentInv.tail (h : ParentInv k) (ht : Tail k k') : ParentInv k' := by
  cases ht with
  | quiet hq => exact h.quiet hq
  | @startsWait k₀ c oldaction hq hcur hpc hlife _ _ =>
      have hlife₀ : (k₀.pc k₀.current).life = .normal := by
        rw [hpc, hcur]
        exact hlife
      exact (h.quiet hq).advance ⟨rfl, rfl, rfl, rfl⟩ (q := .doWait c oldaction .sched) rfl
        (fun _ => ⟨rfl, rfl⟩) (fun _ => .inl id) (fun ho => by rw [hlife₀] at ho; exact ho) id

theorem ParentInv.boot : ParentInv boot := by
  have hpc : ∀ t, (Task.boot.pc t).life = .normal := by
    intro t
    by_cases ht : t = swapperTask <;> simp [Task.boot, ht, Pc.life]
  refine
    { swapper := ⟨rfl, rfl⟩, firstBorn := by decide, first := ⟨rfl, rfl⟩
      firstAlive := by rw [hpc]; exact id, nextPos := by decide
      pidPos := fun t _ hs => ?_, parent := fun t ht hppid => ?_ }
  · simp [Task.boot, bootTask, hs]
  · refine absurd ?_ hppid
    by_cases h0 : t = swapperTask <;> simp [Task.boot, bootTask, h0]

theorem ParentInv.reach (h : machine.Reach Init NotStale k) : ParentInv k := by
  have hboth : FamilyInv k ∧ ParentInv k := by
    refine Machine.Reach.invariant (P := fun k => FamilyInv k ∧ ParentInv k) (fun k hk => ?_)
      (fun k l k' hinv hok hs => ⟨hinv.1.step hok hs, ?_⟩) h
    · rw [hk]
      exact ⟨.boot, .boot⟩
    · obtain ⟨k₁, hm, ht⟩ := step_effect hs
      exact (hinv.2.move hinv.1 hok hm).tail ht
  exact hboth.2

end Moves

end Task
end JkxyKernel
