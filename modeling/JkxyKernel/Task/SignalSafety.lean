import JkxyKernel.Lib.RefCount
import JkxyKernel.Task.DeadTasks

/-!
# When signalling a task is safe

`send_sig_info` reads the `sigactions` block of its target and writes through the
`values` pointer of its `siginfos`.  A task stays in the list `tasks` until it is
reaped, but `do_exit` gives both blocks up before, and `do_execve` gives the first up
before it has a new one.

The counter of a `sigactions` block is the number of tasks that still hold it
(`BlockInv`), so the block of a listed task is live exactly while one of its holders
has not given it up.  The `siginfos` belong to one task and are gone once its
`do_exit` has freed them (`InfoInv`).
-/

namespace JkxyKernel
namespace Task

open Kernel RefCount

/-- Does a task in this part of its life hold its `sigactions`? -/
def Life.HasRef : Life → Bool
  | .normal => true
  | .dying .closing => true
  | .dying .putSigactions => true
  | _ => false

/-- Which task holds which `sigactions` block. -/
def refMap (k : Kernel) (t : TaskId) : Option SigactionsId :=
  if t < k.numTasks ∧ (k.pc t).life.HasRef = true then some (k.task t).sigactions else none

/-- The counters of the `sigactions` blocks. -/
def refcounts (k : Kernel) (a : SigactionsId) : Int :=
  (k.sigactions a).refcount

/-- The blocks of signal actions are counted, and freed when nobody holds them. -/
structure BlockInv (k : Kernel) : Prop where
  counted : Counted (refMap k) (refcounts k)
  freed : ∀ a, (k.sigactions a).freed = true ↔ a < k.numSigactions ∧ refcounts k a = 0
  fresh : ∀ a, k.numSigactions ≤ a → refcounts k a = 0
  pointer : ∀ t, (k.task t).sigactions < k.numSigactions

/-- The record arrays of a task are freed by its own `do_exit` only. -/
structure InfoInv (k : Kernel) : Prop where
  freed : ∀ t, (k.task t).sigpending.siginfos.mem = .freed ↔ Event.infosFreed t ∈ k.log
  born : ∀ t, Event.infosFreed t ∈ k.log → t < k.numTasks

/-- The stack of a listed task is neither freed nor waiting to be. -/
structure ListedInv (k : Kernel) : Prop where
  listed : ∀ t ∈ k.tasks, k.freed t = false ∧ t ∉ k.freeTasks
  listedBorn : ∀ t ∈ k.tasks, t < k.numTasks
  freeBorn : ∀ t ∈ k.freeTasks, t < k.numTasks
  freedBorn : ∀ t, k.freed t = true → t < k.numTasks
  awaitedBorn : ∀ u t, (k.pc u).awaited = some t → t < k.numTasks

theorem lt_succ_iff_of_ne {a n : Nat} (h : a ≠ n) : a < n + 1 ↔ a < n := by
  omega

section Preservation

variable {k k' : Kernel}

/-! ### Signal actions -/

theorem BlockInv.same
    (h : BlockInv k) (hnum : k'.numTasks = k.numTasks)
    (hlife : ∀ t, (k'.pc t).life.HasRef = (k.pc t).life.HasRef)
    (hptr : ∀ t, (k'.task t).sigactions = (k.task t).sigactions)
    (hrc : refcounts k' = refcounts k)
    (hfreed : ∀ a, (k'.sigactions a).freed = (k.sigactions a).freed)
    (hnumsig : k'.numSigactions = k.numSigactions) : BlockInv k' := by
  have hmap : refMap k' = refMap k := by
    funext t
    simp only [refMap, hnum, hlife, hptr]
  exact
    { counted := by rw [hmap, hrc]; exact h.counted
      freed := fun a => by rw [hfreed, hnumsig, hrc]; exact h.freed a
      fresh := fun a ha => by rw [hrc]; exact h.fresh a (hnumsig ▸ ha)
      pointer := fun t => by rw [hptr, hnumsig]; exact h.pointer t }

theorem BlockInv.quiet (h : BlockInv k) (hq : Quiet k k') : BlockInv k' :=
  h.same hq.numTasks (fun t => by rw [hq.life]) (fun t => (hq.record t).sigactions)
    (funext fun a => hq.refcount a) hq.freed hq.numSigactions

/-- The running task gives its block up. -/
theorem BlockInv.put {p : Pc}
    (h : BlockInv k) (hborn : k.current < k.numTasks)
    (hold : (k.pc k.current).life.HasRef = true) (hnew : p.life.HasRef = false)
    (hs : k.putSigactions = .ok k') : BlockInv (k'.setPc k.current p) := by
  have hk : refMap k k.current = some k.cur.sigactions := by
    simp [refMap, hborn, hold, Kernel.cur]
  rw [putSigactions_eq hs]
  have hmap : refMap ((k.modSigactions k.cur.sigactions fun block =>
      { block with
        refcount := block.refcount - 1
        freed := decide (block.refcount - 1 = 0) }).setPc k.current p) =
      Function.update (refMap k) k.current none := by
    funext t
    by_cases ht : t = k.current
    · subst ht
      simp [refMap, Kernel.setPc, hnew]
    · simp [refMap, Kernel.setPc, Kernel.modSigactions, ht]
  have hrc : refcounts ((k.modSigactions k.cur.sigactions fun block =>
      { block with
        refcount := block.refcount - 1
        freed := decide (block.refcount - 1 = 0) }).setPc k.current p) =
      Function.update (refcounts k) k.cur.sigactions
        (refcounts k k.cur.sigactions - 1) := by
    funext a
    by_cases ha : a = k.cur.sigactions
    · subst ha
      simp [refcounts, Kernel.setPc, Kernel.modSigactions]
    · simp [refcounts, Kernel.setPc, Kernel.modSigactions, ha]
  refine
    { counted := by rw [hmap, hrc]; exact h.counted.detach hk
      freed := fun a => ?_
      fresh := fun a ha => ?_
      pointer := h.pointer }
  · rw [hrc]
    by_cases ha : a = k.cur.sigactions
    · subst ha
      simp only [Kernel.setPc, Kernel.modSigactions, Function.update_self, decide_eq_true_eq]
      have := h.pointer k.current
      simp [refcounts, Kernel.cur, this]
    · simp only [Kernel.setPc, Kernel.modSigactions, Function.update_of_ne ha]
      exact h.freed a
  · have ha' : a ≠ k.cur.sigactions := by
      rintro rfl
      exact absurd (h.pointer k.current) (Nat.not_lt.mpr ha)
    rw [hrc, Function.update_of_ne ha']
    exact h.fresh a ha

/-- A task that holds nothing gets a new block. -/
theorem BlockInv.install {subsystem : Subsystem}
    (h : BlockInv k) (hborn : k.current < k.numTasks)
    (hpc : k.pc k.current = .execSwap subsystem) : BlockInv (k.execInstall subsystem) := by
  have hk : refMap k k.current = none := by simp [refMap, hpc, Pc.life, Life.HasRef]
  have hret : ∀ k₀ : Kernel, k₀.retPc.life.HasRef = true := by
    intro k₀
    unfold retPc
    split <;> rfl
  have hmap : refMap (k.execInstall subsystem) =
      Function.update (refMap k) k.current (some k.numSigactions) := by
    funext t
    by_cases ht : t = k.current
    · subst ht
      simp [refMap, Kernel.execInstall, Kernel.leave, Kernel.setPc, Kernel.modTask, hborn, hret]
    · simp [refMap, Kernel.execInstall, Kernel.leave, Kernel.setPc, Kernel.modTask, ht]
  have hrc : refcounts (k.execInstall subsystem) =
      Function.update (refcounts k) k.numSigactions (refcounts k k.numSigactions + 1) := by
    funext a
    by_cases ha : a = k.numSigactions
    · subst ha
      rw [Function.update_self, h.fresh _ (Nat.le_refl _)]
      simp [refcounts, Kernel.execInstall, Kernel.leave, Kernel.setPc, Kernel.modTask]
    · simp [refcounts, Kernel.execInstall, Kernel.leave, Kernel.setPc, Kernel.modTask, ha]
  refine
    { counted := by rw [hmap, hrc]; exact h.counted.attach hk
      freed := fun a => ?_
      fresh := fun a ha => ?_
      pointer := fun t => ?_ }
  · rw [hrc]
    by_cases ha : a = k.numSigactions
    · subst ha
      rw [Function.update_self, h.fresh _ (Nat.le_refl _)]
      simp [Kernel.execInstall, Kernel.leave, Kernel.setPc, Kernel.modTask]
    · rw [Function.update_of_ne ha]
      simp only [Kernel.execInstall, Kernel.leave, Kernel.setPc, Kernel.modTask,
        Function.update_of_ne ha]
      rw [h.freed a]
      rw [lt_succ_iff_of_ne ha]
  · rw [hrc, Function.update_of_ne (Nat.ne_of_gt ha)]
    exact h.fresh a (Nat.le_of_succ_le ha)
  · have := h.pointer t
    by_cases ht : t = k.current
    · subst ht
      simp [Kernel.execInstall, Kernel.leave, Kernel.setPc, Kernel.modTask]
    · simp only [Kernel.execInstall, Kernel.leave, Kernel.setPc, Kernel.modTask,
        Function.update_of_ne ht]
      exact Nat.lt_succ_of_lt this

/-- What the clone's reference does to the counters. -/
theorem cloneSigactions_spec
    (h : BlockInv k) (flags : BitVec 32) (hlive : (k.sigactions k.cur.sigactions).freed = false) :
    let k₁ := (k.cloneSigactions flags).1
    let a := (k.cloneSigactions flags).2
    refcounts k₁ = Function.update (refcounts k) a (refcounts k a + 1) ∧
      (∀ b, (k₁.sigactions b).freed = true ↔ b < k₁.numSigactions ∧ refcounts k₁ b = 0) ∧
      (∀ b, k₁.numSigactions ≤ b → refcounts k₁ b = 0) ∧
      a < k₁.numSigactions ∧ k.numSigactions ≤ k₁.numSigactions := by
  have hpos := h.pointer k.current
  unfold Kernel.cloneSigactions
  simp only
  split
  next =>
    have hrc : refcounts (k.modSigactions k.cur.sigactions fun b =>
        { b with refcount := b.refcount + 1 }) =
        Function.update (refcounts k) k.cur.sigactions (refcounts k k.cur.sigactions + 1) := by
      funext b
      by_cases hb : b = k.cur.sigactions
      · subst hb
        simp [refcounts, Kernel.modSigactions]
      · simp [refcounts, Kernel.modSigactions, hb]
    refine ⟨hrc, fun b => ?_, fun b hb => ?_, hpos, Nat.le_refl _⟩
    · rw [hrc]
      by_cases hb : b = k.cur.sigactions
      · subst hb
        have hnonneg := h.counted.nonneg k.cur.sigactions
        have hne : refcounts k k.cur.sigactions + 1 ≠ 0 := by omega
        simp [Kernel.modSigactions, hlive, hne]
      · simp only [Kernel.modSigactions, Function.update_of_ne hb]
        exact h.freed b
    · have hne : b ≠ k.cur.sigactions := by
        rintro rfl
        exact absurd hpos (Nat.not_lt.mpr hb)
      rw [hrc, Function.update_of_ne hne]
      exact h.fresh b hb
  next =>
    have hzero := h.fresh k.numSigactions (Nat.le_refl _)
    have hrc : refcounts { k with
        sigactions := Function.update k.sigactions k.numSigactions
          { refcount := 1, sigactions := (k.sigactions k.cur.sigactions).sigactions,
            freed := false }
        numSigactions := k.numSigactions + 1 } =
        Function.update (refcounts k) k.numSigactions (refcounts k k.numSigactions + 1) := by
      funext b
      by_cases hb : b = k.numSigactions
      · subst hb
        rw [Function.update_self, hzero]
        simp [refcounts]
      · simp [refcounts, hb]
    refine ⟨hrc, fun b => ?_, fun b hb => ?_, Nat.lt_succ_self _, Nat.le_succ _⟩
    · rw [hrc]
      by_cases hb : b = k.numSigactions
      · subst hb
        rw [Function.update_self, hzero]
        simp
      · rw [Function.update_of_ne hb]
        simp only [Function.update_of_ne hb]
        rw [h.freed b, lt_succ_iff_of_ne hb]
    · rw [hrc, Function.update_of_ne (Nat.ne_of_gt hb)]
      exact h.fresh b (Nat.le_of_succ_le hb)

theorem BlockInv.clone {flags : BitVec 32} {user : Bool} {pid next : Nat}
    (h : BlockInv k) (hlive : (k.sigactions k.cur.sigactions).freed = false) :
    BlockInv ({ (k.cloneSigactions flags).1 with nextPid := next }.addTask
      (k.cloneTask flags user pid (k.cloneSigactions flags).2)) := by
  obtain ⟨hrc, hfreed, hfresh, ha, hle⟩ := cloneSigactions_spec h flags hlive
  have hframe := cloneSigactions_frame k flags
  generalize hb : (k.cloneSigactions flags).2 = a at hrc ha
  generalize (k.cloneSigactions flags).1 = k₁ at hrc hfreed hfresh ha hle hframe
  have hk : refMap k k.numTasks = none := by simp [refMap]
  have htask : k₁.task = k.task := by rw [hframe]
  have hpc : k₁.pc = k.pc := by rw [hframe]
  have hnum : k₁.numTasks = k.numTasks := by rw [hframe]
  have hmap : refMap ({ k₁ with nextPid := next }.addTask (k.cloneTask flags user pid a)) =
      Function.update (refMap k) k.numTasks (some a) := by
    funext t
    by_cases ht : t = k.numTasks
    · subst ht
      simp [refMap, Kernel.addTask, hnum, Pc.life, Life.HasRef, Kernel.cloneTask]
    · simp [refMap, Kernel.addTask, hnum, ht, hpc, htask, lt_succ_iff_of_ne ht]
  refine
    { counted := ?_
      freed := hfreed
      fresh := hfresh
      pointer := fun t => ?_ }
  · rw [hmap]
    exact hrc ▸ h.counted.attach hk
  · by_cases ht : t = k.numTasks
    · subst ht
      simpa [Kernel.addTask, hnum, Kernel.cloneTask] using ha
    · simpa [Kernel.addTask, hnum, ht, htask] using Nat.lt_of_lt_of_le (h.pointer t) hle

theorem BlockInv.move {l : Label}
    (h : BlockInv k) (hinv : SchedInv False k) (hm : Move k l k') : BlockInv k' := by
  have hborn := hinv.currentBorn
  have hsame : ∀ {k₀ : Kernel} {p : Pc}, BlockInv k₀ → k₀.pc = k.pc →
      p.life.HasRef = (k.pc k.current).life.HasRef → BlockInv (k₀.setPc k.current p) := by
    intro k₀ p h₀ hpc hp
    refine h₀.same rfl (fun t => ?_) (fun _ => rfl) rfl (fun _ => rfl) rfl
    by_cases ht : t = k.current
    · subst ht
      simp [Kernel.setPc, hp, hpc]
    · simp [Kernel.setPc, ht]
  have hreap : ∀ {k₀ : Kernel} {t : TaskId} {pid : Nat}, BlockInv k₀ →
      BlockInv (k₀.doWaitTask t pid) := by
    intro k₀ t pid h₀
    refine h₀.same rfl (fun _ => rfl) (fun t' => ?_) rfl (fun _ => rfl) rfl
    by_cases ht : t' = t
    · subst ht
      simp [Kernel.doWaitTask, Kernel.modTask]
    · simp [Kernel.doWaitTask, Kernel.modTask, ht]
  cases hm with
  | none => exact h
  | clone _ _ _ _ hlive => exact h.clone hlive
  | execPut _ hlife hput => exact h.put hborn (by rw [hlife]; rfl) rfl hput
  | execInstall _ hpc => exact h.install hborn hpc
  | @doExit k₀ exitcode hlife _ hk₀ =>
      have hq : BlockInv k₀ ∧ k₀.pc = k.pc ∧ k₀.current = k.current := by
        rcases hk₀ with rfl | ⟨signum, rfl⟩
        · exact ⟨h, rfl, rfl⟩
        · exact ⟨h.quiet .kernelGetPendingSig, rfl, rfl⟩
      obtain ⟨h₀, hpc, hcur⟩ := hq
      unfold Kernel.doExit
      rw [hcur]
      refine hsame ?_ hpc (by rw [hlife]; rfl)
      refine h₀.same rfl (fun _ => rfl) (fun t => ?_) rfl (fun _ => rfl) rfl
      by_cases ht : t = k.current
      · subst ht
        simp [Kernel.modTask]
      · simp [Kernel.modTask, ht]
  | closing _ hpc =>
      refine hsame ?_ (putSession_frame k).1 (by rw [hpc]; rfl)
      unfold Kernel.putSession
      split
      · exact h.quiet (.modUnseen rfl)
      · exact h
  | putSigactions _ hpc hput => exact h.put hborn (by rw [hpc]; rfl) rfl hput
  | putSiginfos _ hpc hput =>
      obtain ⟨siginfos, -, rfl⟩ := putSiginfos_eq hput
      refine hsame ?_ rfl (by rw [hpc]; rfl)
      refine h.same rfl (fun _ => rfl) (fun t => ?_) rfl (fun _ => rfl) rfl
      by_cases ht : t = k.current
      · subst ht
        simp [Kernel.modTask]
      · simp [Kernel.modTask, ht]
  | notify _ hpc hnotify =>
      obtain ⟨hpc₀, -⟩ := notifyParent_frame hnotify
      refine hsame ?_ hpc₀ (by rw [hpc]; rfl)
      rcases notifyParent_cases hnotify with rfl | ⟨parent, k₁, hlog, hs⟩
      · exact hreap h
      · have h₁ : BlockInv k₁ := by
          rcases hlog with rfl | rfl
          · exact h
          · exact h.same rfl (fun _ => rfl) (fun _ => rfl) rfl (fun _ => rfl) rfl
        have heq := sendSigInfo_frame hs
        refine h₁.same (by rw [heq]) (fun t => by rw [heq]) (fun t => ?_) ?_ (fun a => ?_) ?_
        · exact sendSigInfo_unsent TaskStruct.sigactions (fun _ _ _ _ => rfl) hs t
        · rw [heq]; rfl
        · rw [heq]
        · rw [heq]
  | reparent _ hpc =>
      refine hsame ?_ rfl (by rw [hpc]; rfl)
      refine h.same rfl (fun _ => rfl) (fun t => ?_) rfl (fun _ => rfl) rfl
      simp only [Kernel.reparentChildren]
      split <;> rfl
  | sched _ hpc hs =>
      have heq := hs.frame
      refine h.same (by rw [heq]) (fun t => ?_) (fun t => ?_) ?_ (fun a => ?_) ?_
      · rw [heq]
        by_cases ht : t = k.current
        · subst ht
          simp [hpc, Pc.life, Life.HasRef]
        · simp [ht]
      · rcases hs.task t with h' | ⟨-, h'⟩ <;> rw [h']
      · rw [heq]; rfl
      · rw [heq]
      · rw [heq]
  | reapZombie => exact hreap h
  | reapAwaited => exact hreap (h.quiet .kernelGetPendingSig)
  | reapFound => exact hreap (h.quiet .kernelGetPendingSig)

theorem BlockInv.tail (h : BlockInv k) (ht : Tail k k') : BlockInv k' := by
  cases ht with
  | quiet hq => exact h.quiet hq
  | @startsWait k₀ t oldaction hq hcur hpc hlife _ _ =>
      refine (h.quiet hq).same rfl (fun u => ?_) (fun _ => rfl) rfl (fun _ => rfl) rfl
      by_cases hu : u = k₀.current
      · subst hu
        rw [hpc, hcur, hlife]
        simp [Kernel.setPc, Pc.life]
      · simp [Kernel.setPc, hu]

/-! ### Records of signals -/

/-- A change of one record that leaves the life of its array alone. -/
theorem modTask_mem {t : TaskId} {f : TaskStruct → TaskStruct}
    (hf : (f (k.task t)).sigpending.siginfos.mem = (k.task t).sigpending.siginfos.mem)
    (t' : TaskId) :
    ((k.modTask t f).task t').sigpending.siginfos.mem = (k.task t').sigpending.siginfos.mem := by
  by_cases ht : t' = t
  · subst ht
    simpa [Kernel.modTask] using hf
  · simp [Kernel.modTask, ht]

/-- The arrays of records and their log are as before. -/
structure SameInfos (k k' : Kernel) : Prop where
  mem : ∀ t, (k'.task t).sigpending.siginfos.mem = .freed ↔
    (k.task t).sigpending.siginfos.mem = .freed
  log : ∀ t, Event.infosFreed t ∈ k'.log ↔ Event.infosFreed t ∈ k.log
  numTasks : k'.numTasks = k.numTasks

theorem InfoInv.same (h : InfoInv k) (hs : SameInfos k k') : InfoInv k' :=
  ⟨fun t => (hs.mem t).trans ((h.freed t).trans (hs.log t).symm),
    fun t ht => hs.numTasks ▸ h.born t ((hs.log t).mp ht)⟩

theorem SameInfos.trans {k₁ k₂ : Kernel} (h : SameInfos k k₁) (h' : SameInfos k₁ k₂) :
    SameInfos k k₂ :=
  ⟨fun t => (h'.mem t).trans (h.mem t), fun t => (h'.log t).trans (h.log t),
    h'.numTasks.trans h.numTasks⟩

theorem SameInfos.quiet (hq : Quiet k k') : SameInfos k k' :=
  ⟨fun t => (hq.record t).mem, fun t => by rw [hq.log], hq.numTasks⟩

theorem SameInfos.doWaitTask {t : TaskId} {pid : Nat} : SameInfos k (k.doWaitTask t pid) :=
  ⟨fun t' => by simp only [Kernel.doWaitTask]; rw [modTask_mem rfl], fun t' => by
    simp [Kernel.doWaitTask], rfl⟩

theorem SameInfos.sendSigInfo {t : TaskId} {info : Siginfo}
    (hs : k.sendSigInfo t info = .ok k') : SameInfos k k' := by
  have heq := sendSigInfo_frame hs
  exact ⟨sendSigInfo_mem hs, fun t' => by rw [heq], by rw [heq]⟩

theorem SameInfos.notifyParent (hs : k.notifyParent = .ok k') : SameInfos k k' := by
  rcases notifyParent_cases hs with rfl | ⟨parent, k₁, hk₁, hsend⟩
  · exact .doWaitTask
  · have h₁ := SameInfos.sendSigInfo hsend
    rcases hk₁ with rfl | rfl
    · exact h₁
    · refine ⟨h₁.mem, fun t => (h₁.log t).trans ?_, h₁.numTasks⟩
      simp [Kernel.logQueued]

/-- Only creating a task, and the stage of `do_exit` made for it, touch the arrays. -/
theorem Move.infos {l : Label} (hm : Move k l k') :
    SameInfos k k' ∨
      k'.numTasks = k.numTasks + 1 ∧ k'.log = k.log ∧
        (∀ t, t ≠ k.numTasks → k'.task t = k.task t) ∧
        (k'.task k.numTasks).sigpending.siginfos.mem = .null ∨
      l.IsGo ∧ k.pc k.current = .exit .putSiginfos ∧
        k.cur.sigpending.siginfos.mem = .live ∧
        k'.numTasks = k.numTasks ∧ k'.log = .infosFreed k.current :: k.log ∧
        (∀ t, t ≠ k.current → k'.task t = k.task t) ∧
        (k'.task k.current).sigpending.siginfos.mem = .freed := by
  cases hm with
  | none => exact .inl (.quiet (.refl k))
  | clone =>
      refine .inr (.inl ?_)
      rw [cloneSigactions_frame]
      exact ⟨rfl, rfl, fun t ht => by simp [Kernel.addTask, ht], by
        simp [Kernel.addTask, Kernel.cloneTask, Sigpending.empty, Structure.Array.empty]⟩
  | execPut _ _ hput =>
      rw [putSigactions_frame hput]
      exact .inl ⟨fun _ => .rfl, fun _ => .rfl, rfl⟩
  | execInstall =>
      refine .inl ⟨fun t => ?_, fun _ => .rfl, rfl⟩
      simp only [Kernel.execInstall, Kernel.leave, Kernel.setPc]
      rw [modTask_mem rfl]
  | @doExit k₀ exitcode _ _ hk₀ =>
      have hsame : SameInfos k k₀ := by
        rcases hk₀ with rfl | ⟨signum, rfl⟩
        · exact .quiet (.refl k₀)
        · exact .quiet .kernelGetPendingSig
      refine .inl ⟨fun t => Iff.trans ?_ (hsame.mem t), hsame.log, hsame.numTasks⟩
      simp only [Kernel.doExit, Kernel.setPc]
      rw [modTask_mem rfl]
  | closing =>
      refine .inl ?_
      unfold Kernel.putSession
      split
      · refine ⟨fun t => ?_, fun _ => .rfl, rfl⟩
        simp only [Kernel.setPc]
        rw [modTask_mem rfl]
      · exact ⟨fun _ => .rfl, fun _ => .rfl, rfl⟩
  | putSigactions _ _ hput =>
      rw [putSigactions_frame hput]
      exact .inl ⟨fun _ => .rfl, fun _ => .rfl, rfl⟩
  | putSiginfos hl hpc hput =>
      obtain ⟨siginfos, hdestroy, rfl⟩ := putSiginfos_eq hput
      unfold Structure.Array.destroy at hdestroy
      split at hdestroy
      next hnull =>
        cases hdestroy
        refine .inl ⟨fun t => ?_, fun t => ?_, rfl⟩
        · simp only [Kernel.setPc]
          rw [modTask_mem rfl]
        · simp [Kernel.setPc, hnull]
      next hlive =>
        cases hdestroy
        exact .inr (.inr ⟨hl, hpc, hlive, rfl, by simp [Kernel.setPc],
          fun t ht => by simp [Kernel.setPc, Kernel.modTask, ht],
          by simp [Kernel.setPc, Kernel.modTask]⟩)
      next => cases hdestroy
  | notify _ _ hnotify =>
      have hsame := SameInfos.notifyParent hnotify
      exact .inl ⟨hsame.mem, hsame.log, hsame.numTasks⟩
  | reparent =>
      refine .inl ⟨fun t => ?_, fun _ => .rfl, rfl⟩
      simp only [Kernel.setPc, Kernel.reparentChildren]
      split <;> rfl
  | sched _ _ hs =>
      have heq := hs.frame
      refine .inl ⟨fun t => ?_, fun _ => by rw [heq], by rw [heq]⟩
      rcases hs.task t with h' | ⟨-, h'⟩ <;> rw [h']
  | reapZombie => exact .inl .doWaitTask
  | reapAwaited => exact .inl ((SameInfos.quiet .kernelGetPendingSig).trans .doWaitTask)
  | reapFound => exact .inl ((SameInfos.quiet .kernelGetPendingSig).trans .doWaitTask)

theorem InfoInv.move {l : Label}
    (h : InfoInv k) (hinv : SchedInv False k) (hm : Move k l k') : InfoInv k' := by
  rcases hm.infos with hsame | ⟨hnum, hlog, htask, hmem⟩ |
    ⟨-, -, hlive, hnum, hlog, htask, hmem⟩
  · exact h.same hsame
  · refine ⟨fun t => ?_, fun t ht => ?_⟩
    · rw [hlog]
      by_cases hc : t = k.numTasks
      · subst hc
        rw [hmem]
        simpa using fun hin => Nat.lt_irrefl _ (h.born _ hin)
      · rw [htask t hc]
        exact h.freed t
    · rw [hnum]
      exact Nat.lt_succ_of_lt (h.born t (hlog ▸ ht))
  · refine ⟨fun t => ?_, fun t ht => ?_⟩
    · rw [hlog]
      by_cases hc : t = k.current
      · subst hc
        simp [hmem]
      · rw [htask t hc]
        simp [hc, h.freed t]
    · rw [hnum]
      rw [hlog] at ht
      rcases List.mem_cons.mp ht with heq | hold
      · cases heq
        exact hinv.currentBorn
      · exact h.born t hold

theorem InfoInv.tail (h : InfoInv k) (ht : Tail k k') : InfoInv k' := by
  cases ht with
  | quiet hq => exact h.same (.quiet hq)
  | startsWait hq hcur hpc hlife _ _ =>
      have hsame := SameInfos.quiet hq
      exact h.same ⟨hsame.mem, hsame.log, hsame.numTasks⟩

/-! ### Listed tasks -/

/-- The stacks given back are those of `freeTasks`. -/
theorem ListedInv.frees
    (h : ListedInv k) (htasks : k'.tasks = k.tasks) (hnum : k'.numTasks = k.numTasks)
    (hfree : k'.freed = k.freed ∧ k'.freeTasks = k.freeTasks ∨
      freeStacks k.freeTasks k.freed = .ok k'.freed ∧ k'.freeTasks = [])
    (hawait : ∀ u, (k'.pc u).awaited = none ∨ (k'.pc u).awaited = (k.pc u).awaited) :
    ListedInv k' := by
  have hfreed : ∀ t, k'.freed t = true → k.freed t = true ∨ t ∈ k.freeTasks := by
    intro t ht
    rcases hfree with ⟨hf, -⟩ | ⟨hf, -⟩
    · exact .inl (hf ▸ ht)
    · exact (freeStacks_spec hf t).mp ht
  have hlist : ∀ t ∈ k'.freeTasks, t ∈ k.freeTasks := by
    intro t ht
    rcases hfree with ⟨-, hl⟩ | ⟨-, hl⟩
    · exact hl ▸ ht
    · rw [hl] at ht
      cases ht
  refine ⟨fun t ht => ⟨?_, fun hm => ?_⟩, by rw [htasks, hnum]; exact h.listedBorn,
    fun t ht => ?_, fun t ht => ?_, fun u t ht => ?_⟩
  · rw [htasks] at ht
    obtain ⟨h1, h2⟩ := h.listed t ht
    rw [Bool.eq_false_iff]
    intro hc
    rcases hfreed t hc with hold | hold
    · rw [h1] at hold
      cases hold
    · exact h2 hold
  · rw [htasks] at ht
    exact (h.listed t ht).2 (hlist t hm)
  · rw [hnum]
    exact h.freeBorn t (hlist t ht)
  · rw [hnum]
    rcases hfreed t ht with hold | hold
    · exact h.freedBorn t hold
    · exact h.freeBorn t hold
  · rw [hnum]
    rcases hawait u with hn | heq
    · rw [hn] at ht
      cases ht
    · exact h.awaitedBorn u t (heq ▸ ht)

theorem ListedInv.quiet (h : ListedInv k) (hq : Quiet k k') : ListedInv k' := by
  refine h.frees hq.tasks hq.numTasks ?_ hq.awaited
  rcases hq.freedStacks with ⟨hf, hl, -⟩ | ⟨-, hfree⟩
  · exact .inl ⟨hf, hl⟩
  · exact hfree

/-- Nothing happens to the lists, and nobody starts to wait. -/
theorem ListedInv.same
    (h : ListedInv k) (htasks : k'.tasks = k.tasks) (hnum : k'.numTasks = k.numTasks)
    (hfreed : k'.freed = k.freed) (hfree : k'.freeTasks = k.freeTasks)
    (hawait : ∀ u, (k'.pc u).awaited = none ∨ (k'.pc u).awaited = (k.pc u).awaited) :
    ListedInv k' :=
  h.frees htasks hnum (.inl ⟨hfreed, hfree⟩) hawait

theorem ListedInv.doWaitTask {t : TaskId}
    (h : ListedInv k) (pid : Nat) (ht : t < k.numTasks) : ListedInv (k.doWaitTask t pid) := by
  refine ⟨fun t' ht' => ?_, fun t' ht' => h.listedBorn t' (List.mem_filter.mp ht').1,
    fun t' ht' => ?_, h.freedBorn, h.awaitedBorn⟩
  · obtain ⟨hmem, hne⟩ := List.mem_filter.mp ht'
    have hne' : t' ≠ t := by simpa using hne
    obtain ⟨h1, h2⟩ := h.listed t' hmem
    refine ⟨h1, fun hc => ?_⟩
    rcases List.mem_append.mp hc with hold | hnew
    · exact h2 hold
    · exact hne' (List.mem_singleton.mp hnew)
  · rcases List.mem_append.mp ht' with hold | hnew
    · exact h.freeBorn t' hold
    · rw [List.mem_singleton.mp hnew]
      exact ht

theorem ListedInv.clone {flags : BitVec 32} {user : Bool} {pid next : Nat}
    (h : ListedInv k) :
    ListedInv ({ (k.cloneSigactions flags).1 with nextPid := next }.addTask
      (k.cloneTask flags user pid (k.cloneSigactions flags).2)) := by
  rw [cloneSigactions_frame]
  refine ⟨fun t ht => ?_, fun t ht => ?_, fun t ht => ?_, fun t ht => ?_, fun u t ht => ?_⟩
  · rcases List.mem_append.mp ht with hold | hnew
    · exact h.listed t hold
    · rw [List.mem_singleton.mp hnew]
      refine ⟨?_, fun hc => Nat.lt_irrefl _ (h.freeBorn _ hc)⟩
      rw [Bool.eq_false_iff]
      exact fun hc => Nat.lt_irrefl _ (h.freedBorn _ hc)
  · rcases List.mem_append.mp ht with hold | hnew
    · exact Nat.lt_succ_of_lt (h.listedBorn t hold)
    · rw [List.mem_singleton.mp hnew]
      exact Nat.lt_succ_self _
  · exact Nat.lt_succ_of_lt (h.freeBorn t ht)
  · exact Nat.lt_succ_of_lt (h.freedBorn t ht)
  · by_cases hu : u = k.numTasks
    · subst hu
      simp [Kernel.addTask, Pc.awaited] at ht
    · simp only [Kernel.addTask, Function.update_of_ne hu] at ht
      exact Nat.lt_succ_of_lt (h.awaitedBorn u t ht)

theorem awaited_setPc {p : Pc} {k₀ : Kernel} {t : TaskId}
    (hpc : k₀.pc = k.pc) (hp : p.awaited = none) (u : TaskId) :
    ((k₀.setPc t p).pc u).awaited = none ∨ ((k₀.setPc t p).pc u).awaited = (k.pc u).awaited := by
  by_cases hu : u = t
  · subst hu
    exact .inl (by simpa [Kernel.setPc] using hp)
  · exact .inr (by simp [Kernel.setPc, hu, hpc])

/-- Beside what concerns neither list, a task moves on without waiting. -/
theorem ListedInv.advance {k₀ : Kernel} {t : TaskId} {p : Pc}
    (h : ListedInv k)
    (hsame : k₀ = { k₀ with
      pc := k.pc, tasks := k.tasks, numTasks := k.numTasks, freed := k.freed
      freeTasks := k.freeTasks }) (hp : p.awaited = none) : ListedInv (k₀.setPc t p) := by
  rw [hsame]
  exact h.same rfl rfl rfl rfl (awaited_setPc rfl hp)

theorem ListedInv.move {l : Label}
    (h : ListedInv k) (hinv : SchedInv False k) (hm : Move k l k') : ListedInv k' := by
  cases hm with
  | none => exact h
  | clone => exact h.clone
  | execPut _ _ hput =>
      rw [putSigactions_frame hput]
      exact h.advance rfl rfl
  | execInstall =>
      refine h.advance rfl ?_
      unfold retPc
      split <;> rfl
  | doExit _ _ hk₀ =>
      rcases hk₀ with rfl | ⟨signum, rfl⟩
      · exact h.advance rfl rfl
      · exact h.advance rfl rfl
  | closing =>
      unfold Kernel.putSession
      split
      · exact h.advance rfl rfl
      · exact h.advance rfl rfl
  | putSigactions _ _ hput =>
      rw [putSigactions_frame hput]
      exact h.advance rfl rfl
  | putSiginfos _ _ hput =>
      obtain ⟨siginfos, -, rfl⟩ := putSiginfos_eq hput
      exact h.advance rfl rfl
  | notify _ _ hnotify =>
      rcases notifyParent_cases hnotify with rfl | ⟨parent, k₁, hk₁, hsend⟩
      · exact (h.doWaitTask k.cur.pid hinv.currentBorn).advance rfl rfl
      · rw [sendSigInfo_frame hsend]
        rcases hk₁ with rfl | rfl
        · exact h.advance rfl rfl
        · exact h.advance rfl rfl
  | reparent => exact h.advance rfl rfl
  | sched _ _ hs =>
      have heq := hs.frame
      refine h.frees (by rw [heq]) (by rw [heq]) hs.freeTasks fun u => ?_
      rw [heq]
      exact awaited_setPc rfl rfl u
  | reapZombie _ hmem _ _ => exact h.doWaitTask _ (h.listedBorn _ hmem)
  | reapAwaited _ hpc _ _ _ _ =>
      exact (h.quiet .kernelGetPendingSig).doWaitTask _ (h.awaitedBorn _ _ (by rw [hpc]; rfl))
  | reapFound _ _ _ _ hget _ =>
      exact (h.quiet .kernelGetPendingSig).doWaitTask _
        (h.listedBorn _ (getTaskFromPid_mem hget).1)

theorem ListedInv.tail (h : ListedInv k) (ht : Tail k k') : ListedInv k' := by
  cases ht with
  | quiet hq => exact h.quiet hq
  | @startsWait k₀ t oldaction hq _ _ _ hmem _ =>
      have h₀ := h.quiet hq
      refine ⟨h₀.listed, h₀.listedBorn, h₀.freeBorn, h₀.freedBorn, fun u t' ht' => ?_⟩
      by_cases hu : u = k₀.current
      · subst hu
        simp only [Kernel.setPc, Function.update_self, Pc.awaited, Option.some.injEq] at ht'
        rw [← ht']
        exact hq.numTasks ▸ h.listedBorn t hmem
      · simp only [Kernel.setPc, Function.update_of_ne hu] at ht'
        exact h₀.awaitedBorn u t' ht'

/-- Everything the theorem rests on. -/
structure SignalInv (k : Kernel) : Prop where
  sched : SchedInv False k
  block : BlockInv k
  info : InfoInv k
  listed : ListedInv k

theorem SignalInv.step {l : Label} (h : SignalInv k) (hs : machine.Step k l k') :
    SignalInv k' := by
  obtain ⟨k₁, hm, ht⟩ := step_effect hs
  exact
    { sched := h.sched.step (fun hf => hf.elim) hs
      block := (h.block.move h.sched hm).tail ht
      info := (h.info.move h.sched hm).tail ht
      listed := (h.listed.move h.sched hm).tail ht }

theorem refMap_boot (t : TaskId) : refMap boot t = if t < 2 then some t else none := by
  have hlife : (boot.pc t).life.HasRef = true := by
    by_cases ht : t = swapperTask <;> simp [boot, ht, Pc.life, Life.HasRef]
  by_cases ht : t < 2
  · have hsig : (boot.task t).sigactions = t := by
      by_cases hs : t = swapperTask
      · simp [boot, bootTask, hs, swapperTask]
      · have h1 : t = 1 :=
          Nat.le_antisymm (Nat.lt_succ_iff.mp ht) (Nat.pos_of_ne_zero hs)
        subst h1
        rfl
    have hborn : t < boot.numTasks := ht
    simp only [refMap, hlife, hborn, hsig, ht, and_self, if_true]
  · have hborn : ¬ t < boot.numTasks := ht
    simp only [refMap, hborn, ht, false_and, if_false]

theorem BlockInv.boot : BlockInv boot := by
  have hrc : ∀ a, refcounts Task.boot a = if a < 2 then 1 else 0 := fun _ => rfl
  have hholders : ∀ a, holders (refMap Task.boot) a = if a < 2 then {a} else ∅ := by
    intro a
    ext t
    rw [mem_holders, refMap_boot]
    by_cases ha : a < 2
    · rw [if_pos ha, Set.mem_singleton_iff]
      constructor
      · intro h
        split at h
        · simpa using h
        · cases h
      · rintro rfl
        rw [if_pos ha]
    · rw [if_neg ha, Set.mem_empty_iff_false, iff_false]
      intro h
      split at h
      next ht =>
        simp only [Option.some.injEq] at h
        exact ha (h ▸ ht)
      next => cases h
  refine ⟨⟨fun a => ?_, fun a => ?_⟩, fun a => ?_, fun a ha => ?_, fun t => ?_⟩
  · rw [hholders]
    split
    · exact Set.finite_singleton a
    · exact Set.finite_empty
  · rw [hholders, hrc]
    split <;> simp
  · rw [hrc]
    constructor
    · intro hf
      cases hf
    · rintro ⟨ha, hzero⟩
      have ha' : a < 2 := ha
      rw [if_pos ha'] at hzero
      cases hzero
  · have ha' : ¬ a < 2 := Nat.not_lt.mpr ha
    rw [hrc, if_neg ha']
  · by_cases hs : t = swapperTask <;> simp [Task.boot, bootTask, hs]

theorem SignalInv.boot : SignalInv boot := by
  have hmem : ∀ t, (Task.boot.task t).sigpending.siginfos.mem = .null := by
    intro t
    by_cases ht : t = swapperTask <;>
      simp [Task.boot, bootTask, ht, Sigpending.empty, Structure.Array.empty]
  have hlog : Task.boot.log = [] := rfl
  refine ⟨SchedInv.boot, BlockInv.boot, ⟨fun t => ?_, fun t ht => ?_⟩,
    ⟨fun t _ => ⟨rfl, List.not_mem_nil⟩, fun t ht => ?_, fun t ht => (by cases ht),
      fun t ht => (by cases ht), fun u t ht => ?_⟩⟩
  · simp [hmem, hlog]
  · rw [hlog] at ht
    cases ht
  · rw [List.mem_singleton.mp ht]
    decide
  · by_cases hu : u = swapperTask <;> simp [Task.boot, hu, Pc.awaited] at ht

/-- The invariant holds in every run. -/
theorem SignalInv.reach {ok : Kernel → Label → Prop} (h : machine.Reach Init ok k) :
    SignalInv k := by
  refine Machine.Reach.invariant (fun k hk => ?_) (fun _ _ _ h _ hs => h.step hs) h
  rw [hk]
  exact .boot

end Preservation

/-! ### The theorem -/

/-- What `send_sig_info` dereferences for a task is live. -/
structure SignalSafe (k : Kernel) (t : TaskId) : Prop where
  sigactions : (k.sigactions (k.task t).sigactions).freed = false
  siginfos : (k.task t).sigpending.siginfos.mem ≠ .freed

/-- Task `u` has not given its `sigactions` up. -/
def HoldsSigactions (k : Kernel) (u : TaskId) : Prop :=
  u < k.numTasks ∧ (k.pc u).life.HasRef = true

/-- The step gives up no block of signal actions that nobody else holds, and frees no
array of records. -/
def KeepsBlocks (k : Kernel) (l : Label) : Prop :=
  ((∃ subsystem, l = .call (.execve subsystem)) ∨
      l.IsGo ∧ k.pc k.current = .exit .putSigactions →
    ∃ u, u ≠ k.current ∧ HoldsSigactions k u ∧ (k.task u).sigactions = k.cur.sigactions) ∧
  (l.IsGo ∧ k.pc k.current = .exit .putSiginfos → k.cur.sigpending.siginfos.mem = .null)

section Safety

variable {k k' : Kernel}

theorem refMap_of_holds {u : TaskId} (h : HoldsSigactions k u) :
    refMap k u = some (k.task u).sigactions :=
  if_pos h

/-- A listed task, while its block is held and its array is there. -/
theorem SignalInv.signalSafe_iff (h : SignalInv k) (t : TaskId) :
    SignalSafe k t ↔
      (∃ u, HoldsSigactions k u ∧ (k.task u).sigactions = (k.task t).sigactions) ∧
        Event.infosFreed t ∉ k.log := by
  have hblock : (k.sigactions (k.task t).sigactions).freed = false ↔
      ∃ u, HoldsSigactions k u ∧ (k.task u).sigactions = (k.task t).sigactions := by
    rw [Bool.eq_false_iff, Ne, h.block.freed, not_and]
    have hptr := h.block.pointer t
    constructor
    · intro hne
      have hnonneg := h.block.counted.nonneg (k.task t).sigactions
      have hne' := hne hptr
      have hpos : 0 < refcounts k (k.task t).sigactions := by omega
      obtain ⟨u, hu⟩ := h.block.counted.pos_iff.mp hpos
      simp only [refMap] at hu
      split at hu
      next hheld => exact ⟨u, hheld, by simpa using hu⟩
      next => cases hu
    · rintro ⟨u, hheld, heq⟩ - hzero
      exact h.block.counted.eq_zero_iff.mp hzero u (heq ▸ refMap_of_holds hheld)
  constructor
  · intro hs
    exact ⟨hblock.mp hs.sigactions, fun hm => hs.siginfos ((h.info.freed t).mpr hm)⟩
  · rintro ⟨hheld, hlog⟩
    exact ⟨hblock.mpr hheld, fun hm => hlog ((h.info.freed t).mp hm)⟩

/-- No block of signal actions is freed, and no array of records. -/
structure NothingFreed (k : Kernel) : Prop where
  sigactions : ∀ a, (k.sigactions a).freed = false
  siginfos : ∀ t, (k.task t).sigpending.siginfos.mem ≠ .freed

/-- Giving up a block that another task holds frees nothing. -/
theorem putSigactions_keeps
    (h : SignalInv k) (hnone : ∀ a, (k.sigactions a).freed = false)
    (hown : HoldsSigactions k k.current)
    (hother : ∃ u, u ≠ k.current ∧ HoldsSigactions k u ∧
      (k.task u).sigactions = k.cur.sigactions)
    (hs : k.putSigactions = .ok k') (a : SigactionsId) : (k'.sigactions a).freed = false := by
  obtain ⟨u, hne, hheld, heq⟩ := hother
  have htwo : 2 ≤ refcounts k k.cur.sigactions :=
    h.block.counted.two_le hne (heq ▸ refMap_of_holds hheld) (refMap_of_holds hown)
  rw [putSigactions_eq hs]
  by_cases ha : a = k.cur.sigactions
  · subst ha
    have hne' : (k.sigactions k.cur.sigactions).refcount - 1 ≠ 0 := by
      unfold refcounts at htwo
      omega
    simp [Kernel.modSigactions, hne']
  · simpa [Kernel.modSigactions, ha] using hnone a

/-- Blocks of signal actions are freed by two moves only. -/
theorem Move.sigactionsFreed {l : Label} (hm : Move k l k')
    (hnone : ∀ a, (k.sigactions a).freed = false) :
    (∀ a, (k'.sigactions a).freed = false) ∨
      ((∃ subsystem, l = .call (.execve subsystem)) ∨
          l.IsGo ∧ k.pc k.current = .exit .putSigactions) ∧
        (k.pc k.current).life.HasRef = true ∧
        ∃ k₀, k.putSigactions = .ok k₀ ∧ k'.sigactions = k₀.sigactions := by
  cases hm with
  | none => exact .inl hnone
  | clone flags =>
      refine .inl fun a => ?_
      change ((k.cloneSigactions flags).1.sigactions a).freed = false
      unfold Kernel.cloneSigactions
      simp only
      split
      · by_cases ha : a = k.cur.sigactions
        · subst ha
          simpa [Kernel.modSigactions] using hnone _
        · simpa [Kernel.modSigactions, ha] using hnone a
      · by_cases ha : a = k.numSigactions
        · subst ha
          simp
        · simpa [ha] using hnone a
  | execPut hl hlife hput =>
      exact .inr ⟨.inl ⟨_, hl⟩, by rw [hlife]; rfl, _, hput, rfl⟩
  | execInstall =>
      refine .inl fun a => ?_
      by_cases ha : a = k.numSigactions
      · subst ha
        simp [Kernel.execInstall, Kernel.leave, Kernel.setPc, Kernel.modTask]
      · simpa [Kernel.execInstall, Kernel.leave, Kernel.setPc, Kernel.modTask, ha] using hnone a
  | doExit _ _ hk₀ => rcases hk₀ with rfl | ⟨signum, rfl⟩ <;> exact .inl hnone
  | closing =>
      unfold Kernel.putSession
      split <;> exact .inl hnone
  | putSigactions hl hpc hput =>
      exact .inr ⟨.inr ⟨hl, hpc⟩, by rw [hpc]; rfl, _, hput, rfl⟩
  | putSiginfos _ _ hput =>
      obtain ⟨siginfos, -, rfl⟩ := putSiginfos_eq hput
      exact .inl hnone
  | notify _ _ hnotify =>
      refine .inl ?_
      rcases notifyParent_cases hnotify with rfl | ⟨parent, k₁, hk₁, hsend⟩
      · exact hnone
      · rw [sendSigInfo_frame hsend]
        rcases hk₁ with rfl | rfl <;> exact hnone
  | reparent => exact .inl hnone
  | sched _ _ hs =>
      rw [hs.frame]
      exact .inl hnone
  | reapZombie => exact .inl hnone
  | reapAwaited => exact .inl hnone
  | reapFound => exact .inl hnone

theorem NothingFreed.move {l : Label}
    (h : NothingFreed k) (hinv : SignalInv k) (hok : KeepsBlocks k l) (hm : Move k l k') :
    NothingFreed k' := by
  refine ⟨?_, ?_⟩
  · rcases hm.sigactionsFreed h.sigactions with hnone | ⟨hwhen, hown, k₀, hput, heq⟩
    · exact hnone
    · rw [heq]
      exact putSigactions_keeps hinv h.sigactions ⟨hinv.sched.currentBorn, hown⟩
        (hok.1 hwhen) hput
  · intro t
    rcases hm.infos with hsame | ⟨-, -, htask, hmem⟩ | ⟨hl, hpc, hlive, -⟩
    · exact fun hc => h.siginfos t ((hsame.mem t).mp hc)
    · by_cases hc : t = k.numTasks
      · subst hc
        rw [hmem]
        simp
      · rw [htask t hc]
        exact h.siginfos t
    · rw [hok.2 ⟨hl, hpc⟩] at hlive
      cases hlive

theorem NothingFreed.quiet (h : NothingFreed k) (hq : Quiet k k') : NothingFreed k' :=
  ⟨fun a => (hq.freed a).trans (h.sigactions a),
    fun t hc => h.siginfos t ((hq.record t).mem.mp hc)⟩

/-- While no step gives up a last reference, nothing is freed. -/
theorem NothingFreed.reach (h : machine.Reach Init KeepsBlocks k) : NothingFreed k := by
  have hboth : SignalInv k ∧ NothingFreed k := by
    refine Machine.Reach.invariant (P := fun k => SignalInv k ∧ NothingFreed k) ?_ ?_ h
    · rintro _ rfl
      refine ⟨SignalInv.boot, fun _ => rfl, fun t => ?_⟩
      by_cases ht : t = swapperTask <;>
        simp [boot, bootTask, ht, Sigpending.empty, Structure.Array.empty]
    · intro k₁ l k₂ h₁ hok hs
      refine ⟨h₁.1.step hs, ?_⟩
      obtain ⟨km, hm, ht⟩ := step_effect hs
      have hkm := h₁.2.move h₁.1 hok hm
      cases ht with
      | quiet hq => exact hkm.quiet hq
      | startsWait hq _ _ _ _ _ =>
          have h₀ := hkm.quiet hq
          exact ⟨h₀.sigactions, h₀.siginfos⟩
  exact hboth.2

/-! #### Sending to safe tasks -/

/-- A send to a safe task uses no freed memory. -/
theorem sendSigInfo_live {t : TaskId} {info : Siginfo}
    (hstack : k.freed t = false) (hsafe : SignalSafe k t) :
    k.sendSigInfo t info ≠ .error .useAfterFree := by
  intro hs
  unfold Kernel.sendSigInfo at hs
  rw [if_neg (by simp [hstack])] at hs
  split at hs
  next => cases hs
  next =>
    split at hs
    next e hact =>
      cases hs
      unfold Kernel.sigactionOf at hact
      rw [if_neg (by simp [hsafe.sigactions])] at hact
      split at hact <;> cases hact
    next =>
      split at hs
      next => cases hs
      next =>
        split at hs
        next => cases hs
        next =>
          split at hs
          next e hpost =>
            cases hs
            unfold Kernel.postSignal at hpost
            split at hpost
            next e' hset =>
              cases hpost
              exact Structure.Array.set_live hsafe.siginfos hset
            next => cases hpost
          next => split at hs <;> cases hs

/-- Every listed task can be signalled. -/
def AllSafe (k : Kernel) (ts : List TaskId) : Prop :=
  ∀ t ∈ ts, k.freed t = false ∧ SignalSafe k t

theorem AllSafe.send {ts : List TaskId} {t : TaskId} {info : Siginfo}
    (h : AllSafe k ts) (hs : k.sendSigInfo t info = .ok k') : AllSafe k' ts := by
  intro t' ht'
  obtain ⟨hstack, hsafe⟩ := h t' ht'
  have heq := sendSigInfo_frame hs
  have hptr := sendSigInfo_unsent TaskStruct.sigactions (fun _ _ _ _ => rfl) hs t'
  refine ⟨by rw [heq]; exact hstack, ⟨?_, ?_⟩⟩
  · rw [hptr, heq]
    exact hsafe.sigactions
  · exact fun hc => hsafe.siginfos ((sendSigInfo_mem hs t').mp hc)

/-- Sending to safe tasks, one after the other. -/
theorem sendSigInfoAll_live {ts : List TaskId} {info : Siginfo} (h : AllSafe k ts) :
    k.sendSigInfoAll info ts ≠ .error .useAfterFree := by
  induction ts generalizing k with
  | nil =>
      intro hs
      cases hs
  | cons t ts ih =>
      intro hs
      simp only [Kernel.sendSigInfoAll] at hs
      split at hs
      next e hsend =>
        cases hs
        obtain ⟨hstack, hsafe⟩ := h t (List.mem_cons_self ..)
        exact sendSigInfo_live hstack hsafe hsend
      next k₁ hsend =>
        exact ih (fun t' ht' => h.send hsend t' (List.mem_cons_of_mem _ ht')) hs

/-- What a sender can ask for: single tasks found by their pid, and process groups. -/
theorem senders_live (h : AllSafe k k.tasks) :
    (∀ pid signum, k.kill pid signum ≠ .error .useAfterFree) ∧
      (∀ tgid tid signum, k.tgkill tgid tid signum ≠ .error .useAfterFree) ∧
      ∀ pgid info, k.sendSigInfoPg pgid info ≠ .error .useAfterFree := by
  have hone : ∀ {pid t info}, k.getTaskFromPid pid = some t →
      k.sendSigInfo t info ≠ .error .useAfterFree := by
    intro pid t info hget
    obtain ⟨hstack, hsafe⟩ := h t (getTaskFromPid_mem hget).1
    exact sendSigInfo_live hstack hsafe
  have hall : ∀ {p : TaskId → Bool} {info},
      k.sendSigInfoAll info (k.tasks.filter p) ≠ .error .useAfterFree := fun {p info} =>
    sendSigInfoAll_live fun t ht => h t (List.mem_filter.mp ht).1
  refine ⟨fun pid signum hs => ?_, fun tgid tid signum hs => ?_, fun pgid info hs => ?_⟩
  · unfold Kernel.kill at hs
    simp only at hs
    split at hs
    next => cases hs
    next =>
      split at hs
      next =>
        split at hs
        next => cases hs
        next => exact hall hs
      next =>
        split at hs
        next => cases hs
        next t hget =>
          split at hs
          next => cases hs
          next => exact hone hget hs
  · unfold Kernel.tgkill at hs
    simp only at hs
    split at hs
    next => cases hs
    next =>
      split at hs
      next => cases hs
      next =>
        split at hs
        next => cases hs
        next t hget =>
          split at hs
          next => cases hs
          next => exact hone hget hs
  · unfold Kernel.sendSigInfoPg at hs
    split at hs
    next => cases hs
    next leader hget =>
      split at hs
      next => exact hone hget hs
      next => exact hall hs

/-- **Signalling a listed task.**  In every run in which no step gives up the last
reference to a block of signal actions and no exiting task owns an array of records,
everything a sender dereferences for a listed task is live.  In any run the blocks of a
listed task are live exactly while a holder is left and its `do_exit` has not freed the
array. -/
theorem listedTasks_signalSafe (k : Kernel) :
    (machine.Reach Init KeepsBlocks k →
      (∀ t ∈ k.tasks, SignalSafe k t) ∧
      (∀ pid signum, k.kill pid signum ≠ .error .useAfterFree) ∧
      (∀ tgid tid signum, k.tgkill tgid tid signum ≠ .error .useAfterFree) ∧
      ∀ pgid info, k.sendSigInfoPg pgid info ≠ .error .useAfterFree) ∧
    (machine.Reach Init (fun _ _ => True) k →
      ∀ t ∈ k.tasks, k.freed t = false ∧
        (SignalSafe k t ↔
          (∃ u, HoldsSigactions k u ∧ (k.task u).sigactions = (k.task t).sigactions) ∧
            Event.infosFreed t ∉ k.log)) := by
  refine ⟨fun h => ?_, fun h t ht => ?_⟩
  · have hinv : SignalInv k := .reach h
    have hnone := NothingFreed.reach h
    have hsafe : ∀ t ∈ k.tasks, SignalSafe k t := fun t _ =>
      ⟨hnone.sigactions _, hnone.siginfos t⟩
    exact ⟨hsafe, senders_live fun t ht => ⟨(hinv.listed.listed t ht).1, hsafe t ht⟩⟩
  · have hinv : SignalInv k := .reach h
    exact ⟨(hinv.listed.listed t ht).1, hinv.signalSafe_iff t⟩

end Safety

/-- A child exits and its parent, which has not waited for it yet, sends it a signal. -/
def killRun : List Label :=
  [.go false, .go false, .call (.execve .linux), .go false, .go false, .go false,
    .call (.clone 0), .go false, .irqPit, .go false, .go false, .go false, .go false,
    .call (.exit 0), .go false, .go false, .go false, .go false, .go false, .go false]

/-- A zombie is listed, and `kill` reads the signal actions it has given up. -/
theorem listedTask_unsafe :
    ∃ k t, machine.Reach Init (fun _ _ => True) k ∧ t ∈ k.tasks ∧
      (k.task t).state = .zombie ∧ (k.task t).pid = 2 ∧
      (k.sigactions (k.task t).sigactions).freed = true ∧
      machine.Faults k (.call (.kill 2 SIGHUP)) .useAfterFree := by
  have hrun : (machine.runLabels killRun boot).any (fun k =>
      2 ∈ k.tasks ∧ (k.task 2).state = .zombie ∧ (k.task 2).pid = 2 ∧
        (k.sigactions (k.task 2).sigactions).freed = true ∧
        machine.faultsWith (.call (.kill 2 SIGHUP)) .useAfterFree k = true) = true := by
    decide +kernel
  obtain ⟨k, hreach, hk⟩ := Machine.exists_reach_of_run (show Init boot from rfl) hrun
  simp only [decide_eq_true_eq] at hk
  obtain ⟨hmem, hstate, hpid, hfreed, hfault⟩ := hk
  exact ⟨k, 2, hreach, hmem, hstate, hpid, hfreed, Machine.faults_of_faultsWith hfault⟩

end Task
end JkxyKernel
