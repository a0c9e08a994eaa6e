import JkxyKernel.Files.Executing

/-!
# Every file is counted

Whatever the tasks call, one after the other, no object that is referred to has been freed, and
each is counted at least as often as it is referred to.  In a run of careful calls, those that
forget no file and that the kernel gets through, each file is counted exactly as often, and it is
freed with its last reference.
-/

namespace JkxyKernel
namespace Files

open RefCount
open Objects (Holding)

namespace Kernel

/-- Does the call forget no file, and does the kernel get through it?  There is memory, no open
fails whose result is not checked, no ece391fs goes, and the file of a read is still there. -/
def careful (k : Kernel) (task : TaskFiles) : Call → Bool
  | .openat _ _ _ _ fails | .socket _ _ fails | .clone _ fails =>
      decide (fails = [] ∧ k.Roomy task)
  | .dupfd _ arg _ fails => decide ((fails = [] ∧ arg < 2 ^ 29) ∧ k.Roomy task)
  | .dup2 oldfd newfd memory =>
      decide (memory = true ∧ newfd < 2 ^ 29 ∧ (oldfd = newfd →
        ∀ o ∈ (k.fileAt task oldfd).bind FilePtr.obj, 2 ≤ k.objects.rc o))
  | .execve exec => decide (exec.Starts task)
  | .poll _ timer => timer
  | .mount opening op _ mounting =>
      decide (opening.failed = false ∧ (mounting = .abandoned → op ≠ .ece391fs))
  | .umount m => decide (∀ mount ∈ k.objects.mounts m, mount.op ≠ .ece391fs)
  | .readEnd => decide (∀ f ∈ task.reading, (k.objects.files f).isSome)
  | .faccessat .. | .stat .. | .close _ | .chdir .. | .pollEnd | .read _ | .exit | .attach ..
  | .detach _ => true

/-- The same for a step. -/
def stepCareful (k : Kernel) (l : TaskId × Call) : Bool :=
  (k.tasks l.1).all fun task => k.careful task l.2

section Counting

variable {T : Prop} {k : Kernel} {t : TaskId} {task : TaskFiles} {call : Call}

/-- A call lands, whatever it is. -/
theorem call_lands (h : Books T k []) (ht : k.tasks t = some task)
    (hmay : k.mayCall task call = true) (hcareful : T → k.careful task call = true) :
    Lands T (k.call t task call) := by
  cases call with
  | openat start answer opening cloexec fails =>
      simp only [mayCall, Bool.and_eq_true] at hmay
      exact openat_lands h ht hmay.2.1 hmay.2.2 fun hT => of_decide_eq_true (hcareful hT)
  | socket opening cloexec fails =>
      simp only [mayCall, Bool.and_eq_true] at hmay
      exact socket_lands h ht hmay.2 fun hT => of_decide_eq_true (hcareful hT)
  | faccessat start answer opening =>
      simp only [mayCall, Bool.and_eq_true] at hmay
      exact faccessat_lands h ht hmay.2.1 hmay.2.2
  | stat absolute answer =>
      simp only [mayCall, Bool.and_eq_true] at hmay
      exact stat_lands h ht hmay.2.2
  | close fd =>
      simp only [mayCall, Bool.and_eq_true] at hmay
      exact close_lands h ht hmay.2
  | dup2 oldfd newfd memory =>
      simp only [mayCall, Bool.and_eq_true] at hmay
      exact dup2_lands h ht hmay.2 fun hT => of_decide_eq_true (hcareful hT)
  | dupfd fd arg cloexec fails =>
      simp only [mayCall, Bool.and_eq_true] at hmay
      exact dupfd_lands h ht hmay.2 fun hT => of_decide_eq_true (hcareful hT)
  | chdir absolute answer opening =>
      simp only [mayCall, Bool.and_eq_true] at hmay
      exact chdir_lands h ht hmay.2.1 hmay.2.2
  | clone shares fails => exact clone_lands h ht fun hT => of_decide_eq_true (hcareful hT)
  | execve exec =>
      simp only [mayCall, Bool.and_eq_true] at hmay
      exact execve_lands h ht hmay.2.1 hmay.2.2 fun hT => of_decide_eq_true (hcareful hT)
  | poll fds timer =>
      simp only [mayCall, Bool.and_eq_true, Option.isNone_iff_eq_none] at hmay
      exact poll_lands h ht hmay.2 hmay.1.1 hcareful
  | pollEnd => exact pollEnd_lands h ht
  | read fd =>
      simp only [mayCall, Bool.and_eq_true] at hmay
      exact read_lands h ht hmay.2
  | readEnd => exact readEnd_lands h ht (fun hT => of_decide_eq_true (hcareful hT)) hmay
  | exit =>
      simp only [mayCall, Bool.and_eq_true, Option.isNone_iff_eq_none] at hmay
      exact exit_lands h ht hmay.1.1
  | mount opening op mnt mounting =>
      simp only [mayCall, Bool.and_eq_true] at hmay
      exact mount_lands h hmay.2 fun hT => of_decide_eq_true (hcareful hT)
  | umount m =>
      simp only [mayCall, Bool.and_eq_true] at hmay
      exact umount_lands h hmay.2 fun hT => of_decide_eq_true (hcareful hT)
  | attach i x =>
      simp only [mayCall, Bool.and_eq_true, Option.isNone_iff_eq_none] at hmay
      exact attach_lands h hmay.2
  | detach i => exact detach_lands h

theorem boot_sound : Objects.boot.Sound := by
  refine ⟨fun o n hn => ?_, fun o _ => ?_, fun f file hf => ?_, fun m mount hm => ?_⟩
  · cases o <;> cases hn
  · cases o <;> rfl
  · cases hf
  · cases hm

/-- There is nothing at first but one task, which has nothing. -/
theorem Boot.task_eq (h : Boot k) (ht : k.tasks t = some task) :
    task = ⟨none, none, none, none, none⟩ := by
  subst h
  simp only [boot, Function.update_apply] at ht
  split at ht
  next => exact (Option.some.inj ht).symm
  next => cases ht

theorem Boot.slots (h : Boot k) (slot : Slot) : k.slots slot = none := by
  cases slot with
  | cwd t | exe t | poll t i =>
      cases ht : k.tasks t with
      | none => rw [Kernel.slots, ht, Option.bind_none]
      | some task =>
          rw [Kernel.slots, ht, Option.bind_some, h.task_eq ht]
          rfl
  | fd tid fd =>
      subst h
      rfl
  | console i =>
      subst h
      rfl

theorem Boot.tabled (h : Boot k) : k.Tabled := by
  refine ⟨(Counted.nothing fun t => ?_).congr fun tid => ?_, fun tid table htable => ?_,
    fun tid table htable => ?_, fun tid _ => ?_, fun t hle => ?_⟩
  · cases ht : k.tasks t with
    | none => rfl
    | some task => rw [Option.bind_some, h.task_eq ht]
  · subst h
    rfl
  · subst h
    cases htable
  · subst h
    cases htable
  · subst h
    rfl
  · subst h
    have hne : t ≠ 0 := Nat.ne_of_gt hle
    simp only [boot, Function.update_of_ne hne]

theorem Boot.wired (h : Boot k) : k.Wired := by
  refine ⟨fun t task ht => ?_, fun t task ht hsome => ?_, fun tid table fd htable => ?_⟩
  · rw [h.task_eq ht]
    simp
  · rw [h.task_eq ht] at hsome
    cases hsome
  · subst h
    cases htable

theorem Boot.books (h : Boot k) : Books T k [] := by
  have hobjects : k.objects = .boot := by rw [h, boot]
  refine ⟨hobjects ▸ boot_sound, fun _ m mount hm => ?_, ⟨[], ?_, fun _ _ => List.not_mem_nil⟩,
    h.tabled, fun _ => h.wired⟩
  · rw [hobjects] at hm
    cases hm
  · refine (Counted.nothing ?_).congr fun o => ?_
    · rintro (r | slot)
      · rw [Sum.elim_inl, hobjects]
        cases r <;> rfl
      · exact h.slots slot
    · rw [hobjects]
      cases o <;> rfl

/-- A step lands. -/
theorem step_lands {l : TaskId × Call} (h : Books T k [])
    (hcareful : T → k.stepCareful l = true) (hmay : machine.enabled l k = true) :
    Lands T (machine.exec l k) := by
  cases ht : k.tasks l.1 with
  | none =>
      simp only [machine, ht, Option.any_none, Bool.false_eq_true] at hmay
  | some task =>
      simp only [machine, ht, Option.any_some] at hmay ⊢
      refine call_lands h ht hmay fun hT => ?_
      have hstep := hcareful hT
      rw [stepCareful, ht] at hstep
      exact hstep

/-- The books are right in every run, or in every careful one. -/
theorem reach_books (h : machine.Reach Boot (fun k l => T → k.stepCareful l = true) k) :
    Books T k [] :=
  Machine.Reach.invariant (fun _ hboot => hboot.books)
    (fun _ _ _ hbooks hcareful hstep => (step_lands hbooks hcareful hstep.1).of_ok hstep.2) h

/-- A device is mounted and the first program starts; its terminal gets another descriptor, and the
table is shared with a second task, which closes one of them and opens a file. -/
def firstSteps : List (TaskId × Call) :=
  [(0, .mount .plain .ustar none .mounted),
    (0, .execve ⟨true, .found 3 1, .plain, true, .found 3 0, .plain, true, .tty 0, .fails, []⟩),
    (0, .dup2 0 5 true), (0, .clone true []), (1, .close 1),
    (1, .openat .cwd (.found 3 2) .plain true []), (0, .exit)]

/-- **Descriptor tables.**  In every run a table is counted once for each task that has it, and is
there as long as there is one. -/
theorem reach_tables_counted (h : machine.Reach Boot (fun _ _ => True) k) (tid : TableId) :
    {t | ∃ task, k.tasks t = some task ∧ task.files = some tid}.Finite ∧
      (∀ table, k.tables tid = some table → table.refcount =
        ({t | ∃ task, k.tasks t = some task ∧ task.files = some tid}.ncard : Int)) ∧
      ((k.tables tid).isSome ↔ ∃ t task, k.tasks t = some task ∧ task.files = some tid) := by
  have hbooks : Books False k [] := reach_books (h.mono fun _ _ _ hT => hT.elim)
  have htabled := hbooks.tabled
  have hset : {t | ∃ task, k.tasks t = some task ∧ task.files = some tid} =
      holders (fun t => (k.tasks t).bind TaskFiles.files) tid := by
    ext t
    rw [mem_holders, Option.bind_eq_some_iff]
    rfl
  rw [hset]
  refine ⟨htabled.counted.finite tid, fun table htable => ?_, fun hsome => ?_, ?_⟩
  · have hcount := htabled.counted.count tid
    rw [htable] at hcount
    exact hcount
  · obtain ⟨table, htable⟩ := Option.isSome_iff_exists.mp hsome
    have hpos := htabled.positive tid table htable
    have hcount : 0 < ((k.tables tid).map Table.refcount).getD 0 := by
      rw [htable]
      exact hpos
    obtain ⟨t, ht⟩ := htabled.counted.pos_iff.mp hcount
    exact ⟨t, Option.bind_eq_some_iff.mp ht⟩
  · rintro ⟨t, task, ht, hfiles⟩
    obtain ⟨table, htable, -⟩ := Books.tableOf htabled ht hfiles
    rw [htable]
    rfl

theorem firstSteps_tables_counted : ∃ k : Kernel,
    {t | ∃ task, k.tasks t = some task ∧ task.files = some 0}.ncard = 2 := by
  have hrun : (machine.runLabels (firstSteps.take 5) boot).any
      (fun k => decide ((k.tables 0).map Table.refcount = some 2)) = true := by decide
  obtain ⟨k, hreach, hk⟩ := Machine.exists_reach_of_run (show Boot boot from rfl) hrun
  obtain ⟨table, htable, hcount⟩ := Option.map_eq_some_iff.mp (of_decide_eq_true hk)
  have hncard := (reach_tables_counted hreach 0).2.1 table htable
  refine ⟨k, ?_⟩
  omega

end Counting
end Kernel
end Files
end JkxyKernel
