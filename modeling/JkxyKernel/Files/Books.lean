import JkxyKernel.Files.Tables

/-!
# The books of the kernel

`Books T k hand` says that the counts of `k` are right, with the references of `hand` in hand, but
for what has been forgotten, which is no file if `T` holds.  The tables are counted by the tasks
that share them.

A call is followed from one state of the books to the next: something is done to the objects, or a
slot refers to something else, which was in hand.
-/

namespace JkxyKernel
namespace Files

open RefCount
open Objects (Does Holding Keeps Settles)

namespace Kernel

/-- Every table is counted once for each task that has it. -/
structure Tabled (k : Kernel) : Prop where
  counted : Counted (fun t => (k.tasks t).bind TaskFiles.files)
    fun tid => ((k.tables tid).map Table.refcount).getD 0
  positive : ∀ tid table, k.tables tid = some table → 0 < table.refcount
  unfreed : ∀ tid table, k.tables tid = some table →
    table.files.mem ≠ .freed ∧ table.cloexec.mem ≠ .freed
  freshTable : ∀ tid, k.nextTable ≤ tid → k.tables tid = none
  freshTask : ∀ t, k.nextTask ≤ t → k.tasks t = none

/-- No failed open has been stored, and who has a table has a working directory. -/
structure Wired (k : Kernel) : Prop where
  cwd : ∀ t task, k.tasks t = some task → task.cwd ≠ some .err
  files : ∀ t task, k.tasks t = some task → task.files.isSome → task.cwd.isSome
  tables : ∀ tid table fd, k.tables tid = some table → table.files.lookup fd ≠ some .err

theorem Tabled.withObjects {k : Kernel} (h : k.Tabled) (objects : Objects) :
    Tabled { k with objects := objects } :=
  ⟨h.counted, h.positive, h.unfreed, h.freshTable, h.freshTask⟩

theorem Wired.withObjects {k : Kernel} (h : k.Wired) (objects : Objects) :
    Wired { k with objects := objects } :=
  ⟨h.cwd, h.files, h.tables⟩

/-- The counts are right, with this in hand. -/
structure Books (T : Prop) (k : Kernel) (hand : List Obj) : Prop where
  sound : k.objects.Sound
  tidy : T → k.objects.Tidy
  holding : ∃ leaks, Holding k.objects k.slots (leaks ++ hand) ∧ (T → ∀ f, .file f ∉ leaks)
  tabled : k.Tabled
  wired : T → k.Wired

/-- A call ends with the books right, and with nothing in hand. -/
abbrev Lands (T : Prop) (result : Except Stop Kernel) : Prop :=
  Ends T (fun k => Books T k []) result

section Rules

variable {α : Type} {T : Prop} {k k' : Kernel} {hand r : List Obj} {o : Obj} {tid : TableId}
  {table : Table} {t : TaskId} {task : TaskFiles}

namespace Books

theorem perm (h : Books T k hand) (hperm : hand.Perm r) : Books T k r := by
  obtain ⟨leaks, hholding, hnone⟩ := h.holding
  exact ⟨h.sound, h.tidy, ⟨leaks, hholding.perm (hperm.append_left leaks), hnone⟩, h.tabled,
    h.wired⟩

/-- What is in hand is forgotten. -/
theorem forget (h : Books T k (r ++ hand)) (hnone : T → ∀ f, .file f ∉ r) : Books T k hand := by
  obtain ⟨leaks, hholding, hleaks⟩ := h.holding
  refine ⟨h.sound, h.tidy, ⟨leaks ++ r, ?_, fun hT f hmem => ?_⟩, h.tabled, h.wired⟩
  · rw [List.append_assoc]
    exact hholding
  · exact (List.mem_append.mp hmem).elim (hleaks hT f) (hnone hT f)

theorem live_of_mem (h : Books T k hand) (hmem : o ∈ hand) :
    ∃ n, k.objects.count o = some n := by
  obtain ⟨leaks, hholding, -⟩ := h.holding
  exact hholding.live_of_mem (List.mem_append_right leaks hmem)

theorem live_of_slot (h : Books T k hand) {slot : Slot} (hslot : k.slots slot = some o) :
    ∃ n, k.objects.count o = some n := by
  obtain ⟨leaks, hholding, -⟩ := h.holding
  exact hholding.live_of_ext hslot

/-- The table of a task is there. -/
theorem tableOf (h : k.Tabled) (ht : k.tasks t = some task) (hfiles : task.files = some tid) :
    ∃ table, k.tables tid = some table ∧ k.tableOf task = .ok (tid, table) := by
  have hslot : (fun t => (k.tasks t).bind TaskFiles.files) t = some tid := by
    simp only [ht, Option.bind_some, hfiles]
  have hpos := Counted.pos h.counted hslot
  cases htable : k.tables tid with
  | none =>
      rw [htable] at hpos
      exact absurd hpos (Int.lt_irrefl 0)
  | some table => exact ⟨table, rfl, by simp only [Kernel.tableOf, hfiles, htable]⟩

/-- Something is done to the objects. -/
theorem does {x : Except Stop α} {state : α → Objects} {post : α → List Obj}
    (h : Books T k (r ++ hand))
    (hdoes : ∀ l, Holding k.objects k.slots (r ++ l) → Does T k.objects k.slots l state post x) :
    Ends T (fun a => Keeps k.objects (state a) ∧
      Books T { k with objects := state a } (post a ++ hand)) x := by
  obtain ⟨leaks, hholding, hnone⟩ := h.holding
  obtain ⟨a, rfl, hturns⟩ := hdoes _ (hholding.perm (List.perm_append_comm_assoc leaks r hand))
  obtain ⟨leaks', hholding', hnone'⟩ := hturns.holding
  refine ⟨hturns.keeps, hturns.sound, fun hT => (h.tidy hT).keep hturns.keeps,
    ⟨leaks' ++ leaks, hholding'.perm ?_, fun hT f hmem => ?_⟩, h.tabled.withObjects _,
    fun hT => (h.wired hT).withObjects _⟩
  · rw [List.append_assoc]
    exact (List.perm_append_comm_assoc (post a) leaks hand).append_left leaks'
  · exact (List.mem_append.mp hmem).elim (hnone' hT f) (hnone hT f)

theorem settles {x : Except Stop Objects} (h : Books T k (r ++ hand))
    (hsettles : ∀ l, Holding k.objects k.slots (r ++ l) → Settles T k.slots l x) :
    Ends T (fun objects => Books T { k with objects := objects } hand) x := by
  obtain ⟨leaks, hholding, hnone⟩ := h.holding
  obtain ⟨s', rfl, hsound, htidy, leaks', hholding', hnone'⟩ :=
    hsettles _ (hholding.perm (List.perm_append_comm_assoc leaks r hand))
  refine ⟨hsound, htidy, ⟨leaks' ++ leaks, ?_, fun hT f hmem => ?_⟩,
    h.tabled.withObjects _, fun hT => (h.wired hT).withObjects _⟩
  · rw [List.append_assoc]
    exact hholding'
  · exact (List.mem_append.mp hmem).elim (hnone' hT f) (hnone hT f)

/-- Slots refer to something else, which was in hand. -/
theorem relink {ks : List Slot} (hobjects : k'.objects = k.objects) (hnodup : ks.Nodup)
    (hsame : ∀ slot, slot ∉ ks → k'.slots slot = k.slots slot) (htabled : k'.Tabled)
    (hwired : T → k'.Wired) (h : Books T k (ks.filterMap k'.slots ++ hand)) :
    Books T k' (ks.filterMap k.slots ++ hand) := by
  obtain ⟨leaks, hholding, hnone⟩ := h.holding
  refine ⟨hobjects ▸ h.sound, fun hT => hobjects ▸ h.tidy hT, ⟨leaks, ?_, hnone⟩, htabled, hwired⟩
  rw [hobjects]
  refine Holding.perm ?_ (List.perm_append_comm_assoc (ks.filterMap k.slots) leaks hand)
  exact (hholding.perm (List.perm_append_comm_assoc leaks _ hand)).exchange hnodup hsame

end Books

/-- Something is done to the objects, and this is in hand then. -/
abbrev Turned (T : Prop) (k : Kernel) (hand : List Obj) (result : Except Stop Objects) : Prop :=
  Ends T (fun objects => Keeps k.objects objects ∧ Books T { k with objects := objects } hand) result

theorem Books.turned {x : Except Stop Objects} {post : List Obj} (h : Books T k (r ++ hand))
    (hdoes : ∀ l, Holding k.objects k.slots (r ++ l) →
      Does T k.objects k.slots l (fun s => s) (fun _ => post) x) :
    Turned T k (post ++ hand) x := h.does hdoes

/-- What is counted is there. -/
theorem Books.getLive {ptr : FilePtr} (h : Books T k hand)
    (hlive : T → ∃ f n, ptr = .file f ∧ k.objects.count (.file f) = some n) :
    Turned T k (ptr.obj.toList ++ hand) (getPtr k.objects ptr) := by
  cases ptr with
  | err =>
      intro hT
      obtain ⟨f, n, hptr, -⟩ := hlive hT
      cases hptr
  | file f =>
      cases hcount : k.objects.count (.file f) with
      | none =>
          have herror : getPtr k.objects (.file f) = .error (.fault .useAfterFree) := by
            change k.objects.get (.file f) = _
            rw [Objects.get, hcount]
          rw [herror]
          intro hT
          obtain ⟨f', n, hptr, hn⟩ := hlive hT
          cases hptr
          rw [hcount] at hn
          cases hn
      | some n => exact Books.turned (r := []) h fun _ hl => Objects.get_does h.sound hl hcount

/-- What is counted is referred to by a slot. -/
theorem Books.getPtr {ptr : FilePtr} {slot : Slot} (h : Books T k hand)
    (hslot : k.slots slot = ptr.obj) (herr : T → ptr ≠ .err) :
    Turned T k (ptr.obj.toList ++ hand) (getPtr k.objects ptr) := by
  refine h.getLive fun hT => ?_
  cases ptr with
  | err => exact absurd rfl (herr hT)
  | file f =>
      obtain ⟨n, hn⟩ := h.live_of_slot hslot
      exact ⟨f, n, rfl, hn⟩

theorem Books.getOpt {ptr : Option FilePtr} {slot : Slot} (h : Books T k hand)
    (hslot : k.slots slot = ptr.bind FilePtr.obj) (herr : T → ptr ≠ some .err) :
    Turned T k ((ptr.bind FilePtr.obj).toList ++ hand) (getOpt k.objects ptr) := by
  cases ptr with
  | none => exact ⟨.refl _, h⟩
  | some ptr => exact h.getPtr hslot fun hT heq => herr hT (congrArg some heq)

/-- What is closed is in hand. -/
theorem Books.closePtr {ptr : FilePtr} (h : Books T k (ptr.obj.toList ++ hand))
    (herr : T → ptr ≠ .err) : Turned T k hand (closePtr k.objects ptr) := by
  cases ptr with
  | err => exact fun hT => absurd rfl (herr hT)
  | file f =>
      exact Books.turned (r := [.file f]) h fun _ hl => Objects.put_does h.sound h.tidy hl

theorem Books.closeOpt {ptr : Option FilePtr} (h : Books T k ((ptr.bind FilePtr.obj).toList ++ hand))
    (herr : T → ptr ≠ some .err) : Turned T k hand (closeOpt k.objects ptr) := by
  cases ptr with
  | none => exact ⟨.refl _, h⟩
  | some ptr => exact h.closePtr fun hT heq => herr hT (congrArg some heq)

theorem exe_hand (exe : Option FileId) :
    (exe.map FilePtr.file).bind FilePtr.obj = exe.map Obj.file := by
  cases exe <;> rfl

theorem exe_ne_err (exe : Option FileId) : exe.map FilePtr.file ≠ some .err := by
  cases exe <;> simp

/-! ### Tables and tasks that change -/

section Changes

variable {table' : Table} {task' : TaskFiles}

theorem setTable_tabled (h : k.Tabled) (htable : k.tables tid = some table)
    (hcount : table'.refcount = table.refcount)
    (hmem : table'.files.mem ≠ .freed ∧ table'.cloexec.mem ≠ .freed) :
    (k.setTable tid table').Tabled := by
  refine ⟨h.counted.congr fun tid' => ?_, fun tid' table'' h'' => ?_, fun tid' table'' h'' => ?_,
    fun tid' hle => ?_, h.freshTask⟩
  · simp only [setTable, Function.update_apply]
    split
    next heq => rw [heq, htable, Option.map_some, Option.map_some, hcount]
    next => rfl
  · simp only [setTable, Function.update_apply] at h''
    split at h''
    next =>
      cases h''
      rw [hcount]
      exact h.positive tid table htable
    next => exact h.positive tid' table'' h''
  · simp only [setTable, Function.update_apply] at h''
    split at h''
    next =>
      cases h''
      exact hmem
    next => exact h.unfreed tid' table'' h''
  · have hne : tid' ≠ tid := by
      rintro rfl
      rw [h.freshTable _ hle] at htable
      cases htable
    simp only [setTable, Function.update_of_ne hne]
    exact h.freshTable tid' hle

theorem setTable_wired (h : k.Wired) (hfiles : ∀ fd, table'.files.lookup fd ≠ some .err) :
    (k.setTable tid table').Wired := by
  refine ⟨h.cwd, h.files, fun tid' table'' fd h'' => ?_⟩
  simp only [setTable, Function.update_apply] at h''
  split at h''
  next =>
    cases h''
    exact hfiles fd
  next => exact h.tables tid' table'' fd h''

theorem setTask_tabled (h : k.Tabled) (ht : k.tasks t = some task)
    (hfiles : task'.files = task.files) : (k.setTask t task').Tabled := by
  refine ⟨?_, h.positive, h.unfreed, h.freshTable, fun t' hle => ?_⟩
  · have hsame : (fun t' => ((k.setTask t task').tasks t').bind TaskFiles.files) =
        fun t' => (k.tasks t').bind TaskFiles.files := by
      funext t'
      simp only [setTask, Function.update_apply]
      split
      next heq => rw [heq, ht, Option.bind_some, Option.bind_some, hfiles]
      next => rfl
    rw [hsame]
    exact h.counted
  · have hne : t' ≠ t := by
      rintro rfl
      rw [h.freshTask _ hle] at ht
      cases ht
    simp only [setTask, Function.update_of_ne hne]
    exact h.freshTask t' hle

theorem setTask_wired (h : k.Wired) (hcwd : task'.cwd ≠ some .err)
    (hfiles : task'.files.isSome → task'.cwd.isSome) : (k.setTask t task').Wired := by
  refine ⟨fun t' task'' h'' => ?_, fun t' task'' h'' => ?_, h.tables⟩
  · simp only [setTask, Function.update_apply] at h''
    split at h''
    next =>
      cases h''
      exact hcwd
    next => exact h.cwd t' task'' h''
  · simp only [setTask, Function.update_apply] at h''
    split at h''
    next =>
      cases h''
      exact hfiles
    next => exact h.files t' task'' h''

theorem filterMap_singleton {slot : Slot} : [slot].filterMap k.slots = (k.slots slot).toList := by
  cases hslot : k.slots slot <;> simp [hslot]

theorem setTable_setTable {table'' : Table} :
    (k.setTable tid table').setTable tid table'' = k.setTable tid table'' := by
  simp only [setTable, Function.update_idem]

/-- Another entry of a table: what was there is in hand. -/
theorem Books.setEntry {files : Structure.Array FilePtr} {flags : Structure.Array Unit} {fd : Nat}
    {v : Option FilePtr} (htable : k.tables tid = some table)
    (hstored : Stored T table.files files fd v) (hflags : flags.mem ≠ .freed)
    (hv : T → v ≠ some .err) (h : Books T k ((v.bind FilePtr.obj).toList ++ hand)) :
    Books T (k.setTable tid { table with files := files, cloexec := flags })
      (((table.files.lookup fd).bind FilePtr.obj).toList ++ hand) := by
  have hold : k.slots (.fd tid fd) = (table.files.lookup fd).bind FilePtr.obj := by
    rw [slots, htable, Option.bind_some]
  have hnew : (k.setTable tid { table with files := files, cloexec := flags }).slots (.fd tid fd) =
      (files.lookup fd).bind FilePtr.obj := by
    simp only [slots, setTable, Function.update_self, Option.bind_some]
  have hlist : ((table.files.lookup fd).bind FilePtr.obj).toList =
      [Slot.fd tid fd].filterMap k.slots := by
    rw [filterMap_singleton, hold]
  rw [hlist]
  refine Books.relink rfl (List.nodup_singleton _) (fun slot hslot => ?_)
    (setTable_tabled h.tabled htable rfl ⟨hstored.unfreed, hflags⟩)
    (fun hT => setTable_wired (h.wired hT) fun fd' => ?_) ?_
  · cases slot with
    | fd tid' fd' =>
        simp only [slots, setTable, Function.update_apply]
        split
        next heq =>
          subst heq
          have hne : fd' ≠ fd := fun heq => hslot (by rw [heq]; exact List.mem_singleton_self _)
          rw [htable, Option.bind_some, Option.bind_some, hstored.others fd' hne]
        next => rfl
    | cwd | exe | poll | console => rfl
  · by_cases heq : fd' = fd
    · rcases hstored.entry with hentry | ⟨hlost, -⟩
      · rw [heq, hentry]
        exact hv hT
      · exact absurd hT hlost
    · rw [hstored.others fd' heq]
      exact (h.wired hT).tables tid table fd' htable
  · rw [filterMap_singleton, hnew]
    rcases hstored.entry with hentry | ⟨hlost, hnone⟩
    · rw [hentry]
      exact h
    · rw [hnone]
      exact h.forget fun hT => absurd hT hlost

/-- An entry at a free descriptor. -/
theorem Books.setFree {files : Structure.Array FilePtr} {flags : Structure.Array Unit} {fd : Nat}
    {ptr : FilePtr} (htable : k.tables tid = some table) (hfree : table.files.lookup fd = none)
    (hstored : Stored T table.files files fd (some ptr)) (hflags : flags.mem ≠ .freed)
    (herr : T → ptr ≠ .err) (h : Books T k (ptr.obj.toList ++ hand)) :
    Books T (k.setTable tid { table with files := files, cloexec := flags }) hand := by
  have hdone := Books.setEntry (v := some ptr) htable hstored hflags
    (fun hT heq => herr hT (Option.some.inj heq)) h
  rw [hfree] at hdone
  exact hdone

/-- A table with the same entries. -/
theorem Books.setSame (htable : k.tables tid = some table)
    (hcount : table'.refcount = table.refcount)
    (hmem : table'.files.mem ≠ .freed ∧ table'.cloexec.mem ≠ .freed)
    (hsame : ∀ fd, table'.files.lookup fd = table.files.lookup fd) (h : Books T k hand) :
    Books T (k.setTable tid table') hand := by
  have hslots : ∀ slot, (k.setTable tid table').slots slot = k.slots slot := by
    intro slot
    cases slot with
    | fd tid' fd =>
        simp only [slots, Kernel.setTable, Function.update_apply]
        split
        next heq => rw [heq, htable, Option.bind_some, Option.bind_some, hsame fd]
        next => rfl
    | cwd | exe | poll | console => rfl
  have hdone : Books T (k.setTable tid table') (([] : List Slot).filterMap k.slots ++ hand) := by
    refine Books.relink (k := k) rfl List.nodup_nil (fun slot _ => hslots slot)
      (setTable_tabled h.tabled htable hcount hmem) (fun hT => setTable_wired (h.wired hT) ?_) h
    intro fd
    rw [hsame fd]
    exact (h.wired hT).tables tid table fd htable
  exact hdone

/-- Another value in one slot of a task. -/
theorem Books.setTask {slot : Slot} (ht : k.tasks t = some task)
    (hfiles : task'.files = task.files)
    (hcwd : T → task'.cwd ≠ some .err ∧ (task'.files.isSome → task'.cwd.isSome))
    (hsame : ∀ slot', slot' ≠ slot → (k.setTask t task').slots slot' = k.slots slot')
    (h : Books T k (((k.setTask t task').slots slot).toList ++ hand)) :
    Books T (k.setTask t task') ((k.slots slot).toList ++ hand) := by
  rw [← filterMap_singleton]
  refine Books.relink rfl (List.nodup_singleton _) (fun slot' hslot => ?_)
    (setTask_tabled h.tabled ht hfiles)
    (fun hT => setTask_wired (h.wired hT) (hcwd hT).1 (hcwd hT).2)
    (by rw [filterMap_singleton]; exact h)
  exact hsame slot' fun heq => hslot (by rw [heq]; exact List.mem_singleton_self _)

/-- Another working directory. -/
theorem Books.setCwd {cwd : Option FilePtr} (ht : k.tasks t = some task)
    (hcwd : T → cwd ≠ some .err ∧ (task.files.isSome → cwd.isSome))
    (h : Books T k ((cwd.bind FilePtr.obj).toList ++ hand)) :
    Books T (k.setTask t { task with cwd := cwd })
      ((task.cwd.bind FilePtr.obj).toList ++ hand) := by
  have hold : k.slots (.cwd t) = task.cwd.bind FilePtr.obj := by rw [slots, ht, Option.bind_some]
  have hnew : (k.setTask t { task with cwd := cwd }).slots (.cwd t) = cwd.bind FilePtr.obj := by
    simp only [slots, Kernel.setTask, Function.update_self, Option.bind_some]
  rw [← hold]
  refine Books.setTask ht rfl hcwd (fun slot hslot => ?_) (by rw [hnew]; exact h)
  cases slot with
  | cwd t' =>
      have hne : t' ≠ t := fun heq => hslot (by rw [heq])
      simp only [slots, Kernel.setTask, Function.update_of_ne hne]
  | exe t' | poll t' i =>
      simp only [slots, Kernel.setTask, Function.update_apply]
      split
      next heq => rw [heq, ht, Option.bind_some, Option.bind_some]
      next => rfl
  | fd | console => rfl

/-- Another executable. -/
theorem Books.setExe {exe : Option FileId} (ht : k.tasks t = some task)
    (h : Books T k ((exe.map .file).toList ++ hand)) :
    Books T (k.setTask t { task with exe := exe }) ((task.exe.map .file).toList ++ hand) := by
  have hold : k.slots (.exe t) = task.exe.map .file := by rw [slots, ht, Option.bind_some]
  have hnew : (k.setTask t { task with exe := exe }).slots (.exe t) = exe.map .file := by
    simp only [slots, Kernel.setTask, Function.update_self, Option.bind_some]
  rw [← hold]
  refine Books.setTask ht rfl (fun hT => ⟨(h.wired hT).cwd t task ht, (h.wired hT).files t task ht⟩)
    (fun slot hslot => ?_) (by rw [hnew]; exact h)
  cases slot with
  | exe t' =>
      have hne : t' ≠ t := fun heq => hslot (by rw [heq])
      simp only [slots, Kernel.setTask, Function.update_of_ne hne]
  | cwd t' | poll t' i =>
      simp only [slots, Kernel.setTask, Function.update_apply]
      split
      next heq => rw [heq, ht, Option.bind_some, Option.bind_some]
      next => rfl
  | fd | console => rfl

end Changes
end Rules
end Kernel
end Files
end JkxyKernel
