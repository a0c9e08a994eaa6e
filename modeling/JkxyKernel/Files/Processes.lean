import JkxyKernel.Files.Duplicating

/-!
# Tasks that come and go

A clone shares the table of its parent or has a copy of it; a task that exits gives up what it
refers to, and the table with its last task.
-/

namespace JkxyKernel
namespace Files

open RefCount
open Objects (Does Holding Keeps)

namespace Kernel

section Tasks

variable {T : Prop} {k k' : Kernel} {hand : List Obj} {t : TaskId} {task child : TaskFiles}
  {tid : TableId} {table table' : Table} {fails : List Nat}

/-! ### Tables that are shared -/

/-- A task gets a table. -/
def link (k : Kernel) (t : TaskId) (task : TaskFiles) (tid : TableId) (table : Table)
    (nextTable : TableId) : Kernel :=
  { k.setTask t { task with files := some tid } with
    tables := Function.update k.tables tid (some table)
    nextTable := nextTable }

theorem link_tabled {nextTable : TableId} (h : k.Tabled) (ht : k.tasks t = some task)
    (hfiles : task.files = none)
    (hcount : table'.refcount = ((k.tables tid).map Table.refcount).getD 0 + 1)
    (hmem : table'.files.mem ≠ .freed ∧ table'.cloexec.mem ≠ .freed) (htid : tid < nextTable)
    (hnext : k.nextTable ≤ nextTable) : (k.link t task tid table' nextTable).Tabled := by
  refine ⟨?_, fun tid' table'' h'' => ?_, fun tid' table'' h'' => ?_, fun tid' hle => ?_,
    fun t' hle => ?_⟩
  · have hnone : (fun t => (k.tasks t).bind TaskFiles.files) t = none := by
      simp only [ht, Option.bind_some, hfiles]
    have hattach := h.counted.attach (o := tid) hnone
    have hm : (fun t' => ((k.link t task tid table' nextTable).tasks t').bind TaskFiles.files) =
        Function.update (fun t => (k.tasks t).bind TaskFiles.files) t (some tid) := by
      funext t'
      simp only [link, setTask, Function.update_apply]
      split <;> rfl
    rw [hm]
    refine hattach.congr fun tid' => ?_
    simp only [link, Function.update_apply]
    split
    next => rw [Option.map_some, Option.getD_some, hcount]
    next => rfl
  · have hnonneg := Counted.nonneg h.counted tid
    simp only [link, Function.update_apply] at h''
    split at h''
    next =>
      cases h''
      omega
    next => exact h.positive tid' table'' h''
  · simp only [link, Function.update_apply] at h''
    split at h''
    next =>
      cases h''
      exact hmem
    next => exact h.unfreed tid' table'' h''
  · have hne : tid' ≠ tid := Nat.ne_of_gt (Nat.lt_of_lt_of_le htid hle)
    simp only [link, Function.update_of_ne hne]
    exact h.freshTable tid' (Nat.le_trans hnext hle)
  · have hne : t' ≠ t := by
      rintro rfl
      rw [h.freshTask _ hle] at ht
      cases ht
    simp only [link, setTask, Function.update_of_ne hne]
    exact h.freshTask t' hle

theorem link_wired {nextTable : TableId} (h : k.Wired) (ht : k.tasks t = some task)
    (hcwd : task.cwd.isSome) (hfiles : ∀ fd, table'.files.lookup fd ≠ some .err) :
    (k.link t task tid table' nextTable).Wired := by
  refine ⟨fun t' task' h' => ?_, fun t' task' h' hsome => ?_, fun tid' table'' fd h'' => ?_⟩
  · simp only [link, setTask, Function.update_apply] at h'
    split at h'
    next =>
      cases h'
      exact h.cwd t task ht
    next => exact h.cwd t' task' h'
  · simp only [link, setTask, Function.update_apply] at h'
    split at h'
    next =>
      cases h'
      exact hcwd
    next => exact h.files t' task' h' hsome
  · simp only [link, Function.update_apply] at h''
    split at h''
    next =>
      cases h''
      exact hfiles fd
    next => exact h.tables tid' table'' fd h''

/-- The entries of the table are what they were. -/
theorem Books.link {nextTable : TableId} (ht : k.tasks t = some task) (hfiles : task.files = none)
    (hcwd : T → task.cwd.isSome)
    (hcount : table'.refcount = ((k.tables tid).map Table.refcount).getD 0 + 1)
    (hmem : table'.files.mem ≠ .freed ∧ table'.cloexec.mem ≠ .freed) (htid : tid < nextTable)
    (hnext : k.nextTable ≤ nextTable)
    (hsame : ∀ fd, table'.files.lookup fd = (k.tables tid).bind fun table => table.files.lookup fd)
    (h : Books T k hand) : Books T (k.link t task tid table' nextTable) hand := by
  have hslots : ∀ slot, (k.link t task tid table' nextTable).slots slot = k.slots slot := by
    intro slot
    cases slot with
    | fd tid' fd =>
        simp only [slots, Kernel.link, Function.update_apply]
        split
        next heq => rw [Option.bind_some, hsame fd, heq, Option.bind_assoc]
        next => rfl
    | cwd t' | exe t' | poll t' i =>
        simp only [slots, Kernel.link, Kernel.setTask, Function.update_apply]
        split
        next heq => rw [heq, ht, Option.bind_some, Option.bind_some]
        next => rfl
    | console => rfl
  have hdone : Books T (k.link t task tid table' nextTable)
      (([] : List Slot).filterMap k.slots ++ hand) := by
    refine Books.relink (k := k) rfl List.nodup_nil (fun slot _ => hslots slot)
      (link_tabled h.tabled ht hfiles hcount hmem htid hnext)
      (fun hT => link_wired (h.wired hT) ht (hcwd hT) fun fd => ?_) h
    rw [hsame fd]
    cases htable : k.tables tid with
    | none => simp
    | some table => exact (h.wired hT).tables tid table fd htable
  exact hdone

/-- A new table has no entries. -/
theorem Books.newTable (ht : k.tasks t = some task) (hfiles : task.files = none)
    (hcwd : T → task.cwd.isSome) (h : Books T k hand) :
    Books T (k.link t task k.nextTable .empty (k.nextTable + 1)) hand := by
  have hfresh := h.tabled.freshTable k.nextTable (Nat.le_refl _)
  refine h.link ht hfiles hcwd ?_ ?_ (Nat.lt_succ_self _) (Nat.le_succ _) fun fd => ?_
  · rw [hfresh]
    rfl
  · exact ⟨by decide, by decide⟩
  · rw [hfresh]
    rfl

/-! ### Clones -/

/-- A new task. -/
def spawn (k : Kernel) (child : TaskFiles) : Kernel :=
  { k.setTask k.nextTask child with nextTask := k.nextTask + 1 }

theorem spawn_tabled (h : k.Tabled) (hfiles : child.files = none) : (k.spawn child).Tabled := by
  have hfresh := h.freshTask k.nextTask (Nat.le_refl _)
  refine ⟨?_, h.positive, h.unfreed, h.freshTable, fun t hle => ?_⟩
  · have hm : (fun t => ((k.spawn child).tasks t).bind TaskFiles.files) =
        fun t => (k.tasks t).bind TaskFiles.files := by
      funext t
      simp only [spawn, setTask, Function.update_apply]
      split
      next heq => rw [heq, hfresh, Option.bind_some, hfiles, Option.bind_none]
      next => rfl
    rw [hm]
    exact h.counted
  · have hne : t ≠ k.nextTask := Nat.ne_of_gt hle
    simp only [spawn, setTask, Function.update_of_ne hne]
    exact h.freshTask t (Nat.le_of_succ_le hle)

theorem filterMap_pair {a b : Slot} :
    [a, b].filterMap k.slots = (k.slots a).toList ++ (k.slots b).toList := by
  cases ha : k.slots a <;> cases hb : k.slots b <;> simp [ha, hb]

/-- A new task takes over what is in hand. -/
theorem Books.spawn (hfiles : child.files = none) (hpoll : child.poll = none)
    (hcwd : T → child.cwd ≠ some .err)
    (h : Books T k ((child.cwd.bind FilePtr.obj).toList ++
      ((child.exe.map Obj.file).toList ++ hand))) : Books T (k.spawn child) hand := by
  have hfresh := h.tabled.freshTask k.nextTask (Nat.le_refl _)
  have hself : (k.spawn child).tasks k.nextTask = some child := Function.update_self _ _ _
  have hold : [Slot.cwd k.nextTask, .exe k.nextTask].filterMap k.slots = [] := by
    simp [slots, hfresh]
  have hnew : [Slot.cwd k.nextTask, .exe k.nextTask].filterMap (k.spawn child).slots =
      (child.cwd.bind FilePtr.obj).toList ++ (child.exe.map Obj.file).toList := by
    rw [filterMap_pair, slots, slots, hself, Option.bind_some, Option.bind_some]
  have hdone : Books T (k.spawn child)
      ([Slot.cwd k.nextTask, .exe k.nextTask].filterMap k.slots ++ hand) := by
    refine Books.relink rfl (by simp) (fun slot hslot => ?_) (spawn_tabled h.tabled hfiles)
      (fun hT => ⟨fun t task ht => ?_, fun t task ht hsome => ?_, (h.wired hT).tables⟩) ?_
    · simp only [List.mem_cons, List.not_mem_nil, or_false, not_or] at hslot
      cases slot with
      | cwd t =>
          have hne : t ≠ k.nextTask := fun heq => hslot.1 (congrArg _ heq)
          simp only [slots, Kernel.spawn, Kernel.setTask, Function.update_of_ne hne]
      | exe t =>
          have hne : t ≠ k.nextTask := fun heq => hslot.2 (congrArg _ heq)
          simp only [slots, Kernel.spawn, Kernel.setTask, Function.update_of_ne hne]
      | poll t i =>
          simp only [slots, Kernel.spawn, Kernel.setTask, Function.update_apply]
          split
          next heq =>
            rw [heq, hfresh, Option.bind_some, Option.bind_none, hpoll]
            rfl
          next => rfl
      | fd | console => rfl
    · simp only [Kernel.spawn, Kernel.setTask, Function.update_apply] at ht
      split at ht
      next =>
        cases ht
        exact hcwd hT
      next => exact (h.wired hT).cwd t task ht
    · simp only [Kernel.spawn, Kernel.setTask, Function.update_apply] at ht
      split at ht
      next =>
        cases ht
        rw [hfiles] at hsome
        cases hsome
      next => exact (h.wired hT).files t task ht hsome
    · rw [hnew, List.append_assoc]
      exact h
  rw [hold] at hdone
  exact hdone

/-- The loop that copies the files, by induction on the descriptors. -/
theorem cloneFiles_ends {stid : TableId} {source : Table} (is : List Nat) (h : Books T k hand)
    (hsource : k.tables stid = some source) (hne : stid ≠ tid) (htable : k.tables tid = some table)
    (hnodup : is.Nodup) (hfree : ∀ i ∈ is, table.files.lookup i = none)
    (hcareful : T → fails = [] ∧ ∀ i ∈ is, i < 2 ^ 29) :
    Ends T (fun r => r.1.mem ≠ .freed ∧
      Books T (setTable { k with objects := r.2 } tid { table with files := r.1 }) hand)
      (cloneFiles source.files fails is table.files k.objects) := by
  obtain ⟨hmem, hflags⟩ := h.tabled.unfreed tid table htable
  induction is generalizing k table with
  | nil =>
      refine ⟨hmem, ?_⟩
      have hsame : setTable { k with objects := k.objects } tid
          { table with files := table.files } = k := by
        simp only [setTable, ← htable, Function.update_eq_self]
      rw [hsame]
      exact h
  | cons i is ih =>
      obtain ⟨hi, hnodup⟩ := List.nodup_cons.mp hnodup
      refine .known (lift_get (h.tabled.unfreed stid source hsource).1) ?_
      cases hentry : source.files.lookup i with
      | none =>
          exact ih h hsource htable hnodup (fun j hj => hfree j (List.mem_cons_of_mem i hj))
            (fun hT => ⟨(hcareful hT).1, fun j hj => (hcareful hT).2 j (List.mem_cons_of_mem i hj)⟩)
            hmem hflags
      | some ptr =>
          have herr : T → ptr ≠ .err := by
            rintro hT rfl
            exact (h.wired hT).tables stid source i hsource hentry
          have hslot : k.slots (.fd stid i) = ptr.obj := by
            rw [slots, hsource, Option.bind_some, hentry, Option.bind_some]
          refine (arraySet_ends hmem fun hT => ⟨by rw [(hcareful hT).1]; rfl, fun _ =>
            (hcareful hT).2 i List.mem_cons_self⟩).bind ?_
          rintro ⟨_, files⟩ ⟨hstored, -⟩
          refine (h.getPtr hslot herr).bind fun objects hgot => ?_
          have hset := Books.setFree (k := { k with objects := objects }) htable
            (hfree i List.mem_cons_self) hstored hflags herr hgot.2
          have hrest := ih hset ((Function.update_of_ne hne _ _).trans hsource)
            (Function.update_self tid _ _) hnodup
            (fun j hj => (hstored.others j fun heq => hi (heq ▸ hj)).trans
              (hfree j (List.mem_cons_of_mem i hj)))
            (fun hT => ⟨(hcareful hT).1, fun j hj => (hcareful hT).2 j (List.mem_cons_of_mem i hj)⟩)
            hstored.unfreed hflags
          refine hrest.mono fun r hr => ⟨hr.1, ?_⟩
          have hbooks := hr.2
          simp only [setTable, Function.update_idem] at hbooks
          exact hbooks

/-- The loop that copies the flags. -/
theorem cloneFlags_ends {src dst : Structure.Array Unit} (is : List Nat) (hsrc : src.mem ≠ .freed)
    (hdst : dst.mem ≠ .freed) (hcareful : T → fails = [] ∧ ∀ i ∈ is, i < 2 ^ 29) :
    Ends T (fun flags => flags.mem ≠ .freed) (cloneFlags src fails is dst) := by
  induction is generalizing dst with
  | nil => exact hdst
  | cons i is ih =>
      have hrest : T → fails = [] ∧ ∀ j ∈ is, j < 2 ^ 29 :=
        fun hT => ⟨(hcareful hT).1, fun j hj => (hcareful hT).2 j (List.mem_cons_of_mem i hj)⟩
      refine .known (lift_get hsrc) ?_
      cases src.lookup i with
      | none => exact ih hdst hrest
      | some flag =>
          refine (arraySet_ends hdst fun hT => ⟨by rw [(hcareful hT).1]; rfl, fun _ =>
            (hcareful hT).2 i List.mem_cons_self⟩).bind ?_
          rintro ⟨_, dst'⟩ ⟨hstored, -⟩
          exact ih hstored.unfreed hrest

/-- A new table becomes a copy of another one. -/
theorem copyTable_ends {stid : TableId} {source : Table} (h : Books T k hand)
    (hsource : k.tables stid = some source) (hne : stid ≠ tid)
    (htable : k.tables tid = some .empty)
    (hcareful : T → fails = [] ∧ source.files.size < 2 ^ 29 ∧ source.cloexec.size < 2 ^ 29) :
    Ends T (fun r => Books T (setTable { k with objects := r.2 } tid r.1) hand)
      (k.copyTable source fails) := by
  obtain ⟨-, hflags⟩ := h.tabled.unfreed stid source hsource
  have hfiles := cloneFiles_ends (List.range source.files.size) h hsource hne htable
    List.nodup_range (fun i _ => rfl) fun hT => ⟨(hcareful hT).1, fun i hi =>
      Nat.lt_trans (List.mem_range.mp hi) (hcareful hT).2.1⟩
  refine hfiles.bind ?_
  rintro ⟨files, objects⟩ ⟨hunfreed, hbooks⟩
  have hcopied : Ends T (fun flags => flags.mem ≠ .freed)
      (cloneFlags source.cloexec fails (List.range source.cloexec.size) .empty) :=
    cloneFlags_ends _ hflags (by decide) fun hT => ⟨(hcareful hT).1, fun i hi =>
      Nat.lt_trans (List.mem_range.mp hi) (hcareful hT).2.2⟩
  refine hcopied.bind fun flags hunfreed' => ?_
  have hdone : Books T (setTable (setTable { k with objects := objects } tid
      { Table.empty with files := files }) tid ⟨1, files, flags⟩) hand :=
    hbooks.setSame (Function.update_self tid _ _) rfl ⟨hunfreed, hunfreed'⟩ fun _ => rfl
  rw [setTable_setTable] at hdone
  exact hdone

/-- What the parent refers to is counted for the child. -/
theorem clone_lands {shares : Bool} (h : Books T k []) (ht : k.tasks t = some task)
    (hcareful : T → fails = [] ∧ k.Roomy task) : Lands T (k.clone task shares fails) := by
  have hcwd : T → task.cwd ≠ some .err := fun hT => (h.wired hT).cwd t task ht
  have hcwdSlot : k.slots (.cwd t) = task.cwd.bind FilePtr.obj := by
    rw [slots, ht, Option.bind_some]
  refine (h.getOpt hcwdSlot hcwd).bind fun objects₁ hgot₁ => ?_
  have hexeSlot : Kernel.slots { k with objects := objects₁ } (.exe t) =
      (task.exe.map FilePtr.file).bind FilePtr.obj := by
    simp only [slots, ht, Option.bind_some, exe_hand]
  refine (hgot₁.2.getOpt hexeSlot fun _ => exe_ne_err _).bind fun objects₂ hgot₂ => ?_
  have hbooks := hgot₂.2
  rw [exe_hand] at hbooks
  generalize hchild : (⟨task.cwd, task.exe, none, none, none⟩ : TaskFiles) = child
  have hspawn : Books T (Kernel.spawn { k with objects := objects₂ } child) [] := by
    subst hchild
    refine Books.spawn rfl rfl hcwd (hbooks.perm ?_)
    exact List.perm_append_comm_assoc _ _ _
  have htask : (Kernel.spawn { k with objects := objects₂ } child).tasks k.nextTask = some child :=
    Function.update_self _ _ _
  cases hfiles : task.files with
  | none =>
      simp only [cloneTable, hfiles]
      subst hchild
      exact hspawn
  | some tid =>
      obtain ⟨table, htable, hof⟩ := Books.tableOf h.tabled ht hfiles
      obtain ⟨hmem, hflags⟩ := h.tabled.unfreed tid table htable
      have hnone : child.files = none := by rw [← hchild]
      have hsome : T → child.cwd.isSome := by
        rw [← hchild]
        exact fun hT => (h.wired hT).files t task ht (by rw [hfiles]; rfl)
      have hlt : tid < k.nextTable := by
        by_contra hle
        rw [h.tabled.freshTable tid (Nat.le_of_not_lt hle)] at htable
        cases htable
      have hof' : Kernel.tableOf { k with objects := objects₂ } task = .ok (tid, table) := hof
      simp only [cloneTable, hfiles, hof']
      cases shares with
      | true =>
          have hlink : Books T (Kernel.link (Kernel.spawn { k with objects := objects₂ } child)
              k.nextTask child tid { table with refcount := table.refcount + 1 } k.nextTable) [] := by
            refine hspawn.link htask hnone hsome ?_ ⟨hmem, hflags⟩ hlt (Nat.le_refl _) fun fd => ?_
            · simp only [Kernel.spawn, setTask, htable, Option.map_some, Option.getD_some]
            · simp only [Kernel.spawn, setTask, htable, Option.bind_some]
          simp only [Kernel.link, Kernel.spawn, setTask, Function.update_idem] at hlink
          subst hchild
          exact hlink
      | false =>
          have hnew := hspawn.newTable htask hnone hsome
          have hcopy := copyTable_ends hnew ((Function.update_of_ne (Nat.ne_of_lt hlt) _ _).trans
            htable) (Nat.ne_of_lt hlt) (Function.update_self _ _ _)
            fun hT => ⟨(hcareful hT).1, (hcareful hT).2.sizes hfiles htable⟩
          have hcopy' : Ends T _ (Kernel.copyTable { k with objects := objects₂ } table fails) :=
            hcopy
          refine .seq (.known rfl (hcopy'.bind ?_))
          rintro ⟨copy, objects⟩ hcopied
          simp only [Kernel.link, Kernel.spawn, setTask, setTable, Function.update_idem] at hcopied
          subst hchild
          exact hcopied

/-! ### Exits -/

/-- A task is gone; what has become of its table is in `tables`. -/
def retire (k : Kernel) (t : TaskId) (tables : TableId → Option Table) : Kernel :=
  { k with tables := tables, tasks := Function.update k.tasks t none }

theorem retire_freshTask (h : k.Tabled) {tables : TableId → Option Table} :
    ∀ t', (k.retire t tables).nextTask ≤ t' → (k.retire t tables).tasks t' = none := by
  intro t' hle
  simp only [retire, Function.update_apply]
  split
  next => rfl
  next => exact h.freshTask t' hle

theorem retire_tabled (h : k.Tabled) (ht : k.tasks t = some task) (hfiles : task.files = some tid)
    (htable : k.tables tid = some table) {table' : Option Table}
    (hcount : (table'.map Table.refcount).getD 0 = table.refcount - 1)
    (hmem : ∀ table'', table' = some table'' → 0 < table''.refcount ∧
      table''.files.mem ≠ .freed ∧ table''.cloexec.mem ≠ .freed) :
    (k.retire t (Function.update k.tables tid table')).Tabled := by
  refine ⟨?_, fun tid' table'' h'' => ?_, fun tid' table'' h'' => ?_, fun tid' hle => ?_,
    retire_freshTask h⟩
  · have hslot : (fun t => (k.tasks t).bind TaskFiles.files) t = some tid := by
      simp only [ht, Option.bind_some, hfiles]
    have hm : (fun t' => ((k.retire t (Function.update k.tables tid table')).tasks t').bind
        TaskFiles.files) = Function.update (fun t => (k.tasks t).bind TaskFiles.files) t none := by
      funext t'
      simp only [retire, Function.update_apply]
      split <;> rfl
    rw [hm]
    refine (h.counted.detach hslot).congr fun tid' => ?_
    simp only [retire, Function.update_apply]
    split
    next => rw [hcount, htable, Option.map_some, Option.getD_some]
    next => rfl
  · simp only [retire, Function.update_apply] at h''
    split at h''
    next => exact (hmem table'' h'').1
    next => exact h.positive tid' table'' h''
  · simp only [retire, Function.update_apply] at h''
    split at h''
    next => exact (hmem table'' h'').2
    next => exact h.unfreed tid' table'' h''
  · have hne : tid' ≠ tid := by
      rintro rfl
      rw [h.freshTable _ hle] at htable
      cases htable
    simp only [retire, Function.update_of_ne hne]
    exact h.freshTable tid' hle

theorem retire_tabled_none (h : k.Tabled) (ht : k.tasks t = some task)
    (hfiles : task.files = none) : (k.retire t k.tables).Tabled := by
  refine ⟨?_, h.positive, h.unfreed, h.freshTable, retire_freshTask h⟩
  have hm : (fun t' => ((k.retire t k.tables).tasks t').bind TaskFiles.files) =
      fun t => (k.tasks t).bind TaskFiles.files := by
    funext t'
    simp only [retire, Function.update_apply]
    split
    next heq => rw [heq, ht, Option.bind_none, Option.bind_some, hfiles]
    next => rfl
  rw [hm]
  exact h.counted

/-- What a task that is gone referred to is in hand, with the entries `ks` of its table. -/
theorem Books.retire {tables : TableId → Option Table} {ks : List Slot} (h : Books T k hand)
    (ht : k.tasks t = some task) (hpoll : task.poll = none) (hnodup : ks.Nodup)
    (hks : ∀ slot ∈ ks, ∃ tid fd, slot = .fd tid fd) (htabled : (k.retire t tables).Tabled)
    (hwired : T → ∀ tid table fd, tables tid = some table → table.files.lookup fd ≠ some .err)
    (hgone : ∀ slot ∈ ks, (k.retire t tables).slots slot = none)
    (hsame : ∀ tid fd, Slot.fd tid fd ∉ ks →
      (k.retire t tables).slots (.fd tid fd) = k.slots (.fd tid fd)) :
    Books T (k.retire t tables) ((task.cwd.bind FilePtr.obj).toList ++
      ((task.exe.map Obj.file).toList ++ (ks.filterMap k.slots ++ hand))) := by
  have hnone : (k.retire t tables).tasks t = none := Function.update_self _ _ _
  have hcwd : Slot.cwd t ∉ ks := by
    intro hmem
    obtain ⟨tid, fd, heq⟩ := hks _ hmem
    cases heq
  have hexe : Slot.exe t ∉ ks := by
    intro hmem
    obtain ⟨tid, fd, heq⟩ := hks _ hmem
    cases heq
  have hdone : Books T (k.retire t tables)
      (([Slot.cwd t, Slot.exe t] ++ ks).filterMap k.slots ++ hand) := by
    refine Books.relink rfl (by simp [hcwd, hexe, hnodup]) (fun slot hslot => ?_) htabled
      (fun hT => ⟨fun t' task' h' => ?_, fun t' task' h' => ?_, hwired hT⟩) ?_
    · simp only [List.cons_append, List.nil_append, List.mem_cons, not_or] at hslot
      cases slot with
      | fd tid fd => exact hsame tid fd hslot.2.2
      | console => rfl
      | cwd t' =>
          have hne : t' ≠ t := fun heq => hslot.1 (congrArg _ heq)
          simp only [slots, Kernel.retire, Function.update_of_ne hne]
      | exe t' =>
          have hne : t' ≠ t := fun heq => hslot.2.1 (congrArg _ heq)
          simp only [slots, Kernel.retire, Function.update_of_ne hne]
      | poll t' i =>
          simp only [slots, Kernel.retire, Function.update_apply]
          split
          next heq =>
            rw [heq, ht, Option.bind_none, Option.bind_some, hpoll]
            rfl
          next => rfl
    · simp only [Kernel.retire, Function.update_apply] at h'
      split at h'
      next => cases h'
      next => exact (h.wired hT).cwd t' task' h'
    · simp only [Kernel.retire, Function.update_apply] at h'
      split at h'
      next => cases h'
      next => exact (h.wired hT).files t' task' h'
    · have hempty : ([Slot.cwd t, Slot.exe t] ++ ks).filterMap (k.retire t tables).slots = [] := by
        refine List.filterMap_eq_nil_iff.mpr fun slot hslot => ?_
        simp only [List.cons_append, List.nil_append, List.mem_cons] at hslot
        rcases hslot with rfl | rfl | hslot
        · rw [slots, hnone, Option.bind_none]
        · rw [slots, hnone, Option.bind_none]
        · exact hgone slot hslot
      rw [hempty]
      exact h
  rw [List.filterMap_append, filterMap_pair, List.append_assoc, List.append_assoc, slots, slots, ht,
    Option.bind_some, Option.bind_some] at hdone
  exact hdone

/-- The files of a table are closed, by induction on the descriptors. -/
theorem exitFiles_turned {files : Structure.Array FilePtr} (fds : List Nat)
    (h : Books T k (fds.filterMap (fun fd => (files.lookup fd).bind FilePtr.obj) ++ hand))
    (hmem : files.mem ≠ .freed) (herr : T → ∀ fd, files.lookup fd ≠ some .err) :
    Turned T k hand (exitFiles files fds k.objects) := by
  induction fds generalizing k with
  | nil => exact ⟨.refl _, h⟩
  | cons fd fds ih =>
      refine .known (lift_get hmem) ?_
      have hhand : Books T k (((files.lookup fd).bind FilePtr.obj).toList ++
          (fds.filterMap (fun fd => (files.lookup fd).bind FilePtr.obj) ++ hand)) := by
        rw [List.filterMap_cons] at h
        cases hentry : (files.lookup fd).bind FilePtr.obj with
        | none =>
            rw [hentry] at h
            exact h
        | some o =>
            rw [hentry] at h
            exact h
      refine (hhand.closeOpt fun hT => herr hT fd).bind fun objects hclosed => ?_
      exact (ih hclosed.2).mono fun _ hdone => ⟨hclosed.1.trans hdone.1, hdone.2⟩

/-- The last task of a table: the entries are in hand as well. -/
theorem Books.retireLast (h : Books T k hand) (ht : k.tasks t = some task)
    (hpoll : task.poll = none) (hfiles : task.files = some tid) (htable : k.tables tid = some table)
    (hlast : table.refcount - 1 = 0) :
    Books T (k.retire t (Function.update k.tables tid none))
      ((task.cwd.bind FilePtr.obj).toList ++ ((task.exe.map Obj.file).toList ++
        ((List.range table.files.size).filterMap
          (fun fd => (table.files.lookup fd).bind FilePtr.obj) ++ hand))) := by
  have hentry : ∀ fd, k.slots (.fd tid fd) = (table.files.lookup fd).bind FilePtr.obj :=
    fun fd => by rw [slots, htable, Option.bind_some]
  have hfds : ((List.range table.files.size).map (Slot.fd tid)).filterMap k.slots =
      (List.range table.files.size).filterMap
        (fun fd => (table.files.lookup fd).bind FilePtr.obj) := by
    rw [List.filterMap_map]
    exact List.filterMap_congr fun fd _ => hentry fd
  have htabled : (k.retire t (Function.update k.tables tid none)).Tabled :=
    retire_tabled h.tabled ht hfiles htable (by rw [hlast]; rfl) fun table'' h'' => by cases h''
  rw [← hfds]
  refine h.retire ht hpoll (List.nodup_range.map fun _ _ heq => (Slot.fd.inj heq).2)
    (fun slot hslot => ?_) htabled (fun hT tid' table' fd h' => ?_) (fun slot hslot => ?_)
    (fun tid' fd hslot => ?_)
  · obtain ⟨fd, -, rfl⟩ := List.mem_map.mp hslot
    exact ⟨tid, fd, rfl⟩
  · rw [Function.update_apply] at h'
    split at h'
    next => cases h'
    next => exact (h.wired hT).tables tid' table' fd h'
  · obtain ⟨fd, -, rfl⟩ := List.mem_map.mp hslot
    simp only [slots, Kernel.retire, Function.update_self, Option.bind_none]
  · simp only [slots, Kernel.retire, Function.update_apply]
    split
    next heq =>
      subst heq
      have hle : table.files.size ≤ fd := by
        by_contra hlt
        exact hslot (List.mem_map_of_mem (List.mem_range.mpr (Nat.lt_of_not_le hlt)))
      rw [htable, Option.bind_none, Option.bind_some, lookup_of_size_le hle, Option.bind_none]
    next => rfl

/-- Other tasks keep the table. -/
theorem Books.retireShared (h : Books T k hand) (ht : k.tasks t = some task)
    (hpoll : task.poll = none) (hfiles : task.files = some tid)
    (htable : k.tables tid = some table) (hlast : table.refcount - 1 ≠ 0) :
    Books T (k.retire t (Function.update k.tables tid
        (some { table with refcount := table.refcount - 1 })))
      ((task.cwd.bind FilePtr.obj).toList ++ ((task.exe.map Obj.file).toList ++ hand)) := by
  have hunfreed := h.tabled.unfreed tid table htable
  have hpos := h.tabled.positive tid table htable
  have htabled : (k.retire t (Function.update k.tables tid
      (some { table with refcount := table.refcount - 1 }))).Tabled :=
    retire_tabled h.tabled ht hfiles htable rfl fun table'' h'' => by
      cases h''
      refine ⟨?_, hunfreed⟩
      change 0 < table.refcount - 1
      omega
  refine h.retire ht hpoll List.nodup_nil (fun slot hslot => by cases hslot) htabled
    (fun hT tid' table' fd h' => ?_) (fun slot hslot => by cases hslot) (fun tid' fd _ => ?_)
  · rw [Function.update_apply] at h'
    split at h'
    next =>
      cases h'
      exact (h.wired hT).tables tid table fd htable
    next => exact (h.wired hT).tables tid' table' fd h'
  · simp only [slots, Kernel.retire, Function.update_apply]
    split
    next heq => rw [heq, htable, Option.bind_some, Option.bind_some]
    next => rfl

theorem destroy_ok {α : Type} {arr : Structure.Array α} (hmem : arr.mem ≠ .freed) :
    ∃ arr', lift arr.destroy = .ok arr' := by
  rw [Structure.Array.destroy]
  cases hcase : arr.mem with
  | null => exact ⟨_, rfl⟩
  | live => exact ⟨_, rfl⟩
  | freed => exact absurd hcase hmem

theorem exit_lands (h : Books T k []) (ht : k.tasks t = some task) (hpoll : task.poll = none) :
    Lands T (k.exit t task) := by
  have hcwd : T → task.cwd ≠ some .err := fun hT => (h.wired hT).cwd t task ht
  -- the working directory and the executable are closed, whatever becomes of the table
  have hclose : ∀ (tables : TableId → Option Table) (rest : List Obj)
      (next : Objects → Except Stop Kernel), Books T (k.retire t tables)
        ((task.cwd.bind FilePtr.obj).toList ++ ((task.exe.map Obj.file).toList ++ rest)) →
      (∀ objects, Books T { k.retire t tables with objects := objects } rest →
        Lands T (next objects)) →
      Lands T (closeOpt k.objects task.cwd >>= fun objects =>
        closeOpt objects (task.exe.map .file) >>= next) := by
    intro tables rest next hbooks hnext
    refine (hbooks.closeOpt hcwd).bind fun objects hclosed => ?_
    have hhand := hclosed.2
    rw [← exe_hand] at hhand
    exact (hhand.closeOpt fun _ => exe_ne_err _).bind fun objects' hclosed' =>
      hnext objects' hclosed'.2
  cases hfiles : task.files with
  | none =>
      have hgone := h.retire ht hpoll List.nodup_nil (fun slot hslot => by cases hslot)
        (retire_tabled_none h.tabled ht hfiles) (fun hT => (h.wired hT).tables)
        (fun slot hslot => by cases hslot) fun tid fd _ => rfl
      refine hclose k.tables [] _ hgone fun objects hbooks => ?_
      simp only [exitTable, hfiles]
      exact hbooks
  | some tid =>
      obtain ⟨table, htable, hof⟩ := Books.tableOf h.tabled ht hfiles
      obtain ⟨hmem, hflags⟩ := h.tabled.unfreed tid table htable
      have hof' : ∀ objects, Kernel.tableOf { k with objects := objects } task = .ok (tid, table) :=
        fun _ => hof
      by_cases hlast : table.refcount - 1 = 0
      · refine hclose _ _ _ (h.retireLast ht hpoll hfiles htable hlast) fun objects hbooks => ?_
        have hends := exitFiles_turned _ hbooks hmem fun hT fd =>
          (h.wired hT).tables tid table fd htable
        obtain ⟨files', hdestroy⟩ := destroy_ok hmem
        obtain ⟨flags', hdestroy'⟩ := destroy_ok hflags
        simp only [exitTable, hfiles]
        refine .seq (.known (hof' objects) ?_)
        simp only [hlast, ne_eq, not_true_eq_false, if_false]
        refine hends.bind fun objects' hclosed => .known hdestroy (.known hdestroy' ?_)
        exact hclosed.2
      · refine hclose _ _ _ (h.retireShared ht hpoll hfiles htable hlast) fun objects hbooks => ?_
        simp only [exitTable, hfiles]
        refine .seq (.known (hof' objects) ?_)
        simp only [ne_eq, hlast, not_false_eq_true, if_true]
        exact hbooks

end Tasks
end Kernel
end Files
end JkxyKernel
