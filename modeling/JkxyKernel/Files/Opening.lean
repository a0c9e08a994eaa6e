import JkxyKernel.Files.Books

/-!
# Calls that open files

A file that is opened gets a descriptor, or becomes a working directory, or is closed again.
-/

namespace JkxyKernel
namespace Files

open Objects (Answer Opening Does Holding Keeps fileHand)

namespace Kernel

/-- The table of the task is not too large to grow. -/
def Roomy (k : Kernel) (task : TaskFiles) : Prop :=
  ∀ table ∈ task.files.bind k.tables, table.files.size < 2 ^ 29 ∧ table.cloexec.size < 2 ^ 29

instance (k : Kernel) (task : TaskFiles) : Decidable (k.Roomy task) :=
  inferInstanceAs (Decidable (∀ table ∈ task.files.bind k.tables, _ ∧ _))

theorem Roomy.sizes {k : Kernel} {task : TaskFiles} {tid : TableId} {table : Table}
    (h : k.Roomy task) (hfiles : task.files = some tid) (htable : k.tables tid = some table) :
    table.files.size < 2 ^ 29 ∧ table.cloexec.size < 2 ^ 29 :=
  h table (by rw [hfiles, Option.bind_some, htable]; rfl)

section Opens

variable {T : Prop} {k : Kernel} {hand : List Obj} {t : TaskId} {task : TaskFiles} {tid : TableId}
  {table : Table} {start : Start} {answer : Answer} {opening : Opening} {fails : List Nat}

theorem lookup_slot {fd : Nat} {f : FileId} (htable : k.tables tid = some table)
    (hentry : table.files.lookup fd = some (.file f)) : k.slots (.fd tid fd) = some (.file f) := by
  rw [slots, htable, Option.bind_some, hentry]
  rfl

theorem cwd_slot {f : FileId} (ht : k.tasks t = some task) (hcwd : task.cwd = some (.file f)) :
    k.slots (.cwd t) = some (.file f) := by
  rw [slots, ht, Option.bind_some, hcwd]
  rfl

/-- A pointer that is not that of a failed open refers to a file that is there. -/
theorem pathOf_ends {ptr : Option FilePtr} (hok : T → ptr ≠ some .err)
    (hlive : ∀ f, ptr = some (.file f) → ∃ n, k.objects.count (.file f) = some n) :
    Ends T (fun mnt => startMount.pathOf k ptr = .ok mnt) (startMount.pathOf k ptr) := by
  refine .intro (fun hT => ?_) fun _ h => h
  rcases ptr with _ | f | _
  · exact ⟨none, rfl⟩
  · obtain ⟨n, hn⟩ := hlive f rfl
    obtain ⟨file, hfile, -⟩ := Option.map_eq_some_iff.mp hn
    refine ⟨some file.mnt, ?_⟩
    rw [startMount.pathOf]
    refine Machine.bind_eq_ok_iff.mpr ⟨f, rfl, ?_⟩
    simp only [hfile]
  · exact absurd rfl (hok hT)

theorem pathOf_live {ptr : Option FilePtr} {mnt : Option MountId} {m : MountId}
    (h : Books T k hand) (hpath : startMount.pathOf k ptr = .ok (some mnt)) (hm : mnt = some m) :
    ∃ n, k.objects.count (.mount m) = some n := by
  rcases ptr with _ | ptr
  · cases hpath
  · rw [startMount.pathOf] at hpath
    obtain ⟨f, -, hpath⟩ := Machine.bind_eq_ok_iff.mp hpath
    split at hpath
    next => cases hpath
    next file hfile =>
      cases hpath
      obtain ⟨leaks, hholding, -⟩ := h.holding
      refine hholding.live_of_own (k := .path f) ?_
      simp only [Objects.own, hfile, Option.bind_some, hm, Option.map_some]

/-- The mount that a path starts from is there. -/
theorem startMount_ends (h : Books T k hand) (ht : k.tasks t = some task)
    (hat : ∀ dfd, start = .at dfd → task.files.isSome) :
    Ends T (fun r => k.startMount task start = .ok r ∧ ∀ mnt, r = some mnt → ∀ m, mnt = some m →
      ∃ n, k.objects.count (.mount m) = some n) (k.startMount task start) := by
  have hpath : ∀ ptr, startMount.pathOf k ptr = k.startMount task start →
      (T → ptr ≠ some .err) →
      (∀ f, ptr = some (.file f) → ∃ n, k.objects.count (.file f) = some n) →
      Ends T (fun r => k.startMount task start = .ok r ∧ ∀ mnt, r = some mnt → ∀ m, mnt = some m →
        ∃ n, k.objects.count (.mount m) = some n) (k.startMount task start) := by
    intro ptr heq hok hlive
    rw [← heq]
    refine (pathOf_ends hok hlive).mono fun r hr => ⟨hr, ?_⟩
    rintro mnt rfl m hm
    exact pathOf_live h hr hm
  cases start with
  | absolute =>
      refine ⟨rfl, ?_⟩
      rintro mnt ⟨⟩ m hm
      cases hm
  | cwd =>
      exact hpath task.cwd rfl (fun hT => (h.wired hT).cwd t task ht)
        fun f hf => h.live_of_slot (cwd_slot ht hf)
  | «at» dfd =>
      obtain ⟨tid, hfiles⟩ := Option.isSome_iff_exists.mp (hat dfd rfl)
      obtain ⟨table, htable, hof⟩ := Books.tableOf h.tabled ht hfiles
      refine hpath (table.files.lookup dfd) ?_
        (fun hT => (h.wired hT).tables tid table dfd htable)
        fun f hf => h.live_of_slot (lookup_slot htable hf)
      rw [startMount, hof]
      change _ = lift (table.files.get dfd) >>= startMount.pathOf k
      rw [lift_get (h.tabled.unfreed tid table htable).1]
      rfl

theorem valid_of_finds {mnt : Option MountId} (hfinds : k.finds task start answer = true)
    (hstart : k.startMount task start = .ok (some mnt)) :
    answer.valid k.objects.listed mnt = true := by
  rw [finds, hstart] at hfinds
  exact hfinds

/-- An open for a task. -/
theorem filpOpenat_ends (h : Books T k hand) (ht : k.tasks t = some task)
    (hat : ∀ dfd, start = .at dfd → task.files.isSome)
    (hfinds : k.finds task start answer = true) :
    Ends T (fun r => Keeps k.objects r.1 ∧ Books T { k with objects := r.1 } (fileHand r.2 ++ hand))
      (k.filpOpenat task start answer opening) := by
  refine (startMount_ends h ht hat).bind ?_
  rintro (_ | mnt) ⟨hstart, hlive⟩
  · exact ⟨.refl _, h⟩
  · refine Books.does (r := []) h fun l hl => ?_
    exact Objects.filpOpenat_does answer opening h.sound h.tidy hl (hlive mnt rfl)
      (valid_of_finds hfinds hstart)

/-- A file that is open gets a descriptor. -/
theorem install_lands {r : Objects × Option FileId} {cloexec : Bool}
    (h : Books T { k with objects := r.1 } (fileHand r.2)) (ht : k.tasks t = some task)
    (hfiles : task.files.isSome) (hcareful : T → fails = [] ∧ k.Roomy task) :
    Lands T (k.install task cloexec fails r) := by
  obtain ⟨objects, f⟩ := r
  cases f with
  | none => exact h
  | some f =>
      obtain ⟨tid, hfiles⟩ := Option.isSome_iff_exists.mp hfiles
      obtain ⟨table, htable, hof⟩ := Books.tableOf h.tabled ht hfiles
      obtain ⟨hmem, hflags⟩ := h.tabled.unfreed tid table htable
      have hsmall : T → fails = [] ∧ table.files.size < 2 ^ 29 ∧ 0 < 2 ^ 29 :=
        fun hT => ⟨(hcareful hT).1, ((hcareful hT).2.sizes hfiles htable).1, by decide⟩
      refine .known hof ((placeFrom_ends hmem hsmall).bind ?_)
      rintro ⟨fd, files⟩ ⟨hfree, hstored, hlt⟩
      refine (set_ends hflags fun hT _ => hlt hT).bind fun flags hflags' => ?_
      have hhand : Books T { k with objects := objects } ((FilePtr.file f).obj.toList ++ []) := h
      exact hhand.setFree htable hfree hstored hflags'.unfreed fun _ => by simp

section Calls

variable {cloexec absolute : Bool}

theorem openat_lands (h : Books T k []) (ht : k.tasks t = some task) (hfiles : task.files.isSome)
    (hfinds : k.finds task start answer = true) (hcareful : T → fails = [] ∧ k.Roomy task) :
    Lands T (k.openat task start answer opening cloexec fails) := by
  refine (filpOpenat_ends h ht (fun _ _ => hfiles) hfinds).bind fun r hr => ?_
  have hbooks := hr.2
  rw [List.append_nil] at hbooks
  exact install_lands hbooks ht hfiles hcareful

theorem socket_lands (h : Books T k []) (ht : k.tasks t = some task) (hfiles : task.files.isSome)
    (hcareful : T → fails = [] ∧ k.Roomy task) : Lands T (k.socket task opening cloexec fails) := by
  have hopen := Books.does (r := []) h fun l hl =>
    Objects.filpOpenDummy_does opening h.sound h.tidy hl
  refine hopen.bind fun r hr => ?_
  have hbooks := hr.2
  rw [List.append_nil] at hbooks
  exact install_lands hbooks ht hfiles hcareful

/-- A file is closed. -/
theorem Books.filpClose {f : FileId} (h : Books T k (.file f :: hand)) :
    Turned T k hand (k.objects.filpClose f) :=
  Books.turned (r := [.file f]) h fun _ hl => Objects.put_does h.sound h.tidy hl

theorem faccessat_lands (h : Books T k []) (ht : k.tasks t = some task)
    (hfiles : task.files.isSome) (hfinds : k.finds task start answer = true) :
    Lands T (k.faccessat task start answer opening) := by
  refine (filpOpenat_ends h ht (fun _ _ => hfiles) hfinds).bind ?_
  rintro ⟨objects, _ | f⟩ ⟨-, hbooks⟩
  · exact hbooks
  · exact hbooks.filpClose.bind fun _ hclosed => hclosed.2

theorem ofCwd_ne_at {dfd : Nat} : Start.ofCwd absolute ≠ .at dfd := by
  cases absolute <;> simp [Start.ofCwd]

theorem stat_lands (h : Books T k []) (ht : k.tasks t = some task)
    (hfinds : k.finds task (.ofCwd absolute) answer = true) :
    Lands T (k.stat task absolute answer) := by
  refine (startMount_ends h ht fun dfd hdfd => absurd hdfd ofCwd_ne_at).bind ?_
  rintro (_ | mnt) ⟨hstart, hlive⟩
  · exact h
  · have hopen := Books.does (r := []) h fun l hl => Objects.inodeOpen_does answer h.sound h.tidy hl
      (hlive mnt rfl) (valid_of_finds hfinds hstart)
    refine hopen.bind ?_
    rintro ⟨objects, _ | ⟨i, m⟩⟩ ⟨-, hbooks⟩
    · exact hbooks
    · have hhand := hbooks.perm (r := [.mount m, .inode i]) (.swap _ _ _)
      have hdestroy := Books.turned (r := [.mount m]) hhand fun l hl =>
        Objects.pathDestroy_does (some m) hhand.sound hhand.tidy hl
      refine hdestroy.bind fun objects' hdestroyed => ?_
      have hput := Books.turned (r := [.inode i]) hdestroyed.2 fun l hl =>
        Objects.put_does hdestroyed.2.sound hdestroyed.2.tidy hl
      exact hput.bind fun _ hdone => hdone.2

theorem chdir_lands (h : Books T k []) (ht : k.tasks t = some task) (hfiles : task.files.isSome)
    (hfinds : k.finds task (.ofCwd absolute) answer = true) :
    Lands T (k.chdir t task absolute answer opening) := by
  refine (filpOpenat_ends h ht (fun _ _ => hfiles) hfinds).bind ?_
  rintro ⟨objects, _ | f⟩ ⟨-, hbooks⟩
  · exact hbooks
  · rcases hcwd : task.cwd with _ | old
    · intro hT
      have hsome := (h.wired hT).files t task ht hfiles
      rw [hcwd] at hsome
      cases hsome
    · have hhand : Books T { k with objects := objects }
          (((some (FilePtr.file f)).bind FilePtr.obj).toList ++ []) := hbooks
      have ht' : Kernel.tasks { k with objects := objects } t = some task := ht
      have hset := hhand.setCwd ht' fun _ => ⟨by simp, fun _ => rfl⟩
      rw [hcwd] at hset
      refine (hset.closePtr fun hT heq => ?_).bind fun _ hclosed => hclosed.2
      exact (h.wired hT).cwd t task ht (hcwd.trans (congrArg some heq))

end Calls
end Opens
end Kernel
end Files
end JkxyKernel
