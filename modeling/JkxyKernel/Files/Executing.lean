import JkxyKernel.Files.Processes

/-!
# Calls that change the program, or the mounts

`execve` replaces the executable and closes descriptors.  The first program of a task opens "/",
and terminals for its descriptors; the results of these opens are stored without a check.
`mount_root_device` gives up when it cannot open its device.
-/

namespace JkxyKernel
namespace Files

open RefCount
open Objects (Answer Opening Mounting Does Holding Keeps fileHand)

namespace Objects

/-- Is there an inode behind the path? -/
def Answer.leads : Answer → Bool
  | .noMount | .fails _ _ => false
  | .link _ _ _ next => next.leads
  | .found _ _ => true

section Leading

variable {s : Objects} {mnt : Option MountId} {answer : Answer} {opening : Opening}

/-- By induction on what is behind the path. -/
theorem resolveMount_leads {r : Objects × Option (InodeId × MountId)} (hleads : answer.leads = true)
    (h : resolveMount answer s mnt = .ok r) : r.2.isSome := by
  induction answer generalizing s mnt with
  | noMount | fails => cases hleads
  | found m components =>
      obtain ⟨r', -, h⟩ := Machine.bind_eq_ok_iff.mp h
      cases h
      rfl
  | link m components absolute next ih =>
      obtain ⟨r', -, h⟩ := Machine.bind_eq_ok_iff.mp h
      obtain ⟨s₂, -, h⟩ := Machine.bind_eq_ok_iff.mp h
      obtain ⟨s₃, -, h⟩ := Machine.bind_eq_ok_iff.mp h
      obtain ⟨s₄, -, h⟩ := Machine.bind_eq_ok_iff.mp h
      exact ih hleads h

theorem filpOpenat_leads {r : Objects × Option FileId} (hleads : answer.leads = true)
    (hopen : opening.failed = false) (h : s.filpOpenat mnt answer opening = .ok r) :
    r.2.isSome := by
  obtain ⟨⟨s₁, found⟩, hinode, h⟩ := Machine.bind_eq_ok_iff.mp h
  obtain ⟨s₀, -, hresolve⟩ := Machine.bind_eq_ok_iff.mp hinode
  obtain ⟨⟨i, m⟩, rfl⟩ := Option.isSome_iff_exists.mp (resolveMount_leads hleads hresolve)
  simp only [hopen, Bool.false_eq_true, if_false] at h
  obtain ⟨r', -, h⟩ := Machine.bind_eq_ok_iff.mp h
  cases h
  rfl

theorem filpOpenDummy_leads {r : Objects × Option FileId} (hopen : opening.failed = false)
    (h : s.filpOpenDummy opening = .ok r) : r.2.isSome := by
  cases opening with
  | fails | refused => cases hopen
  | plain | tty x =>
      obtain ⟨r', -, h⟩ := Machine.bind_eq_ok_iff.mp h
      cases h
      rfl

end Leading
end Objects

/-- Do the opens of a program that starts succeed? -/
def Exec.Starts (task : TaskFiles) (exec : Exec) : Prop :=
  (task.cwd = none → exec.root.leads = true ∧ exec.rootOpening.failed = false) ∧
    (task.files = none → exec.fails = [] ∧ exec.tty.failed = false ∧
      (exec.linux = false → exec.tty'.failed = false))

instance (task : TaskFiles) (exec : Exec) : Decidable (exec.Starts task) :=
  inferInstanceAs (Decidable ((_ → _ ∧ _) ∧ (_ → _ ∧ _ ∧ (_ → _))))

namespace Kernel

section Executing

variable {T : Prop} {k : Kernel} {hand : List Obj} {t : TaskId} {task : TaskFiles} {tid : TableId}
  {table : Table} {exec : Exec} {opening : Opening}

theorem ofOpen_hand (f : Option FileId) : (FilePtr.ofOpen f).obj.toList = fileHand f := by
  cases f <;> rfl

theorem ofOpen_ne_err {f : Option FileId} (hf : f.isSome) : FilePtr.ofOpen f ≠ .err := by
  obtain ⟨f, rfl⟩ := Option.isSome_iff_exists.mp hf
  simp [FilePtr.ofOpen]

/-- `do_execve` opens "/" if the task has no working directory. -/
theorem enterRoot_ends (h : Books T k hand) (ht : k.tasks t = some task)
    (hroot : exec.root.valid k.objects.listed none = true) (hstarts : T → exec.Starts task) :
    Ends T (fun r => Books T r.1 hand ∧ r.1.tasks t = some r.2 ∧ r.2.cwd.isSome ∧
      r.2.files = task.files ∧ (T → r.2.cwd ≠ some .err)) (enterRoot k t task exec) := by
  cases hcwd : task.cwd with
  | some cwd =>
      simp only [enterRoot, hcwd]
      refine ⟨h, ht, ?_, rfl, fun hT => (h.wired hT).cwd t task ht⟩
      rw [hcwd]
      rfl
  | none =>
      have hopen : Ends T (fun r : Objects × Option FileId => (T → r.2.isSome) ∧
          Books T { k with objects := r.1 } (fileHand r.2 ++ hand))
          (k.filpOpenat task .absolute exec.root exec.rootOpening) := by
        have hlive : ∀ m, (none : Option MountId) = some m →
            ∃ n, k.objects.count (.mount m) = some n := by simp
        have hdoes := Books.does (r := []) h fun l hl =>
          Objects.filpOpenat_does exec.root exec.rootOpening h.sound h.tidy hl hlive hroot
        cases hcase : k.objects.filpOpenat none exec.root exec.rootOpening with
        | error e =>
            have hrun : k.filpOpenat task .absolute exec.root exec.rootOpening = .error e := hcase
            rw [hcase] at hdoes
            rw [hrun]
            exact hdoes
        | ok r =>
            have hrun : k.filpOpenat task .absolute exec.root exec.rootOpening = .ok r := hcase
            rw [hrun]
            refine ⟨fun hT => ?_, (hdoes.of_ok hcase).2⟩
            obtain ⟨hleads, hopened⟩ := (hstarts hT).1 hcwd
            exact Objects.filpOpenat_leads hleads hopened hcase
      simp only [enterRoot, hcwd]
      refine hopen.bind ?_
      rintro ⟨objects, f⟩ ⟨hsome, hbooks⟩
      have hhand : Books T { k with objects := objects }
          (((some (FilePtr.ofOpen f)).bind FilePtr.obj).toList ++ hand) := by
        rw [Option.bind_some, ofOpen_hand]
        exact hbooks
      have herr : T → some (FilePtr.ofOpen f) ≠ some .err := fun hT heq =>
        ofOpen_ne_err (hsome hT) (Option.some.inj heq)
      have ht' : Kernel.tasks { k with objects := objects } t = some task := ht
      have hset := hhand.setCwd ht' fun hT => ⟨herr hT, fun _ => rfl⟩
      rw [hcwd] at hset
      exact ⟨hset, Function.update_self t _ _, rfl, rfl, herr⟩

/-- The descriptors that are flagged are closed, by induction on the numbers. -/
theorem closeOnExec_ends (fds : List Nat) (h : Books T k hand) (ht : k.tasks t = some task)
    (hfiles : task.files = some tid) :
    Ends T (fun k' => Books T k' hand) (closeOnExec tid fds k) := by
  induction fds generalizing k with
  | nil => exact h
  | cons fd fds ih =>
      obtain ⟨table, htable, -⟩ := Books.tableOf h.tabled ht hfiles
      obtain ⟨hmem, hflags⟩ := h.tabled.unfreed tid table htable
      simp only [closeOnExec, htable]
      refine .known (lift_get hmem) (.known (lift_get hflags) ?_)
      cases hentry : table.files.lookup fd with
      | none => exact ih h ht
      | some ptr =>
          cases table.cloexec.lookup fd with
          | none => exact ih h ht
          | some flag =>
              refine (closeAt_ends h htable hentry).bind fun k' hclosed => ?_
              exact ih hclosed.1 (by rw [hclosed.2, ht])

/-- An open of a device. -/
theorem filpOpenDummy_ends (h : Books T k hand) (hopen : T → opening.failed = false) :
    Ends T (fun r => (T → r.2.isSome) ∧
      Books T { k with objects := r.1 } (fileHand r.2 ++ hand))
      (k.objects.filpOpenDummy opening) := by
  have hdoes := Books.does (r := []) h fun l hl =>
    Objects.filpOpenDummy_does opening h.sound h.tidy hl
  cases hcase : k.objects.filpOpenDummy opening with
  | error e =>
      rw [hcase] at hdoes
      exact hdoes
  | ok r =>
      exact ⟨fun hT => Objects.filpOpenDummy_leads (hopen hT) hcase, (hdoes.of_ok hcase).2⟩

/-- The descriptors of a new table are terminals. -/
theorem defaultFiles_ends (exec : Exec) (h : Books T k hand) (htable : k.tables tid = some .empty)
    (hcareful : T → exec.fails = [] ∧ exec.tty.failed = false ∧
      (exec.linux = false → exec.tty'.failed = false)) :
    Ends T (fun r => Books T (setTable { k with objects := r.1 } tid
      { Table.empty with files := r.2 }) hand) (k.defaultFiles exec) := by
  have hmemory : ∀ (fd : Nat) (ptr : FilePtr), fd < 2 ^ 29 →
      T → decide (fd ∉ exec.fails) = true ∧ ((some ptr).isSome → fd < 2 ^ 29) :=
    fun fd ptr hlt hT => ⟨by rw [(hcareful hT).1]; rfl, fun _ => hlt⟩
  have hempty : Table.empty.files.mem ≠ .freed := by decide
  have hflags : Table.empty.cloexec.mem ≠ .freed := by decide
  have hnone : ∀ fd, Table.empty.files.lookup fd = none := fun _ => rfl
  refine (filpOpenDummy_ends h fun hT => (hcareful hT).2.1).bind ?_
  rintro ⟨objects, f⟩ ⟨hsome, hbooks⟩
  rw [← ofOpen_hand] at hbooks
  have herr : T → FilePtr.ofOpen f ≠ .err := fun hT => ofOpen_ne_err (hsome hT)
  by_cases hlinux : exec.linux = true
  · simp only [hlinux, if_true]
    -- three descriptors for one file, which is counted twice more
    refine (arraySet_ends hempty (hmemory 0 _ (by decide))).bind ?_
    rintro ⟨_, files₁⟩ ⟨hstored₁, -⟩
    refine (arraySet_ends hstored₁.unfreed (hmemory 1 _ (by decide))).bind ?_
    rintro ⟨_, files₂⟩ ⟨hstored₂, -⟩
    refine (arraySet_ends hstored₂.unfreed (hmemory 2 _ (by decide))).bind ?_
    rintro ⟨_, files₃⟩ ⟨hstored₃, -⟩
    have hfree₁ : files₁.lookup 1 = none := (hstored₁.others 1 (by decide)).trans (hnone 1)
    have hfree₂ : files₂.lookup 2 = none := by
      rw [hstored₂.others 2 (by decide), hstored₁.others 2 (by decide)]
      exact hnone 2
    cases f with
    | none => exact fun hT => herr hT rfl
    | some f =>
        obtain ⟨n, hn⟩ := hbooks.live_of_mem (o := .file f) List.mem_cons_self
        have hlive : T → ∃ f' n, FilePtr.file f = .file f' ∧ objects.count (.file f') = some n :=
          fun _ => ⟨f, n, rfl, hn⟩
        have hget := hbooks.getLive hlive
        refine .known rfl (hget.bind fun objects₁ hgot₁ => ?_)
        obtain ⟨n₁, hn₁⟩ := hgot₁.2.live_of_mem (o := .file f) List.mem_cons_self
        have hlive₁ : T → ∃ f' n, FilePtr.file f = .file f' ∧ objects₁.count (.file f') = some n :=
          fun _ => ⟨f, n₁, rfl, hn₁⟩
        have hget₁ := hgot₁.2.getLive hlive₁
        refine hget₁.bind fun objects₂ hgot₂ => ?_
        have hset₁ := Books.setFree (k := { k with objects := objects₂ }) htable (hnone 0) hstored₁
          hflags herr hgot₂.2
        have hset₂ := hset₁.setFree (Function.update_self tid _ _) hfree₁ hstored₂ hflags herr
        have hset₃ := hset₂.setFree (Function.update_self tid _ _) hfree₂ hstored₃ hflags herr
        rw [setTable_setTable, setTable_setTable] at hset₃
        exact hset₃
  · simp only [hlinux, Bool.false_eq_true, if_false]
    refine (arraySet_ends hempty (hmemory 0 _ (by decide))).bind ?_
    rintro ⟨_, files₁⟩ ⟨hstored₁, -⟩
    have hset₁ := Books.setFree (k := { k with objects := objects }) htable (hnone 0) hstored₁
      hflags herr hbooks
    have hfree₁ : files₁.lookup 1 = none := (hstored₁.others 1 (by decide)).trans (hnone 1)
    refine (filpOpenDummy_ends hset₁ fun hT =>
      (hcareful hT).2.2 (Bool.eq_false_iff.mpr hlinux)).bind ?_
    rintro ⟨objects', f'⟩ ⟨hsome', hbooks'⟩
    rw [← ofOpen_hand] at hbooks'
    refine (arraySet_ends hstored₁.unfreed (hmemory 1 _ (by decide))).bind ?_
    rintro ⟨_, files₂⟩ ⟨hstored₂, -⟩
    have hset₂ := Books.setFree (Function.update_self tid _ _) hfree₁ hstored₂ hflags
      (fun hT => ofOpen_ne_err (hsome' hT)) hbooks'
    simp only [setTable, Function.update_idem] at hset₂
    exact hset₂

/-- Behind the point of no return. -/
theorem replaceFiles_lands {exe : FileId} (h : Books T k [.file exe]) (ht : k.tasks t = some task)
    (hcwd : task.cwd.isSome) (hcareful : T → task.files = none →
      exec.fails = [] ∧ exec.tty.failed = false ∧
        (exec.linux = false → exec.tty'.failed = false)) :
    Lands T (k.replaceFiles t task exe exec) := by
  have hhand : Books T k (((some exe).map Obj.file).toList ++ []) := h
  have hset := hhand.setExe ht
  rw [← exe_hand] at hset
  refine (hset.closeOpt fun _ => exe_ne_err _).bind fun objects hclosed => ?_
  have ht' : Kernel.tasks { k.setTask t { task with exe := some exe } with objects := objects } t =
      some { task with exe := some exe } := Function.update_self t _ _
  dsimp only
  split
  next tid hfiles =>
    obtain ⟨table, htable, -⟩ := Books.tableOf h.tabled ht hfiles
    have htable' : (k.setTask t { task with exe := some exe }).tables tid = some table := htable
    simp only [htable']
    exact closeOnExec_ends _ hclosed.2 ht' hfiles
  next hfiles =>
    have hnew := hclosed.2.newTable ht' hfiles fun _ => hcwd
    have hdefault := defaultFiles_ends exec hnew (Function.update_self _ _ _)
      fun hT => hcareful hT hfiles
    refine Ends.bind hdefault ?_
    rintro ⟨objects', files⟩ hbooks
    simp only [Kernel.link, setTask, setTable, Function.update_idem] at hbooks
    simp only [setTask, setTable, Function.update_idem]
    exact hbooks

/-- The executable is closed, or replaces the one of the task. -/
theorem execve_lands (h : Books T k []) (ht : k.tasks t = some task)
    (hfinds : k.finds task (.ofCwd exec.absolute) exec.answer = true)
    (hroot : exec.root.valid k.objects.listed none = true) (hstarts : T → exec.Starts task) :
    Lands T (k.execve t task exec) := by
  refine (filpOpenat_ends h ht (fun dfd hdfd => absurd hdfd ofCwd_ne_at) hfinds).bind ?_
  rintro ⟨objects, _ | exe⟩ ⟨hkeeps, hbooks⟩
  · exact hbooks
  · have hhand : Books T { k with objects := objects } [.file exe] := hbooks
    cases haccepted : exec.accepted with
    | false =>
        simp only [Bool.false_eq_true, if_false]
        exact hhand.filpClose.bind fun _ hclosed => hclosed.2
    | true =>
        simp only [if_true]
        have hroot' : exec.root.valid objects.listed none = true := by rw [hkeeps.listed, hroot]
        have ht' : Kernel.tasks { k with objects := objects } t = some task := ht
        have henter := enterRoot_ends hhand ht' hroot' hstarts
        refine henter.bind ?_
        rintro ⟨k₁, task₁⟩ ⟨hbooks₁, ht₁, hcwd, hfiles, herr⟩
        by_cases hlost : task₁.cwd = some .err
        · simp only [hlost, if_true]
          exact (Books.filpClose hbooks₁).bind fun _ hclosed => hclosed.2
        · simp only [hlost, if_false]
          refine replaceFiles_lands hbooks₁ ht₁ hcwd fun hT hnone => (hstarts hT).2 ?_
          rw [← hfiles, hnone]

/-! ### Mounts and terminals -/

/-- The device is closed once the mount refers to it. -/
theorem mount_lands {op : Vfs.FsType} {mnt : Option MountId} {mounting : Mounting}
    (h : Books T k []) (hmnt : mnt.all k.objects.listed = true)
    (hcareful : T → opening.failed = false ∧ (mounting = .abandoned → op ≠ .ece391fs)) :
    Lands T (k.mount opening op mnt mounting) := by
  have hdoes := Books.does (r := []) h fun l hl =>
    Objects.filpOpenDummy_does opening h.sound h.tidy hl
  rw [mount]
  cases hcase : k.objects.filpOpenDummy opening with
  | error e =>
      rw [hcase] at hdoes
      exact hdoes
  | ok r =>
      obtain ⟨objects, dev⟩ := r
      obtain ⟨hkeeps, hbooks⟩ := hdoes.of_ok hcase
      cases dev with
      | none =>
          intro hT
          cases Objects.filpOpenDummy_leads (hcareful hT).1 hcase
      | some dev =>
          have hsettles := Books.settles (r := []) hbooks fun l hl => by
            have hlisted : ∀ m, mnt = some m → objects.listed m = true := by
              rintro m rfl
              rw [hkeeps.listed]
              exact hmnt
            exact Objects.doMount_settles hbooks.sound hbooks.tidy hl
              (hbooks.live_of_mem List.mem_cons_self) hlisted fun hT => (hcareful hT).2
          exact hsettles.bind fun objects' hsettled =>
            (Books.filpClose hsettled).bind fun _ hclosed => hclosed.2

theorem umount_lands {m : MountId} (h : Books T k []) (hlisted : k.objects.listed m = true)
    (hop : T → ∀ mount, k.objects.mounts m = some mount → mount.op ≠ .ece391fs) :
    Lands T (k.umount m) := by
  have hsettles := Books.settles (r := []) h fun l hl =>
    Objects.doUmount_settles h.sound h.tidy hl hlisted hop
  exact hsettles.bind fun _ hdone => hdone

/-- Another terminal: what was there is in hand. -/
theorem Books.setConsole {i : Nat} {tty : Option TtyId}
    (h : Books T k ((tty.map Obj.tty).toList ++ hand)) :
    Books T { k with consoles := Function.update k.consoles i tty }
      (((k.consoles i).map Obj.tty).toList ++ hand) := by
  have hold : ((k.consoles i).map Obj.tty).toList = [Slot.console i].filterMap k.slots := by
    rw [filterMap_singleton, slots]
  have hnew : Kernel.slots { k with consoles := Function.update k.consoles i tty } (.console i) =
      tty.map Obj.tty := by
    simp only [slots, Function.update_self]
  rw [hold]
  refine Books.relink (k := k) rfl (List.nodup_singleton _) (fun slot hslot => ?_)
    ⟨h.tabled.counted, h.tabled.positive, h.tabled.unfreed, h.tabled.freshTable, h.tabled.freshTask⟩
    (fun hT => ⟨(h.wired hT).cwd, (h.wired hT).files, (h.wired hT).tables⟩) ?_
  · cases slot with
    | console i' =>
        have hne : i' ≠ i := fun heq => hslot (by rw [heq]; exact List.mem_singleton_self _)
        simp only [slots, Function.update_of_ne hne]
    | cwd | exe | poll | fd => rfl
  · rw [filterMap_singleton, hnew]
    exact h

theorem attach_lands {i : Nat} {x : TtyId} (h : Books T k []) (hfree : k.consoles i = none) :
    Lands T (k.attach i x) := by
  have hdoes := Books.does (r := []) h fun l hl =>
    Objects.openVendor_does (.tty x) h.sound hl
  refine hdoes.bind ?_
  rintro ⟨objects, tty⟩ ⟨-, hbooks⟩
  have hset := Books.setConsole (i := i) hbooks
  rw [show Kernel.consoles { k with objects := objects } i = none from hfree] at hset
  exact hset

theorem detach_lands {i : Nat} (h : Books T k []) : Lands T (k.detach i) := by
  have hhand : Books T k (((none : Option TtyId).map Obj.tty).toList ++ []) := h
  have hset := Books.setConsole (i := i) hhand
  rw [detach]
  cases hi : k.consoles i with
  | none =>
      rw [hi] at hset
      exact hset
  | some x =>
      rw [hi] at hset
      have hput := Books.turned (r := [.tty x]) hset fun l hl =>
        Objects.put_does hset.sound hset.tidy hl
      exact hput.bind fun _ hdone => hdone.2

end Executing
end Kernel
end Files
end JkxyKernel
