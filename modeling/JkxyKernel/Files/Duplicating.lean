import JkxyKernel.Files.Opening

/-!
# Calls on descriptors

A descriptor is closed, or refers to a file that another one refers to.  `dup2` closes what its
target refers to before it counts the file that it copies: if both are the same descriptor, the
file has to be referred to elsewhere.
-/

namespace JkxyKernel
namespace Files

open Objects (Does Holding Keeps)

namespace Kernel

section Descriptors

variable {T : Prop} {k : Kernel} {hand : List Obj} {t : TaskId} {task : TaskFiles} {tid : TableId}
  {table : Table} {fails : List Nat} {fd : Nat} {f : FileId}

/-- A descriptor is closed. -/
theorem closeAt_ends {ptr : FilePtr} (h : Books T k hand) (htable : k.tables tid = some table)
    (hentry : table.files.lookup fd = some ptr) :
    Ends T (fun k' => Books T k' hand ∧ k'.tasks = k.tasks) (k.closeAt tid table fd ptr) := by
  obtain ⟨hmem, hflags⟩ := h.tabled.unfreed tid table htable
  obtain ⟨files, hfiles, hstored⟩ := set_none_ok (T := T) hmem fd
  obtain ⟨flags, hset, hstored'⟩ := set_none_ok (T := T) hflags fd
  have hhand : Books T k (((none : Option FilePtr).bind FilePtr.obj).toList ++ hand) := h
  have hbooks := hhand.setEntry htable hstored hstored'.unfreed fun _ => by simp
  rw [hentry] at hbooks
  have hclose := hbooks.closePtr fun hT heq =>
    (h.wired hT).tables tid table fd htable (hentry.trans (congrArg some heq))
  exact hclose.bind fun _ hclosed => .known hfiles (.known hset ⟨hclosed.2, rfl⟩)

theorem close_lands (h : Books T k []) (ht : k.tasks t = some task) (hfiles : task.files.isSome) :
    Lands T (k.close task fd) := by
  obtain ⟨tid, hfiles⟩ := Option.isSome_iff_exists.mp hfiles
  obtain ⟨table, htable, hof⟩ := Books.tableOf h.tabled ht hfiles
  refine .known hof (.known (lift_get (h.tabled.unfreed tid table htable).1) ?_)
  cases hentry : table.files.lookup fd with
  | none => exact h
  | some ptr => exact (closeAt_ends h htable hentry).mono fun _ hclosed => hclosed.1

/-- What a descriptor of a task refers to. -/
def fileAt (k : Kernel) (task : TaskFiles) (fd : Nat) : Option FilePtr :=
  (task.files.bind k.tables).bind fun table => table.files.lookup fd

/-- What is closed first is in hand; if it is the file itself, it has to be counted twice. -/
theorem dup2_lands {oldfd newfd : Nat} {memory : Bool} (h : Books T k [])
    (ht : k.tasks t = some task) (hfiles : task.files.isSome)
    (hcareful : T → memory = true ∧ newfd < 2 ^ 29 ∧ (oldfd = newfd →
      ∀ o ∈ (k.fileAt task oldfd).bind FilePtr.obj, 2 ≤ k.objects.rc o)) :
    Lands T (k.dup2 task oldfd newfd memory) := by
  obtain ⟨tid, hfiles⟩ := Option.isSome_iff_exists.mp hfiles
  obtain ⟨table, htable, hof⟩ := Books.tableOf h.tabled ht hfiles
  obtain ⟨hmem, hflags⟩ := h.tabled.unfreed tid table htable
  refine .known hof (.known (lift_get hmem) ?_)
  cases hold : table.files.lookup oldfd with
  | none => exact h
  | some ptr =>
      have hat : k.fileAt task oldfd = some ptr := by
        rw [fileAt, hfiles, Option.bind_some, htable, Option.bind_some, hold]
      have herr : T → ptr ≠ .err := by
        rintro hT rfl
        exact (h.wired hT).tables tid table oldfd htable hold
      refine .known (lift_get hmem) ?_
      -- the new descriptor is free while its file is closed
      obtain ⟨files₁, hset₁, hstored₁⟩ := set_none_ok (T := T) hmem newfd
      have hhand : Books T k (((none : Option FilePtr).bind FilePtr.obj).toList ++ []) := h
      have hbooks₁ := hhand.setEntry htable hstored₁ hflags fun _ => by simp
      have hclose := hbooks₁.closeOpt fun hT =>
        (h.wired hT).tables tid table newfd htable
      cases hclosed : closeOpt k.objects (table.files.lookup newfd) with
      | error e =>
          have hend : Turned T _ [] (Except.error e) := hclosed ▸ hclose
          exact hend
      | ok objects =>
          have hbooks₂ := (hclose.of_ok hclosed).2
          have hlive : T → ∃ f n, ptr = .file f ∧ objects.count (.file f) = some n := by
            intro hT
            rcases ptr with f | _
            · by_cases heq : oldfd = newfd
              · have htwo := (hcareful hT).2.2 heq (.file f) (by rw [hat]; rfl)
                have hpos : 0 < k.objects.rc (.file f) := by omega
                obtain ⟨n, hn⟩ := Holding.live_of_rc hpos
                rw [Objects.rc_of_count hn] at htwo
                rw [← heq, hold] at hclosed
                have hput : k.objects.put (.file f) = .ok objects := hclosed
                rw [Objects.put_of_two_le hn htwo] at hput
                cases hput
                refine ⟨f, n - 1, rfl, ?_⟩
                rw [Objects.count_setCount, if_pos rfl, Objects.count_look, hn, Option.map_some]
              · obtain ⟨n, hn⟩ := hbooks₂.live_of_slot (lookup_slot (Function.update_self tid _ _)
                  ((hstored₁.others oldfd heq).trans hold))
                exact ⟨f, n, rfl, hn⟩
            · exact absurd rfl (herr hT)
          refine (arraySet_ends hmem fun hT =>
            ⟨(hcareful hT).1, fun _ => (hcareful hT).2.1⟩).bind ?_
          rintro ⟨_, files⟩ ⟨hstored, -⟩
          refine (hbooks₂.getLive hlive).bind fun objects' hgot => .known (lift_get hflags) ?_
          refine (arraySet_ends hflags fun hT =>
            ⟨(hcareful hT).1, fun _ => (hcareful hT).2.1⟩).bind ?_
          rintro ⟨_, flags⟩ ⟨hstored', -⟩
          have hnone : files₁.lookup newfd = none := hstored₁.entry.elim id And.right
          have hdone := Books.setFree (Function.update_self tid _ _) hnone (hstored₁.over hstored)
            hstored'.unfreed herr hgot.2
          simp only [setTable, Function.update_idem] at hdone
          exact hdone

/-- `F_DUPFD` and `F_DUPFD_CLOEXEC` -/
theorem dupfd_lands {arg : Nat} {cloexec : Bool} (h : Books T k []) (ht : k.tasks t = some task)
    (hfiles : task.files.isSome) (hcareful : T → (fails = [] ∧ arg < 2 ^ 29) ∧ k.Roomy task) :
    Lands T (k.dupfd task fd arg cloexec fails) := by
  obtain ⟨tid, hfiles⟩ := Option.isSome_iff_exists.mp hfiles
  obtain ⟨table, htable, hof⟩ := Books.tableOf h.tabled ht hfiles
  obtain ⟨hmem, hflags⟩ := h.tabled.unfreed tid table htable
  refine .known hof (.known (lift_get hmem) ?_)
  cases hold : table.files.lookup fd with
  | none => exact h
  | some ptr =>
      have herr : T → ptr ≠ .err := by
        rintro hT rfl
        exact (h.wired hT).tables tid table fd htable hold
      have hslot : k.slots (.fd tid fd) = ptr.obj := by
        rw [slots, htable, Option.bind_some, hold, Option.bind_some]
      refine (placeFrom_ends hmem fun hT => ⟨(hcareful hT).1.1,
        ((hcareful hT).2.sizes hfiles htable).1, (hcareful hT).1.2⟩).bind ?_
      rintro ⟨newfd, files⟩ ⟨hfree, hstored, hlt⟩
      refine (h.getPtr hslot herr).bind fun objects hgot => ?_
      have hflag : Ends T (fun _ => True) (dupFlag table fd cloexec) := by
        rw [dupFlag, lift_get hflags]
        split <;> exact trivial
      refine hflag.bind fun flag _ => (arraySet_ends hflags fun hT =>
        ⟨by rw [(hcareful hT).1.1]; rfl, fun _ => hlt hT⟩).bind ?_
      rintro ⟨_, flags⟩ ⟨hstored', -⟩
      exact Books.setFree (k := { k with objects := objects }) htable hfree hstored
        hstored'.unfreed herr hgot.2

/-! ### Polls and reads -/

/-- Every file of a poll table is counted, by induction on the descriptors. -/
theorem pollFiles_ends (fds : List Nat) (h : Books T k hand) (htable : k.tables tid = some table) :
    Ends T (fun r => Keeps k.objects r.1 ∧
      Books T { k with objects := r.1 } (r.2.map Obj.file ++ hand))
      (pollFiles table.files fds k.objects) := by
  obtain ⟨hmem, -⟩ := h.tabled.unfreed tid table htable
  induction fds generalizing k hand with
  | nil => exact ⟨.refl _, h⟩
  | cons fd fds ih =>
      refine .known (lift_get hmem) ?_
      rcases hentry : table.files.lookup fd with _ | f | _
      · exact ih h htable
      · obtain ⟨n, hn⟩ := h.live_of_slot (lookup_slot htable hentry)
        have hget : Turned T k ([Obj.file f] ++ hand) (k.objects.get (.file f)) :=
          Books.turned (r := []) h fun _ hl => Objects.get_does h.sound hl hn
        refine .known rfl (hget.bind fun objects hgot => ?_)
        refine (ih hgot.2 htable).bind ?_
        rintro ⟨objects', pollTable⟩ ⟨hkeeps, hbooks⟩
        exact ⟨hgot.1.trans hkeeps, hbooks.perm (List.perm_append_comm_assoc _ [Obj.file f] _)⟩
      · exact fun hT => (h.wired hT).tables tid table fd htable hentry

/-- Files are closed, by induction on their list. -/
theorem closeAll_turned (files : List FileId) (h : Books T k (files.map Obj.file ++ hand)) :
    Turned T k hand (closeAll k.objects files) := by
  induction files generalizing k with
  | nil => exact ⟨.refl _, h⟩
  | cons f files ih =>
      refine (Books.filpClose h).bind fun objects hclosed => ?_
      exact (ih hclosed.2).mono fun _ hdone => ⟨hclosed.1.trans hdone.1, hdone.2⟩

/-- What stands at the places of a list, by induction on the list. -/
theorem filterMap_range {α β : Type} (g : α → β) (l : List α) {n : Nat} (hn : l.length ≤ n) :
    (List.range n).filterMap (fun i => l[i]?.map g) = l.map g := by
  induction l generalizing n with
  | nil => simp
  | cons a l ih =>
      obtain ⟨n, rfl⟩ : ∃ n', n = n' + 1 := ⟨n - 1, by rw [List.length_cons] at hn; omega⟩
      have htail := ih (Nat.le_of_succ_le_succ hn)
      rw [List.range_succ_eq_map, List.filterMap_cons, List.filterMap_map, List.map_cons]
      simp only [List.getElem?_cons_zero, Option.map_some]
      exact congrArg _ htail

/-- Another poll table. -/
theorem Books.setPoll {new : Option (List FileId)} (ht : k.tasks t = some task)
    (h : Books T k ((new.getD []).map Obj.file ++ hand)) :
    Books T (k.setTask t { task with poll := new })
      ((task.poll.getD []).map Obj.file ++ hand) := by
  have hslots : ∀ (k' : Kernel) (task' : TaskFiles) (n : Nat), k'.tasks t = some task' →
      (task'.poll.getD []).length ≤ n → ((List.range n).map (Slot.poll t)).filterMap k'.slots =
        (task'.poll.getD []).map Obj.file := by
    intro k' task' n ht' hn
    have hcomp : k'.slots ∘ Slot.poll t = fun i => (task'.poll.getD [])[i]?.map Obj.file := by
      funext i
      simp only [Function.comp_apply, slots, ht', Option.bind_some]
    rw [List.filterMap_map, hcomp]
    exact filterMap_range Obj.file _ hn
  have hold := hslots k task (max (task.poll.getD []).length (new.getD []).length) ht
    (Nat.le_max_left _ _)
  have hnew := hslots (k.setTask t { task with poll := new }) { task with poll := new }
    (max (task.poll.getD []).length (new.getD []).length) (Function.update_self t _ _)
    (Nat.le_max_right _ _)
  rw [← hold]
  refine Books.relink rfl (List.nodup_range.map fun _ _ heq => (Slot.poll.inj heq).2)
    (fun slot hslot => ?_) (setTask_tabled h.tabled ht rfl)
    (fun hT => setTask_wired (h.wired hT) ((h.wired hT).cwd t task ht)
      ((h.wired hT).files t task ht)) (by rw [hnew]; exact h)
  cases slot with
  | poll t' i =>
      by_cases heq : t' = t
      · subst heq
        have hi : max (task.poll.getD []).length (new.getD []).length ≤ i := by
          by_contra hlt
          exact hslot (List.mem_map_of_mem (List.mem_range.mpr (Nat.lt_of_not_le hlt)))
        simp only [slots, Kernel.setTask, Function.update_self, ht, Option.bind_some]
        rw [List.getElem?_eq_none (Nat.le_trans (Nat.le_max_left _ _) hi),
          List.getElem?_eq_none (Nat.le_trans (Nat.le_max_right _ _) hi)]
      · simp only [slots, Kernel.setTask, Function.update_of_ne heq]
  | cwd t' | exe t' =>
      simp only [slots, Kernel.setTask, Function.update_apply]
      split
      next heq => rw [heq, ht, Option.bind_some, Option.bind_some]
      next => rfl
  | fd | console => rfl

theorem poll_lands {fds : List Nat} {timer : Bool} (h : Books T k []) (ht : k.tasks t = some task)
    (hfiles : task.files.isSome) (hpoll : task.poll = none) (hcareful : T → timer = true) :
    Lands T (k.poll t task fds timer) := by
  obtain ⟨tid, hfiles⟩ := Option.isSome_iff_exists.mp hfiles
  obtain ⟨table, htable, hof⟩ := Books.tableOf h.tabled ht hfiles
  refine .known hof ((pollFiles_ends fds h htable).bind ?_)
  rintro ⟨objects, pollTable⟩ ⟨-, hbooks⟩
  cases timer with
  | false =>
      have hT : ¬T := fun hT => Bool.false_ne_true (hcareful hT)
      exact Books.forget (r := pollTable.map Obj.file) hbooks fun h => absurd h hT
  | true =>
      have ht' : Kernel.tasks { k with objects := objects } t = some task := ht
      have hhand : Books T { k with objects := objects }
          (((some pollTable).getD []).map Obj.file ++ []) := hbooks
      have hdone := hhand.setPoll ht'
      rw [hpoll] at hdone
      exact hdone

theorem pollEnd_lands (h : Books T k []) (ht : k.tasks t = some task) :
    Lands T (k.pollEnd t task) := by
  have hhand : Books T k (((none : Option (List FileId)).getD []).map Obj.file ++ []) := h
  exact (closeAll_turned _ (hhand.setPoll ht)).bind fun objects hclosed => hclosed.2

/-- A read refers to its file without counting it. -/
theorem Books.setReading {reading : Option FileId} (ht : k.tasks t = some task)
    (h : Books T k hand) : Books T (k.setTask t { task with reading := reading }) hand := by
  have hsame : ∀ slot,
      (k.setTask t { task with reading := reading }).slots slot = k.slots slot := by
    intro slot
    cases slot with
    | cwd t' | exe t' | poll t' i =>
        simp only [slots, Kernel.setTask, Function.update_apply]
        split
        next heq => rw [heq, ht, Option.bind_some, Option.bind_some]
        next => rfl
    | fd | console => rfl
  have hdone : Books T (k.setTask t { task with reading := reading })
      (([] : List Slot).filterMap k.slots ++ hand) :=
    Books.relink (k := k) rfl List.nodup_nil (fun slot _ => hsame slot)
      (setTask_tabled h.tabled ht rfl) (fun hT => setTask_wired (h.wired hT)
        ((h.wired hT).cwd t task ht) ((h.wired hT).files t task ht)) h
  exact hdone

theorem read_lands (h : Books T k []) (ht : k.tasks t = some task) (hfiles : task.files.isSome) :
    Lands T (k.read t task fd) := by
  obtain ⟨tid, hfiles⟩ := Option.isSome_iff_exists.mp hfiles
  obtain ⟨table, htable, hof⟩ := Books.tableOf h.tabled ht hfiles
  refine .known hof (.known (lift_get (h.tabled.unfreed tid table htable).1) ?_)
  rcases hentry : table.files.lookup fd with _ | f | _
  · exact h
  · obtain ⟨n, hn⟩ := h.live_of_slot (lookup_slot htable hentry)
    obtain ⟨file, hfile, -⟩ := Option.map_eq_some_iff.mp hn
    refine .known rfl ?_
    simp only [hfile]
    exact h.setReading ht
  · exact fun hT => (h.wired hT).tables tid table fd htable hentry

/-- The file of the read has to be there when the read wakes up; its terminal is there then. -/
theorem readEnd_lands (h : Books T k []) (ht : k.tasks t = some task)
    (hcareful : T → ∀ f, task.reading = some f → (k.objects.files f).isSome)
    (hreading : task.reading.isSome) : Lands T (k.readEnd t task) := by
  obtain ⟨f, hf⟩ := Option.isSome_iff_exists.mp hreading
  rw [readEnd, hf, Option.bind_some]
  cases hfile : k.objects.files f with
  | none =>
      intro hT
      have hsome := hcareful hT f hf
      rw [hfile] at hsome
      cases hsome
  | some file =>
      cases htty : file.tty with
      | none =>
          simp only [htty]
          exact h.setReading ht
      | some x =>
          obtain ⟨leaks, hholding, -⟩ := h.holding
          obtain ⟨n, hn⟩ := hholding.live_of_own (k := .vendor f) (o := .tty x)
            (by simp only [Objects.own, hfile, Option.bind_some, htty, Option.map_some])
          have hx : k.objects.ttys x = some n := hn
          simp only [htty, hx]
          exact h.setReading ht

end Descriptors
end Kernel
end Files
end JkxyKernel
