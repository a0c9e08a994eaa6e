import JkxyKernel.Lib.Borrowed
import JkxyKernel.Vfs.Opens

/-!
# Borrowed mounts and inodes

What the operations on paths and on inodes borrow and give back, in counts that need not be
right: `PathState.Lends s₀ s l` says that the mounts are those of `s₀`, and the references
`l` have been taken.  As long as a mount that was alive in `s₀` is lent, giving a reference
back does not free it.  `InodeTable.Lends` is the same for inodes; new inodes are allocated
as long as they are held.

The paths that the operations make depend on the memory only, and are named here:
`cloneMem` and `joinMem` of two paths, and `MountTable.checkmntLoop`.
-/

namespace JkxyKernel
namespace Vfs

namespace Path

/-- The path that `path_join` makes new, if there is the memory for it. -/
def joinNewMem (x y : Path) (mem : Alloc) : Option Path :=
  if !mem.path then none
  else
    match extendMem { x with components := [] } (x.components ++ y.components)
      mem.components with
    | (path, true) => some path
    | (_, false) => none

/-- What `path_clone` makes. -/
def cloneMem (old : Path) (mem : Alloc) : Option Path :=
  if !mem.empty then none else old.joinNewMem .empty mem

/-- What `path_join` makes. -/
def joinMem (x y : Path) (mem : Alloc) : Option Path :=
  if y.mnt.isSome then none
  else if y.absolute then y.cloneMem mem
  else x.joinNewMem y mem

theorem mnt_cloneMem {old path : Path} {mem : Alloc} (h : old.cloneMem mem = some path) :
    path.mnt = old.mnt := by
  simp only [cloneMem, joinNewMem] at h
  split at h
  next => cases h
  next =>
    split at h
    next => cases h
    next =>
      have hmnt := PathState.mnt_extendMem (old.components ++ empty.components) mem.components
        { old with components := [] }
      split at h
      next path' heq =>
        cases h
        rwa [heq] at hmnt
      next => cases h

theorem normal_extendMem {path : Path} (h : path.Normal) (components : List (List Char))
    (mem : List Mem) : (path.extendMem components mem).1.Normal := by
  induction components generalizing path mem with
  | nil => exact h
  | cons component rest ih =>
      simp only [extendMem]
      split
      next => exact h
      next => exact ih h mem.tail
      next => exact ih (h.addComponent component) mem.tail

end Path

/-! ### Mounts -/

namespace PathState

/-- The mount has references, and is not freed. -/
def Live (s : PathState) (m : Nat) : Prop :=
  0 < (s.cells m).refcount ∧ (s.cells m).freed = false

/-- The mounts are those of `s₀`, and the references in `l` are taken. -/
structure Lends (s₀ s : PathState) (l : List Nat) : Prop where
  counts : Borrowed (fun m => (s₀.cells m).refcount) (fun m => (s.cells m).refcount) l
  freed : ∀ m, (s.cells m).freed = (s₀.cells m).freed
  same : Same s₀ s
  live : ∀ m ∈ l, s₀.Live m

section Lent

variable {s₀ s : PathState} {l l' : List Nat} {m : Nat}

theorem Lends.refl (s : PathState) : Lends s s [] :=
  ⟨.refl _, fun _ => rfl, .refl s, nofun⟩

theorem Lends.perm (h : Lends s₀ s l) (hl : l.Perm l') : Lends s₀ s l' :=
  ⟨h.counts.perm hl, h.freed, h.same, fun m hm => h.live m (hl.mem_iff.mpr hm)⟩

theorem setCount_refcounts (s : PathState) (m : Nat) (n : Int) :
    (fun m' => ((s.setCount m n).cells m').refcount) =
      Function.update (fun m' => (s.cells m').refcount) m n := by
  funext m'
  rw [setCount_refcount, Function.update_apply]

theorem Lends.not_freed (h : Lends s₀ s l) (hlive : s₀.Live m) :
    ¬ (s.cells m).freed = true :=
  ne_true_of_eq_false ((h.freed m).trans hlive.2)

/-- A path takes a reference to a mount that is alive. -/
theorem takeMount_lends
    (h : Lends s₀ s l) (mnt : Option Nat) (hlive : ∀ m, mnt = some m → s₀.Live m) :
    ∃ s', s.takeMount mnt = .ok s' ∧ Lends s₀ s' (mnt.toList ++ l) := by
  cases mnt with
  | none => exact ⟨s, rfl, h⟩
  | some m =>
      have hm := hlive m rfl
      have hfreed := h.not_freed hm
      refine ⟨_, if_neg hfreed, ?_, fun m' => ?_, h.same.trans same_setCount, ?_⟩
      · rw [setCount_refcounts]
        exact h.counts.take m
      · rw [setCount_freed, h.freed m']
      · intro m' hm'
        rcases List.mem_cons.mp hm' with rfl | hm'
        · exact hm
        · exact h.live m' hm'

/-- A lent mount that gets a reference back keeps those it had. -/
theorem dropMount_lends {mnt : Option Nat} (h : Lends s₀ s (mnt.toList ++ l)) :
    ∃ s', s.dropMount mnt = .ok s' ∧ Lends s₀ s' l := by
  cases mnt with
  | none => exact ⟨s, rfl, h⟩
  | some m =>
      have hm := h.live m List.mem_cons_self
      have hfreed := h.not_freed hm
      have hmore : (s.cells m).refcount - 1 ≠ 0 := by
        have := h.counts.lt List.mem_cons_self
        have := hm.1
        omega
      refine ⟨s.setCount m ((s.cells m).refcount - 1), ?_, ?_, fun m' => ?_,
        h.same.trans same_setCount, ?_⟩
      · simp only [dropMount, putMount, if_neg hfreed, if_pos hmore]
      · rw [setCount_refcounts]
        exact h.counts.give
      · rw [setCount_freed, h.freed m']
      · exact fun m' hm' => h.live m' (List.mem_cons_of_mem m hm')

/-- `path_join` once a new path is to be made. -/
theorem joinNew_lends
    {x : Path} (h : Lends s₀ s l) (y : Path) (mem : Alloc)
    (hx : ∀ m, x.mnt = some m → s₀.Live m) :
    ∃ s', s.joinNew x y mem = .ok (s', x.joinNewMem y mem) ∧
      Lends s₀ s' (((x.joinNewMem y mem).bind Path.mnt).toList ++ l) := by
  simp only [joinNew, Path.joinNewMem]
  cases mem.path with
  | false => exact ⟨s, rfl, h⟩
  | true =>
      obtain ⟨s₁, hs₁, h₁⟩ := takeMount_lends h x.mnt hx
      have hmnt := PathState.mnt_extendMem (x.components ++ y.components) mem.components
        { x with components := [] }
      simp only [Bool.not_true, Bool.false_eq_true, if_false, hs₁, bind, Except.bind]
      rcases heq : Path.extendMem { x with components := [] } (x.components ++ y.components)
        mem.components with ⟨path, _ | _⟩
      · rw [heq] at hmnt
        rw [← show path.mnt = x.mnt from hmnt] at h₁
        obtain ⟨s₂, hs₂, h₂⟩ := dropMount_lends h₁
        exact ⟨s₂, by simp only [hs₂], h₂⟩
      · rw [heq] at hmnt
        rw [← show path.mnt = x.mnt from hmnt] at h₁
        exact ⟨s₁, rfl, h₁⟩

theorem clone_lends
    {old : Path} (h : Lends s₀ s l) (mem : Alloc)
    (hold : ∀ m, old.mnt = some m → s₀.Live m) :
    ∃ s', s.clone old mem = .ok (s', old.cloneMem mem) ∧
      Lends s₀ s' (((old.cloneMem mem).bind Path.mnt).toList ++ l) := by
  simp only [clone, Path.cloneMem]
  split
  next => exact ⟨s, rfl, h⟩
  next => exact joinNew_lends h .empty mem hold

theorem join_lends
    (h : Lends s₀ s l) (x y : Path) (mem : Alloc)
    (hx : ∀ m, x.mnt = some m → s₀.Live m) :
    ∃ s', s.join x y mem = .ok (s', x.joinMem y mem) ∧
      Lends s₀ s' (((x.joinMem y mem).bind Path.mnt).toList ++ l) := by
  simp only [join, Path.joinMem]
  split
  next => exact ⟨s, rfl, h⟩
  next hy =>
    split
    next =>
      refine clone_lends h mem fun m hm => ?_
      rw [hm] at hy
      exact absurd rfl hy
    next => exact joinNew_lends h y mem hx

/-- The loop of `path_checkmnt` ends with the path that the table leads to, and the mount
of that path is the one reference it holds. -/
theorem checkmntLoop_lends
    (htable : s₀.table.WellFormed) (hmounted : ∀ m ∈ s₀.table.entries, s₀.Live m) :
    ∀ (rounds : Nat) (s : PathState) (path : Path),
      Lends s₀ s (path.mnt.toList ++ l) → (s₀.table.above path).length < rounds →
      ∃ s' dest, s.checkmntLoop rounds path = .ok (s', some dest) ∧
        s₀.table.checkmntLoop rounds path = some dest ∧
        Lends s₀ s' (dest.mnt.toList ++ l) := by
  intro rounds
  induction rounds with
  | zero => exact fun _ _ _ h => absurd h (Nat.not_lt_zero _)
  | succ rounds ih =>
      intro s path h hrounds
      have htab : s.table = s₀.table := h.same.table
      have hlive : ¬ (s₀.table.entries.any fun m => (s.cells m).freed) = true := by
        rw [List.any_eq_true]
        rintro ⟨m, hmem, hf⟩
        rw [h.freed m, (hmounted m hmem).2] at hf
        cases hf
      simp only [checkmntLoop, htab, if_neg hlive, MountTable.checkmntLoop]
      cases hbest : s₀.table.bestmatch path with
      | none => exact ⟨s, path, rfl, rfl, h⟩
      | some m =>
          have hdeep := MountTable.bestmatch_some htable hbest
          obtain ⟨s₁, hs₁, h₁⟩ := dropMount_lends h
          obtain ⟨s₂, hs₂, h₂⟩ := takeMount_lends h₁ (some m) <| by
            rintro _ ⟨⟩
            exact hmounted m hdeep.mem
          have hlt := hdeep.above_lt htable
          simp only [hs₁, hs₂, bind, Except.bind]
          rw [show s₂.table = s₀.table from h₂.same.table]
          exact ih s₂ (s₀.table.truncate path m) h₂ (by omega)

/-- The rounds are enough for every path. -/
theorem above_length_lt (table : MountTable) (path : Path) :
    (table.above path).length < table.entries.length + 1 :=
  Nat.lt_succ_of_le (List.length_filter_le _ _)

/-- What `path_checkmnt` makes. -/
def checkmntMem (s : PathState) (old : Path) (mem : Alloc) : Option Path :=
  (old.cloneMem mem).bind (s.table.checkmntLoop (s.table.entries.length + 1))

theorem checkmnt_lends
    {old : Path} (htable : s₀.table.WellFormed)
    (hmounted : ∀ m ∈ s₀.table.entries, s₀.Live m) (h : Lends s₀ s l) (mem : Alloc)
    (hold : ∀ m, old.mnt = some m → s₀.Live m) :
    ∃ s', s.checkmnt old mem = .ok (s', s₀.checkmntMem old mem) ∧
      Lends s₀ s' (((s₀.checkmntMem old mem).bind Path.mnt).toList ++ l) := by
  obtain ⟨s₁, hs₁, h₁⟩ := clone_lends h mem hold
  simp only [checkmnt, hs₁, bind, Except.bind, checkmntMem]
  cases hclone : old.cloneMem mem with
  | none =>
      rw [hclone] at h₁
      exact ⟨s₁, rfl, h₁⟩
  | some path =>
      rw [hclone] at h₁
      obtain ⟨s₂, dest, hs₂, hdest, h₂⟩ :=
        checkmntLoop_lends htable hmounted _ s₁ path h₁ (above_length_lt s₀.table path)
      simp only [show s₁.table = s₀.table from h₁.same.table, hs₂, Option.bind, hdest]
      exact ⟨s₂, rfl, h₂⟩

end Lent
end PathState

/-! ### Inodes -/

namespace InodeTable

variable {ν : Type}

/-- The count of an inode; there is none for one that is not allocated. -/
def refcount (t : InodeTable ν) (i : Nat) : Int :=
  (t.cell i).elim 0 Inode.refcount

theorem refcount_eq (t : InodeTable ν) (i : Nat) :
    t.refcount i = ((t.cell i).map Inode.refcount).getD 0 := by
  simp only [refcount]
  cases t.cell i <;> rfl

/-- Every allocated inode has references. -/
def Counts (t : InodeTable ν) : Prop :=
  ∀ i inode, t.cell i = some inode → 0 < inode.refcount

/-- The inodes are those of `t₀`, and the references in `l` are taken. -/
structure Lends (t₀ t : InodeTable ν) (l : List Nat) : Prop where
  counts : Borrowed t₀.refcount t.refcount l
  allocated : ∀ i, (t.cell i).isSome ↔ (t₀.cell i).isSome ∨ i ∈ l
  nodes : ∀ i, (t₀.cell i).isSome → t.node i = t₀.node i

section Lent

variable {t₀ t t' : InodeTable ν} {l l' : List Nat} {i j : Nat}

theorem Lends.refl (t : InodeTable ν) : Lends t t [] :=
  ⟨.refl _, fun i => by simp, fun _ _ => rfl⟩

theorem Lends.perm (h : Lends t₀ t l) (hl : l.Perm l') : Lends t₀ t l' :=
  ⟨h.counts.perm hl, fun i => by rw [h.allocated i, hl.mem_iff], h.nodes⟩

/-- With everything given back, the same inodes are allocated, with the same counts. -/
theorem Lends.returned (h : Lends t₀ t []) (i : Nat) :
    (t.cell i).map Inode.refcount = (t₀.cell i).map Inode.refcount := by
  have hcount := congrFun h.counts.returned i
  have halloc := h.allocated i
  simp only [refcount] at hcount
  cases ht : t.cell i with
  | none =>
      cases ht₀ : t₀.cell i with
      | none => rfl
      | some inode => simp [ht, ht₀] at halloc
  | some inode =>
      cases ht₀ : t₀.cell i with
      | none => simp [ht, ht₀] at halloc
      | some inode₀ =>
          rw [ht, ht₀] at hcount
          exact congrArg some hcount

theorem refcount_set (inode : Inode ν) (new : Option (Inode ν)) (h : t.cell i = some inode) :
    (t.set i inode new h).refcount =
      Function.update t.refcount i (new.elim 0 Inode.refcount) := by
  funext j
  by_cases hj : j = i
  · subst hj
    simp [refcount, set]
  · simp [refcount, set, hj]

theorem refcount_of_cell {inode : Inode ν} (h : t.cell i = some inode) :
    t.refcount i = inode.refcount := by
  simp [refcount, h]

theorem get_eq {inode : Inode ν} (h : t.cell i = some inode) :
    t.get i = .ok (t.set i inode (some { inode with refcount := inode.refcount + 1 }) h) := by
  simp only [get]
  split
  next heq => rw [h] at heq; cases heq
  next inode' heq =>
    rw [h] at heq
    cases heq
    rfl

theorem put_eq {inode : Inode ν} (h : t.cell i = some inode) :
    t.put i =
      if inode.refcount - 1 ≠ 0 then
        .ok (t.set i inode (some { inode with refcount := inode.refcount - 1 }) h)
      else .ok (t.set i inode none h) := by
  simp only [put]
  split
  next heq => rw [h] at heq; cases heq
  next inode' heq =>
    rw [h] at heq
    cases heq
    rfl

/-- A cell that keeps its inode, with another count, is allocated as before. -/
theorem set_count_spec {inode : Inode ν} (n : Int) (h : t.cell i = some inode) :
    (∀ j, ((t.set i inode (some { inode with refcount := n }) h).cell j).isSome =
      (t.cell j).isSome) ∧
    (t.set i inode (some { inode with refcount := n }) h).node = t.node := by
  refine ⟨fun j => ?_, funext fun j => ?_⟩
  · by_cases hj : j = i
    · subst hj
      simp [set, h]
    · simp [set, hj]
  · by_cases hj : j = i
    · subst hj
      simp [node, set, h]
    · simp [node, set, hj]

/-- A reference to an allocated inode is taken. -/
theorem get_lends (h : Lends t₀ t l) (hi : (t.cell i).isSome) :
    ∃ t', t.get i = .ok t' ∧ Lends t₀ t' (i :: l) ∧ t'.node = t.node := by
  obtain ⟨inode, hinode⟩ := Option.isSome_iff_exists.mp hi
  obtain ⟨hsome, hnode⟩ := set_count_spec (inode.refcount + 1) hinode
  refine ⟨_, get_eq hinode, ⟨?_, fun j => ?_, fun j hj => ?_⟩, hnode⟩
  · rw [refcount_set, Option.elim_some, ← refcount_of_cell hinode]
    exact h.counts.take i
  · rw [hsome, h.allocated j, List.mem_cons]
    constructor
    · exact Or.imp_right .inr
    · rintro (hj | rfl | hj)
      · exact .inl hj
      · exact (h.allocated j).mp hi
      · exact .inr hj
  · rw [hnode, h.nodes j hj]

/-- A new inode is held by the one that asked for it. -/
theorem make_lends (h : Lends t₀ t l) (node : Node ν) :
    Lends t₀ (t.make node) (t.next :: l) ∧ (t.make node).node t.next = some node ∧
      ∀ j ∈ l, (t.make node).node j = t.node j := by
  have hnone : t.cell t.next = none := t.unused t.next (Nat.le_refl _)
  have hfresh := h.allocated t.next
  simp only [hnone, Option.isSome_none, Bool.false_eq_true, false_iff, not_or] at hfresh
  have hold : ∀ j, j ≠ t.next → (t.make node).cell j = t.cell j :=
    fun j hj => Function.update_of_ne hj _ _
  have hcount : (t.make node).refcount =
      Function.update t.refcount t.next (t.refcount t.next + 1) := by
    funext j
    by_cases hj : j = t.next
    · subst hj
      simp [refcount, make, hnone]
    · simp [refcount, hold j hj, hj]
  refine ⟨⟨?_, fun j => ?_, fun j hj => ?_⟩, ?_, fun j hj => ?_⟩
  · rw [hcount]
    exact h.counts.take t.next
  · by_cases hj : j = t.next
    · subst hj
      simp [make]
    · rw [hold j hj, h.allocated j, List.mem_cons]
      simp only [hj, false_or]
  · have hne : j ≠ t.next := by
      rintro rfl
      exact hfresh.1 hj
    simp only [InodeTable.node, hold j hne]
    exact h.nodes j hj
  · simp [InodeTable.node, make]
  · have hne : j ≠ t.next := by
      rintro rfl
      exact hfresh.2 hj
    simp only [InodeTable.node, hold j hne]

/-- A reference is given back; inodes that are still held stay what they are. -/
theorem put_lends (hcounts : t₀.Counts) (h : Lends t₀ t (i :: l)) :
    ∃ t', t.put i = .ok t' ∧ Lends t₀ t' l ∧ ∀ j ∈ l, t'.node j = t.node j := by
  have hi : (t.cell i).isSome := (h.allocated i).mpr (.inr List.mem_cons_self)
  obtain ⟨inode, hinode⟩ := Option.isSome_iff_exists.mp hi
  have hrc := refcount_of_cell hinode
  have hcount := h.counts i
  rw [List.count_cons_self, hrc] at hcount
  rw [put_eq hinode]
  by_cases hlast : inode.refcount - 1 = 0
  · -- The inode is new, and this was the last reference to it.
    have hnew : t₀.cell i = none := by
      cases h₀ : t₀.cell i with
      | none => rfl
      | some inode₀ =>
          have hpos := hcounts i inode₀ h₀
          rw [refcount_of_cell h₀] at hcount
          omega
    have hnot : i ∉ l := by
      have hzero : t₀.refcount i = 0 := by simp [refcount, hnew]
      rw [← List.count_eq_zero]
      omega
    have hold : ∀ j, j ≠ i → (t.set i inode none hinode).cell j = t.cell j :=
      fun j hj => Function.update_of_ne hj _ _
    refine ⟨_, if_neg (by simpa using hlast), ⟨?_, fun j => ?_, fun j hj => ?_⟩, fun j hj => ?_⟩
    · have hgive := h.counts.give
      rw [hrc, hlast] at hgive
      rw [refcount_set]
      exact hgive
    · by_cases hj : j = i
      · subst hj
        simp [set, hnew, hnot]
      · rw [hold j hj, h.allocated j, List.mem_cons]
        simp only [hj, false_or]
    · have hne : j ≠ i := by
        rintro rfl
        rw [hnew] at hj
        cases hj
      simp only [InodeTable.node, hold j hne]
      exact h.nodes j hj
    · have hne : j ≠ i := by
        rintro rfl
        exact hnot hj
      simp only [InodeTable.node, hold j hne]
  · obtain ⟨hsome, hnode⟩ := set_count_spec (inode.refcount - 1) hinode
    refine ⟨_, if_pos hlast, ⟨?_, fun j => ?_, fun j hj => ?_⟩, fun j _ => by rw [hnode]⟩
    · rw [refcount_set, Option.elim_some, ← hrc]
      exact h.counts.give
    · rw [hsome, h.allocated j, List.mem_cons]
      constructor
      · rintro (hj | rfl | hj)
        · exact .inl hj
        · by_cases h₀ : (t₀.cell j).isSome
          · exact .inl h₀
          · refine .inr (List.count_pos_iff.mp ?_)
            have hzero : t₀.refcount j = 0 := by
              simp [refcount, Option.not_isSome_iff_eq_none.mp h₀]
            omega
        · exact .inr hj
      · exact Or.imp_right .inr
    · rw [hnode, h.nodes j hj]

end Lent
end InodeTable

end Vfs
end JkxyKernel
