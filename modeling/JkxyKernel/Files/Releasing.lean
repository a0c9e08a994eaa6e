import JkxyKernel.Files.Objects
import JkxyKernel.Lib.RefCount

/-!
# Every reference is counted

`Holding s ext l` says that the counts are right: every object is counted once for each object
that holds on to it, once for the mount table, once for each slot of `ext`, which is whatever else
there is in the kernel, and once for each time it is in `l`, the references in hand.

An object that is put goes with its last reference, and what it held on to is in hand then.  Putting
that in turn ends, because it is older.  The superblock of an ece391fs does not close its device,
whose reference is left over.
-/

namespace JkxyKernel
namespace Files

open RefCount

/-- Where an object is held on to by another one, or by the mount table. -/
inductive Own
  | path (f : FileId)
  | inode (f : FileId)
  | vendor (f : FileId)
  | mountPath (m : MountId)
  | root (m : MountId)
  | dev (m : MountId)
  | entry (m : MountId)
  deriving DecidableEq

/-- What a file holds on to, in the order in which it lets go. -/
def File.links (file : File) : List Obj :=
  (file.tty.map .tty).toList ++ ((file.mnt.map .mount).toList ++ [.inode file.inode])

/-- What a mount holds on to, in the order in which it lets go. -/
def Mount.links (mount : Mount) : List Obj :=
  .inode mount.root :: ((mount.mnt.map .mount).toList ++ [.file mount.dev])

/-- Where an object holds on to others. -/
def Obj.slots : Obj → List Own
  | .file f => [.vendor f, .path f, .inode f]
  | .mount m => [.root m, .mountPath m, .dev m]
  | .inode _ | .tty _ => []

theorem Obj.nodup_slots (o : Obj) : o.slots.Nodup := by
  cases o <;> simp [Obj.slots]

namespace Objects

/-- What is held on to. -/
def own (s : Objects) : Own → Option Obj
  | .path f => (s.files f).bind fun file => file.mnt.map .mount
  | .inode f => (s.files f).map fun file => .inode file.inode
  | .vendor f => (s.files f).bind fun file => file.tty.map .tty
  | .mountPath m => (s.mounts m).bind fun mount => mount.mnt.map .mount
  | .root m => (s.mounts m).map fun mount => .inode mount.root
  | .dev m => (s.mounts m).map fun mount => .file mount.dev
  | .entry m => if s.listed m then some (.mount m) else none

/-- The count, which is 0 for what is not allocated. -/
def rc (s : Objects) (o : Obj) : Int := (s.count o).getD 0

/-- What is allocated is referred to, and older than what holds on to it. -/
structure Sound (s : Objects) : Prop where
  positive : ∀ o n, s.count o = some n → 0 < n
  fresh : ∀ o, s.next ≤ o.id → s.count o = none
  fileLinks : ∀ f file, s.files f = some file → ∀ o ∈ file.links, o.id < f
  mountLinks : ∀ m mount, s.mounts m = some mount → ∀ o ∈ mount.links, o.id < m

/-- An ece391fs is not unmounted. -/
def Tidy (s : Objects) : Prop :=
  ∀ m mount, s.mounts m = some mount → mount.op = .ece391fs → s.listed m = true

/-- Objects have gone, and counts have changed. -/
structure Shrinks (s s' : Objects) : Prop where
  gone : ∀ o, s.count o = none → s'.count o = none
  files : ∀ f file, s'.files f = some file → ∃ n, s.files f = some { file with refcount := n }
  inodes : ∀ i inode, s'.inodes i = some inode → ∃ n, s.inodes i = some { inode with refcount := n }
  mounts : ∀ m mount, s'.mounts m = some mount → ∃ n, s.mounts m = some { mount with refcount := n }
  listed : s'.listed = s.listed
  next : s'.next = s.next

theorem Shrinks.refl (s : Objects) : Shrinks s s :=
  ⟨fun _ h => h, fun _ file h => ⟨file.refcount, h⟩, fun _ inode h => ⟨inode.refcount, h⟩,
    fun _ mount h => ⟨mount.refcount, h⟩, rfl, rfl⟩

theorem Shrinks.trans {s s₁ s' : Objects} (h : Shrinks s s₁) (h' : Shrinks s₁ s') :
    Shrinks s s' where
  gone o ho := h'.gone o (h.gone o ho)
  files f file hf := by
    obtain ⟨n, hn⟩ := h'.files f file hf
    obtain ⟨n', hn'⟩ := h.files f _ hn
    exact ⟨n', hn'⟩
  inodes i inode hi := by
    obtain ⟨n, hn⟩ := h'.inodes i inode hi
    obtain ⟨n', hn'⟩ := h.inodes i _ hn
    exact ⟨n', hn'⟩
  mounts m mount hm := by
    obtain ⟨n, hn⟩ := h'.mounts m mount hm
    obtain ⟨n', hn'⟩ := h.mounts m _ hn
    exact ⟨n', hn'⟩
  listed := h'.listed.trans h.listed
  next := h'.next.trans h.next

section Counts

variable {s s' : Objects} {o o' : Obj} {n : Int}

theorem count_setCount :
    (s.setCount o n).count o' = if o' = o then (s.count o).map fun _ => n else s.count o' := by
  cases o <;> cases o' <;> simp only [setCount, count, Obj.file.injEq, Obj.inode.injEq,
    Obj.mount.injEq, Obj.tty.injEq, reduceCtorEq, if_false, Function.update_apply]
  all_goals
    split
    next h =>
      subst h
      simp [Function.comp_def]
    next => rfl

theorem count_remove : (s.remove o).count o' = if o' = o then none else s.count o' := by
  cases o <;> cases o' <;> simp only [remove, count, Obj.file.injEq, Obj.inode.injEq,
    Obj.mount.injEq, Obj.tty.injEq, reduceCtorEq, if_false, Function.update_apply]
  all_goals
    split
    next h => rfl
    next => rfl

theorem own_setCount : (s.setCount o n).own = s.own := by
  funext k
  cases o <;> cases k <;> first
    | rfl
    | simp only [setCount, own, Function.update_apply]
  all_goals
    split
    next h =>
      subst h
      simp [Option.bind_map, Option.map_map, Function.comp_def]
    next => rfl

theorem own_remove {k : Own} :
    (s.remove o).own k = if k ∈ o.slots then none else s.own k := by
  cases o <;> cases k <;> first
    | rfl
    | simp only [remove, own, Obj.slots, Function.update_apply, List.mem_cons, List.not_mem_nil,
        Own.path.injEq, Own.inode.injEq, Own.vendor.injEq, Own.mountPath.injEq, Own.root.injEq,
        Own.dev.injEq, reduceCtorEq, or_false, false_or]
  all_goals
    split <;> rfl

@[simp] theorem count_look : (s.look o).count = s.count := by
  cases o <;> rfl

@[simp] theorem own_look : (s.look o).own = s.own := by
  cases o <;> rfl

theorem rc_of_count (h : s.count o = some n) : s.rc o = n := by
  rw [rc, h, Option.getD_some]

theorem rc_setCount {n₀ : Int} (h : s.count o = some n₀) :
    (s.setCount o n).rc o' = if o' = o then n else s.rc o' := by
  rw [rc, count_setCount]
  split
  next => rw [h, Option.map_some, Option.getD_some]
  next => rfl

theorem rc_remove : (s.remove o).rc o' = if o' = o then 0 else s.rc o' := by
  rw [rc, count_remove]
  split <;> rfl

end Counts

/-! ### References in hand -/

/-- Every reference is counted: those of the objects to each other, those of `ext`, and those
in hand. -/
def Holding {κ : Type} (s : Objects) (ext : κ → Option Obj) (l : List Obj) : Prop :=
  Counted (Sum.elim s.own ext) fun o => s.rc o - (l.count o : Int)

namespace Holding

variable {κ : Type} {s s' : Objects} {ext ext' : κ → Option Obj} {l l' : List Obj} {o : Obj}
  {n : Int}

theorem change (h : Holding s ext l) (hown : s'.own = s.own)
    (hrc : ∀ o, s'.rc o - (l'.count o : Int) = s.rc o - (l.count o : Int)) :
    Holding s' ext l' := by
  rw [Holding, hown]
  exact Counted.congr h hrc

theorem perm (h : Holding s ext l) (hl : l.Perm l') : Holding s ext l' :=
  h.change rfl fun o => by rw [hl.count_eq]

theorem look (h : Holding s ext l) : Holding (s.look o) ext l :=
  h.change own_look fun o => by rw [rc, count_look, rc]

theorem live_of_rc (h : 0 < s.rc o) : ∃ n, s.count o = some n := by
  rw [rc] at h
  cases hcount : s.count o with
  | none =>
      rw [hcount] at h
      exact absurd h (Int.lt_irrefl 0)
  | some n => exact ⟨n, rfl⟩

theorem live_of_mem (h : Holding s ext l) (hmem : o ∈ l) : ∃ n, s.count o = some n := by
  have hnonneg := Counted.nonneg h o
  have hpos := List.count_pos_iff.mpr hmem
  exact live_of_rc (by omega)

theorem live_of_own (h : Holding s ext l) {k : Own} (hk : s.own k = some o) :
    ∃ n, s.count o = some n := by
  have hpos := Counted.pos h (show Sum.elim s.own ext (.inl k) = some o from hk)
  exact live_of_rc (by omega)

theorem live_of_ext (h : Holding s ext l) {k : κ} (hk : ext k = some o) :
    ∃ n, s.count o = some n := by
  have hpos := Counted.pos h (show Sum.elim s.own ext (.inr k) = some o from hk)
  exact live_of_rc (by omega)

/-- `atomic_inc` -/
theorem get (h : Holding s ext l) (hn : s.count o = some n) :
    s.get o = .ok (s.setCount o (n + 1)) ∧ Holding (s.setCount o (n + 1)) ext (o :: l) := by
  refine ⟨by rw [Objects.get, hn], h.change own_setCount fun o' => ?_⟩
  rw [rc_setCount hn, List.count_cons]
  split
  next ho =>
    subst ho
    rw [rc_of_count hn]
    simp
  next ho => simp [Ne.symm ho]

/-- A reference in hand that is not the last one is given back. -/
theorem drop (h : Holding s ext (o :: l)) (hn : s.count o = some n) :
    Holding (s.setCount o (n - 1)) ext l := by
  refine h.change own_setCount fun o' => ?_
  rw [rc_setCount hn, List.count_cons]
  split
  next ho =>
    subst ho
    rw [rc_of_count hn]
    simp
    omega
  next ho => simp [Ne.symm ho]

section Exchange

variable [DecidableEq κ]

/-- Objects that hold on to something else. -/
theorem relink {ks : List Own} (hnodup : ks.Nodup) (hsame : ∀ k, k ∉ ks → s'.own k = s.own k)
    (h : Holding s ext l)
    (hrc : ∀ o, s'.rc o - (l'.count o : Int) = s.rc o - (l.count o : Int) -
      ((ks.filterMap s.own).count o : Int) + ((ks.filterMap s'.own).count o : Int)) :
    Holding s' ext l' := by
  have hsame' : ∀ k : Own ⊕ κ, k ∉ ks.map Sum.inl →
      Sum.elim s'.own ext k = Sum.elim s.own ext k := by
    rintro (k | k) hk
    · exact hsame k fun hmem => hk (List.mem_map_of_mem hmem)
    · rfl
  refine (Counted.exchange (hnodup.map Sum.inl_injective) hsame' h).congr fun o => ?_
  rw [List.filterMap_map, List.filterMap_map, Sum.elim_comp_inl, Sum.elim_comp_inl]
  exact hrc o

/-- What an object held on to is in hand when it is gone. -/
theorem remove (h : Holding s ext (o :: l)) (hone : s.count o = some 1) :
    Holding (s.remove o) ext (o.slots.filterMap s.own ++ l) := by
  refine h.relink o.nodup_slots (fun k hk => own_remove.trans (if_neg hk)) fun o' => ?_
  have hnone : o.slots.filterMap (s.remove o).own = [] := by
    refine List.filterMap_eq_nil_iff.mpr fun k hk => ?_
    rw [own_remove, if_pos hk]
  rw [hnone, List.count_append, List.count_nil, rc_remove, List.count_cons]
  split
  next ho =>
    subst ho
    rw [rc_of_count hone]
    simp
    omega
  next ho =>
    simp [Ne.symm ho]
    omega

/-- Slots of the rest of the kernel that refer to something else; what they are to refer to is in
hand before, and what they referred to afterwards. -/
theorem exchange {ks : List κ} (hnodup : ks.Nodup) (hsame : ∀ k, k ∉ ks → ext' k = ext k)
    (h : Holding s ext (ks.filterMap ext' ++ l)) : Holding s ext' (ks.filterMap ext ++ l) := by
  have hsame' : ∀ k : Own ⊕ κ, k ∉ ks.map Sum.inr →
      Sum.elim s.own ext' k = Sum.elim s.own ext k := by
    rintro (k | k) hk
    · rfl
    · exact hsame k fun hmem => hk (List.mem_map_of_mem hmem)
  refine (Counted.exchange (hnodup.map Sum.inr_injective) hsame' h).congr fun o => ?_
  rw [List.filterMap_map, List.filterMap_map, Sum.elim_comp_inr, Sum.elim_comp_inr,
    List.count_append, List.count_append]
  push_cast
  omega

end Exchange
end Holding

/-! ### What shrinks -/

section Shrinking

variable {s s' : Objects} {o : Obj} {n : Int} {f : FileId} {file : File} {m : MountId}
  {mount : Mount}

theorem shrinks_setCount : Shrinks s (s.setCount o n) where
  gone o' ho := by
    rw [count_setCount]
    split
    next heq => rw [← heq, ho, Option.map_none]
    next => exact ho
  files f file hf := by
    cases o with
    | file f' =>
        simp only [setCount, Function.update_apply] at hf
        split at hf
        next heq =>
          subst heq
          obtain ⟨old, hold, rfl⟩ := Option.map_eq_some_iff.mp hf
          exact ⟨old.refcount, hold⟩
        next => exact ⟨file.refcount, hf⟩
    | inode | mount | tty => exact ⟨file.refcount, hf⟩
  inodes i inode hi := by
    cases o with
    | inode i' =>
        simp only [setCount, Function.update_apply] at hi
        split at hi
        next heq =>
          subst heq
          obtain ⟨old, hold, rfl⟩ := Option.map_eq_some_iff.mp hi
          exact ⟨old.refcount, hold⟩
        next => exact ⟨inode.refcount, hi⟩
    | file | mount | tty => exact ⟨inode.refcount, hi⟩
  mounts m mount hm := by
    cases o with
    | mount m' =>
        simp only [setCount, Function.update_apply] at hm
        split at hm
        next heq =>
          subst heq
          obtain ⟨old, hold, rfl⟩ := Option.map_eq_some_iff.mp hm
          exact ⟨old.refcount, hold⟩
        next => exact ⟨mount.refcount, hm⟩
    | file | inode | tty => exact ⟨mount.refcount, hm⟩
  listed := by cases o <;> rfl
  next := by cases o <;> rfl

theorem shrinks_remove : Shrinks s (s.remove o) where
  gone o' ho := by
    rw [count_remove]
    split
    next => rfl
    next => exact ho
  files f file hf := by
    cases o with
    | file f' =>
        simp only [remove, Function.update_apply] at hf
        split at hf
        next => cases hf
        next => exact ⟨file.refcount, hf⟩
    | inode | mount | tty => exact ⟨file.refcount, hf⟩
  inodes i inode hi := by
    cases o with
    | inode i' =>
        simp only [remove, Function.update_apply] at hi
        split at hi
        next => cases hi
        next => exact ⟨inode.refcount, hi⟩
    | file | mount | tty => exact ⟨inode.refcount, hi⟩
  mounts m mount hm := by
    cases o with
    | mount m' =>
        simp only [remove, Function.update_apply] at hm
        split at hm
        next => cases hm
        next => exact ⟨mount.refcount, hm⟩
    | file | inode | tty => exact ⟨mount.refcount, hm⟩
  listed := by cases o <;> rfl
  next := by cases o <;> rfl

theorem shrinks_look : Shrinks s (s.look o) := by
  cases o with
  | inode i =>
      exact ⟨fun _ h => h, fun _ file h => ⟨file.refcount, h⟩, fun _ inode h => ⟨inode.refcount, h⟩,
        fun _ mount h => ⟨mount.refcount, h⟩, rfl, rfl⟩
  | file | mount | tty => exact .refl s

theorem Sound.shrink (h : s.Sound) (hs : Shrinks s s')
    (hpos : ∀ o n, s'.count o = some n → 0 < n) : s'.Sound where
  positive := hpos
  fresh o ho := hs.gone o (h.fresh o (by rw [← hs.next]; exact ho))
  fileLinks f file hf := by
    obtain ⟨n, hn⟩ := hs.files f file hf
    have hlinks := h.fileLinks f _ hn
    exact hlinks
  mountLinks m mount hm := by
    obtain ⟨n, hn⟩ := hs.mounts m mount hm
    have hlinks := h.mountLinks m _ hn
    exact hlinks

theorem Sound.look (h : s.Sound) : (s.look o).Sound :=
  h.shrink shrinks_look fun o n hn => h.positive o n (by rwa [count_look] at hn)

theorem Sound.setCount (h : s.Sound) (hn : 0 < n) : (s.setCount o n).Sound := by
  refine h.shrink shrinks_setCount fun o' n' hn' => ?_
  rw [count_setCount] at hn'
  split at hn'
  next =>
    obtain ⟨-, -, rfl⟩ := Option.map_eq_some_iff.mp hn'
    exact hn
  next => exact h.positive o' n' hn'

theorem Sound.remove (h : s.Sound) : (s.remove o).Sound := by
  refine h.shrink shrinks_remove fun o' n' hn' => ?_
  rw [count_remove] at hn'
  split at hn'
  next => cases hn'
  next => exact h.positive o' n' hn'

theorem Tidy.shrink (h : s.Tidy) (hs : Shrinks s s') : s'.Tidy := by
  intro m mount hm hop
  obtain ⟨n, hn⟩ := hs.mounts m mount hm
  rw [hs.listed]
  exact h m _ hn hop

theorem links_of_file (h : s.files f = some file) :
    (Obj.file f).slots.filterMap s.own = file.links := by
  obtain ⟨refcount, mnt, i, tty⟩ := file
  cases mnt <;> cases tty <;> simp [Obj.slots, own, h, File.links]

theorem links_of_mount (h : s.mounts m = some mount) :
    (Obj.mount m).slots.filterMap s.own = mount.links := by
  obtain ⟨refcount, mnt, i, dev, op⟩ := mount
  cases mnt <;> simp [Obj.slots, own, h, Mount.links]

end Shrinking

/-! ### Giving back -/

/-- References have been given back; what is left over is in hand, and is nothing if `T` holds. -/
def Releases {κ : Type} (T : Prop) (s : Objects) (ext : κ → Option Obj) (l : List Obj)
    (result : Except Stop Objects) : Prop :=
  ∃ s' leaks, result = .ok s' ∧ s'.Sound ∧ Holding s' ext (leaks ++ l) ∧ Shrinks s s' ∧
    (T → leaks = [])

section Putting

variable {κ : Type} {T : Prop} {s s' : Objects} {ext : κ → Option Obj} {l r : List Obj}
  {o : Obj} {f : FileId} {file : File} {m : MountId} {mount : Mount} {rounds : Nat}
  {put : Objects → Obj → Except Stop Objects}

theorem Releases.self (hs : s.Sound) (h : Holding s ext l) : Releases T s ext l (.ok s) :=
  ⟨s, [], rfl, hs, h, .refl s, fun _ => rfl⟩

theorem Releases.of_shrinks {result : Except Stop Objects} (hshrinks : Shrinks s s')
    (h : Releases T s' ext l result) : Releases T s ext l result := by
  obtain ⟨s₁, leaks, hresult, hs₁, h₁, hshrinks₁, hleaks⟩ := h
  exact ⟨s₁, leaks, hresult, hs₁, h₁, hshrinks.trans hshrinks₁, hleaks⟩

/-- One thing is given back after the other. -/
theorem Releases.bind {x : Except Stop Objects} {next : Objects → Except Stop Objects}
    (h : Releases T s ext (r ++ l) x)
    (hnext : ∀ s₁ l₁, s₁.Sound → Holding s₁ ext (r ++ l₁) → Shrinks s s₁ →
      Releases T s₁ ext l₁ (next s₁)) : Releases T s ext l (x >>= next) := by
  obtain ⟨s₁, leaks₁, rfl, hs₁, h₁, hshrinks₁, hnone₁⟩ := h
  have hperm : (leaks₁ ++ (r ++ l)).Perm (r ++ (leaks₁ ++ l)) := by
    rw [← List.append_assoc, ← List.append_assoc]
    exact List.perm_append_comm.append_right l
  obtain ⟨s', leaks, hresult, hs', h', hshrinks, hnone⟩ :=
    hnext s₁ (leaks₁ ++ l) hs₁ (h₁.perm hperm) hshrinks₁
  refine ⟨s', leaks ++ leaks₁, hresult, hs', ?_, hshrinks₁.trans hshrinks, fun ht => ?_⟩
  · rw [List.append_assoc]
    exact h'
  · rw [hnone ht, hnone₁ ht, List.append_nil]

/-- What is older than a number can be put. -/
def Puts (T : Prop) (ext : κ → Option Obj) (id : Nat)
    (put : Objects → Obj → Except Stop Objects) : Prop :=
  ∀ s o l, o.id < id → s.Sound → (T → s.Tidy) → Holding s ext (o :: l) →
    Releases T s ext l (put s o)

theorem putOpt_releases {id : Nat} {x : Option Obj} (hput : Puts T ext id put)
    (hx : ∀ o ∈ x, o.id < id) (hs : s.Sound) (ht : T → s.Tidy)
    (h : Holding s ext (x.toList ++ l)) : Releases T s ext l (s.putOpt put x) := by
  cases x with
  | none => exact .self hs h
  | some o => exact hput s o l (hx o rfl) hs ht h

/-- A file lets go of what it held on to. -/
theorem lastOfFile_releases (hput : Puts T ext f put) (hlinks : ∀ o ∈ file.links, o.id < f)
    (hs : s.Sound) (ht : T → s.Tidy) (h : Holding s ext (file.links ++ l)) :
    Releases T s ext l (s.lastOfFile put file) := by
  rw [File.links, List.append_assoc, List.append_assoc] at h
  have hmem : ∀ o, o ∈ (file.tty.map Obj.tty) ∨ o ∈ (file.mnt.map Obj.mount) ∨
      o = .inode file.inode → o.id < f := by
    intro o ho
    refine hlinks o ?_
    simp only [File.links, List.mem_append, Option.mem_toList, List.mem_singleton]
    exact ho
  have hvendor := putOpt_releases hput (fun o ho => hmem o (.inl ho)) hs ht h
  rw [← List.append_assoc] at hvendor
  refine hvendor.bind fun s₁ l₁ hs₁ h₁ hshrinks₁ => ?_
  have ht₁ : T → s₁.Tidy := fun hT => (ht hT).shrink hshrinks₁
  rw [List.append_assoc] at h₁
  refine (putOpt_releases hput (fun o ho => hmem o (.inr (.inl ho))) hs₁ ht₁ h₁).bind ?_
  intro s₂ l₂ hs₂ h₂ hshrinks₂
  exact hput s₂ _ l₂ (hmem _ (.inr (.inr rfl))) hs₂ (fun hT => (ht₁ hT).shrink hshrinks₂) h₂

/-- A mount lets go of what it held on to; its superblock may keep the device. -/
theorem lastOfMount_releases (hput : Puts T ext m put) (hlinks : ∀ o ∈ mount.links, o.id < m)
    (hs : s.Sound) (ht : T → s.Tidy) (hop : T → mount.op ≠ .ece391fs)
    (h : Holding s ext (mount.links ++ l)) : Releases T s ext l (s.lastOfMount put m mount) := by
  rw [Mount.links, List.cons_append, List.append_assoc] at h
  have hmem : ∀ o, o = .inode mount.root ∨ o ∈ (mount.mnt.map Obj.mount) ∨
      o = .file mount.dev → o.id < m := by
    intro o ho
    refine hlinks o ?_
    simp only [Mount.links, List.mem_cons, List.mem_append, Option.mem_toList, List.not_mem_nil,
      or_false]
    exact ho
  have hroot := hput s _ _ (hmem _ (.inl rfl)) hs ht h
  rw [← List.append_assoc] at hroot
  refine hroot.bind fun s₁ l₁ hs₁ h₁ hshrinks₁ => ?_
  have ht₁ : T → s₁.Tidy := fun hT => (ht hT).shrink hshrinks₁
  rw [List.append_assoc] at h₁
  refine (putOpt_releases hput (fun o ho => hmem o (.inr (.inl ho))) hs₁ ht₁ h₁).bind ?_
  intro s₂ l₂ hs₂ h₂ hshrinks₂
  have hsuper : Releases T s₂ ext l₂ (s₂.putSuper put mount) := by
    rw [putSuper]
    have hdev := hput s₂ _ l₂ (hmem _ (.inr (.inr rfl))) hs₂
      (fun hT => (ht₁ hT).shrink hshrinks₂) h₂
    cases hcase : mount.op with
    | ece391fs =>
        exact ⟨s₂, [.file mount.dev], rfl, hs₂, h₂, .refl s₂, fun hT => absurd hcase (hop hT)⟩
    | ustar => exact hdev
    | dummy => exact hdev
  refine Releases.bind (r := []) hsuper fun s₃ l₃ hs₃ h₃ _ => ?_
  refine ⟨_, [], rfl, ?_, h₃, ?_, fun _ => rfl⟩
  · exact ⟨hs₃.positive, hs₃.fresh, hs₃.fileLinks, hs₃.mountLinks⟩
  · exact ⟨fun _ h => h, fun _ file h => ⟨file.refcount, h⟩, fun _ inode h => ⟨inode.refcount, h⟩,
      fun _ mount h => ⟨mount.refcount, h⟩, rfl, rfl⟩

/-- A mount with one reference is not in the table, if that reference is in hand. -/
theorem not_listed [DecidableEq κ] (h : Holding s ext (.mount m :: l))
    (hone : s.count (.mount m) = some 1) : s.listed m = false := by
  by_contra hlisted
  rw [Bool.not_eq_false] at hlisted
  have hslot : Sum.elim s.own ext (.inl (.entry m)) = some (.mount m) := if_pos hlisted
  have hpos := Counted.pos h hslot
  rw [rc_of_count hone, List.count_cons_self] at hpos
  omega

/-- What is in hand is put, by induction on the rounds. -/
theorem putLoop_releases [DecidableEq κ] (rounds : Nat) :
    Puts T ext rounds (putLoop rounds) := by
  induction rounds with
  | zero => exact fun _ _ _ h => absurd h (Nat.not_lt_zero _)
  | succ rounds ih =>
      intro s o l hid hs ht h
      obtain ⟨n, hn⟩ := h.live_of_mem List.mem_cons_self
      have hpos := hs.positive o n hn
      simp only [putLoop, hn]
      split
      next hmore =>
        refine ⟨_, [], rfl, hs.look.setCount (by omega), h.look.drop ?_,
          shrinks_look.trans shrinks_setCount, fun _ => rfl⟩
        rw [count_look]
        exact hn
      next hlast =>
        have hone : s.count o = some 1 := by
          rw [hn]
          congr 1
          omega
        have hput : ∀ {id : Nat}, id ≤ rounds → Puts T ext id (putLoop rounds) :=
          fun hle s o l hlt => ih s o l (Nat.lt_of_lt_of_le hlt hle)
        have hlook : Holding (s.look o) ext (o :: l) := h.look
        have hremoved := hlook.remove (by rw [count_look]; exact hone)
        cases o with
        | file f =>
            obtain ⟨file, hfile, -⟩ := Option.map_eq_some_iff.mp hone
            have hsame : s.look (.file f) = s := rfl
            rw [hsame, links_of_file hfile] at hremoved
            simp only [hsame, last, hfile]
            exact .of_shrinks shrinks_remove (lastOfFile_releases (hput (Nat.le_of_lt_succ hid))
              (hs.fileLinks f file hfile) hs.remove (fun hT => (ht hT).shrink shrinks_remove)
              hremoved)
        | mount m =>
            obtain ⟨mount, hmount, -⟩ := Option.map_eq_some_iff.mp hone
            have hsame : s.look (.mount m) = s := rfl
            rw [hsame, links_of_mount hmount] at hremoved
            simp only [hsame, last, hmount]
            refine .of_shrinks shrinks_remove (lastOfMount_releases (hput (Nat.le_of_lt_succ hid))
              (hs.mountLinks m mount hmount) hs.remove (fun hT => (ht hT).shrink shrinks_remove)
              (fun hT hop => ?_) hremoved)
            have hlisted := ht hT m mount hmount hop
            rw [not_listed h hone] at hlisted
            cases hlisted
        | inode i =>
            exact ⟨_, [], rfl, hs.look.remove, hremoved, shrinks_look.trans shrinks_remove,
              fun _ => rfl⟩
        | tty x => exact ⟨_, [], rfl, hs.remove, hremoved, shrinks_remove, fun _ => rfl⟩

/-- Whatever is in hand can be put. -/
theorem put_releases [DecidableEq κ] (hs : s.Sound) (ht : T → s.Tidy)
    (h : Holding s ext (o :: l)) : Releases T s ext l (s.put o) :=
  putLoop_releases _ s o l (Nat.lt_succ_self _) hs ht h

/-- An object that is counted more than once stays. -/
theorem put_of_two_le {n : Int} (hn : s.count o = some n) (htwo : 2 ≤ n) :
    s.put o = .ok ((s.look o).setCount o (n - 1)) := by
  have hmore : n - 1 ≠ 0 := by omega
  rw [put, putLoop]
  simp only [hn, if_pos hmore]

end Putting

end Objects
end Files
end JkxyKernel
