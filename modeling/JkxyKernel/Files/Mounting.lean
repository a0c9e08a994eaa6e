import JkxyKernel.Files.Acquiring

/-!
# Mounts that come and go

`do_mount` adds a mount to the table and `do_umount` takes one away; nothing else changes the
table.  An ece391fs keeps its device for good when it goes, so that counts of files are right only
as long as no ece391fs is unmounted, or abandoned while it is mounted.
-/

namespace JkxyKernel
namespace Files
namespace Objects

open RefCount

/-- An operation ends with this in hand, besides what was there before; the mount table may be
another. -/
def Settles {κ : Type} (T : Prop) (ext : κ → Option Obj) (l : List Obj)
    (result : Except Stop Objects) : Prop :=
  ∃ s', result = .ok s' ∧ s'.Sound ∧ (T → s'.Tidy) ∧
    ∃ leaks, Holding s' ext (leaks ++ l) ∧ (T → ∀ f, .file f ∉ leaks)

section Settling

variable {κ α : Type} {T : Prop} {s s' : Objects} {ext : κ → Option Obj} {l r : List Obj}
  {dev : FileId} {op : Vfs.FsType} {m : MountId} {mnt : Option MountId} {mounting : Mounting}

theorem Settles.self (hs : s.Sound) (ht : T → s.Tidy) (h : Holding s ext l) :
    Settles T ext l (.ok s) :=
  ⟨s, rfl, hs, ht, [], h, fun _ _ => List.not_mem_nil⟩

/-- What is done before the table changes, or when it has changed. -/
theorem Does.settles {x : Except Stop α} {next : α → Except Stop Objects} {state : α → Objects}
    {hand : α → List Obj} (h : Does T s ext (r ++ l) state hand x) (ht : T → s.Tidy)
    (hnext : ∀ a l₁, (state a).Sound → (T → (state a).Tidy) → Keeps s (state a) →
      Holding (state a) ext (hand a ++ (r ++ l₁)) → Settles T ext l₁ (next a)) :
    Settles T ext l (x >>= next) := by
  obtain ⟨a, rfl, hsound, hkeeps, leaks, hholding, hnone⟩ := h
  have hperm : (leaks ++ (hand a ++ (r ++ l))).Perm (hand a ++ (r ++ (leaks ++ l))) :=
    (List.perm_append_comm_assoc _ _ _).trans
      ((List.perm_append_comm_assoc leaks r l).append_left (hand a))
  obtain ⟨s', hs', hsound', ht', leaks', hholding', hnone'⟩ :=
    hnext a (leaks ++ l) hsound (fun hT => (ht hT).keep hkeeps) hkeeps (hholding.perm hperm)
  refine ⟨s', hs', hsound', ht', leaks' ++ leaks, ?_, fun hT f hmem => ?_⟩
  · rw [List.append_assoc]
    exact hholding'
  · exact (List.mem_append.mp hmem).elim (hnone' hT f) (hnone hT f)

theorem Does.end {x : Except Stop Objects}
    (h : Does T s ext l (fun s' => s') (fun _ => []) x) (ht : T → s.Tidy) : Settles T ext l x := by
  obtain ⟨s', hs', hturns⟩ := h
  obtain ⟨leaks, h', hnone⟩ := hturns.holding
  exact ⟨s', hs', hturns.sound, fun hT => (ht hT).keep hturns.keeps, leaks, h', hnone⟩

section Table

variable [DecidableEq κ]

theorem count_insert {mount : Mount} {o : Obj} (hone : mount.refcount = 1) :
    (s.insert mount).count o = if o = .mount s.next then some 1 else s.count o := by
  cases o with
  | mount m =>
      simp only [insert, count, Function.update_apply, Obj.mount.injEq]
      split
      next => rw [Option.map_some, hone]
      next => rfl
  | file | inode | tty => rfl

/-- A mount that has been made takes over what is in hand. -/
theorem insert_settles {mount : Mount} (hs : s.Sound) (ht : T → s.Tidy) (hone : mount.refcount = 1)
    (h : Holding s ext (mount.links ++ l)) : Settles T ext l (.ok (s.insert mount)) := by
  have hfresh : s.count (.mount s.next) = none := hs.fresh _ (Nat.le_refl _)
  have hnone : s.mounts s.next = none := Option.map_eq_none_iff.mp hfresh
  have hlisted : s.listed s.next ≠ true := by
    intro hlisted
    obtain ⟨n, hn⟩ := live_of_listed h hlisted
    rw [hfresh] at hn
    cases hn
  refine ⟨_, rfl, ⟨fun o n hn => ?_, fun o ho => ?_, hs.fileLinks, fun m mount' hm o ho => ?_⟩,
    fun hT m mount' hm hop => ?_, [], ?_, fun _ _ => List.not_mem_nil⟩
  · rw [count_insert hone] at hn
    split at hn
    next =>
      cases hn
      decide
    next => exact hs.positive o n hn
  · rw [count_insert hone, if_neg ?_]
    · exact hs.fresh o (Nat.le_of_succ_le ho)
    · rintro rfl
      exact absurd ho (Nat.not_succ_le_self s.next)
  · simp only [insert, Function.update_apply] at hm
    split at hm
    next heq =>
      cases hm
      rw [heq]
      obtain ⟨n, hn⟩ := h.live_of_mem (List.mem_append_left l ho)
      exact hs.lt_next hn
    next => exact hs.mountLinks m mount' hm o ho
  · simp only [insert, Function.update_apply] at hm ⊢
    split at hm
    next heq => rw [if_pos heq]
    next hne =>
      rw [if_neg hne]
      exact ht hT m mount' hm hop
  · have hnodup : ((Obj.mount s.next).slots ++ [Own.entry s.next]).Nodup := by simp [Obj.slots]
    refine h.relink hnodup (fun k hk => ?_) fun o => ?_
    · simp only [Obj.slots, List.cons_append, List.nil_append, List.mem_cons, List.not_mem_nil,
        or_false, not_or] at hk
      cases k with
      | root m => simp only [insert, own, Function.update_of_ne (fun hm => hk.1 (congrArg _ hm))]
      | mountPath m =>
          simp only [insert, own, Function.update_of_ne (fun hm => hk.2.1 (congrArg _ hm))]
      | dev m => simp only [insert, own, Function.update_of_ne (fun hm => hk.2.2.1 (congrArg _ hm))]
      | entry m =>
          simp only [insert, own, Function.update_of_ne (fun hm => hk.2.2.2 (congrArg _ hm))]
      | path | inode | vendor => rfl
    · have hold : ((Obj.mount s.next).slots ++ [Own.entry s.next]).filterMap s.own = [] := by
        simp [Obj.slots, own, hnone, hlisted]
      have hnew : ((Obj.mount s.next).slots ++ [Own.entry s.next]).filterMap (s.insert mount).own =
          mount.links ++ [Obj.mount s.next] := by
        rw [List.filterMap_append, links_of_mount (Function.update_self s.next _ s.mounts)]
        simp [own, insert]
      have hrc : (s.insert mount).rc o = if o = .mount s.next then 1 else s.rc o := by
        rw [rc, count_insert hone]
        split <;> rfl
      have hzero : s.rc (.mount s.next) = 0 := by rw [rc, hfresh, Option.getD_none]
      rw [hold, hnew, hrc, List.nil_append, List.count_append, List.count_append, List.count_nil,
        List.count_singleton]
      split
      next ho =>
        subst ho
        rw [hzero]
        simp
        omega
      next ho =>
        simp [Ne.symm ho]
        omega

theorem doMount_settles (hs : s.Sound) (ht : T → s.Tidy) (h : Holding s ext l)
    (hdev : ∃ n, s.count (.file dev) = some n)
    (hmnt : ∀ m, mnt = some m → s.listed m = true)
    (hop : T → mounting = .abandoned → op ≠ .ece391fs) :
    Settles T ext l (s.doMount dev op mnt mounting) := by
  obtain ⟨n, hn⟩ := hdev
  cases mounting with
  | refused => exact .self hs ht h
  | abandoned =>
      refine (get_does hs h hn).settles (r := []) ht fun s₁ l₁ hs₁ ht₁ _ h₁ => ?_
      simp only [putSuper]
      have hput : Does T s₁ ext l₁ (fun s' => s') (fun _ => []) (s₁.put (.file dev)) :=
        put_does hs₁ ht₁ h₁
      cases hcase : op with
      | ece391fs => exact ⟨s₁, rfl, hs₁, ht₁, [.file dev], h₁, fun hT => absurd hcase (hop hT rfl)⟩
      | ustar | dummy => exact hput.end ht₁
  | mounted =>
      refine (get_does hs h hn).settles (r := []) ht fun s₁ l₁ hs₁ ht₁ hkeeps₁ h₁ => ?_
      have htake : Does T s₁ ext ([Obj.file dev] ++ l₁) (fun s' => s')
          (fun _ => (mnt.map .mount).toList) (s₁.pathTake mnt) := by
        refine pathTake_does hs₁ h₁ fun m hm => live_of_listed h₁ ?_
        rw [hkeeps₁.listed]
        exact hmnt m hm
      refine htake.settles ht₁ fun s₂ l₂ hs₂ ht₂ _ h₂ => ?_
      have hmade : Turns T s₂ ext (s₂.makeInode (some (s₂.next + 1)))
          ([Obj.inode s₂.next] ++ ((mnt.map .mount).toList ++ ([Obj.file dev] ++ l₂))) :=
        makeInode_turns hs₂ h₂
      have hdone : Does T s₂ ext (((mnt.map .mount).toList ++ [Obj.file dev]) ++ l₂) (fun s' => s')
          (fun _ => [.inode s₂.next]) (.ok (s₂.makeInode (some (s₂.next + 1)))) := by
        refine .pure ?_
        rw [List.append_assoc]
        exact hmade
      refine Does.settles hdone ht₂ fun s₃ l₃ hs₃ ht₃ _ h₃ => insert_settles hs₃ ht₃ rfl ?_
      simp only [Mount.links, List.append_assoc, List.cons_append, List.nil_append] at h₃ ⊢
      exact h₃

/-- An unmounted mount goes with its last path. -/
theorem doUmount_settles (hs : s.Sound) (ht : T → s.Tidy) (h : Holding s ext l)
    (hlisted : s.listed m = true)
    (hop : T → ∀ mount, s.mounts m = some mount → mount.op ≠ .ece391fs) :
    Settles T ext l (s.doUmount m) := by
  obtain ⟨n, hn⟩ := live_of_listed h hlisted
  refine (get_does hs h hn).settles (r := []) ht fun s₁ l₁ hs₁ ht₁ hkeeps₁ h₁ => ?_
  have hlisted₁ : s₁.listed m = true := by rw [hkeeps₁.listed, hlisted]
  have hsound : Sound { s₁ with listed := Function.update s₁.listed m false } :=
    ⟨hs₁.positive, hs₁.fresh, hs₁.fileLinks, hs₁.mountLinks⟩
  have htidy : T → Tidy { s₁ with listed := Function.update s₁.listed m false } := by
    intro hT m' mount hm' hece
    have hother : m' ≠ m := by
      rintro rfl
      obtain ⟨n', hn'⟩ := hkeeps₁.mounts m' mount hm'
      exact hop hT _ hn' hece
    simp only [Function.update_of_ne hother]
    exact ht₁ hT m' mount hm' hece
  have hholding : Holding { s₁ with listed := Function.update s₁.listed m false } ext
      (.mount m :: .mount m :: l₁) := by
    refine h₁.relink (List.nodup_singleton (Own.entry m)) (fun k hk => ?_) fun o => ?_
    · cases k with
      | entry m' =>
          have hne : m' ≠ m := fun heq => hk (by rw [heq]; exact List.mem_singleton_self _)
          simp only [own, Function.update_of_ne hne]
      | path | inode | vendor | mountPath | root | dev => rfl
    · have hrc : rc { s₁ with listed := Function.update s₁.listed m false } o = s₁.rc o := rfl
      simp [hrc, own, hlisted₁, List.count_cons]
      omega
  have hput : Does T _ ext ([Obj.mount m] ++ l₁) (fun s' => s') (fun _ => [])
      (Objects.put { s₁ with listed := Function.update s₁.listed m false } (.mount m)) :=
    put_does hsound htidy hholding
  refine hput.settles htidy fun s₂ l₂ hs₂ ht₂ _ h₂ => ?_
  exact (pathDestroy_does (some m) hs₂ ht₂ h₂).end ht₂

end Table
end Settling
end Objects
end Files
end JkxyKernel
