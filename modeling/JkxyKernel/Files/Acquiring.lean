import JkxyKernel.Files.Releasing

/-!
# References that are taken

Opens, mounts and unmounts take references and give references back, and end with what they return
in hand.  `Turns` says that the counts are right again when they are done, with what is in hand
then, but for what has been forgotten: the path of an open that fails behind `inode_open`, and the
device of an ece391fs.
-/

namespace JkxyKernel
namespace Files

open RefCount

namespace Objects

/-- There are no other mounts, and the mount table is the same. -/
structure Keeps (s s' : Objects) : Prop where
  mounts : ∀ m mount, s'.mounts m = some mount → ∃ n, s.mounts m = some { mount with refcount := n }
  listed : s'.listed = s.listed

theorem Keeps.refl (s : Objects) : Keeps s s := ⟨fun _ mount h => ⟨mount.refcount, h⟩, rfl⟩

theorem Keeps.trans {s s₁ s' : Objects} (h : Keeps s s₁) (h' : Keeps s₁ s') : Keeps s s' where
  mounts m mount hm := by
    obtain ⟨n, hn⟩ := h'.mounts m mount hm
    obtain ⟨n', hn'⟩ := h.mounts m _ hn
    exact ⟨n', hn'⟩
  listed := h'.listed.trans h.listed

theorem Shrinks.keeps {s s' : Objects} (h : Shrinks s s') : Keeps s s' := ⟨h.mounts, h.listed⟩

theorem Tidy.keep {s s' : Objects} (h : s.Tidy) (hk : Keeps s s') : s'.Tidy := by
  intro m mount hm hop
  obtain ⟨n, hn⟩ := hk.mounts m mount hm
  rw [hk.listed]
  exact h m _ hn hop

/-- The counts are right with this in hand, and with what has been forgotten; if `T` holds, that is
no file. -/
structure Turns {κ : Type} (T : Prop) (s : Objects) (ext : κ → Option Obj) (s' : Objects)
    (l : List Obj) : Prop where
  sound : s'.Sound
  keeps : Keeps s s'
  holding : ∃ leaks, Holding s' ext (leaks ++ l) ∧ (T → ∀ f, .file f ∉ leaks)

/-- An operation ends in a state with this in hand, besides what was there before. -/
def Does {κ α : Type} (T : Prop) (s : Objects) (ext : κ → Option Obj) (l : List Obj)
    (state : α → Objects) (hand : α → List Obj) (result : Except Stop α) : Prop :=
  ∃ a, result = .ok a ∧ Turns T s ext (state a) (hand a ++ l)

/-- What an open of an inode has in hand. -/
def foundHand (found : Option (InodeId × MountId)) : List Obj :=
  found.elim [] fun r => [.inode r.1, .mount r.2]

/-- What an open of a file has in hand. -/
def fileHand (file : Option FileId) : List Obj := (file.map .file).toList

/-- What `path_checkmnt` may come to, from a path with this mount: what is in the table, or the
mount of the path. -/
def Answer.valid (listed : MountId → Bool) : Option MountId → Answer → Bool
  | _, .noMount => true
  | premount, .fails m _ | premount, .found m _ => listed m || premount == some m
  | premount, .link m _ absolute next =>
      (listed m || premount == some m) && next.valid listed (if absolute then none else some m)

section Turning

variable {κ α β : Type} {T : Prop} {s s₁ s' : Objects} {ext : κ → Option Obj}
  {l hand r : List Obj} {o : Obj} {n : Int} {m : MountId} {i : InodeId} {mnt : Option MountId}

theorem Turns.self (hs : s.Sound) (h : Holding s ext l) : Turns T s ext s l :=
  ⟨hs, .refl s, [], h, fun _ _ => List.not_mem_nil⟩

/-- What follows begins with what was in hand and what has been forgotten. -/
theorem Turns.then {l' : List Obj} (h : Turns T s ext s₁ (hand ++ l))
    (hnext : ∀ l₁, Holding s₁ ext (hand ++ l₁) → Turns T s₁ ext s' (l' ++ l₁)) :
    Turns T s ext s' (l' ++ l) := by
  obtain ⟨-, hkeeps₁, leaks₁, h₁, hnone₁⟩ := h
  obtain ⟨hs', hkeeps, leaks, h', hnone⟩ :=
    hnext _ (h₁.perm (List.perm_append_comm_assoc leaks₁ hand l))
  have hperm' : (leaks ++ (l' ++ (leaks₁ ++ l))).Perm ((leaks ++ leaks₁) ++ (l' ++ l)) := by
    rw [List.append_assoc]
    exact (List.perm_append_comm_assoc l' leaks₁ l).append_left leaks
  refine ⟨hs', hkeeps₁.trans hkeeps, leaks ++ leaks₁, h'.perm hperm', fun hT f hmem => ?_⟩
  exact (List.mem_append.mp hmem).elim (hnone hT f) (hnone₁ hT f)

/-- What is in hand is forgotten. -/
theorem Turns.forget (h : Turns T s ext s' (hand ++ l)) (hhand : ∀ f, .file f ∉ hand) :
    Turns T s ext s' l := by
  obtain ⟨leaks, h', hnone⟩ := h.holding
  refine ⟨h.sound, h.keeps, leaks ++ hand, ?_, fun hT f hmem => ?_⟩
  · rw [List.append_assoc]
    exact h'
  · exact (List.mem_append.mp hmem).elim (hnone hT f) (hhand f)

/-- The rule of sequences: what is done next is told what is in hand. -/
theorem Does.bind {x : Except Stop α} {next : α → Except Stop β} {state : α → Objects}
    {hand : α → List Obj} {state' : β → Objects} {hand' : β → List Obj}
    (h : Does T s ext (r ++ l) state hand x) (ht : T → s.Tidy)
    (hnext : ∀ a l₁, x = .ok a → (state a).Sound → (T → (state a).Tidy) → Keeps s (state a) →
      Holding (state a) ext (hand a ++ (r ++ l₁)) →
        Does T (state a) ext l₁ state' hand' (next a)) :
    Does T s ext l state' hand' (x >>= next) := by
  obtain ⟨a, rfl, ha⟩ := h
  have ht₁ : T → (state a).Tidy := fun hT => (ht hT).keep ha.keeps
  have ha' : Turns T s ext (state a) ((hand a ++ r) ++ l) := by
    rw [List.append_assoc]
    exact ha
  have hthen : ∀ l₁, Holding (state a) ext ((hand a ++ r) ++ l₁) →
      Does T (state a) ext l₁ state' hand' (next a) := by
    intro l₁ h₁
    rw [List.append_assoc] at h₁
    exact hnext a l₁ rfl ha.sound ht₁ ha.keeps h₁
  obtain ⟨leaks, h₁, -⟩ := ha'.holding
  obtain ⟨b, hb, -⟩ := hthen _ (h₁.perm (List.perm_append_comm_assoc _ _ _))
  refine ⟨b, hb, ha'.then fun l₁ hl₁ => ?_⟩
  obtain ⟨b', hb', h'⟩ := hthen l₁ hl₁
  cases hb.symm.trans hb'
  exact h'

theorem Does.pure {a : α} {state : α → Objects} {hand : α → List Obj}
    (h : Turns T s ext (state a) (hand a ++ l)) : Does T s ext l state hand (.ok a) :=
  ⟨a, rfl, h⟩

/-- What is done in a state that has been turned into. -/
theorem Turns.does {result : Except Stop α} {state : α → Objects} {hand' : α → List Obj}
    (h : Turns T s ext s₁ (hand ++ l)) (ht : T → s.Tidy)
    (hnext : ∀ l₁, s₁.Sound → (T → s₁.Tidy) → Keeps s s₁ → Holding s₁ ext (hand ++ l₁) →
      Does T s₁ ext l₁ state hand' result) : Does T s ext l state hand' result := by
  have hdone : Does T s ext l (fun a : Objects => a) (fun _ => hand) (.ok s₁) := ⟨s₁, rfl, h⟩
  change Does T s ext l state hand' (Except.ok s₁ >>= fun _ => result)
  refine Does.bind (r := []) hdone ht ?_
  rintro a l₁ ⟨⟩ hs₁ ht₁ hkeeps h₁
  exact hnext l₁ hs₁ ht₁ hkeeps h₁

theorem live_of_listed (h : Holding s ext l) (hm : s.listed m = true) :
    ∃ n, s.count (.mount m) = some n := h.live_of_own (k := .entry m) (if_pos hm)

section Single

theorem put_does [DecidableEq κ] (hs : s.Sound) (ht : T → s.Tidy) (h : Holding s ext (o :: l)) :
    Does T s ext l (fun s' => s') (fun _ => []) (s.put o) := by
  obtain ⟨s', leaks, hput, hs', h', hshrinks, hnone⟩ := put_releases hs ht h
  refine ⟨s', hput, hs', hshrinks.keeps, leaks, h', fun hT f hmem => ?_⟩
  rw [hnone hT] at hmem
  cases hmem

theorem pathDestroy_does [DecidableEq κ] (mnt : Option MountId) (hs : s.Sound) (ht : T → s.Tidy)
    (h : Holding s ext ((mnt.map .mount).toList ++ l)) :
    Does T s ext l (fun s' => s') (fun _ => []) (s.pathDestroy mnt) := by
  cases mnt with
  | none => exact .pure (.self hs h)
  | some m => exact put_does hs ht h

theorem get_does (hs : s.Sound) (h : Holding s ext l) (hn : s.count o = some n) :
    Does T s ext l (fun s' => s') (fun _ => [o]) (s.get o) := by
  obtain ⟨hget, h'⟩ := h.get hn
  have hpos := hs.positive o n hn
  refine ⟨_, hget, hs.setCount (by omega), shrinks_setCount.keeps, [], h', fun _ _ => ?_⟩
  exact List.not_mem_nil

theorem pathTake_does (hs : s.Sound) (h : Holding s ext l)
    (hlive : ∀ m, mnt = some m → ∃ n, s.count (.mount m) = some n) :
    Does T s ext l (fun s' => s') (fun _ => (mnt.map .mount).toList) (s.pathTake mnt) := by
  cases mnt with
  | none => exact .pure (.self hs h)
  | some m =>
      obtain ⟨n, hn⟩ := hlive m rfl
      exact get_does hs h hn

end Single

/-! ### New objects -/

section Making

variable [DecidableEq κ]

theorem Sound.lt_next (hs : s.Sound) (hn : s.count o = some n) : o.id < s.next := by
  by_contra hle
  rw [hs.fresh o (Nat.le_of_not_lt hle)] at hn
  cases hn

theorem own_of_count_none (h : s.count o = none) {k : Own} (hk : k ∈ o.slots) :
    s.own k = none := by
  cases o with
  | file f =>
      have hnone : s.files f = none := Option.map_eq_none_iff.mp h
      simp only [Obj.slots, List.mem_cons, List.not_mem_nil, or_false] at hk
      rcases hk with rfl | rfl | rfl <;> simp [own, hnone]
  | mount m =>
      have hnone : s.mounts m = none := Option.map_eq_none_iff.mp h
      simp only [Obj.slots, List.mem_cons, List.not_mem_nil, or_false] at hk
      rcases hk with rfl | rfl | rfl <;> simp [own, hnone]
  | inode | tty => cases hk

/-- A new object, with the next number and one reference, takes over what is in hand. -/
structure Makes (s s' : Objects) (o : Obj) : Prop where
  id : o.id = s.next
  count : ∀ o', s'.count o' = if o' = o then some 1 else s.count o'
  own : ∀ k, k ∉ o.slots → s'.own k = s.own k
  next : s'.next = s.next + 1
  keeps : Keeps s s'

theorem Makes.turns (h : Makes s s' o) (hs : s.Sound)
    (hfiles : ∀ f file, s'.files f = some file → ∀ o' ∈ file.links, o'.id < f)
    (hh : Holding s ext (o.slots.filterMap s'.own ++ l)) : Turns T s ext s' (o :: l) := by
  have hfresh : s.count o = none := hs.fresh o (by rw [h.id])
  refine ⟨⟨fun o' n hn => ?_, fun o' ho' => ?_, hfiles, fun m mount hm => ?_⟩, h.keeps, [], ?_,
    fun _ _ => List.not_mem_nil⟩
  · rw [h.count] at hn
    split at hn
    next =>
      cases hn
      decide
    next => exact hs.positive o' n hn
  · rw [h.next] at ho'
    rw [h.count, if_neg ?_]
    · exact hs.fresh o' (Nat.le_of_succ_le ho')
    · rintro rfl
      rw [h.id] at ho'
      exact absurd ho' (Nat.not_succ_le_self s.next)
  · obtain ⟨n, hn⟩ := h.keeps.mounts m mount hm
    have hlinks := hs.mountLinks m _ hn
    exact hlinks
  · refine hh.relink o.nodup_slots h.own fun o' => ?_
    have hnone : o.slots.filterMap s.own = [] :=
      List.filterMap_eq_nil_iff.mpr fun k hk => own_of_count_none hfresh hk
    have hrc : s'.rc o' = if o' = o then 1 else s.rc o' := by
      rw [rc, h.count]
      split <;> rfl
    have hzero : s.rc o = 0 := by rw [rc, hfresh, Option.getD_none]
    rw [hnone, hrc, List.nil_append, List.count_cons, List.count_append, List.count_nil]
    split
    next ho =>
      subst ho
      rw [hzero]
      simp
    next ho =>
      simp [Ne.symm ho]
      omega

theorem makeInode_turns {sb : Option MountId} (hs : s.Sound) (h : Holding s ext l) :
    Turns T s ext (s.makeInode sb) (.inode s.next :: l) := by
  refine Makes.turns ⟨rfl, fun o => ?_, fun k _ => ?_, rfl, fun _ mount hm => ⟨mount.refcount, hm⟩,
    rfl⟩ hs hs.fileLinks h
  · cases o with
    | inode i =>
        simp only [makeInode, count, Function.update_apply, Obj.inode.injEq]
        split <;> rfl
    | file | mount | tty => rfl
  · cases k <;> rfl

theorem makeTty_turns (hs : s.Sound) (h : Holding s ext l) :
    Turns T s ext s.makeTty (.tty s.next :: l) := by
  refine Makes.turns ⟨rfl, fun o => ?_, fun k _ => ?_, rfl, fun _ mount hm => ⟨mount.refcount, hm⟩,
    rfl⟩ hs hs.fileLinks h
  · cases o with
    | tty x => simp only [makeTty, count, Function.update_apply, Obj.tty.injEq]
    | file | mount | inode => rfl
  · cases k <;> rfl

theorem makeFile_turns {tty : Option TtyId} {file : File} (hfile : file = ⟨1, mnt, i, tty⟩)
    (hs : s.Sound) (h : Holding s ext (file.links ++ l)) :
    Turns T s ext (s.makeFile mnt i tty) (.file s.next :: l) := by
  have hnew : (s.makeFile mnt i tty).files s.next = some file := by
    rw [hfile]
    exact Function.update_self s.next _ s.files
  refine Makes.turns ⟨rfl, fun o => ?_, fun k hk => ?_, rfl, fun _ mount hm => ⟨mount.refcount, hm⟩,
    rfl⟩ hs (fun f file' hf o ho => ?_) ?_
  · cases o with
    | file f =>
        simp only [makeFile, count, Function.update_apply, Obj.file.injEq]
        split <;> rfl
    | inode | mount | tty => rfl
  · simp only [Obj.slots, List.mem_cons, List.not_mem_nil, or_false, not_or] at hk
    cases k with
    | path f => simp only [own, makeFile, Function.update_of_ne (fun hf => hk.2.1 (congrArg _ hf))]
    | inode f => simp only [own, makeFile, Function.update_of_ne (fun hf => hk.2.2 (congrArg _ hf))]
    | vendor f => simp only [own, makeFile, Function.update_of_ne (fun hf => hk.1 (congrArg _ hf))]
    | mountPath | root | dev | entry => rfl
  · simp only [makeFile, Function.update_apply] at hf
    split at hf
    next heq =>
      obtain ⟨n, hn⟩ := h.live_of_mem (o := o) (List.mem_append_left l (by
        cases hf
        rw [hfile]
        exact ho))
      rw [heq]
      exact hs.lt_next hn
    next => exact hs.fileLinks f file' hf o ho
  · rw [links_of_file hnew]
    exact h

/-! ### `inode_open` -/

/-- The loop over the components, by induction on their number. -/
theorem walk_does (components : Nat) (hs : s.Sound) (ht : T → s.Tidy)
    (h : Holding s ext (.inode i :: l)) :
    Does T s ext l Prod.fst (fun r => [.inode r.2]) (walk components s i) := by
  induction components generalizing s i l with
  | zero => exact .pure (.self hs h)
  | succ components ih =>
      obtain ⟨n, hn⟩ := h.live_of_mem List.mem_cons_self
      obtain ⟨inode, hinode, -⟩ := Option.map_eq_some_iff.mp hn
      simp only [walk, hinode]
      have hmade : Turns T s ext (s.makeInode inode.sb) ([Obj.inode s.next, Obj.inode i] ++ l) :=
        makeInode_turns hs h
      refine hmade.does ht fun l₁ hs₁ ht₁ _ h₁ => ?_
      have hput : Does T _ ext ([Obj.inode s.next] ++ l₁) (fun s' => s') (fun _ => [])
          ((s.makeInode inode.sb).putInode i) := put_does hs₁ ht₁ (h₁.perm (.swap _ _ _))
      exact hput.bind ht₁ fun s₂ l₂ _ hs₂ ht₂ _ h₂ => ih hs₂ ht₂ h₂

theorem enter_does (components : Nat) (hs : s.Sound) (ht : T → s.Tidy)
    (h : Holding s ext ((mnt.map .mount).toList ++ l))
    (hm : (s.listed m || mnt == some m) = true) :
    Does T s ext l Prod.fst (fun r => [.inode r.2, .mount m]) (s.enter mnt m components) := by
  have hlive : ∃ n, s.count (.mount m) = some n := by
    rcases (Bool.or_eq_true _ _).mp hm with hlisted | hpath
    · exact live_of_listed h hlisted
    · refine h.live_of_mem ?_
      rw [beq_iff_eq.mp hpath]
      exact List.mem_cons_self
  have htake : Does T s ext ((mnt.map .mount).toList ++ l) (fun s' => s') (fun _ => [.mount m])
      (s.pathTake (some m)) := by
    obtain ⟨n, hn⟩ := hlive
    exact get_does hs h hn
  refine htake.bind ht fun s₁ l₁ _ hs₁ ht₁ hkeeps₁ h₁ => ?_
  have hdrop : Does T s₁ ext ([Obj.mount m] ++ l₁) (fun s' => s') (fun _ => [])
      (s₁.pathDestroy mnt) := by
    refine pathDestroy_does _ hs₁ ht₁ (h₁.perm ?_)
    exact List.perm_append_comm_assoc [.mount m] _ l₁
  refine hdrop.bind ht₁ fun s₂ l₂ _ hs₂ ht₂ hkeeps₂ h₂ => ?_
  obtain ⟨n, hn⟩ := h₂.live_of_mem List.mem_cons_self
  obtain ⟨mount, hmount, -⟩ := Option.map_eq_some_iff.mp hn
  simp only [hmount]
  obtain ⟨n', hn'⟩ := h₂.live_of_own (k := .root m) (o := .inode mount.root) (by simp [own, hmount])
  have hget : Does T s₂ ext ([Obj.mount m] ++ l₂) (fun s' => s') (fun _ => [.inode mount.root])
      (s₂.get (.inode mount.root)) := get_does hs₂ h₂ hn'
  refine hget.bind ht₂ fun s₃ l₃ _ hs₃ ht₃ _ h₃ => ?_
  obtain ⟨r, hr, hturns⟩ := walk_does (l := [Obj.mount m] ++ l₃) components hs₃ ht₃ h₃
  exact ⟨r, hr, hturns⟩

/-- Behind `resolve_mount`, by induction on what is found there. -/
theorem resolveMount_does (answer : Answer) (hs : s.Sound) (ht : T → s.Tidy)
    (h : Holding s ext ((mnt.map .mount).toList ++ l)) (hvalid : answer.valid s.listed mnt = true) :
    Does T s ext l Prod.fst (fun r => foundHand r.2) (resolveMount answer s mnt) := by
  induction answer generalizing s mnt l with
  | noMount =>
      refine (pathDestroy_does _ hs ht h).bind (r := []) ht fun s₁ l₁ _ hs₁ _ _ h₁ => ?_
      exact .pure (.self hs₁ h₁)
  | fails m components =>
      refine (enter_does components hs ht h hvalid).bind (r := []) ht ?_
      rintro ⟨s₁, i⟩ l₁ - hs₁ ht₁ - h₁
      have hput : Does T s₁ ext ([Obj.mount m] ++ l₁) (fun s' => s') (fun _ => [])
          (s₁.putInode i) := put_does hs₁ ht₁ h₁
      refine hput.bind ht₁ fun s₂ l₂ _ hs₂ ht₂ _ h₂ => ?_
      refine (pathDestroy_does (some m) hs₂ ht₂ h₂).bind (r := []) ht₂ ?_
      exact fun s₃ l₃ _ hs₃ _ _ h₃ => .pure (.self hs₃ h₃)
  | found m components =>
      refine (enter_does components hs ht h hvalid).bind (r := []) ht ?_
      exact fun r l₁ _ hs₁ _ _ h₁ => .pure (.self hs₁ h₁)
  | link m components absolute next ih =>
      obtain ⟨hm, hnext⟩ := (Bool.and_eq_true _ _).mp hvalid
      refine (enter_does components hs ht h hm).bind (r := []) ht ?_
      rintro ⟨s₁, i⟩ l₁ - hs₁ ht₁ hkeeps₁ h₁
      have hlive : ∀ m', (if absolute then none else some m) = some m' →
          ∃ n, s₁.count (.mount m') = some n := by
        intro m' hm'
        refine h₁.live_of_mem (List.mem_append_left _ ?_)
        split at hm'
        · cases hm'
        · cases hm'
          exact List.mem_cons_of_mem _ List.mem_cons_self
      have htake : Does T s₁ ext ([Obj.inode i, Obj.mount m] ++ l₁) (fun s' => s') _
          (s₁.pathTake (if absolute then none else some m)) := pathTake_does hs₁ h₁ hlive
      refine htake.bind ht₁ fun s₂ l₂ _ hs₂ ht₂ hkeeps₂ h₂ => ?_
      have hdrop : Does T s₂ ext
          (([Obj.inode i] ++ ((if absolute then none else some m).map .mount).toList) ++ l₂)
          (fun s' => s') (fun _ => []) (s₂.pathDestroy (some m)) := by
        refine pathDestroy_does _ hs₂ ht₂ (h₂.perm ?_)
        rw [List.append_assoc]
        refine (List.perm_append_comm_assoc _ _ _).trans ?_
        exact .trans (.swap _ _ _) (.cons _ (.cons _ (.refl _)))
      refine hdrop.bind ht₂ fun s₃ l₃ _ hs₃ ht₃ hkeeps₃ h₃ => ?_
      have hput : Does T s₃ ext (((if absolute then none else some m).map .mount).toList ++ l₃)
          (fun s' => s') (fun _ => []) (s₃.putInode i) := put_does hs₃ ht₃ h₃
      refine hput.bind ht₃ fun s₄ l₄ _ hs₄ ht₄ hkeeps₄ h₄ => ?_
      refine ih hs₄ ht₄ h₄ ?_
      rw [hkeeps₄.listed, hkeeps₃.listed, hkeeps₂.listed, hkeeps₁.listed]
      exact hnext

/-- `inode_open` gives back what it takes, but for what it returns. -/
theorem inodeOpen_does (answer : Answer) (hs : s.Sound) (ht : T → s.Tidy) (h : Holding s ext l)
    (hlive : ∀ m, mnt = some m → ∃ n, s.count (.mount m) = some n)
    (hvalid : answer.valid s.listed mnt = true) :
    Does T s ext l Prod.fst (fun r => foundHand r.2) (s.inodeOpen mnt answer) := by
  refine (pathTake_does hs h hlive).bind (r := []) ht fun s₁ l₁ _ hs₁ ht₁ hkeeps₁ h₁ => ?_
  exact resolveMount_does answer hs₁ ht₁ h₁ (by rw [hkeeps₁.listed]; exact hvalid)

/-! ### Opens -/

theorem openVendor_does (opening : Opening) (hs : s.Sound) (h : Holding s ext l) :
    Does T s ext l Prod.fst (fun r => (r.2.map .tty).toList) (s.openVendor opening) := by
  cases opening with
  | fails | refused | plain => exact .pure (.self hs h)
  | tty x =>
      simp only [openVendor]
      split
      next => exact .pure (makeTty_turns hs h)
      next n hn =>
        obtain ⟨s', hs', hturns⟩ := get_does (T := T) hs h (show s.count (.tty x) = some n from hn)
        exact ⟨(s', some x), by rw [hs']; rfl, hturns⟩

/-- A file takes over what is in hand. -/
theorem makeFile_does {file : File} {m : Option MountId} {tty : Option TtyId}
    (hfile : file = ⟨1, m, i, tty⟩) (hs : s.Sound) (h : Holding s ext (file.links ++ l)) :
    Does T s ext l Prod.fst (fun r => fileHand r.2)
      (Except.ok (s.makeFile m i tty, some s.next)) :=
  .pure (makeFile_turns hfile hs h)

/-- An open comes to a new file with one reference, or to none. -/
theorem filpOpenat_does (answer : Answer) (opening : Opening) (hs : s.Sound) (ht : T → s.Tidy)
    (h : Holding s ext l) (hlive : ∀ m, mnt = some m → ∃ n, s.count (.mount m) = some n)
    (hvalid : answer.valid s.listed mnt = true) :
    Does T s ext l Prod.fst (fun r => fileHand r.2) (s.filpOpenat mnt answer opening) := by
  refine (inodeOpen_does answer hs ht h hlive hvalid).bind (r := []) ht ?_
  rintro ⟨s₁, found⟩ l₁ - hs₁ ht₁ - h₁
  cases found with
  | none => exact .pure (.self hs₁ h₁)
  | some found =>
      obtain ⟨i, m⟩ := found
      simp only
      split
      next =>
        -- the path is forgotten, with its reference to the mount
        have hput : Does T s₁ ext ([Obj.mount m] ++ l₁) (fun s' => s') (fun _ => [])
            (s₁.putInode i) := put_does hs₁ ht₁ h₁
        refine hput.bind ht₁ fun s₂ l₂ _ hs₂ _ _ h₂ => ?_
        have hself : Turns T s₂ ext s₂ ([Obj.mount m] ++ l₂) := .self hs₂ h₂
        exact .pure (hself.forget fun f hf => by simp at hf)
      next =>
        have hvendor : Does T s₁ ext ([Obj.inode i, Obj.mount m] ++ l₁) Prod.fst
            (fun r => (r.2.map .tty).toList) (s₁.openVendor opening) :=
          openVendor_does opening hs₁ h₁
        refine hvendor.bind ht₁ ?_
        rintro ⟨s₂, tty⟩ l₂ - hs₂ - - h₂
        refine makeFile_does rfl hs₂ (h₂.perm ?_)
        rw [File.links, List.append_assoc]
        exact .append_left _ (.swap _ _ _)

/-- The file of an inode that has just been made. -/
theorem openMade_does (opening : Opening) (hs : s.Sound) (ht : T → s.Tidy)
    (h : Holding s ext l) :
    Does T s ext l Prod.fst (fun r => fileHand r.2) (do
      let (s', tty) ← (s.makeInode none).openVendor opening
      .ok (s'.makeFile none s.next tty, some s'.next)) := by
  have hmade : Turns T s ext (s.makeInode none) ([Obj.inode s.next] ++ l) := makeInode_turns hs h
  refine hmade.does ht fun l₁ hs₁ ht₁ _ h₁ => ?_
  have hvendor : Does T _ ext ([Obj.inode s.next] ++ l₁) Prod.fst (fun r => (r.2.map .tty).toList)
      ((s.makeInode none).openVendor opening) := openVendor_does opening hs₁ h₁
  refine hvendor.bind ht₁ ?_
  rintro ⟨s₂, tty⟩ l₂ - hs₂ - - h₂
  refine makeFile_does rfl hs₂ (h₂.perm ?_)
  rw [File.links, List.append_assoc]
  exact .refl _

/-- `filp_open_dummy`, whose path has no mount. -/
theorem filpOpenDummy_does (opening : Opening) (hs : s.Sound) (ht : T → s.Tidy)
    (h : Holding s ext l) :
    Does T s ext l Prod.fst (fun r => fileHand r.2) (s.filpOpenDummy opening) := by
  cases opening with
  | fails => exact .pure (.self hs h)
  | refused =>
      have hmade : Turns T s ext (s.makeInode none) ([Obj.inode s.next] ++ l) :=
        makeInode_turns hs h
      exact .pure (hmade.forget fun f hf => by simp at hf)
  | plain => exact openMade_does .plain hs ht h
  | tty x => exact openMade_does (.tty x) hs ht h

end Making
end Turning
end Objects
end Files
end JkxyKernel
