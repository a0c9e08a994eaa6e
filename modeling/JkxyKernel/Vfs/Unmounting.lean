import JkxyKernel.Vfs.Mounting

/-!
# Are mounting and unmounting inverse?

A mount takes a reference to the file of its device in `init`, and `put_super` is to give it
back.  That of ece391fs does not: every unmount of an ece391fs, and every mount that fails
behind its `init`, leaves one reference too many.

An unmount resolves its path like any other, from a copy.  If a list node is missing, the
copy lacks a component and leads elsewhere.  A path that leads to no mount and has no
components left is taken for one that leads to a mount.
-/

namespace JkxyKernel
namespace Vfs

open Errno

variable {σ ν φ : Type}

/-- Does `put_super` close the device? -/
def FsType.closes : FsType → Bool
  | .ece391fs => false
  | .ustar | .dummy => true

/-- Does `init` come to the reference? -/
def FsType.initPasses (op : FsType) (disk : Disk) (bootBlock : Bool) : Bool :=
  match op with
  | .ece391fs => bootBlock && disk.seekBoot.toBool && disk.readBoot.toBool
  | .ustar | .dummy => true

namespace MountState

/-- No reference dangles, and the mount to be made is new. -/
structure Sound (s : MountState σ ν φ) : Prop where
  kernel : s.kernel.Sound
  fresh : ∀ m, s.next ≤ m → ¬ s.kernel.mounts.Live m

/-- Nothing has changed: not the mount table, and no count. -/
structure Unchanged (s s' : MountState σ ν φ) : Prop where
  table : s'.kernel.mounts.table = s.kernel.mounts.table
  released : Released s.kernel s'.kernel
  devs : ∀ dev, (s'.devs dev).refcount = (s.devs dev).refcount

/-- The mount table has the same mounts as before, and the counts are what they were. -/
structure Restored (s s' : MountState σ ν φ) : Prop where
  entries : s'.kernel.mounts.table.entries = s.kernel.mounts.table.entries
  mounts : ∀ m ∈ s.kernel.mounts.table.entries,
    s'.kernel.mounts.table.path m = s.kernel.mounts.table.path m ∧
      s'.kernel.root m = s.kernel.root m ∧ s'.sb m = s.sb m
  counts : ∀ m, s.kernel.mounts.Live m → (s'.mountCell m).refcount = (s.mountCell m).refcount
  inodes : ∀ i, (s'.kernel.inodes.cell i).map Inode.refcount =
    (s.kernel.inodes.cell i).map Inode.refcount
  paths : s'.kernel.paths = s.kernel.paths
  devs : ∀ dev, (s'.devs dev).refcount = (s.devs dev).refcount

end MountState

/-! ### One call after the other -/

section Counts

variable {s₀ s s' : PathState} {t₀ t t' : InodeTable ν} {l l' : List Nat} {m : Nat}

/-- Borrowing changes nothing about what is alive. -/
theorem PathState.Lends.live_iff (h : s₀.Lends s l) : s.Live m ↔ s₀.Live m := by
  have hcount : (s.cells m).refcount = (s₀.cells m).refcount + (l.count m : Int) := h.counts m
  constructor
  · intro hm
    by_cases hmem : m ∈ l
    · exact h.live m hmem
    · rw [List.count_eq_zero_of_not_mem hmem] at hcount
      refine ⟨?_, by rw [← h.freed m]; exact hm.2⟩
      have := hm.1
      omega
  · intro hm
    refine ⟨?_, by rw [h.freed m]; exact hm.2⟩
    have := hm.1
    omega

theorem PathState.Lends.trans (h : s₀.Lends s l) (h' : s.Lends s' l') :
    s₀.Lends s' (l' ++ l) := by
  refine ⟨h.counts.trans h'.counts, fun m => ?_, h.same.trans h'.same, fun m hm => ?_⟩
  · rw [h'.freed m, h.freed m]
  · rcases List.mem_append.mp hm with hm | hm
    · exact h.live_iff.mp (h'.live m hm)
    · exact h.live m hm

theorem InodeTable.Lends.trans (h : t₀.Lends t l) (h' : t.Lends t' l') :
    t₀.Lends t' (l' ++ l) := by
  refine ⟨h.counts.trans h'.counts, fun i => ?_, fun i hi => ?_⟩
  · rw [h'.allocated i, h.allocated i, List.mem_append]
    tauto
  · rw [h'.nodes i ((h.allocated i).mpr (.inl hi)), h.nodes i hi]

/-- Every inode that is allocated is counted. -/
theorem InodeTable.Lends.counted (h : t₀.Lends t l) (hcounts : t₀.Counts) : t.Counts := by
  intro i inode hinode
  have hcount := h.counts i
  rw [refcount_of_cell hinode] at hcount
  have hallocated := (h.allocated i).mp (by rw [hinode]; rfl)
  cases h₀ : t₀.cell i with
  | none =>
      have hmem : i ∈ l := hallocated.resolve_left (by rw [h₀]; exact ne_true_of_eq_false rfl)
      have hpos := List.count_pos_iff.mpr hmem
      have hzero : t₀.refcount i = 0 := by simp [refcount, h₀]
      omega
  | some inode₀ =>
      have hpos := hcounts i inode₀ h₀
      rw [refcount_of_cell h₀] at hcount
      omega

end Counts

namespace Kernel

section Holding

variable {k₀ k k' : Kernel σ ν φ} {ps ps' : List Path} {is is' : List (Nat × Node ν)}
  {store store' : σ}

/-- What is held since an earlier kernel. -/
theorem Holds.trans (h : Holds k₀ k ps is store) (h' : Holds k k' ps' is' store') :
    Holds k₀ k' (ps' ++ ps) (is' ++ is) store' := by
  refine ⟨?_, ?_, fun i hi => ?_, ?_, ?_⟩
  · rw [List.filterMap_append]
    exact h.mounts.trans h'.mounts
  · rw [List.map_append]
    exact h.inodes.trans h'.inodes
  · rcases List.mem_append.mp hi with hi | hi
    · exact h'.nodes i hi
    · rw [h'.node_eq (h.nodes i hi), h.nodes i hi]
  · rw [h'.paths, h.paths, List.length_append]
    omega
  · rw [h'.frame, h.frame]

/-- A kernel that holds paths and inodes is one that calls can begin with. -/
theorem Holds.sound (h : Holds k₀ k ps is store) (hk₀ : k₀.Sound) : k.Sound where
  table := by
    rw [h.mounts.same.table]
    exact hk₀.table
  mounted := by
    intro m hm
    rw [h.mounts.same.table] at hm
    exact h.mounts.live_iff.mpr (hk₀.mounted m hm)
  rooted := by
    intro m hm
    rw [h.root_eq]
    exact (h.inodes.allocated _).mpr (.inl (hk₀.rooted m (h.mounts.live_iff.mp hm)))
  opened := by
    intro dfd path hpath m hm
    have hsame : k.dirPath dfd = k₀.dirPath dfd := by rw [h.frame]; rfl
    exact h.mounts.live_iff.mpr (hk₀.opened dfd path (hsame ▸ hpath) m hm)
  counts := h.inodes.counted hk₀.counts

end Holding
end Kernel

namespace MountState

variable {ops : Drivers σ ν φ} {s s' : MountState σ ν φ} {k₀ : Kernel σ ν φ} {path : Path}
  {paths : List Path} {is : List (Nat × Node ν)} {store : σ} {files : List (File φ)} {m : Nat}

/-! ### References that are not the last -/

theorem putMount_more (hfreed : (s.mountCell m).freed = false)
    (hmore : (s.mountCell m).refcount - 1 ≠ 0) :
    s.putMount m =
      .ok (s.withMounts (s.kernel.mounts.setCount m ((s.mountCell m).refcount - 1))) := by
  have hlive : ¬ (s.mountCell m).freed = true := ne_true_of_eq_false hfreed
  rw [putMount, putMountLoop, if_neg hlive]
  exact if_pos hmore

/-- A path whose mount has other references is destroyed as in the opens. -/
theorem destroyPath_eq
    (hmore : ∀ m, path.mnt = some m →
      (s.mountCell m).freed = false ∧ (s.mountCell m).refcount - 1 ≠ 0) :
    s.destroyPath path = (s.kernel.destroyPath path).map s.withKernel := by
  simp only [destroyPath, destroyPathWith, Kernel.destroyPath, PathState.dropMount]
  cases hmnt : path.mnt with
  | none => rfl
  | some m =>
      obtain ⟨hfreed, hcount⟩ := hmore m hmnt
      have hlive : ¬ (s.kernel.mounts.cells m).freed = true := ne_true_of_eq_false hfreed
      simp only [putMount_more hfreed hcount, PathState.putMount, if_neg hlive]
      rw [if_pos (show (s.kernel.mounts.cells m).refcount - 1 ≠ 0 from hcount)]
      rfl

theorem destroyPath_holds (h : Kernel.Holds k₀ s.kernel (path :: paths) is store) :
    ∃ k', s.destroyPath path = .ok (s.withKernel k') ∧ Kernel.Holds k₀ k' paths is store := by
  have hmore : ∀ m, path.mnt = some m →
      (s.mountCell m).freed = false ∧ (s.mountCell m).refcount - 1 ≠ 0 := by
    intro m hm
    have hmem : m ∈ (path :: paths).filterMap Path.mnt :=
      List.mem_filterMap.mpr ⟨path, List.mem_cons_self, hm⟩
    have hlive := h.mounts.live m hmem
    have hlt := h.mounts.counts.lt hmem
    refine ⟨(h.mounts.freed m).trans hlive.2, ?_⟩
    have := hlive.1
    simp only [mountCell]
    omega
  obtain ⟨k', hk', h'⟩ := Kernel.destroyPath_holds h
  refine ⟨k', ?_, h'⟩
  rw [destroyPath_eq hmore, hk']
  rfl

theorem putInode_holds
    {i : Nat} {node : Node ν} (hk₀ : k₀.Sound)
    (h : Kernel.Holds k₀ s.kernel paths ((i, node) :: is) store) :
    ∃ k', s.putInode i = .ok (s.withKernel k') ∧ Kernel.Holds k₀ k' paths is store := by
  obtain ⟨k', hk', h'⟩ := Kernel.putInode_holds hk₀ h
  refine ⟨k', ?_, h'⟩
  rw [putInode, hk']
  rfl

/-! ### Files in between -/

/-- What open files hold. -/
def HoldsFiles (s s' : MountState σ ν φ) (files : List (File φ)) : Prop :=
  s' = s.withKernel s'.kernel ∧ ∃ is store, is.map Prod.fst = files.map File.inode ∧
    Kernel.Holds s.kernel s'.kernel (files.map File.path) is store

theorem HoldsFiles.closeFile
    {file : File φ} {files' : List (File φ)} (hs : s.kernel.Sound)
    (h : HoldsFiles s s' (files ++ file :: files')) (store : σ) :
    ∃ s'', s'.closeFile file store = .ok s'' ∧ HoldsFiles s s'' (files ++ files') := by
  obtain ⟨hframe, is, store', hinodes, hholds⟩ := h
  rw [List.map_append, List.map_cons] at hinodes hholds
  obtain ⟨is₁, is₂, rfl, his₁, his₂⟩ := List.map_eq_append_iff.mp hinodes
  obtain ⟨⟨i, node⟩, is₃, rfl, hi, his₃⟩ := List.map_eq_cons_iff.mp his₂
  have hstore := hholds.setStore store
  have hperm : Kernel.Holds s.kernel { s'.kernel with store := store }
      (file.path :: (files.map File.path ++ files'.map File.path))
      ((i, node) :: (is₁ ++ is₃)) store := by
    refine ⟨?_, ?_, ?_, ?_, hstore.frame⟩
    · exact hstore.mounts.perm (List.perm_middle.filterMap _)
    · exact hstore.inodes.perm (List.perm_middle.map _)
    · intro j hj
      exact hstore.nodes j (List.perm_middle.mem_iff.mpr hj)
    · rw [hstore.paths, List.perm_middle.length_eq]
  obtain ⟨k₁, hk₁, h₁⟩ := destroyPath_holds
    (s := s'.withKernel { s'.kernel with store := store }) hperm
  obtain ⟨k₂, hk₂, h₂⟩ := putInode_holds (s := s'.withKernel k₁) hs h₁
  have hput : (s'.withKernel k₁).putInode file.inode = .ok (s'.withKernel k₂) := by
    rw [show file.inode = i from hi.symm]
    exact hk₂
  refine ⟨s'.withKernel k₂, ?_, ?_, is₁ ++ is₃, store, ?_, ?_⟩
  · simp only [MountState.closeFile, hk₁, bind, Except.bind]
    exact hput
  · rw [hframe]
    rfl
  · rw [List.map_append, List.map_append, his₁, his₃]
  · rw [List.map_append]
    exact h₂

/-- By induction on the run: what is held is what the open files hold. -/
theorem Between.holdsFiles (hs : s.kernel.Sound) (h : Between ops s s' files) :
    HoldsFiles s s' files := by
  induction h with
  | start => exact ⟨rfl, [], s.kernel.store, rfl, .refl _⟩
  | @opened s' files rounds c k file _ hopen ih =>
      obtain ⟨hframe, is, store, hinodes, hholds⟩ := ih
      have houtcome : Kernel.Outcome s'.kernel (s'.kernel.openCall ops rounds c)
          (s'.kernel.givesUp ops rounds c) := Kernel.openCall_outcome (hholds.sound hs) c
      rw [hopen] at houtcome
      generalize s'.kernel.givesUp ops rounds c = late at houtcome
      cases houtcome with
      | @opened k file node store' hopened =>
          refine ⟨by rw [hframe]; rfl, (file.inode, node) :: is, store', ?_, ?_⟩
          · rw [List.map_cons, List.map_cons, hinodes]
          · exact hholds.trans hopened
  | @failed s' files rounds c k e _ hopen hkept ih =>
      obtain ⟨hframe, is, store, hinodes, hholds⟩ := ih
      have houtcome : Kernel.Outcome s'.kernel (s'.kernel.openCall ops rounds c)
          (s'.kernel.givesUp ops rounds c) := Kernel.openCall_outcome (hholds.sound hs) c
      rw [hopen, hkept] at houtcome
      cases houtcome with
      | @released k e store' hreleased =>
          exact ⟨by rw [hframe]; rfl, is, store', hinodes, hholds.trans hreleased⟩
  | @closed s' s'' file files files' store _ hclose ih =>
      obtain ⟨t, ht, hholds⟩ := ih.closeFile hs store
      rw [hclose] at ht
      cases ht
      exact hholds

/-! ### Mounting -/

section Device

variable {op : FsType} {disk : Disk} {dev : Nat} {mem : MountMem} {vendor : ν}

/-- A reference to the file of a device that is given back. -/
theorem setDev_defaultSbInit :
    (s.defaultSbInit dev).setDev dev (((s.defaultSbInit dev).devs dev).refcount - 1) = s := by
  simp [defaultSbInit, setDev]

theorem sbInit_eq (s : MountState σ ν φ) (op : FsType) (disk : Disk) (bootBlock : Bool)
    (dev : Nat) :
    (∃ e, s.sbInit op disk bootBlock dev = (s, .error e) ∧
        op.initPasses disk bootBlock = false) ∨
      s.sbInit op disk bootBlock dev = (s.defaultSbInit dev, .ok ()) ∧
        op.initPasses disk bootBlock = true := by
  cases op with
  | ece391fs =>
      simp only [sbInit, ece391fsInit, FsType.initPasses]
      cases bootBlock with
      | false => exact .inl ⟨ENOMEM, rfl, rfl⟩
      | true =>
          cases hseek : disk.seekBoot with
          | error e => exact .inl ⟨e, rfl, rfl⟩
          | ok _ =>
              cases hread : disk.readBoot with
              | error e => exact .inl ⟨e, rfl, rfl⟩
              | ok _ => exact .inr ⟨rfl, rfl⟩
  | ustar => exact .inr ⟨rfl, rfl⟩
  | dummy => exact .inr ⟨rfl, rfl⟩

/-- `put_super` where the file of the device has other references. -/
theorem putSuperWith_more (op : FsType)
    (put : MountState σ ν φ → Nat → Except Stop (MountState σ ν φ))
    (hmore : (s.devs dev).refcount - 1 ≠ 0) :
    s.putSuperWith put ⟨op, dev⟩ =
      .ok (if op.closes then s.setDev dev ((s.devs dev).refcount - 1) else s) := by
  cases op with
  | ece391fs => rfl
  | ustar => exact if_pos hmore
  | dummy => exact if_pos hmore

/-- What is left of a mount that fails behind `init`. -/
theorem abandonMount_eq (op : FsType) (e : Errno) (k : Kernel σ ν φ)
    (hdev : 0 < (s.devs dev).refcount) :
    ((s.defaultSbInit dev).withKernel k).abandonMount ⟨op, dev⟩ e =
      .ok ((if op.closes then s else s.defaultSbInit dev).withKernel k, .error e) := by
  have hcount : (((s.defaultSbInit dev).withKernel k).devs dev).refcount =
      (s.devs dev).refcount + 1 := by
    simp [defaultSbInit, setDev, withKernel]
  have hback : ((s.defaultSbInit dev).withKernel k).setDev dev
      ((((s.defaultSbInit dev).withKernel k).devs dev).refcount - 1) = s.withKernel k :=
    congrArg (fun t => MountState.withKernel t k) setDev_defaultSbInit
  rw [abandonMount, putSuper, putSuperWith_more op _ (by omega), hback]
  cases op <;> rfl

/-- What a mount comes to: it is refused before there is a reference to the device, it is
abandoned behind that, or there is a new mount. -/
inductive MountOutcome (s : MountState σ ν φ) (dev : Nat) (op : FsType) (path : Path)
    (mem : Alloc) : Bool → Except Stop (MountState σ ν φ × Except Errno Unit) → Prop
  | refused {e : Errno} : MountOutcome s dev op path mem false (.ok (s, .error e))
  | abandoned {e : Errno} {k : Kernel σ ν φ} {store : σ} :
      Kernel.Holds s.kernel k [] [] store →
        MountOutcome s dev op path mem true
          (.ok ((if op.closes then s else s.defaultSbInit dev).withKernel k, .error e))
  | mounted {k : Kernel σ ν φ} {store : σ} {node : Node ν} {copy : Path} :
      path.cloneMem mem = some copy → Kernel.Holds s.kernel k [copy] [] store →
        MountOutcome s dev op path mem true
          (.ok (((s.defaultSbInit dev).withKernel k).insertMount ⟨op, dev⟩ node copy, .ok ()))

theorem mountRoot_outcome (op : FsType) (node : Node ν) (hdev : 0 < (s.devs dev).refcount)
    (hpath : ∀ m, path.mnt = some m → s.kernel.mounts.Live m) :
    MountOutcome s dev op path mem.path true
      ((s.defaultSbInit dev).mountRoot ⟨op, dev⟩ node path mem) := by
  obtain ⟨k, hk, hholds⟩ := Kernel.clonePath_holds (.refl s.kernel) path mem.path hpath
  simp only [mountRoot, show (s.defaultSbInit dev).kernel = s.kernel from rfl, hk, bind,
    Except.bind]
  cases hcopy : path.cloneMem mem.path with
  | none =>
      rw [hcopy] at hholds
      simp only [abandonMount_eq op ENOMEM k hdev]
      exact .abandoned hholds
  | some copy =>
      rw [hcopy] at hholds
      simp only
      split
      next =>
        obtain ⟨k', hk', hholds'⟩ :=
          destroyPath_holds (s := (s.defaultSbInit dev).withKernel k) hholds
        rw [hk']
        refine (congrArg (MountOutcome s dev op path mem.path true)
          (abandonMount_eq op ENOMEM k' hdev)).mpr ?_
        exact .abandoned hholds'
      next => exact .mounted hcopy hholds

theorem doMount_outcome (op : FsType) (disk : Disk) (vendor : ν) (mem : MountMem)
    (hdev : 0 < (s.devs dev).refcount)
    (hpath : ∀ m, path.mnt = some m → s.kernel.mounts.Live m) :
    MountOutcome s dev op path mem.path (mem.superBlock && op.initPasses disk mem.bootBlock)
      (s.doMount dev op path disk vendor mem) := by
  have hnone : ∀ e, MountOutcome s dev op path mem.path true
      ((s.defaultSbInit dev).abandonMount ⟨op, dev⟩ e) := by
    intro e
    refine (congrArg (MountOutcome s dev op path mem.path true)
      (abandonMount_eq op e s.kernel hdev)).mpr ?_
    exact .abandoned (.refl _)
  simp only [doMount]
  cases mem.superBlock with
  | false => exact .refused
  | true =>
      simp only [Bool.not_true, Bool.false_eq_true, if_false, Bool.true_and]
      rcases sbInit_eq s op disk mem.bootBlock dev with
        ⟨e, hinit, hpasses⟩ | ⟨hinit, hpasses⟩
      · rw [hinit, hpasses]
        exact .refused
      · rw [hinit, hpasses]
        cases hroot : mem.root with
        | false => exact hnone ENOMEM
        | true =>
            simp only [Bool.not_true, Bool.false_eq_true, if_false]
            cases op.readInode disk vendor with
            | error e => exact hnone e
            | ok node => exact mountRoot_outcome op node hdev hpath

theorem Unchanged.refl (s : MountState σ ν φ) : Unchanged s s :=
  ⟨rfl, ⟨fun _ => rfl, fun _ => rfl, rfl⟩, fun _ => rfl⟩

/-- With everything given back nothing has changed but the store. -/
theorem unchanged_of_holds {k : Kernel σ ν φ} {store : σ}
    (h : Kernel.Holds s.kernel k [] [] store) : Unchanged s (s.withKernel k) :=
  ⟨h.mounts.same.table, h.released, fun _ => rfl⟩

theorem defaultSbInit_refcount :
    ((s.defaultSbInit dev).devs dev).refcount = (s.devs dev).refcount + 1 := by
  simp [defaultSbInit, setDev]

/-- A mount that fails changes nothing, unless it fails behind an `init` whose reference is
not given back. -/
theorem failed_mount_iff {s' : MountState σ ν φ} {e : Errno}
    (hdev : 0 < (s.devs dev).refcount)
    (hpath : ∀ m, path.mnt = some m → s.kernel.mounts.Live m)
    (hmount : s.doMount dev op path disk vendor mem = .ok (s', .error e)) :
    Unchanged s s' ↔
      ((mem.superBlock && op.initPasses disk mem.bootBlock) = true → op.closes = true) := by
  have houtcome := doMount_outcome op disk vendor mem hdev hpath
  rw [hmount] at houtcome
  generalize (mem.superBlock && op.initPasses disk mem.bootBlock) = passes at houtcome ⊢
  cases houtcome with
  | refused => exact ⟨fun _ => nofun, fun _ => .refl s⟩
  | @abandoned e k store hholds =>
      cases hcloses : op.closes with
      | true => exact ⟨fun _ _ => rfl, fun _ => unchanged_of_holds hholds⟩
      | false =>
          refine ⟨fun hunchanged => ?_, fun h => absurd (h rfl) Bool.false_ne_true⟩
          have hcount := hunchanged.devs dev
          simp only [Bool.false_eq_true, if_false, withKernel, defaultSbInit_refcount] at hcount
          omega

end Device

/-! ### The new mount -/

section Inserted

variable {k : Kernel σ ν φ} {copy : Path} {sb : SuperBlock} {node : Node ν}

theorem normal_cloneMem {mem : Alloc} (h : path.cloneMem mem = some copy) : copy.Normal := by
  simp only [Path.cloneMem, Path.joinNewMem] at h
  split at h
  next => cases h
  next =>
    split at h
    next => cases h
    next =>
      split at h
      next copy' hextend =>
        cases h
        have hstart : Path.Normal { path with components := [] } := Path.normal_nil rfl
        have hnormal := Path.normal_extendMem hstart
          (path.components ++ Path.empty.components) mem.components
        rwa [hextend] at hnormal
      next => cases h

theorem Sound.live_lt (hs : s.Sound) {m : Nat} (hm : s.kernel.mounts.Live m) : m < s.next :=
  Nat.not_le.mp fun hle => hs.fresh m hle hm

/-- The mount that is made is alive, and the others are as they were. -/
theorem insertMount_live_iff {m : Nat} :
    (s.insertMount sb node copy).kernel.mounts.Live m ↔
      s.kernel.mounts.Live m ∨ m = s.next := by
  by_cases hm : m = s.next
  · subst hm
    simp [PathState.Live, insertMount]
  · simp [PathState.Live, insertMount, hm]

theorem insertMount_table_wellFormed (hs : s.Sound) (hnormal : copy.Normal)
    (hcopy : ∀ m, copy.mnt = some m → s.kernel.mounts.Live m) :
    (s.insertMount sb node copy).kernel.mounts.table.WellFormed where
  sorted := by
    refine List.pairwise_append.mpr ⟨hs.kernel.table.sorted, List.pairwise_singleton _ _, ?_⟩
    intro m hm n hn
    rw [List.mem_singleton.mp hn]
    exact hs.live_lt (hs.kernel.mounted m hm)
  earlier := by
    intro m m' hmnt
    by_cases hm : m = s.next
    · subst hm
      simp only [insertMount, Function.update_self] at hmnt
      exact hs.live_lt (hcopy m' hmnt)
    · simp only [insertMount, Function.update_of_ne hm] at hmnt
      exact hs.kernel.table.earlier m m' hmnt
  normal := by
    intro m
    by_cases hm : m = s.next
    · subst hm
      simpa only [insertMount, Function.update_self] using hnormal
    · simpa only [insertMount, Function.update_of_ne hm] using hs.kernel.table.normal m

theorem insertMount_sound (hs : s.Sound) (hnormal : copy.Normal)
    (hcopy : ∀ m, copy.mnt = some m → s.kernel.mounts.Live m) :
    (s.insertMount sb node copy).Sound where
  kernel :=
    { table := insertMount_table_wellFormed hs hnormal hcopy
      mounted := by
        intro m hm
        refine insertMount_live_iff.mpr ?_
        rcases List.mem_append.mp hm with hm | hm
        · exact .inl (hs.kernel.mounted m hm)
        · exact .inr (List.mem_singleton.mp hm)
      rooted := by
        intro m hm
        obtain ⟨hlends, -, -⟩ := InodeTable.make_lends (.refl s.kernel.inodes) node
        refine (hlends.allocated _).mpr ?_
        by_cases hnext : m = s.next
        · subst hnext
          exact .inr (by simp [insertMount])
        · have hlive := (insertMount_live_iff.mp hm).resolve_right hnext
          refine .inl ?_
          simp only [insertMount, Function.update_of_ne hnext]
          exact hs.kernel.rooted m hlive
      opened := by
        intro dfd path hpath m hm
        exact insertMount_live_iff.mpr (.inl (hs.kernel.opened dfd path hpath m hm))
      counts := by
        obtain ⟨hlends, -, -⟩ := InodeTable.make_lends (.refl s.kernel.inodes) node
        exact hlends.counted hs.kernel.counts }
  fresh := by
    intro m hm hlive
    rcases insertMount_live_iff.mp hlive with hlive | hnext
    · have hlt := hs.live_lt hlive
      simp only [insertMount] at hm
      omega
    · simp only [insertMount] at hm
      omega

end Inserted

/-! ### Unmounting -/

section Unmount

variable {mem : Alloc} {copy dest : Path}

/-- `path_checkmnt` makes a copy, and returns what the copy leads to. -/
theorem checkmntMem_eq_some_iff {p : PathState} (hwf : p.table.WellFormed) :
    p.checkmntMem path mem = some dest ↔
      ∃ copy, path.cloneMem mem = some copy ∧ p.table.Leads copy dest := by
  rw [PathState.checkmntMem, Option.bind_eq_some_iff]
  refine exists_congr fun copy => and_congr_right fun _ => ?_
  obtain ⟨dest', hdest', hleads⟩ := MountTable.checkmntLoop_leads hwf
    (p.table.entries.length + 1) copy (PathState.above_length_lt p.table copy)
  rw [hdest']
  constructor
  · rintro ⟨⟩
    exact hleads
  · exact fun h => congrArg some (hleads.unique h)

/-- What `do_umount` does once `path_checkmnt` has returned. -/
theorem doUmount_eq (hk₀ : k₀.Sound)
    (h : Kernel.Holds k₀ s.kernel [] [] store)
    (hpath : ∀ m, path.mnt = some m → k₀.mounts.Live m) (mem : Alloc) :
    ∃ k store, Kernel.Holds k₀ k (k₀.mounts.checkmntMem path mem).toList [] store ∧
      s.doUmount path mem =
        match k₀.mounts.checkmntMem path mem with
        | none => .ok (s.withKernel k, .error ENOMEM)
        | some dest => (s.withKernel k).umountAt dest := by
  obtain ⟨k, hk, hholds⟩ := Kernel.checkmntPath_holds hk₀ h mem hpath
  refine ⟨k, store, by simpa using hholds, ?_⟩
  rw [doUmount, hk]
  cases k₀.mounts.checkmntMem path mem with
  | none => rfl
  | some dest => rfl

/-- At the root of a mount no error is returned. -/
theorem umountAt_root_ne_error {e : Errno} (hroot : dest.components = []) :
    s.umountAt dest ≠ .ok (s', .error e) := by
  intro herror
  simp only [umountAt, if_neg (not_not.mpr hroot)] at herror
  split at herror
  next => cases herror
  next m _ =>
    simp only [bind, Except.bind] at herror
    cases hput : (s.removeMount m).putMount m with
    | error stop =>
        rw [hput] at herror
        cases herror
    | ok t =>
        cases hdestroy : t.destroyPath dest with
        | error stop =>
            simp only [hput, hdestroy] at herror
            cases herror
        | ok t' =>
            simp only [hput, hdestroy] at herror
            cases herror

/-- An unmount is refused, and changes nothing, unless the copy of its path leads to a path
without components. -/
theorem refused_umount_iff (hs : s.Sound)
    (hpath : ∀ m, path.mnt = some m → s.kernel.mounts.Live m) (mem : Alloc) :
    (∃ s' e, s.doUmount path mem = .ok (s', .error e) ∧ Unchanged s s') ↔
      ∀ copy dest, path.cloneMem mem = some copy →
        s.kernel.mounts.table.Leads copy dest → dest.components ≠ [] := by
  obtain ⟨k, store, hholds, humount⟩ := doUmount_eq hs.kernel (.refl s.kernel) hpath mem
  rw [humount]
  have hwf := hs.kernel.table
  cases hres : s.kernel.mounts.checkmntMem path mem with
  | none =>
      rw [hres] at hholds
      refine ⟨fun _ copy dest hcopy hleads => ?_, fun _ =>
        ⟨s.withKernel k, ENOMEM, rfl, unchanged_of_holds hholds⟩⟩
      rw [(checkmntMem_eq_some_iff hwf).mpr ⟨copy, hcopy, hleads⟩] at hres
      cases hres
  | some dest =>
      rw [hres] at hholds
      obtain ⟨copy, hcopy, hleads⟩ := (checkmntMem_eq_some_iff hwf).mp hres
      by_cases hroot : dest.components = []
      · constructor
        · rintro ⟨s', e, hrefused, -⟩
          exact absurd hrefused (umountAt_root_ne_error hroot)
        · exact fun h => absurd hroot (h copy dest hcopy hleads)
      · obtain ⟨k', hk', hholds'⟩ := destroyPath_holds (s := s.withKernel k) hholds
        refine ⟨fun _ copy' dest' hcopy' hleads' => ?_, fun _ =>
          ⟨s.withKernel k', EINVAL, ?_, unchanged_of_holds hholds'⟩⟩
        · obtain rfl : copy = copy' := Option.some.inj (hcopy.symm.trans hcopy')
          rwa [← hleads.unique hleads']
        · simp only [umountAt, if_pos hroot, hk']
          rfl

/-- A path of a mount that goes, where the mount that it is below stays. -/
theorem destroyPathWith_more {rounds : Nat}
    (hparent : ∀ p, path.mnt = some p → p < rounds ∧ (s.mountCell p).freed = false ∧
      (s.mountCell p).refcount - 1 ≠ 0) :
    ∃ mounts : PathState,
      s.destroyPathWith (putMountLoop rounds) path = .ok (s.withMounts mounts).freePath ∧
        mounts.table = s.kernel.mounts.table ∧
        ∀ m, mounts.cells m =
          { s.mountCell m with
            refcount := (s.mountCell m).refcount - if path.mnt = some m then 1 else 0 } := by
  simp only [destroyPathWith]
  cases hmnt : path.mnt with
  | none => exact ⟨s.kernel.mounts, rfl, rfl, fun m => by simp [mountCell]⟩
  | some p =>
      obtain ⟨hlt, hfreed, hmore⟩ := hparent p hmnt
      obtain ⟨rounds, rfl⟩ := Nat.exists_eq_succ_of_ne_zero (Nat.ne_of_gt (Nat.zero_lt_of_lt hlt))
      refine ⟨s.kernel.mounts.setCount p ((s.mountCell p).refcount - 1), ?_, rfl, fun m => ?_⟩
      · have hlive : ¬ (s.mountCell p).freed = true := ne_true_of_eq_false hfreed
        simp only [putMountLoop, if_neg hlive, if_pos hmore]
        rfl
      · by_cases hm : m = p
        · subst hm
          simp [PathState.setCount, mountCell]
        · simp [PathState.setCount, mountCell, hm, Ne.symm hm]

/-- The last reference to a mount takes its root inode, its path and its superblock. -/
theorem putMount_last {n : Nat} {inodes : InodeTable ν} {op : FsType} {dev : Nat}
    (hcell : s.mountCell n = { refcount := 1, freed := false })
    (hroot : s.kernel.inodes.put (s.kernel.root n) = .ok inodes)
    (hparent : ∀ p, (s.kernel.mounts.table.path n).mnt = some p →
      p < n ∧ (s.mountCell p).freed = false ∧ (s.mountCell p).refcount - 1 ≠ 0)
    (hsb : s.sb n = ⟨op, dev⟩) (hdev : (s.devs dev).refcount - 1 ≠ 0) :
    ∃ mounts : PathState, mounts.table = s.kernel.mounts.table ∧
      (∀ m, m ≠ n → (mounts.cells m).refcount = (s.mountCell m).refcount -
        if (s.kernel.mounts.table.path n).mnt = some m then 1 else 0) ∧
      s.putMount n = .ok
        { s with
          kernel :=
            { s.kernel with mounts := mounts, inodes := inodes, paths := s.kernel.paths - 1 }
          devs := if op.closes then (s.setDev dev ((s.devs dev).refcount - 1)).devs
            else s.devs } := by
  let t := (s.withMounts (s.kernel.mounts.setCount n 0)).withKernel
    { s.kernel with mounts := s.kernel.mounts.setCount n 0, inodes := inodes }
  have hput : (s.withMounts (s.kernel.mounts.setCount n 0)).putInode (s.kernel.root n) =
      .ok t := by
    simp only [putInode, Kernel.putInode, withMounts, withKernel, hroot]
    rfl
  have hothers : ∀ m, m ≠ n → t.mountCell m = s.mountCell m := fun m hm =>
    Function.update_of_ne hm _ _
  have hparent' : ∀ p, (s.kernel.mounts.table.path n).mnt = some p →
      p < n ∧ (t.mountCell p).freed = false ∧ (t.mountCell p).refcount - 1 ≠ 0 := by
    intro p hp
    obtain ⟨hlt, hfreed, hmore⟩ := hparent p hp
    rw [hothers p (Nat.ne_of_lt hlt)]
    exact ⟨hlt, hfreed, hmore⟩
  obtain ⟨mounts, hdestroy, htable, hcells⟩ := destroyPathWith_more hparent'
  refine ⟨mounts.free n, htable, fun m hm => ?_, ?_⟩
  · rw [PathState.free_refcount, hcells m, hothers m hm]
  · have hclose := putSuperWith_more (s := ((t.withMounts mounts).freePath).withMounts
      (mounts.free n)) op (putMountLoop n) hdev
    simp only [putMount, putMountLoop, hcell, Bool.false_eq_true, if_false, sub_self, ne_eq,
      not_true_eq_false, bind, Except.bind]
    have hput' : (s.withMounts (s.kernel.mounts.setCount n 0)).putInode
        ((s.withMounts (s.kernel.mounts.setCount n 0)).kernel.root n) = .ok t := hput
    have hdestroy' : t.destroyPathWith (putMountLoop n) (t.kernel.mounts.table.path n) =
        .ok (t.withMounts mounts).freePath := hdestroy
    have hsb' : (((t.withMounts mounts).freePath).withMounts (mounts.free n)).sb n = ⟨op, dev⟩ :=
      hsb
    simp only [hput', hdestroy']
    refine (congrArg (putSuperWith _ _) hsb').trans (hclose.trans ?_)
    cases op <;> rfl

end Unmount

/-! ### The table while references are put -/

section Table

variable {put : MountState σ ν φ → Nat → Except Stop (MountState σ ν φ)} {i dev : Nat}
  {sb : SuperBlock} {dest : Path}

/-- Putting a mount leaves the table alone. -/
def KeepsTable (put : MountState σ ν φ → Nat → Except Stop (MountState σ ν φ)) : Prop :=
  ∀ s m s', put s m = .ok s' → s'.kernel.mounts.table = s.kernel.mounts.table

theorem putInode_table (h : s.putInode i = .ok s') :
    s'.kernel.mounts.table = s.kernel.mounts.table := by
  simp only [putInode, Kernel.putInode] at h
  cases hput : s.kernel.inodes.put i with
  | error stop =>
      rw [hput] at h
      cases h
  | ok inodes =>
      rw [hput] at h
      cases h
      rfl

theorem destroyPathWith_table (hput : KeepsTable put) (h : s.destroyPathWith put path = .ok s') :
    s'.kernel.mounts.table = s.kernel.mounts.table := by
  simp only [destroyPathWith] at h
  split at h
  next =>
    cases h
    rfl
  next m _ =>
    cases hm : put s m with
    | error stop =>
        rw [hm] at h
        cases h
    | ok t =>
        rw [hm] at h
        cases h
        exact hput s m t hm

theorem putSuperWith_table (hput : KeepsTable put) (h : s.putSuperWith put sb = .ok s') :
    s'.kernel.mounts.table = s.kernel.mounts.table := by
  have hclose : ∀ dev, s.filpCloseWith put dev = .ok s' →
      s'.kernel.mounts.table = s.kernel.mounts.table := by
    intro dev h
    simp only [filpCloseWith] at h
    split at h
    next =>
      cases h
      rfl
    next =>
      simp only [bind, Except.bind] at h
      split at h
      next => cases h
      next t hdestroy =>
        have htable := destroyPathWith_table hput hdestroy
        exact (putInode_table h).trans htable
  simp only [putSuperWith] at h
  split at h
  next =>
    cases h
    rfl
  next => exact hclose _ h
  next => exact hclose _ h

/-- By induction on the rounds. -/
theorem putMountLoop_keepsTable (rounds : Nat) :
    KeepsTable (@putMountLoop σ ν φ rounds) := by
  induction rounds with
  | zero => exact nofun
  | succ rounds ih =>
      intro s m s' h
      simp only [putMountLoop] at h
      split at h
      next => cases h
      next =>
        split at h
        next =>
          cases h
          rfl
        next =>
          simp only [bind, Except.bind] at h
          split at h
          next => cases h
          next t hinode =>
            split at h
            next => cases h
            next u hdestroy =>
              have hput := putSuperWith_table ih h
              have hpath := destroyPathWith_table ih hdestroy
              have hroot := putInode_table hinode
              exact hput.trans (hpath.trans hroot)

theorem putMount_keepsTable : KeepsTable (@putMount σ ν φ) :=
  fun s m s' h => putMountLoop_keepsTable (m + 1) s m s' h

/-- An unmount that succeeds takes one mount out of the table, the one it was led to. -/
theorem umountAt_ok (h : s.umountAt dest = .ok (s', .ok ())) :
    dest.components = [] ∧ ∃ m, dest.mnt = some m ∧
      s'.kernel.mounts.table.entries = s.kernel.mounts.table.entries.filter (· ≠ m) := by
  simp only [umountAt] at h
  split at h
  next =>
    cases hdestroy : s.destroyPath dest with
    | error stop =>
        rw [hdestroy] at h
        cases h
    | ok t =>
        rw [hdestroy] at h
        cases h
  next hroot =>
    refine ⟨not_not.mp hroot, ?_⟩
    split at h
    next => cases h
    next m hm =>
      refine ⟨m, hm, ?_⟩
      simp only [bind, Except.bind] at h
      cases hput : (s.removeMount m).putMount m with
      | error stop =>
          rw [hput] at h
          cases h
      | ok t =>
          cases hdestroy : t.destroyPath dest with
          | error stop =>
              simp only [hput, hdestroy] at h
              cases h
          | ok t' =>
              simp only [hput, hdestroy] at h
              cases h
              have htable := (destroyPathWith_table putMount_keepsTable hdestroy).trans
                (putMount_keepsTable _ m t hput)
              exact congrArg MountTable.entries htable

end Table

section Inverse

variable {op : FsType} {dev : Nat} {k k₃ : Kernel σ ν φ} {store₃ : σ} {node : Node ν}
  {copy : Path}

/-- The counts before the last reference to the new mount is given back. -/
structure LastHeld (s t : MountState σ ν φ) (op : FsType) (dev : Nat) (copy : Path) : Prop where
  cell : t.mountCell s.next = { refcount := 1, freed := false }
  others : ∀ m, m ≠ s.next → (t.mountCell m).freed = (s.mountCell m).freed ∧
    (t.mountCell m).refcount =
      (s.mountCell m).refcount + if copy.mnt = some m then 1 else 0
  entries : t.kernel.mounts.table.entries = s.kernel.mounts.table.entries
  path : t.kernel.mounts.table.path = Function.update s.kernel.mounts.table.path s.next copy
  root : ∃ i, t.kernel.root = Function.update s.kernel.root s.next i ∧
    s.kernel.inodes.Lends t.kernel.inodes [i]
  paths : t.kernel.paths = s.kernel.paths + 2
  sb : t.sb = Function.update s.sb s.next ⟨op, dev⟩
  devs : t.devs = (s.defaultSbInit dev).devs

/-- What is left when it is given back, by the path that `do_umount` has looked up. -/
theorem LastHeld.destroyPath {t : MountState σ ν φ} (hs : s.Sound)
    (hdev : 0 < (s.devs dev).refcount) (h : LastHeld s t op dev copy)
    (hcopy : ∀ m, copy.mnt = some m → s.kernel.mounts.Live m) :
    ∃ s₃, t.destroyPath { absolute := false, mnt := some s.next, components := [] } = .ok s₃ ∧
      (Restored s s₃ ↔ op.closes = true) := by
  obtain ⟨i, hroot, hlends⟩ := h.root
  obtain ⟨inodes, hput, hreturned, -⟩ := InodeTable.put_lends hs.kernel.counts hlends
  have hpath : t.kernel.mounts.table.path s.next = copy := by
    rw [h.path, Function.update_self]
  have hparent : ∀ p, (t.kernel.mounts.table.path s.next).mnt = some p →
      p < s.next ∧ (t.mountCell p).freed = false ∧ (t.mountCell p).refcount - 1 ≠ 0 := by
    intro p hp
    rw [hpath] at hp
    have hlive := hcopy p hp
    have hlt := hs.live_lt hlive
    obtain ⟨hfreed, hcount⟩ := h.others p (Nat.ne_of_lt hlt)
    rw [if_pos hp] at hcount
    have hpos : 0 < (s.mountCell p).refcount := hlive.1
    exact ⟨hlt, hfreed.trans hlive.2, by omega⟩
  have hcount : (t.devs dev).refcount = (s.devs dev).refcount + 1 := by
    rw [h.devs, defaultSbInit_refcount]
  obtain ⟨mounts, htable, hcells, hlast⟩ := putMount_last (n := s.next) h.cell
    (by rw [hroot, Function.update_self]; exact hput) hparent
    (by rw [h.sb, Function.update_self]) (by omega : (t.devs dev).refcount - 1 ≠ 0)
  refine ⟨_, congrArg (Except.map freePath) hlast, ?_⟩
  have hne : ∀ m, s.kernel.mounts.Live m → m ≠ s.next := fun m hm =>
    Nat.ne_of_lt (hs.live_lt hm)
  constructor
  · intro hrestored
    by_contra hkeeps
    have hkept := hrestored.devs dev
    simp only [freePath, withKernel, if_neg hkeeps] at hkept
    omega
  · intro hcloses
    refine ⟨?_, fun m hm => ?_, fun m hm => ?_, hreturned.returned, ?_, fun d => ?_⟩
    · exact (congrArg MountTable.entries htable).trans h.entries
    · have hother := hne m (hs.kernel.mounted m hm)
      refine ⟨?_, ?_, ?_⟩
      · refine (congrFun (congrArg MountTable.path htable) m).trans ?_
        rw [h.path, Function.update_of_ne hother]
      · exact (congrFun hroot m).trans (Function.update_of_ne hother _ _)
      · exact (congrFun h.sb m).trans (Function.update_of_ne hother _ _)
    · have hother := hne m hm
      obtain ⟨-, hborrowed⟩ := h.others m hother
      have hback := hcells m hother
      rw [hpath] at hback
      refine hback.trans ?_
      rw [hborrowed]
      omega
    · change t.kernel.paths - 1 - 1 = s.kernel.paths
      rw [h.paths]
      omega
    · simp only [freePath, withKernel, if_pos hcloses]
      by_cases hd : d = dev
      · subst hd
        simp only [setDev, Function.update_self]
        omega
      · simp only [setDev, Function.update_of_ne hd, h.devs, defaultSbInit]

/-- With the files closed, the unmount of the new mount comes to the last reference. -/
theorem lastHeld_of_holds {s₁ : MountState σ ν φ} (hs : s.Sound)
    (h₁ : s₁ = ((s.defaultSbInit dev).withKernel k).insertMount ⟨op, dev⟩ node copy)
    {store : σ} (hholds : Kernel.Holds s.kernel k [copy] [] store)
    (hafter : Kernel.Holds s₁.kernel k₃
      [{ absolute := false, mnt := some s.next, components := [] }] [] store₃) :
    ∃ t, ((s₁.withKernel k₃).removeMount s.next).putMount s.next = .ok t ∧
      LastHeld s t op dev copy := by
  have hcells : s₁.kernel.mounts.cells =
      Function.update k.mounts.cells s.next { refcount := 1, freed := false } := by
    rw [h₁]
    rfl
  have hcount : ∀ m, (k₃.mounts.cells m).refcount =
      (s₁.kernel.mounts.cells m).refcount + (([s.next].count m : Nat) : Int) :=
    hafter.mounts.counts
  have hnew : k₃.mounts.cells s.next = { refcount := 2, freed := false } := by
    have hc := hcount s.next
    have hf := hafter.mounts.freed s.next
    rw [hcells, Function.update_self] at hc hf
    rw [List.count_singleton_self] at hc
    cases hcell : k₃.mounts.cells s.next with
    | mk refcount freed =>
        rw [hcell] at hc hf
        simp only [Nat.cast_one] at hc
        rw [show refcount = 2 from hc, show freed = false from hf]
  have hmore : (k₃.mounts.cells s.next).refcount - 1 ≠ 0 := by
    rw [hnew]
    decide
  have hput := putMount_more (s := (s₁.withKernel k₃).removeMount s.next)
    (congrArg MountCell.freed hnew) hmore
  have hothers : ∀ m, m ≠ s.next →
      ((k₃.mounts.setCount s.next ((k₃.mounts.cells s.next).refcount - 1)).cells m) =
        k₃.mounts.cells m := fun m hm => Function.update_of_ne hm _ _
  have htable := hafter.mounts.same.table
  refine ⟨_, hput,
    { cell := ?_, others := fun m hm => ?_, entries := ?_, path := ?_, root := ?_, paths := ?_,
      sb := ?_, devs := ?_ }⟩
  · have hself : (k₃.mounts.setCount s.next ((k₃.mounts.cells s.next).refcount - 1)).cells
        s.next = { k₃.mounts.cells s.next with
          refcount := (k₃.mounts.cells s.next).refcount - 1 } := Function.update_self _ _ _
    refine hself.trans ?_
    rw [hnew]
    rfl
  · have hold : s₁.kernel.mounts.cells m = k.mounts.cells m := by
      rw [hcells, Function.update_of_ne hm]
    have hborrowed : (k.mounts.cells m).refcount = (s.kernel.mounts.cells m).refcount +
        ((([copy].filterMap Path.mnt).count m : Nat) : Int) := hholds.mounts.counts m
    have hone : (([copy].filterMap Path.mnt).count m : Nat) =
        if copy.mnt = some m then 1 else 0 := by
      cases hmnt : copy.mnt with
      | none => simp [hmnt]
      | some p => simp [hmnt, List.count_singleton]
    refine ⟨?_, ?_⟩
    · refine (congrArg MountCell.freed (hothers m hm)).trans ?_
      rw [hafter.mounts.freed m, hold]
      exact hholds.mounts.freed m
    · refine (congrArg MountCell.refcount (hothers m hm)).trans ?_
      rw [hcount m, hold, hborrowed, hone, List.count_eq_zero_of_not_mem (by simpa using hm)]
      simp only [mountCell]
      split <;> simp
  · have hentries : s₁.kernel.mounts.table.entries =
        s.kernel.mounts.table.entries ++ [s.next] := by
      rw [h₁]
      exact congrArg (fun table : MountTable => table.entries ++ [s.next])
        hholds.mounts.same.table
    have hold : ∀ m ∈ s.kernel.mounts.table.entries, decide (m ≠ s.next) = true := fun m hm =>
      decide_eq_true (Nat.ne_of_lt (hs.live_lt (hs.kernel.mounted m hm)))
    refine (congrArg (fun table : MountTable => table.entries.filter (· ≠ s.next)) htable).trans ?_
    simp only [hentries, List.filter_append, List.filter_eq_self.mpr hold]
    simp
  · refine (congrArg MountTable.path htable).trans ?_
    rw [h₁]
    exact congrArg (fun table : MountTable => Function.update table.path s.next copy)
      hholds.mounts.same.table
  · obtain ⟨hmake, -, -⟩ := InodeTable.make_lends hholds.inodes node
    refine ⟨k.inodes.next, hafter.root_eq.trans ?_, ?_⟩
    · rw [h₁]
      exact congrArg (fun root => Function.update root s.next k.inodes.next) hholds.root_eq
    · have hinodes := hafter.inodes
      rw [h₁] at hinodes
      exact hmake.trans hinodes
  · refine hafter.paths.trans ?_
    rw [h₁]
    exact congrArg (· + 1) hholds.paths
  · rw [h₁]
    rfl
  · rw [h₁]
    rfl

/-- The path that a mount and its unmount are called with, and the state in between. -/
structure MountedAt (s s₁ : MountState σ ν φ) (op : FsType) (dev : Nat) (copy : Path) :
    Prop where
  sound : s₁.Sound
  copyLive : ∀ m, copy.mnt = some m → s.kernel.mounts.Live m
  live : ∀ m, s.kernel.mounts.Live m → s₁.kernel.mounts.Live m
  entries : s₁.kernel.mounts.table.entries = s.kernel.mounts.table.entries ++ [s.next]
  path : s₁.kernel.mounts.table.path s.next = copy
  last : ∀ {k₃ : Kernel σ ν φ} {store₃ : σ}, Kernel.Holds s₁.kernel k₃
      [{ absolute := false, mnt := some s.next, components := [] }] [] store₃ →
    ∃ t, ((s₁.withKernel k₃).removeMount s.next).putMount s.next = .ok t ∧
      LastHeld s t op dev copy

/-- A mount that succeeds, from the outcomes of `do_mount`. -/
theorem mountedAt_of_doMount {disk : Disk} {vendor : ν} {mem : MountMem}
    {s₁ : MountState σ ν φ} (hs : s.Sound) (hdev : 0 < (s.devs dev).refcount)
    (hpath : ∀ m, path.mnt = some m → s.kernel.mounts.Live m)
    (hmount : s.doMount dev op path disk vendor mem = .ok (s₁, .ok ())) :
    ∃ copy, path.cloneMem mem.path = some copy ∧ MountedAt s s₁ op dev copy := by
  have houtcome := doMount_outcome op disk vendor mem hdev hpath
  rw [hmount] at houtcome
  generalize (mem.superBlock && op.initPasses disk mem.bootBlock) = passes at houtcome
  cases houtcome with
  | @mounted k store node copy hcopy hholds =>
      have hlive : ∀ m, k.mounts.Live m ↔ s.kernel.mounts.Live m := fun m =>
        hholds.mounts.live_iff
      have hcopyLive : ∀ m, copy.mnt = some m → s.kernel.mounts.Live m :=
        hholds.live List.mem_cons_self
      have hsound : ((s.defaultSbInit dev).withKernel k).Sound :=
        ⟨hholds.sound hs.kernel, fun m hm hm' => hs.fresh m hm ((hlive m).mp hm')⟩
      refine ⟨copy, hcopy, ?_, hcopyLive, fun m hm => ?_, ?_, Function.update_self _ _ _,
        fun hafter => lastHeld_of_holds hs rfl hholds hafter⟩
      · exact insertMount_sound hsound (normal_cloneMem hcopy) fun m hm =>
          (hlive m).mpr (hcopyLive m hm)
      · exact insertMount_live_iff.mpr (.inl ((hlive m).mpr hm))
      · exact congrArg (fun table : MountTable => table.entries ++ [s.next])
          hholds.mounts.same.table

/-- The mount that is made is the latest. -/
theorem MountedAt.latest {s₁ : MountState σ ν φ} (hs : s.Sound)
    (h : MountedAt s s₁ op dev copy) :
    ∀ m ∈ s₁.kernel.mounts.table.entries, m ≤ s.next := by
  intro m hm
  rw [h.entries] at hm
  rcases List.mem_append.mp hm with hm | hm
  · exact Nat.le_of_lt (hs.live_lt (hs.kernel.mounted m hm))
  · exact Nat.le_of_eq (List.mem_singleton.mp hm)

/-- An unmount that succeeds and restores the table was led to the new mount. -/
theorem MountedAt.led {s₁ s₃ : MountState σ ν φ} {dest : Path} (hs : s.Sound)
    (h : MountedAt s s₁ op dev copy)
    (humount : (s₁.withKernel k₃).umountAt dest = .ok (s₃, .ok ()))
    (htable : k₃.mounts.table = s₁.kernel.mounts.table) (hrestored : Restored s s₃) :
    dest.components = [] ∧ dest.mnt = some s.next := by
  obtain ⟨hroot, m, hmnt, hentries⟩ := umountAt_ok humount
  refine ⟨hroot, ?_⟩
  rw [hmnt]
  by_contra hother
  -- The new mount would still be in the table.
  have hstays : s.next ∈ s₃.kernel.mounts.table.entries := by
    rw [hentries]
    refine List.mem_filter.mpr ⟨?_, decide_eq_true fun heq => hother (congrArg some heq.symm)⟩
    change s.next ∈ k₃.mounts.table.entries
    rw [htable, h.entries]
    exact List.mem_append_right _ (List.mem_singleton_self _)
  rw [hrestored.entries] at hstays
  exact Nat.lt_irrefl _ (hs.live_lt (hs.kernel.mounted _ hstays))

/-- The unmount of the new mount succeeds, and restores all but the count of a device that
is not closed. -/
theorem MountedAt.umountAt {s₁ : MountState σ ν φ} (hs : s.Sound)
    (hdev : 0 < (s.devs dev).refcount) (h : MountedAt s s₁ op dev copy)
    (hafter : Kernel.Holds s₁.kernel k₃
      [{ absolute := false, mnt := some s.next, components := [] }] [] store₃) :
    ∃ s₃, (s₁.withKernel k₃).umountAt
        { absolute := false, mnt := some s.next, components := [] } = .ok (s₃, .ok ()) ∧
      (Restored s s₃ ↔ op.closes = true) := by
  obtain ⟨t, hput, hheld⟩ := h.last hafter
  obtain ⟨s₃, hdestroy, hiff⟩ := hheld.destroyPath hs hdev h.copyLive
  refine ⟨s₃, ?_, hiff⟩
  simp only [MountState.umountAt, ne_eq, not_true_eq_false, if_false, hput, hdestroy, bind,
    Except.bind, Except.mapError]

/-- The copy of an unmount leads to the new mount if and only if it is the copy that the
mount was made with. -/
theorem MountedAt.leads_iff {s₁ : MountState σ ν φ} {umem : Alloc} (hs : s.Sound)
    (h : MountedAt s s₁ op dev copy) (hmnt : copy.mnt = path.mnt) :
    s₁.kernel.mounts.checkmntMem path umem =
        some { absolute := false, mnt := some s.next, components := [] } ↔
      path.cloneMem umem = some copy := by
  have hmem : s.next ∈ s₁.kernel.mounts.table.entries := by
    rw [h.entries]
    exact List.mem_append_right _ (List.mem_singleton_self _)
  have hleads : ∀ copy₂, path.cloneMem umem = some copy₂ →
      (s₁.kernel.mounts.table.Leads copy₂
        { absolute := false, mnt := some s.next, components := [] } ↔ copy₂ = copy) := by
    intro copy₂ hcopy₂
    rw [MountTable.leads_latest_iff h.sound.kernel.table hmem (h.latest hs), h.path]
    rw [h.path, hmnt, Path.mnt_cloneMem hcopy₂]
  rw [checkmntMem_eq_some_iff h.sound.kernel.table]
  constructor
  · rintro ⟨copy₂, hcopy₂, hled⟩
    rw [hcopy₂, (hleads copy₂ hcopy₂).mp hled]
  · intro hcopy
    exact ⟨copy, hcopy, (hleads copy hcopy).mpr rfl⟩

/-- An unmount after a mount succeeds and restores what was, if and only if the type closes
its device and the two have made the same copy of the path. -/
theorem umount_restores_iff {disk : Disk} {vendor : ν} {mem : MountMem}
    {s₁ s₂ : MountState σ ν φ} (hs : s.Sound) (hdev : 0 < (s.devs dev).refcount)
    (hpath : ∀ m, path.mnt = some m → s.kernel.mounts.Live m)
    (hmount : s.doMount dev op path disk vendor mem = .ok (s₁, .ok ()))
    (hbetween : Between ops s₁ s₂ []) (umem : Alloc) :
    (∃ s₃, s₂.doUmount path umem = .ok (s₃, .ok ()) ∧ Restored s s₃) ↔
      op.closes = true ∧ path.cloneMem umem = path.cloneMem mem.path := by
  obtain ⟨copy, hcopy, hmounted⟩ := mountedAt_of_doMount hs hdev hpath hmount
  have hmnt := Path.mnt_cloneMem hcopy
  have hwf := hmounted.sound.kernel.table
  obtain ⟨hframe, is, store, his, hholds⟩ := hbetween.holdsFiles hmounted.sound.kernel
  obtain rfl : is = [] := List.map_eq_nil_iff.mp his
  obtain ⟨k₃, store₃, hafter, humount⟩ := doUmount_eq hmounted.sound.kernel hholds
    (fun m hm => hmounted.live m (hpath m hm)) umem
  have hstate : s₂.withKernel k₃ = s₁.withKernel k₃ := by
    rw [hframe]
    rfl
  rw [humount, hstate, hcopy, ← hmounted.leads_iff hs hmnt]
  cases hres : s₁.kernel.mounts.checkmntMem path umem with
  | none =>
      constructor
      · rintro ⟨s₃, hok, -⟩
        cases hok
      · rintro ⟨-, hled⟩
        cases hled
  | some dest =>
      rw [hres] at hafter
      constructor
      · rintro ⟨s₃, hok, hrestored⟩
        obtain ⟨hroot, hnext⟩ := hmounted.led hs hok hafter.mounts.same.table hrestored
        obtain ⟨copy₂, hcopy₂, hleads⟩ := (checkmntMem_eq_some_iff hwf).mp hres
        have hrel : dest.absolute = false := by
          refine hleads.relative.resolve_left fun heq => ?_
          rw [heq, Path.mnt_cloneMem hcopy₂] at hnext
          exact Nat.lt_irrefl _ (hs.live_lt (hpath _ hnext))
        obtain rfl : dest = { absolute := false, mnt := some s.next, components := [] } :=
          Vfs.Path.ext hrel hnext hroot
        obtain ⟨s₃', hok', hiff⟩ := hmounted.umountAt hs hdev hafter
        obtain rfl : s₃' = s₃ := by
          have heq := hok'.symm.trans hok
          cases heq
          rfl
        exact ⟨hiff.mp hrestored, rfl⟩
      · rintro ⟨hcloses, hled⟩
        obtain rfl := Option.some.inj hled
        obtain ⟨s₃, hok, hiff⟩ := hmounted.umountAt hs hdev hafter
        exact ⟨s₃, hok, hiff.mpr hcloses⟩

end Inverse

/-- The path resolves to the root of a mount. -/
def IsRoot (s : MountState σ ν φ) (path : Path) : Prop :=
  ∃ m ∈ s.kernel.mounts.table.entries,
    s.kernel.mounts.table.Leads path.clone
      { absolute := false, mnt := some m, components := [] }

end MountState

open MountState in
/-- **Mounting and unmounting.**  An unmount after a mount, with the files opened in between
closed, succeeds and restores the mount table and the count of the device, if and only if the
type closes its device and the unmount has made the same copy of the path.  An unmount of a
path that is not the root of a mount is refused, and changes nothing, if and only if its copy
of the path leads to a path with components.  And a mount that fails changes nothing, if and
only if it fails in `init` or before, or the type closes its device. -/
theorem mount_umount_iff
    {s : MountState σ ν φ} (hs : s.Sound) {dev : Nat} (hdev : 0 < (s.devs dev).refcount)
    {path : Path} (hpath : ∀ m, path.mnt = some m → s.kernel.mounts.Live m)
    (op : FsType) (disk : Disk) (vendor : ν) (mem : MountMem) (umem : Alloc) :
    (∀ (ops : Drivers σ ν φ) (s₁ s₂ : MountState σ ν φ),
      s.doMount dev op path disk vendor mem = .ok (s₁, .ok ()) → Between ops s₁ s₂ [] →
        ((∃ s₃, s₂.doUmount path umem = .ok (s₃, .ok ()) ∧ Restored s s₃) ↔
          op.closes = true ∧ path.cloneMem umem = path.cloneMem mem.path)) ∧
      (¬ s.IsRoot path →
        ((∃ s' e, s.doUmount path umem = .ok (s', .error e) ∧ Unchanged s s') ↔
          ∀ copy dest, path.cloneMem umem = some copy →
            s.kernel.mounts.table.Leads copy dest → dest.components ≠ [])) ∧
      ∀ s' e, s.doMount dev op path disk vendor mem = .ok (s', .error e) →
        (Unchanged s s' ↔
          ((mem.superBlock && op.initPasses disk mem.bootBlock) = true → op.closes = true)) := by
  refine ⟨fun ops s₁ s₂ hmount hbetween => ?_, fun _ => ?_, fun s' e hmount => ?_⟩
  · exact umount_restores_iff hs hdev hpath hmount hbetween umem
  · exact refused_umount_iff hs hpath umem
  · exact failed_mount_iff hdev hpath hmount

/-! ### A device that is mounted below the root -/

/-- The root is mounted, and the file of a device is open. -/
def rootAndDevice : MountState Unit Unit Unit where
  kernel := linkMounted
  sb _ := { op := .ustar, dev := 1 }
  devs _ := { refcount := 1, path := .root, inode := 0 }
  next := 1

theorem rootAndDevice_sound : rootAndDevice.Sound where
  kernel := linkMounted_sound
  fresh := by
    intro m hm hlive
    have hcount := hlive.1
    simp only [rootAndDevice, linkMounted, rootMounted] at hm hcount
    rw [if_neg (by omega)] at hcount
    exact absurd hcount (lt_irrefl _)

/-- The path `/m`. -/
def pathM : Path := { Path.root with components := [['m']] }

theorem device_open : 0 < (rootAndDevice.devs 0).refcount := by decide

theorem pathM_live :
    ∀ m, pathM.mnt = some m → rootAndDevice.kernel.mounts.Live m := nofun

/-- A disk that answers. -/
def goodDisk : Disk where
  seekBoot := .ok ()
  readBoot := .ok ()
  rootType := 1
  seekInode := .ok ()
  readInode := .ok ()

def plentyMount : MountMem where
  superBlock := true
  bootBlock := true
  root := true
  path := plenty
  entry := true
  node := true

/-- An archive is mounted, and unmounted again. -/
theorem mount_umount_ustar :
    ∃ s₁ s₃, rootAndDevice.doMount 0 .ustar pathM goodDisk () plentyMount =
        .ok (s₁, .ok ()) ∧
      s₁.doUmount pathM plenty = .ok (s₃, .ok ()) ∧ MountState.Restored rootAndDevice s₃ := by
  obtain ⟨s₁, hmount⟩ : ∃ s₁, rootAndDevice.doMount 0 .ustar pathM goodDisk () plentyMount =
      .ok (s₁, .ok ()) := ⟨_, rfl⟩
  have hiff := (mount_umount_iff rootAndDevice_sound device_open pathM_live .ustar goodDisk ()
    plentyMount plenty).1 linkDrivers s₁ s₁ hmount .start
  obtain ⟨s₃, humount, hrestored⟩ := hiff.mpr ⟨rfl, rfl⟩
  exact ⟨s₁, s₃, hmount, humount, hrestored⟩

/-- An ece391fs is mounted and unmounted, and the device keeps a reference; so it does when
there is no memory for the root inode.  The path without components and without a mount is
not refused. -/
theorem ece391fs_keeps_device :
    (∃ s₁, rootAndDevice.doMount 0 .ece391fs pathM goodDisk () plentyMount =
        .ok (s₁, .ok ()) ∧
      ¬ ∃ s₃, s₁.doUmount pathM plenty = .ok (s₃, .ok ()) ∧
        MountState.Restored rootAndDevice s₃) ∧
      (∃ s' e, rootAndDevice.doMount 0 .ece391fs pathM goodDisk ()
          { plentyMount with root := false } = .ok (s', .error e) ∧
        (s'.devs 0).refcount = 2) ∧
      rootAndDevice.doUmount .empty plenty = .error .null := by
  refine ⟨?_, ⟨_, ENOMEM, rfl, by decide⟩, rfl⟩
  obtain ⟨s₁, hmount⟩ : ∃ s₁, rootAndDevice.doMount 0 .ece391fs pathM goodDisk () plentyMount =
      .ok (s₁, .ok ()) := ⟨_, rfl⟩
  refine ⟨s₁, hmount, fun hrestored => ?_⟩
  have hbetween : MountState.Between linkDrivers s₁ s₁ [] := .start
  have hiff := MountState.umount_restores_iff rootAndDevice_sound device_open pathM_live hmount
    hbetween plenty
  exact absurd (hiff.mp hrestored).1 Bool.false_ne_true

end Vfs
end JkxyKernel
