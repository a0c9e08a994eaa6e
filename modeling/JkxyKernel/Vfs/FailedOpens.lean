import JkxyKernel.Vfs.Resolution

/-!
# Failed opens

Is everything released when an open fails?  `inode_open` releases what it has acquired, and
so do the opens up to the inode.  Behind it `filp_openat` puts the inode and forgets the
path, with the path's reference to its mount; `filp_open_dummy` takes a second reference to
the inode for the file, and puts one when the file does not open.

So a failing call releases everything unless it gives up that late.
-/

namespace JkxyKernel
namespace Vfs

open Errno

variable {σ ν φ : Type}

/-- The opens. -/
inductive OpenCall (ν φ : Type)
  | openat (dfd : BitVec 32) (path : List Char) (flags : BitVec 32) (mode : BitVec 16)
      (mem : OpenMem)
  | dummy (op : φ) (prepInode : Option (Node ν → Except Errno (Node ν))) (flags : BitVec 32)
      (mode : BitVec 16) (mem : DummyMem)
  | anondevice (dev flags : BitVec 32) (mode : BitVec 16) (mem : DummyMem)

/-- The counts are what they were, the same inodes are allocated, and as many paths. -/
structure Released (k k' : Kernel σ ν φ) : Prop where
  mounts : ∀ m, (k'.mounts.cells m).refcount = (k.mounts.cells m).refcount
  inodes : ∀ i, (k'.inodes.cell i).map Inode.refcount = (k.inodes.cell i).map Inode.refcount
  paths : k'.paths = k.paths

namespace Kernel

section Calls

variable (k : Kernel σ ν φ) (ops : Drivers σ ν φ) (rounds : Nat)

/-- What the call does. -/
def openCall : OpenCall ν φ → Except Stop (Kernel σ ν φ × Except Errno (File φ))
  | .openat dfd path flags mode mem => k.openat ops rounds dfd path flags mode mem
  | .dummy op prepInode flags mode mem => k.openDummy ops op prepInode flags mode mem
  | .anondevice dev flags mode mem => k.openAnondevice ops dev flags mode mem

/-- When the call fails, everything is released. -/
def FailureReleases (c : OpenCall ν φ) : Prop :=
  ∀ k' e, k.openCall ops rounds c = .ok (k', .error e) → Released k k'

/-- Does `filp_openat` open the inode that it found?  Not a symbolic link, not a device
without a driver, not a directory for writing, and not without the memory for the file. -/
def admits (node : Node ν) (flags : BitVec 32) (mem : Bool) (store : σ) : Bool :=
  match k.fileOp ops node with
  | .error _ => false
  | .ok op =>
      !(k.linux && node.mode &&& S_IFMT == S_IFDIR &&
          (hasFlag flags O_WRONLY || hasFlag flags O_RDWR)) &&
        mem && (ops.openFile op flags node store).1.isNone

/-- Does `filp_open_dummy` come to the open operation, and does that fail? -/
def dummyFails (op : φ) (prepInode : Option (Node ν → Except Errno (Node ν)))
    (flags : BitVec 32) (mode : BitVec 16) (mem : DummyMem) : Bool :=
  (Path.root.cloneMem mem.path).isSome && mem.inode && mem.file &&
    match dummyNode ops prepInode mode with
    | .error _ => false
    | .ok node => (ops.openFile op flags node k.store).1.isSome

/-- Does the call give up the inode that it has found or made? -/
def givesUp : OpenCall ν φ → Bool
  | .openat dfd path flags mode mem =>
      match k.resolvePath ops flags mode rounds dfd path mem with
      | some (.ok (node, _), store) => !k.admits ops node flags mem.file store
      | _ => false
  | .dummy op prepInode flags mode mem => k.dummyFails ops op prepInode flags mode mem
  | .anondevice dev flags mode mem =>
      match getDevFileOp k.devRegistry mode dev with
      | none => false
      | some op =>
          k.dummyFails ops op (some fun node => .ok { node with rdev := dev }) flags mode mem

end Calls

/-! ### What a call is left with -/

section Outcomes

variable {ops : Drivers σ ν φ} {rounds : Nat} {k₀ k : Kernel σ ν φ} {paths : List Path}
  {inodes : List (Nat × Node ν)} {store : σ} {dest : Path} {i : Nat} {node : Node ν}

/-- What a call comes to, and whether it gave up the inode: it goes on following links, the
file holds the path and the inode, nothing is held, or something still is. -/
inductive Outcome (k₀ : Kernel σ ν φ) :
    Except Stop (Kernel σ ν φ × Except Errno (File φ)) → Bool → Prop
  | hang : Outcome k₀ (.error .hang) false
  | opened {k : Kernel σ ν φ} {file : File φ} {node : Node ν} {store : σ} :
      Holds k₀ k [file.path] [(file.inode, node)] store →
        Outcome k₀ (.ok (k, .ok file)) false
  | released {k : Kernel σ ν φ} {e : Errno} {store : σ} :
      Holds k₀ k [] [] store → Outcome k₀ (.ok (k, .error e)) false
  | kept {k : Kernel σ ν φ} {e : Errno} {paths : List Path} {inodes : List (Nat × Node ν)}
      {store : σ} :
      Holds k₀ k paths inodes store → (paths ≠ [] ∨ inodes ≠ []) →
        Outcome k₀ (.ok (k, .error e)) true

theorem Holds.released (h : Holds k₀ k [] [] store) : Released k₀ k where
  mounts := congrFun h.mounts.counts.returned
  inodes := h.inodes.returned
  paths := h.paths

/-- A path or an inode that is held is not released. -/
theorem Holds.not_released
    (h : Holds k₀ k paths inodes store) (hne : paths ≠ [] ∨ inodes ≠ []) :
    ¬ Released k₀ k := by
  intro hr
  rcases hne with hne | hne
  · have hlen := List.length_pos_iff.mpr hne
    have := h.paths
    have := hr.paths
    omega
  · obtain ⟨⟨i, node⟩, hi⟩ := List.exists_mem_of_ne_nil _ hne
    have hlt := h.inodes.counts.lt (List.mem_map_of_mem (f := Prod.fst) hi)
    rw [InodeTable.refcount_eq, InodeTable.refcount_eq, hr.inodes i] at hlt
    exact Int.lt_irrefl _ hlt

/-- The calls that fail release everything, unless they gave up the inode. -/
theorem Outcome.failureReleases_iff
    {c : OpenCall ν φ} {late : Bool} (h : Outcome k₀ (k₀.openCall ops rounds c) late) :
    k₀.FailureReleases ops rounds c ↔ late = false := by
  simp only [FailureReleases]
  generalize k₀.openCall ops rounds c = result at h ⊢
  cases h with
  | hang => simp
  | opened => simp
  | released h =>
      refine ⟨fun _ => rfl, fun _ k' e heq => ?_⟩
      cases heq
      exact h.released
  | kept h hne =>
      refine ⟨fun hr => absurd (hr _ _ rfl) (h.not_released hne), nofun⟩

/-- What `filp_openat` does with the inode changes the store at most. -/
theorem openFound_spec
    (ops : Drivers σ ν φ) (k : Kernel σ ν φ) (i : Nat) (node : Node ν) (dest : Path)
    (flags : BitVec 32) (mem : Bool) :
    ∃ store', (k.openFound ops i node dest flags mem).1 = { k with store := store' } ∧
      match (k.openFound ops i node dest flags mem).2 with
      | .error _ => k.admits ops node flags mem k.store = false
      | .ok file => k.admits ops node flags mem k.store = true ∧ file.inode = i ∧
          file.path = dest := by
  simp only [openFound, admits]
  cases k.fileOp ops node with
  | error e => exact ⟨k.store, rfl, rfl⟩
  | ok op =>
      simp only
      split
      next hdir =>
        exact ⟨k.store, rfl, by simp only [hdir, Bool.not_true, Bool.false_and]⟩
      next hdir =>
        cases mem with
        | false => exact ⟨k.store, rfl, by simp⟩
        | true =>
            simp only [Bool.not_true, Bool.false_eq_true, if_false, hdir, Bool.not_false,
              Bool.and_self, Bool.true_and]
            rcases ops.openFile op flags node k.store with ⟨_ | e, store'⟩
            · exact ⟨store', rfl, rfl, rfl, rfl⟩
            · exact ⟨store', rfl, rfl⟩

theorem openat_outcome
    (hk₀ : k₀.Sound) (dfd : BitVec 32) (path : List Char) (flags : BitVec 32)
    (mode : BitVec 16) (mem : OpenMem) :
    Outcome k₀ (k₀.openCall ops rounds (.openat dfd path flags mode mem))
      (k₀.givesUp ops rounds (.openat dfd path flags mode mem)) := by
  have hspec := inodeOpen_spec ops flags mode hk₀ rounds dfd path mem
  simp only [openCall, openat, givesUp]
  generalize k₀.inodeOpen ops flags mode rounds dfd path mem = result at hspec ⊢
  generalize k₀.resolvePath ops flags mode rounds dfd path mem = found at hspec ⊢
  cases hspec with
  | hang => exact .hang
  | failed h => exact .released h
  | @found k i node dest store h =>
      have hi : k.inodes.node i = some node := h.nodes _ List.mem_cons_self
      have hadmits : k.admits ops node flags mem.file k.store =
          k₀.admits ops node flags mem.file store := by
        rw [h.store_eq]
        simp only [admits, fileOp]
        rw [h.frame]
      obtain ⟨store', hstore, hres⟩ := openFound_spec ops k i node dest flags mem.file
      rw [hadmits] at hres
      simp only [bind, Except.bind, hi]
      have h' := h.setStore store'
      rw [← hstore] at h'
      rcases hfound : k.openFound ops i node dest flags mem.file with ⟨k', e | file⟩
      · rw [hfound] at hres h'
        have hno : k₀.admits ops node flags mem.file store = false := hres
        obtain ⟨k₂, hk₂, h₂⟩ := putInode_holds hk₀ h'
        simp only [hk₂, hno, Bool.not_false]
        exact .kept h₂ (.inl (List.cons_ne_nil _ _))
      · rw [hfound] at hres h'
        obtain ⟨hyes, rfl, rfl⟩ := hres
        simp only [hyes, Bool.not_true]
        exact .opened h'

/-- Up to the open operation, `filp_open_dummy` releases the inode and the path. -/
theorem abandonDummy_spec
    {e : Errno} (hk₀ : k₀.Sound) (h : Holds k₀ k [dest] ((i, node) :: inodes) store) :
    ∃ k', k.abandonDummy i dest e = .ok (k', .error e) ∧ Holds k₀ k' [] inodes store := by
  obtain ⟨k₁, hk₁, h₁⟩ := putInode_holds hk₀ h
  obtain ⟨k₂, hk₂, h₂⟩ := destroyPath_holds h₁
  exact ⟨k₂, by simp only [abandonDummy, hk₁, hk₂, bind, Except.bind], h₂⟩

theorem openDummy_outcome
    (hk₀ : k₀.Sound) (op : φ) (prepInode : Option (Node ν → Except Errno (Node ν)))
    (flags : BitVec 32) (mode : BitVec 16) (mem : DummyMem) :
    Outcome k₀ (k₀.openDummy ops op prepInode flags mode mem)
      (k₀.dummyFails ops op prepInode flags mode mem) := by
  obtain ⟨k₁, hk₁, h₁⟩ := clonePath_holds (.refl k₀) .root mem.path nofun
  simp only [openDummy, dummyFails, hk₁, bind, Except.bind]
  cases hpath : Path.root.cloneMem mem.path with
  | none =>
      rw [hpath] at h₁
      exact .released h₁
  | some path =>
      rw [hpath] at h₁
      simp only [Option.isSome_some, Bool.true_and]
      cases hmem : mem.inode with
      | false =>
          obtain ⟨k₂, hk₂, h₂⟩ := destroyPath_holds h₁
          simp only [Bool.not_false, if_true, hk₂, Bool.false_and]
          exact .released h₂
      | true =>
          simp only [Bool.not_true, Bool.false_eq_true, if_false, Bool.true_and]
          cases hprep : dummyNode ops prepInode mode with
          | error e =>
              obtain ⟨k₂, hk₂, h₂⟩ := abandonDummy_spec (e := e) hk₀
                (make_holds h₁ { mode := mode, rdev := 0, vendor := ops.dummy })
              simp only [hk₂, Bool.and_false]
              exact .released h₂
          | ok node =>
              have h₂ := make_holds h₁ node
              cases hfile : mem.file with
              | false =>
                  obtain ⟨k₃, hk₃, h₃⟩ := abandonDummy_spec (e := ENOMEM) hk₀ h₂
                  simp only [Bool.not_false, if_true, hk₃, Bool.false_and]
                  exact .released h₃
              | true =>
                  -- The second reference is the file's.
                  obtain ⟨k₃, hk₃, h₃⟩ := getInode_holds h₂ (h₂.nodes _ List.mem_cons_self)
                  simp only [Bool.not_true, Bool.false_eq_true, if_false, hk₃, h₃.store_eq,
                    Bool.true_and]
                  rcases ops.openFile op flags node k₀.store with ⟨_ | e, store'⟩
                  · obtain ⟨k₄, hk₄, h₄⟩ := putInode_holds hk₀ (h₃.setStore store')
                    simp only [hk₄]
                    exact .opened h₄
                  · obtain ⟨k₄, hk₄, h₄⟩ := abandonDummy_spec (e := e) hk₀ (h₃.setStore store')
                    simp only [hk₄]
                    exact .kept h₄ (.inr (List.cons_ne_nil _ _))

/-- Every open comes to what is said of it. -/
theorem openCall_outcome (hk₀ : k₀.Sound) (c : OpenCall ν φ) :
    Outcome k₀ (k₀.openCall ops rounds c) (k₀.givesUp ops rounds c) := by
  cases c with
  | openat dfd path flags mode mem => exact openat_outcome hk₀ dfd path flags mode mem
  | dummy op prepInode flags mode mem =>
      exact openDummy_outcome hk₀ op prepInode flags mode mem
  | anondevice dev flags mode mem =>
      simp only [openCall, openAnondevice, givesUp]
      cases getDevFileOp k₀.devRegistry mode dev with
      | none => exact .released (.refl k₀)
      | some op => exact openDummy_outcome hk₀ op _ flags mode mem

end Outcomes
end Kernel

/-- **Failed opens.**  When an open fails, the counts of the mounts and of the inodes are
what they were, and no path or inode that the call made stays allocated, if and only if the
call does not give up an inode that it has found and then does not admit, or has made and
then does not open. -/
theorem failed_opens_release
    {ops : Drivers σ ν φ} {k : Kernel σ ν φ} (hk : k.Sound) (rounds : Nat)
    (c : OpenCall ν φ) :
    k.FailureReleases ops rounds c ↔ k.givesUp ops rounds c = false :=
  (Kernel.openCall_outcome hk c).failureReleases_iff

/-! ### A file system with a symbolic link -/

/-- A symbolic link `l` in the root directory, and a block device that does not open, as
without an initrd. -/
def linkDrivers : Drivers Unit Unit Unit where
  lookup _ component _ store :=
    if component = ['l'] then
      (.ok { mode := S_IFLNK ||| 0o777, rdev := 0, vendor := () }, store)
    else (.error ENOENT, store)
  create _ _ _ _ store := (.error EINVAL, store)
  readlink _ _ store := (.ok ['x'], store)
  defaultFileOps _ := ()
  openFile _ _ _ store := (some ENXIO, store)
  dummy := ()

/-- The file system is mounted at the root. -/
def linkMounted : Kernel Unit Unit Unit where
  mounts := rootMounted
  root _ := 0
  inodes :=
    { cell := fun i =>
        if i = 0 then some { refcount := 1, node := ⟨S_IFDIR ||| 0o555, 0, ()⟩ } else none
      next := 1
      unused := fun i hi => if_neg (by omega) }
  paths := 1
  cwd := some .root
  files := []
  devRegistry := [{ type := S_IFBLK, dev := 0x100, fileOp := () }]
  linux := true
  store := ()

theorem linkMounted_sound : linkMounted.Sound where
  table := rootMounted_consistent.table
  mounted := by
    intro m hm
    rw [List.mem_singleton.mp hm]
    exact ⟨by decide, rfl⟩
  rooted := fun _ _ => rfl
  opened := by
    intro dfd path hpath m hm
    simp only [Kernel.dirPath, linkMounted] at hpath
    split at hpath
    next =>
      cases hpath
      cases hm
    next => cases hpath
  counts := by
    intro i inode hinode
    simp only [linkMounted] at hinode
    split at hinode
    next =>
      cases hinode
      decide
    next => cases hinode

/-- All the memory it takes. -/
def plentyOpen : OpenMem where
  fromstr := plenty
  premount := plenty
  round _ := { checkmnt := plenty, linkTarget := true, fromstr := plenty, join := plenty }
  file := true

/-- The link is opened without being followed. -/
def openLink : OpenCall Unit Unit :=
  .openat AT_FDCWD ['/', 'l'] O_NOFOLLOW 0 plentyOpen

/-- The block device is opened without a device file. -/
def openInitrd : OpenCall Unit Unit :=
  .anondevice 0x100 0 (S_IFBLK ||| 0o666) { path := plenty, inode := true, file := true }

/-- A file that does not exist is opened. -/
def openMissing : OpenCall Unit Unit :=
  .openat AT_FDCWD ['/', 'm'] 0 0 plentyOpen

theorem failed_opens_release_linkMounted :
    linkMounted.Sound ∧ linkMounted.FailureReleases linkDrivers 1 openMissing :=
  ⟨linkMounted_sound, (failed_opens_release linkMounted_sound 1 openMissing).mpr rfl⟩

/-- The link leaves a path and a reference to the mount behind, the device an inode. -/
theorem failed_opens_keep :
    linkMounted.Sound ∧
      (∃ k', linkMounted.openCall linkDrivers 1 openLink = .ok (k', .error ELOOP) ∧
        (linkMounted.mounts.cells 0).refcount = 1 ∧ (k'.mounts.cells 0).refcount = 2 ∧
        linkMounted.paths = 1 ∧ k'.paths = 2 ∧ ¬ Released linkMounted k') ∧
      ∃ k', linkMounted.openCall linkDrivers 1 openInitrd = .ok (k', .error ENXIO) ∧
        (linkMounted.inodes.cell 1).map Inode.refcount = none ∧
        (k'.inodes.cell 1).map Inode.refcount = some 1 ∧ ¬ Released linkMounted k' := by
  refine ⟨linkMounted_sound, ⟨_, rfl, rfl, rfl, rfl, rfl, fun h => ?_⟩,
    ⟨_, rfl, rfl, rfl, fun h => ?_⟩⟩
  · exact absurd h.paths (by decide)
  · exact absurd (h.inodes 1) (by decide)

end Vfs
end JkxyKernel
