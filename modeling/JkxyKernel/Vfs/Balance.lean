import JkxyKernel.Vfs.FailedOpens

/-!
# The references of `inode_open`

`inode_open` walks with one inode in hand and one path, swaps them for others when it
follows a symbolic link, and leaves through several labels.  However often it starts again
and wherever it leaves, it is left with nothing when it fails.  When it succeeds it is left
with the inode, and with the path only if the caller asks for it.
-/

namespace JkxyKernel
namespace Vfs

variable {σ ν φ : Type}

/-- A call has acquired a reference to an inode, and one to the mount of the path it
returns. -/
structure Acquired (k k' : Kernel σ ν φ) (i : Nat) (out : Option Path) : Prop where
  allocated : ∀ j, (k'.inodes.cell j).isSome ↔ (k.inodes.cell j).isSome ∨ j = i
  inodes : ∀ j, k'.inodes.refcount j = k.inodes.refcount j + if j = i then 1 else 0
  mounts : ∀ m, (k'.mounts.cells m).refcount =
    (k.mounts.cells m).refcount + if out.bind Path.mnt = some m then 1 else 0
  mounted : ∀ path, out = some path → path.mnt.isSome
  paths : k'.paths = k.paths + out.toList.length

/-- What `inode_open` may come to: it follows links for longer than the rounds, it fails
with nothing acquired, or it has acquired what it returns. -/
def BalancedOpen (k : Kernel σ ν φ) (pathOut : Bool) :
    Except Stop (Kernel σ ν φ × Except Errno (Nat × Option Path)) → Prop
  | .error stop => stop = .hang
  | .ok (k', .error _) => Released k k'
  | .ok (k', .ok (i, out)) => out.isSome = pathOut ∧ Acquired k k' i out

namespace Kernel

variable {ops : Drivers σ ν φ} {flags : BitVec 32} {mode : BitVec 16} {k k' : Kernel σ ν φ}
  {node : Node ν} {store store' : σ} {i : Nat}

/-- A path that leads to an inode has a mount. -/
theorem resolve_mnt
    {mem : Nat → RoundMem} (rounds : Nat) {premount dest : Path}
    (h : k.resolve ops flags mode mem rounds premount store =
      some (.ok (node, dest), store')) :
    dest.mnt.isSome := by
  induction rounds generalizing premount store with
  | zero => cases h
  | succ rounds ih =>
      simp only [resolve] at h
      split at h
      next => cases h
      next path hpath =>
        split at h
        next => cases h
        next r hr =>
          have hmnt : path.mnt.isSome := by
            obtain ⟨m, hm, -⟩ := Option.map_eq_some_iff.mp hr
            rw [hm]
            rfl
          split at h
          next => cases h
          next =>
            split at h
            next => cases h
            next =>
              split at h
              next => cases h
              next =>
                split at h
                next =>
                  split at h
                  next => cases h
                  next => exact ih h
                next =>
                  cases h
                  exact hmnt

/-- What is held at the end of a successful call is what the call has acquired. -/
theorem Holds.acquired
    {out : Option Path} (h : Holds k k' out.toList [(i, node)] store)
    (hmounted : ∀ path, out = some path → path.mnt.isSome) : Acquired k k' i out where
  allocated := by
    intro j
    rw [h.inodes.allocated j, List.map_cons, List.map_nil, List.mem_singleton]
  inodes := by
    intro j
    rw [h.inodes.counts j, List.map_cons, List.map_nil, List.count_singleton]
    by_cases hj : j = i
    · simp [hj]
    · simp [hj, Ne.symm hj]
  mounts := by
    intro m
    have heq : out.toList.filterMap Path.mnt = (out.bind Path.mnt).toList := by
      cases out with
      | none => rfl
      | some path => cases hm : path.mnt <;> simp [hm]
    refine (h.mounts.counts m).trans ?_
    rw [heq]
    cases out.bind Path.mnt with
    | none => simp
    | some m' =>
        rw [Option.toList_some, List.count_singleton]
        by_cases hm : m' = m
        · simp [hm]
        · simp [hm]
  mounted := hmounted
  paths := h.paths

/-- What the path of the string leads to, with that path in hand; a path that is found has
a mount. -/
theorem openFrom_mounted
    (ops : Drivers σ ν φ) (flags : BitVec 32) (mode : BitVec 16) (hk : k.Sound) (rounds : Nat) (dfd : BitVec 32) {rel : Path} (mem : OpenMem)
    (h : Holds k k' [rel] [] k.store) (hrel : rel.mnt = none) :
    ∃ found, Resolved k [rel] (k'.openFrom ops flags mode rounds dfd rel mem) found ∧
      ∀ node dest store, found = some (.ok (node, dest), store) → dest.mnt.isSome := by
  refine ⟨_, openFrom_spec ops flags mode hk rounds dfd mem h hrel, ?_⟩
  intro node dest store hfound
  split at hfound
  next => cases hfound
  next => exact resolve_mnt rounds hfound

/-- Before the string's path is destroyed, it is held beside what the call returns. -/
theorem finish_balanced
    {rel dest : Path} (pathOut : Bool) (hdest : dest.mnt.isSome)
    (h : Holds k k' [dest, rel] [(i, node)] store) :
    BalancedOpen k pathOut (do
      let k₁ ← if pathOut then .ok k' else k'.destroyPath dest
      let k₂ ← k₁.destroyPath rel
      .ok (k₂, .ok (i, if pathOut then some dest else none))) := by
  cases pathOut with
  | false =>
      obtain ⟨k₁, hk₁, h₁⟩ := destroyPath_holds h
      obtain ⟨k₂, hk₂, h₂⟩ := destroyPath_holds h₁
      simp only [Bool.false_eq_true, if_false, hk₁, hk₂, bind, Except.bind]
      exact ⟨rfl, Holds.acquired h₂ nofun⟩
  | true =>
      obtain ⟨k₂, hk₂, h₂⟩ := destroyPath_holds (h.perm (.swap _ _ _))
      simp only [if_true, hk₂, bind, Except.bind]
      refine ⟨rfl, Holds.acquired h₂ ?_⟩
      rintro _ ⟨⟩
      exact hdest

end Kernel

/-- **Balance of `inode_open`.**  For every file system, path and flags, and wherever a
lookup, a `create`, a `readlink` or an allocation fails, after any number of links: when
`inode_open` fails, all counts are what they were; when it succeeds, one more reference is
held on the inode, and one on the mount of the returned path if a path is asked for. -/
theorem inode_open_balances
    {k : Kernel σ ν φ} (hk : k.Sound) (ops : Drivers σ ν φ) (flags : BitVec 32)
    (mode : BitVec 16) (rounds : Nat) (dfd : BitVec 32) (path : List Char) (mem : OpenMem)
    (pathOut : Bool) :
    BalancedOpen k pathOut
      (k.inodeOpenOut ops flags mode rounds dfd path mem pathOut) := by
  simp only [Kernel.inodeOpenOut, Kernel.fromstr]
  cases hrel : Path.fromstrMem path mem.fromstr with
  | error e => exact (Kernel.Holds.refl k).released
  | ok rel =>
      have hmnt := Kernel.mnt_fromstrMem hrel
      obtain ⟨found, hspec, hmounted⟩ := Kernel.openFrom_mounted ops flags mode hk
        rounds dfd mem ((Kernel.Holds.refl k).newPath hmnt) hmnt
      simp only
      generalize Kernel.openFrom ops flags mode _ rounds dfd rel mem = result at hspec ⊢
      cases hspec with
      | hang => rfl
      | failed h =>
          obtain ⟨k₁, hk₁, h₁⟩ := Kernel.destroyPath_holds h
          simp only [hk₁, bind, Except.bind]
          exact h₁.released
      | @found k₁ i node dest store h =>
          exact Kernel.finish_balanced pathOut (hmounted node dest store rfl) h

/-- The link is opened without being followed, and its path is asked for. -/
theorem inode_open_balances_link :
    linkMounted.Sound ∧
      BalancedOpen linkMounted true (linkMounted.inodeOpenOut linkDrivers O_NOFOLLOW 0 1
        AT_FDCWD ['/', 'l'] plentyOpen true) :=
  ⟨linkMounted_sound,
    inode_open_balances linkMounted_sound linkDrivers O_NOFOLLOW 0 1 AT_FDCWD ['/', 'l']
      plentyOpen true⟩

end Vfs
end JkxyKernel
