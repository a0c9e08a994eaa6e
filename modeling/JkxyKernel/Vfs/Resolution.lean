import JkxyKernel.Vfs.Borrowing

/-!
# Name resolution

What a path leads to, as a matter of the file systems alone: `Kernel.resolvePath` walks
from the root inode of a mount through the components, follows symbolic links, and knows no
counts.  `inode_open` finds the same inode, fails with the same error, or follows links for
as long; when it fails it holds nothing, and when it succeeds it holds the inode and the
path.

`Kernel.Holds k₀ k paths inodes store` says what a running call has acquired since `k₀`:
the path objects in `paths`, with their mounts, and references to the inodes in `inodes`.
-/

namespace JkxyKernel
namespace Vfs

open Errno

variable {σ ν φ : Type}

namespace Kernel

/-! ### Resolution -/

section Resolve

variable (k : Kernel σ ν φ) (ops : Drivers σ ν φ) (flags : BitVec 32) (mode : BitVec 16)

/-- The inode that the components lead to, and whether it was created. -/
def find : List (List Char) → Node ν → Bool → σ → Except Errno (Node ν × Bool) × σ
  | [], node, created, store => (.ok (node, created), store)
  | component :: rest, dir, created, store =>
      if component = [] then find rest dir created store
      else
        match nextNode ops flags mode dir component rest.isEmpty store with
        | (.error e, _, store) => (.error e, store)
        | (.ok node, create, store) => find rest node (created || create) store

/-- The path that a symbolic link at the end of a path stands for. -/
def linkPath (node : Node ν) (dest : Path) (mem : RoundMem) (store : σ) :
    Except Errno Path × σ :=
  match readTarget ops node mem store with
  | (.error e, store) => (.error e, store)
  | (.ok rel, store) =>
      (({ dest with components := dest.components.dropLast }.joinMem rel mem.join).elim
        (.error (joinErrno rel)) .ok, store)

/-- The inode that a path leads to, and the path within its mount; `none` when the rounds
do not suffice for the links. -/
def resolve (mem : Nat → RoundMem) :
    Nat → Path → σ → Option (Except Errno (Node ν × Path) × σ)
  | 0, _, _ => none
  | rounds + 1, premount, store =>
      match k.mounts.checkmntMem premount (mem rounds).checkmnt with
      | none => some (.error ENOMEM, store)
      | some dest =>
          match dest.mnt.map k.root with
          | none => some (.error EINVAL, store)
          | some r =>
              match k.inodes.node r with
              | none => none
              | some root =>
                  match find ops flags mode dest.components root false store with
                  | (.error e, store) => some (.error e, store)
                  | (.ok (node, created), store) =>
                      if hasFlag flags O_EXCL && !created then some (.error EEXIST, store)
                      else if follows flags node then
                        match linkPath ops node dest (mem rounds) store with
                        | (.error e, store) => some (.error e, store)
                        | (.ok target, store) => resolve mem rounds target store
                      else some (.ok (node, dest), store)

/-- The path that a call starts from. -/
def startPath (dfd : BitVec 32) (rel : Path) (mem : Alloc) : Except Errno Path :=
  if rel.absolute then (rel.cloneMem mem).elim (.error ENOMEM) .ok
  else
    match k.dirPath dfd with
    | none => .error EBADF
    | some dir => (dir.joinMem rel mem).elim (.error (joinErrno rel)) .ok

/-- The inode that a string leads to from a descriptor. -/
def resolvePath (rounds : Nat) (dfd : BitVec 32) (path : List Char) (mem : OpenMem) :
    Option (Except Errno (Node ν × Path) × σ) :=
  match Path.fromstrMem path mem.fromstr with
  | .error e => some (.error e, k.store)
  | .ok rel =>
      match k.startPath dfd rel mem.premount with
      | .error e => some (.error e, k.store)
      | .ok start => k.resolve ops flags mode mem.round rounds start k.store

end Resolve

/-- A path that is read from a string carries no mount. -/
theorem mnt_fromstrMem
    {pathstr : List Char} {mem : Alloc} {path : Path}
    (h : Path.fromstrMem pathstr mem = .ok path) : path.mnt = none := by
  simp only [Path.fromstrMem] at h
  split at h
  next => cases h
  next =>
    split at h
    next => cases h
    next =>
      have hmnt := PathState.mnt_extendMem (pathstr.splitOn '/') mem.components
        (Path.start pathstr)
      have hstart : (Path.start pathstr).mnt = none := by
        simp only [Path.start]
        split <;> rfl
      split at h
      next p heq =>
        cases h
        rw [heq, hstart] at hmnt
        exact hmnt
      next => cases h

theorem mnt_readTarget
    {ops : Drivers σ ν φ} {node : Node ν} {mem : RoundMem} {store store' : σ} {rel : Path}
    (h : readTarget ops node mem store = (.ok rel, store')) : rel.mnt = none := by
  simp only [readTarget] at h
  split at h
  next => cases h
  next =>
    split at h
    next => cases h
    next => cases h
    next => exact mnt_fromstrMem (congrArg Prod.fst h)

/-! ### What a call holds -/

/-- No reference dangles, and the mount table is in order. -/
structure Sound (k : Kernel σ ν φ) : Prop where
  table : k.mounts.table.WellFormed
  mounted : ∀ m ∈ k.mounts.table.entries, k.mounts.Live m
  rooted : ∀ m, k.mounts.Live m → (k.inodes.cell (k.root m)).isSome
  opened : ∀ dfd path, k.dirPath dfd = some path → ∀ m, path.mnt = some m → k.mounts.Live m
  counts : k.inodes.Counts

/-- The call has acquired these paths and inodes since `k₀`, and nothing else but the
store has changed. -/
structure Holds (k₀ k : Kernel σ ν φ) (ps : List Path) (is : List (Nat × Node ν))
    (store : σ) : Prop where
  mounts : k₀.mounts.Lends k.mounts (ps.filterMap Path.mnt)
  inodes : k₀.inodes.Lends k.inodes (is.map Prod.fst)
  nodes : ∀ i ∈ is, k.inodes.node i.1 = some i.2
  paths : k.paths = k₀.paths + ps.length
  frame : k = { k₀ with mounts := k.mounts, inodes := k.inodes, paths := k.paths, store := store }

/-- A mount that is alive has its root inode. -/
theorem rooted_node {k : Kernel σ ν φ} {m : Nat} (hk : k.Sound) (hm : k.mounts.Live m) :
    ∃ node, k.inodes.node (k.root m) = some node := by
  obtain ⟨inode, hinode⟩ := Option.isSome_iff_exists.mp (hk.rooted m hm)
  exact ⟨inode.node, congrArg (Option.map Inode.node) hinode⟩

section Holding

variable {k₀ k : Kernel σ ν φ} {paths paths' : List Path} {inodes : List (Nat × Node ν)}
  {store : σ} {path : Path}

theorem Holds.refl (k : Kernel σ ν φ) : Holds k k [] [] k.store :=
  ⟨.refl _, .refl _, nofun, rfl, rfl⟩

theorem Holds.perm
    (h : Holds k₀ k paths inodes store) (hp : paths.Perm paths') :
    Holds k₀ k paths' inodes store :=
  ⟨h.mounts.perm (hp.filterMap _), h.inodes, h.nodes, by rw [h.paths, hp.length_eq], h.frame⟩

theorem Holds.store_eq (h : Holds k₀ k paths inodes store) : k.store = store :=
  congrArg Kernel.store h.frame

theorem Holds.root_eq (h : Holds k₀ k paths inodes store) : k.root = k₀.root := by
  rw [h.frame]

/-- What was allocated stays what it was. -/
theorem Holds.node_eq
    {i : Nat} {node : Node ν} (h : Holds k₀ k paths inodes store)
    (hi : k₀.inodes.node i = some node) : k.inodes.node i = k₀.inodes.node i := by
  refine h.inodes.nodes i ?_
  cases hcell : k₀.inodes.cell i with
  | none => simp [InodeTable.node, hcell] at hi
  | some inode => rfl

/-- The file systems and devices have answered. -/
theorem Holds.setStore (h : Holds k₀ k paths inodes store) (store' : σ) :
    Holds k₀ { k with store := store' } paths inodes store' := by
  refine ⟨h.mounts, h.inodes, h.nodes, h.paths, ?_⟩
  rw [h.frame]

/-- The mount of a path in hand is alive. -/
theorem Holds.live (h : Holds k₀ k paths inodes store) (hpath : path ∈ paths) :
    ∀ m, path.mnt = some m → k₀.mounts.Live m :=
  fun m hm => h.mounts.live m (List.mem_filterMap.mpr ⟨path, hpath, hm⟩)

/-- An operation on paths returns what it made. -/
theorem Holds.made
    {s : PathState} {r : Option Path} (h : Holds k₀ k paths inodes store)
    (hs : k₀.mounts.Lends s ((r.bind Path.mnt).toList ++ paths.filterMap Path.mnt)) :
    Holds k₀ (k.made (s, r)).1 (r.toList ++ paths) inodes store := by
  refine ⟨?_, h.inodes, h.nodes, ?_, ?_⟩
  · have heq : (r.toList ++ paths).filterMap Path.mnt =
        (r.bind Path.mnt).toList ++ paths.filterMap Path.mnt := by
      cases r with
      | none => rfl
      | some path => cases hm : path.mnt <;> simp [hm]
    rw [heq]
    exact hs
  · simp only [Kernel.made, h.paths, List.length_append]
    omega
  · simp only [Kernel.made]
    rw [h.frame]

/-- A path without a mount is allocated. -/
theorem Holds.newPath (h : Holds k₀ k paths inodes store) (hpath : path.mnt = none) :
    Holds k₀ { k with paths := k.paths + 1 } (path :: paths) inodes store := by
  refine ⟨?_, h.inodes, h.nodes, ?_, ?_⟩
  · rw [List.filterMap_cons_none hpath]
    exact h.mounts
  · simp only [h.paths, List.length_cons]
    omega
  · rw [h.frame]

theorem clonePath_holds
    (h : Holds k₀ k paths inodes store) (old : Path) (mem : Alloc)
    (hold : ∀ m, old.mnt = some m → k₀.mounts.Live m) :
    ∃ k', k.clonePath old mem = .ok (k', old.cloneMem mem) ∧
      Holds k₀ k' ((old.cloneMem mem).toList ++ paths) inodes store := by
  obtain ⟨s, hs, hlends⟩ := PathState.clone_lends h.mounts mem hold
  exact ⟨_, by rw [clonePath, hs]; rfl, h.made hlends⟩

theorem joinPath_holds
    (h : Holds k₀ k paths inodes store) (x y : Path) (mem : Alloc)
    (hx : ∀ m, x.mnt = some m → k₀.mounts.Live m) :
    ∃ k', k.joinPath x y mem = .ok (k', x.joinMem y mem) ∧
      Holds k₀ k' ((x.joinMem y mem).toList ++ paths) inodes store := by
  obtain ⟨s, hs, hlends⟩ := PathState.join_lends h.mounts x y mem hx
  exact ⟨_, by rw [joinPath, hs]; rfl, h.made hlends⟩

theorem checkmntPath_holds
    (hk₀ : k₀.Sound) (h : Holds k₀ k paths inodes store) {old : Path} (mem : Alloc)
    (hold : ∀ m, old.mnt = some m → k₀.mounts.Live m) :
    ∃ k', k.checkmntPath old mem = .ok (k', k₀.mounts.checkmntMem old mem) ∧
      Holds k₀ k' ((k₀.mounts.checkmntMem old mem).toList ++ paths) inodes store := by
  obtain ⟨s, hs, hlends⟩ := PathState.checkmnt_lends hk₀.table hk₀.mounted h.mounts mem hold
  exact ⟨_, by rw [checkmntPath, hs]; rfl, h.made hlends⟩

/-- A path in hand is destroyed. -/
theorem destroyPath_holds (h : Holds k₀ k (path :: paths) inodes store) :
    ∃ k', k.destroyPath path = .ok k' ∧ Holds k₀ k' paths inodes store := by
  have heq : (path :: paths).filterMap Path.mnt =
      path.mnt.toList ++ paths.filterMap Path.mnt := by
    cases hm : path.mnt <;> simp [hm]
  obtain ⟨s, hs, hlends⟩ := PathState.dropMount_lends (heq ▸ h.mounts)
  refine ⟨{ k with mounts := s, paths := k.paths - 1 }, ?_, hlends, h.inodes, h.nodes, ?_, ?_⟩
  · rw [destroyPath, hs]
    rfl
  · simp only [h.paths, List.length_cons]
    omega
  · rw [h.frame]

/-- A reference to an allocated inode is taken. -/
theorem getInode_holds
    {i : Nat} {node : Node ν} (h : Holds k₀ k paths inodes store)
    (hi : k.inodes.node i = some node) :
    ∃ k', k.getInode i = .ok k' ∧ Holds k₀ k' paths ((i, node) :: inodes) store := by
  have hsome : (k.inodes.cell i).isSome := by
    rw [← Option.isSome_map (f := Inode.node)]
    rw [InodeTable.node] at hi
    rw [hi]
    rfl
  obtain ⟨t, ht, hlends, hnode⟩ := InodeTable.get_lends h.inodes hsome
  refine ⟨{ k with inodes := t }, ?_, h.mounts, hlends, ?_, h.paths, ?_⟩
  · rw [getInode, ht]
    rfl
  · intro j hj
    rw [hnode]
    rcases List.mem_cons.mp hj with rfl | hj
    · exact hi
    · exact h.nodes j hj
  · rw [h.frame]

/-- The reference to an inode in hand is given back. -/
theorem putInode_holds
    {i : Nat} {node : Node ν} (hk₀ : k₀.Sound)
    (h : Holds k₀ k paths ((i, node) :: inodes) store) :
    ∃ k', k.putInode i = .ok k' ∧ Holds k₀ k' paths inodes store := by
  obtain ⟨t, ht, hlends, hnode⟩ := InodeTable.put_lends hk₀.counts h.inodes
  refine ⟨{ k with inodes := t }, ?_, h.mounts, hlends, ?_, h.paths, ?_⟩
  · rw [putInode, ht]
    rfl
  · intro j hj
    rw [hnode j.1 (List.mem_map_of_mem hj)]
    exact h.nodes j (List.mem_cons_of_mem _ hj)
  · rw [h.frame]

/-- A new inode is in hand. -/
theorem make_holds (h : Holds k₀ k paths inodes store) (node : Node ν) :
    Holds k₀ { k with inodes := k.inodes.make node } paths ((k.inodes.next, node) :: inodes)
      store := by
  obtain ⟨hlends, hself, hothers⟩ := InodeTable.make_lends h.inodes node
  refine ⟨h.mounts, hlends, ?_, h.paths, ?_⟩
  · intro j hj
    rcases List.mem_cons.mp hj with rfl | hj
    · exact hself
    · rw [show InodeTable.node _ j.1 = k.inodes.node j.1 from
        hothers j.1 (List.mem_map_of_mem hj)]
      exact h.nodes j hj
  · rw [h.frame]

end Holding

/-! ### `inode_open` and resolution -/

section Refinement

variable (ops : Drivers σ ν φ) (flags : BitVec 32) (mode : BitVec 16)
  {k₀ k : Kernel σ ν φ} {paths : List Path} {inodes : List (Nat × Node ν)} {store : σ}

/-- The walk holds one inode at a time, the last one that was found. -/
theorem walk_spec
    (hk₀ : k₀.Sound) (components : List (List Char)) {i : Nat} {dir : Node ν} (created : Bool)
    (h : Holds k₀ k paths ((i, dir) :: inodes) store) :
    ∃ k' i' node, walk ops flags mode components k i created =
        .ok (k', i', (find ops flags mode components dir created store).1.map Prod.snd) ∧
      Holds k₀ k' paths ((i', node) :: inodes)
        (find ops flags mode components dir created store).2 ∧
      ∀ found, (find ops flags mode components dir created store).1 = .ok found →
        found.1 = node := by
  induction components generalizing k i dir created store with
  | nil =>
      refine ⟨k, i, dir, rfl, h, ?_⟩
      rintro _ ⟨⟩
      rfl
  | cons component rest ih =>
      simp only [walk, find]
      by_cases hempty : component = []
      · simp only [if_pos hempty]
        exact ih created h
      · have hdir : k.inodes.node i = some dir := h.nodes _ List.mem_cons_self
        simp only [if_neg hempty, hdir, h.store_eq]
        rcases nextNode ops flags mode dir component rest.isEmpty store with
          ⟨_ | node, create, store'⟩
        · exact ⟨_, i, dir, rfl, h.setStore store', nofun⟩
        · -- The new inode is taken before the directory is put.
          have hmake := make_holds (h.setStore store') node
          have hswap : Holds k₀ { k with store := store', inodes := k.inodes.make node } paths
              ((i, dir) :: (k.inodes.next, node) :: inodes) store' :=
            ⟨hmake.mounts, hmake.inodes.perm (.swap _ _ _), fun j hj =>
              hmake.nodes j (List.Perm.mem_iff (.swap _ _ _) |>.mp hj), hmake.paths,
              hmake.frame⟩
          obtain ⟨k₁, hk₁, h₁⟩ := putInode_holds hk₀ hswap
          simp only [hk₁, bind, Except.bind]
          exact ih (created || create) h₁

/-- A link is followed to the path it stands for, which is all that is acquired. -/
theorem followLink_spec
    (node : Node ν) {dest : Path} (mem : RoundMem) (h : Holds k₀ k paths inodes store)
    (hdest : dest ∈ paths) :
    ∃ k', k.followLink ops node dest mem = .ok (k', (linkPath ops node dest mem store).1) ∧
      Holds k₀ k' ((linkPath ops node dest mem store).1.toOption.toList ++ paths) inodes
        (linkPath ops node dest mem store).2 := by
  simp only [followLink, linkPath, h.store_eq]
  rcases htarget : readTarget ops node mem store with ⟨_ | rel, store'⟩
  · exact ⟨_, rfl, h.setStore store'⟩
  · have h₁ := (h.setStore store').newPath (mnt_readTarget htarget)
    obtain ⟨k₂, hk₂, h₂⟩ := joinPath_holds h₁
      { dest with components := dest.components.dropLast } rel mem.join
      (fun m hm => h.live hdest m hm)
    obtain ⟨k₃, hk₃, h₃⟩ := destroyPath_holds (h₂.perm List.perm_middle)
    simp only [hk₂, hk₃, bind, Except.bind]
    refine ⟨k₃, rfl, ?_⟩
    cases hjoin : Path.joinMem { dest with components := dest.components.dropLast } rel mem.join
    next =>
      rw [hjoin] at h₃
      exact h₃
    next =>
      rw [hjoin] at h₃
      exact h₃

/-- What `inode_open` comes to, from what the path leads to. -/
inductive Resolved (k₀ : Kernel σ ν φ) (paths : List Path) :
    Except Stop (Kernel σ ν φ × Except Errno (Nat × Path)) →
      Option (Except Errno (Node ν × Path) × σ) → Prop
  | hang : Resolved k₀ paths (.error .hang) none
  | failed {k : Kernel σ ν φ} {e : Errno} {store : σ} :
      Holds k₀ k paths [] store →
        Resolved k₀ paths (.ok (k, .error e)) (some (.error e, store))
  | found {k : Kernel σ ν φ} {i : Nat} {node : Node ν} {dest : Path} {store : σ} :
      Holds k₀ k (dest :: paths) [(i, node)] store →
        Resolved k₀ paths (.ok (k, .ok (i, dest))) (some (.ok (node, dest), store))

/-- An error after the walk releases the inode and the path. -/
theorem abandon_spec
    {i : Nat} {node : Node ν} {dest : Path} (hk₀ : k₀.Sound) (e : Errno)
    (h : Holds k₀ k (dest :: paths) [(i, node)] store) :
    Resolved k₀ paths (k.abandon i dest e) (some (.error e, store)) := by
  obtain ⟨k₁, hk₁, h₁⟩ := putInode_holds hk₀ h
  obtain ⟨k₂, hk₂, h₂⟩ := destroyPath_holds h₁
  simp only [abandon, hk₁, hk₂, bind, Except.bind]
  exact .failed h₂

/-- By induction on the rounds: the path that is resolved is the one thing in hand, beside
what the caller has. -/
theorem resolveMount_spec (hk₀ : k₀.Sound) (mem : Nat → RoundMem) :
    ∀ (rounds : Nat) (k : Kernel σ ν φ) (premount : Path) (store : σ),
      Holds k₀ k (premount :: paths) [] store →
      Resolved k₀ paths (resolveMount ops flags mode mem rounds k premount)
        (k₀.resolve ops flags mode mem rounds premount store) := by
  intro rounds
  induction rounds with
  | zero => exact fun _ _ _ _ => .hang
  | succ rounds ih =>
      intro k premount store h
      obtain ⟨k₁, hk₁, h₁⟩ := checkmntPath_holds hk₀ h (mem rounds).checkmnt
        (h.live List.mem_cons_self)
      obtain ⟨k₂, hk₂, h₂⟩ := destroyPath_holds (h₁.perm List.perm_middle)
      simp only [resolveMount, resolve, hk₁, hk₂, bind, Except.bind]
      rcases hdest : k₀.mounts.checkmntMem premount (mem rounds).checkmnt with _ | dest
      · rw [hdest] at h₂
        exact .failed h₂
      · rw [hdest] at h₂
        simp only
        cases hm : dest.mnt with
        | none =>
            obtain ⟨k₃, hk₃, h₃⟩ := destroyPath_holds h₂
            simp only [hk₃]
            exact .failed h₃
        | some m =>
            obtain ⟨root, hk₀root⟩ := rooted_node hk₀ (h₂.live List.mem_cons_self m hm)
            obtain ⟨k₃, hk₃, h₃⟩ := getInode_holds h₂ ((h₂.node_eq hk₀root).trans hk₀root)
            obtain ⟨k₄, i, node, hwalk, h₄, hnode⟩ :=
              walk_spec ops flags mode hk₀ dest.components false h₃
            have hi : k₄.inodes.node i = some node := h₄.nodes _ List.mem_cons_self
            simp only [Option.map_some, h₂.root_eq, h₃.root_eq, hk₀root, hk₃, hwalk, hi]
            rcases hfind : find ops flags mode dest.components root false store with
              ⟨e | ⟨node', created⟩, store'⟩
            · rw [hfind] at h₄
              exact abandon_spec hk₀ e h₄
            · rw [hfind] at h₄ hnode
              obtain rfl : node' = node := hnode _ rfl
              simp only [Except.map]
              split
              next => exact abandon_spec hk₀ EEXIST h₄
              next =>
                split
                next =>
                  obtain ⟨k₅, hk₅, h₅⟩ := followLink_spec ops node' (mem rounds) h₄
                    List.mem_cons_self
                  simp only [hk₅]
                  rcases hlink : linkPath ops node' dest (mem rounds) store' with
                    ⟨e | target, store''⟩
                  · rw [hlink] at h₅
                    exact abandon_spec hk₀ e h₅
                  · rw [hlink] at h₅
                    obtain ⟨k₆, hk₆, h₆⟩ := destroyPath_holds (h₅.perm (.swap _ _ _))
                    obtain ⟨k₇, hk₇, h₇⟩ := putInode_holds hk₀ h₆
                    simp only [hk₆, hk₇]
                    exact ih k₇ target store'' h₇
                next => exact .found h₄

/-- The path that a call starts from is all that it acquires at first. -/
theorem premount_spec
    (hk₀ : k₀.Sound) (dfd : BitVec 32) {rel : Path} (mem : Alloc)
    (h : Holds k₀ k (rel :: paths) [] store) (hrel : rel.mnt = none) :
    ∃ k', k.premount dfd rel mem = .ok (k', k₀.startPath dfd rel mem) ∧
      Holds k₀ k' ((k₀.startPath dfd rel mem).toOption.toList ++ rel :: paths) [] store := by
  simp only [premount, startPath]
  split
  next =>
    obtain ⟨k₁, hk₁, h₁⟩ := clonePath_holds h rel mem fun m hm => by
      rw [hrel] at hm
      cases hm
    simp only [hk₁, bind, Except.bind]
    cases hclone : rel.cloneMem mem <;> rw [hclone] at h₁ <;> exact ⟨k₁, rfl, h₁⟩
  next =>
    have hdir : k.dirPath dfd = k₀.dirPath dfd := by
      rw [h.frame]
      rfl
    rw [hdir]
    cases hd : k₀.dirPath dfd with
    | none => exact ⟨k, rfl, h⟩
    | some dir =>
        obtain ⟨k₁, hk₁, h₁⟩ := joinPath_holds h dir rel mem
          (hk₀.opened dfd dir hd)
        simp only [hk₁, bind, Except.bind]
        cases hjoin : dir.joinMem rel mem <;> rw [hjoin] at h₁ <;> exact ⟨k₁, rfl, h₁⟩

/-- What the path of the string leads to, with that path in hand. -/
theorem openFrom_spec
    (hk₀ : k₀.Sound) (rounds : Nat) (dfd : BitVec 32) {rel : Path} (mem : OpenMem)
    (h : Holds k₀ k (rel :: paths) [] k₀.store) (hrel : rel.mnt = none) :
    Resolved k₀ (rel :: paths) (k.openFrom ops flags mode rounds dfd rel mem)
      (match k₀.startPath dfd rel mem.premount with
        | .error e => some (.error e, k₀.store)
        | .ok start => k₀.resolve ops flags mode mem.round rounds start k₀.store) := by
  obtain ⟨k₁, hk₁, h₁⟩ := premount_spec hk₀ dfd mem.premount h hrel
  simp only [openFrom, hk₁, bind, Except.bind]
  cases hstart : k₀.startPath dfd rel mem.premount with
  | error e =>
      rw [hstart] at h₁
      exact .failed h₁
  | ok start =>
      rw [hstart] at h₁
      exact resolveMount_spec ops flags mode hk₀ mem.round rounds k₁ start k₀.store h₁

theorem inodeOpen_eq (k : Kernel σ ν φ) (rounds : Nat) (dfd : BitVec 32) (path : List Char)
    (mem : OpenMem) :
    k.inodeOpen ops flags mode rounds dfd path mem =
      match k.fromstr path mem.fromstr with
      | (k, .error e) => .ok (k, .error e)
      | (k, .ok rel) => (do
          let (k, found) ← k.openFrom ops flags mode rounds dfd rel mem
          let k ← k.destroyPath rel
          .ok (k, found)) := by
  simp only [inodeOpen, openFrom]
  rcases k.fromstr path mem.fromstr with ⟨k', e | rel⟩
  · rfl
  · rcases hpremount : k'.premount dfd rel mem.premount with e | ⟨k'', _ | start⟩ <;>
      simp only [hpremount, bind, Except.bind]

/-- **`inode_open` is resolution.**  It comes to what the path leads to; a failing call
holds nothing, and one that succeeds holds the inode and the path. -/
theorem inodeOpen_spec
    (hk₀ : k₀.Sound) (rounds : Nat) (dfd : BitVec 32) (path : List Char) (mem : OpenMem) :
    Resolved k₀ [] (k₀.inodeOpen ops flags mode rounds dfd path mem)
      (k₀.resolvePath ops flags mode rounds dfd path mem) := by
  simp only [inodeOpen_eq, resolvePath, fromstr]
  cases hrel : Path.fromstrMem path mem.fromstr with
  | error e => exact .failed (.refl k₀)
  | ok rel =>
      have hmnt := mnt_fromstrMem hrel
      have hspec := openFrom_spec ops flags mode hk₀ rounds dfd mem
        ((Holds.refl k₀).newPath hmnt) hmnt
      simp only
      generalize openFrom ops flags mode _ rounds dfd rel mem = result at hspec ⊢
      generalize (match k₀.startPath dfd rel mem.premount with
        | .error e => some (Except.error e, k₀.store)
        | .ok start => k₀.resolve ops flags mode mem.round rounds start k₀.store) = found
        at hspec ⊢
      cases hspec with
      | hang => exact .hang
      | failed h₁ =>
          obtain ⟨k₂, hk₂, h₂⟩ := destroyPath_holds h₁
          simp only [hk₂, bind, Except.bind]
          exact .failed h₂
      | found h₁ =>
          obtain ⟨k₂, hk₂, h₂⟩ := destroyPath_holds (h₁.perm (.swap _ _ _))
          simp only [hk₂, bind, Except.bind]
          exact .found h₂

end Refinement
end Kernel
end Vfs
end JkxyKernel
