import JkxyKernel.Lib.Chain
import Mathlib.Data.Set.Finite.Range
import JkxyKernel.Vfs.FailedOpens

/-!
# Chains of symbolic links

`inode_open` follows a symbolic link to the path that the link stands for, and that path in
the same way, without counting the links.  On file systems that answer the same whenever
they are asked, this is a chain of paths, `Kernel.nextPath`, and the call returns if and
only if the chain ends.

In a finite tree it ends if and only if no path comes up twice in it.
-/

namespace JkxyKernel
namespace Vfs

variable {σ ν φ : Type}

/-- The file systems answer the same whenever they are asked. -/
structure Steady (ops : Drivers σ ν φ) : Prop where
  lookup : ∀ node name flags store store',
    (ops.lookup node name flags store).1 = (ops.lookup node name flags store').1
  create : ∀ node name flags mode store store',
    (ops.create node name flags mode store).1 = (ops.create node name flags mode store').1
  readlink : ∀ node nbytes store store',
    (ops.readlink node nbytes store).1 = (ops.readlink node nbytes store').1

namespace Path

/-- The components are not empty strings. -/
def Proper (path : Path) : Prop :=
  ∀ component ∈ path.components, component ≠ []

variable {x y path : Path}

theorem Proper.addComponent (h : path.Proper) (component : List Char) :
    (path.addComponent component).Proper := by
  intro c hc
  by_cases hempty : component = []
  · simp only [Path.addComponent, hempty, true_or, if_true] at hc
    exact h c hc
  · rcases mem_components_addComponent hc with hc | rfl
    · exact h c hc
    · exact hempty

theorem Proper.extendMem (h : path.Proper) (components : List (List Char)) (mem : List Mem) :
    (path.extendMem components mem).1.Proper := by
  induction components generalizing path mem with
  | nil => exact h
  | cons component rest ih =>
      simp only [Path.extendMem]
      split
      next => exact h
      next => exact ih h mem.tail
      next => exact ih (h.addComponent component) mem.tail

/-- The new path is made component by component, from none. -/
theorem proper_joinNewMem {mem : Alloc} (h : x.joinNewMem y mem = some path) : path.Proper := by
  have hstart : Proper { x with components := [] } := nofun
  have hextend := hstart.extendMem (x.components ++ y.components) mem.components
  simp only [joinNewMem] at h
  split at h
  next => cases h
  next =>
    split at h
    next heq =>
      cases h
      rw [heq] at hextend
      exact hextend
    next => cases h

theorem proper_cloneMem {mem : Alloc} (h : x.cloneMem mem = some path) : path.Proper := by
  simp only [cloneMem] at h
  split at h
  next => cases h
  next => exact proper_joinNewMem h

end Path

/-- The way through the mounts leaves components out. -/
theorem MountTable.proper_checkmntLoop
    {table : MountTable} (rounds : Nat) {path dest : Path} (hpath : path.Proper)
    (h : table.checkmntLoop rounds path = some dest) : dest.Proper := by
  induction rounds generalizing path with
  | zero => cases h
  | succ rounds ih =>
      simp only [MountTable.checkmntLoop] at h
      split at h
      next =>
        cases h
        exact hpath
      next => exact ih (fun c hc => hpath c (List.mem_of_mem_drop hc)) h

namespace Kernel

section Chains

variable (k : Kernel σ ν φ) (ops : Drivers σ ν φ) (flags : BitVec 32) (mode : BitVec 16)
  (round : RoundMem)

/-- The inode that the place belongs to a walk from. -/
def rootNode (dest : Path) : Option (Node ν) :=
  dest.mnt.bind fun m => k.inodes.node (k.root m)

/-- The path that the link at a place stands for, if there is one that is followed. -/
def targetOf (dest : Path) : Option Path :=
  (k.rootNode dest).bind fun root =>
    match (find ops flags mode dest.components root false k.store).1 with
    | .error _ => none
    | .ok (node, created) =>
        if hasFlag flags O_EXCL && !created then none
        else if follows flags node then (linkPath ops node dest round k.store).1.toOption
        else none

/-- From one path to the next: what the link stands for that the path leads to. -/
def nextPath (premount : Path) : Option Path :=
  (k.mounts.checkmntMem premount round.checkmnt).bind
    (k.targetOf ops flags mode round)

/-- The path that the call begins with, if it gets as far. -/
def firstPath (dfd : BitVec 32) (path : List Char) (fromstr premount : Alloc) : Option Path :=
  (Path.fromstrMem path fromstr).toOption.bind fun rel =>
    (k.startPath dfd rel premount).toOption

/-- A symbolic link stands at a place in a mount that is alive. -/
def LinkAt (dest : Path) : Prop :=
  dest.Proper ∧ (∃ m, dest.mnt = some m ∧ k.mounts.Live m) ∧
    ∃ root node created, k.rootNode dest = some root ∧
      (find ops flags mode dest.components root false k.store).1 = .ok (node, created) ∧
      follows flags node = true

/-- The tree has finitely many symbolic links. -/
def FiniteLinks : Prop :=
  {dest | k.LinkAt ops flags mode dest}.Finite

/-- The call returns, with an inode or an error. -/
def Returns (dfd : BitVec 32) (path : List Char) (mem : OpenMem) : Prop :=
  ∃ bound, ∀ rounds, bound ≤ rounds →
    ∃ result, k.inodeOpen ops flags mode rounds dfd path mem = .ok result

end Chains

section Following

variable {ops : Drivers σ ν φ} {flags : BitVec 32} {mode : BitVec 16} {round : RoundMem}
  {k : Kernel σ ν φ} {path dest target : Path}

theorem nextNode_steady
    (flags : BitVec 32) (mode : BitVec 16) (hops : Steady ops) (dir : Node ν) (component : List Char) (last : Bool)
    (store store' : σ) :
    (nextNode ops flags mode dir component last store).1 =
        (nextNode ops flags mode dir component last store').1 ∧
      (nextNode ops flags mode dir component last store).2.1 =
        (nextNode ops flags mode dir component last store').2.1 := by
  have hlookup := hops.lookup dir component flags store store'
  simp only [nextNode]
  generalize ops.lookup dir component flags store = found at hlookup ⊢
  generalize ops.lookup dir component flags store' = found' at hlookup ⊢
  obtain ⟨result, s⟩ := found
  obtain ⟨result', s'⟩ := found'
  obtain rfl : result = result' := hlookup
  cases result with
  | error e =>
      simp only
      split
      next => exact ⟨hops.create dir component flags mode s s', rfl⟩
      next => exact ⟨rfl, rfl⟩
  | ok node => exact ⟨rfl, rfl⟩

theorem find_steady
    (flags : BitVec 32) (mode : BitVec 16) (hops : Steady ops) (components : List (List Char)) (dir : Node ν) (created : Bool)
    (store store' : σ) :
    (find ops flags mode components dir created store).1 =
      (find ops flags mode components dir created store').1 := by
  induction components generalizing dir created store store' with
  | nil => rfl
  | cons component rest ih =>
      have hnext := nextNode_steady flags mode hops dir component rest.isEmpty store store'
      simp only [find]
      split
      next => exact ih dir created store store'
      next =>
        generalize nextNode ops flags mode dir component rest.isEmpty store = next at hnext ⊢
        generalize nextNode ops flags mode dir component rest.isEmpty store' = next' at hnext ⊢
        obtain ⟨result, create, s⟩ := next
        obtain ⟨result', create', s'⟩ := next'
        obtain ⟨rfl, rfl⟩ : result = result' ∧ create = create' := hnext
        cases result with
        | error e => rfl
        | ok node => exact ih node (created || create) s s'

theorem readTarget_steady
    (hops : Steady ops) (node : Node ν) (mem : RoundMem) (store store' : σ) :
    (readTarget ops node mem store).1 = (readTarget ops node mem store').1 := by
  have hreadlink := hops.readlink node MAX_PATH store store'
  simp only [readTarget]
  generalize ops.readlink node MAX_PATH store = text at hreadlink ⊢
  generalize ops.readlink node MAX_PATH store' = text' at hreadlink ⊢
  obtain ⟨result, s⟩ := text
  obtain ⟨result', s'⟩ := text'
  obtain rfl : result = result' := hreadlink
  split
  next => rfl
  next =>
    cases result with
    | error e => rfl
    | ok text => cases text <;> rfl

theorem linkPath_steady
    (hops : Steady ops) (node : Node ν) (dest : Path) (mem : RoundMem) (store store' : σ) :
    (linkPath ops node dest mem store).1 = (linkPath ops node dest mem store').1 := by
  have htarget := readTarget_steady hops node mem store store'
  simp only [linkPath]
  generalize readTarget ops node mem store = target at htarget ⊢
  generalize readTarget ops node mem store' = target' at htarget ⊢
  obtain ⟨result, s⟩ := target
  obtain ⟨result', s'⟩ := target'
  obtain rfl : result = result' := htarget
  cases result <;> rfl

/-- The mount of the path, if it has one, is alive. -/
def LivePath (k : Kernel σ ν φ) (path : Path) : Prop :=
  ∀ m, path.mnt = some m → k.mounts.Live m

/-- The mount that a path leads into is alive. -/
theorem livePath_checkmntMem
    (hk : k.Sound) (hpath : k.LivePath path) {mem : Alloc}
    (h : k.mounts.checkmntMem path mem = some dest) : k.LivePath dest := by
  obtain ⟨s, -, hlends⟩ := PathState.checkmnt_lends hk.table hk.mounted (.refl k.mounts) mem hpath
  intro m hm
  refine hlends.live m ?_
  rw [h]
  simp [hm]

/-- So is the mount of the path that a link stands for. -/
theorem livePath_linkPath
    (hdest : k.LivePath dest) {node : Node ν} {mem : RoundMem} {store : σ}
    (h : (linkPath ops node dest mem store).1 = .ok target) : k.LivePath target := by
  simp only [linkPath] at h
  split at h
  next => cases h
  next rel store' _ =>
    obtain ⟨s, -, hlends⟩ := PathState.join_lends (.refl k.mounts)
      { dest with components := dest.components.dropLast } rel mem.join hdest
    cases hjoin : Path.joinMem { dest with components := dest.components.dropLast } rel mem.join
    next =>
      rw [hjoin] at h
      cases h
    next path =>
      rw [hjoin] at h hlends
      cases h
      intro m hm
      refine hlends.live m ?_
      simp [hm]

/-- A target is read from a link that is followed. -/
theorem targetOf_eq_some (h : k.targetOf ops flags mode round dest = some target) :
    ∃ root node created, k.rootNode dest = some root ∧
      (find ops flags mode dest.components root false k.store).1 = .ok (node, created) ∧
      follows flags node = true ∧ (linkPath ops node dest round k.store).1 = .ok target := by
  obtain ⟨root, hroot, h⟩ := Option.bind_eq_some_iff.mp h
  split at h
  next => cases h
  next node created hfind =>
    split at h
    next => cases h
    next =>
      split at h
      next hfollows =>
        refine ⟨root, node, created, hroot, hfind, hfollows, ?_⟩
        cases hlink : (linkPath ops node dest round k.store).1 with
        | error e =>
            rw [hlink] at h
            cases h
        | ok path =>
            rw [hlink] at h
            cases h
            rfl
      next => cases h

/-- The chain goes from link to link. -/
theorem nextPath_spec
    (hk : k.Sound) (hpath : k.LivePath path)
    (h : k.nextPath ops flags mode round path = some target) :
    k.LivePath target ∧
      ∃ dest, k.LinkAt ops flags mode dest ∧
        k.targetOf ops flags mode round dest = some target := by
  obtain ⟨dest, hdest, htarget⟩ := Option.bind_eq_some_iff.mp h
  have hlive := livePath_checkmntMem hk hpath hdest
  have hproper : dest.Proper := by
    obtain ⟨copy, hcopy, hloop⟩ := Option.bind_eq_some_iff.mp hdest
    exact MountTable.proper_checkmntLoop _ (Path.proper_cloneMem hcopy) hloop
  obtain ⟨root, node, created, hroot, hfind, hfollows, hlink⟩ := targetOf_eq_some htarget
  obtain ⟨m, hm, -⟩ := Option.bind_eq_some_iff.mp hroot
  exact ⟨livePath_linkPath hlive hlink, dest,
    ⟨hproper, ⟨m, hm, hlive m hm⟩, root, node, created, hroot, hfind, hfollows⟩, htarget⟩

/-- The rounds do not suffice if and only if the chain is longer. -/
theorem resolve_eq_none_iff
    (hk : k.Sound) (hops : Steady ops) (rounds : Nat) {premount : Path} (store : σ)
    (hlive : k.LivePath premount) :
    k.resolve ops flags mode (fun _ => round) rounds premount store = none ↔
      (chain (k.nextPath ops flags mode round) premount rounds).isSome := by
  induction rounds generalizing premount store with
  | zero => simp [resolve, chain]
  | succ rounds ih =>
      rw [Chain.chain_succ]
      simp only [resolve, nextPath]
      cases hdest : k.mounts.checkmntMem premount round.checkmnt with
      | none => simp
      | some dest =>
          have hlive' := livePath_checkmntMem hk hlive hdest
          simp only [Option.bind_some, targetOf, rootNode]
          cases hm : dest.mnt with
          | none => simp
          | some m =>
              obtain ⟨root, hroot⟩ := rooted_node hk (hlive' m hm)
              have hfind := find_steady flags mode hops dest.components root false store
                k.store
              simp only [Option.map_some, Option.bind_some, hroot]
              rw [← hfind]
              rcases find ops flags mode dest.components root false store with
                ⟨e | ⟨node, created⟩, store'⟩
              · simp
              · simp only
                split
                next => simp
                next =>
                  split
                  next =>
                    rw [← linkPath_steady hops node dest round store' k.store]
                    rcases hlink : linkPath ops node dest round store' with
                      ⟨e | target, store''⟩
                    · simp [Except.toOption]
                    · exact ih store'' (livePath_linkPath hlive' (congrArg Prod.fst hlink))
                  next => simp

/-- The path that the call begins with is in a mount that is alive. -/
theorem livePath_startPath
    (hk : k.Sound) {dfd : BitVec 32} {rel start : Path} {mem : Alloc} (hrel : rel.mnt = none)
    (h : k.startPath dfd rel mem = .ok start) : k.LivePath start := by
  obtain ⟨k', -, hholds⟩ := premount_spec hk dfd mem ((Holds.refl k).newPath hrel) hrel
  rw [h] at hholds
  exact hholds.live List.mem_cons_self

/-- The call does not return if and only if the chain from its first path goes on. -/
theorem inodeOpen_hangs_iff
    (flags : BitVec 32) (mode : BitVec 16) (round : RoundMem) (hk : k.Sound)
    (hops : Steady ops) (rounds : Nat) (dfd : BitVec 32) (path : List Char)
    (mem : OpenMem) (hmem : mem.round = fun _ => round) :
    (¬ ∃ result, k.inodeOpen ops flags mode rounds dfd path mem = .ok result) ↔
      ∃ start, k.firstPath dfd path mem.fromstr mem.premount = some start ∧
        (chain (k.nextPath ops flags mode round) start rounds).isSome := by
  have hspec := inodeOpen_spec ops flags mode hk rounds dfd path mem
  have hnone : (¬ ∃ result, k.inodeOpen ops flags mode rounds dfd path mem = .ok result) ↔
      k.resolvePath ops flags mode rounds dfd path mem = none := by
    generalize k.inodeOpen ops flags mode rounds dfd path mem = result at hspec ⊢
    generalize k.resolvePath ops flags mode rounds dfd path mem = found at hspec ⊢
    cases hspec with
    | hang => simp
    | failed h => simp
    | found h => simp
  rw [hnone]
  simp only [resolvePath, firstPath, hmem]
  cases hrel : Path.fromstrMem path mem.fromstr with
  | error e => simp [Except.toOption]
  | ok rel =>
      simp only [Except.toOption, Option.bind_some]
      cases hstart : k.startPath dfd rel mem.premount with
      | error e => simp
      | ok start =>
          have hlive := livePath_startPath hk (mnt_fromstrMem hrel) hstart
          simpa using resolve_eq_none_iff hk hops rounds k.store hlive

/-- The call returns when its chain ends. -/
theorem returns_iff_ends
    (hk : k.Sound) (hops : Steady ops) (dfd : BitVec 32) (path : List Char) (mem : OpenMem)
    (hmem : mem.round = fun _ => round) :
    k.Returns ops flags mode dfd path mem ↔
      ∀ start, k.firstPath dfd path mem.fromstr mem.premount = some start →
        ChainEnds (k.nextPath ops flags mode round) start := by
  have hiff := fun rounds => inodeOpen_hangs_iff flags mode round hk hops rounds dfd path mem
    hmem
  constructor
  · rintro ⟨bound, hbound⟩ start hstart
    refine ⟨bound, ?_⟩
    by_contra hsome
    exact (hiff bound).mpr ⟨start, hstart, Option.isSome_iff_ne_none.mpr hsome⟩
      (hbound bound (Nat.le_refl _))
  · intro hends
    by_cases hfirst : ∃ start, k.firstPath dfd path mem.fromstr mem.premount = some start
    · obtain ⟨start, hstart⟩ := hfirst
      obtain ⟨bound, hbound⟩ := hends start hstart
      refine ⟨bound, fun rounds hrounds => ?_⟩
      by_contra hno
      obtain ⟨start', hstart', hsome⟩ := (hiff rounds).mp hno
      obtain rfl : start = start' := Option.some.inj (hstart.symm.trans hstart')
      rw [Chain.chain_none_of_le hbound hrounds] at hsome
      cases hsome
    · refine ⟨0, fun rounds _ => ?_⟩
      by_contra hno
      obtain ⟨start, hstart, -⟩ := (hiff rounds).mp hno
      exact hfirst ⟨start, hstart⟩

end Following
end Kernel

/-- **Name resolution.**  In a finite tree that answers the same whenever it is asked, and
with allocations that come out the same for every link, `inode_open` returns if and only if
no path comes up twice in the chain of paths that the links stand for. -/
theorem inode_open_returns_iff
    {ops : Drivers σ ν φ} {k : Kernel σ ν φ} (hk : k.Sound) (hops : Steady ops)
    (flags : BitVec 32) (mode : BitVec 16) (hfinite : k.FiniteLinks ops flags mode)
    (dfd : BitVec 32) (path : List Char) (mem : OpenMem) (round : RoundMem)
    (hmem : mem.round = fun _ => round) :
    k.Returns ops flags mode dfd path mem ↔
      ∀ start, k.firstPath dfd path mem.fromstr mem.premount = some start →
        ChainNodup (k.nextPath ops flags mode round) start := by
  rw [Kernel.returns_iff_ends hk hops dfd path mem hmem]
  refine forall₂_congr fun start hstart => ?_
  -- Every path of the chain but the first is what a link of the tree stands for.
  have hvalues := hfinite.image fun dest =>
    (k.targetOf ops flags mode round dest).getD .empty
  refine Chain.ends_iff_nodup hvalues fun n b hb => ?_
  have hlive : k.LivePath start := by
    obtain ⟨rel, hrel, hfirst⟩ := Option.bind_eq_some_iff.mp hstart
    have hrel' : Path.fromstrMem path mem.fromstr = .ok rel := by
      cases h : Path.fromstrMem path mem.fromstr with
      | error e =>
          rw [h] at hrel
          cases hrel
      | ok rel' =>
          rw [h] at hrel
          cases hrel
          rfl
    cases h : k.startPath dfd rel mem.premount with
    | error e =>
        rw [h] at hfirst
        cases hfirst
    | ok start' =>
        rw [h] at hfirst
        cases hfirst
        exact Kernel.livePath_startPath hk (Kernel.mnt_fromstrMem hrel') h
  obtain ⟨a, ha, hab⟩ := Option.bind_eq_some_iff.mp hb
  have halive := Chain.invariant (P := k.LivePath) hlive
    (fun _ _ hp hnext => (Kernel.nextPath_spec hk hp hnext).1) ha
  obtain ⟨-, dest, hlink, htarget⟩ := Kernel.nextPath_spec hk halive hab
  refine ⟨dest, hlink, ?_⟩
  simp only [htarget, Option.getD_some]

/-! ### An archive with a link -/

/-- The inode of a symbolic link. -/
def linkNode : Node Unit := { mode := S_IFLNK ||| 0o777, rdev := 0, vendor := () }

/-- A read-only archive with one entry, the link `l` in the root directory. -/
def linkTo (target : List Char) : Drivers Unit Unit Unit where
  lookup dir component _ store :=
    if dir.mode &&& S_IFMT = S_IFDIR ∧ component = ['l'] then (.ok linkNode, store)
    else (.error .ENOENT, store)
  create _ _ _ _ store := (.error .EINVAL, store)
  readlink _ nbytes store := (.ok (target.take nbytes), store)
  defaultFileOps _ := ()
  openFile _ _ _ store := (none, store)
  dummy := ()

theorem linkTo_steady (target : List Char) : Steady (linkTo target) :=
  ⟨fun _ _ _ _ _ => rfl, fun _ _ _ _ _ _ => rfl, fun _ _ _ _ => rfl⟩

section LinkTo

variable {target : List Char} {flags : BitVec 32} {mode : BitVec 16} {dir node : Node Unit}

theorem nextNode_linkTo
    {component : List Char} {last : Bool}
    (h : (Kernel.nextNode (linkTo target) flags mode dir component last ()).1 = .ok node) :
    dir.mode &&& S_IFMT = S_IFDIR ∧ component = ['l'] ∧ node = linkNode := by
  by_cases hl : dir.mode &&& S_IFMT = S_IFDIR ∧ component = ['l']
  · simp only [Kernel.nextNode, linkTo, if_pos hl] at h
    cases h
    exact ⟨hl.1, hl.2, rfl⟩
  · simp only [Kernel.nextNode, linkTo, if_neg hl] at h
    split at h <;> cases h

/-- There is nothing below the link. -/
theorem find_linkTo
    {components : List (List Char)} {created created' : Bool}
    (hproper : ∀ c ∈ components, c ≠ [])
    (h : (Kernel.find (linkTo target) flags mode components dir created ()).1 =
      .ok (node, created')) :
    components = [] ∧ node = dir ∨ components = [['l']] := by
  cases components with
  | nil =>
      cases h
      exact .inl ⟨rfl, rfl⟩
  | cons first rest =>
      simp only [Kernel.find, if_neg (hproper first List.mem_cons_self)] at h
      split at h
      next => cases h
      next next' create store heq =>
        obtain ⟨-, rfl, rfl⟩ := nextNode_linkTo (congrArg Prod.fst heq)
        cases rest with
        | nil => exact .inr rfl
        | cons second rest =>
            have hsecond := hproper second (List.mem_cons_of_mem _ List.mem_cons_self)
            simp only [Kernel.find, if_neg hsecond] at h
            split at h
            next => cases h
            next heq =>
              obtain ⟨hdir, -, -⟩ := nextNode_linkTo (congrArg Prod.fst heq)
              exact absurd hdir (by decide)

/-- The archive has its one link, wherever that leads. -/
theorem linkTo_finiteLinks (target : List Char) (flags : BitVec 32) (mode : BitVec 16) :
    linkMounted.FiniteLinks (linkTo target) flags mode := by
  have hfinite : (Set.range fun absolute : Bool =>
      ({ absolute := absolute, mnt := some 0, components := [['l']] } : Path)).Finite :=
    Set.finite_range _
  refine hfinite.subset ?_
  rintro dest ⟨hproper, ⟨m, hm, hlive⟩, root, node, created, hroot, hfind, hfollows⟩
  have hm0 : m = 0 := by
    by_contra hne
    have hcount := hlive.1
    simp [linkMounted, rootMounted, hne] at hcount
  subst hm0
  have hroot' : root = { mode := S_IFDIR ||| 0o555, rdev := 0, vendor := () } := by
    simp only [Kernel.rootNode, hm] at hroot
    cases hroot
    rfl
  rcases find_linkTo hproper hfind with ⟨-, rfl⟩ | hcomponents
  · subst hroot'
    simp only [Kernel.follows, Bool.and_eq_true, beq_iff_eq] at hfollows
    exact absurd hfollows.1 (by decide)
  · exact ⟨dest.absolute, Vfs.Path.ext rfl hm.symm hcomponents.symm⟩

end LinkTo

/-- The round of an open that has all the memory it takes. -/
def plentyRound : RoundMem where
  checkmnt := plenty
  linkTarget := true
  fromstr := plenty
  join := plenty

/-- The link `l -> m` ends at a file that does not exist. -/
theorem inode_open_returns_link :
    linkMounted.Sound ∧
      linkMounted.Returns (linkTo ['m']) 0 0 AT_FDCWD ['/', 'l'] plentyOpen := by
  refine ⟨linkMounted_sound, (inode_open_returns_iff linkMounted_sound (linkTo_steady _) 0 0
    (linkTo_finiteLinks _ 0 0) AT_FDCWD ['/', 'l'] plentyOpen plentyRound rfl).mpr ?_⟩
  intro start hstart
  obtain rfl : Path.root.append [['l']] = start := Option.some.inj hstart
  exact Chain.nodup_of_ends ⟨2, rfl⟩

/-- The link `l -> l` is followed for ever. -/
theorem self_link_hangs :
    linkMounted.Sound ∧ Steady (linkTo ['l']) ∧ linkMounted.FiniteLinks (linkTo ['l']) 0 0 ∧
      ∀ rounds, ¬ ∃ result, linkMounted.inodeOpen (linkTo ['l']) 0 0 rounds AT_FDCWD
        ['/', 'l'] plentyOpen = .ok result := by
  refine ⟨linkMounted_sound, linkTo_steady _, linkTo_finiteLinks _ 0 0, fun rounds => ?_⟩
  refine (Kernel.inodeOpen_hangs_iff 0 0 plentyRound linkMounted_sound (linkTo_steady _) rounds
    AT_FDCWD ['/', 'l'] plentyOpen rfl).mpr ⟨Path.root.append [['l']], rfl, ?_⟩
  -- The link stands for the path `l` below the mount, which leads to it again.
  have hself : chain (linkMounted.nextPath (linkTo ['l']) 0 0 plentyRound)
      { absolute := false, mnt := some 0, components := [['l']] } 1 =
        some { absolute := false, mnt := some 0, components := [['l']] } := rfl
  cases rounds with
  | zero => rfl
  | succ rounds =>
      have hfirst : chain (linkMounted.nextPath (linkTo ['l']) 0 0 plentyRound)
          (Path.root.append [['l']]) 1 =
            some { absolute := false, mnt := some 0, components := [['l']] } := rfl
      have hall := Chain.repeats (i := 0) (p := 1) rfl hself rounds
      rw [Nat.mul_one, Nat.zero_add] at hall
      rw [Nat.add_comm, Chain.chain_add hfirst, hall]
      rfl

end Vfs
end JkxyKernel
