import JkxyKernel.Lib.Machine
import JkxyKernel.Lib.RefCount
import JkxyKernel.Vfs.MountTable

/-!
# Counting mounts

A mount is counted once for its entry in the mount table and once for every path that
carries it: the paths that callers hold, and the paths of other mounts.  The operations on
paths take references for the paths they make and give them back with the paths they
destroy.

`Books s l` says that the counts are right, up to the references that the running
operation holds in its local paths, `l`.  A mount whose count has come down to zero has
given up the reference of its own path.

Every allocation may fail.  `path_add_component` reports a failing copy of the string, but
ignores a failing list node, so that the component is missing from the path.

`path_resolvemnt` overwrites `path->mnt` with `NULL` in place: the reference is forgotten,
one for every level it goes back.
-/

namespace JkxyKernel
namespace Vfs

open RefCount

/-- What goes wrong besides a wrong count. -/
inductive Stop
  /-- A freed mount is used. -/
  | freed
  /-- A loop goes on beyond its bound. -/
  | hang
  deriving DecidableEq, Repr

/-- The allocations of `path_add_component`. -/
inductive Mem
  | ok
  | noString
  | noNode
  deriving DecidableEq, Repr

/-- The allocations of `path_clone` and `path_join`: the empty path of the former, the
path, and what is needed for each component. -/
structure Alloc where
  empty : Bool
  path : Bool
  components : List Mem

/-- The count of `struct mount`, and whether its block is freed. -/
structure MountCell where
  refcount : Int
  freed : Bool

/-- The mounts, and the paths that callers hold. -/
structure PathState where
  cells : Nat → MountCell
  table : MountTable
  held : Nat → Option Path

/-- A path object that may carry a mount. -/
inductive PathObj
  | held (p : Nat)
  | ofMount (m : Nat)
  deriving DecidableEq, Repr

namespace Path

/-- Does `path_add_component` come to the copy of the string? -/
def pushes (path : Path) (component : List Char) : Bool :=
  !(component == [] || component == ['.'] || component == dotdot &&
    (path.components != [] || path.absolute || path.mnt.isSome))

/-- `path_add_component` of one component after the other, up to the first that fails. -/
def extendMem (path : Path) : List (List Char) → List Mem → Path × Bool
  | [], _ => (path, true)
  | component :: rest, mem =>
      match mem.headD .ok, path.pushes component with
      | .noString, true => (path, false)
      | .noNode, true => path.extendMem rest mem.tail
      | _, _ => (path.addComponent component).extendMem rest mem.tail

/-- Are the allocations of `path_clone` all there, as far as it reports them? -/
def copied (old : Path) (mem : Alloc) : Bool :=
  mem.empty && mem.path &&
    (extendMem { old with components := [] } old.components mem.components).2

/-- The text of `path_tostring` behind the first component. -/
def writeComponents : List (List Char) → Nat → List Char
  | [], nbytes => if nbytes = 0 then [] else ['\x00']
  | component :: rest, nbytes =>
      if nbytes = 0 then []
      else '/' :: (component.take (nbytes - 1) ++
        writeComponents rest (nbytes - 1 - (component.take (nbytes - 1)).length))

/-- What `path_tostring` writes. -/
def text (path : Path) (nbytes : Nat) : List Char :=
  if path.components = [] then ['/', '\x00'].take nbytes
  else writeComponents path.components nbytes

end Path

namespace PathState

/-- A mount with another count. -/
def setCount (s : PathState) (m : Nat) (refcount : Int) : PathState :=
  { s with cells := Function.update s.cells m { s.cells m with refcount := refcount } }

/-- `kfree(mount)` -/
def free (s : PathState) (m : Nat) : PathState :=
  { s with cells := Function.update s.cells m { s.cells m with freed := true } }

/-- A path carries one more reference. -/
def takeMount (s : PathState) : Option Nat → Except Stop PathState
  | none => .ok s
  | some m =>
      if (s.cells m).freed then .error .freed
      else .ok (s.setCount m ((s.cells m).refcount + 1))

/-- `put_mount`; the last reference takes the path of the mount with it. -/
def putMount : Nat → PathState → Nat → Except Stop PathState
  | 0, _, _ => .error .hang
  | rounds + 1, s, m =>
      if (s.cells m).freed then .error .freed
      else
        let s' := s.setCount m ((s.cells m).refcount - 1)
        if (s.cells m).refcount - 1 ≠ 0 then .ok s'
        else
          match (s.table.path m).mnt with
          | none => .ok (s'.free m)
          | some m' =>
              match putMount rounds s' m' with
              | .ok s'' => .ok (s''.free m)
              | .error e => .error e

/-- The end of a reference that a path carries. -/
def dropMount (s : PathState) : Option Nat → Except Stop PathState
  | none => .ok s
  | some m => putMount (m + 1) s m

/-- `path_join` once a new path is to be made. -/
def joinNew (s : PathState) (x y : Path) (mem : Alloc) :
    Except Stop (PathState × Option Path) :=
  if !mem.path then .ok (s, none)
  else do
    let s ← s.takeMount x.mnt
    match Path.extendMem { x with components := [] } (x.components ++ y.components)
      mem.components with
    | (path, true) => .ok (s, some path)
    | (path, false) => do
        let s ← s.dropMount path.mnt
        .ok (s, none)

/-- `path_clone` -/
def clone (s : PathState) (old : Path) (mem : Alloc) : Except Stop (PathState × Option Path) :=
  if !mem.empty then .ok (s, none) else s.joinNew old .empty mem

/-- `path_join` -/
def join (s : PathState) (x y : Path) (mem : Alloc) : Except Stop (PathState × Option Path) :=
  if y.mnt.isSome then .ok (s, none)
  else if y.absolute then s.clone y mem
  else s.joinNew x y mem

/-- The loop of `path_checkmnt`, for a number of rounds. -/
def checkmntLoop : Nat → PathState → Path → Except Stop (PathState × Option Path)
  | 0, _, _ => .error .hang
  | rounds + 1, s, path =>
      if s.table.entries.any fun m => (s.cells m).freed then .error .freed
      else
        match s.table.bestmatch path with
        | none => .ok (s, some path)
        | some m => do
            let s ← s.dropMount path.mnt
            let s ← s.takeMount (some m)
            checkmntLoop rounds s (s.table.truncate path m)

/-- `path_checkmnt` -/
def checkmnt (s : PathState) (old : Path) (mem : Alloc) :
    Except Stop (PathState × Option Path) := do
  match ← s.clone old mem with
  | (s, none) => .ok (s, none)
  | (s, some path) => checkmntLoop (s.table.entries.length + 1) s path

/-- The loop of `path_resolvemnt`: the new path is made from the path of the mount, and
the old one, which lost its mount, is destroyed.  Each round has its own allocations. -/
def resolvemntLoop : Nat → PathState → Path → List Alloc →
    Except Stop (PathState × Option Path)
  | 0, _, _, _ => .error .hang
  | rounds + 1, s, path, mem =>
      match path.mnt with
      | none => .ok (s, some path)
      | some m =>
          if (s.cells m).freed then .error .freed
          else do
            match ← s.join (s.table.path m) { path with mnt := none }
              (mem.headD ⟨true, true, []⟩) with
            | (s, none) => .ok (s, none)
            | (s, some newpath) => resolvemntLoop rounds s newpath mem.tail

/-- `path_resolvemnt` -/
def resolvemnt (s : PathState) (old : Path) (mem : Alloc) (mems : List Alloc) :
    Except Stop (PathState × Option Path) := do
  match ← s.clone old mem with
  | (s, none) => .ok (s, none)
  | (s, some path) =>
      resolvemntLoop ((path.mnt.map (· + 1)).getD 0 + 1) s path mems

/-- `path_tostring`; for a buffer of no bytes the resolved path is not destroyed. -/
def tostring (s : PathState) (path : Path) (nbytes : Nat) (mem : Alloc) (mems : List Alloc) :
    Except Stop (PathState × List Char) := do
  match ← s.resolvemnt path mem mems with
  | (s, none) => .ok (s, [])
  | (s, some resolved) =>
      if nbytes = 0 then .ok (s, [])
      else do
        let s ← s.dropMount resolved.mnt
        .ok (s, resolved.text nbytes)

/-- A caller keeps the path that an operation returned, if any. -/
def keep (p : Nat) (result : PathState × Option Path) : PathState :=
  { result.1 with held := Function.update result.1.held p result.2 }

end PathState

/-- The calls of the operations; the first number is where the new path is kept. -/
inductive PathOp
  | join (p x y : Nat) (mem : Alloc)
  | clone (p x : Nat) (mem : Alloc)
  | checkmnt (p x : Nat) (mem : Alloc)
  | resolvemnt (p x : Nat) (mem : Alloc) (mems : List Alloc)
  | tostring (x nbytes : Nat) (mem : Alloc) (mems : List Alloc)
  | destroy (x : Nat)

/-- The operations on paths; those they are called with are held by their callers. -/
def pathMachine : Machine PathState PathOp Stop where
  enabled
    | .join p x y _, s => (s.held p).isNone && (s.held x).isSome && (s.held y).isSome
    | .clone p x _, s => (s.held p).isNone && (s.held x).isSome
    | .checkmnt p x _, s => (s.held p).isNone && (s.held x).isSome
    | .resolvemnt p x _ _, s => (s.held p).isNone && (s.held x).isSome
    | .tostring x _ _ _, s => (s.held x).isSome
    | .destroy x, s => (s.held x).isSome
  exec
    | .join p x y mem, s =>
        (s.join ((s.held x).getD .empty) ((s.held y).getD .empty) mem).map (.keep p)
    | .clone p x mem, s => (s.clone ((s.held x).getD .empty) mem).map (.keep p)
    | .checkmnt p x mem, s => (s.checkmnt ((s.held x).getD .empty) mem).map (.keep p)
    | .resolvemnt p x mem mems, s =>
        (s.resolvemnt ((s.held x).getD .empty) mem mems).map (.keep p)
    | .tostring x nbytes mem mems, s =>
        (s.tostring ((s.held x).getD .empty) nbytes mem mems).map Prod.fst
    | .destroy x, s =>
        ({ s with held := Function.update s.held x none }).dropMount
          ((s.held x).getD .empty).mnt

namespace PathState

/-- The mount a path object refers to; a mount without references has given up that of
its own path. -/
def mntOf (s : PathState) : PathObj → Option Nat
  | .held p => (s.held p).bind Path.mnt
  | .ofMount m => if (s.cells m).refcount = 0 then none else (s.table.path m).mnt

/-- The part of a count that path objects account for: the rest belongs to the table and
to local paths. -/
def owed (s : PathState) (l : List Nat) (m : Nat) : Int :=
  (s.cells m).refcount - (l.count m : Int) - if m ∈ s.table.entries then 1 else 0

/-- The counts are right, with the references `l` in local paths. -/
structure Books (s : PathState) (l : List Nat) : Prop where
  counted : Counted s.mntOf (s.owed l)
  freed : ∀ m, (s.cells m).freed = true → (s.cells m).refcount = 0
  table : s.table.WellFormed

/-- The counts are right, between operations. -/
def Consistent (s : PathState) : Prop :=
  Books s []

/-- What the operations leave alone. -/
structure Same (s s' : PathState) : Prop where
  table : s'.table = s.table
  held : s'.held = s.held

theorem Same.refl (s : PathState) : Same s s := ⟨rfl, rfl⟩

theorem Same.trans {s s' s'' : PathState} (h : Same s s') (h' : Same s' s'') : Same s s'' :=
  ⟨h'.table.trans h.table, h'.held.trans h.held⟩

section Counts

variable {s s' : PathState} {l : List Nat} {m : Nat} {n : Int}

@[simp] theorem setCount_refcount (m' : Nat) :
    ((s.setCount m n).cells m').refcount = if m' = m then n else (s.cells m').refcount := by
  by_cases hm : m' = m
  · subst hm
    simp [setCount]
  · simp [setCount, hm]

@[simp] theorem setCount_freed (m' : Nat) :
    ((s.setCount m n).cells m').freed = (s.cells m').freed := by
  by_cases hm : m' = m
  · subst hm
    simp [setCount]
  · simp [setCount, hm]

@[simp] theorem free_refcount (m' : Nat) :
    ((s.free m).cells m').refcount = (s.cells m').refcount := by
  by_cases hm : m' = m
  · subst hm
    simp [free]
  · simp [free, hm]

@[simp] theorem free_freed (m' : Nat) :
    ((s.free m).cells m').freed = if m' = m then true else (s.cells m').freed := by
  by_cases hm : m' = m
  · subst hm
    simp [free]
  · simp [free, hm]

theorem setCount_cells {k : Nat} (hk : m < k) : (s.setCount m n).cells k = s.cells k :=
  Function.update_of_ne (Nat.ne_of_gt hk) _ _

theorem free_cells {k : Nat} (hk : m < k) : (s.free m).cells k = s.cells k :=
  Function.update_of_ne (Nat.ne_of_gt hk) _ _

theorem owed_setCount (m' : Nat) :
    (s.setCount m n).owed l m' = (if m' = m then n else (s.cells m').refcount) -
      (l.count m' : Int) - if m' ∈ s.table.entries then 1 else 0 := by
  simp only [owed, setCount_refcount]
  rfl

theorem same_setCount : Same s (s.setCount m n) := ⟨rfl, rfl⟩

theorem same_free : Same s (s.free m) := ⟨rfl, rfl⟩

/-- A count that stays on its side of zero moves no reference. -/
theorem mntOf_setCount (h : n = 0 ↔ (s.cells m).refcount = 0) :
    (s.setCount m n).mntOf = s.mntOf := by
  funext o
  cases o with
  | held p => rfl
  | ofMount m' =>
      by_cases hm : m' = m
      · subst hm
        simp only [mntOf, setCount_refcount, if_true, h]
        rfl
      · simp only [mntOf, setCount_refcount, hm, if_false]
        rfl

/-- The count that comes down to zero gives up the reference of the mount's path. -/
theorem mntOf_setCount_zero :
    (s.setCount m 0).mntOf = Function.update s.mntOf (.ofMount m) none := by
  funext o
  cases o with
  | held p => simp [mntOf, setCount]
  | ofMount m' =>
      by_cases hm : m' = m
      · subst hm
        simp [mntOf]
      · rw [Function.update_of_ne (by simpa using hm)]
        simp only [mntOf, setCount_refcount, hm, if_false]
        rfl

namespace Books

theorem refcount_ge (h : Books s l) (m : Nat) :
    (l.count m : Int) + (if m ∈ s.table.entries then 1 else 0) ≤ (s.cells m).refcount := by
  have hnonneg := h.counted.nonneg m
  simp only [owed] at hnonneg
  omega

/-- A mount of which a reference is in sight is not freed. -/
theorem refcount_pos (h : Books s l) (hm : m ∈ l ∨ m ∈ s.table.entries) :
    0 < (s.cells m).refcount := by
  have hge := h.refcount_ge m
  rcases hm with hm | hm
  · have := List.count_pos_iff.mpr hm
    split at hge <;> omega
  · rw [if_pos hm] at hge
    omega

theorem not_freed (h : Books s l) (hm : m ∈ l ∨ m ∈ s.table.entries) :
    (s.cells m).freed = false := by
  have hpos := h.refcount_pos hm
  cases hf : (s.cells m).freed with
  | false => rfl
  | true =>
      have := h.freed m hf
      omega

/-- The order of the local references does not matter. -/
theorem perm {l' : List Nat} (h : Books s l) (hl : l.Perm l') : Books s l' where
  counted := by
    have heq : s.owed l' = s.owed l := by
      funext m
      simp only [owed, hl.count_eq]
    rw [heq]
    exact h.counted
  freed := h.freed
  table := h.table

/-- A reference taken or dropped by a local path, where the mount stays alive. -/
theorem setCount
    {l' : List Nat} (h : Books s l) (hzero : n = 0 ↔ (s.cells m).refcount = 0)
    (hbalance : n - l'.count m = (s.cells m).refcount - l.count m)
    (hothers : ∀ m', m' ≠ m → l'.count m' = l.count m') :
    Books (s.setCount m n) l' where
  counted := by
    have heq : (s.setCount m n).owed l' = s.owed l := by
      funext m'
      rw [owed_setCount, owed]
      by_cases hm : m' = m
      · subst hm
        rw [if_pos rfl]
        omega
      · rw [if_neg hm, hothers m' hm]
    rw [heq, mntOf_setCount hzero]
    exact h.counted
  freed := by
    intro m' hf
    rw [setCount_freed] at hf
    have hr := h.freed m' hf
    by_cases hm : m' = m
    · subst hm
      rw [setCount_refcount, if_pos rfl]
      exact hzero.mpr hr
    · rw [setCount_refcount, if_neg hm]
      exact hr
  table := h.table

/-- The last reference is dropped, and that of the mount's own path is due. -/
theorem setCount_zero (h : Books s (m :: l)) (hone : (s.cells m).refcount = 1) :
    Books (s.setCount m 0) ((s.table.path m).mnt.toList ++ l) := by
  refine ⟨?_, ?_, h.table⟩
  · rw [mntOf_setCount_zero]
    have hslot : s.mntOf (.ofMount m) = (s.table.path m).mnt := by
      simp [mntOf, hone]
    cases hmnt : (s.table.path m).mnt with
    | none =>
        have heq : (s.setCount m 0).owed l = s.owed (m :: l) := by
          funext m'
          rw [owed_setCount, owed]
          by_cases hm : m' = m
          · subst hm
            rw [if_pos rfl, hone, List.count_cons_self]
            omega
          · rw [if_neg hm, List.count_cons_of_ne (Ne.symm hm)]
        have hsame : Function.update s.mntOf (.ofMount m) none = s.mntOf :=
          Function.update_eq_self_iff.mpr (by rw [hslot, hmnt])
        rw [hsame]
        exact heq ▸ h.counted
    | some m' =>
        have hlt : m' < m := h.table.earlier m m' hmnt
        have hdetach := h.counted.detach (hslot.trans hmnt)
        have heq : (s.setCount m 0).owed (m' :: l) =
            Function.update (s.owed (m :: l)) m' (s.owed (m :: l) m' - 1) := by
          funext m''
          rw [owed_setCount]
          by_cases hm' : m'' = m'
          · subst hm'
            rw [Function.update_self, owed, if_neg (Nat.ne_of_lt hlt), List.count_cons_self,
              List.count_cons_of_ne (Nat.ne_of_gt hlt)]
            omega
          · rw [Function.update_of_ne hm', owed, List.count_cons_of_ne (Ne.symm hm')]
            by_cases hm : m'' = m
            · subst hm
              rw [if_pos rfl, hone, List.count_cons_self]
              omega
            · rw [if_neg hm, List.count_cons_of_ne (Ne.symm hm)]
        exact heq ▸ hdetach
  · intro m' hf
    rw [setCount_freed] at hf
    rw [setCount_refcount]
    split
    next => rfl
    next => exact h.freed m' hf

/-- Freeing a mount without references. -/
theorem free (h : Books s l) (hzero : (s.cells m).refcount = 0) : Books (s.free m) l where
  counted := by
    have hmnt : (s.free m).mntOf = s.mntOf := by
      funext o
      cases o with
      | held p => rfl
      | ofMount m' =>
          simp only [mntOf, free_refcount]
          rfl
    have howed : (s.free m).owed l = s.owed l := by
      funext m'
      simp only [owed, free_refcount]
      rfl
    rw [hmnt, howed]
    exact h.counted
  freed := by
    intro m' hf
    rw [free_freed] at hf
    rw [free_refcount]
    split at hf
    next hm =>
      subst hm
      exact hzero
    next => exact h.freed m' hf
  table := h.table

/-- A local path is kept by a caller. -/
theorem store
    {p : Nat} {r : Option Path} (h : Books s ((r.bind Path.mnt).toList ++ l))
    (hp : s.held p = none) :
    Books { s with held := Function.update s.held p r } l where
  counted := by
    have hmnt : PathState.mntOf { s with held := Function.update s.held p r } =
        Function.update s.mntOf (.held p) (r.bind Path.mnt) := by
      funext o
      cases o with
      | held p' =>
          by_cases heq : p' = p
          · subst heq
            simp [mntOf]
          · simp [mntOf, heq]
      | ofMount m => simp [mntOf]
    have hslot : s.mntOf (.held p) = none := by simp [mntOf, hp]
    rw [hmnt]
    cases hr : r.bind Path.mnt with
    | none =>
        have hcounted := h.counted
        rw [hr] at hcounted
        rw [Function.update_eq_self_iff.mpr hslot.symm]
        exact hcounted
    | some m =>
        have hattach := h.counted.attach (o := m) hslot
        have heq : s.owed l = Function.update (s.owed ((r.bind Path.mnt).toList ++ l)) m
            (s.owed ((r.bind Path.mnt).toList ++ l) m + 1) := by
          rw [hr]
          funext m'
          by_cases hm : m' = m
          · subst hm
            simp only [Function.update_self, owed, Option.toList_some, List.singleton_append,
              List.count_cons_self]
            omega
          · rw [Function.update_of_ne hm, owed, owed, Option.toList_some,
              List.singleton_append, List.count_cons_of_ne (Ne.symm hm)]
        rw [← heq] at hattach
        exact hattach
  freed := h.freed
  table := h.table

/-- A path that a caller kept becomes local. -/
theorem fetch
    {x : Nat} {path : Path} (h : Books s l) (hx : s.held x = some path) :
    Books { s with held := Function.update s.held x none } (path.mnt.toList ++ l) where
  counted := by
    have hmnt : PathState.mntOf { s with held := Function.update s.held x none } =
        Function.update s.mntOf (.held x) none := by
      funext o
      cases o with
      | held p' =>
          by_cases heq : p' = x
          · subst heq
            simp [mntOf]
          · simp [mntOf, heq]
      | ofMount m => simp [mntOf]
    have hslot : s.mntOf (.held x) = path.mnt := by simp [mntOf, hx]
    rw [hmnt]
    cases hm : path.mnt with
    | none =>
        rw [Function.update_eq_self_iff.mpr (hslot.trans hm).symm]
        exact h.counted
    | some m =>
        have hdetach := h.counted.detach (hslot.trans hm)
        have heq : s.owed (m :: l) = Function.update (s.owed l) m (s.owed l m - 1) := by
          funext m'
          by_cases hne : m' = m
          · subst hne
            rw [Function.update_self, owed, owed, List.count_cons_self]
            omega
          · rw [Function.update_of_ne hne, owed, owed, List.count_cons_of_ne (Ne.symm hne)]
        rw [← heq] at hdetach
        exact hdetach
  freed := h.freed
  table := h.table

/-- The mount of a path that a caller keeps has references. -/
theorem held_pos {x : Nat} {path : Path} (h : Books s l) (hx : s.held x = some path) :
    ∀ m, path.mnt = some m → 0 < (s.cells m).refcount := by
  intro m hm
  have hslot : s.mntOf (.held x) = some m := by simp [mntOf, hx, hm]
  have hpos := h.counted.pos hslot
  simp only [owed] at hpos
  split at hpos <;> omega

end Books

end Counts

/-! ### What the operations do to the books -/

section Operations

variable {s s' : PathState} {l : List Nat} {m : Nat}

/-- A path takes a reference to a mount that has some. -/
theorem takeMount_books
    (h : Books s l) (mnt : Option Nat)
    (hpos : ∀ m, mnt = some m → 0 < (s.cells m).refcount) :
    ∃ s', s.takeMount mnt = .ok s' ∧ Books s' (mnt.toList ++ l) ∧ Same s s' := by
  cases mnt with
  | none => exact ⟨s, rfl, h, .refl s⟩
  | some m =>
      have hm := hpos m rfl
      have hlive : (s.cells m).freed ≠ true := fun hf => by
        have := h.freed m hf
        omega
      refine ⟨_, if_neg hlive, ?_, same_setCount⟩
      refine h.setCount (by omega) ?_ fun m' hne => ?_
      · rw [Option.toList_some, List.singleton_append, List.count_cons_self]
        omega
      · rw [Option.toList_some, List.singleton_append, List.count_cons_of_ne (Ne.symm hne)]

/-- `put_mount` of a reference in hand goes well; a mount that it frees hands on to an
earlier one, and later mounts are not touched. -/
theorem putMount_books :
    ∀ (rounds : Nat) (s : PathState) (m : Nat) (l : List Nat), Books s (m :: l) → m < rounds →
      ∃ s', putMount rounds s m = .ok s' ∧ Books s' l ∧ Same s s' ∧
        (∀ k, m < k → s'.cells k = s.cells k) ∧
        ((s.cells m).refcount = 1 → (s'.cells m).freed = true) := by
  intro rounds
  induction rounds with
  | zero => exact fun _ m _ _ h => absurd h (Nat.not_lt_zero m)
  | succ rounds ih =>
      intro s m l h hm
      have hlive := h.not_freed (.inl List.mem_cons_self)
      have hpos := h.refcount_pos (.inl List.mem_cons_self)
      simp only [putMount, hlive, Bool.false_eq_true, if_false]
      by_cases hlast : (s.cells m).refcount - 1 = 0
      · have hone : (s.cells m).refcount = 1 := by omega
        have hzero := h.setCount_zero hone
        rw [if_neg (by simpa using hlast), hlast]
        cases hmnt : (s.table.path m).mnt with
        | none =>
            rw [hmnt] at hzero
            refine ⟨_, rfl, hzero.free (by simp), ⟨rfl, rfl⟩, fun k hk => ?_, fun _ => by simp⟩
            rw [free_cells hk, setCount_cells hk]
        | some m' =>
            rw [hmnt] at hzero
            have hlt : m' < m := h.table.earlier m m' hmnt
            obtain ⟨s₁, hs₁, hb₁, hsame, hlater, -⟩ :=
              ih (s.setCount m 0) m' l hzero (by omega)
            simp only [hs₁]
            -- the count of the mount itself stays at zero meanwhile
            have hkept : (s₁.cells m).refcount = 0 := by
              rw [hlater m hlt, setCount_refcount, if_pos rfl]
            refine ⟨_, rfl, hb₁.free hkept, same_setCount.trans (hsame.trans same_free),
              fun k hk => ?_, fun _ => by simp⟩
            rw [free_cells hk, hlater k (Nat.lt_trans hlt hk), setCount_cells hk]
      · rw [if_pos (by simpa using hlast)]
        refine ⟨_, rfl, ?_, same_setCount, fun k hk => setCount_cells hk,
          fun hone => by omega⟩
        refine h.setCount (by omega) ?_ fun m' hne => ?_
        · rw [List.count_cons_self]
          omega
        · rw [List.count_cons_of_ne (Ne.symm hne)]

theorem dropMount_books
    {mnt : Option Nat} (h : Books s (mnt.toList ++ l)) :
    ∃ s', s.dropMount mnt = .ok s' ∧ Books s' l ∧ Same s s' := by
  cases mnt with
  | none => exact ⟨s, rfl, h, .refl s⟩
  | some m =>
      obtain ⟨s', hs', hb, hsame, -⟩ := putMount_books (m + 1) s m l h (Nat.lt_succ_self m)
      exact ⟨s', hs', hb, hsame⟩

/-- What an operation that returns a path, or an error, does: the path owns its
reference. -/
def Returns (s : PathState) (l : List Nat)
    (result : Except Stop (PathState × Option Path)) : Prop :=
  ∃ s' r, result = .ok (s', r) ∧ Books s' ((r.bind Path.mnt).toList ++ l) ∧ Same s s'

theorem mnt_extendMem (components : List (List Char)) (mem : List Mem) (path : Path) :
    (path.extendMem components mem).1.mnt = path.mnt := by
  induction components generalizing path mem with
  | nil => rfl
  | cons component rest ih =>
      simp only [Path.extendMem]
      split
      next => rfl
      next => exact ih mem.tail path
      next => rw [ih, Path.mnt_addComponent]

theorem joinNew_books
    {x : Path} (h : Books s l) (y : Path) (mem : Alloc)
    (hpos : ∀ m, x.mnt = some m → 0 < (s.cells m).refcount) :
    ∃ s' r, s.joinNew x y mem = .ok (s', r) ∧ Books s' ((r.bind Path.mnt).toList ++ l) ∧
      Same s s' ∧ ∀ path, r = some path → path.mnt = x.mnt := by
  simp only [joinNew]
  split
  next => exact ⟨s, none, rfl, h, .refl s, nofun⟩
  next =>
    obtain ⟨s₁, hs₁, hb₁, hsame₁⟩ := takeMount_books h x.mnt hpos
    have hmnt := mnt_extendMem (x.components ++ y.components) mem.components
      { x with components := [] }
    simp only [hs₁, bind, Except.bind]
    split
    next path heq =>
      rw [heq] at hmnt
      refine ⟨s₁, some path, rfl, ?_, hsame₁, ?_⟩
      · rw [Option.bind_some, hmnt]
        exact hb₁
      · rintro _ ⟨⟩
        exact hmnt
    next path heq =>
      rw [heq] at hmnt
      simp only at hmnt
      rw [hmnt]
      obtain ⟨s₂, hs₂, hb₂, hsame₂⟩ := dropMount_books hb₁
      simp only [hs₂]
      exact ⟨s₂, none, rfl, hb₂, hsame₁.trans hsame₂, nofun⟩

theorem clone_books
    {old : Path} (h : Books s l) (mem : Alloc)
    (hpos : ∀ m, old.mnt = some m → 0 < (s.cells m).refcount) :
    ∃ s' r, s.clone old mem = .ok (s', r) ∧ Books s' ((r.bind Path.mnt).toList ++ l) ∧
      Same s s' ∧ ∀ path, r = some path → path.mnt = old.mnt := by
  simp only [clone]
  split
  next => exact ⟨s, none, rfl, h, .refl s, nofun⟩
  next => exact joinNew_books h _ mem hpos

theorem join_books
    {x y : Path} {mem : Alloc} (h : Books s l)
    (hx : ∀ m, x.mnt = some m → 0 < (s.cells m).refcount)
    (hy : ∀ m, y.mnt = some m → 0 < (s.cells m).refcount) :
    Returns s l (s.join x y mem) := by
  simp only [join]
  split
  next => exact ⟨s, none, rfl, h, .refl s⟩
  next =>
    split
    next =>
      obtain ⟨s', r, hs', hb, hsame, -⟩ := clone_books h mem hy
      exact ⟨s', r, hs', hb, hsame⟩
    next =>
      obtain ⟨s', r, hs', hb, hsame, -⟩ := joinNew_books h y mem hx
      exact ⟨s', r, hs', hb, hsame⟩

/-- The loop of `path_checkmnt` puts one mount for each that it takes, and ends. -/
theorem checkmntLoop_books :
    ∀ (rounds : Nat) (s : PathState) (path : Path),
      Books s (path.mnt.toList ++ l) → (s.table.above path).length < rounds →
      Returns s l (checkmntLoop rounds s path) := by
  intro rounds
  induction rounds with
  | zero => exact fun _ _ _ h => absurd h (Nat.not_lt_zero _)
  | succ rounds ih =>
      intro s path h hrounds
      have hlive : ¬ (s.table.entries.any fun m => (s.cells m).freed) = true := by
        rw [List.any_eq_true]
        rintro ⟨m, hmem, hf⟩
        rw [h.not_freed (.inr hmem)] at hf
        cases hf
      simp only [checkmntLoop, if_neg hlive]
      split
      next => exact ⟨s, some path, rfl, h, .refl s⟩
      next m hbest =>
        have hdeep := MountTable.bestmatch_some h.table hbest
        obtain ⟨s₁, hs₁, hb₁, hsame₁⟩ := dropMount_books h
        have hmem : m ∈ s₁.table.entries := by
          rw [hsame₁.table]
          exact hdeep.mem
        obtain ⟨s₂, hs₂, hb₂, hsame₂⟩ := takeMount_books hb₁ (some m) <| by
          rintro _ ⟨⟩
          exact hb₁.refcount_pos (.inr hmem)
        have htable := (hsame₁.trans hsame₂).table
        simp only [hs₁, hs₂, bind, Except.bind]
        have hlt := hdeep.above_lt h.table
        obtain ⟨s', r, hs', hb, hsame⟩ :=
          ih s₂ (s₂.table.truncate path m) hb₂ (by rw [htable]; omega)
        exact ⟨s', r, hs', hb, (hsame₁.trans hsame₂).trans hsame⟩

theorem checkmnt_books
    {old : Path} (h : Books s l) (mem : Alloc)
    (hpos : ∀ m, old.mnt = some m → 0 < (s.cells m).refcount) :
    Returns s l (s.checkmnt old mem) := by
  obtain ⟨s₁, r, hs₁, hb₁, hsame₁, -⟩ := clone_books h mem hpos
  simp only [checkmnt, hs₁, bind, Except.bind]
  cases r with
  | none => exact ⟨s₁, none, rfl, hb₁, hsame₁⟩
  | some path =>
      have hrounds : (s₁.table.above path).length < s₁.table.entries.length + 1 :=
        Nat.lt_succ_of_le (List.length_filter_le _ _)
      obtain ⟨s', r, hs', hb, hsame⟩ := checkmntLoop_books _ s₁ path hb₁ hrounds
      exact ⟨s', r, hs', hb, hsame₁.trans hsame⟩

/-- A copy is made only with all its allocations. -/
theorem clone_some {old path : Path} {mem : Alloc} (h : s.clone old mem = .ok (s', some path)) :
    old.copied mem = true := by
  simp only [clone, joinNew, Path.empty, List.append_nil] at h
  split at h
  next => cases h
  next hempty =>
    split at h
    next => cases h
    next hpath =>
      obtain ⟨s₁, -, h⟩ := Machine.bind_eq_ok_iff.mp h
      simp only [Bool.not_eq_true', Bool.not_eq_false] at hempty hpath
      split at h
      next heq => simp [Path.copied, heq, hempty, hpath]
      next =>
        obtain ⟨s₂, -, h⟩ := Machine.bind_eq_ok_iff.mp h
        cases h

/-- `path_resolvemnt` of a path without a mount, or without the memory for a copy, is
`path_clone`. -/
theorem resolvemnt_books
    {old : Path} {mem : Alloc} (h : Books s l) (mems : List Alloc)
    (hpos : ∀ m, old.mnt = some m → 0 < (s.cells m).refcount)
    (hok : old.mnt = none ∨ old.copied mem = false) :
    ∃ s' r, s.resolvemnt old mem mems = .ok (s', r) ∧ Books s' l ∧ Same s s' ∧
      ∀ path, r = some path → path.mnt = none := by
  obtain ⟨s₁, r, hs₁, hb₁, hsame₁, hmnt⟩ := clone_books h mem hpos
  simp only [resolvemnt, hs₁, bind, Except.bind]
  cases r with
  | none => exact ⟨s₁, none, rfl, hb₁, hsame₁, nofun⟩
  | some path =>
      have hnone : path.mnt = none := by
        rcases hok with hold | hcopy
        · rw [hmnt path rfl, hold]
        · rw [clone_some hs₁] at hcopy
          cases hcopy
      rw [Option.bind_some, hnone] at hb₁
      refine ⟨s₁, some path, ?_, hb₁, hsame₁, ?_⟩
      · simp [resolvemntLoop, hnone]
      · rintro _ ⟨⟩
        exact hnone

theorem tostring_books
    {path : Path} {mem : Alloc} (h : Books s l) (nbytes : Nat) (mems : List Alloc)
    (hpos : ∀ m, path.mnt = some m → 0 < (s.cells m).refcount)
    (hok : path.mnt = none ∨ path.copied mem = false) :
    ∃ s' text, s.tostring path nbytes mem mems = .ok (s', text) ∧ Books s' l ∧ Same s s' := by
  obtain ⟨s₁, r, hs₁, hb₁, hsame₁, hmnt⟩ := resolvemnt_books h mems hpos hok
  simp only [tostring, hs₁, bind, Except.bind]
  cases r with
  | none => exact ⟨s₁, [], rfl, hb₁, hsame₁⟩
  | some resolved =>
      simp only [hmnt resolved rfl]
      split
      next => exact ⟨s₁, [], rfl, hb₁, hsame₁⟩
      next => exact ⟨s₁, resolved.text nbytes, rfl, hb₁, hsame₁⟩

/-- The result of an operation is kept by the caller. -/
theorem Returns.keep
    {result : Except Stop (PathState × Option Path)} {p : Nat}
    (h : Returns s [] result) (hp : s.held p = none)
    (hex : result.map (PathState.keep p) = .ok s') : Books s' [] := by
  obtain ⟨s₁, r, rfl, hb, hsame⟩ := h
  cases hex
  rw [List.append_nil] at hb
  exact Books.store (by rwa [List.append_nil]) (by rw [hsame.held, hp])

/-- `list_remove` of the entry and `put_mount` in `do_umount`. -/
def unmount (s : PathState) (m : Nat) : Except Stop PathState :=
  { s with table := { s.table with entries := s.table.entries.filter (· ≠ m) } }.dropMount
    (some m)

/-- A mount that only the table refers to can be unmounted, and is freed. -/
theorem unmount_frees
    (h : Books s []) (hmem : m ∈ s.table.entries) (hone : (s.cells m).refcount = 1) :
    ∃ s', s.unmount m = .ok s' ∧ (s'.cells m).freed = true := by
  have hremoved : Books
      { s with table := { s.table with entries := s.table.entries.filter (· ≠ m) } } [m] := by
    refine ⟨?_, h.freed, ⟨h.table.sorted.filter _, h.table.earlier, h.table.normal⟩⟩
    have heq : PathState.owed
        { s with table := { s.table with entries := s.table.entries.filter (· ≠ m) } } [m] =
          s.owed [] := by
      funext m'
      by_cases hm : m' = m
      · subst hm
        simp [owed, hmem]
      · simp [owed, hm, Ne.symm hm]
    rw [heq]
    exact h.counted
  obtain ⟨s', hs', -, -, -, hfreed⟩ := putMount_books (m + 1) _ m [] hremoved (Nat.lt_succ_self m)
  exact ⟨s', hs', hfreed hone⟩

end Operations

end PathState

open PathState

/-- `path_resolvemnt` and `path_tostring` are called for paths without a mount, or fail to
copy the path. -/
def ForgetsNothing (s : PathState) : PathOp → Bool
  | .resolvemnt _ x mem _ | .tostring x _ mem _ =>
      ((s.held x).getD .empty).mnt.isNone || !((s.held x).getD .empty).copied mem
  | _ => true

section Steps

variable {s s' : PathState} {op : PathOp}

/-- What a held path is, and that its mount has references. -/
theorem held_spec {x : Nat} (h : Books s []) (hx : (s.held x).isSome = true) :
    ∃ path, s.held x = some path ∧ (s.held x).getD .empty = path ∧
      ∀ m, path.mnt = some m → 0 < (s.cells m).refcount := by
  obtain ⟨path, hpath⟩ := Option.isSome_iff_exists.mp hx
  exact ⟨path, hpath, by rw [hpath]; rfl, h.held_pos hpath⟩

/-- Every operation that forgets nothing goes well and keeps the books. -/
theorem PathState.Books.exec
    (h : Books s []) (hok : ForgetsNothing s op = true) (hen : pathMachine.enabled op s = true) :
    ∃ s', pathMachine.exec op s = .ok s' ∧ Books s' [] := by
  cases op with
  | join p x y mem =>
      simp only [pathMachine, Bool.and_eq_true, Option.isNone_iff_eq_none] at hen
      obtain ⟨pathX, -, hX, hposX⟩ := held_spec h hen.1.2
      obtain ⟨pathY, -, hY, hposY⟩ := held_spec h hen.2
      have hret : Returns s [] (s.join pathX pathY mem) := join_books h hposX hposY
      obtain ⟨s₁, r, hs₁, -⟩ := id hret
      simp only [pathMachine, hX, hY]
      exact ⟨_, by rw [hs₁]; rfl, hret.keep hen.1.1 (by rw [hs₁]; rfl)⟩
  | clone p x mem =>
      simp only [pathMachine, Bool.and_eq_true, Option.isNone_iff_eq_none] at hen
      obtain ⟨path, -, hpath, hpos⟩ := held_spec h hen.2
      obtain ⟨s₁, r, hs₁, hb, hsame, -⟩ := clone_books h mem hpos
      have hret : Returns s [] (s.clone path mem) := ⟨s₁, r, hs₁, hb, hsame⟩
      simp only [pathMachine, hpath]
      exact ⟨_, by rw [hs₁]; rfl, hret.keep hen.1 (by rw [hs₁]; rfl)⟩
  | checkmnt p x mem =>
      simp only [pathMachine, Bool.and_eq_true, Option.isNone_iff_eq_none] at hen
      obtain ⟨path, -, hpath, hpos⟩ := held_spec h hen.2
      have hret : Returns s [] (s.checkmnt path mem) := checkmnt_books h mem hpos
      obtain ⟨s₁, r, hs₁, -⟩ := id hret
      simp only [pathMachine, hpath]
      exact ⟨_, by rw [hs₁]; rfl, hret.keep hen.1 (by rw [hs₁]; rfl)⟩
  | resolvemnt p x mem mems =>
      simp only [pathMachine, Bool.and_eq_true, Option.isNone_iff_eq_none] at hen
      obtain ⟨path, -, hpath, hpos⟩ := held_spec h hen.2
      simp only [ForgetsNothing, hpath, Bool.or_eq_true, Option.isNone_iff_eq_none,
        Bool.not_eq_true'] at hok
      obtain ⟨s₁, r, hs₁, hb, hsame, hnone⟩ := resolvemnt_books h mems hpos hok
      have hret : Returns s [] (s.resolvemnt path mem mems) := by
        refine ⟨s₁, r, hs₁, ?_, hsame⟩
        cases r with
        | none => exact hb
        | some resolved =>
            rw [Option.bind_some, hnone resolved rfl]
            exact hb
      simp only [pathMachine, hpath]
      exact ⟨_, by rw [hs₁]; rfl, hret.keep hen.1 (by rw [hs₁]; rfl)⟩
  | tostring x nbytes mem mems =>
      simp only [pathMachine] at hen
      obtain ⟨path, -, hpath, hpos⟩ := held_spec h hen
      simp only [ForgetsNothing, hpath, Bool.or_eq_true, Option.isNone_iff_eq_none,
        Bool.not_eq_true'] at hok
      obtain ⟨s₁, text, hs₁, hb, -⟩ :=
        tostring_books h nbytes mems hpos hok
      simp only [pathMachine, hpath]
      exact ⟨s₁, by rw [hs₁]; rfl, hb⟩
  | destroy x =>
      simp only [pathMachine] at hen
      obtain ⟨path, hheld, hpath, -⟩ := held_spec h hen
      obtain ⟨s₁, hs₁, hb, -⟩ := dropMount_books (h.fetch hheld)
      simp only [pathMachine, hpath]
      exact ⟨s₁, hs₁, hb⟩

end Steps

/-- **Counting mounts.**  In every run in which no path with a mount is resolved, the
count of a mount in the table is one for its entry and one for every path that carries it;
a mount that no path carries has the count one and can be unmounted and freed; and no
operation faults. -/
theorem mount_counts
    {s : PathState}
    (h : pathMachine.Reach Consistent (fun s op => ForgetsNothing s op = true) s) :
    (∀ m ∈ s.table.entries,
      (s.cells m).refcount = 1 + ((holders s.mntOf m).ncard : Int)) ∧
    (∀ m ∈ s.table.entries, (∀ o, s.mntOf o ≠ some m) →
      (s.cells m).refcount = 1 ∧ ∃ s', s.unmount m = .ok s' ∧ (s'.cells m).freed = true) ∧
    ∀ op e, ForgetsNothing s op = true → ¬ pathMachine.Faults s op e := by
  have hb : Books s [] := by
    refine h.invariant (P := Consistent) (fun _ h0 => h0) ?_
    intro s₁ op s₂ hb hok ⟨hen, hex⟩
    obtain ⟨s₃, hs₃, hb₃⟩ := Books.exec hb hok hen
    rw [hex] at hs₃
    cases hs₃
    exact hb₃
  have hcount : ∀ m ∈ s.table.entries,
      (s.cells m).refcount = 1 + ((holders s.mntOf m).ncard : Int) := by
    intro m hm
    have := hb.counted.count m
    simp only [owed, List.count_nil, hm, if_true] at this
    omega
  refine ⟨hcount, fun m hm hnone => ?_, fun op e hok hfaults => ?_⟩
  · have hone : (s.cells m).refcount = 1 := by
      have hempty : holders s.mntOf m = ∅ := Set.eq_empty_iff_forall_notMem.mpr hnone
      rw [hcount m hm, hempty, Set.ncard_empty]
      rfl
    exact ⟨hone, unmount_frees hb hm hone⟩
  · obtain ⟨hen, hex⟩ := hfaults
    obtain ⟨s', hs', -⟩ := hb.exec hok hen
    rw [hex] at hs'
    cases hs'

/-- One mount at the root, and a caller with the path `/`. -/
def rootMounted : PathState where
  cells m := { refcount := if m = 0 then 1 else 0, freed := false }
  table := { entries := [0], path := fun _ => .root }
  held p := if p = 0 then some .root else none

theorem rootMounted_consistent : Consistent rootMounted where
  counted := by
    have hnone : ∀ o, rootMounted.mntOf o = none := by
      intro o
      cases o with
      | held p =>
          simp only [mntOf, rootMounted]
          split <;> rfl
      | ofMount m =>
          simp only [mntOf, rootMounted]
          split <;> rfl
    have hempty : ∀ m, holders rootMounted.mntOf m = ∅ := by
      intro m
      refine Set.eq_empty_iff_forall_notMem.mpr fun o ho => ?_
      rw [mem_holders, hnone] at ho
      cases ho
    refine ⟨fun m => by rw [hempty]; exact Set.finite_empty, fun m => ?_⟩
    rw [hempty, Set.ncard_empty]
    by_cases hm : m = 0
    · simp [owed, rootMounted, hm]
    · simp [owed, rootMounted, hm]
  freed := by
    intro m hf
    cases hf
  table :=
    ⟨List.pairwise_singleton _ _, fun _ _ h => (nomatch h), fun _ => Path.normal_nil rfl⟩

/-- All the memory it takes. -/
def plenty : Alloc := { empty := true, path := true, components := [] }

theorem mount_counts_checkmnt :
    ∃ s, (pathMachine.Reach Consistent (fun s op => ForgetsNothing s op = true) s ∧
        (s.cells 0).refcount = 2) ∧
      (∀ m ∈ s.table.entries,
        (s.cells m).refcount = 1 + ((holders s.mntOf m).ncard : Int)) ∧
      (∀ m ∈ s.table.entries, (∀ o, s.mntOf o ≠ some m) →
        (s.cells m).refcount = 1 ∧ ∃ s', s.unmount m = .ok s' ∧ (s'.cells m).freed = true) ∧
      ∀ op e, ForgetsNothing s op = true → ¬ pathMachine.Faults s op e := by
  have hrun : ((pathMachine.guard ForgetsNothing).runLabels
        [.checkmnt 1 0 plenty, .tostring 0 8 plenty []] rootMounted).any
      (fun s => (s.cells 0).refcount == 2) = true := by
    decide +kernel
  obtain ⟨s, hreach, hs⟩ := Machine.exists_reach_of_run rootMounted_consistent hrun
  have hreach' := Machine.Reach.of_guard hreach
  exact ⟨s, ⟨hreach', beq_iff_eq.mp hs⟩, mount_counts hreach'⟩

/-- The path of the root of the mount is made, written out and destroyed. -/
def getcwdRun : List PathOp :=
  [.checkmnt 1 0 plenty, .tostring 1 8 plenty [], .destroy 1]

/-- Afterwards nothing refers to the mount but the table, and its count is two. -/
theorem mount_leaked :
    ∃ s, pathMachine.Reach Consistent (fun _ _ => True) s ∧
      0 ∈ s.table.entries ∧ (s.cells 0).refcount = 2 ∧ ∀ o, s.mntOf o ≠ some 0 := by
  obtain ⟨s, hrun⟩ : ∃ s, pathMachine.runLabels getcwdRun rootMounted = some s := ⟨_, rfl⟩
  have hreach := Machine.Reach.runLabels (.start rootMounted_consistent) hrun
  refine ⟨s, hreach, ?_⟩
  cases hrun
  refine ⟨by decide, by decide, fun o => ?_⟩
  cases o with
  | held p =>
      match p with
      | 0 => decide
      | 1 => decide
      | p + 2 => exact nofun
  | ofMount m =>
      match m with
      | 0 => decide
      | m + 1 => exact nofun

end Vfs
end JkxyKernel
