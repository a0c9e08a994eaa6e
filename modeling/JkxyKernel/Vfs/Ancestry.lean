import JkxyKernel.Vfs.Path
import Mathlib.Tactic.Push

/-!
# Path ancestry tests

`path_subsumes` walks two component lists at once and answers with an `int32_t`, where
`-1` stands for no.  `path_is_same` and `path_is_direct_decendent` compare that answer
with the `uint32_t` of `path_size`, so the comparison is one of unsigned numbers.

For a path without components `path_size(..) - 1` is the same unsigned number as `-1`:
such a path is taken for a direct descendant of every path it does not belong to.
-/

namespace JkxyKernel
namespace Vfs

/-- The conversion to `uint32_t`. -/
def toUint32 (n : Int) : Nat := (n % 2 ^ 32).toNat

/-- `path_size` -/
def pathSize (path : Path) : Nat :=
  path.components.foldl (fun size _ => (size + 1) % 2 ^ 32) 0

/-- The loop of `path_subsumes`, on what is left of the two lists. -/
def subsumesLoop : List (List Char) → List (List Char) → Int → Int
  | [], _, matchsize => matchsize
  | _ :: _, [], _ => -1
  | parentnode :: parent, childnode :: child, matchsize =>
      if parentnode = childnode then subsumesLoop parent child (matchsize + 1) else -1

/-- `path_subsumes` -/
def pathSubsumes (parent child : Path) : Int :=
  if parent.mnt ≠ child.mnt ∨ parent.absolute ≠ child.absolute then -1
  else subsumesLoop parent.components child.components 0

/-- `path_is_same` -/
def pathIsSame (x y : Path) : Bool :=
  toUint32 (pathSubsumes x y) == pathSize y

/-- `path_is_direct_decendent` -/
def pathIsDirectDecendent (parent child : Path) : Bool :=
  toUint32 (pathSubsumes parent child) == toUint32 ((pathSize child : Int) - 1)

/-- A path in memory: each component has a list node of twelve bytes in a 32-bit address
space. -/
structure ResidentPath extends Path where
  fits : 12 * components.length < 2 ^ 32

/-! ### The walk -/

section Walk

variable {parent child : Path}

theorem subsumesLoop_eq (xs ys : List (List Char)) (matchsize : Int) :
    subsumesLoop xs ys matchsize = if xs <+: ys then matchsize + xs.length else -1 := by
  induction xs generalizing ys matchsize with
  | nil => simp [subsumesLoop]
  | cons x xs ih =>
      cases ys with
      | nil => simp [subsumesLoop]
      | cons y ys =>
          simp only [subsumesLoop, List.cons_prefix_cons]
          by_cases hxy : x = y
          · simp only [hxy, if_true, true_and, ih, List.length_cons]
            split
            next => omega
            next => rfl
          · simp [hxy]

/-- The two paths have one mount and one kind, and the parent's components come first. -/
def Subsumed (parent child : Path) : Prop :=
  parent.mnt = child.mnt ∧ parent.absolute = child.absolute ∧
    parent.components <+: child.components

instance : Decidable (Subsumed parent child) :=
  inferInstanceAs (Decidable (_ ∧ _ ∧ _))

/-- The value of `path_subsumes`. -/
theorem pathSubsumes_eq :
    pathSubsumes parent child =
      if Subsumed parent child then (parent.components.length : Int) else -1 := by
  simp only [pathSubsumes]
  split
  next h =>
    have hsub : ¬ Subsumed parent child := fun ⟨hmnt, habs, _⟩ =>
      h.elim (absurd hmnt) (absurd habs)
    rw [if_neg hsub]
  next h =>
    push Not at h
    simp [Subsumed, h.1, h.2, subsumesLoop_eq]

/-- `Path.subsumes` is this answer, with `none` for `-1`. -/
theorem pathSubsumes_eq_subsumes :
    pathSubsumes parent child =
      match parent.subsumes child with
      | none => -1
      | some matchsize => matchsize := by
  rw [pathSubsumes_eq]
  simp only [Path.subsumes, Subsumed, List.isPrefixOf_iff_prefix]
  by_cases hmnt : parent.mnt = child.mnt
  · by_cases habs : parent.absolute = child.absolute
    · by_cases hbegins : parent.components <+: child.components
      · simp [hmnt, habs, hbegins]
      · simp [hmnt, habs, hbegins]
    · simp [habs]
  · simp [hmnt]

theorem subsumed_iff_append : Subsumed parent child ↔ ∃ more, child = parent.append more := by
  constructor
  · rintro ⟨hmnt, habs, more, hmore⟩
    exact ⟨more, Vfs.Path.ext habs.symm hmnt.symm hmore.symm⟩
  · rintro ⟨more, rfl⟩
    exact ⟨rfl, rfl, ⟨more, rfl⟩⟩

end Walk

/-! ### The comparisons -/

section Comparisons

variable {parent child : ResidentPath}

theorem pathSize_eq (path : Path) : pathSize path = path.components.length % 2 ^ 32 := by
  have hfold : ∀ (components : List (List Char)) (start : Nat),
      start < 2 ^ 32 → components.foldl (fun size _ => (size + 1) % 2 ^ 32) start =
        (start + components.length) % 2 ^ 32 := by
    intro components
    induction components with
    | nil =>
        intro start hstart
        exact (Nat.mod_eq_of_lt hstart).symm
    | cons _ rest ih =>
        intro start hstart
        rw [List.foldl_cons, ih _ (Nat.mod_lt _ (by decide)), List.length_cons]
        omega
  rw [pathSize, hfold _ 0 (by decide), Nat.zero_add]

theorem ResidentPath.length_lt (path : ResidentPath) :
    path.components.length < 2 ^ 32 - 1 := by
  have := path.fits
  omega

theorem ResidentPath.pathSize (path : ResidentPath) :
    pathSize path.toPath = path.components.length := by
  have := path.length_lt
  rw [pathSize_eq, Nat.mod_eq_of_lt (by omega)]

theorem toUint32_natCast {n : Nat} (h : n < 2 ^ 32) : toUint32 n = n := by
  simp only [toUint32]
  omega

theorem toUint32_neg_one : toUint32 (-1) = 2 ^ 32 - 1 := by
  decide

/-- `path_is_same` is right on all paths. -/
theorem pathIsSame_iff :
    pathIsSame parent.toPath child.toPath = true ↔ parent.toPath = child.toPath := by
  have hparent := parent.length_lt
  have hchild := child.length_lt
  simp only [pathIsSame, beq_iff_eq, child.pathSize, pathSubsumes_eq]
  constructor
  · intro hsize
    split at hsize
    next hsub =>
      rw [toUint32_natCast (by omega)] at hsize
      obtain ⟨hmnt, habs, hbegins⟩ := hsub
      exact Vfs.Path.ext habs hmnt (hbegins.eq_of_length hsize)
    next =>
      rw [toUint32_neg_one] at hsize
      omega
  · intro heq
    have hsub : Subsumed parent.toPath child.toPath := by
      rw [heq]
      exact ⟨rfl, rfl, List.prefix_rfl⟩
    rw [if_pos hsub, toUint32_natCast (by omega), heq]

/-- `path_is_direct_decendent` on a child that has components. -/
theorem pathIsDirectDecendent_iff (h : child.components ≠ []) :
    pathIsDirectDecendent parent.toPath child.toPath = true ↔
      ∃ last, child.toPath = parent.toPath.append [last] := by
  have hparent := parent.length_lt
  have hchild := child.length_lt
  have hpos : 0 < child.components.length := List.length_pos_iff.mpr h
  have hsize : toUint32 ((child.components.length : Int) - 1) =
      child.components.length - 1 := by
    simp only [toUint32]
    omega
  simp only [pathIsDirectDecendent, beq_iff_eq, child.pathSize, pathSubsumes_eq, hsize]
  constructor
  · intro hdirect
    split at hdirect
    next hsub =>
      rw [toUint32_natCast (by omega)] at hdirect
      obtain ⟨more, hmore⟩ := subsumed_iff_append.mp hsub
      have hone : more.length = 1 := by
        have htotal := congrArg (fun path => path.components.length) hmore
        simp only [Path.append, List.length_append] at htotal
        omega
      obtain ⟨last, rfl⟩ := List.length_eq_one_iff.mp hone
      exact ⟨last, hmore⟩
    next =>
      rw [toUint32_neg_one] at hdirect
      omega
  · rintro ⟨last, hlast⟩
    rw [if_pos (subsumed_iff_append.mpr ⟨[last], hlast⟩), toUint32_natCast (by omega), hlast]
    simp [Path.append]

/-- A child without components is a direct descendant of every other path, the unsigned
`-1` being equal to itself. -/
theorem pathIsDirectDecendent_nil (h : child.components = []) :
    pathIsDirectDecendent parent.toPath child.toPath = true ↔
      parent.toPath ≠ child.toPath := by
  have hparent := parent.length_lt
  simp only [pathIsDirectDecendent, beq_iff_eq, child.pathSize, pathSubsumes_eq, h]
  have hsub : Subsumed parent.toPath child.toPath ↔ parent.toPath = child.toPath := by
    constructor
    · rintro ⟨hmnt, habs, hbegins⟩
      rw [h, List.prefix_nil] at hbegins
      exact Vfs.Path.ext habs hmnt (hbegins.trans h.symm)
    · intro heq
      rw [heq]
      exact ⟨rfl, rfl, List.prefix_rfl⟩
  by_cases heq : parent.toPath = child.toPath
  · have hlength : parent.components.length = 0 := by
      rw [heq, h]
      rfl
    rw [if_pos (hsub.mpr heq), hlength]
    simp only [ne_eq, heq, not_true, iff_false]
    decide
  · rw [if_neg (mt hsub.mp heq)]
    simp only [ne_eq, heq, not_false_iff, iff_true]
    decide

/-- What the three tests should answer for two paths. -/
structure AncestryTested (parent child : Path) : Prop where
  yes : Subsumed parent child → pathSubsumes parent child = parent.components.length
  no : ¬ Subsumed parent child → pathSubsumes parent child = -1
  same : pathIsSame parent child = true ↔ parent = child
  direct : pathIsDirectDecendent parent child = true ↔
    ∃ last, child = parent.append [last]
  /-- What the ustar code takes for granted. -/
  last : pathIsDirectDecendent parent child = true → child.components ≠ []

/-- **Ancestry.**  The tests answer for a pair of paths as they should exactly when the
child has a component, or is the parent itself. -/
theorem ancestryTested_iff (parent child : ResidentPath) :
    AncestryTested parent.toPath child.toPath ↔
      child.components ≠ [] ∨ parent.toPath = child.toPath := by
  constructor
  · intro htested
    by_contra hneither
    push Not at hneither
    obtain ⟨hnil, hne⟩ := hneither
    exact htested.last ((pathIsDirectDecendent_nil hnil).mpr hne) hnil
  · intro hcase
    have hdirect : pathIsDirectDecendent parent.toPath child.toPath = true ↔
        ∃ last, child.toPath = parent.toPath.append [last] := by
      by_cases hnil : child.components = []
      · have heq := hcase.resolve_left (not_not_intro hnil)
        rw [pathIsDirectDecendent_nil hnil]
        constructor
        · exact fun hne => absurd heq hne
        · rintro ⟨last, hlast⟩
          rw [hlast] at hnil
          simp [Path.append] at hnil
      · exact pathIsDirectDecendent_iff hnil
    refine ⟨fun hsub => ?_, fun hsub => ?_, pathIsSame_iff, hdirect, fun hyes => ?_⟩
    · rw [pathSubsumes_eq, if_pos hsub]
    · rw [pathSubsumes_eq, if_neg hsub]
    · obtain ⟨last, hlast⟩ := hdirect.mp hyes
      rw [hlast]
      simp [Path.append]

/-- The entry `./` of an archive, seen from the directory `a`. -/
theorem dot_directDecendent :
    ¬ ∀ parent child : ResidentPath, AncestryTested parent.toPath child.toPath := by
  intro h
  have htested := h { Path.empty with components := [['a']], fits := by decide }
    { Path.empty with fits := by decide }
  exact htested.last (by decide) rfl

end Comparisons

end Vfs
end JkxyKernel
