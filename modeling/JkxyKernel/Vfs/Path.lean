import Mathlib.Algebra.Order.Ring.Int
import Mathlib.Logic.Function.Basic
import Mathlib.Tactic.SplitIfs

/-!
# Paths

`struct path` of `vfs/path.c`: whether it starts at the root, the mount its
components are counted from, and the components.  A path owns one reference to its
mount; here it is a plain value, and the code that copies or destroys one says what
happens to the count.

Components are lists of characters, and failing allocations are left to the callers.
-/

namespace JkxyKernel
namespace Vfs

/-- `struct path` -/
@[ext]
structure Path where
  absolute : Bool
  mnt : Option Nat
  components : List (List Char)
  deriving DecidableEq, Repr

namespace Path

/-- The path without components that `path_clone` starts from. -/
def empty : Path where
  absolute := false
  mnt := none
  components := []

/-- `root_path` -/
def root : Path := { empty with absolute := true }

/-- `path_add_component` -/
def addComponent (path : Path) (component : List Char) : Path :=
  if component = [] ∨ component = ['.'] then path
  else if component = ['.', '.'] ∧ path.components ≠ [] then
    { path with components := path.components.dropLast }
  else if component = ['.', '.'] ∧ (path.absolute ∨ path.mnt.isSome) then path
  else { path with components := path.components ++ [component] }

/-- `path_fromstr`; an empty string is refused. -/
def fromstr (pathstr : List Char) : Option Path :=
  match pathstr with
  | [] => none
  | '/' :: rest => some ((rest.splitOn '/').foldl addComponent root)
  | _ => some ((pathstr.splitOn '/').foldl addComponent empty)

/-- The part of `path_join` that copies components. -/
def extend (x : Path) (components : List (List Char)) : Path :=
  components.foldl addComponent x

/-- `path_clone` of a path: its components are added again to an empty copy. -/
def clone (old : Path) : Path :=
  extend { old with components := [] } old.components

/-- `path_join`; a second path that carries a mount is refused. -/
def join (x y : Path) : Option Path :=
  if y.mnt.isSome then none
  else if y.absolute then some y.clone
  else some (extend (extend { x with components := [] } x.components) y.components)

/-- `path_subsumes`: the number of components of `parent`, when they are the first
components of `child`. -/
def subsumes (parent child : Path) : Option Nat :=
  if parent.mnt ≠ child.mnt ∨ parent.absolute ≠ child.absolute then none
  else if parent.components.isPrefixOf child.components then some parent.components.length
  else none

variable {x y path : Path}

@[simp] theorem mnt_addComponent (component : List Char) :
    (path.addComponent component).mnt = path.mnt := by
  simp only [addComponent]
  split_ifs <;> rfl

@[simp] theorem mnt_extend (components : List (List Char)) :
    (path.extend components).mnt = path.mnt := by
  induction components generalizing path with
  | nil => rfl
  | cons component rest ih =>
      change ((path.addComponent component).extend rest).mnt = path.mnt
      rw [ih, mnt_addComponent]

@[simp] theorem mnt_clone : path.clone.mnt = path.mnt := by
  simp [clone]

/-! ### Where components come from -/

theorem mem_components_addComponent {c component : List Char}
    (h : c ∈ (path.addComponent component).components) :
    c ∈ path.components ∨ c = component := by
  simp only [addComponent] at h
  split at h
  next => exact .inl h
  next =>
    split at h
    next => exact .inl (List.dropLast_subset _ h)
    next =>
      split at h
      next => exact .inl h
      next => simpa using h

/-- `".."` -/
def dotdot : List Char := ['.', '.']

/-- A component other than the empty one, `.` and `..`. -/
def IsName (component : List Char) : Prop :=
  component ≠ [] ∧ component ≠ ['.'] ∧ component ≠ dotdot

instance (component : List Char) : Decidable (IsName component) :=
  inferInstanceAs (Decidable (_ ∧ _ ∧ _))

/-- A path all of whose components are names, except that a relative path without a
mount may begin with one `..`. -/
structure Normal (path : Path) : Prop where
  parts : ∃ lead names, path.components = lead ++ names ∧ (∀ name ∈ names, IsName name) ∧
    (lead = [] ∨ lead = [dotdot] ∧ path.absolute = false ∧ path.mnt = none)

/-- The path with more components at its end. -/
def append (path : Path) (names : List (List Char)) : Path :=
  { path with components := path.components ++ names }

@[simp] theorem append_nil : path.append [] = path := by
  simp [append]

theorem append_append (names names' : List (List Char)) :
    (path.append names).append names' = path.append (names ++ names') := by
  simp [append]

theorem extend_cons (component : List Char) (rest : List (List Char)) :
    path.extend (component :: rest) = (path.addComponent component).extend rest := rfl

theorem extend_append (components components' : List (List Char)) :
    path.extend (components ++ components') = (path.extend components).extend components' :=
  List.foldl_append

theorem addComponent_name {name : List Char} (h : IsName name) :
    path.addComponent name = path.append [name] := by
  obtain ⟨hne, hdot, hup⟩ := h
  have hup' : name ≠ ['.', '.'] := hup
  simp [addComponent, append, hne, hdot, hup']

/-- Names are added one after the other. -/
theorem extend_names {names : List (List Char)} (h : ∀ name ∈ names, IsName name) :
    path.extend names = path.append names := by
  induction names generalizing path with
  | nil => simp [extend]
  | cons name rest ih =>
      rw [extend_cons, addComponent_name (h name List.mem_cons_self),
        ih fun other hmem => h other (List.mem_cons_of_mem _ hmem), append_append]
      rfl

/-- Adding the components of a normal path again gives the path back. -/
theorem Normal.extend_self (h : path.Normal) :
    extend { path with components := [] } path.components = path := by
  obtain ⟨lead, names, heq, hnames, hlead⟩ := h.parts
  obtain ⟨absolute, mnt, components⟩ := path
  simp only at heq
  subst heq
  rcases hlead with rfl | ⟨rfl, habs, hmnt⟩
  · rw [List.nil_append, extend_names hnames]
    rfl
  · simp only at habs hmnt
    subst habs hmnt
    rw [extend_append, extend_names hnames]
    rfl

theorem Normal.clone_eq (h : path.Normal) : path.clone = path :=
  h.extend_self

theorem normal_nil (h : path.components = []) : path.Normal :=
  ⟨⟨[], [], by simp [h], by simp, .inl rfl⟩⟩

/-- One more component keeps a path normal. -/
theorem Normal.addComponent (h : path.Normal) (component : List Char) :
    (path.addComponent component).Normal := by
  obtain ⟨lead, names, heq, hnames, hlead⟩ := h.parts
  simp only [Path.addComponent]
  split
  next => exact h
  next hskip =>
    split
    next hup =>
      -- the last name goes, or the leading `..`
      rcases List.eq_nil_or_concat names with rfl | ⟨init, last, rfl⟩
      · rcases hlead with rfl | ⟨rfl, habs, hmnt⟩
        · exact absurd heq hup.2
        · exact normal_nil (by simp [heq])
      · rw [List.concat_eq_append] at heq hnames
        refine ⟨⟨lead, init, ?_, fun name hmem => ?_, hlead⟩⟩
        · simp only [heq, ← List.append_assoc, List.dropLast_concat]
        · exact hnames name (List.mem_append_left _ hmem)
    next hpop =>
      split
      next => exact h
      next hsquash =>
        by_cases hdots : component = dotdot
        · subst hdots
          have hnil : path.components = [] := by
            by_contra hne
            exact hpop ⟨rfl, hne⟩
          have hrel : path.absolute = false ∧ path.mnt = none := by
            simpa [dotdot] using hsquash
          exact ⟨⟨[dotdot], [], by simp [hnil], by simp, .inr ⟨rfl, hrel⟩⟩⟩
        · refine ⟨⟨lead, names ++ [component], by simp [heq], ?_, hlead⟩⟩
          intro name hmem
          rcases List.mem_append.mp hmem with hmem | hmem
          · exact hnames name hmem
          · rw [List.mem_singleton.mp hmem]
            exact ⟨fun hnil => hskip (.inl hnil), fun hdot => hskip (.inr hdot), hdots⟩

theorem Normal.extend (h : path.Normal) (components : List (List Char)) :
    (path.extend components).Normal := by
  induction components generalizing path with
  | nil => exact h
  | cons component rest ih =>
      rw [extend_cons]
      exact ih (h.addComponent component)

end Path
end Vfs
end JkxyKernel
