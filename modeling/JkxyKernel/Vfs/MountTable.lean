import JkxyKernel.Vfs.Path
import Mathlib.Data.List.Induction

/-!
# Resolving mounts

`path_checkmnt` replaces the front of a path by the mount it leads into, again and again:
a mount covers a path when the path of the mount starts at the same place and its
components come first.  Of several, the one with the most components is taken, and the
latest of these.  `path_resolvemnt` goes back: it puts the path of the mount in front.

Both loops follow the order in which the mounts were created, upwards and downwards, for
the path of a mount refers to an earlier mount if to any.  Mounts are numbered in that
order here, and the loops get a bound on their rounds.

A mount is looked for below the mount that was reached before.  So a mount that was made
under a path of its own is out of reach once another mount covers the mount it belongs to,
however long its whole path may be.
-/

namespace JkxyKernel
namespace Vfs

/-- `mounttable`, and the paths of the mounts, in it or not. -/
structure MountTable where
  entries : List Nat
  path : Nat → Path

namespace MountTable

variable (table : MountTable)

/-- One round of the search of `path_checkmnt`. -/
def betterMatch (path : Path) (best : Option Nat × Nat) (entry : Nat) : Option Nat × Nat :=
  match (table.path entry).subsumes path with
  | some matchsize => if best.2 ≤ matchsize then (some entry, matchsize) else best
  | none => best

/-- `bestmatch` of `path_checkmnt`. -/
def bestmatch (path : Path) : Option Nat :=
  (table.entries.foldl (table.betterMatch path) (none, 0)).1

/-- The path truncated to the mount. -/
def truncate (path : Path) (m : Nat) : Path where
  absolute := false
  mnt := some m
  components := path.components.drop (table.path m).components.length

/-- The loop of `path_checkmnt`, for a number of rounds. -/
def checkmntLoop : Nat → Path → Option Path
  | 0, _ => none
  | rounds + 1, path =>
      match table.bestmatch path with
      | none => some path
      | some m => checkmntLoop rounds (table.truncate path m)

/-- `path_checkmnt` -/
def checkmnt (rounds : Nat) (old : Path) : Option Path :=
  table.checkmntLoop rounds old.clone

/-- The loop of `path_resolvemnt`, for a number of rounds. -/
def resolvemntLoop : Nat → Path → Option Path
  | 0, _ => none
  | rounds + 1, path =>
      match path.mnt with
      | none => some path
      | some m =>
          match (table.path m).join { path with mnt := none } with
          | none => none
          | some newpath => resolvemntLoop rounds newpath

/-- `path_resolvemnt` -/
def resolvemnt (rounds : Nat) (old : Path) : Option Path :=
  table.resolvemntLoop rounds old.clone

/-- The mounts stand in the order of their creation, their paths refer to earlier mounts,
and are built from components. -/
structure WellFormed : Prop where
  sorted : table.entries.Pairwise (· < ·)
  earlier : ∀ m m', (table.path m).mnt = some m' → m' < m
  normal : ∀ m, (table.path m).Normal

/-- The mount covers the path. -/
def Covers (m : Nat) (path : Path) : Prop :=
  (table.path m).mnt = path.mnt ∧ (table.path m).absolute = path.absolute ∧
    (table.path m).components <+: path.components

/-- The mount is the longest in the table to cover the path, and the latest of these. -/
structure Deepest (path : Path) (m : Nat) : Prop where
  mem : m ∈ table.entries
  covers : table.Covers m path
  longest : ∀ m' ∈ table.entries, table.Covers m' path →
    (table.path m').components.length < (table.path m).components.length ∨
      (table.path m').components.length = (table.path m).components.length ∧ m' ≤ m

/-- A path follows the deepest mounts, level by level, until no mount covers it. -/
inductive Leads : Path → Path → Prop
  | done {path : Path} :
      (∀ m ∈ table.entries, ¬ table.Covers m path) → Leads path path
  | level {path dest : Path} {m : Nat} :
      table.Deepest path m → Leads (table.truncate path m) dest → Leads path dest

section Search

variable {table} {path : Path} {m : Nat}

theorem subsumes_eq_some {parent child : Path} {n : Nat} :
    parent.subsumes child = some n ↔
      parent.mnt = child.mnt ∧ parent.absolute = child.absolute ∧
        parent.components <+: child.components ∧ n = parent.components.length := by
  simp only [Path.subsumes]
  split
  next hno =>
    simp only [false_iff, reduceCtorEq]
    rintro ⟨hmnt, habs, -⟩
    exact hno.elim (fun h => h hmnt) fun h => h habs
  next hyes =>
    simp only [ne_eq, not_or, not_not] at hyes
    split
    next hstarts =>
      rw [List.isPrefixOf_iff_prefix] at hstarts
      simp [hyes, hstarts, eq_comm]
    next hstarts =>
      rw [List.isPrefixOf_iff_prefix] at hstarts
      simp [hstarts]

theorem subsumes_of_covers (h : table.Covers m path) :
    (table.path m).subsumes path = some (table.path m).components.length :=
  subsumes_eq_some.mpr ⟨h.1, h.2.1, h.2.2, rfl⟩

theorem subsumes_of_not_covers (h : ¬ table.Covers m path) :
    (table.path m).subsumes path = none := by
  cases hs : (table.path m).subsumes path with
  | none => rfl
  | some n =>
      obtain ⟨hmnt, habs, hstarts, -⟩ := subsumes_eq_some.mp hs
      exact absurd ⟨hmnt, habs, hstarts⟩ h

/-- What the search has found after some entries. -/
structure Found (table : MountTable) (path : Path) (seen : List Nat)
    (best : Option Nat × Nat) : Prop where
  none_of : best.1 = none → best.2 = 0 ∧ ∀ m ∈ seen, ¬ table.Covers m path
  some_of : ∀ m, best.1 = some m → m ∈ seen ∧ table.Covers m path ∧
    best.2 = (table.path m).components.length ∧
    ∀ m' ∈ seen, table.Covers m' path →
      (table.path m').components.length < best.2 ∨
        (table.path m').components.length = best.2 ∧ m' ≤ m

/-- One more entry, later than those before. -/
theorem Found.step
    {seen : List Nat} {best : Option Nat × Nat} {entry : Nat}
    (h : Found table path seen best) (hlater : ∀ m ∈ seen, m < entry) :
    Found table path (seen ++ [entry]) (table.betterMatch path best entry) := by
  by_cases hcovers : table.Covers entry path
  · simp only [betterMatch, subsumes_of_covers hcovers]
    split
    next hle =>
      refine ⟨nofun, fun m hm => ?_⟩
      cases hm
      refine ⟨by simp, hcovers, rfl, fun m' hmem hcovers' => ?_⟩
      rcases List.mem_append.mp hmem with hseen | hlast
      · cases hbest : best.1 with
        | none => exact absurd hcovers' ((h.none_of hbest).2 m' hseen)
        | some m =>
            have hlt := hlater m' hseen
            rcases (h.some_of m hbest).2.2.2 m' hseen hcovers' with hlen | ⟨hlen, -⟩
            · omega
            · omega
      · rw [List.mem_singleton.mp hlast]
        exact .inr ⟨rfl, Nat.le_refl _⟩
    next hlt =>
      refine ⟨fun hnone => ?_, fun m hm => ?_⟩
      · have := (h.none_of hnone).1
        omega
      · obtain ⟨hmem, hcov, hlen, hmax⟩ := h.some_of m hm
        refine ⟨List.mem_append_left _ hmem, hcov, hlen, fun m' hmem' hcovers' => ?_⟩
        rcases List.mem_append.mp hmem' with hseen | hlast
        · exact hmax m' hseen hcovers'
        · rw [List.mem_singleton.mp hlast]
          omega
  · simp only [betterMatch, subsumes_of_not_covers hcovers]
    refine ⟨fun hnone => ?_, fun m hm => ?_⟩
    · obtain ⟨hzero, hseen⟩ := h.none_of hnone
      refine ⟨hzero, fun m hmem => ?_⟩
      rcases List.mem_append.mp hmem with hmem | hlast
      · exact hseen m hmem
      · rw [List.mem_singleton.mp hlast]
        exact hcovers
    · obtain ⟨hmem, hcov, hlen, hmax⟩ := h.some_of m hm
      refine ⟨List.mem_append_left _ hmem, hcov, hlen, fun m' hmem' hcovers' => ?_⟩
      rcases List.mem_append.mp hmem' with hseen | hlast
      · exact hmax m' hseen hcovers'
      · rw [List.mem_singleton.mp hlast] at hcovers'
        exact absurd hcovers' hcovers

/-- The search over a sorted table. -/
theorem found_bestmatch (hsorted : table.entries.Pairwise (· < ·)) :
    Found table path table.entries
      (table.entries.foldl (table.betterMatch path) (none, 0)) := by
  have hall : ∀ entries : List Nat, entries.Pairwise (· < ·) →
      Found table path entries (entries.foldl (table.betterMatch path) (none, 0)) := by
    intro entries
    induction entries using List.reverseRecOn with
    | nil => exact fun _ => ⟨fun _ => ⟨rfl, by simp⟩, by simp⟩
    | append_singleton entries entry ih =>
        intro hpair
        rw [List.pairwise_append] at hpair
        obtain ⟨hpair, -, hlater⟩ := hpair
        rw [List.foldl_append]
        exact (ih hpair).step fun m hm => hlater m hm entry (List.mem_singleton_self _)
  exact hall table.entries hsorted

theorem bestmatch_none (h : table.WellFormed) :
    table.bestmatch path = none → ∀ m ∈ table.entries, ¬ table.Covers m path :=
  fun hnone => ((found_bestmatch h.sorted).none_of hnone).2

theorem bestmatch_some (h : table.WellFormed) (hm : table.bestmatch path = some m) :
    table.Deepest path m := by
  obtain ⟨hmem, hcov, hlen, hmax⟩ := (found_bestmatch h.sorted).some_of m hm
  rw [hlen] at hmax
  exact ⟨hmem, hcov, hmax⟩

end Search

section Loops

variable {table} {path dest : Path} {m : Nat}

/-- The components of a covered path are those of the mount and those that remain. -/
theorem Covers.components_eq (h : table.Covers m path) :
    (table.path m).components ++ path.components.drop (table.path m).components.length =
      path.components := by
  obtain ⟨rest, hrest⟩ := h.2.2
  rw [← hrest, List.drop_left]

/-- How many mounts of the table can still be reached from a path. -/
def above (table : MountTable) (path : Path) : List Nat :=
  table.entries.filter fun m => path.mnt.all (· < m)

/-- A level leaves fewer mounts. -/
theorem Deepest.above_lt (hwf : table.WellFormed) (h : table.Deepest path m) :
    (table.above (table.truncate path m)).length < (table.above path).length := by
  have hmem : m ∈ table.above path := by
    refine List.mem_filter.mpr ⟨h.mem, ?_⟩
    cases hmnt : path.mnt with
    | none => rfl
    | some m' => simpa using hwf.earlier m m' (h.covers.1.trans hmnt)
  have hsub : table.above (table.truncate path m) =
      (table.above path).filter fun m' => decide (m < m') := by
    simp only [above, truncate, List.filter_filter, Option.all_some]
    refine List.filter_congr fun m' _ => ?_
    cases hmnt : path.mnt with
    | none => simp
    | some m₀ =>
        have hlt : m₀ < m := hwf.earlier m m₀ (h.covers.1.trans hmnt)
        have hiff : m < m' → m₀ < m' := Nat.lt_trans hlt
        simpa using hiff
  rw [hsub]
  exact List.length_filter_lt_length_iff_exists.mpr ⟨m, hmem, by simp⟩

/-- The loop ends within as many rounds as there are mounts to be reached, and one. -/
theorem checkmntLoop_leads (hwf : table.WellFormed) :
    ∀ (rounds : Nat) (path : Path), (table.above path).length < rounds →
      ∃ dest, table.checkmntLoop rounds path = some dest ∧ table.Leads path dest := by
  intro rounds
  induction rounds with
  | zero => exact fun path h => absurd h (Nat.not_lt_zero _)
  | succ rounds ih =>
      intro path h
      cases hbest : table.bestmatch path with
      | none =>
          refine ⟨path, ?_, .done (bestmatch_none hwf hbest)⟩
          simp only [checkmntLoop, hbest]
      | some m =>
          have hdeep := bestmatch_some hwf hbest
          have hlt := hdeep.above_lt hwf
          obtain ⟨dest, hdest, hleads⟩ := ih (table.truncate path m) (by omega)
          refine ⟨dest, ?_, .level hdeep hleads⟩
          simp only [checkmntLoop, hbest]
          exact hdest

/-- More rounds do not change a result. -/
theorem checkmntLoop_unique {dest' : Path} {rounds rounds' : Nat}
    (h : table.checkmntLoop rounds path = some dest)
    (h' : table.checkmntLoop rounds' path = some dest') : some dest = some dest' := by
  induction rounds generalizing rounds' path with
  | zero => cases h
  | succ rounds ih =>
      cases rounds' with
      | zero => cases h'
      | succ rounds' =>
          simp only [checkmntLoop] at h h'
          split at h
          next hbest =>
            simp only [hbest] at h'
            exact h.symm.trans h'
          next hbest =>
            simp only [hbest] at h'
            exact ih h h'

/-- Putting the path of the mount in front again undoes a level. -/
theorem Covers.join_truncate
    (h : table.Covers m path) (hnormal : (table.path m).Normal)
    (hnames : ∀ name ∈ path.components, Path.IsName name) :
    (table.path m).join { table.truncate path m with mnt := none } = some path := by
  have hrest : ∀ name ∈ path.components.drop (table.path m).components.length,
      Path.IsName name := fun name hmem => hnames name (List.mem_of_mem_drop hmem)
  simp only [Path.join, truncate, Option.isSome_none, Bool.false_eq_true, if_false]
  rw [hnormal.extend_self, Path.extend_names hrest]
  exact congrArg some (Path.ext h.2.1 h.1 h.components_eq)

/-- Going back from the end of the levels meets their beginning. -/
theorem Leads.resolvemntLoop
    (hwf : table.WellFormed) (h : table.Leads path dest)
    (hnames : ∀ name ∈ path.components, Path.IsName name) :
    ∃ levels, ∀ rounds,
      table.resolvemntLoop (rounds + levels) dest = table.resolvemntLoop rounds path := by
  induction h with
  | done => exact ⟨0, fun _ => rfl⟩
  | @level path dest m hdeep _ ih =>
      obtain ⟨levels, hlevels⟩ := ih fun name hmem => hnames name (List.mem_of_mem_drop hmem)
      refine ⟨levels + 1, fun rounds => ?_⟩
      have hjoin := hdeep.covers.join_truncate (hwf.normal m) hnames
      calc table.resolvemntLoop (rounds + (levels + 1)) dest
          = table.resolvemntLoop (rounds + 1 + levels) dest := by
            rw [Nat.add_assoc rounds 1, Nat.add_comm 1]
        _ = table.resolvemntLoop (rounds + 1) (table.truncate path m) := hlevels _
        _ = table.resolvemntLoop rounds path := by
            rw [MountTable.resolvemntLoop]
            simp only [truncate] at hjoin ⊢
            rw [hjoin]

/-- Levels keep names. -/
theorem Leads.names
    (h : table.Leads path dest) (hnames : ∀ name ∈ path.components, Path.IsName name) :
    ∀ name ∈ dest.components, Path.IsName name := by
  induction h with
  | done => exact hnames
  | level _ _ ih => exact ih fun name hmem => hnames name (List.mem_of_mem_drop hmem)

/-! ### Where a path leads -/

theorem Deepest.unique {m' : Nat} (h : table.Deepest path m) (h' : table.Deepest path m') :
    m = m' := by
  rcases h.longest m' h'.mem h'.covers with hlt | ⟨heq, hle⟩
  · rcases h'.longest m h.mem h.covers with hlt' | ⟨heq', -⟩ <;> omega
  · rcases h'.longest m h.mem h.covers with hlt' | ⟨-, hle'⟩ <;> omega

theorem Leads.unique {dest' : Path} (h : table.Leads path dest) (h' : table.Leads path dest') :
    dest = dest' := by
  induction h with
  | done hnone =>
      cases h' with
      | done => rfl
      | level hdeep => exact absurd hdeep.covers (hnone _ hdeep.mem)
  | level hdeep _ ih =>
      cases h' with
      | done hnone => exact absurd hdeep.covers (hnone _ hdeep.mem)
      | level hdeep' hleads' =>
          obtain rfl := hdeep.unique hdeep'
          exact ih hleads'

/-- Below a mount a path is relative. -/
theorem Leads.relative (h : table.Leads path dest) : dest = path ∨ dest.absolute = false := by
  induction h with
  | done => exact .inl rfl
  | level _ _ ih =>
      rcases ih with rfl | hrel
      · exact .inr rfl
      · exact .inr hrel

/-- No mount covers a path into the latest one. -/
theorem not_covers_latest (hwf : table.WellFormed) (hlatest : ∀ m' ∈ table.entries, m' ≤ m)
    (hpath : path.mnt = some m) : ∀ m' ∈ table.entries, ¬ table.Covers m' path := by
  intro m' hmem hcovers
  have hlt := hwf.earlier m' m (hcovers.1.trans hpath)
  have := hlatest m' hmem
  omega

/-- The path of the latest mount leads to that mount. -/
theorem leads_latest (hwf : table.WellFormed) (hmem : m ∈ table.entries)
    (hlatest : ∀ m' ∈ table.entries, m' ≤ m) :
    table.Leads (table.path m) { absolute := false, mnt := some m, components := [] } := by
  have hdeep : table.Deepest (table.path m) m := by
    refine ⟨hmem, ⟨rfl, rfl, List.prefix_rfl⟩, fun m' hmem' hcovers => ?_⟩
    rcases Nat.lt_or_ge (table.path m').components.length (table.path m).components.length
      with hlt | hge
    · exact .inl hlt
    · exact .inr ⟨Nat.le_antisymm hcovers.2.2.length_le hge, hlatest m' hmem'⟩
  have htruncate : table.truncate (table.path m) m =
      { absolute := false, mnt := some m, components := [] } := by
    simp only [truncate, List.drop_length]
  refine .level hdeep (htruncate ▸ .done ?_)
  exact not_covers_latest hwf hlatest rfl

/-- By induction on the levels: a path comes to the root of the latest mount by way of the
path of that mount, and goes upwards until then. -/
theorem leads_latest_of (hwf : table.WellFormed) (hlatest : ∀ m' ∈ table.entries, m' ≤ m)
    (h : table.Leads path dest)
    (hdest : dest = { absolute := false, mnt := some m, components := [] })
    (hpath : path.mnt ≠ some m) :
    path = table.path m ∨ ∃ m', (table.path m).mnt = some m' ∧ ∀ p, path.mnt = some p → p < m' := by
  induction h with
  | done =>
      subst hdest
      exact absurd rfl hpath
  | @level path dest m' hdeep hleads ih =>
      have hupwards : ∀ p, path.mnt = some p → p < m' := fun p hp =>
        hwf.earlier m' p (hdeep.covers.1.trans hp)
      by_cases hm : m' = m
      · subst hm
        -- The rest of the path stays as it is, so there is none.
        have hrest := hleads.unique (.done (not_covers_latest hwf hlatest rfl))
        have hnil : path.components.drop (table.path m').components.length = [] :=
          congrArg Path.components (hrest.symm.trans hdest)
        have hall := hdeep.covers.components_eq
        rw [hnil, List.append_nil] at hall
        exact .inl (Vfs.Path.ext hdeep.covers.2.1.symm hdeep.covers.1.symm hall.symm)
      · have hne : (table.truncate path m').mnt ≠ some m := fun heq => hm (Option.some.inj heq)
        rcases ih hdest hne with heq | ⟨m'', hmnt, hlt⟩
        · exact .inr ⟨m', congrArg Path.mnt heq.symm, hupwards⟩
        · exact .inr ⟨m'', hmnt, fun p hp => Nat.lt_trans (hupwards p hp) (hlt m' rfl)⟩

/-- A path that starts where that of the latest mount does leads to the root of the mount
if and only if it is the same path. -/
theorem leads_latest_iff (hwf : table.WellFormed) (hmem : m ∈ table.entries)
    (hlatest : ∀ m' ∈ table.entries, m' ≤ m) (hmnt : path.mnt = (table.path m).mnt) :
    table.Leads path { absolute := false, mnt := some m, components := [] } ↔
      path = table.path m := by
  constructor
  · intro h
    have hpath : path.mnt ≠ some m := fun heq =>
      Nat.lt_irrefl m (hwf.earlier m m (hmnt.symm.trans heq))
    rcases leads_latest_of hwf hlatest h rfl hpath with heq | ⟨m', hm', hlt⟩
    · exact heq
    · exact absurd (hlt m' (hmnt.trans hm')) (Nat.lt_irrefl m')
  · rintro rfl
    exact leads_latest hwf hmem hlatest

end Loops

/-- **Resolving mounts and going back.**  In a well-formed table `path_checkmnt` of an
absolute path ends.  Level by level it follows the longest mount that covers what is left,
the latest of several, until none does; and `path_resolvemnt` takes the result back to the
path. -/
theorem checkmnt_resolvemnt
    (table : MountTable)
    (path : Path)
    (hwf : table.WellFormed)
    (habs : path.absolute = true)
    (hmnt : path.mnt = none)
    (hnormal : path.Normal) :
    ∃ dest bound, (∀ rounds, bound ≤ rounds → table.checkmnt rounds path = some dest) ∧
      table.Leads path dest ∧
      ∀ rounds, bound ≤ rounds → table.resolvemnt rounds dest = some path := by
  have hnames : ∀ name ∈ path.components, Path.IsName name := by
    obtain ⟨lead, names, heq, hnames, rfl | ⟨-, hrel, -⟩⟩ := hnormal.parts
    · rw [heq]
      exact hnames
    · rw [habs] at hrel
      cases hrel
  obtain ⟨dest, hdest, hleads⟩ := checkmntLoop_leads hwf _ path (Nat.lt_succ_self _)
  obtain ⟨levels, hlevels⟩ := hleads.resolvemntLoop hwf hnames
  have hdestNormal : dest.Normal :=
    ⟨⟨[], dest.components, rfl, hleads.names hnames, .inl rfl⟩⟩
  refine ⟨dest, (table.above path).length + 1 + levels + 1, fun rounds hrounds => ?_, hleads,
    fun rounds hrounds => ?_⟩
  · rw [checkmnt, hnormal.clone_eq]
    obtain ⟨dest', hdest', -⟩ := checkmntLoop_leads hwf rounds path (by omega)
    rw [hdest']
    exact checkmntLoop_unique hdest' hdest
  · rw [resolvemnt, hdestNormal.clone_eq]
    obtain ⟨more, rfl⟩ : ∃ more, rounds = more + 1 + levels := ⟨rounds - 1 - levels, by omega⟩
    rw [hlevels, resolvemntLoop]
    simp only [hmnt]

/-- A root, something mounted below it, and another root over both. -/
def covered : MountTable where
  entries := [0, 1, 2]
  path m := if m = 1 then { absolute := false, mnt := some 0, components := [['a']] }
    else Path.root

theorem covered_wellFormed : covered.WellFormed where
  sorted := by decide
  earlier m m' h := by
    simp only [covered] at h
    split at h
    next hm =>
      cases h
      omega
    next => cases h
  normal m := by
    simp only [covered]
    split
    next => exact ⟨⟨[], [['a']], rfl, by decide, .inl rfl⟩⟩
    next => exact Path.normal_nil rfl

/-- The path `/a/b`. -/
def pathAB : Path where
  absolute := true
  mnt := none
  components := [['a'], ['b']]

theorem checkmnt_resolvemnt_covered :
    ∃ dest bound,
      (∀ rounds, bound ≤ rounds → covered.checkmnt rounds pathAB = some dest) ∧
      covered.Leads pathAB dest ∧
      ∀ rounds, bound ≤ rounds → covered.resolvemnt rounds dest = some pathAB :=
  checkmnt_resolvemnt covered pathAB covered_wellFormed rfl rfl
    ⟨⟨[], [['a'], ['b']], rfl, by decide, .inl rfl⟩⟩

/-- The mount at `/a` covers `/a/b` more deeply than the second root, which is what the
path is resolved to. -/
theorem deeper_mount_passed_over :
    covered.WellFormed ∧ 1 ∈ covered.entries ∧
      covered.resolvemnt 3 (covered.path 1) =
        some { absolute := true, mnt := none, components := [['a']] } ∧
      covered.resolvemnt 3 (covered.path 2) = some Path.root ∧
      covered.checkmnt 3 pathAB =
        some { absolute := false, mnt := some 2, components := [['a'], ['b']] } :=
  ⟨covered_wellFormed, by decide, by decide, by decide, by decide⟩

end MountTable
end Vfs
end JkxyKernel
