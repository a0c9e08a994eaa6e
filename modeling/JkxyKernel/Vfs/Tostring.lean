import JkxyKernel.Lib.BoundedWriter
import JkxyKernel.Vfs.Borrowing
import JkxyKernel.Vfs.Parsing

/-!
# Paths as text

`path_tostring` resolves the mounts of a path and writes the components into the buffer of
its caller, a slash before each, with a NUL at the end.  It stops wherever the buffer is
full: at a slash, within a component, or before the NUL.

The components of a path come from strings that were split at their slashes, so the text
reads as the path again.
-/

namespace JkxyKernel
namespace Vfs

/-! ### What is written -/

namespace Path

/-- The loop of `path_tostring` over the components. -/
def putComponents : List (List Char) → Writer Char → Writer Char
  | [], buf => buf
  | component :: rest, buf =>
      if buf.room = 0 then buf
      else putComponents rest ((buf.put '/').copy component)

/-- The NUL at the end, if there is room for it. -/
def putNul (buf : Writer Char) : Writer Char :=
  if buf.room = 0 then buf else buf.put '\x00'

/-- What `path_tostring` does with the resolved path. -/
def write (path : Path) (nbytes : Nat) : Writer Char :=
  if nbytes = 0 then .start nbytes
  else if path.components = [] then putNul ((Writer.start nbytes).put '/')
  else putNul (putComponents path.components (.start nbytes))

/-- The components, each behind a slash. -/
def slashed (components : List (List Char)) : List Char :=
  components.flatMap ('/' :: ·)

/-- The text of an absolute path. -/
def canonical (path : Path) : List Char :=
  if path.components = [] then ['/'] else slashed path.components

end Path

namespace PathState

/-- `path_tostring`, with what it writes and returns; for a buffer of no bytes the resolved
path is not destroyed. -/
def writePath (s : PathState) (path : Path) (nbytes : Nat) (mem : Alloc) (mems : List Alloc) :
    Except Stop (PathState × Option (Writer Char)) := do
  match ← s.resolvemnt path mem mems with
  | (s, none) => .ok (s, none)
  | (s, some resolved) =>
      if nbytes = 0 then .ok (s, some (resolved.write nbytes))
      else do
        let s ← s.dropMount resolved.mnt
        .ok (s, some (resolved.write nbytes))

end PathState

namespace Path

open Writer

variable {path x y : Path} {n : Nat} {text : List Char} {buf : Writer Char}

theorem putComponents_wrote (h : Wrote n text buf) (components : List (List Char)) :
    Wrote n (text ++ slashed components) (putComponents components buf) := by
  induction components generalizing text buf with
  | nil => simpa [slashed, putComponents] using h
  | cons component rest ih =>
      simp only [putComponents]
      split
      next hfull => exact h.full hfull _
      next hroom =>
        have hstep := ih ((h.put hroom '/').copy component)
        simpa [slashed] using hstep

theorem putNul_wrote (h : Wrote n text buf) : Wrote n (text ++ ['\x00']) (putNul buf) := by
  simp only [putNul]
  split
  next hfull => exact h.full hfull _
  next hroom => exact h.put hroom '\x00'

/-- The buffer gets the front of the text with its NUL. -/
theorem write_wrote (path : Path) (n : Nat) :
    Wrote n (path.canonical ++ ['\x00']) (path.write n) := by
  by_cases hzero : n = 0
  · simp only [write, if_pos hzero]
    exact (wrote_start n).full hzero _
  · by_cases hnil : path.components = []
    · simp only [write, canonical, if_neg hzero, if_pos hnil]
      exact putNul_wrote ((wrote_start n).put hzero '/')
    · simp only [write, canonical, if_neg hzero, if_neg hnil]
      exact putNul_wrote (putComponents_wrote (wrote_start n) path.components)

/-- The text as it was first defined. -/
theorem writeComponents_eq (components : List (List Char)) (n : Nat) :
    writeComponents components n = (slashed components ++ ['\x00']).take n := by
  induction components generalizing n with
  | nil =>
      cases n with
      | zero => rfl
      | succ n => simp [writeComponents, slashed]
  | cons component rest ih =>
      cases n with
      | zero => rfl
      | succ n =>
          simp only [writeComponents, Nat.succ_ne_zero, if_false, Nat.add_sub_cancel, ih]
          have hslashed : slashed (component :: rest) ++ ['\x00'] =
              '/' :: (component ++ (slashed rest ++ ['\x00'])) := by
            simp [slashed]
          have hroom : n - min n component.length = n - component.length := by omega
          rw [hslashed, List.take_succ_cons, List.length_take, hroom, ← List.take_append]

theorem text_eq_written (path : Path) (n : Nat) : path.text n = (path.write n).written := by
  rw [(write_wrote path n).written]
  simp only [text, canonical]
  split
  next => rfl
  next => exact writeComponents_eq path.components n

/-! ### What is read back -/

/-- The components are C strings without slashes. -/
def Spelled (path : Path) : Prop :=
  ∀ component ∈ path.components, '/' ∉ component ∧ '\x00' ∉ component

/-- Between slashes there are the components. -/
theorem splitOn_slashed
    (component : List Char) (rest : List (List Char)) (hcomponent : '/' ∉ component)
    (hrest : ∀ c ∈ rest, '/' ∉ c) :
    (component ++ slashed rest).splitOn '/' = component :: rest := by
  induction rest generalizing component with
  | nil => simpa [slashed] using List.splitOn_eq_singleton hcomponent
  | cons next rest ih =>
      have hslashed : slashed (next :: rest) = '/' :: (next ++ slashed rest) := rfl
      rw [hslashed, List.splitOn_append_cons_self_of_not_mem hcomponent,
        ih next (hrest next List.mem_cons_self)
          fun c hc => hrest c (List.mem_cons_of_mem _ hc)]

/-- The text of an absolute path is parsed to the path. -/
theorem fromstr_canonical
    (habs : path.absolute = true) (hmnt : path.mnt = none) (hnormal : path.Normal)
    (hspelled : path.Spelled) : fromstr path.canonical = some path := by
  obtain ⟨absolute, mnt, components⟩ := path
  obtain rfl : absolute = true := habs
  obtain rfl : mnt = none := hmnt
  have hnames : ∀ name ∈ components, IsName name := by
    obtain ⟨lead, names, heq, hnames, rfl | ⟨-, hrel, -⟩⟩ := hnormal.parts
    · rw [show components = names from heq]
      exact hnames
    · cases hrel
  cases components with
  | nil => rfl
  | cons first rest =>
      have hcanonical : canonical ⟨true, none, first :: rest⟩ = '/' :: (first ++ slashed rest) :=
        rfl
      rw [hcanonical]
      simp only [fromstr]
      rw [splitOn_slashed first rest (hspelled first List.mem_cons_self).1
        fun c hc => (hspelled c (List.mem_cons_of_mem _ hc)).1]
      exact congrArg some (extend_names hnames)

/-- The text is a C string. -/
theorem nul_not_mem_canonical (hspelled : path.Spelled) : '\x00' ∉ path.canonical := by
  simp only [canonical]
  split
  next => decide
  next =>
    intro hmem
    obtain ⟨component, hcomponent, hmem⟩ := List.mem_flatMap.mp hmem
    rcases List.mem_cons.mp hmem with heq | hmem
    · exact absurd heq (by decide)
    · exact (hspelled component hcomponent).2 hmem

/-! ### Where the resolved path comes from -/

theorem Spelled.extendMem
    (h : path.Spelled) (components : List (List Char)) (mem : List Mem)
    (hcomponents : ∀ c ∈ components, '/' ∉ c ∧ '\x00' ∉ c) :
    (path.extendMem components mem).1.Spelled := by
  induction components generalizing path mem with
  | nil => exact h
  | cons component rest ih =>
      have hrest : ∀ c ∈ rest, '/' ∉ c ∧ '\x00' ∉ c :=
        fun c hc => hcomponents c (List.mem_cons_of_mem _ hc)
      simp only [Path.extendMem]
      split
      next => exact h
      next => exact ih h mem.tail hrest
      next =>
        refine ih (fun c hc => ?_) mem.tail hrest
        rcases mem_components_addComponent hc with hc | rfl
        · exact h c hc
        · exact hcomponents c List.mem_cons_self

/-- A piece of a split string has characters of the string, and no slash. -/
theorem mem_piece {pathstr piece : List Char} {c : Char}
    (hpiece : piece ∈ pathstr.splitOn '/') (hc : c ∈ piece) : c ∈ pathstr ∧ c ≠ '/' := by
  induction pathstr generalizing piece with
  | nil =>
      rw [List.splitOn_nil, List.mem_singleton] at hpiece
      subst hpiece
      cases hc
  | cons first rest ih =>
      rw [List.splitOn_cons_eq_if_modifyHead] at hpiece
      split at hpiece
      next =>
        rcases List.mem_cons.mp hpiece with rfl | hpiece
        · cases hc
        · exact ⟨List.mem_cons_of_mem _ (ih hpiece hc).1, (ih hpiece hc).2⟩
      next hfirst =>
        cases hsplit : rest.splitOn '/' with
        | nil => exact absurd hsplit (List.splitOn_ne_nil _ _)
        | cons head tail =>
            rw [hsplit, List.modifyHead_cons] at hpiece
            rcases List.mem_cons.mp hpiece with rfl | hpiece
            · rcases List.mem_cons.mp hc with rfl | hc
              · exact ⟨List.mem_cons_self, fun heq => hfirst (beq_iff_eq.mpr heq)⟩
              · have hhead := ih (hsplit ▸ List.mem_cons_self) hc
                exact ⟨List.mem_cons_of_mem _ hhead.1, hhead.2⟩
            · have htail := ih (hsplit ▸ List.mem_cons_of_mem _ hpiece) hc
              exact ⟨List.mem_cons_of_mem _ htail.1, htail.2⟩

/-- `path_fromstr` of a C string makes components that are C strings without slashes. -/
theorem spelled_fromstrMem
    {pathstr : List Char} {mem : Alloc} (hpathstr : '\x00' ∉ pathstr)
    (h : fromstrMem pathstr mem = .ok path) : path.Spelled := by
  have hstart : (start pathstr).Spelled := by
    intro c hc
    rw [start_components] at hc
    cases hc
  have hspelled := hstart.extendMem (pathstr.splitOn '/') mem.components fun c hc =>
    ⟨fun hmem => (mem_piece hc hmem).2 rfl, fun hmem => hpathstr (mem_piece hc hmem).1⟩
  simp only [fromstrMem] at h
  split at h
  next => cases h
  next =>
    split at h
    next => cases h
    next =>
      split at h
      next heq =>
        cases h
        rw [heq] at hspelled
        exact hspelled
      next => cases h

/-- A path that is made new is built from the components of the two. -/
theorem built_joinNewMem
    {mem : Alloc} (hx : x.Spelled) (hy : y.Spelled) (h : x.joinNewMem y mem = some path) :
    path.Normal ∧ path.Spelled := by
  have hspelled : Spelled { x with components := [] } := by
    intro c hc
    cases hc
  have hnormal : Normal { x with components := [] } := normal_nil rfl
  replace hspelled := hspelled.extendMem (x.components ++ y.components) mem.components
    fun c hc => (List.mem_append.mp hc).elim (hx c) (hy c)
  replace hnormal := normal_extendMem hnormal (x.components ++ y.components) mem.components
  simp only [joinNewMem] at h
  split at h
  next => cases h
  next =>
    split at h
    next heq =>
      cases h
      rw [heq] at hspelled hnormal
      exact ⟨hnormal, hspelled⟩
    next => cases h

theorem built_cloneMem
    {mem : Alloc} (hx : x.Spelled) (h : x.cloneMem mem = some path) :
    path.Normal ∧ path.Spelled := by
  simp only [cloneMem] at h
  split at h
  next => cases h
  next =>
    have hempty : empty.Spelled := by
      intro c hc
      cases hc
    exact built_joinNewMem hx hempty h

theorem built_joinMem
    {mem : Alloc} (hx : x.Spelled) (hy : y.Spelled) (h : x.joinMem y mem = some path) :
    path.Normal ∧ path.Spelled := by
  simp only [joinMem] at h
  split at h
  next => cases h
  next =>
    split at h
    next => exact built_cloneMem hy h
    next => exact built_joinNewMem hx hy h

end Path

namespace PathState

variable {s s' : PathState} {x y path resolved : Path} {mem : Alloc} {r : Option Path}

theorem takeMount_table {mnt : Option Nat} (h : s.takeMount mnt = .ok s') :
    s'.table = s.table := by
  cases mnt with
  | none =>
      cases h
      rfl
  | some m =>
      simp only [takeMount] at h
      split at h
      next => cases h
      next =>
        cases h
        rfl

theorem putMount_table (rounds : Nat) {m : Nat} (h : putMount rounds s m = .ok s') :
    s'.table = s.table := by
  induction rounds generalizing s s' m with
  | zero => cases h
  | succ rounds ih =>
      simp only [putMount] at h
      split at h
      next => cases h
      next =>
        split at h
        next =>
          cases h
          rfl
        next =>
          split at h
          next =>
            cases h
            rfl
          next =>
            split at h
            next s'' hput =>
              cases h
              exact (ih hput :)
            next => cases h

theorem dropMount_table {mnt : Option Nat} (h : s.dropMount mnt = .ok s') :
    s'.table = s.table := by
  cases mnt with
  | none =>
      cases h
      rfl
  | some m => exact putMount_table (m + 1) h

/-- The path that is made depends on the memory only. -/
theorem joinNew_result (h : s.joinNew x y mem = .ok (s', r)) :
    r = x.joinNewMem y mem ∧ s'.table = s.table := by
  simp only [joinNew, Path.joinNewMem] at h ⊢
  split at h
  next hmem =>
    cases h
    exact ⟨(if_pos hmem).symm, rfl⟩
  next hmem =>
    rw [if_neg hmem]
    cases htake : s.takeMount x.mnt with
    | error e =>
        rw [htake] at h
        cases h
    | ok s₁ =>
        simp only [htake, bind, Except.bind] at h
        split at h
        next path hext =>
          cases h
          exact ⟨by simp only [hext], takeMount_table htake⟩
        next path hext =>
          cases hdrop : s₁.dropMount path.mnt with
          | error e =>
              rw [hdrop] at h
              cases h
          | ok s₂ =>
              rw [hdrop] at h
              cases h
              exact ⟨by simp only [hext], (dropMount_table hdrop).trans (takeMount_table htake)⟩

theorem clone_result (h : s.clone x mem = .ok (s', r)) :
    r = x.cloneMem mem ∧ s'.table = s.table := by
  simp only [clone, Path.cloneMem] at h ⊢
  split at h
  next hmem =>
    cases h
    exact ⟨(if_pos hmem).symm, rfl⟩
  next hmem =>
    rw [if_neg hmem]
    exact joinNew_result h

theorem join_result (h : s.join x y mem = .ok (s', r)) :
    r = x.joinMem y mem ∧ s'.table = s.table := by
  simp only [join, Path.joinMem] at h ⊢
  split at h
  next hmnt =>
    cases h
    exact ⟨(if_pos hmnt).symm, rfl⟩
  next hmnt =>
    rw [if_neg hmnt]
    split at h
    next habs =>
      rw [if_pos habs]
      exact clone_result h
    next habs =>
      rw [if_neg habs]
      exact joinNew_result h

/-- By induction on the rounds: every path on the way back is built from components. -/
theorem resolvemntLoop_built
    (rounds : Nat) {mems : List Alloc} (hmounts : ∀ m, (s.table.path m).Spelled)
    (hnormal : path.Normal) (hspelled : path.Spelled)
    (h : s.resolvemntLoop rounds path mems = .ok (s', some resolved)) :
    resolved.Normal ∧ resolved.Spelled ∧ resolved.mnt = none := by
  induction rounds generalizing s path mems with
  | zero => cases h
  | succ rounds ih =>
      simp only [resolvemntLoop] at h
      split at h
      next hmnt =>
        cases h
        exact ⟨hnormal, hspelled, hmnt⟩
      next m hmnt =>
        split at h
        next => cases h
        next =>
          cases hjoin : s.join (s.table.path m) { path with mnt := none }
            (mems.headD ⟨true, true, []⟩) with
          | error e =>
              rw [hjoin] at h
              cases h
          | ok result =>
              obtain ⟨s₁, r⟩ := result
              simp only [hjoin, bind, Except.bind] at h
              obtain ⟨hr, htable⟩ := join_result hjoin
              cases r with
              | none => cases h
              | some newpath =>
                  have hrest : Path.Spelled { path with mnt := none } := hspelled
                  obtain ⟨hnormal', hspelled'⟩ :=
                    Path.built_joinMem (hmounts m) hrest hr.symm
                  exact ih (by rw [htable]; exact hmounts) hnormal' hspelled' h

theorem resolvemnt_built
    {old : Path} {mems : List Alloc} (hmounts : ∀ m, (s.table.path m).Spelled)
    (hold : old.Spelled) (h : s.resolvemnt old mem mems = .ok (s', some resolved)) :
    resolved.Normal ∧ resolved.Spelled ∧ resolved.mnt = none := by
  simp only [resolvemnt] at h
  cases hclone : s.clone old mem with
  | error e =>
      rw [hclone] at h
      cases h
  | ok result =>
      obtain ⟨s₁, r⟩ := result
      simp only [hclone, bind, Except.bind] at h
      obtain ⟨hr, htable⟩ := clone_result hclone
      cases r with
      | none => cases h
      | some path =>
          obtain ⟨hnormal, hspelled⟩ := Path.built_cloneMem hold hr.symm
          exact resolvemntLoop_built _ (by rw [htable]; exact hmounts) hnormal hspelled h

/-- The text is the one that `tostring` writes. -/
theorem writePath_text (s : PathState) (path : Path) (nbytes : Nat) (mem : Alloc)
    (mems : List Alloc) :
    (s.writePath path nbytes mem mems).map
        (fun result => (result.1, (result.2.map Writer.written).getD [])) =
      s.tostring path nbytes mem mems := by
  simp only [writePath, tostring]
  rcases s.resolvemnt path mem mems with e | ⟨s₁, _ | resolved⟩
  · rfl
  · rfl
  · simp only [bind, Except.bind]
    split
    next hzero =>
      simp only [Path.write, if_pos hzero]
      rfl
    next =>
      rw [Path.text_eq_written]
      cases s₁.dropMount resolved.mnt <;> rfl

end PathState

/-- **Paths as text.**  When the path resolves to an absolute one, `path_tostring` writes no
more than the buffer holds, and returns what it has written: the front of the components,
each behind a slash, or of a single slash, with a NUL at the end.  If the text fits, it is
parsed to the resolved path. -/
theorem path_tostring_roundtrip
    {s s₁ : PathState} {old resolved : Path} {mem : Alloc} {mems : List Alloc}
    (hmounts : ∀ m, (s.table.path m).Spelled) (hold : old.Spelled)
    (hresolved : s.resolvemnt old mem mems = .ok (s₁, some resolved))
    (habs : resolved.absolute = true) (n : Nat) :
    ∃ buf, s.writePath old n mem mems = .ok (s₁, some buf) ∧
      buf.written.length ≤ n ∧
      buf.count = min n (resolved.canonical.length + 1) ∧
      buf.written = (resolved.canonical ++ ['\x00']).take buf.count ∧
      (resolved.canonical.length < n →
        Path.fromstr (buf.written.takeWhile (· ≠ '\x00')) = some resolved) := by
  obtain ⟨hnormal, hspelled, hmnt⟩ := PathState.resolvemnt_built hmounts hold hresolved
  have hwrote := Path.write_wrote resolved n
  have hcount : (resolved.write n).count = min n (resolved.canonical.length + 1) := by
    rw [hwrote.count, List.length_append, List.length_singleton]
  refine ⟨resolved.write n, ?_, ?_, hcount, ?_, fun hfits => ?_⟩
  · simp only [PathState.writePath, hresolved, bind, Except.bind]
    split
    next => rfl
    next =>
      rw [hmnt]
      rfl
  · rw [hwrote.written, List.length_take]
    exact Nat.min_le_left _ _
  · rw [hwrote.written, hcount, List.take_eq_take_iff, List.length_append,
      List.length_singleton]
    omega
  · have hall : (resolved.write n).written = resolved.canonical ++ ['\x00'] := by
      rw [hwrote.written]
      refine List.take_of_length_le ?_
      rw [List.length_append, List.length_singleton]
      exact hfits
    have hstop : ∀ c ∈ resolved.canonical, decide (c ≠ '\x00') = true := by
      intro c hc
      refine decide_eq_true fun heq => Path.nul_not_mem_canonical hspelled ?_
      rw [← heq]
      exact hc
    rw [hall, List.takeWhile_append_of_pos hstop]
    simpa using Path.fromstr_canonical habs hmnt hnormal hspelled

/-- The working directory `/a` below the mount at the root, written into four bytes. -/
theorem path_tostring_roundtrip_rootMounted :
    (∀ m, (rootMounted.table.path m).Spelled) ∧
      ∃ buf, rootMounted.writePath ⟨false, some 0, [['a']]⟩ 4 plenty [] =
          .ok (rootMounted.setCount 0 2, some buf) ∧
        buf.written = ['/', 'a', '\x00'] ∧ buf.count = 3 := by
  have hmounts : ∀ m, (rootMounted.table.path m).Spelled := by
    intro m c hc
    cases hc
  have hold : Path.Spelled ⟨false, some 0, [['a']]⟩ := by
    intro c hc
    rw [List.mem_singleton.mp hc]
    decide
  have hresolved : rootMounted.resolvemnt ⟨false, some 0, [['a']]⟩ plenty [] =
      .ok (rootMounted.setCount 0 2, some ⟨true, none, [['a']]⟩) := rfl
  obtain ⟨buf, hwrite, -, hcount, hwritten, -⟩ :=
    path_tostring_roundtrip hmounts hold hresolved rfl 4
  refine ⟨hmounts, buf, hwrite, ?_, hcount⟩
  rw [hwritten, hcount]
  rfl

end Vfs
end JkxyKernel
