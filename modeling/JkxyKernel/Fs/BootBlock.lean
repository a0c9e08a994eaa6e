import JkxyKernel.Fs.Images

/-!
# The cached boot block

ece391fs keeps a copy of its boot block, and looks names up in it, lists it, and sets up
inodes from it.  The number of dentries comes from the image, and so do the names, whose end
`strlen` looks for as far as it takes.  Here a read behind the copy is a fault.

Only the first 63 dentries lie in the copy, and a name that is listed needs a zero behind
it, in its own field or in what follows.
-/

namespace JkxyKernel
namespace Fs

/-- The copy of the boot block. -/
structure BootBlock where
  bytes : List Char
  length_bytes : bytes.length = 4096

/-- What goes wrong with the copy. -/
inductive BootFault
  /-- A byte is read that is not in it. -/
  | outOfBounds
  | hang
  deriving DecidableEq, Repr

/-! ### Strings and fields -/

/-- `strlen` of the string at the start of what is left of the copy. -/
def strlen : List Char → Except BootFault Nat
  | [] => .error .outOfBounds
  | c :: rest =>
      if c = nul then .ok 0
      else do
        let len ← strlen rest
        .ok (len + 1)

/-- `!strncmp`, of the string at the start of what is left of the copy. -/
def strncmpEq : List Char → List Char → Nat → Except BootFault Bool
  | _, _, 0 => .ok true
  | [], _, _ + 1 => .error .outOfBounds
  | c :: rest, str, n + 1 =>
      if c ≠ str.headD nul then .ok false
      else if c = nul then .ok true
      else strncmpEq rest str.tail n

/-- So many bytes at the start of what is left of the copy. -/
def fetch (mem : List Char) (n : Nat) : Except BootFault (List Char) :=
  if n ≤ mem.length then .ok (mem.take n) else .error .outOfBounds

theorem strlen_eq_ok {mem : List Char} (h : nul ∈ mem) :
    strlen mem = .ok (cstring mem).length := by
  induction mem with
  | nil => cases h
  | cons c rest ih =>
      by_cases hc : c = nul
      · simp [strlen, cstring, hc]
      · have hrest : nul ∈ rest := (List.mem_cons.mp h).resolve_left (Ne.symm hc)
        simp only [strlen, if_neg hc, ih hrest, bind, Except.bind]
        simp [cstring, hc]

theorem strlen_eq_error {mem : List Char} (h : nul ∉ mem) :
    strlen mem = .error .outOfBounds := by
  induction mem with
  | nil => rfl
  | cons c rest ih =>
      have hc : c ≠ nul := fun heq => h (heq ▸ List.mem_cons_self)
      simp only [strlen, if_neg hc, ih fun hmem => h (List.mem_cons_of_mem _ hmem), bind,
        Except.bind]

theorem cstring_cons (c : Char) (rest : List Char) :
    cstring (c :: rest) = if c = nul then [] else c :: cstring rest := by
  by_cases hc : c = nul
  · simp [cstring, hc]
  · simp [cstring, hc]

/-- The comparison is that of the strings, cut off at so many characters. -/
theorem strncmpEq_eq {mem str : List Char} {n : Nat} (h : n ≤ mem.length) :
    strncmpEq mem str n = .ok (decide (cstring (mem.take n) = cstring (str.take n))) := by
  induction n generalizing mem str with
  | zero => simp [strncmpEq]
  | succ n ih =>
      cases mem with
      | nil => exact absurd h (Nat.not_succ_le_zero n)
      | cons c rest =>
          have hrest : n ≤ rest.length := Nat.le_of_succ_le_succ h
          -- A string that is at its end has a zero there.
          have hhead : cstring (str.take (n + 1)) =
              if str.headD nul = nul then []
              else str.headD nul :: cstring (str.tail.take n) := by
            cases str with
            | nil => simp [cstring]
            | cons d more => exact cstring_cons d _
          rw [List.take_succ_cons, cstring_cons, hhead]
          simp only [strncmpEq]
          by_cases heq : c = str.headD nul
          · rw [if_neg (not_not.mpr heq), ← heq]
            by_cases hc : c = nul
            · simp only [if_pos hc, decide_true]
            · simp only [if_neg hc, ih hrest, List.cons.injEq, true_and]
          · rw [if_pos heq]
            refine congrArg Except.ok (decide_eq_false ?_).symm
            split <;> split <;> simp_all

theorem fetch_eq_ok {mem : List Char} {n : Nat} (h : n ≤ mem.length) :
    fetch mem n = .ok (mem.take n) :=
  if_pos h

/-! ### What the file system does with the copy -/

namespace BootBlock

variable (block : BootBlock)

/-- `num_dentry` -/
def numDentry : Nat := le32 block.bytes

/-- The copy from `dentries[index]` on. -/
def dentry (index : Nat) : List Char := block.bytes.drop ((64 + 64 * index) % 2 ^ 32)

/-- The loop of `ece391fs_read_dentry_by_name`, for the dentries that are left. -/
def readDentryByNameLoop (fname : List Char) :
    Nat → Nat → Except BootFault (Except Int Nat)
  | 0, _ => .ok (.error (-ENOENT))
  | left + 1, i =>
      if 32 < (cstring fname).length then .ok (.error (-ENOENT))
      else do
        if ← strncmpEq (block.dentry i) fname 32 then .ok (.ok i)
        else readDentryByNameLoop fname left (i + 1)

/-- `ece391fs_read_dentry_by_name`: the index of the dentry. -/
def readDentryByName (fname : List Char) : Except BootFault (Except Int Nat) :=
  block.readDentryByNameLoop fname block.numDentry 0

/-- What `ece391fs_read_inode` reads of a dentry: the inode number and the type. -/
def readInode (index : Nat) : Except BootFault (Nat × Nat) := do
  let inodeNum ← fetch ((block.dentry index).drop 36) 4
  let type ← fetch ((block.dentry index).drop 32) 4
  .ok (le32 inodeNum, le32 type)

/-- `ece391fs_ino_lookup` -/
def inoLookup (fname : List Char) : Except BootFault (Except Int (Nat × Nat)) := do
  match ← block.readDentryByName fname with
  | .error e => .ok (.error e)
  | .ok index => do
      let inode ← block.readInode index
      .ok (.ok inode)

/-- The inode of the root directory is that of the first dentry. -/
def readRoot : Except BootFault (Nat × Nat) := block.readInode 0

/-- One entry of `ece391fs_readdir`. -/
def readEntry (pos : Nat) : Except BootFault DirEntry := do
  let len ← strlen (block.dentry pos)
  let name ← fetch (block.dentry pos) (if 32 < len % 256 then 32 else len % 256)
  let (inodeNum, type) ← block.readInode pos
  .ok { name := name, offset := pos, ino := inodeNum, type := dentryType type }

/-- The loop of `ece391fs_readdir`, for a number of rounds. -/
def readdirLoop {σ : Type} (filldir : Filldir σ) :
    Nat → σ → Nat → Nat → Except BootFault (σ × Nat × Int)
  | 0, _, _, _ => .error .hang
  | rounds + 1, data, pos, i =>
      if block.numDentry ≤ pos then .ok (data, pos, i)
      else do
        let entry ← block.readEntry pos
        let (data, res) := filldir data entry
        if res < 0 then .ok (data, pos, i)
        else if res ≠ 0 then .ok (data, pos + 1, (i + 1 : Nat))
        else readdirLoop filldir rounds data (pos + 1) (i + 1)

/-- `ece391fs_readdir` -/
def readdir {σ : Type} (filldir : Filldir σ) (data : σ) (pos : Nat) :
    Except BootFault (σ × Nat × Int) :=
  block.readdirLoop filldir (block.numDentry + 1) data pos 0

/-! ### Bounds -/

/-- No lookup, no listing from any position, and not the set-up of the root inode reads
behind the copy. -/
def InBounds : Prop :=
  (∀ fname, block.inoLookup fname ≠ .error .outOfBounds) ∧
    (∀ (σ : Type) (filldir : Filldir σ) (data : σ) (pos : Nat),
      block.readdir filldir data pos ≠ .error .outOfBounds) ∧
    block.readRoot ≠ .error .outOfBounds

variable {block} {i : Nat}

/-- The dentries that lie in the copy. -/
theorem dentry_eq (h : i < 63) : block.dentry i = block.bytes.drop (64 + 64 * i) := by
  rw [dentry, Nat.mod_eq_of_lt (by omega)]

theorem length_dentry (h : i < 63) : 64 ≤ (block.dentry i).length := by
  rw [dentry_eq h, List.length_drop, block.length_bytes]
  omega

/-- The dentry behind the last one begins at the end of the copy. -/
theorem dentry_end : block.dentry 63 = [] :=
  List.drop_of_length_le (Nat.le_of_eq block.length_bytes)

theorem readInode_eq (h : i < 63) :
    block.readInode i =
      .ok (le32 (((block.dentry i).drop 36).take 4), le32 (((block.dentry i).drop 32).take 4)) := by
  have hlength : 64 ≤ (block.dentry i).length := length_dentry h
  have hnum : 4 ≤ ((block.dentry i).drop 36).length := by
    rw [List.length_drop]
    omega
  have htype : 4 ≤ ((block.dentry i).drop 32).length := by
    rw [List.length_drop]
    omega
  simp only [readInode, fetch_eq_ok hnum, fetch_eq_ok htype, bind, Except.bind]

/-- A lookup compares names up to the first dentry that has the name. -/
theorem readDentryByNameLoop_eq
    {fname : List Char} (hfname : (cstring fname).length ≤ 32) (left i : Nat)
    (h : i + left ≤ 63) :
    block.readDentryByNameLoop fname left i =
      .ok (match (List.range' i left).find? fun j =>
          decide (cstring ((block.dentry j).take 32) = cstring (fname.take 32)) with
        | some j => .ok j
        | none => .error (-ENOENT)) := by
  induction left generalizing i with
  | zero => rfl
  | succ left ih =>
      have hlength : 64 ≤ (block.dentry i).length := length_dentry (by omega)
      simp only [readDentryByNameLoop, if_neg (Nat.not_lt.mpr hfname),
        strncmpEq_eq (show 32 ≤ (block.dentry i).length by omega), bind, Except.bind,
        List.range'_succ, List.find?_cons]
      by_cases heq : cstring ((block.dentry i).take 32) = cstring (fname.take 32)
      · simp only [heq, decide_true, if_true]
      · simp only [heq, decide_false, Bool.false_eq_true, if_false]
        exact ih (i + 1) (by omega)

/-- With 63 dentries or fewer, a lookup comes to a dentry or to an error. -/
theorem readDentryByName_spec (h : block.numDentry ≤ 63) (fname : List Char) :
    ∃ result, block.readDentryByName fname = .ok result ∧
      ∀ index, result = .ok index → index < block.numDentry := by
  by_cases hfname : (cstring fname).length ≤ 32
  · refine ⟨_, readDentryByNameLoop_eq hfname block.numDentry 0 (by omega), ?_⟩
    intro index hindex
    split at hindex
    next j hj =>
      cases hindex
      have hmem := List.mem_of_find?_eq_some hj
      rw [List.mem_range'_1] at hmem
      omega
    next => cases hindex
  · refine ⟨.error (-ENOENT), ?_, nofun⟩
    simp only [readDentryByName]
    cases block.numDentry with
    | zero => rfl
    | succ left => exact if_pos (Nat.not_le.mp hfname)

theorem inoLookup_inBounds (h : block.numDentry ≤ 63) (fname : List Char) :
    block.inoLookup fname ≠ .error .outOfBounds := by
  obtain ⟨result, hresult, hindex⟩ := readDentryByName_spec h fname
  simp only [inoLookup, hresult, bind, Except.bind]
  cases result with
  | error e => exact nofun
  | ok index =>
      simp only [readInode_eq (Nat.lt_of_lt_of_le (hindex index rfl) h)]
      exact nofun

/-- An entry is read if a zero ends its name within the copy. -/
theorem readEntry_eq (h : i < 63) (hnul : nul ∈ block.dentry i) :
    block.readEntry i = .ok
      { name := (block.dentry i).take (dentryNameLength (block.dentry i))
        offset := i
        ino := le32 (((block.dentry i).drop 36).take 4)
        type := dentryType (le32 (((block.dentry i).drop 32).take 4)) } := by
  have hlength : 64 ≤ (block.dentry i).length := length_dentry h
  have hname : dentryNameLength (block.dentry i) ≤ (block.dentry i).length := by
    simp only [dentryNameLength]
    split <;> omega
  have hfetch := fetch_eq_ok hname
  simp only [dentryNameLength] at hfetch
  simp only [readEntry, strlen_eq_ok hnul, hfetch, readInode_eq h, bind, Except.bind,
    dentryNameLength]

/-- By induction on the rounds: every entry that is read ends in the copy. -/
theorem readdirLoop_inBounds
    {σ : Type} (filldir : Filldir σ) (h : block.numDentry ≤ 63)
    (hnul : ∀ j < block.numDentry, nul ∈ block.dentry j) (rounds : Nat) (data : σ)
    (pos i : Nat) : block.readdirLoop filldir rounds data pos i ≠ .error .outOfBounds := by
  induction rounds generalizing data pos i with
  | zero => exact nofun
  | succ rounds ih =>
      simp only [readdirLoop]
      split
      next => exact nofun
      next hlt =>
        rw [readEntry_eq (by omega) (hnul pos (by omega))]
        simp only [bind, Except.bind]
        split
        next => exact nofun
        next =>
          split
          next => exact nofun
          next => exact ih _ _ _

/-- A listing that asks for one entry. -/
theorem readdir_one_error
    {pos : Nat} (hlt : pos < block.numDentry) (hnul : nul ∉ block.dentry pos) :
    block.readdir (fun (data : Unit) _ => (data, -1)) () pos = .error .outOfBounds := by
  simp only [readdir, readdirLoop, if_neg (Nat.not_le.mpr hlt), readEntry,
    strlen_eq_error hnul, bind, Except.bind]

end BootBlock

/-- **Malformed boot blocks.**  Lookups, listings and the set-up of the root inode stay in
the copy of the boot block, if and only if there are no more dentries than lie in it, and a
zero stands behind the start of the last. -/
theorem boot_block_inBounds_iff (block : BootBlock) :
    block.InBounds ↔
      block.numDentry ≤ 63 ∧
        (block.numDentry = 0 ∨ nul ∈ block.bytes.drop (64 * block.numDentry)) := by
  constructor
  · rintro ⟨-, hreaddir, -⟩
    have hnul : ∀ pos < block.numDentry, nul ∈ block.dentry pos := by
      intro pos hpos
      by_contra hno
      exact hreaddir Unit _ () pos (BootBlock.readdir_one_error hpos hno)
    have hfew : block.numDentry ≤ 63 := by
      by_contra hmany
      have hlast := hnul 63 (by omega)
      rw [BootBlock.dentry_end] at hlast
      cases hlast
    refine ⟨hfew, ?_⟩
    rcases Nat.eq_zero_or_pos block.numDentry with hzero | hpos
    · exact .inl hzero
    · have hlast := hnul (block.numDentry - 1) (by omega)
      rw [BootBlock.dentry_eq (by omega)] at hlast
      have heq : 64 + 64 * (block.numDentry - 1) = 64 * block.numDentry := by omega
      exact .inr (heq ▸ hlast)
  · rintro ⟨hfew, hlast⟩
    have hnul : ∀ j < block.numDentry, nul ∈ block.dentry j := by
      intro j hj
      rcases hlast with hzero | hmem
      · omega
      · rw [BootBlock.dentry_eq (by omega)]
        have heq : 64 * block.numDentry =
            64 + 64 * j + 64 * (block.numDentry - 1 - j) := by omega
        rw [heq, ← List.drop_drop] at hmem
        exact List.mem_of_mem_drop hmem
    refine ⟨BootBlock.inoLookup_inBounds hfew, fun σ filldir data pos => ?_, ?_⟩
    · exact BootBlock.readdirLoop_inBounds filldir hfew hnul _ data pos 0
    · rw [BootBlock.readRoot, BootBlock.readInode_eq (by decide)]
      exact nofun

/-- A boot block that says it has one dentry more than it has room for. -/
def crowdedBlock : BootBlock where
  bytes := le32Bytes 64 ++ List.replicate 4092 nul
  length_bytes := by rw [List.length_append, List.length_replicate]; rfl

theorem crowdedBlock_dentry {i : Nat} (h : i < 63) :
    crowdedBlock.dentry i = nul :: List.replicate (4031 - 64 * i) nul := by
  have hlength : (le32Bytes 64).length = 4 := rfl
  rw [BootBlock.dentry_eq h, crowdedBlock, List.drop_append, hlength,
    List.drop_of_length_le (by omega), List.nil_append, List.drop_replicate,
    ← List.replicate_succ]
  congr 1
  omega

/-- By induction on the dentries that are left: none is called `a`, up to the end. -/
theorem crowdedBlock_loop (left i : Nat) (h : i + left = 63) :
    crowdedBlock.readDentryByNameLoop ['a'] (left + 1) i = .error .outOfBounds := by
  induction left generalizing i with
  | zero =>
      cases h
      rw [BootBlock.readDentryByNameLoop, BootBlock.dentry_end]
      rfl
  | succ left ih =>
      have hdiffers : strncmpEq (nul :: List.replicate (4031 - 64 * i) nul) ['a'] 32 =
          .ok false := rfl
      rw [BootBlock.readDentryByNameLoop, if_neg (by decide), crowdedBlock_dentry (by omega),
        hdiffers]
      simp only [bind, Except.bind, Bool.false_eq_true, if_false]
      exact ih (i + 1) (by omega)

/-- The lookup of a name that is not there goes on behind the copy. -/
theorem crowdedBlock_outOfBounds :
    crowdedBlock.inoLookup ['a'] = .error .outOfBounds ∧ ¬ crowdedBlock.InBounds := by
  have hlookup : crowdedBlock.inoLookup ['a'] = .error .outOfBounds := by
    have hnum : crowdedBlock.numDentry = 63 + 1 := rfl
    rw [BootBlock.inoLookup, BootBlock.readDentryByName, hnum, crowdedBlock_loop 63 0 rfl]
    rfl
  exact ⟨hlookup, fun h => h.1 ['a'] hlookup⟩

end Fs
end JkxyKernel
