import JkxyKernel.Fs.BootBlock
import JkxyKernel.Lib.Cursor

/-!
# The names of dentries

A name has 32 bytes and no zero behind them.  `ece391fs_readdir` takes its length with
`strlen`, which runs on into the type, and cuts it; a lookup compares 32 bytes at most, and
refuses longer names.  With types 0, 1 and 2 both take a name for what is stored, up to the
first zero or the end of the field.
-/

namespace JkxyKernel
namespace Fs

open Cursor

/-! ### Where a name ends -/

section Names

variable {mem name tail : List Char}

theorem cstring_append_of_mem (h : nul ∈ name) : cstring (name ++ tail) = cstring name := by
  induction name with
  | nil => cases h
  | cons c rest ih =>
      rw [List.cons_append, cstring_cons, cstring_cons]
      split
      next => rfl
      next hc => rw [ih ((List.mem_cons.mp h).resolve_left (Ne.symm hc))]

theorem length_cstring_lt (h : nul ∈ name) : (cstring name).length < name.length := by
  induction name with
  | nil => cases h
  | cons c rest ih =>
      rw [cstring_cons]
      split
      next => exact Nat.succ_pos _
      next hc =>
        exact Nat.succ_lt_succ (ih ((List.mem_cons.mp h).resolve_left (Ne.symm hc)))

theorem cstring_eq_self (h : nul ∉ name) : cstring name = name := by
  have happend : cstring (name ++ []) = name ++ cstring [] := cstring_append h
  simpa [cstring] using happend

/-- A number below 256 has a zero as its second byte. -/
theorem second_byte_nul (hlength : 4 ≤ mem.length) (h : le32 mem ≤ 2) :
    ∃ c rest, mem = c :: nul :: rest := by
  match mem, hlength with
  | c :: d :: rest, _ =>
      have hd : d.toNat = 0 := by
        simp only [le32, List.take_succ_cons, List.foldr_cons] at h
        omega
      have heq : d = nul := by
        apply Char.ext
        apply UInt32.toNat_inj.mp
        exact hd
      exact ⟨c, rest, by rw [heq]⟩

/-- What `ece391fs_readdir` takes for the name of a dentry. -/
theorem take_dentryNameLength
    (hlength : 64 ≤ mem.length) (htype : le32 (mem.drop 32) ≤ 2) :
    nul ∈ mem ∧ mem.take (dentryNameLength mem) = cstring (mem.take 32) := by
  obtain ⟨c, rest, htail⟩ := second_byte_nul
    (by rw [List.length_drop]; omega) htype
  have hmem : mem = mem.take 32 ++ (c :: nul :: rest) := by
    rw [← htail, List.take_append_drop]
  have hfield : (mem.take 32).length = 32 := by
    rw [List.length_take]
    omega
  generalize mem.take 32 = name at hmem hfield ⊢
  subst hmem
  refine ⟨by simp, ?_⟩
  by_cases hnul : nul ∈ name
  · have hlt := length_cstring_lt hnul
    have hlen : dentryNameLength (name ++ c :: nul :: rest) = (cstring name).length := by
      simp only [dentryNameLength, cstring_append_of_mem hnul]
      split <;> omega
    rw [hlen, List.take_append_of_le_length (Nat.le_of_lt hlt)]
    exact List.prefix_iff_eq_take.mp (List.takeWhile_prefix _) |>.symm
  · have hshort : (cstring (c :: nul :: rest)).length ≤ 1 := by
      rw [cstring_cons]
      split
      next => exact Nat.zero_le _
      next => simp [cstring]
    have hlen : dentryNameLength (name ++ c :: nul :: rest) = 32 := by
      simp only [dentryNameLength, cstring_append hnul, List.length_append, hfield]
      split <;> omega
    rw [hlen, cstring_eq_self hnul, List.take_append_of_le_length (Nat.le_of_eq hfield.symm),
      ← hfield, List.take_length]

end Names

namespace BootBlock

variable (block : BootBlock)

/-- The name that is stored: 32 bytes, or fewer when there is a zero. -/
def storedName (index : Nat) : List Char := cstring ((block.dentry index).take 32)

/-- The names in the order of the dentries. -/
def names : List (List Char) := (List.range block.numDentry).map block.storedName

/-- The entry of a dentry. -/
def entry (index : Nat) : DirEntry where
  name := block.storedName index
  offset := index
  ino := le32 (((block.dentry index).drop 36).take 4)
  type := dentryType (le32 (((block.dentry index).drop 32).take 4))

def entries : List DirEntry := (List.range block.numDentry).map block.entry

/-- The dentries lie in the copy, and are of the known types. -/
structure Regular : Prop where
  few : block.numDentry ≤ 63
  types : ∀ index < block.numDentry, le32 ((block.dentry index).drop 32) ≤ 2

variable {block}

/-! ### Listing -/

theorem readEntry_regular (h : block.Regular) {pos : Nat} (hpos : pos < block.numDentry) :
    block.readEntry pos = .ok (block.entry pos) := by
  have hlt : pos < 63 := Nat.lt_of_lt_of_le hpos h.few
  obtain ⟨hnul, hname⟩ := take_dentryNameLength (length_dentry hlt) (h.types pos hpos)
  rw [readEntry_eq hlt hnul, hname]
  rfl

theorem entries_drop {pos : Nat} (hpos : pos < block.numDentry) :
    block.entries.drop pos = block.entry pos :: block.entries.drop (pos + 1) := by
  have hlength : pos < block.entries.length := by simpa [entries] using hpos
  rw [List.drop_eq_getElem_cons hlength]
  simp [entries]

/-- The loop of `ece391fs_readdir` walks over the entries from its position on. -/
theorem readdirLoop_walk
    {σ : Type} {filldir : Filldir σ} (h : block.Regular) (rounds : Nat) (data : σ)
    (pos i : Nat) (hrounds : block.numDentry - pos < rounds) :
    ∃ pos' i' : Nat, block.readdirLoop filldir rounds data pos i =
        .ok ((walk filldir data (block.entries.drop pos)).1, pos', (i' : Int)) ∧
      block.entries.drop pos' = (walk filldir data (block.entries.drop pos)).2 := by
  have hlength : block.entries.length = block.numDentry := by simp [entries]
  refine loop_walk (fun rounds data pos i hnil => ?_) (fun rounds data pos i e rest hcons => ?_)
    rounds data pos i (by rw [hlength]; exact hrounds)
  · have hend : block.numDentry ≤ pos := by rw [← hlength]; exact List.drop_eq_nil_iff.mp hnil
    rw [readdirLoop, if_pos hend]
  · have hpos : pos < block.numDentry := by
      by_contra hge
      rw [List.drop_of_length_le (by rw [hlength]; exact Nat.not_lt.mp hge)] at hcons
      cases hcons
    rw [entries_drop hpos] at hcons
    cases hcons
    rw [readdirLoop, if_neg (Nat.not_le.mpr hpos), readEntry_regular h hpos]
    rfl

/-- Where no read goes behind the copy, the listing is the one over plain memory. -/
theorem readdirLoop_plain
    {σ : Type} {filldir : Filldir σ} (h : block.Regular) (rounds : Nat) {data : σ}
    {pos i : Nat} {result : σ × Nat × Int}
    (hloop : block.readdirLoop filldir rounds data pos i = .ok result) :
    ece391fsLoop block.bytes filldir rounds data pos i = .ok result := by
  induction rounds generalizing data pos i with
  | zero => cases hloop
  | succ rounds ih =>
      simp only [readdirLoop] at hloop
      by_cases hend : block.numDentry ≤ pos
      · have hdentry : ece391fsDentry block.bytes pos = none := if_pos hend
        rw [if_pos hend] at hloop
        cases hloop
        simp only [ece391fsLoop, hdentry]
      · have hpos := Nat.not_le.mp hend
        have hlt : pos < 63 := Nat.lt_of_lt_of_le hpos h.few
        obtain ⟨-, hname⟩ := take_dentryNameLength (length_dentry hlt) (h.types pos hpos)
        have hfour : ∀ mem : List Char, le32 (mem.take 4) = le32 mem := by
          intro mem
          rw [le32, List.take_take, Nat.min_self]
          rfl
        have hentry : dentryEntry (block.bytes.drop (64 + 64 * pos)) pos = block.entry pos := by
          rw [← dentry_eq hlt]
          simp only [dentryEntry, entry, storedName, hname, hfour]
        have hdentry : ece391fsDentry block.bytes pos =
            some (block.bytes.drop (64 + 64 * pos)) := if_neg hend
        rw [if_neg hend, readEntry_regular h hpos] at hloop
        simp only [bind, Except.bind] at hloop
        simp only [ece391fsLoop, hdentry, hentry]
        by_cases hrefused : (filldir data (block.entry pos)).2 < 0
        · rw [if_pos hrefused] at hloop ⊢
          cases hloop
          rfl
        · rw [if_neg hrefused] at hloop ⊢
          by_cases hlast : (filldir data (block.entry pos)).2 ≠ 0
          · rw [if_pos hlast] at hloop ⊢
            cases hloop
            rfl
          · rw [if_neg hlast] at hloop ⊢
            exact ih hloop

/-! ### Looking up -/

theorem length_storedName_le (index : Nat) : (block.storedName index).length ≤ 32 :=
  Nat.le_trans (List.takeWhile_prefix _).length_le (List.length_take_le _ _)

/-- A string that is no longer than the cut is compared as a whole. -/
theorem cstring_take_self {str : List Char} {n : Nat} (h : (cstring str).length ≤ n) :
    cstring (str.take n) = cstring str := by
  induction n generalizing str with
  | zero =>
      have hnil : cstring str = [] := List.length_eq_zero_iff.mp (Nat.le_zero.mp h)
      rw [hnil]
      rfl
  | succ n ih =>
      cases str with
      | nil => rfl
      | cons c rest =>
          rw [cstring_cons] at h
          rw [List.take_succ_cons, cstring_cons, cstring_cons]
          by_cases hc : c = nul
          · rw [if_pos hc, if_pos hc]
          · rw [if_neg hc, List.length_cons] at h
            rw [if_neg hc, if_neg hc, ih (Nat.le_of_succ_le_succ h)]

/-- A lookup finds the first dentry of the name. -/
theorem readDentryByName_eq (h : block.Regular) (fname : List Char) :
    block.readDentryByName fname =
      .ok (match (List.range block.numDentry).find? fun j =>
          decide (block.storedName j = cstring fname) with
        | some j => .ok j
        | none => .error (-ENOENT)) := by
  by_cases hfname : (cstring fname).length ≤ 32
  · have hloop := @readDentryByNameLoop_eq block _ hfname block.numDentry 0
      (Nat.le_trans (Nat.le_of_eq (Nat.zero_add _)) h.few)
    rw [cstring_take_self hfname, ← List.range_eq_range'] at hloop
    exact hloop
  · have hnone : ((List.range block.numDentry).find? fun j =>
        decide (block.storedName j = cstring fname)) = none := by
      refine List.find?_eq_none.mpr fun j _ => ?_
      simp only [decide_eq_true_eq]
      intro heq
      exact hfname (heq ▸ length_storedName_le j)
    rw [hnone]
    simp only [readDentryByName]
    cases block.numDentry with
    | zero => rfl
    | succ left => exact if_pos (Nat.not_le.mp hfname)

/-- A lookup comes to a dentry or to the error. -/
theorem readDentryByName_total (h : block.Regular) (fname : List Char) :
    ∃ index, block.readDentryByName fname = .ok (.ok index) ∨
      block.readDentryByName fname = .ok (.error (-ENOENT)) := by
  rw [readDentryByName_eq h]
  generalize List.find? _ _ = found
  cases found with
  | none => exact ⟨0, .inr rfl⟩
  | some index => exact ⟨index, .inl rfl⟩

/-- The dentry that is found is the first of its name. -/
theorem readDentryByName_eq_ok_iff (h : block.Regular) {fname : List Char} {index : Nat} :
    block.readDentryByName fname = .ok (.ok index) ↔
      index < block.numDentry ∧ block.storedName index = cstring fname ∧
        ∀ j < index, block.storedName j ≠ cstring fname := by
  have hfind : block.readDentryByName fname = .ok (.ok index) ↔
      ((List.range block.numDentry).find? fun j =>
        decide (block.storedName j = cstring fname)) = some index := by
    rw [readDentryByName_eq h]
    generalize List.find? _ _ = found
    cases found <;> simp
  rw [hfind, List.find?_range_eq_some]
  simp only [decide_eq_true_eq, List.mem_range, Bool.not_eq_true', decide_eq_false_iff_not]
  exact and_left_comm

/-- A lookup fails for a name that no dentry has. -/
theorem readDentryByName_eq_error_iff (h : block.Regular) {fname : List Char} :
    block.readDentryByName fname = .ok (.error (-ENOENT)) ↔
      cstring fname ∉ block.names := by
  have hfind : block.readDentryByName fname = .ok (.error (-ENOENT)) ↔
      ((List.range block.numDentry).find? fun j =>
        decide (block.storedName j = cstring fname)) = none := by
    rw [readDentryByName_eq h]
    generalize List.find? _ _ = found
    cases found <;> simp
  rw [hfind, List.find?_eq_none]
  simp only [names, List.mem_map, List.mem_range, decide_eq_true_eq, not_exists, not_and]

@[simp] theorem map_name_entries : block.entries.map DirEntry.name = block.names := by
  simp only [entries, names, List.map_map]
  rfl

/-- A name that is longer than the field is not stored. -/
theorem notMem_names_of_long {fname : List Char} (hlong : 32 < (cstring fname).length) :
    cstring fname ∉ block.names := by
  intro hmem
  obtain ⟨index, -, heq⟩ := List.mem_map.mp hmem
  exact Nat.not_le.mpr hlong (heq ▸ length_storedName_le index)

end BootBlock

/-- **Lookup agrees with listing.**  A listing reports the stored names, cut at 32 bytes or
at the first zero, in their order; a lookup finds the first dentry of its name, fails if and
only if no name that is reported is equal to it, and fails for every longer name. -/
theorem ece391fs_lookup_agrees (block : BootBlock) (h : block.Regular) :
    (∀ (σ : Type) (filldir : Filldir σ) (data : σ) (pos : Nat), ∃ pos' i' : Nat,
      block.readdir filldir data pos =
          .ok ((walk filldir data (block.entries.drop pos)).1, pos', (i' : Int)) ∧
        block.entries.drop pos' = (walk filldir data (block.entries.drop pos)).2) ∧
      block.entries.map DirEntry.name = (List.range block.numDentry).map
        (fun index => cstring ((block.dentry index).take 32)) ∧
      ∀ fname : List Char,
        (∀ index, block.readDentryByName fname = .ok (.ok index) ↔
          index < block.numDentry ∧ block.storedName index = cstring fname ∧
            ∀ j < index, block.storedName j ≠ cstring fname) ∧
        ((∃ index, block.readDentryByName fname = .ok (.ok index)) ↔
          cstring fname ∈ block.entries.map DirEntry.name) ∧
        (cstring fname ∉ block.entries.map DirEntry.name →
          block.readDentryByName fname = .ok (.error (-ENOENT))) ∧
        (32 < (cstring fname).length →
          block.readDentryByName fname = .ok (.error (-ENOENT))) := by
  refine ⟨fun σ filldir data pos => ?_, BootBlock.map_name_entries, fun fname => ?_⟩
  · exact BootBlock.readdirLoop_walk h _ data pos 0 (by omega)
  · rw [BootBlock.map_name_entries]
    have herror : block.readDentryByName fname = .ok (.error (-ENOENT)) ↔
        cstring fname ∉ block.names := BootBlock.readDentryByName_eq_error_iff h
    refine ⟨fun index => BootBlock.readDentryByName_eq_ok_iff h, ?_, herror.mpr, ?_⟩
    · constructor
      · rintro ⟨index, hok⟩
        by_contra hno
        rw [herror.mpr hno] at hok
        cases hok
      · intro hmem
        obtain ⟨index, hok⟩ := BootBlock.readDentryByName_total h fname
        rcases hok with hok | hok
        · exact ⟨index, hok⟩
        · exact absurd hmem (herror.mp hok)
    · exact fun hlong => herror.mpr (BootBlock.notMem_names_of_long hlong)

/-- A boot block of one dentry, whose name has 32 bytes. -/
def fullNameBlock : BootBlock where
  bytes := le32Bytes 1 ++ List.replicate 60 nul ++ List.replicate 32 'a' ++
    (le32Bytes 2 ++ List.replicate 3996 nul)
  length_bytes := by
    simp only [List.length_append, List.length_replicate]
    rfl

theorem fullNameBlock_regular : fullNameBlock.Regular where
  few := by decide +kernel
  types := by decide +kernel

theorem ece391fs_lookup_agrees_fullName :
    fullNameBlock.readDentryByName (List.replicate 32 'a') = .ok (.ok 0) ∧
      fullNameBlock.readDentryByName (List.replicate 33 'a') = .ok (.error (-ENOENT)) := by
  obtain ⟨-, -, hlookup⟩ := ece391fs_lookup_agrees fullNameBlock fullNameBlock_regular
  refine ⟨((hlookup _).1 0).mpr ?_, (hlookup _).2.2.2 (by decide +kernel)⟩
  exact ⟨by decide +kernel, by decide +kernel, fun j hj => absurd hj (Nat.not_lt_zero j)⟩

end Fs
end JkxyKernel
