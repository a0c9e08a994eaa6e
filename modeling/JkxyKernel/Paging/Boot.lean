import JkxyKernel.Paging.Frames

/-!
# The memory map of the boot loader

`init_page` marks as unused what the multiboot memory map says to be available, in pages of
either size: a page has to lie in an entry of the map as a whole.  The first page of an entry
is found by `(base - 1) / size + 1`, which for an entry that starts at 0 is the first page
behind the end of the address space; what only such entries cover stays unavailable.
-/

namespace JkxyKernel
namespace Paging

/-- `PAGE_SIZE_SMALL` -/
def pageSizeSmall : Nat := 2 ^ 12

/-- `PAGE_SIZE_LARGE` -/
def pageSizeLarge : Nat := 2 ^ 22

/-- `struct multiboot_memory_map` -/
structure MultibootMemoryMap where
  baseAddrLow : BitVec 32
  baseAddrHigh : BitVec 32
  lengthLow : BitVec 32
  lengthHigh : BitVec 32
  type : BitVec 32

/-- The bit of `struct multiboot_info` for the memory map, and the map. -/
structure MultibootInfo where
  hasMmap : Bool
  mmap : List MultibootMemoryMap

/-- `addition_is_safe`: no carry. -/
def additionIsSafe (a b : BitVec 32) : Bool := decide (a.toNat + b.toNat < 2 ^ 32)

/-- A loop that writes one value to some entries of a table. -/
def fill {α : Type} (v : α) (is : List Nat) (table : Nat → α) : Nat → α :=
  is.foldl (fun table i => Function.update table i v) table

namespace MultibootMemoryMap

variable (mmap : MultibootMemoryMap) (size : Nat)

def tillEnd : Bool := mmap.lengthHigh != 0 || !additionIsSafe mmap.baseAddrLow mmap.lengthLow

/-- `end_idx_small` and `end_idx_large` -/
def endIdx (num : Nat) : Nat :=
  if mmap.tillEnd then num else (mmap.baseAddrLow + mmap.lengthLow).toNat / size

/-- `start_idx_small` and `start_idx_large`, before pre-allocated pages are excluded. -/
def ceiling : Nat := (mmap.baseAddrLow - 1).toNat / size + 1

def startIdx : Nat :=
  if mmap.ceiling size < numPreallocateLarge * pageSizeLarge / size then
    numPreallocateLarge * pageSizeLarge / size
  else mmap.ceiling size

/-- The pages of one size that are marked. -/
def marked (num : Nat) : List Nat :=
  List.range' (mmap.startIdx size) (mmap.endIdx size num - mmap.startIdx size)

/-- The loop over the map, for one entry. -/
def mark (physDir : Nat → Int) : Nat → Int :=
  if mmap.baseAddrHigh != 0 then physDir
  else if mmap.type != 1 then physDir
  else
    fill PHYS_DIR_UNUSED (mmap.marked pageSizeLarge physDirLargeNum)
      (fill PHYS_DIR_UNUSED (mmap.marked pageSizeSmall physDirSmallNum) physDir)

end MultibootMemoryMap

/-- What `init_page` makes of `phys_dir`. -/
def initPage (mbi : MultibootInfo) (physDir : Nat → Int) : Except Fault (Nat → Int) :=
  let physDir := fill PHYS_DIR_UNAVAIL (List.range physDirSmallNum) physDir
  if mbi.hasMmap then
    let physDir := mbi.mmap.foldl (fun physDir mmap => mmap.mark physDir) physDir
    .ok (fill PHYS_DIR_KERNEL (List.range numPreallocateLarge) physDir)
  else .error .noMemoryMap

/-! ### What is marked -/

theorem fill_apply {α : Type} {v : α} {is : List Nat} {table : Nat → α} {i : Nat} :
    fill v is table i = if i ∈ is then v else table i := by
  induction is generalizing table with
  | nil => rfl
  | cons j is ih =>
      rw [fill, List.foldl_cons, ← fill, ih, Function.update_apply]
      by_cases hmem : i ∈ is
      · rw [if_pos hmem, if_pos (List.mem_cons_of_mem _ hmem)]
      · rw [if_neg hmem]
        by_cases hij : i = j
        · rw [if_pos hij, if_pos (hij ▸ List.mem_cons_self)]
        · rw [if_neg hij, if_neg fun h => (List.mem_cons.mp h).elim hij hmem]

namespace MultibootMemoryMap

variable {mmap : MultibootMemoryMap} {size num i : Nat}

/-- What `init_page` takes to be available memory. -/
def Usable (mmap : MultibootMemoryMap) : Prop := mmap.baseAddrHigh = 0 ∧ mmap.type = 1

/-- The number of bytes. -/
def length (mmap : MultibootMemoryMap) : Nat :=
  mmap.lengthHigh.toNat * 2 ^ 32 + mmap.lengthLow.toNat

/-- A page that lies in available memory as a whole. -/
structure Covers (mmap : MultibootMemoryMap) (size i : Nat) : Prop where
  usable : mmap.Usable
  first : mmap.baseAddrLow.toNat ≤ i * size
  last : (i + 1) * size ≤ mmap.baseAddrLow.toNat + mmap.length

/-- The end of the range is the end of the entry, or of the address space. -/
theorem lt_endIdx_iff (hsize : num * size = 2 ^ 32) (hpos : 0 < size) (hi : i < num) :
    i < mmap.endIdx size num ↔ (i + 1) * size ≤ mmap.baseAddrLow.toNat + mmap.length := by
  have hspace : (i + 1) * size ≤ 2 ^ 32 := hsize ▸ Nat.mul_le_mul_right size hi
  rw [endIdx]
  split
  next htill =>
    refine iff_of_true hi (Nat.le_trans hspace ?_)
    rw [tillEnd, Bool.or_eq_true] at htill
    rcases htill with hhigh | hcarry
    · have hne : mmap.lengthHigh.toNat ≠ 0 := fun h =>
        bne_iff_ne.mp hhigh (BitVec.eq_of_toNat_eq h)
      rw [length]
      omega
    · rw [additionIsSafe, Bool.not_eq_true', decide_eq_false_iff_not] at hcarry
      rw [length]
      omega
  next htill =>
    rw [tillEnd, Bool.or_eq_true, not_or, bne_iff_ne, not_not, Bool.not_eq_true', Bool.not_eq_false,
      additionIsSafe, decide_eq_true_iff] at htill
    obtain ⟨hhigh, hcarry⟩ := htill
    have hlength : mmap.length = mmap.lengthLow.toNat := by
      rw [length, hhigh]
      exact Nat.zero_add _
    rw [BitVec.toNat_add, Nat.mod_eq_of_lt hcarry, hlength]
    exact Nat.le_div_iff_mul_le hpos

/-- The start of the range is the first page of the entry, unless the entry starts at 0. -/
theorem ceiling_le_iff (hsize : num * size = 2 ^ 32) (hpos : 1 < size) (hi : i < num) :
    mmap.ceiling size ≤ i ↔ mmap.baseAddrLow ≠ 0 ∧ mmap.baseAddrLow.toNat ≤ i * size := by
  have hspace : (i + 1) * size ≤ 2 ^ 32 := hsize ▸ Nat.mul_le_mul_right size hi
  rw [Nat.succ_mul] at hspace
  rw [ceiling, Nat.succ_le_iff, Nat.div_lt_iff_lt_mul (Nat.lt_of_succ_lt hpos), BitVec.toNat_sub]
  have hlt := mmap.baseAddrLow.isLt
  have hone : (1 : BitVec 32).toNat = 1 := rfl
  rw [hone]
  by_cases hbase : mmap.baseAddrLow = 0
  · have hzero : mmap.baseAddrLow.toNat = 0 := congrArg BitVec.toNat hbase
    rw [hzero]
    exact iff_of_false (by omega) fun h => h.1 hbase
  · have hne : mmap.baseAddrLow.toNat ≠ 0 := fun h => hbase (BitVec.eq_of_toNat_eq h)
    rw [and_iff_right hbase]
    omega

theorem mem_marked_iff (hsize : num * size = 2 ^ 32) (hpos : 1 < size) (hi : i < num)
    (husable : mmap.Usable) :
    i ∈ mmap.marked size num ↔ numPreallocateLarge * pageSizeLarge / size ≤ i ∧
      mmap.baseAddrLow ≠ 0 ∧ mmap.Covers size i := by
  have hrange : i ∈ mmap.marked size num ↔
      mmap.startIdx size ≤ i ∧ i < mmap.endIdx size num := by
    rw [marked, List.mem_range'_1]
    omega
  have hstart : mmap.startIdx size ≤ i ↔
      numPreallocateLarge * pageSizeLarge / size ≤ i ∧ mmap.ceiling size ≤ i := by
    rw [startIdx]
    split
    next h => exact ⟨fun hle => ⟨hle, Nat.le_trans (Nat.le_of_lt h) hle⟩, And.left⟩
    next h => exact ⟨fun hle => ⟨Nat.le_trans (Nat.not_lt.mp h) hle, hle⟩, And.right⟩
  rw [hrange, hstart, ceiling_le_iff hsize hpos hi,
    lt_endIdx_iff hsize (Nat.lt_of_succ_lt hpos) hi]
  constructor
  · rintro ⟨⟨hlow, hbase, hfirst⟩, hlast⟩
    exact ⟨hlow, hbase, husable, hfirst, hlast⟩
  · rintro ⟨hlow, hbase, hcovers⟩
    exact ⟨⟨hlow, hbase, hcovers.first⟩, hcovers.last⟩

/-- The page of an entry of `phys_dir` is available, and not pre-allocated. -/
def Offers (mmap : MultibootMemoryMap) (i : Nat) : Prop :=
  (numPreallocateLarge ≤ i ∧ i < physDirLargeNum ∧ mmap.Covers pageSizeLarge i) ∨
    (numPreallocateLarge * 1024 ≤ i ∧ mmap.Covers pageSizeSmall i)

theorem mem_marked_large_iff (hi : i < physDirLargeNum) (husable : mmap.Usable) :
    i ∈ mmap.marked pageSizeLarge physDirLargeNum ↔ numPreallocateLarge ≤ i ∧
      mmap.baseAddrLow ≠ 0 ∧ mmap.Covers pageSizeLarge i :=
  mem_marked_iff (by decide) (by decide) hi husable

theorem mem_marked_small_iff (hi : i < physDirSmallNum) (husable : mmap.Usable) :
    i ∈ mmap.marked pageSizeSmall physDirSmallNum ↔ numPreallocateLarge * 1024 ≤ i ∧
      mmap.baseAddrLow ≠ 0 ∧ mmap.Covers pageSizeSmall i :=
  mem_marked_iff (by decide) (by decide) hi husable

theorem lt_of_mem_marked_large (hi : i ∈ mmap.marked pageSizeLarge physDirLargeNum) :
    i < physDirLargeNum := by
  rw [marked, List.mem_range'_1] at hi
  have hend : mmap.endIdx pageSizeLarge physDirLargeNum ≤ physDirLargeNum := by
    rw [endIdx]
    split
    next => exact Nat.le_refl _
    next =>
      exact Nat.div_le_of_le_mul (Nat.le_of_lt (Nat.lt_of_lt_of_le (BitVec.isLt _) (by decide)))
  omega

variable {physDir : Nat → Int}

theorem mark_of_usable (husable : mmap.Usable) :
    mmap.mark physDir =
      fill PHYS_DIR_UNUSED (mmap.marked pageSizeLarge physDirLargeNum)
        (fill PHYS_DIR_UNUSED (mmap.marked pageSizeSmall physDirSmallNum) physDir) := by
  rw [mark, if_neg (by rw [husable.1]; decide), if_neg (by rw [husable.2]; decide)]

theorem mark_of_not_usable (husable : ¬ mmap.Usable) : mmap.mark physDir = physDir := by
  rw [mark]
  split
  next => rfl
  next hhigh =>
    refine if_pos (bne_iff_ne.mpr fun htype => husable ⟨?_, htype⟩)
    rw [bne_iff_ne, not_not] at hhigh
    exact hhigh

/-- An entry of the map that does not start at 0 marks what it offers. -/
theorem mark_of_offers (hi : i < physDirSmallNum) (hbase : mmap.baseAddrLow ≠ 0)
    (h : mmap.Offers i) : mmap.mark physDir i = PHYS_DIR_UNUSED := by
  rcases h with ⟨hlow, hhigh, hcovers⟩ | ⟨hlow, hcovers⟩
  · rw [mark_of_usable hcovers.usable, fill_apply]
    exact if_pos ((mem_marked_large_iff hhigh hcovers.usable).mpr ⟨hlow, hbase, hcovers⟩)
  · rw [mark_of_usable hcovers.usable, fill_apply, fill_apply,
      if_pos ((mem_marked_small_iff hi hcovers.usable).mpr ⟨hlow, hbase, hcovers⟩), ite_self]

/-- It marks nothing else; and one that starts at 0 marks nothing. -/
theorem mark_of_not_offers (hi : i < physDirSmallNum)
    (h : mmap.baseAddrLow ≠ 0 → ¬ mmap.Offers i) : mmap.mark physDir i = physDir i := by
  by_cases husable : mmap.Usable
  · have hlarge : i ∉ mmap.marked pageSizeLarge physDirLargeNum := by
      intro hmem
      have hlt := lt_of_mem_marked_large hmem
      obtain ⟨hlow, hbase, hcovers⟩ := (mem_marked_large_iff hlt husable).mp hmem
      exact h hbase (.inl ⟨hlow, hlt, hcovers⟩)
    have hsmall : i ∉ mmap.marked pageSizeSmall physDirSmallNum := by
      intro hmem
      obtain ⟨hlow, hbase, hcovers⟩ := (mem_marked_small_iff hi husable).mp hmem
      exact h hbase (.inr ⟨hlow, hcovers⟩)
    rw [mark_of_usable husable, fill_apply, if_neg hlarge, fill_apply, if_neg hsmall]
  · rw [mark_of_not_usable husable]

end MultibootMemoryMap

/-! ### The whole map -/

section Maps

variable {maps : List MultibootMemoryMap} {physDir : Nat → Int} {i : Nat}

/-- Some entry that does not start at 0 offers the page. -/
def Marked (maps : List MultibootMemoryMap) (i : Nat) : Prop :=
  ∃ mmap ∈ maps, mmap.baseAddrLow ≠ 0 ∧ mmap.Offers i

/-- The loop over the map, by induction on it: a page once marked stays so. -/
theorem foldl_mark (hi : i < physDirSmallNum) :
    (Marked maps i →
      maps.foldl (fun physDir mmap => mmap.mark physDir) physDir i = PHYS_DIR_UNUSED) ∧
    (¬ Marked maps i →
      maps.foldl (fun physDir mmap => mmap.mark physDir) physDir i = physDir i) := by
  induction maps generalizing physDir with
  | nil => exact ⟨fun ⟨_, hmem, _⟩ => (nomatch hmem), fun _ => rfl⟩
  | cons mmap maps ih =>
      rw [List.foldl_cons]
      constructor
      · rintro ⟨e, hmem, hbase, hoffers⟩
        by_cases hrest : Marked maps i
        · exact ih.1 hrest
        · rw [ih.2 hrest]
          rcases List.mem_cons.mp hmem with rfl | hmem
          · exact MultibootMemoryMap.mark_of_offers hi hbase hoffers
          · exact absurd ⟨e, hmem, hbase, hoffers⟩ hrest
      · intro hnone
        rw [ih.2 fun ⟨e, hmem, h⟩ => hnone ⟨e, List.mem_cons_of_mem _ hmem, h⟩]
        exact MultibootMemoryMap.mark_of_not_offers hi fun hbase hoffers =>
          hnone ⟨mmap, List.mem_cons_self, hbase, hoffers⟩

/-- What `init_page` leaves in an entry. -/
theorem initPage_eq (maps : List MultibootMemoryMap) (physDir : Nat → Int) :
    ∃ booted, initPage ⟨true, maps⟩ physDir = .ok booted ∧
      (∀ i < numPreallocateLarge, booted i = PHYS_DIR_KERNEL) ∧
      ∀ i, numPreallocateLarge ≤ i → i < physDirSmallNum →
        (Marked maps i → booted i = PHYS_DIR_UNUSED) ∧
        (¬ Marked maps i → booted i = PHYS_DIR_UNAVAIL) := by
  refine ⟨_, rfl, ?_, ?_⟩
  · intro i hi
    rw [fill_apply, if_pos (List.mem_range.mpr hi)]
  · intro i hlow hi
    rw [fill_apply, if_neg fun hmem => Nat.not_lt.mpr hlow (List.mem_range.mp hmem)]
    refine ⟨(foldl_mark hi).1, fun hnone => ?_⟩
    rw [(foldl_mark hi).2 hnone, fill_apply, if_pos (List.mem_range.mpr hi)]

/-- What `phys_dir` has to be after the boot. -/
structure BootRight (maps : List MultibootMemoryMap) (booted : Nat → Int) : Prop where
  preallocated : ∀ i < numPreallocateLarge, booted i = PHYS_DIR_KERNEL
  large : ∀ i, numPreallocateLarge ≤ i → i < physDirLargeNum →
    (booted i = PHYS_DIR_UNUSED ↔ ∃ mmap ∈ maps, mmap.Covers pageSizeLarge i)
  small : ∀ i, numPreallocateLarge * 1024 ≤ i → i < physDirSmallNum →
    (booted i = PHYS_DIR_UNUSED ↔ ∃ mmap ∈ maps, mmap.Covers pageSizeSmall i)
  low : ∀ i, physDirLargeNum ≤ i → i < numPreallocateLarge * 1024 →
    booted i = PHYS_DIR_UNAVAIL
  rest : ∀ i, numPreallocateLarge ≤ i → i < physDirSmallNum →
    booted i = PHYS_DIR_UNUSED ∨ booted i = PHYS_DIR_UNAVAIL

/-- All pages of one size that an entry starting at 0 covers are in others, too. -/
def CoveredAgain (maps : List MultibootMemoryMap) (size first last : Nat) : Prop :=
  ∀ i, first ≤ i → i < last → (∃ mmap ∈ maps, mmap.Covers size i) →
    ∃ mmap ∈ maps, mmap.baseAddrLow ≠ 0 ∧ mmap.Covers size i

theorem marked_large_iff (hlow : numPreallocateLarge ≤ i) (hi : i < physDirLargeNum) :
    Marked maps i ↔ ∃ mmap ∈ maps, mmap.baseAddrLow ≠ 0 ∧ mmap.Covers pageSizeLarge i := by
  refine exists_congr fun mmap => and_congr_right fun _ => and_congr_right fun _ => ?_
  refine ⟨fun h => ?_, fun h => .inl ⟨hlow, hi, h⟩⟩
  rcases h with ⟨-, -, h⟩ | ⟨h, -⟩
  · exact h
  · rw [numPreallocateLarge] at h
    rw [physDirLargeNum] at hi
    omega

theorem marked_small_iff (hlow : physDirLargeNum ≤ i) :
    Marked maps i ↔ numPreallocateLarge * 1024 ≤ i ∧
      ∃ mmap ∈ maps, mmap.baseAddrLow ≠ 0 ∧ mmap.Covers pageSizeSmall i := by
  constructor
  · rintro ⟨mmap, hmem, hbase, ⟨-, hi, -⟩ | ⟨hle, hcovers⟩⟩
    · exact absurd hi (Nat.not_lt.mpr hlow)
    · exact ⟨hle, mmap, hmem, hbase, hcovers⟩
  · rintro ⟨hle, mmap, hmem, hbase, hcovers⟩
    exact ⟨mmap, hmem, hbase, .inr ⟨hle, hcovers⟩⟩

theorem unused_iff_marked {booted : Nat → Int}
    (hbooted : (Marked maps i → booted i = PHYS_DIR_UNUSED) ∧
      (¬ Marked maps i → booted i = PHYS_DIR_UNAVAIL)) :
    booted i = PHYS_DIR_UNUSED ↔ Marked maps i := by
  by_cases h : Marked maps i
  · exact iff_of_true (hbooted.1 h) h
  · exact iff_of_false (by rw [hbooted.2 h]; decide) h

/-- **Memory at boot.**  After `init_page` exactly the pages that are not pre-allocated and lie
in available memory as a whole are unused, the pre-allocated ones are the kernel's, and all
others are unavailable, if and only if the entries of the map that start at 0 could be left
out. -/
theorem initPage_right_iff (maps : List MultibootMemoryMap) (physDir : Nat → Int) :
    (∃ booted, initPage ⟨true, maps⟩ physDir = .ok booted ∧ BootRight maps booted) ↔
      CoveredAgain maps pageSizeLarge numPreallocateLarge physDirLargeNum ∧
        CoveredAgain maps pageSizeSmall (numPreallocateLarge * 1024) physDirSmallNum := by
  obtain ⟨booted, hinit, hkernel, hrest⟩ := initPage_eq maps physDir
  constructor
  · rintro ⟨booted', hinit', hright⟩
    cases hinit.symm.trans hinit'
    constructor
    · intro i hlow hi hcovers
      have hsmall := Nat.lt_trans hi (show physDirLargeNum < physDirSmallNum by decide)
      rw [← hright.large i hlow hi, unused_iff_marked (hrest i hlow hsmall),
        marked_large_iff hlow hi] at hcovers
      exact hcovers
    · intro i hlow hi hcovers
      have hpre := Nat.le_trans (show numPreallocateLarge ≤ numPreallocateLarge * 1024 by decide) hlow
      have hlarge := Nat.le_trans (show physDirLargeNum ≤ numPreallocateLarge * 1024 by decide) hlow
      rw [← hright.small i hlow hi, unused_iff_marked (hrest i hpre hi),
        marked_small_iff hlarge] at hcovers
      exact hcovers.2
  · rintro ⟨hlarge, hsmall⟩
    refine ⟨booted, hinit, hkernel, ?_, ?_, ?_, ?_⟩
    · intro i hlow hi
      have hspace := Nat.lt_trans hi (show physDirLargeNum < physDirSmallNum by decide)
      rw [unused_iff_marked (hrest i hlow hspace), marked_large_iff hlow hi]
      exact ⟨fun ⟨mmap, hmem, _, h⟩ => ⟨mmap, hmem, h⟩, hlarge i hlow hi⟩
    · intro i hlow hi
      have hpre := Nat.le_trans (show numPreallocateLarge ≤ numPreallocateLarge * 1024 by decide) hlow
      have hle := Nat.le_trans (show physDirLargeNum ≤ numPreallocateLarge * 1024 by decide) hlow
      rw [unused_iff_marked (hrest i hpre hi), marked_small_iff hle, and_iff_right hlow]
      exact ⟨fun ⟨mmap, hmem, _, h⟩ => ⟨mmap, hmem, h⟩, hsmall i hlow hi⟩
    · intro i hlow hi
      have hpre := Nat.le_trans (show numPreallocateLarge ≤ physDirLargeNum by decide) hlow
      have hspace := Nat.lt_trans hi
        (show numPreallocateLarge * 1024 < physDirSmallNum by decide)
      exact (hrest i hpre hspace).2 fun h => Nat.not_lt.mpr ((marked_small_iff hlow).mp h).1 hi
    · intro i hlow hi
      by_cases h : Marked maps i
      · exact .inl ((hrest i hlow hi).1 h)
      · exact .inr ((hrest i hlow hi).2 h)

/-- A machine whose memory of 64 MiB is one entry. -/
def wholeMemory : MultibootMemoryMap where
  baseAddrLow := 0
  baseAddrHigh := 0
  lengthLow := 0x4000000
  lengthHigh := 0
  type := 1

/-- It has no memory after the boot. -/
theorem wholeMemory_unavailable :
    ¬ ∃ booted, initPage ⟨true, [wholeMemory]⟩ (fun _ => 0) = .ok booted ∧
      BootRight [wholeMemory] booted := by
  rintro ⟨booted, hinit, hright⟩
  obtain ⟨booted', hinit', -, hrest⟩ := initPage_eq [wholeMemory] fun _ => 0
  cases hinit.symm.trans hinit'
  have hcovers : wholeMemory.Covers pageSizeSmall 3072 := ⟨⟨rfl, rfl⟩, by decide, by decide⟩
  have hunused := (hright.small 3072 (by decide) (by decide)).mpr
    ⟨wholeMemory, List.mem_singleton_self _, hcovers⟩
  obtain ⟨mmap, hmem, hbase, -⟩ :=
    (unused_iff_marked (hrest 3072 (by decide) (by decide))).mp hunused
  rw [List.mem_singleton.mp hmem] at hbase
  exact hbase rfl

end Maps
end Paging
end JkxyKernel
