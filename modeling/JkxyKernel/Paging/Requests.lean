import JkxyKernel.Paging.Cells
import Mathlib.Data.Finset.Card
import Mathlib.Order.Interval.Finset.Nat

/-!
# Where requests are mapped

The entries of a request for large pages lie in the directory in use, those of a request for
small pages in the page table of one of its entries, and those of a request of the kernel in
`heap_tables`.  A page table that is missing is made, in a new page of the kernel heap.
-/

namespace JkxyKernel
namespace Paging
namespace Memory

variable {s t : Memory} {dir page num i p q frame idx offset left : Nat} {gfp : Gfp} {e : Entry}

/-! ### Frames that are free -/

instance : DecidablePred s.FrameUnused := fun _ => inferInstanceAs (Decidable (_ ∧ _))

/-- The small frames that can be taken. -/
def freeFrames (s : Memory) : Finset Nat :=
  (Finset.Ico physDirLargeNum physDirSmallNum).filter s.FrameUnused

theorem mem_freeFrames_iff (hsmall : gfp.large = false) :
    idx ∈ s.freeFrames ↔ s.Free gfp idx := by
  rw [freeFrames, Finset.mem_filter, Finset.mem_Ico, ← mem_allocIndices_small hsmall]
  constructor
  · rintro ⟨hscale, haround, hunused⟩
    exact ⟨hscale, hunused, fun hlarge => absurd (hsmall.symm.trans hlarge) Bool.false_ne_true,
      fun _ => haround⟩
  · exact fun h => ⟨h.scale, h.around hsmall, h.unused⟩

/-- Where no frame is found, none is free. -/
theorem freeFrames_eq_empty (hsmall : gfp.large = false) (hzero : s.physDir 0 ≠ PHYS_DIR_UNUSED)
    (h : s.allocPhysMem gfp = .ok (s, 0)) : s.freeFrames = ∅ := by
  rcases @allocPhysMem_total s gfp hzero with ⟨-, hnone⟩ | ⟨idx, -, hidx, halloc⟩
  · refine Finset.eq_empty_of_forall_notMem fun f hf => ?_
    have hfree := (mem_freeFrames_iff hsmall).mp hf
    have hsearch := hnone f hfree.scale
    rw [isFree_small hsmall, decide_eq_true ⟨hfree.around hsmall, hfree.unused⟩] at hsearch
    cases hsearch
  · have heq := (Prod.mk.inj (Except.ok.inj (h.symm.trans halloc))).2
    exact absurd heq.symm (Nat.mul_ne_zero hidx (Nat.ne_of_gt (Gfp.pages_pos gfp)))

/-- Taken frames are no longer free, and no others. -/
theorem freeFrames_of_taken (hsmall : gfp.large = false) {idxs : List Nat}
    (hphys : ∀ f, t.physDir f = if f ∈ idxs then gfp.taken else s.physDir f)
    (hall : ∀ idx ∈ idxs, s.Free gfp idx) : t.freeFrames = s.freeFrames \ idxs.toFinset := by
  ext f
  rw [Finset.mem_sdiff, List.mem_toFinset, freeFrames, freeFrames, Finset.mem_filter,
    Finset.mem_filter, and_assoc]
  refine and_congr_right fun hrange => ?_
  have hrange := Finset.mem_Ico.mp hrange
  have haround : f / 1024 ∉ idxs := by
    intro hmem
    have hlow := ((mem_allocIndices_small hsmall).mp (hall _ hmem).scale).1
    rw [physDirLargeNum] at hlow
    rw [physDirSmallNum] at hrange
    omega
  rw [FrameUnused, FrameUnused, hphys, hphys, if_neg haround]
  by_cases hmem : f ∈ idxs
  · rw [if_pos hmem]
    exact iff_of_false (fun h => Gfp.taken_ne_unused gfp h.2) fun h => h.2 hmem
  · rw [if_neg hmem]
    exact (and_iff_left hmem).symm

theorem card_freeFrames_of_taken (hsmall : gfp.large = false) {idxs : List Nat}
    (hphys : ∀ f, t.physDir f = if f ∈ idxs then gfp.taken else s.physDir f)
    (hall : ∀ idx ∈ idxs, s.Free gfp idx) (hnodup : idxs.Nodup) :
    t.freeFrames.card + idxs.length = s.freeFrames.card := by
  have hsub : idxs.toFinset ⊆ s.freeFrames := fun f hf =>
    (mem_freeFrames_iff hsmall).mpr (hall f (List.mem_toFinset.mp hf))
  rw [freeFrames_of_taken hsmall hphys hall, ← List.toFinset_card_of_nodup hnodup]
  exact Finset.card_sdiff_add_card_eq_card hsub

/-! ### What does not depend on `phys_dir` and page tables -/

theorem frameAt_congr (h : t.heapTables = s.heapTables) : t.frameAt p = s.frameAt p := by
  rw [frameAt, frameAt, h]

theorem heapPage_congr (h : t.heapTables = s.heapTables) : t.heapPage frame = s.heapPage frame := by
  rw [heapPage, heapPage, h]

theorem findUserspacePageTable_congr (h : t.heapTables = s.heapTables) :
    t.findUserspacePageTable e = s.findUserspacePageTable e := by
  rw [findUserspacePageTable, findUserspacePageTable, heapPage_congr h]

theorem currentPageDirectory_congr (h : t.heapTables = s.heapTables) (hcr3 : t.cr3 = s.cr3) :
    t.currentPageDirectory = s.currentPageDirectory := by
  rw [currentPageDirectory, currentPageDirectory, hcr3, heapPage_congr h]

theorem readEntry_of_frameAt (hframe : s.frameAt p = frame) (hi : i < numEntries) :
    s.readEntry p i = .ok (s.entries frame i) := by
  rw [readEntry, if_pos hi, entry, hframe]

theorem writeEntry_of_frameAt (hframe : s.frameAt p = frame) (hi : i < numEntries) :
    s.writeEntry p i e = .ok (s.setCell (.entry frame i) e) := by
  rw [writeEntry, if_pos hi, setEntry, hframe]
  rfl

/-! ### The three targets -/

/-- The request keeps to the entries of one directory or table, or to the kernel heap. -/
def InRange (page num : Nat) (gfp : Gfp) : Prop :=
  if gfp.large then page % 1024 = 0 ∧ page / 1024 + num ≤ numEntries
  else page / 1024 < numEntries ∧ page % 1024 + num ≤ 1024

section Targets

/-- Large pages: the entries of the directory in use. -/
theorem largeTarget (h : s.currentPageDirectory = .ok dir) (huser : gfp.user = true)
    (hlarge : gfp.large = true) (hpage : page % 1024 = 0)
    (hnum : page / 1024 + num ≤ numEntries) :
    Target (fun t offset => t.writeEntry dir (page / 1024 + offset)) page num gfp
      (fun offset => .entry s.cr3 (page / 1024 + offset))
      (fun t => t.heapTables = s.heapTables ∧ t.cr3 = s.cr3) := by
  have hframe : ∀ t : Memory, t.heapTables = s.heapTables → t.frameAt dir = s.cr3 := fun t ht =>
    (frameAt_congr ht).trans (frameAt_currentPageDirectory h)
  have hpages : gfp.pages = 1024 := if_pos hlarge
  have hdiv : ∀ offset, (page + offset * 1024) / 1024 = page / 1024 + offset := by omega
  refine ⟨?_, ?_, ?_, ?_, ?_, ?_, ?_⟩
  · rintro a - b - heq
    exact Nat.add_left_cancel (Cell.entry.inj heq).2
  · rintro t offset e ⟨ht, -⟩ hlt
    exact writeEntry_of_frameAt (hframe t ht) (by omega)
  · rintro t offset e hI -
    exact hI
  · intro t idx n hI
    exact hI
  · rw [hpages, physDirSmallNum]
    rw [numEntries] at hnum
    omega
  · rintro t offset frame ⟨ht, hcr3⟩ hlt hcell
    have hi : page / 1024 + offset < numEntries := by omega
    have hentry : t.entries s.cr3 (page / 1024 + offset) = newEntry gfp frame := hcell
    rw [unmapPage, if_pos huser, hpages, hdiv, currentPageDirectory_congr ht hcr3, h]
    refine Machine.bind_eq_ok_iff.mpr ⟨_, rfl, Machine.bind_eq_ok_iff.mpr
      ⟨_, readEntry_of_frameAt (hframe t ht) hi, ?_⟩⟩
    rw [hentry, newEntry, huser, hlarge]
    exact Machine.bind_eq_ok_iff.mpr ⟨_, writeEntry_of_frameAt (hframe t ht) hi, rfl⟩
  · rintro t offset ⟨ht, hcr3⟩ hlt habsent
    have hi : page / 1024 + offset < numEntries := by omega
    have hentry : (t.entries s.cr3 (page / 1024 + offset)).present = false := habsent
    rw [unmapPage, if_pos huser, hpages, hdiv, currentPageDirectory_congr ht hcr3, h]
    refine Machine.bind_eq_ok_iff.mpr ⟨_, rfl, Machine.bind_eq_ok_iff.mpr
      ⟨_, readEntry_of_frameAt (hframe t ht) hi, ?_⟩⟩
    rw [hentry]
    rfl

/-- Small pages: the entries of a page table of the directory in use. -/
theorem smallTarget (h : s.currentPageDirectory = .ok dir) (huser : gfp.user = true)
    (hsmall : gfp.large = false) (hpage : page / 1024 < numEntries)
    (hnum : page % 1024 + num ≤ 1024) (he : s.entries s.cr3 (page / 1024) = e)
    (htable : e.isTable = true) (hapart : e.addr ≠ s.cr3) {table found : Nat}
    (hfind : s.findUserspacePageTable e = .ok found) (hsame : s.frameAt table = e.addr) :
    Target (fun t offset => t.writeEntry table (page % 1024 + offset)) page num gfp
      (fun offset => .entry e.addr (page % 1024 + offset))
      (fun t => (t.heapTables = s.heapTables ∧ t.cr3 = s.cr3) ∧
        t.entries s.cr3 (page / 1024) = s.entries s.cr3 (page / 1024)) := by
  subst he
  obtain ⟨hpresent, huser', hsize⟩ := Entry.isTable_iff.mp htable
  have hframe : ∀ t : Memory, t.heapTables = s.heapTables →
      t.frameAt table = (s.entries s.cr3 (page / 1024)).addr := fun t ht =>
    (frameAt_congr ht).trans hsame
  have hfound : ∀ t : Memory, t.heapTables = s.heapTables →
      t.frameAt found = (s.entries s.cr3 (page / 1024)).addr := fun t ht =>
    (frameAt_congr ht).trans (mapsTo_of_findUserspacePageTable hfind).frameAt
  have hroot : ∀ t : Memory, t.heapTables = s.heapTables → t.frameAt dir = s.cr3 := fun t ht =>
    (frameAt_congr ht).trans (frameAt_currentPageDirectory h)
  have hpages : gfp.pages = 1 := if_neg (by rw [hsmall]; exact Bool.false_ne_true)
  have hkeep : ∀ t : Memory, ∀ offset e,
      (t.setCell (.entry (s.entries s.cr3 (page / 1024)).addr (page % 1024 + offset)) e).entries
        s.cr3 (page / 1024) = t.entries s.cr3 (page / 1024) := by
    intro t offset e
    refine @getCell_setCell_of_ne t _ (.entry s.cr3 (page / 1024)) e ?_
    exact fun heq => hapart (Cell.entry.inj heq).1.symm
  refine ⟨?_, ?_, ?_, ?_, ?_, ?_, ?_⟩
  · rintro a - b - heq
    exact Nat.add_left_cancel (Cell.entry.inj heq).2
  · rintro t offset e ⟨⟨ht, -⟩, -⟩ hlt
    exact writeEntry_of_frameAt (hframe t ht) (by rw [numEntries]; omega)
  · rintro t offset e ⟨hI, hentry⟩ -
    exact ⟨hI, (hkeep t offset e).trans hentry⟩
  · intro t idx n hI
    exact hI
  · rw [hpages, physDirSmallNum]
    rw [numEntries] at hpage
    omega
  · rintro t offset frame ⟨⟨ht, hcr3⟩, hentry⟩ hlt hcell
    have hi : page % 1024 + offset < numEntries := by
      rw [numEntries]
      omega
    have hdiv : (page + offset * 1) / 1024 = page / 1024 := by omega
    have hmod : (page + offset * 1) % 1024 = page % 1024 + offset := by omega
    have hcell' : t.entries (s.entries s.cr3 (page / 1024)).addr (page % 1024 + offset) =
      newEntry gfp frame := hcell
    rw [unmapPage, if_pos huser, hpages, hdiv, hmod, currentPageDirectory_congr ht hcr3, h]
    refine Machine.bind_eq_ok_iff.mpr ⟨_, rfl, Machine.bind_eq_ok_iff.mpr
      ⟨_, readEntry_of_frameAt (hroot t ht) hpage, ?_⟩⟩
    rw [hentry, hpresent, huser', hsize, hsmall]
    refine Machine.bind_eq_ok_iff.mpr ⟨_, (findUserspacePageTable_congr ht).trans hfind,
      Machine.bind_eq_ok_iff.mpr ⟨_, readEntry_of_frameAt (hfound t ht) hi, ?_⟩⟩
    rw [hcell', newEntry, huser]
    exact Machine.bind_eq_ok_iff.mpr ⟨_, writeEntry_of_frameAt (hfound t ht) hi, rfl⟩
  · rintro t offset ⟨⟨ht, hcr3⟩, hentry⟩ hlt habsent
    have hi : page % 1024 + offset < numEntries := by
      rw [numEntries]
      omega
    have hdiv : (page + offset * 1) / 1024 = page / 1024 := by omega
    have hmod : (page + offset * 1) % 1024 = page % 1024 + offset := by omega
    have hcell : (t.entries (s.entries s.cr3 (page / 1024)).addr
      (page % 1024 + offset)).present = false := habsent
    rw [unmapPage, if_pos huser, hpages, hdiv, hmod, currentPageDirectory_congr ht hcr3, h]
    refine Machine.bind_eq_ok_iff.mpr ⟨_, rfl, Machine.bind_eq_ok_iff.mpr
      ⟨_, readEntry_of_frameAt (hroot t ht) hpage, ?_⟩⟩
    rw [hentry, hpresent, huser', hsize, hsmall]
    refine Machine.bind_eq_ok_iff.mpr ⟨_, (findUserspacePageTable_congr ht).trans hfind,
      Machine.bind_eq_ok_iff.mpr ⟨_, readEntry_of_frameAt (hfound t ht) hi, ?_⟩⟩
    rw [hcell]
    rfl

/-- Pages of the kernel: `heap_tables`. -/
theorem heapTarget (hkernel : gfp.user = false) (hsmall : gfp.large = false)
    (hlow : kheapAddrIdx ≤ page) (hhigh : page + num ≤ physDirSmallNum) :
    Target (fun t offset => t.writeHeap (page + offset)) page num gfp
      (fun offset => .heap (page + offset)) (fun _ => True) := by
  have hpages : gfp.pages = 1 := if_neg (by rw [hsmall]; exact Bool.false_ne_true)
  have hheap : ∀ offset < num, isHeapPage (page + offset) = true := fun offset hlt =>
    isHeapPage_iff.mpr ⟨by omega, by omega⟩
  refine ⟨?_, ?_, ?_, ?_, ?_, ?_, ?_⟩
  · rintro a - b - heq
    exact Nat.add_left_cancel (Cell.heap.inj heq)
  · rintro t offset e - hlt
    exact if_pos (hheap offset hlt)
  · exact fun _ _ _ _ _ => trivial
  · exact fun _ _ _ _ => trivial
  · rw [hpages, Nat.mul_one]
    exact hhigh
  · rintro t offset frame - hlt hcell
    have hentry : t.heapTables (page + offset) = newEntry gfp frame := hcell
    have hread : t.readHeap (page + offset) = .ok (newEntry gfp frame) :=
      (if_pos (hheap offset hlt)).trans (by rw [hentry])
    have hge : kheapAddrIdx ≤ page + offset := by omega
    rw [unmapPage, hkernel, hsmall, hpages, Nat.mul_one, if_neg Bool.false_ne_true,
      if_neg Bool.false_ne_true, if_pos hge, hread]
    refine Machine.bind_eq_ok_iff.mpr ⟨_, rfl, ?_⟩
    rw [newEntry, hkernel]
    exact Machine.bind_eq_ok_iff.mpr ⟨_, if_pos (hheap offset hlt), rfl⟩
  · rintro t offset - hlt habsent
    have hentry : (t.heapTables (page + offset)).present = false := habsent
    have hread : t.readHeap (page + offset) = .ok (t.heapTables (page + offset)) :=
      if_pos (hheap offset hlt)
    have hge : kheapAddrIdx ≤ page + offset := by omega
    rw [unmapPage, hkernel, hsmall, hpages, Nat.mul_one, if_neg Bool.false_ne_true,
      if_neg Bool.false_ne_true, if_pos hge, hread]
    refine Machine.bind_eq_ok_iff.mpr ⟨_, rfl, ?_⟩
    rw [hentry]
    rfl

end Targets
end Memory
end Paging
end JkxyKernel
