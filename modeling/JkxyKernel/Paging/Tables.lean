import JkxyKernel.Paging.Pages

/-!
# Finding directories and tables

A directory or a table is given by the frame it lies in, and is found again through the page of
the kernel heap that is mapped to this frame.
-/

namespace JkxyKernel
namespace Paging

/-- The entry maps 4 MiB for user programs. -/
def Entry.isLarge (e : Entry) : Bool := e.present && e.user && e.size

/-- The entry leads to a page table for user programs. -/
def Entry.isTable (e : Entry) : Bool := e.present && e.user && !e.size

theorem Entry.isTable_iff {e : Entry} :
    e.isTable = true ↔ e.present = true ∧ e.user = true ∧ e.size = false := by
  rw [isTable, Bool.and_eq_true, Bool.and_eq_true, Bool.not_eq_true', and_assoc]

theorem Entry.isLarge_iff {e : Entry} :
    e.isLarge = true ↔ e.present = true ∧ e.user = true ∧ e.size = true := by
  rw [isLarge, Bool.and_eq_true, Bool.and_eq_true, and_assoc]

namespace Memory

variable {s : Memory} {p dir table frame : Nat} {e : Entry}

theorem isHeapPage_iff : isHeapPage p = true ↔ kheapAddrIdx ≤ p ∧ p < physDirSmallNum := by
  rw [isHeapPage, Bool.and_eq_true, decide_eq_true_iff, decide_eq_true_iff]
  exact Iff.rfl

/-- A page of the kernel heap that is mapped to a frame. -/
structure MapsTo (s : Memory) (p frame : Nat) : Prop where
  inHeap : isHeapPage p = true
  present : (s.heapTables p).present = true
  addr : (s.heapTables p).addr = frame

theorem frameAt_of_isHeapPage (h : isHeapPage p = true) : s.frameAt p = (s.heapTables p).addr := by
  refine if_neg ?_
  rintro rfl
  exact absurd h (by decide)

theorem MapsTo.frameAt (h : s.MapsTo p frame) : s.frameAt p = frame :=
  (frameAt_of_isHeapPage h.inHeap).trans h.addr

theorem mapsTo_of_heapPage (h : s.heapPage frame = some p) : s.MapsTo p frame := by
  rw [heapPage] at h
  have hmem := List.mem_range'_1.mp (List.mem_of_find?_eq_some h)
  have hfound := List.find?_some h
  obtain ⟨hpresent, haddr⟩ := Bool.and_eq_true_iff.mp hfound
  exact ⟨isHeapPage_iff.mpr hmem, hpresent, beq_iff_eq.mp haddr⟩

theorem heapPage_of_mapsTo (h : s.MapsTo p frame) : ∃ q, s.heapPage frame = some q := by
  cases hfound : s.heapPage frame with
  | some q => exact ⟨q, rfl⟩
  | none =>
      have hrange := isHeapPage_iff.mp h.inHeap
      rw [heapPage] at hfound
      have hnot := List.find?_eq_none.mp hfound p (List.mem_range'_1.mpr hrange)
      exact absurd (Bool.and_eq_true_iff.mpr ⟨h.present, beq_iff_eq.mpr h.addr⟩) hnot

theorem mapsTo_of_findUserspacePageTable (h : s.findUserspacePageTable e = .ok table) :
    s.MapsTo table e.addr := by
  rw [findUserspacePageTable] at h
  split at h
  next => cases h
  next hfound =>
    cases h
    exact mapsTo_of_heapPage hfound

theorem findUserspacePageTable_of_mapsTo (h : s.MapsTo p e.addr) :
    ∃ table, s.findUserspacePageTable e = .ok table := by
  obtain ⟨q, hq⟩ := heapPage_of_mapsTo h
  exact ⟨q, by rw [findUserspacePageTable, hq]⟩

/-- The directory in use lies in the frame that the processor has. -/
theorem frameAt_currentPageDirectory (h : s.currentPageDirectory = .ok dir) :
    s.frameAt dir = s.cr3 := by
  rw [currentPageDirectory] at h
  split at h
  next hinit =>
    cases h
    exact (if_pos rfl).trans hinit.symm
  next =>
    split at h
    next => cases h
    next hfound =>
      cases h
      exact (mapsTo_of_heapPage hfound).frameAt

/-- The directory in use, all page tables of which can be found. -/
structure InUse (s : Memory) (dir : Nat) : Prop where
  current : s.currentPageDirectory = .ok dir
  tables : ∀ i < numEntries, (s.entries s.cr3 i).isTable = true →
    ∃ p, s.MapsTo p (s.entries s.cr3 i).addr

theorem InUse.entry (h : s.InUse dir) {i : Nat} : s.entry dir i = s.entries s.cr3 i := by
  rw [Memory.entry, frameAt_currentPageDirectory h.current]

/-- The page table of an entry of the directory in use. -/
theorem InUse.find (h : s.InUse dir) {i : Nat} (hi : i < numEntries)
    (ht : (s.entries s.cr3 i).isTable = true) :
    ∃ table, s.findUserspacePageTable (s.entries s.cr3 i) = .ok table ∧
      s.frameAt table = (s.entries s.cr3 i).addr := by
  obtain ⟨p, hp⟩ := h.tables i hi ht
  obtain ⟨table, htable⟩ := findUserspacePageTable_of_mapsTo hp
  exact ⟨table, htable, (mapsTo_of_findUserspacePageTable htable).frameAt⟩

end Memory
end Paging
end JkxyKernel
