import Mathlib.Algebra.Order.Ring.Int
import Mathlib.Data.List.Range
import Mathlib.Logic.Function.Basic
import JkxyKernel.Lib.WrappedCounter

/-!
# Physical memory and page tables

The tables of `mm/paging.c`: `phys_dir` with the users of every physical page, `heap_tables`
with the pages of the kernel heap, and the page directories and page tables, which lie in
pages of that heap.

Pages and frames are given by number; a frame is a physical page of 4 KiB.  A pointer to a
page directory or a page table is the number of the kernel page it lies in, and the null
pointer is 0.  What the kernel cannot reach is left out: the bits of entries that nothing
reads, and the contents of frames that hold neither entries nor user memory.
-/

namespace JkxyKernel
namespace Paging

/-- What stops the kernel. -/
inductive Fault
  /-- `free_phys_mem` of a page that is not in use. -/
  | freeUnused
  | freeUnavailable
  | freeKernel
  | freeUser
  | freeCorrupted
  /-- `use_phys_mem` of a page that no user program has. -/
  | useUnused
  | useKernel
  /-- `find_userspace_page_table` finds nothing. -/
  | noTable
  /-- `current_page_directory` finds nothing. -/
  | noDirectory
  /-- The kernel touches a page that is not mapped. -/
  | pageFault
  /-- An index behind the end of a table. -/
  | outOfBounds
  /-- A loop that does not end. -/
  | hang
  /-- `init_page` without a memory map. -/
  | noMemoryMap
  deriving DecidableEq, Repr

/-- `struct page_directory_entry` and `struct page_table_entry`: the bits that are read, and
the two of the flags. -/
structure Entry where
  present : Bool
  rw : Bool
  user : Bool
  /-- Of a directory: the entry maps 4 MiB. -/
  size : Bool
  /-- `PAGE_COW_RO` -/
  cow : Bool
  /-- `PAGE_SHARED` -/
  shared : Bool
  addr : Nat
  deriving DecidableEq, Repr

/-- The entry `{0}`. -/
def Entry.zero : Entry where
  present := false
  rw := false
  user := false
  size := false
  cow := false
  shared := false
  addr := 0

/-- The `GFP_` flags. -/
structure Gfp where
  user : Bool := false
  large : Bool := false
  ro : Bool := false
  cons : Bool := false
  deriving DecidableEq, Repr

/-- No flags: small pages of the kernel. -/
def gfpKernel : Gfp where

/-- `GFP_USER` -/
def gfpUser : Gfp where
  user := true

/-- `GFP_USER | GFP_LARGE` -/
def gfpUserLarge : Gfp where
  user := true
  large := true

/-- The small pages of a page; `page_size` divided by that of a small one. -/
def Gfp.pages (gfp : Gfp) : Nat := if gfp.large then 1024 else 1

/-- `NUM_ENTRIES` -/
def numEntries : Nat := 1024

/-- `PHYS_DIR_LARGE_NUM` -/
def physDirLargeNum : Nat := 1024

/-- `PHYS_DIR_SMALL_NUM`: the pages of the address space. -/
def physDirSmallNum : Nat := 2 ^ 20

/-- `NUM_PREALLOCATE_LARGE` -/
def numPreallocateLarge : Nat := 3

/-- `KHEAP_ADDR_IDX` -/
def kheapAddrIdx : Nat := 0xc0400

/-- `NUM_KHEAP_PAGES` -/
def numKheapPages : Nat := 261120

def PHYS_DIR_UNUSED : Int := 0
def PHYS_DIR_KERNEL : Int := -1
def PHYS_DIR_UNAVAIL : Int := -2

/-- The entry of `phys_dir` for a page with one user. -/
def Gfp.taken (gfp : Gfp) : Int := if gfp.user then 1 else PHYS_DIR_KERNEL

/-- Where `init_page_directory` lies: in low kernel memory, which is mapped to the frames of
the same numbers. -/
def initPageDirectory : Nat := 1024

structure Memory where
  /-- `phys_dir`: first the large pages, then the small ones from the same number on. -/
  physDir : Nat → Int
  /-- `heap_tables` -/
  heapTables : Nat → Entry
  /-- What the frames with page directories and page tables hold. -/
  entries : Nat → Nat → Entry
  /-- What the frames with user memory hold. -/
  data : Nat → Nat → BitVec 8
  /-- The frame of the page directory in use. -/
  cr3 : Nat

namespace Memory

variable (s : Memory)

def setPhysDir (idx : Nat) (n : Int) : Memory :=
  { s with physDir := Function.update s.physDir idx n }

@[simp] theorem setPhysDir_self {idx : Nat} {n : Int} : (s.setPhysDir idx n).physDir idx = n := by
  simp only [setPhysDir, Function.update_self]

theorem setPhysDir_of_ne {idx i : Nat} {n : Int} (h : i ≠ idx) :
    (s.setPhysDir idx n).physDir i = s.physDir i := by
  simp only [setPhysDir, Function.update_of_ne h]

def setHeap (page : Nat) (e : Entry) : Memory :=
  { s with heapTables := Function.update s.heapTables page e }

/-- An entry of the directory or table in a frame. -/
def setFrame (frame i : Nat) (e : Entry) : Memory :=
  { s with entries := Function.update s.entries frame (Function.update (s.entries frame) i e) }

/-- `memset` of a page table to zero. -/
def clearFrame (frame : Nat) : Memory :=
  { s with entries := Function.update s.entries frame fun _ => .zero }

/-- The frame behind a pointer. -/
def frameAt (p : Nat) : Nat := if p = initPageDirectory then p else (s.heapTables p).addr

/-- Read `(*p)[i]`. -/
def entry (p i : Nat) : Entry := s.entries (s.frameAt p) i

/-- Write `(*p)[i]`. -/
def setEntry (p i : Nat) (e : Entry) : Memory := s.setFrame (s.frameAt p) i e

/-! ### Physical memory -/

/-- The values of a `uint16_t`, which counts frames. -/
def counterSize : Nat := 2 ^ 16

/-- A loop has rounds for all values of its counter and one more; if it has not ended then, it
never does. -/
def counterRounds : Nat := counterSize + 1

def orHang {α : Type} : Option α → Except Fault α
  | none => .error .hang
  | some a => .ok a

/-- The loop of `alloc_phys_mem` over the small frames of a large page: is one in use? -/
def regionBusy (idx : Nat) : Except Fault Bool :=
  orHang (WrappedCounter.scan counterSize (fun i => s.physDir i != PHYS_DIR_UNUSED)
    ((idx + 1) * 1024) counterRounds (idx * 1024 % counterSize))

/-- Does `alloc_phys_mem` take this page? -/
def isFree (gfp : Gfp) (idx : Nat) : Except Fault Bool :=
  if s.physDir idx ≠ PHYS_DIR_UNUSED then .ok false
  else if gfp.large then (s.regionBusy idx).map not
  else .ok (s.physDir (idx / 1024) == PHYS_DIR_UNUSED)

/-- The pages that `alloc_phys_mem` goes through. -/
def allocIndices (gfp : Gfp) : List Nat :=
  if gfp.large then List.range' 0 physDirLargeNum
  else List.range' physDirLargeNum (physDirSmallNum - physDirLargeNum)

/-- `alloc_phys_mem`: the frame, which is 0 if there is none. -/
def allocPhysMem (gfp : Gfp) : Except Fault (Memory × Nat) := do
  match ← (allocIndices gfp).findM? (s.isFree gfp) with
  | none => .ok (s, 0)
  | some idx =>
      .ok (s.setPhysDir idx gfp.taken, idx * gfp.pages)

/-- The bound of the loops of `alloc_phys_mem_consecutive`, a `uint32_t`. -/
def runEnd (num idx : Nat) : Nat := (idx + num) % 2 ^ 32

/-- The first loop of `alloc_phys_mem_consecutive`: are the frames free? -/
def runFree (num idx : Nat) : Except Fault Bool :=
  (orHang (WrappedCounter.scan counterSize
    (fun j => s.physDir (j / 1024) != PHYS_DIR_UNUSED || s.physDir j != PHYS_DIR_UNUSED)
    (runEnd num idx) counterRounds (idx % counterSize))).map not

/-- The second loop: they are the kernel's. -/
def takeRun (num idx : Nat) : Except Fault Memory :=
  orHang (WrappedCounter.loop counterSize (runEnd num idx)
    (fun j s => s.setPhysDir j PHYS_DIR_KERNEL) counterRounds (idx % counterSize) s)

/-- `alloc_phys_mem_consecutive`: the first frame, which is 0 if there are none. -/
def allocPhysMemConsecutive (num : Nat) (gfp : Gfp) : Except Fault (Memory × Nat) :=
  if gfp.large || gfp.user then .ok (s, 0)
  else do
    match ← (allocIndices gfp).findM? (s.runFree num) with
    | none => .ok (s, 0)
    | some idx => do
        let s ← s.takeRun num idx
        .ok (s, idx)

/-- `free_phys_mem` -/
def freePhysMem (frame : Nat) (gfp : Gfp) : Except Fault Memory :=
  let idx := frame / gfp.pages
  if s.physDir idx = PHYS_DIR_UNUSED then .error .freeUnused
  else if s.physDir idx = PHYS_DIR_UNAVAIL then .error .freeUnavailable
  else if s.physDir idx = PHYS_DIR_KERNEL then
    if gfp.user then .error .freeKernel else .ok (s.setPhysDir idx PHYS_DIR_UNUSED)
  else if 0 < s.physDir idx then
    if gfp.user then .ok (s.setPhysDir idx (s.physDir idx - 1)) else .error .freeUser
  else .error .freeCorrupted

/-- `use_phys_mem`; the count has 16 bits. -/
def usePhysMem (frame : Nat) (gfp : Gfp) : Except Fault Memory :=
  let idx := frame / gfp.pages
  if s.physDir idx ≤ 0 then .error .useUnused
  else if !gfp.user then .error .useKernel
  else .ok (s.setPhysDir idx ((s.physDir idx + 1).bmod (2 ^ 16)))

/-! ### Directories in use -/

/-- The first page of the kernel heap that is mapped to a frame. -/
def heapPage (frame : Nat) : Option Nat :=
  (List.range' kheapAddrIdx numKheapPages).find? fun i =>
    (s.heapTables i).present && (s.heapTables i).addr == frame

/-- `find_userspace_page_table` -/
def findUserspacePageTable (e : Entry) : Except Fault Nat :=
  match s.heapPage e.addr with
  | none => .error .noTable
  | some table => .ok table

/-- `current_page_directory` -/
def currentPageDirectory : Except Fault Nat :=
  if s.cr3 = initPageDirectory then .ok initPageDirectory
  else
    match s.heapPage s.cr3 with
    | none => .error .noDirectory
    | some dir => .ok dir

/-- `switch_directory` -/
def switchDirectory (dir : Nat) : Memory := { s with cr3 := s.frameAt dir }

/-- The frame behind a page of user memory in the directory in use; neither `rw` nor `user`
of the page stops the kernel. -/
def translate (page : Nat) : Except Fault Nat :=
  let e := s.entries s.cr3 (page / 1024)
  if !e.present || !e.user then .error .pageFault
  else if e.size then .ok (e.addr + page % 1024)
  else if (s.entries e.addr (page % 1024)).present then
    .ok (s.entries e.addr (page % 1024)).addr
  else .error .pageFault

/-- `memset` of whole pages of user memory to zero. -/
def clearPages : Nat → Nat → Memory → Except Fault Memory
  | 0, _, s => .ok s
  | left + 1, page, s => do
      let frame ← s.translate page
      clearPages left (page + 1) { s with data := Function.update s.data frame fun _ => 0 }

/-- `memcpy` of whole pages of user memory. -/
def copyPages : Nat → Nat → Nat → Memory → Except Fault Memory
  | 0, _, _, s => .ok s
  | left + 1, dst, src, s => do
      let source ← s.translate src
      let target ← s.translate dst
      copyPages left (dst + 1) (src + 1)
        { s with data := Function.update s.data target (s.data source) }

end Memory
end Paging
end JkxyKernel
