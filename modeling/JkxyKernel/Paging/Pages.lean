import JkxyKernel.Paging.Frames

/-!
# Mapping pages

`request_pages`, `alloc_pages` and `free_pages`.  Pages of user programs are entered into
the page directory in use, and a page table is made for them if there is none; pages of the
kernel heap are entered into `heap_tables`.

A directory or a table has 1024 entries, and `heap_tables` is used for the pages of the heap;
an access with any other index is a fault.
-/

namespace JkxyKernel
namespace Paging
namespace Memory

variable (s : Memory)

/-! ### Entries -/

/-- Read `(*p)[i]`. -/
def readEntry (p i : Nat) : Except Fault Entry :=
  if i < numEntries then .ok (s.entry p i) else .error .outOfBounds

/-- Write `(*p)[i]`. -/
def writeEntry (p i : Nat) (e : Entry) : Except Fault Memory :=
  if i < numEntries then .ok (s.setEntry p i e) else .error .outOfBounds

/-- A page of the kernel heap. -/
def isHeapPage (page : Nat) : Bool := kheapAddrIdx ≤ page && page < kheapAddrIdx + numKheapPages

/-- Read `heap_tables[page]`. -/
def readHeap (page : Nat) : Except Fault Entry :=
  if isHeapPage page then .ok (s.heapTables page) else .error .outOfBounds

/-- Write `heap_tables[page]`. -/
def writeHeap (page : Nat) (e : Entry) : Except Fault Memory :=
  if isHeapPage page then .ok (s.setHeap page e) else .error .outOfBounds

/-! ### Freeing -/

/-- `free_one_page` up to `free_phys_mem`: the entry is cleared, and the frame is what it
had, or 0. -/
def unmapPage (page : Nat) (gfp : Gfp) : Except Fault (Memory × Nat) :=
  if gfp.user then do
    let dir ← s.currentPageDirectory
    let e ← s.readEntry dir (page / 1024)
    if e.present && e.user then
      if gfp.large && e.size then do
        let s ← s.writeEntry dir (page / 1024) .zero
        .ok (s, e.addr)
      else if !e.size then do
        let table ← s.findUserspacePageTable e
        let te ← s.readEntry table (page % 1024)
        if te.present && te.user then do
          let s ← s.writeEntry table (page % 1024) .zero
          .ok (s, te.addr)
        else .ok (s, 0)
      else .ok (s, 0)
    else .ok (s, 0)
  else if gfp.large then .ok (s, 0)
  else if kheapAddrIdx ≤ page then do
    let te ← s.readHeap page
    if te.present && !te.user then do
      let s ← s.writeHeap page .zero
      .ok (s, te.addr)
    else .ok (s, 0)
  else .ok (s, 0)

/-- `free_one_page` -/
def freeOnePage (page : Nat) (gfp : Gfp) : Except Fault Memory := do
  let (s, phys) ← s.unmapPage page gfp
  if phys = 0 then .ok s else s.freePhysMem phys gfp

/-- `free_pages` -/
def freePages : Nat → Nat → Gfp → Memory → Except Fault Memory
  | _, 0, _, s => .ok s
  | page, num + 1, gfp, s => do
      let s ← s.freeOnePage page gfp
      freePages ((page + gfp.pages) % physDirSmallNum) num gfp s

/-! ### Requesting pages -/

/-- How the mapping of the pages comes out. -/
inductive Outcome
  | done
  /-- `err_nofree` -/
  | refused
  /-- `err`, with the pages that are to be undone -/
  | failed (offset : Nat)
  deriving DecidableEq, Repr

/-- The entry of a new page. -/
def newEntry (gfp : Gfp) (frame : Nat) : Entry where
  present := true
  rw := !gfp.ro
  user := gfp.user
  size := gfp.large
  cow := false
  shared := false
  addr := frame

/-- Is one of these entries present? -/
def anyPresent (get : Nat → Except Fault Entry) : Nat → Nat → Except Fault Bool
  | 0, _ => .ok false
  | left + 1, i => do
      let e ← get i
      if e.present then .ok true else anyPresent get left (i + 1)

/-- The loops that map a page after the other. -/
def mapPages (put : Memory → Nat → Entry → Except Fault Memory) (gfp : Gfp) :
    Nat → Nat → Memory → Except Fault (Memory × Outcome)
  | 0, _, s => .ok (s, .done)
  | left + 1, offset, s => do
      let (s, frame) ← s.allocPhysMem gfp
      if frame = 0 then .ok (s, .failed offset)
      else do
        let s ← put s offset (newEntry gfp frame)
        mapPages put gfp left (offset + 1) s

/-- The loop that maps the frames of a run. -/
def mapConsecutive (page : Nat) (gfp : Gfp) (frame : Nat) :
    Nat → Nat → Memory → Except Fault Memory
  | 0, _, s => .ok s
  | left + 1, offset, s => do
      let s ← s.writeHeap (page + offset) (newEntry gfp (frame + offset))
      mapConsecutive page gfp frame left (offset + 1) s

/-- `request_pages` for the kernel heap. -/
def requestHeap (page num : Nat) (gfp : Gfp) : Except Fault (Memory × Outcome) :=
  if gfp.large || page < kheapAddrIdx then .ok (s, .refused)
  else do
    if ← anyPresent s.readHeap num page then .ok (s, .refused)
    else if gfp.cons then do
      let (s, frame) ← s.allocPhysMemConsecutive num gfp
      if frame = 0 then .ok (s, .failed num)
      else do
        let s ← mapConsecutive page gfp frame num 0 s
        .ok (s, .done)
    else mapPages (fun s offset => s.writeHeap (page + offset)) gfp num 0 s

/-- `request_pages` for large pages of a user program. -/
def requestLarge (dir page num : Nat) (gfp : Gfp) : Except Fault (Memory × Outcome) := do
  if ← anyPresent (s.readEntry dir) num (page / 1024) then .ok (s, .refused)
  else mapPages (fun s offset => s.writeEntry dir (page / 1024 + offset)) gfp num 0 s

/-- `request_pages` from the outcome on: the first page, or 0.  Pages of a user program are
cleared, in a number of bytes that has 32 bits. -/
def finishRequest (page num : Nat) (gfp : Gfp) : Outcome → Except Fault (Memory × Nat)
  | .refused => .ok (s, 0)
  | .failed offset => do
      let s ← freePages page offset gfp s
      .ok (s, 0)
  | .done =>
      if page ≠ 0 ∧ gfp.user then do
        let s ← clearPages (num * gfp.pages % physDirSmallNum) page s
        .ok (s, page)
      else .ok (s, page)

/-- `sanity check`: does the request keep to one table, or to the directory?  The bytes of the
pages are counted with 32 bits. -/
def requestFits (page num : Nat) (gfp : Gfp) : Bool :=
  if gfp.large then page % 1024 = 0 && num ≤ numEntries
  else page / 1024 = (page + num) % physDirSmallNum / 1024

/-- `request_pages` of the kernel heap, and of the null pointer for what does not fit. -/
def requestKernelPages (page num : Nat) (gfp : Gfp) : Except Fault (Memory × Nat) :=
  if !requestFits page num gfp then .ok (s, 0)
  else do
    let (s, outcome) ← s.requestHeap page num gfp
    s.finishRequest page num gfp outcome

/-! ### Allocating pages -/

/-- The loops of `alloc_pages` over `start`, where `page` says which page is requested. -/
def allocLoop (request : Memory → Nat → Except Fault (Memory × Nat)) (stop step : Nat)
    (page : Nat → Nat) : Nat → Nat → Memory → Except Fault (Memory × Nat)
  | 0, _, _ => .error .hang
  | rounds + 1, start, s =>
      if start ≤ stop then do
        let (s, ret) ← request s (page start)
        if ret ≠ 0 then .ok (s, ret)
        else allocLoop request stop step page rounds ((start + step) % 2 ^ 32) s
      else .ok (s, 0)

/-- A loop over 32-bit numbers that has not ended in so many rounds never does. -/
def allocRounds : Nat := 2 ^ 32 + 1

/-- `alloc_pages` of the kernel heap. -/
def allocKernelPages (num align : Nat) (gfp : Gfp) : Except Fault (Memory × Nat) :=
  if numEntries < 2 ^ align || gfp.large || kheapAddrIdx % 2 ^ align ≠ 0 then .ok (s, 0)
  else
    allocLoop (fun s page => s.requestKernelPages page num gfp)
      ((kheapAddrIdx + numKheapPages + 2 ^ 32 - num) % 2 ^ 32) (2 ^ align)
      (fun start => start % physDirSmallNum) allocRounds kheapAddrIdx s

/-- `mk_user_table`: the table, which is 0 if there is no memory. -/
def mkUserTable (dir i : Nat) : Except Fault (Memory × Nat) := do
  let (s, table) ← s.allocKernelPages 1 0 gfpKernel
  if table = 0 then .ok (s, 0)
  else
    let s := s.clearFrame (s.frameAt table)
    .ok (s.setEntry dir i (newEntry gfpUser (s.frameAt table)), table)

/-- `request_pages` for small pages of a user program. -/
def requestSmall (dir page num : Nat) (gfp : Gfp) : Except Fault (Memory × Outcome) := do
  let e ← s.readEntry dir (page / 1024)
  if e.present then
    if !e.user then .ok (s, .refused)
    else do
      let table ← s.findUserspacePageTable e
      if ← anyPresent (s.readEntry table) num (page % 1024) then .ok (s, .refused)
      else mapPages (fun s offset => s.writeEntry table (page % 1024 + offset)) gfp num 0 s
  else do
    let (s, table) ← s.mkUserTable dir (page / 1024)
    if table = 0 then .ok (s, .refused)
    else mapPages (fun s offset => s.writeEntry table (page % 1024 + offset)) gfp num 0 s

/-- `request_pages` for user programs. -/
def requestUserPages (page num : Nat) (gfp : Gfp) : Except Fault (Memory × Nat) :=
  if !requestFits page num gfp then .ok (s, 0)
  else do
    let dir ← s.currentPageDirectory
    let (s, outcome) ←
      if gfp.large then s.requestLarge dir page num gfp else s.requestSmall dir page num gfp
    s.finishRequest page num gfp outcome

/-- `request_pages` -/
def requestPages (page num : Nat) (gfp : Gfp) : Except Fault (Memory × Nat) :=
  if gfp.user then s.requestUserPages page num gfp else s.requestKernelPages page num gfp

/-- The loop of `alloc_pages` over `bigstart`, for small pages of a user program. -/
def allocUserLoop (num align : Nat) (gfp : Gfp) :
    List Nat → Memory → Except Fault (Memory × Nat)
  | [], s => .ok (s, 0)
  | bigstart :: rest, s => do
      let (s, ret) ← allocLoop (fun s page => s.requestPages page num gfp)
        ((numEntries + 2 ^ 32 - num) % 2 ^ 32) (2 ^ align)
        (fun start => (bigstart * 1024 + start) % physDirSmallNum) allocRounds 0 s
      if ret ≠ 0 then .ok (s, ret) else allocUserLoop num align gfp rest s

/-- `alloc_pages` -/
def allocPages (num align : Nat) (gfp : Gfp) : Except Fault (Memory × Nat) :=
  if !gfp.user then s.allocKernelPages num align gfp
  else if numEntries < 2 ^ align then .ok (s, 0)
  else if gfp.large then
    allocLoop (fun s page => s.requestPages page num gfp) ((numEntries + 2 ^ 32 - num) % 2 ^ 32)
      (2 ^ align) (fun start => start * 1024 % physDirSmallNum) allocRounds 0 s
  else
    allocUserLoop num align gfp
      (List.range' numPreallocateLarge (numEntries - numPreallocateLarge)) s

end Memory
end Paging
end JkxyKernel
