import JkxyKernel.Paging.Pages

/-!
# Address spaces

A page directory is cloned with its page tables, and what was writable becomes read-only in
both: it is copied when one of them writes to it.  The user counts of the frames say whether
a copy is needed.
-/

namespace JkxyKernel
namespace Paging

/-- What cloning makes of an entry, in the clone and in the original. -/
def Entry.cloned (e : Entry) : Entry :=
  if e.rw && !e.shared then { e with rw := false, cow := true } else e

namespace Memory

variable (s : Memory)

/-! ### Cloning -/

/-- The loop of `clone_directory` over a page table; `dstTable` is 0 until it is needed. -/
def cloneTable (table dst i : Nat) : List Nat → Nat → Memory → Except Fault Memory
  | [], _, s => .ok s
  | j :: rest, dstTable, s =>
      if (s.entry table j).present then do
        let (s, dstTable) ← if dstTable = 0 then s.mkUserTable dst i else .ok (s, dstTable)
        if dstTable = 0 then .error .pageFault
        else do
          let te := s.entry table j
          let s := (s.setEntry dstTable j te.cloned).setEntry table j te.cloned
          let s ← s.usePhysMem te.addr gfpUser
          cloneTable table dst i rest dstTable s
      else cloneTable table dst i rest dstTable s

/-- One round of `clone_directory`. -/
def cloneEntry (src dst i : Nat) : Except Fault Memory :=
  let e := s.entry src i
  if !e.present then .ok (s.setEntry dst i .zero)
  else if !e.user then .ok (s.setEntry dst i e)
  else if e.size then
    ((s.setEntry dst i e.cloned).setEntry src i e.cloned).usePhysMem e.addr gfpUserLarge
  else do
    let s := s.setEntry dst i .zero
    let table ← s.findUserspacePageTable e
    cloneTable table dst i (List.range numEntries) 0 s

/-- The loop of `clone_directory`. -/
def cloneEntries (src dst : Nat) : List Nat → Memory → Except Fault Memory
  | [], s => .ok s
  | i :: rest, s => do
      let s ← s.cloneEntry src dst i
      cloneEntries src dst rest s

/-- `clone_directory`; without memory for the directory it writes through the null
pointer. -/
def cloneDirectory (src : Nat) : Except Fault (Memory × Nat) := do
  let (s, dst) ← s.allocPages 1 0 gfpKernel
  if dst = 0 then .error .pageFault
  else do
    let s ← cloneEntries src dst (List.range numEntries) s
    .ok (s, dst)

/-! ### Copy on write -/

def modEntry (p i : Nat) (f : Entry → Entry) : Memory := s.setEntry p i (f (s.entry p i))

/-- The second half of `_clone_cow`: entry `i` of a directory or table, which maps `page`, is
made writable, and if others have its frame it gets one of its own.  Without memory for the
copy it is written through the null pointer. -/
def unshare (p i page : Nat) (gfp : Gfp) : Except Fault (Memory × Bool) :=
  let old := (s.entry p i).addr
  let s := s.modEntry p i fun e => { e with rw := true, cow := false }
  if 1 < s.physDir (old / gfp.pages) then do
    let (s, physaddr) ← s.allocPhysMem gfp
    if physaddr = 0 then .ok (s, false)
    else do
      let (s, tempmem) ← s.allocPages 1 0 gfp
      if tempmem = 0 then .error .pageFault
      else do
        let addr := page / gfp.pages * gfp.pages
        let s ← copyPages gfp.pages tempmem addr s
        let s := s.modEntry p i fun e => { e with addr := physaddr }
        let s ← copyPages gfp.pages addr tempmem s
        let s ← s.freePhysMem old gfp
        let s ← freePages tempmem 1 gfp s
        .ok (s, true)
  else .ok (s, true)

/-- `_clone_cow` -/
def cloneCowIn (dir page : Nat) : Except Fault (Memory × Bool) :=
  let e := s.entry dir (page / 1024)
  if !e.present || !e.user then .ok (s, false)
  else if e.size then
    if e.rw || !e.cow then .ok (s, false)
    else s.unshare dir (page / 1024) page gfpUserLarge
  else do
    let table ← s.findUserspacePageTable e
    let te := s.entry table (page % 1024)
    if !te.present || !te.user then .ok (s, false)
    else if te.rw || !te.cow then .ok (s, false)
    else s.unshare table (page % 1024) page gfpUser

/-- `clone_cow` -/
def cloneCow (page : Nat) : Except Fault (Memory × Bool) := do
  let dir ← s.currentPageDirectory
  s.cloneCowIn dir page

/-! ### Freeing -/

/-- The loop of `free_directory` over a page table. -/
def freeTable (table : Nat) : List Nat → Memory → Except Fault Memory
  | [], s => .ok s
  | j :: rest, s =>
      if (s.entry table j).present then do
        let s ← s.freePhysMem (s.entry table j).addr gfpUser
        freeTable table rest s
      else freeTable table rest s

/-- One round of `free_directory`. -/
def freeEntry (dir i : Nat) : Except Fault Memory :=
  let e := s.entry dir i
  if !e.present || !e.user then .ok s
  else if e.size then s.freePhysMem e.addr gfpUserLarge
  else do
    let table ← s.findUserspacePageTable e
    let s ← freeTable table (List.range numEntries) s
    freePages table 1 gfpKernel s

/-- The loop of `free_directory`. -/
def freeEntries (dir : Nat) : List Nat → Memory → Except Fault Memory
  | [], s => .ok s
  | i :: rest, s => do
      let s ← s.freeEntry dir i
      freeEntries dir rest s

/-- `free_directory` -/
def freeDirectory (dir : Nat) : Except Fault Memory := do
  let current ← s.currentPageDirectory
  let back := if dir = current then initPageDirectory else current
  let s ← freeEntries dir (List.range numEntries) (s.switchDirectory dir)
  freePages dir 1 gfpKernel (s.switchDirectory back)

end Memory
end Paging
end JkxyKernel
