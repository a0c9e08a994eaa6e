import JkxyKernel.Paging.Liballoc

/-!
# Blocks of the heap allocator

`kmalloc` gets pages from the kernel in blocks.  A block begins with a header, and so does each
allocation in it; they are linked in the order of their addresses, and are lists here.  A pointer
that is returned is aligned, and the byte 16 bytes before it says how far it is from the header.

`kmalloc` goes through the blocks, from the one that seems to have most room, and takes the first
gap that is wide enough.  What the callers keep in their memory is in `bytes`.
-/

namespace JkxyKernel
namespace Kmalloc

open Paging (Memory Fault LiballocMajor sizeofMajor sizeofMinor)

/-- `ALIGN`: the aligned pointer, and what is left in front of it. -/
def align (ptr : BitVec 32) : BitVec 32 × BitVec 8 :=
  let ptr := ptr + 16
  let diff := ptr &&& 15
  let diff := if diff ≠ 0 then 16 - diff else diff
  (ptr + diff, (diff + 16).setWidth 8)

/-- `UNALIGN` -/
def unalign (ptr : BitVec 32) (info : BitVec 8) : BitVec 32 :=
  let diff := info.signExtend 32
  if diff < 32 then ptr - diff else ptr

/-- `struct liballoc_minor`, and the byte in front of its pointer. -/
structure Minor where
  addr : BitVec 32
  size : BitVec 32
  reqSize : BitVec 32
  info : BitVec 8
  deriving DecidableEq, Repr

/-- A new header. -/
def newMinor (addr size reqSize : BitVec 32) : Minor :=
  ⟨addr, size, reqSize, (align (addr + sizeofMinor)).2⟩

/-- What `kmalloc` returns. -/
def Minor.pointer (min : Minor) : BitVec 32 := (align (min.addr + sizeofMinor)).1

/-- `struct liballoc_major`, with its minors. -/
structure Major extends LiballocMajor where
  minors : List Minor
  deriving DecidableEq, Repr

namespace Major

variable (maj : Major) (size reqSize : BitVec 32)

def addr : BitVec 32 := BitVec.ofNat 32 (maj.page * 4096)

/-- Another allocation is in the block. -/
def use (minors : List Minor) : Major :=
  { maj with usage := maj.usage + (size + sizeofMinor), minors := minors }

/-- An allocation is taken out of the block. -/
def without (min : Minor) : Major :=
  { maj with usage := maj.usage - (min.size + sizeofMinor), minors := maj.minors.erase min }

/-- Another size of the request is in a header of the block. -/
def resize (min : Minor) : Major :=
  { maj with minors := maj.minors.map fun min' =>
      if min'.addr = min.addr then { min' with reqSize := reqSize } else min' }

/-- CASE 2 and CASE 3: the first allocation of the block. -/
def front : Major × Minor :=
  let min := newMinor (maj.addr + sizeofMajor) size reqSize
  (maj.use size (min :: maj.minors), min)

/-- CASE 4: the end of the block, and between two allocations. -/
def walk : List Minor → Option (List Minor × Minor)
  | [] => none
  | [min] =>
      let diff := maj.addr + maj.size - min.addr - sizeofMinor - min.size
      let new := newMinor (min.addr + sizeofMinor + min.size) size reqSize
      if size + sizeofMinor ≤ diff then some ([min, new], new) else none
  | min :: next :: rest =>
      let diff := next.addr - min.addr - sizeofMinor - min.size
      let new := newMinor (min.addr + sizeofMinor + min.size) size reqSize
      if size + sizeofMinor ≤ diff then some (min :: new :: next :: rest, new)
      else (walk (next :: rest)).map fun r => (min :: r.1, r.2)

/-- CASE 2 to CASE 4 -/
def place : Option (Major × Minor) :=
  match maj.minors with
  | [] => some (maj.front size reqSize)
  | first :: _ =>
      let diff := first.addr - maj.addr - sizeofMajor
      if size + sizeofMinor ≤ diff then some (maj.front size reqSize)
      else (maj.walk size reqSize maj.minors).map fun r => (maj.use size r.1, r.2)

end Major

/-- The state of the allocator, and the pages of the kernel. -/
structure Heap where
  mem : Memory
  /-- From `l_memRoot` on. -/
  majors : List Major
  /-- The page of `l_bestBet`. -/
  bestBet : Option Nat
  /-- `l_allocated` -/
  allocated : BitVec 32
  /-- `l_inuse` -/
  inuse : BitVec 32
  /-- `l_warningCount` -/
  warningCount : BitVec 32
  bytes : BitVec 32 → BitVec 8

namespace Heap

variable (h : Heap)

/-- All allocations. -/
def minors : List Minor := h.majors.flatMap Major.minors

/-- What is stored through a pointer to a block. -/
def store (maj : Major) : Heap :=
  { h with majors := h.majors.map fun maj' => if maj'.page = maj.page then maj else maj' }

/-- `allocate_new_page`; the block is the last one. -/
def grow (size : BitVec 32) : Except Fault (Heap × Option Major) := do
  match ← h.mem.allocateNewPage size with
  | (mem, none) => .ok ({ h with mem := mem, warningCount := h.warningCount + 1 }, none)
  | (mem, some maj) =>
      let maj : Major := { maj with minors := [] }
      .ok ({ h with mem := mem, majors := h.majors ++ [maj], allocated := h.allocated + maj.size },
        some maj)

/-- An allocation has been placed. -/
def settle (size : BitVec 32) (r : Major × Minor) : Heap × BitVec 32 :=
  ({ h.store r.1 with inuse := h.inuse + size }, r.2.pointer)

/-- A block may become the best bet. -/
def bet (maj : Major) (bestSize : BitVec 32) : Heap × BitVec 32 :=
  let diff := maj.size - maj.usage
  if bestSize < diff then ({ h with bestBet := some maj.page }, diff) else (h, bestSize)

/-- The loop over the blocks, from one of them, for a number of rounds. -/
def kmallocLoop (size reqSize : BitVec 32) :
    Nat → Heap → Nat → Bool → BitVec 32 → Except Fault (Heap × BitVec 32)
  | 0, _, _, _, _ => .error .hang
  | rounds + 1, h, i, startedBet, bestSize =>
      match h.majors[i]? with
      | none => .ok (h, 0)
      | some maj =>
          let (h, bestSize) := h.bet maj bestSize
          if maj.size - maj.usage < size + sizeofMinor then
            -- CASE 1
            if i + 1 < h.majors.length then
              kmallocLoop size reqSize rounds h (i + 1) startedBet bestSize
            else if startedBet then kmallocLoop size reqSize rounds h 0 false bestSize
            else do
              match ← h.grow size with
              | (h, none) => .ok (h, 0)
              | (h, some maj) => .ok (h.settle size (maj.front size reqSize))
          else
            match maj.place size reqSize with
            | some r => .ok (h.settle size r)
            | none =>
                -- CASE 5
                if i + 1 < h.majors.length then
                  kmallocLoop size reqSize rounds h (i + 1) startedBet bestSize
                else if startedBet then kmallocLoop size reqSize rounds h 0 false bestSize
                else do
                  match ← h.grow size with
                  | (h, none) => .ok (h, 0)
                  | (h, some _) => kmallocLoop size reqSize rounds h (i + 1) startedBet bestSize

/-- Where the loop starts: at the best bet, if it has enough room. -/
def startAt (size : BitVec 32) : Except Fault (Nat × Bool × BitVec 32) :=
  match h.bestBet with
  | none => .ok (0, false, 0)
  | some page =>
      match h.majors.findIdx? fun maj => maj.page = page,
        h.majors.find? fun maj => maj.page = page with
      | some i, some maj =>
          let bestSize := maj.size - maj.usage
          if size + sizeofMinor < bestSize then .ok (i, true, bestSize)
          else .ok (0, false, bestSize)
      | _, _ => .error .pageFault

/-- `kmalloc`, of a size that is not 0 with the room for the alignment. -/
def kmallocOf (reqSize : BitVec 32) : Except Fault (Heap × BitVec 32) := do
  let size := reqSize + 32
  let (h, root) ← if h.majors = [] then h.grow size else .ok (h, h.majors.head?)
  if root.isNone then .ok (h, 0)
  else do
    let (i, startedBet, bestSize) ← h.startAt size
    kmallocLoop size reqSize (2 * h.majors.length + 1) h i startedBet bestSize

/-- `kmalloc` -/
def kmalloc (reqSize : BitVec 32) : Except Fault (Heap × BitVec 32) :=
  if reqSize + 32 = 0 then kmallocOf { h with warningCount := h.warningCount + 1 } 1
  else h.kmallocOf reqSize

/-- The header behind a pointer: the byte in front of the pointer says where it is.  What is read
in front of another pointer is not the allocator's. -/
def header (ptr : BitVec 32) : Except Fault (Major × Minor) :=
  match h.minors.find? fun min => min.pointer = ptr with
  | none => .error .pageFault
  | some min =>
      let addr := unalign ptr min.info - sizeofMinor
      match h.majors.findSome? fun maj =>
          (maj.minors.find? fun min => min.addr = addr).map fun min => (maj, min) with
      | none => .error .pageFault
      | some r => .ok r

/-- A block with more room than the best bet becomes the best bet. -/
def rebet (maj : Major) : Except Fault Heap :=
  match h.bestBet with
  | none => .ok h
  | some page =>
      match h.majors.find? fun maj => maj.page = page with
      | none => .error .pageFault
      | some best =>
          if (best.size - best.usage).slt (maj.size - maj.usage) then
            .ok { h with bestBet := some maj.page }
          else .ok h

/-- The end of `kfree`: the block goes with its last allocation. -/
def release (maj : Major) (min : Minor) : Except Fault Heap := do
  let maj := maj.without min
  let h := { h with inuse := h.inuse - min.size }
  if maj.minors = [] then do
    let mem ← h.mem.liballocFree maj.page (maj.pages.setWidth 16)
    .ok { h with
      mem := mem
      majors := h.majors.filter fun maj' => maj'.page ≠ maj.page
      bestBet := if h.bestBet = some maj.page then none else h.bestBet
      allocated := h.allocated - maj.size }
  else (h.store maj).rebet maj

/-- `kfree` -/
def kfree (ptr : BitVec 32) : Except Fault Heap := do
  if ptr = 0 then .ok { h with warningCount := h.warningCount + 1 }
  else do
    let (maj, min) ← h.header ptr
    h.release maj min

/-- So many bytes are copied at once. -/
def copyUnit (s1 s2 : BitVec 32) (width : Nat) (bytes : BitVec 32 → BitVec 8) :
    BitVec 32 → BitVec 8 :=
  fun a => if (a - s1).toNat < width then bytes (s2 + (a - s1)) else bytes a

/-- The loops of `liballoc_memcpy`: words, then bytes. -/
def copyLoop (s1 s2 : BitVec 32) : Nat → (BitVec 32 → BitVec 8) → BitVec 32 → BitVec 8
  | n + 4, bytes => copyLoop (s1 + 4) (s2 + 4) n (copyUnit s1 s2 4 bytes)
  | n + 1, bytes => copyLoop (s1 + 1) (s2 + 1) n (copyUnit s1 s2 1 bytes)
  | 0, bytes => bytes

/-- `liballoc_memcpy`, which faults at the null pointer. -/
def liballocMemcpy (s1 s2 : BitVec 32) (n : BitVec 32) : Except Fault Heap :=
  if s1 = 0 ∧ n ≠ 0 then .error .pageFault
  else .ok { h with bytes := copyLoop s1 s2 n.toNat h.bytes }

/-- `liballoc_memset` -/
def liballocMemset (s : BitVec 32) (c : BitVec 8) (n : BitVec 32) : Except Fault Heap :=
  if s = 0 ∧ n ≠ 0 then .error .pageFault
  else .ok { h with bytes := fun a => if a - s < n then c else h.bytes a }

/-- `kcalloc` -/
def kcalloc (nobj size : BitVec 32) : Except Fault (Heap × BitVec 32) := do
  let realSize := nobj * size
  let (h, p) ← h.kmalloc realSize
  let h ← h.liballocMemset p 0 realSize
  .ok (h, p)

/-- `krealloc` -/
def krealloc (p size : BitVec 32) : Except Fault (Heap × BitVec 32) := do
  if size = 0 then do
    let h ← h.kfree p
    .ok (h, 0)
  else if p = 0 then h.kmalloc size
  else do
    let (maj, min) ← h.header p
    let realSize := min.reqSize
    if size ≤ realSize then .ok (h.store (maj.resize size min), p)
    else do
      let (h, ptr) ← h.kmalloc size
      let h ← h.liballocMemcpy ptr p realSize
      let h ← h.kfree p
      .ok (h, ptr)

end Heap
end Kmalloc
end JkxyKernel
