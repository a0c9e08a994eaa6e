import JkxyKernel.Exec.Elf
import JkxyKernel.Exec.Space
import JkxyKernel.Lib.Machine

/-!
# Loading segments

The loop of `do_execve` over the program headers.  It has a position of its own, `pos`, which
a `break` out of the `switch` leads to the next header, and a `continue` does not.

Each segment gets its pages, and what the file has of it.  What `filp_seek` returns is compared
with the position, as an unsigned number, so the position that is the code of an error is
taken to be reached when seeking fails with it.
-/

namespace JkxyKernel
namespace Exec

open Bytes

/-- The variables of the loop, and the address space. -/
structure Load where
  space : Space
  file : Opened
  pos : Word
  brk : Word
  fileHdraddr : Word
  /-- Where in the file the program headers have been read. -/
  headers : List Word

namespace Segment

variable (segment : Segment)

/-- The `file_size` that is used. -/
def size : Word := if segment.memSize < segment.fileSize then segment.memSize else segment.fileSize

def mapaddr : Word := segment.virtAddr >>> 12 <<< 12

def numpages : Word := ((segment.memSize + segment.virtAddr - segment.mapaddr - 1) >>> 12) + 1

def writable : Bool := segment.flags &&& 2 != 0

end Segment

/-- The process' memory is written. -/
def Space.write (s : Space) (a : Addr) (data : List Byte) : Except Stop Space :=
  if (List.range data.length).all fun j => s.mapped (a + BitVec.ofNat 32 j) then
    .ok { s with mem := store s.mem a data }
  else .error .fault

section Loop

variable (exe : Exe) (frames : Nat → Bool)

/-- A `LOAD` segment that is not empty. -/
def loadData (found : Bool) (segment : Segment) (st : Load) : Except Stop Load := do
  match ← st.space.requestSmall found segment.mapaddr segment.numpages segment.writable with
  | none => .error .sigsegv
  | some space =>
      let (res, file) := exe.filpSeek st.file segment.fileOffset
      if res ≠ segment.fileOffset then .error .sigsegv
      else
        let (res, data, file) := exe.filpRead file segment.size
        let space ← space.write segment.virtAddr data
        if res ≠ segment.size then .error .sigsegv
        else
          .ok { st with
            space := space
            file := file
            brk :=
              if segment.writable ∧ (st.brk = 0 ∨ segment.size ≠ segment.memSize) then
                segment.virtAddr + segment.memSize
              else st.brk
            fileHdraddr := if segment.fileOffset = 0 then segment.virtAddr else st.fileHdraddr }

/-- The loop's body, from the `switch` on. -/
def loadSegment (entrySize : Word) (found : Bool) (segment : Segment) (st : Load) :
    Except Stop Load :=
  if segment.type = 1 then
    if segment.memSize = 0 then .ok st
    else do
      let st ← loadData exe found segment st
      .ok { st with pos := st.pos + entrySize }
  else if segment.type = 2 ∨ segment.type = 3 then .error .sigsegv
  else .ok { st with pos := st.pos + entrySize }

/-- The loop's body. -/
def loadHeader (entrySize : Word) (found : Bool) (st : Load) : Except Stop Load :=
  let (res, file) := exe.filpSeek st.file st.pos
  if res ≠ st.pos then .error .sigsegv
  else
    let (res, data, file') := exe.filpRead file 32
    if res ≠ 32 then .error .sigsegv
    else
      loadSegment exe entrySize found (Segment.ofBytes data)
        { st with file := file', headers := file.pos :: st.headers }

/-- The first rounds of the loop. -/
def loadHeaders (entrySize : Word) (start : Load) : Nat → Except Stop Load
  | 0 => .ok start
  | i + 1 => do
      let st ← loadHeaders entrySize start i
      loadHeader exe entrySize (frames i) st

end Loop

end Exec
end JkxyKernel
