import JkxyKernel.Structure.ArrayMap

/-!
# Reading an ATA drive

`ata_read` with its cache of sectors, `ata_open` and `ata_seek` of `block/ata.c`.  A sector
is read from the drive once and then kept in `disk_cache`, which all files on the drive share;
`ata_mutex` lets one request at a time go through the loop.

What the hardware does with a request for a sector, and whether there is memory for the buffer
and for a larger cache, is given with each request.  The sectors that the drive was asked for
are written down, with what came of it.
-/

namespace JkxyKernel
namespace Block

abbrev Byte := BitVec 8

def EIO : Int := 5
def ENOMEM : Int := 12
def EINVAL : Int := 22

/-- `SECTOR_SIZE` -/
def sectorSize : Nat := 512

/-- A drive of less than 2 GiB. -/
structure Drive where
  prtSize : Nat
  disk : Nat → Byte
  prtSize_lt : prtSize < 2 ^ 31

/-- What goes wrong in `ata_read`. -/
inductive AtaFault
  /-- In `array_get` or `array_set`. -/
  | array (e : Fault)
  | hang
  deriving DecidableEq

/-- How the hardware answers: after an error the buffer holds anything. -/
inductive Reading
  | read
  | failed (buf : Nat → Byte)

/-- What a request meets at one sector that is not in the cache. -/
structure Attempt where
  /-- There is memory for the buffer. -/
  buffer : Bool
  reading : Reading
  /-- There is memory for a larger cache. -/
  growth : Bool

/-- The cache and what else the loop of `ata_read` changes. -/
structure Progress where
  diskCache : Structure.Array (Nat → Byte)
  pos : Nat
  /-- What was copied to the buffer of the caller. -/
  copied : List Byte
  /-- The sectors that the drive was asked for, and whether it had them. -/
  hardware : List (Nat × Bool)

namespace Drive

variable (drive : Drive)

/-- The bytes of a sector. -/
def sector (n : Nat) : Nat → Byte := fun i => drive.disk (n * sectorSize + i)

/-- So many bytes from a position on. -/
def slice (pos n : Nat) : List Byte := (List.range' pos n).map drive.disk

/-- `ata_read_28`: its result, and the buffer. -/
def ataRead28 (lba : Nat) : Reading → Int × (Nat → Byte)
  | .read => (0, drive.sector lba)
  | .failed buf => (- EIO, buf)

/-- The sector from the cache, or from the drive. -/
def fetch (attempt : Attempt) (sectorNum : Nat) (p : Progress) :
    Except AtaFault (Progress × Except Int (Nat → Byte)) :=
  match p.diskCache.get sectorNum with
  | .error e => .error (.array e)
  | .ok (some buf) => .ok (p, .ok buf)
  | .ok none =>
      if !attempt.buffer then .ok (p, .error (-ENOMEM))
      else
        let (ret, buf) := drive.ataRead28 sectorNum attempt.reading
        let p := { p with hardware := p.hardware ++ [(sectorNum, ret == 0)] }
        if ret ≠ 0 then .ok (p, .error ret)
        else
          match p.diskCache.setMem sectorNum (some buf) attempt.growth with
          | .error e => .error (.array e)
          | .ok (_, diskCache) => .ok ({ p with diskCache := diskCache }, .ok buf)

/-- The loop of `ata_read`. -/
def readLoop (attempt : Nat → Attempt) :
    Nat → Nat → Progress → Except AtaFault (Progress × Int)
  | 0, _, _ => .error .hang
  | rounds + 1, nbytes, p =>
      if nbytes = 0 then .ok (p, p.copied.length)
      else
        let sectorNum := p.pos / sectorSize
        let sectorOff := p.pos % sectorSize
        match drive.fetch (attempt sectorNum) sectorNum p with
        | .error e => .error e
        | .ok (p, .error ret) => .ok (p, ret)
        | .ok (p, .ok buf) =>
            let innerNbytes := min (sectorSize - sectorOff) nbytes
            readLoop attempt rounds (nbytes - innerNbytes)
              { p with
                pos := p.pos + innerNbytes
                copied := p.copied ++
                  (List.range innerNbytes).map fun i => buf (sectorOff + i) }

end Drive

/-- A request that has returned: where the file was, and what was asked for. -/
structure Served where
  pos : Nat
  nbytes : Nat
  res : Int
  copied : List Byte

/-- The drive in use. -/
structure State where
  diskCache : Structure.Array (Nat → Byte)
  /-- `file->pos` of the files on the drive. -/
  pos : Nat → Nat
  hardware : List (Nat × Bool)
  served : List Served

/-- `SEEK_SET`, `SEEK_CUR`, `SEEK_END` and others. -/
inductive Whence
  | set
  | cur
  | end
  | other
  deriving DecidableEq

/-- `ata_seek`: the new position, a valid `int32_t` within the drive. -/
def Drive.ataSeek (drive : Drive) (pos : Nat) (offset : Int) (whence : Whence) : Except Int Nat :=
  let newPos : Int :=
    match whence with
    | .set => offset
    | .cur => pos + offset
    | .end => drive.prtSize + offset
    | .other => -1
  let newPos := (newPos % 2 ^ 32).toNat
  if drive.prtSize ≤ newPos ∨ 2 ^ 31 ≤ newPos then .error (-EINVAL) else .ok newPos

/-- What a program does with a file on the drive. -/
inductive Op
  /-- `ata_open` -/
  | openFile (file : Nat)
  | seek (file : Nat) (offset : Int) (whence : Whence)
  | read (file nbytes : Nat) (attempt : Nat → Attempt)

namespace State

variable (drive : Drive) (s : State)

/-- `ata_read`, once the number of bytes is known. -/
def finishRead (file nbytes asked : Nat) (attempt : Nat → Attempt) : Except AtaFault State :=
  let pos := s.pos file
  if nbytes = 0 then .ok { s with served := s.served ++ [⟨pos, asked, 0, []⟩] }
  else
    match drive.readLoop attempt (nbytes + 1) nbytes ⟨s.diskCache, pos, [], s.hardware⟩ with
    | .error e => .error e
    | .ok (p, ret) =>
        .ok
          { diskCache := p.diskCache
            pos := Function.update s.pos file p.pos
            hardware := p.hardware
            served := s.served ++ [⟨pos, asked, ret, p.copied⟩] }

/-- `ata_read` -/
def ataRead (file nbytes : Nat) (attempt : Nat → Attempt) : Except AtaFault State :=
  let left := (drive.prtSize + 2 ^ 32 - s.pos file) % 2 ^ 32
  s.finishRead drive file (if left < nbytes then left else nbytes) nbytes attempt

end State

/-- The files of one drive, under any sequence of calls. -/
def ataMachine (drive : Drive) : Machine State Op AtaFault where
  enabled
    | .read _ nbytes _, _ => nbytes < 2 ^ 32
    | _, _ => true
  exec
    | .openFile file, s => .ok { s with pos := Function.update s.pos file 0 }
    | .seek file offset whence, s =>
        match drive.ataSeek (s.pos file) offset whence with
        | .error _ => .ok s
        | .ok newPos => .ok { s with pos := Function.update s.pos file newPos }
    | .read file nbytes attempt, s => s.ataRead drive file nbytes attempt

/-- A drive that nobody has used. -/
def Fresh (s : State) : Prop :=
  s.diskCache = Structure.Array.empty ∧ (∀ file, s.pos file = 0) ∧ s.hardware = [] ∧ s.served = []

end Block
end JkxyKernel
