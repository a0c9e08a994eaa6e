import JkxyKernel.Fs.Images
import JkxyKernel.Fs.Listing
import JkxyKernel.Vfs.Ancestry

/-!
# The listings of ece391fs and of ustar

An ece391fs directory is served from its boot block.  A ustar directory is served from the
headers, by the path its inode holds: every header whose path, as read, is a direct child
of that path is shown.

So an archive is listed as it is exactly when its headers are read as they are: all of
them lie where the device can be sought, and what a full name or a full prefix runs on
into does not change which child of the directory the header is, if any.
-/

namespace JkxyKernel
namespace Fs

open Cursor
open Vfs (Path)

/-! ### ece391fs -/

section Ece391fs

variable {σ : Type} {filldir : Filldir σ}

end Ece391fs

/-! ### ustar -/

/-- The name that `ustar_readdir` shows for a path, if any. -/
def shows (dir path : Path) : Except ReaddirFault (Option (List Char)) :=
  if isDirectDecendent dir path then
    match path.components.getLast? with
    | none => .error .null
    | some name => .ok (some name)
  else .ok none

/-- The test of the listing is that of `path.c`. -/
theorem isDirectDecendent_eq (parent child : Vfs.ResidentPath) :
    isDirectDecendent parent.toPath child.toPath =
      Vfs.pathIsDirectDecendent parent.toPath child.toPath := by
  have hparent := parent.length_lt
  have hchild := child.length_lt
  rw [Vfs.pathIsDirectDecendent, Vfs.pathSubsumes_eq_subsumes, child.pathSize]
  simp only [isDirectDecendent, Vfs.toUint32]
  cases hsub : parent.toPath.subsumes child.toPath with
  | none =>
      rw [Bool.eq_iff_iff]
      simp only [beq_iff_eq]
      omega
  | some matchsize =>
      have hle : matchsize = parent.components.length := by
        simp only [Path.subsumes] at hsub
        split at hsub
        next => cases hsub
        next =>
          split at hsub
          next => exact (Option.some.inj hsub).symm
          next => cases hsub
      rw [Bool.eq_iff_iff]
      simp only [beq_iff_eq]
      omega

section Loop

variable {σ : Type} {filldir : Filldir σ} {dev : Device} {dir : Path} {h : Header}
variable {headers : List Header} {info : List Char} {data : σ} {rounds pos i : Nat}

end Loop

/-! ### Directories -/

/-- A ustar directory that is open: its path, and the path in its inode, which is that of
the root or was read from a header in a lookup. -/
structure UstarDirectory where
  archive : Archive
  path : Path
  held : Path
  opened : Path.fromstr ['.'] = some path ∧ held = path ∨
    ∃ h ∈ archive.headers, h.type = '5' ∧ path = h.path ∧
      ∃ tail, h.pathRead tail = some held

namespace UstarDirectory

def readdir (d : UstarDirectory) : Readdir := fun _ info filldir data pos =>
  ustarReaddir d.archive.dev d.held info filldir data pos

/-- The end can be sought, and the path in the inode makes of every header, as it is read
with any memory behind it, what the path of the directory makes of the header. -/
def ReadRight (d : UstarDirectory) : Prop :=
  endOf 0 d.archive.headers * sectorSize < 2 ^ 31 ∧
    ∀ h ∈ d.archive.headers, ∀ tail,
      (h.pathRead tail).map (shows d.held) = some (shows d.path h.path)

def entries (d : UstarDirectory) : List DirEntry := d.archive.entries d.path

variable {d : UstarDirectory}

/-- The headers from a sector on, and what they are to show. -/
def At (d : UstarDirectory) (pos : Nat) (entries : List DirEntry) : Prop :=
  ∃ headers, headers <:+ d.archive.headers ∧ Holds d.archive.dev pos headers ∧
    endOf pos headers = endOf 0 d.archive.headers ∧
    entries = entriesAt (fun h => childOf d.path h.path) pos headers

/-- Where no string fills its field, only the reach of the device matters. -/
theorem readRight_of_short (hend : endOf 0 d.archive.headers * sectorSize < 2 ^ 31)
    (hshort : ∀ h ∈ d.archive.headers,
      h.name.length < 100 ∧ h.filenamePrefix.length < 155) : d.ReadRight := by
  have hheld : d.held = d.path := by
    rcases d.opened with ⟨-, heq⟩ | ⟨h, hmem, -, hpath, tail, hread⟩
    · exact heq
    · obtain ⟨hname, hlead⟩ := hshort h hmem
      rw [h.pathRead_eq hname hlead] at hread
      rw [hpath]
      exact (Option.some.inj hread).symm
  refine ⟨hend, fun h hmem tail => ?_⟩
  obtain ⟨hname, hlead⟩ := hshort h hmem
  rw [h.pathRead_eq hname hlead, hheld]
  rfl

end UstarDirectory

/-- A directory that is open. -/
inductive Directory
  | ece391fs (image : Image)
  | ustar (d : UstarDirectory)

namespace Directory

/-- The `readdir` of its file system. -/
def readdir : Directory → Readdir
  | .ece391fs image => fun _ _ filldir data pos => ece391fsReaddir image.bootBlock filldir data pos
  | .ustar d => d.readdir

/-- Its direct children, in the order of the disk. -/
def entries : Directory → List DirEntry
  | .ece391fs image => image.entries
  | .ustar d => d.entries

/-- What is on the disk is read as it is. -/
def ReadRight : Directory → Prop
  | .ece391fs _ => True
  | .ustar d => d.ReadRight

end Directory

/-- A file without data whose name is as long as the field. -/
def fullName : Header where
  name := List.replicate 100 'a'
  owner := "0000644".toList ++ List.replicate 17 nul
  sizeDigits := List.replicate 11 '0'
  sizeEnd := [nul]
  times := List.replicate 20 nul
  type := '0'
  others := List.replicate 188 nul
  filenamePrefix := []
  path := { absolute := false, mnt := none, components := [List.replicate 100 'a'] }
  length_name := List.length_replicate.le
  nul_notMem_name := by decide +kernel
  length_owner := by decide
  length_size := by decide
  sizeDigits_octal c hc := by
    rw [List.eq_of_mem_replicate hc]
    rfl
  sizeEnd_octal c hc := by
    obtain rfl : nul = c := Option.some.inj hc
    rfl
  length_times := by decide
  type_known := by decide
  length_others := List.length_replicate
  length_lead := by decide
  nul_notMem_lead := by decide
  path_eq := by decide +kernel
  components_ne := by decide

end Fs
end JkxyKernel
