import JkxyKernel.Fs.Readdir

/-!
# Well-formed images

A boot block of ece391fs with its dentries, and an archive of ustar headers that ends with
a block of zeros.  The fields that the directory code uses are named, the others are kept
as bytes.  A name may fill its field, and then no zero ends it.

The path of a header is that of the strings in its fields.  What `ustar_readdir` takes for
them goes on behind a field that is full, and is called the path as read.
-/

namespace JkxyKernel
namespace Fs

open Vfs (Path)

/-- A string in a field of so many bytes. -/
def field (n : Nat) (s : List Char) : List Char := s ++ List.replicate (n - s.length) nul

theorem length_field {n : Nat} {s : List Char} (h : s.length ≤ n) : (field n s).length = n := by
  simp only [field, List.length_append, List.length_replicate]
  omega

theorem cstring_append {s rest : List Char} (h : nul ∉ s) :
    cstring (s ++ rest) = s ++ cstring rest :=
  List.takeWhile_append_of_pos fun c hc => by
    simpa using fun heq : c = nul => h (heq ▸ hc)

/-- A field that is not full holds its string. -/
theorem cstring_field {n : Nat} {s rest : List Char} (h : nul ∉ s) (hlt : s.length < n) :
    cstring (field n s ++ rest) = s := by
  have hpad : List.replicate (n - s.length) nul =
      nul :: List.replicate (n - s.length - 1) nul := by
    rw [← List.replicate_succ]
    congr 1
    omega
  rw [field, List.append_assoc, cstring_append h, hpad, List.cons_append, cstring,
    List.takeWhile_cons_of_neg (by simp), List.append_nil]

/-! ### ece391fs -/

/-- The bytes of a `uint32_t`. -/
def le32Bytes (n : Nat) : List Char :=
  [n % 256, n / 256 % 256, n / 65536 % 256, n / 16777216 % 256].map Char.ofNat

/-- `struct ece391fs_dentry` -/
structure Dentry where
  name : List Char
  type : Nat
  inodeNum : Nat
  reserved : List Char
  length_name : name.length ≤ 32
  nul_notMem : nul ∉ name
  type_le : type ≤ 2
  inodeNum_lt : inodeNum < 2 ^ 32
  length_reserved : reserved.length = 24

namespace Dentry

def bytes (d : Dentry) : List Char :=
  field 32 d.name ++ (le32Bytes d.type ++ (le32Bytes d.inodeNum ++ d.reserved))

/-- The entry of a dentry. -/
def entry (d : Dentry) (index : Nat) : DirEntry where
  name := d.name
  offset := index
  ino := d.inodeNum
  type := dentryType d.type

theorem length_bytes (d : Dentry) : d.bytes.length = 64 := by
  simp [bytes, length_field d.length_name, le32Bytes, d.length_reserved]

end Dentry

/-- The boot block: no more dentries than a block holds. -/
structure Image where
  dentries : List Dentry
  others : List Char
  length_dentries : dentries.length ≤ 63
  length_others : others.length = 60

namespace Image

/-- The boot block in memory. -/
def bootBlock (image : Image) : List Char :=
  le32Bytes image.dentries.length ++ image.others ++ image.dentries.flatMap Dentry.bytes

/-- The entries in the order of the disk. -/
def entries (image : Image) : List DirEntry :=
  image.dentries.zipIdx.map fun d => d.1.entry d.2

end Image

/-! ### ustar -/

/-- The number in an octal field. -/
def octal (digits : List Char) : Nat :=
  digits.foldl (fun n c => n * 8 + (c.toNat - '0'.toNat)) 0

/-- `struct ustar_metadata`.  The bytes of the user and group, of the times, and from the
target of a link to the minor number are kept as they are; the size ends at the first byte
of its field that is not octal. -/
structure Header where
  name : List Char
  owner : List Char
  sizeDigits : List Char
  sizeEnd : List Char
  times : List Char
  type : Char
  others : List Char
  filenamePrefix : List Char
  path : Path
  length_name : name.length ≤ 100
  nul_notMem_name : nul ∉ name
  length_owner : owner.length = 24
  length_size : sizeDigits.length + sizeEnd.length = 12
  sizeDigits_octal : ∀ c ∈ sizeDigits, isOctal c = true
  sizeEnd_octal : ∀ c ∈ sizeEnd.head?, isOctal c = false
  length_times : times.length = 20
  type_known : (ustarType type).isSome = true
  length_others : others.length = 188
  length_lead : filenamePrefix.length ≤ 155
  nul_notMem_lead : nul ∉ filenamePrefix
  path_eq : ustarInodePath name filenamePrefix = some path
  components_ne : path.components ≠ []

namespace Header

def bytes (h : Header) : List Char :=
  field 100 h.name ++ (h.owner ++ (h.sizeDigits ++ h.sizeEnd ++ (h.times ++
    (h.type :: (h.others ++ field 155 h.filenamePrefix)))))

/-- The sectors of a header and of what it is the header of. -/
def sectors (h : Header) : Nat := (octal h.sizeDigits + 511) / 512 + 1

/-- The entry of a header in a sector. -/
def entry (h : Header) (name : List Char) (pos : Nat) : DirEntry where
  name := name
  offset := pos
  ino := ino pos
  type := ustarType h.type

/-- The path as read, when so much memory follows the structure. -/
def pathRead (h : Header) (tail : List Char) : Option Path :=
  ustarInodePath (cstring (h.bytes ++ tail)) (cstring ((h.bytes ++ tail).drop prefixOffset))

variable {h : Header}

theorem length_bytes (h : Header) : h.bytes.length = metadataSize := by
  have hsize := h.length_size
  simp only [bytes, List.length_append, List.length_cons, length_field h.length_name,
    length_field h.length_lead, h.length_owner, h.length_times, h.length_others,
    metadataSize]
  omega

theorem drop_size (h : Header) (tail : List Char) :
    ∃ rest, (h.bytes ++ tail).drop sizeOffset = h.sizeDigits ++ (h.sizeEnd ++ rest) := by
  have hfield : (field 100 h.name ++ h.owner).length = sizeOffset := by
    rw [List.length_append, length_field h.length_name, h.length_owner]
    rfl
  refine ⟨h.times ++ (h.type :: (h.others ++ (field 155 h.filenamePrefix ++ tail))), ?_⟩
  rw [bytes, ← List.append_assoc (field 100 h.name), List.append_assoc _ _ tail,
    List.drop_left' hfield]
  simp

theorem drop_lead (h : Header) (tail : List Char) :
    (h.bytes ++ tail).drop prefixOffset = field 155 h.filenamePrefix ++ tail := by
  have hsize := h.length_size
  have hfield : (field 100 h.name ++ (h.owner ++ (h.sizeDigits ++ h.sizeEnd ++
      (h.times ++ (h.type :: h.others))))).length = prefixOffset := by
    simp only [List.length_append, List.length_cons, length_field h.length_name,
      h.length_owner, h.length_times, h.length_others, prefixOffset]
    omega
  have hbytes : h.bytes ++ tail = (field 100 h.name ++ (h.owner ++ (h.sizeDigits ++
      h.sizeEnd ++ (h.times ++ (h.type :: h.others))))) ++
        (field 155 h.filenamePrefix ++ tail) := by
    simp [bytes]
  rw [hbytes, List.drop_left' hfield]

theorem name_ne_nil (h : Header) : h.name ≠ [] := by
  intro hnil
  have hpath := h.path_eq
  simp [ustarInodePath, hnil, Path.fromstr] at hpath

/-- A name is read, whatever follows it. -/
theorem cstring_bytes_ne_nil (h : Header) (tail : List Char) :
    cstring (h.bytes ++ tail) ≠ [] := by
  rw [bytes, field, List.append_assoc, List.append_assoc, cstring_append h.nul_notMem_name]
  exact List.append_ne_nil_of_left_ne_nil h.name_ne_nil _

/-- Where neither string fills its field, the path is read as it is. -/
theorem pathRead_eq (hname : h.name.length < 100) (hlead : h.filenamePrefix.length < 155)
    (tail : List Char) : h.pathRead tail = some h.path := by
  rw [pathRead, drop_lead, cstring_field h.nul_notMem_lead hlead, bytes,
    List.append_assoc, cstring_field h.nul_notMem_name hname, h.path_eq]

/-- The digits of a size are read as their number. -/
theorem oct2bin_digits {digits rest : List Char} {n : Nat} (hlength : digits.length ≤ n)
    (hdigits : ∀ c ∈ digits, isOctal c = true)
    (hrest : ∀ c ∈ (rest.take (n - digits.length)).head?, isOctal c = false) :
    oct2bin (digits ++ rest) n = octal digits % 2 ^ 32 := by
  have htake : ((digits ++ rest).take n).takeWhile isOctal = digits := by
    rw [List.take_append, List.take_of_length_le hlength,
      List.takeWhile_append_of_pos hdigits]
    cases hmore : rest.take (n - digits.length) with
    | nil => simp
    | cons c more =>
        rw [hmore] at hrest
        rw [List.takeWhile_cons_of_neg (by simp [hrest c rfl]), List.append_nil]
  have hfold : ∀ (digits : List Char) (n m : Nat), n = m % 2 ^ 32 →
      digits.foldl (fun n c => (n * 8 + (c.toNat - '0'.toNat)) % 2 ^ 32) n =
        digits.foldl (fun n c => n * 8 + (c.toNat - '0'.toNat)) m % 2 ^ 32 := by
    intro digits
    induction digits with
    | nil => exact fun n m h => h
    | cons c digits ih =>
        intro n m h
        refine ih _ _ ?_
        change (n * 8 + (c.toNat - '0'.toNat)) % 2 ^ 32 =
          (m * 8 + (c.toNat - '0'.toNat)) % 2 ^ 32
        omega
  rw [oct2bin, htake]
  exact hfold digits 0 0 rfl

/-- The size field is read as the number its digits stand for. -/
theorem oct2bin_size (h : Header) (tail : List Char) :
    oct2bin ((h.bytes ++ tail).drop sizeOffset) 12 = octal h.sizeDigits % 2 ^ 32 := by
  obtain ⟨rest, hdrop⟩ := h.drop_size tail
  have hsize := h.length_size
  have hend : ∀ c ∈ ((h.sizeEnd ++ rest).take (12 - h.sizeDigits.length)).head?,
      isOctal c = false := by
    rw [List.take_append_of_le_length (by omega), List.take_of_length_le (by omega)]
    exact h.sizeEnd_octal
  rw [hdrop, oct2bin_digits (by omega) h.sizeDigits_octal hend]

/-- Where the sectors fit, as many are skipped. -/
theorem headerSectors_bytes (h : Header) (tail : List Char) (hfit : h.sectors ≤ 2 ^ 23) :
    headerSectors (h.bytes ++ tail) = h.sectors := by
  rw [headerSectors, h.oct2bin_size]
  simp only [sectors] at hfit ⊢
  have hsmall : octal h.sizeDigits + 511 < 2 ^ 32 := by omega
  rw [Nat.mod_eq_of_lt (by omega), sizeToSectors, sectorSize, Nat.mod_eq_of_lt hsmall]

end Header

/-! ### Archives -/

/-- Where the block of zeros is that ends the archive. -/
def endOf : Nat → List Header → Nat
  | pos, [] => pos
  | pos, h :: headers => endOf (pos + h.sectors) headers

/-- The device has these headers from a sector on, and a block of zeros after them. -/
def Holds (dev : Device) : Nat → List Header → Prop
  | pos, [] => pos * sectorSize + sectorSize ≤ dev.size ∧
      ∀ i < sectorSize, dev.bytes (pos * sectorSize + i) = nul
  | pos, h :: headers => dev.read (pos * sectorSize) metadataSize = h.bytes ∧
      Holds dev (pos + h.sectors) headers

/-- The entries of the headers for which there is a name. -/
def entriesAt (child : Header → Option (List Char)) : Nat → List Header → List DirEntry
  | _, [] => []
  | pos, h :: headers =>
      match child h with
      | none => entriesAt child (pos + h.sectors) headers
      | some name => h.entry name pos :: entriesAt child (pos + h.sectors) headers

/-- The name under which a path is a direct child of another. -/
def childOf (dir path : Path) : Option (List Char) :=
  match path.components.getLast? with
  | none => none
  | some name => if path = dir.append [name] then some name else none

/-- An archive on a device, whose size is a `uint32_t`. -/
structure Archive where
  dev : Device
  headers : List Header
  holds : Holds dev 0 headers
  size_lt : dev.size < 2 ^ 32

/-- The direct children of a path, in the order of the disk. -/
def Archive.entries (archive : Archive) (path : Path) : List DirEntry :=
  entriesAt (fun h => childOf path h.path) 0 archive.headers

section Placed

variable {dev : Device} {pos : Nat} {headers : List Header}

variable {child child' : Header → Option (List Char)} {e : DirEntry}

end Placed

end Fs
end JkxyKernel
