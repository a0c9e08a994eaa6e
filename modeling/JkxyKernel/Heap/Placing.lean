import JkxyKernel.Heap.Blocks
import JkxyKernel.Lib.Packing

/-!
# Allocations in a block

The headers and the memory behind them are pieces of their block, one behind the other.  A block
finds the first gap for another piece, and the alignment of the pointer stays in the piece.
-/

namespace JkxyKernel
namespace Kmalloc

open Packing
open Paging (kheapAddrIdx physDirSmallNum sizeofMajor sizeofMinor)

/-! ### Alignment -/

section Alignment

variable {ptr : BitVec 32}

/-- How far the pointer is moved, besides the 16 bytes of information. -/
def slack (ptr : BitVec 32) : Nat := (16 - ptr.toNat % 16) % 16

theorem toNat_and_15 (x : BitVec 32) : (x &&& 15).toNat = x.toNat % 16 := by
  rw [BitVec.toNat_and]
  exact Nat.and_two_pow_sub_one_eq_mod x.toNat 4

theorem slack_lt (ptr : BitVec 32) : slack ptr < 16 := Nat.mod_lt _ (by decide)

/-- What the macro computes. -/
theorem align_diff (ptr : BitVec 32) :
    (if (ptr + 16) &&& 15 ≠ 0 then 16 - ((ptr + 16) &&& 15) else (ptr + 16) &&& 15) =
      BitVec.ofNat 32 (slack ptr) := by
  have hand : ((ptr + 16) &&& 15).toNat = ptr.toNat % 16 := by
    rw [toNat_and_15, BitVec.toNat_add]
    change (ptr.toNat + 16) % 2 ^ 32 % 16 = _
    omega
  apply BitVec.eq_of_toNat_eq
  rw [BitVec.toNat_ofNat, slack]
  split
  next hne =>
    have hpos : ((ptr + 16) &&& 15).toNat ≠ 0 := fun heq => hne (BitVec.eq_of_toNat_eq heq)
    rw [BitVec.toNat_sub, hand]
    change (2 ^ 32 - ptr.toNat % 16 + 16) % 2 ^ 32 = _
    omega
  next hzero =>
    have hzero' : ((ptr + 16) &&& 15).toNat = 0 := by
      rw [not_ne_iff.mp hzero]
      rfl
    omega

theorem align_eq (ptr : BitVec 32) :
    align ptr = (ptr + 16 + BitVec.ofNat 32 (slack ptr), BitVec.ofNat 8 (slack ptr + 16)) := by
  have hlt := slack_lt ptr
  rw [align]
  simp only [align_diff]
  refine congrArg _ (BitVec.eq_of_toNat_eq ?_)
  rw [BitVec.toNat_setWidth, BitVec.toNat_add, BitVec.toNat_ofNat, BitVec.toNat_ofNat]
  change (slack ptr % 2 ^ 32 + 16) % 2 ^ 32 % 2 ^ 8 = _
  omega

/-- The pointer is less than 32 bytes further on. -/
theorem toNat_align (h : ptr.toNat + 32 ≤ 2 ^ 32) :
    (align ptr).1.toNat = ptr.toNat + 16 + slack ptr := by
  have hlt := slack_lt ptr
  rw [align_eq, BitVec.toNat_add, BitVec.toNat_add, BitVec.toNat_ofNat]
  change ((ptr.toNat + 16) % 2 ^ 32 + slack ptr % 2 ^ 32) % 2 ^ 32 = _
  omega

/-- The pointer is a multiple of 16. -/
theorem align_mod (ptr : BitVec 32) : (align ptr).1.toNat % 16 = 0 := by
  rw [align_eq, BitVec.toNat_add, BitVec.toNat_add, BitVec.toNat_ofNat, slack]
  change ((ptr.toNat + 16) % 2 ^ 32 + (16 - ptr.toNat % 16) % 16 % 2 ^ 32) % 2 ^ 32 % 16 = 0
  omega

/-- `UNALIGN` undoes `ALIGN`. -/
theorem unalign_align (ptr : BitVec 32) : unalign (align ptr).1 (align ptr).2 = ptr := by
  have hlt := slack_lt ptr
  have hextend : ∀ n < 16, (BitVec.ofNat 8 (n + 16)).signExtend 32 = BitVec.ofNat 32 (n + 16) := by
    decide
  have hinfo := hextend _ hlt
  rw [align_eq, unalign]
  simp only [hinfo]
  rw [if_pos ?_]
  · rw [BitVec.ofNat_add, BitVec.add_assoc, BitVec.add_comm 16]
    exact BitVec.add_sub_cancel _ _
  · rw [BitVec.lt_def, BitVec.toNat_ofNat]
    change (slack ptr + 16) % 2 ^ 32 < 32
    omega

end Alignment

/-! ### Blocks -/

/-- Where a header begins. -/
def Minor.start (min : Minor) : Nat := min.addr.toNat

/-- The header and what is behind it. -/
def Minor.width (min : Minor) : Nat := min.size.toNat + 24

/-- A header that `kmalloc` has made, for a request that leaves room for the alignment. -/
structure Minor.Sound (min : Minor) : Prop where
  room : min.reqSize.toNat + 32 ≤ min.size.toNat
  info : min.info = (align (min.addr + sizeofMinor)).2

namespace Major

variable {maj : Major} {min : Minor} {size reqSize : BitVec 32}

/-- Where the headers begin, and where the block ends. -/
def low (maj : Major) : Nat := maj.page * 4096 + 24

def high (maj : Major) : Nat := maj.page * 4096 + maj.size.toNat

/-- There is room between the allocations for one more of this width, with its header. -/
def HasGap (maj : Major) (w : Nat) : Prop :=
  ∃ pos, Gap Minor.start Minor.width maj.low maj.high w maj.minors pos

/-- The pages are of the kernel heap, and the allocations are pieces of the block. -/
structure Sound (maj : Major) : Prop where
  low : kheapAddrIdx ≤ maj.page
  region : maj.page % 1024 + maj.pages.toNat < 1024
  high : maj.page + maj.pages.toNat ≤ physDirSmallNum
  pos : 0 < maj.pages.toNat
  size : maj.size.toNat = maj.pages.toNat * 4096
  usage : maj.usage.toNat = 24 + (maj.minors.map Minor.width).sum
  packed : Packed Minor.start Minor.width maj.low maj.high maj.minors
  minors : ∀ min ∈ maj.minors, min.Sound

namespace Sound

theorem high_lt (h : maj.Sound) : maj.high < 2 ^ 32 := by
  have hregion := h.region
  have hhigh := h.high
  have hsize := h.size
  have hpos := h.pos
  rw [physDirSmallNum] at hhigh
  rw [Major.high]
  omega

theorem toNat_addr (h : maj.Sound) : maj.addr.toNat = maj.page * 4096 := by
  have hlt := h.high_lt
  rw [Major.high] at hlt
  rw [addr, BitVec.toNat_ofNat]
  omega

theorem usage_le (h : maj.Sound) : maj.usage.toNat ≤ maj.size.toNat := by
  have htotal := h.packed.total_le
  have husage := h.usage
  rw [Major.low, Major.high] at htotal
  omega

/-- What `kmalloc` takes for the room in the block. -/
theorem toNat_diff (h : maj.Sound) :
    (maj.size - maj.usage).toNat = maj.size.toNat - maj.usage.toNat := by
  have hle := h.usage_le
  rw [BitVec.toNat_sub_of_le hle]

/-- Without enough room there is no gap. -/
theorem no_gap (h : maj.Sound) {w : Nat} (hdiff : (maj.size - maj.usage).toNat < w) :
    ¬ maj.HasGap w := by
  rintro ⟨pos, hgap⟩
  have htotal := hgap.total_le h.packed
  have husage := h.usage
  rw [h.toNat_diff] at hdiff
  rw [Major.low, Major.high] at htotal
  omega

end Sound

/-! ### A place for another allocation -/

section Place

variable {rest : List Minor} {lo : Nat}

/-- The header at a place in the block. -/
def headerAt (size reqSize : BitVec 32) (pos : Nat) : Minor :=
  newMinor (BitVec.ofNat 32 pos) size reqSize

theorem toNat_gap {a : BitVec 32} (h : min.start + min.width ≤ a.toNat) :
    (a - min.addr - sizeofMinor - min.size).toNat = a.toNat - (min.start + min.width) := by
  have ha := a.isLt
  rw [Minor.start, Minor.width] at h ⊢
  rw [BitVec.toNat_sub, BitVec.toNat_sub, BitVec.toNat_sub]
  change (2 ^ 32 - min.size.toNat +
    (2 ^ 32 - 24 + (2 ^ 32 - min.addr.toNat + a.toNat) % 2 ^ 32) % 2 ^ 32) % 2 ^ 32 = _
  omega

theorem fits_iff {d : BitVec 32} (hw : size.toNat + 24 < 2 ^ 32) :
    size + sizeofMinor ≤ d ↔ size.toNat + 24 ≤ d.toNat := by
  rw [BitVec.le_def, BitVec.toNat_add]
  change (size.toNat + 24) % 2 ^ 32 ≤ _ ↔ _
  rw [Nat.mod_eq_of_lt hw]

theorem behind_eq (min : Minor) :
    min.addr + sizeofMinor + min.size = BitVec.ofNat 32 (min.start + min.width) := by
  apply BitVec.eq_of_toNat_eq
  rw [BitVec.toNat_add, BitVec.toNat_add, BitVec.toNat_ofNat, Minor.start, Minor.width]
  change ((min.addr.toNat + 24) % 2 ^ 32 + min.size.toNat) % 2 ^ 32 = _
  omega

/-- The loop of CASE 4 finds the first gap behind an allocation, by induction on those behind it. -/
theorem walk_eq (hs : maj.Sound) (hw : size.toNat + 24 < 2 ^ 32)
    (hpacked : Packed Minor.start Minor.width lo maj.high (min :: rest)) :
    maj.walk size reqSize (min :: rest) =
      (firstGap Minor.start Minor.width (size.toNat + 24) maj.high (min.start + min.width) rest).map
        fun g => (min :: g.1 ++ headerAt size reqSize g.2.1 :: g.2.2,
          headerAt size reqSize g.2.1) := by
  induction rest generalizing lo min with
  | nil =>
      have hend : (maj.addr + maj.size).toNat = maj.high := by
        have hlt := hs.high_lt
        rw [Major.high] at hlt ⊢
        rw [BitVec.toNat_add, hs.toNat_addr, Nat.mod_eq_of_lt hlt]
      have hle : min.start + min.width ≤ (maj.addr + maj.size).toNat := by
        rw [hend]
        exact hpacked.2
      have hdiff := toNat_gap hle
      rw [hend] at hdiff
      simp only [walk, firstGap, fits_iff hw, hdiff, behind_eq]
      split
      next hfits => rfl
      next hfull => rfl
  | cons next rest ih =>
      have hdiff : (next.addr - min.addr - sizeofMinor - min.size).toNat =
          next.start - (min.start + min.width) := toNat_gap hpacked.2.1
      simp only [walk, firstGap, fits_iff hw, hdiff, behind_eq, ih hpacked.2]
      split
      next hfits => rfl
      next hfull =>
        rw [Option.map_map, Option.map_map]
        rfl

theorem place_eq (hs : maj.Sound) (hw : size.toNat + 24 < 2 ^ 32)
    (hdiff : size.toNat + 24 ≤ (maj.size - maj.usage).toNat) :
    maj.place size reqSize =
      (firstGap Minor.start Minor.width (size.toNat + 24) maj.high maj.low maj.minors).map
        fun g => (maj.use size (g.1 ++ headerAt size reqSize g.2.1 :: g.2.2),
          headerAt size reqSize g.2.1) := by
  have hlow : maj.addr + sizeofMajor = BitVec.ofNat 32 maj.low := by
    have hlt := hs.high_lt
    apply BitVec.eq_of_toNat_eq
    rw [BitVec.toNat_add, hs.toNat_addr, BitVec.toNat_ofNat, Major.low]
    rfl
  have hfront : maj.front size reqSize =
      (maj.use size (headerAt size reqSize maj.low :: maj.minors),
        headerAt size reqSize maj.low) := by
    rw [front, hlow]
    rfl
  have husage := hs.usage
  rw [hs.toNat_diff] at hdiff
  have hpacked := hs.packed
  rw [place]
  split
  next hnone =>
    rw [hnone] at husage
    rw [hfront, hnone, firstGap, if_pos ?_]
    · rfl
    · rw [Major.low, Major.high]
      rw [List.map_nil, List.sum_nil] at husage
      omega
  next first rest hminors =>
    rw [hminors] at hpacked
    have hge : maj.low ≤ first.start := hpacked.1
    have hfirst : (first.addr - maj.addr - sizeofMajor).toNat = first.start - maj.low := by
      have hlt := first.addr.isLt
      rw [Major.low, Minor.start] at hge ⊢
      rw [BitVec.toNat_sub, BitVec.toNat_sub, hs.toNat_addr]
      change (2 ^ 32 - 24 + (2 ^ 32 - maj.page * 4096 + first.addr.toNat) % 2 ^ 32) % 2 ^ 32 = _
      omega
    simp only [fits_iff hw, hfirst, hfront, hminors, walk_eq hs hw hpacked, firstGap]
    split
    next hfits => rfl
    next hfull =>
      rw [Option.map_map, Option.map_map]
      rfl

/-- An allocation has been placed in a gap. -/
structure Placed (maj : Major) (size reqSize : BitVec 32) (r : Major × Minor) : Prop where
  sound : r.1.Sound
  split : ∃ pre post, maj.minors = pre ++ post ∧ r.1 = maj.use size (pre ++ r.2 :: post)
  gap : maj.HasGap (size.toNat + 24)
  sizes : r.2.size = size ∧ r.2.reqSize = reqSize

theorem place_some {r : Major × Minor} (hs : maj.Sound)
    (hsize : size.toNat = reqSize.toNat + 32) (hw : size.toNat + 24 < 2 ^ 32)
    (hdiff : size.toNat + 24 ≤ (maj.size - maj.usage).toNat)
    (hplace : maj.place size reqSize = some r) : maj.Placed size reqSize r := by
  rw [place_eq hs hw hdiff] at hplace
  obtain ⟨⟨pre, pos, post⟩, hgap, rfl⟩ := Option.map_eq_some_iff.mp hplace
  obtain ⟨hsplit, hfree, hpacked⟩ := firstGap_some hs.packed hgap (by omega)
  have hpos : (BitVec.ofNat 32 pos).toNat = pos := by
    have hhigh := hfree.high
    have hlt := hs.high_lt
    rw [BitVec.toNat_ofNat]
    omega
  have husage : (maj.usage + (size + sizeofMinor)).toNat = maj.usage.toNat + (size.toNat + 24) := by
    have hle := hs.usage_le
    have hlt := maj.size.isLt
    rw [hs.toNat_diff] at hdiff
    rw [BitVec.toNat_add, BitVec.toNat_add]
    change (maj.usage.toNat + (size.toNat + 24) % 2 ^ 32) % 2 ^ 32 = _
    omega
  refine ⟨⟨hs.low, hs.region, hs.high, hs.pos, hs.size, ?_, hpacked _ hpos rfl, ?_⟩,
    ⟨pre, post, hsplit, rfl⟩, ⟨pos, hfree⟩, rfl, rfl⟩
  · have hold := hs.usage
    rw [hsplit, List.map_append, List.sum_append] at hold
    have hwidth : (headerAt size reqSize pos).width = size.toNat + 24 := rfl
    simp only [use, husage, List.map_append, List.map_cons, List.sum_append, List.sum_cons, hold,
      hwidth]
    omega
  · intro min hmin
    rcases List.mem_append.mp hmin with hpre | hmin
    · exact hs.minors min (hsplit ▸ List.mem_append_left post hpre)
    · rcases List.mem_cons.mp hmin with rfl | hpost
      · exact ⟨Nat.le_of_eq hsize.symm, rfl⟩
      · exact hs.minors min (hsplit ▸ List.mem_append_right pre hpost)

theorem place_none (hs : maj.Sound) (hw : size.toNat + 24 < 2 ^ 32)
    (hdiff : size.toNat + 24 ≤ (maj.size - maj.usage).toNat)
    (hplace : maj.place size reqSize = none) : ¬ maj.HasGap (size.toNat + 24) := by
  rw [place_eq hs hw hdiff, Option.map_eq_none_iff] at hplace
  rintro ⟨pos, hgap⟩
  exact firstGap_none hs.packed hplace hgap

end Place

/-! ### Pointers -/

/-- A pointer is aligned, and the memory behind it lies in the piece of its header. -/
theorem Sound.pointer (hs : maj.Sound) (hmin : min ∈ maj.minors) :
    min.pointer.toNat % 16 = 0 ∧ min.start + 40 ≤ min.pointer.toNat ∧
      min.pointer.toNat + min.reqSize.toNat ≤ min.start + min.width := by
  have hbounds := (hs.packed.bounds hmin).2
  have hlt := hs.high_lt
  have hroom := (hs.minors min hmin).room
  rw [Minor.width] at hbounds ⊢
  have hadd : (min.addr + sizeofMinor).toNat = min.start + 24 := by
    rw [Minor.start] at hbounds ⊢
    rw [BitVec.toNat_add]
    change (min.addr.toNat + 24) % 2 ^ 32 = _
    omega
  have halign := @toNat_align (min.addr + sizeofMinor) (by omega)
  have hslack := slack_lt (min.addr + sizeofMinor)
  rw [hadd] at halign
  refine ⟨align_mod _, ?_, ?_⟩
  · rw [Minor.pointer]
    omega
  · rw [Minor.pointer]
    omega

end Major

end Kmalloc
end JkxyKernel
