import Mathlib.Data.BitVec
import Mathlib.Data.List.OfFn
import Mathlib.Logic.Function.Basic

/-!
# Segments for thread-local storage

`do_set_thread_area` takes a request apart into the fields of a segment descriptor and stores it in
one of the four slots of the task.

The number of the slot goes through 16 bits, so many numbers name the same slot.  Of the two bits
of `contents` the upper one is assigned to a field of one bit as it stands, as a 2, and is lost.
-/

namespace JkxyKernel
namespace Tls

def TLS_SEG_IDX : Nat := 9
def TLS_SEG_NUM : Nat := 4
def USER_DPL : BitVec 2 := 3
def EINVAL : Int := 22
def ESRCH : Int := 3

/-- `struct seg_desc`; every bit of it belongs to a field. -/
structure SegDesc where
  segLim_15_00 : BitVec 16
  base_15_00 : BitVec 16
  base_23_16 : BitVec 8
  accessed : BitVec 1
  rw : BitVec 1
  dir : BitVec 1
  exec : BitVec 1
  sys : BitVec 1
  dpl : BitVec 2
  present : BitVec 1
  segLim_19_16 : BitVec 4
  avail : BitVec 1
  reserved : BitVec 1
  opsize : BitVec 1
  granularity : BitVec 1
  base_31_24 : BitVec 8
  deriving DecidableEq

/-- `struct user_desc` -/
structure UserDesc where
  entryNumber : BitVec 32
  baseAddr : BitVec 32
  limit : BitVec 32
  seg_32bit : BitVec 1
  contents : BitVec 2
  readExecOnly : BitVec 1
  limitInPages : BitVec 1
  segNotPresent : BitVec 1
  useable : BitVec 1

/-- `tls_seg_t` -/
abbrev TlsSeg := Fin TLS_SEG_NUM → SegDesc

/-- The operator `!`. -/
def lnot (b : BitVec 1) : BitVec 1 := if b = 0 then 1 else 0

namespace SegDesc

/-- `(struct seg_desc){0}` -/
def zero : SegDesc where
  segLim_15_00 := 0
  base_15_00 := 0
  base_23_16 := 0
  accessed := 0
  rw := 0
  dir := 0
  exec := 0
  sys := 0
  dpl := 0
  present := 0
  segLim_19_16 := 0
  avail := 0
  reserved := 0
  opsize := 0
  granularity := 0
  base_31_24 := 0

/-- The other descriptor that counts as free. -/
def empty : SegDesc := { zero with dpl := USER_DPL, sys := 1, accessed := 1 }

def isFree (d : SegDesc) : Bool := d = empty || d = zero

def base (d : SegDesc) : BitVec 32 := d.base_31_24 ++ d.base_23_16 ++ d.base_15_00

def limit (d : SegDesc) : BitVec 20 := d.segLim_19_16 ++ d.segLim_15_00

/-- The two bits of the type that `contents` is about. -/
def contents (d : SegDesc) : BitVec 2 := d.exec ++ d.dir

end SegDesc

/-- The descriptor for a request. -/
def UserDesc.segDesc (u : UserDesc) : SegDesc where
  granularity := u.limitInPages
  opsize := u.seg_32bit
  avail := u.useable
  present := lnot u.segNotPresent
  dpl := USER_DPL
  sys := 1
  exec := (u.contents &&& 2).setWidth 1
  dir := (u.contents &&& 1).setWidth 1
  rw := lnot u.readExecOnly
  accessed := 1
  reserved := 0
  base_31_24 := ((u.baseAddr &&& 0xFF000000) >>> 24).setWidth 8
  base_23_16 := ((u.baseAddr &&& 0x00FF0000) >>> 16).setWidth 8
  base_15_00 := (u.baseAddr &&& 0x0000FFFF).setWidth 16
  segLim_19_16 := ((u.limit &&& 0x000F0000) >>> 16).setWidth 4
  segLim_15_00 := (u.limit &&& 0x0000FFFF).setWidth 16

/-- The loop over the slots, which ends behind the last one if none is free. -/
def firstFree (tls : TlsSeg) : Nat := (List.ofFn tls).findIdx SegDesc.isFree

/-- The slot at `entry`, where it is one. -/
def slot (entry : BitVec 16) : Option (Fin TLS_SEG_NUM) :=
  if h : entry.toInt < 0 ∨ (TLS_SEG_NUM : Int) ≤ entry.toInt then none
  else some ⟨entry.toInt.toNat, by omega⟩

/-- The variable `entry` when it is compared with the bounds. -/
def entryOf (tls : TlsSeg) (entryNumber : BitVec 32) : BitVec 16 :=
  let entry : BitVec 16 := entryNumber.setWidth 16
  if entry = -1 then BitVec.ofNat 16 (firstFree tls)
  else entry - BitVec.ofNat 16 TLS_SEG_IDX

/-- `do_set_thread_area`; the result, `current->gdt_tls` and the request. -/
def doSetThreadArea (tls : TlsSeg) (uInfo : UserDesc) : Int × TlsSeg × UserDesc :=
  let entry := entryOf tls uInfo.entryNumber
  match slot entry with
  | none => (if entry = -1 then -ESRCH else -EINVAL, tls, uInfo)
  | some i =>
      (0, Function.update tls i uInfo.segDesc,
        { uInfo with entryNumber := BitVec.ofNat 32 (TLS_SEG_IDX + i) })

/-! ### What the request means -/

/-- The descriptor says what the request says. -/
structure Encodes (d : SegDesc) (u : UserDesc) : Prop where
  base : d.base = u.baseAddr
  limit : d.limit = u.limit.setWidth 20
  granularity : d.granularity = u.limitInPages
  opsize : d.opsize = u.seg_32bit
  rw : lnot d.rw = u.readExecOnly
  present : lnot d.present = u.segNotPresent
  avail : d.avail = u.useable
  contents : d.contents = u.contents
  dpl : d.dpl = 3

/-- The number is that of a slot. -/
def InRange (entryNumber : BitVec 32) : Prop :=
  TLS_SEG_IDX ≤ entryNumber.toNat ∧ entryNumber.toNat < TLS_SEG_IDX + TLS_SEG_NUM

/-- The slot that a number stands for, with all its bits. -/
def Names (tls : TlsSeg) (entryNumber : BitVec 32) (i : Fin TLS_SEG_NUM) : Prop :=
  entryNumber.toNat = TLS_SEG_IDX + i ∨
    entryNumber = -1 ∧ (tls i).isFree = true ∧ ∀ j < i, (tls j).isFree = false

/-- An accepted request is encoded in its slot. -/
structure Stores (tls tls' : TlsSeg) (u u' : UserDesc) (i : Fin TLS_SEG_NUM) : Prop where
  names : Names tls u.entryNumber i
  encodes : Encodes (tls' i) u
  others : ∀ j ≠ i, tls' j = tls j
  reported : u' = { u with entryNumber := BitVec.ofNat 32 (TLS_SEG_IDX + i) }

/-- An accepted request is encoded in its slot, and a number that is none of a slot is rejected. -/
structure Right (tls : TlsSeg) (u : UserDesc) : Prop where
  accepted : ∀ tls' u', doSetThreadArea tls u = (0, tls', u') → ∃ i, Stores tls tls' u u' i
  rejected : u.entryNumber ≠ -1 → ¬ InRange u.entryNumber →
    ∃ res < 0, doSetThreadArea tls u = (res, tls, u)

/-- The lower half of the number is that of a slot, or asks for one when there is a free one. -/
def Accepts (tls : TlsSeg) (entryNumber : BitVec 32) : Prop :=
  entryNumber.setWidth 16 = (-1 : BitVec 16) ∧ (∃ i, (tls i).isFree = true) ∨
    InRange ((entryNumber.setWidth 16).setWidth 32)

/-- The whole number says what its lower half says, and the upper bit of `contents` is not set. -/
structure Honest (u : UserDesc) : Prop where
  number : u.entryNumber = -1 ∨ InRange u.entryNumber
  contents : u.contents.getLsbD 1 = false

section Descriptors

variable {u : UserDesc}

theorem lnot_lnot (b : BitVec 1) : lnot (lnot b) = b := by
  revert b
  decide

theorem base_segDesc : u.segDesc.base = u.baseAddr := by
  have hlow : ∀ i < 16, (0x0000FFFF : BitVec 32).getLsbD i = true := by decide
  have hmiddle : ∀ i < 8, (0x00FF0000 : BitVec 32).getLsbD (16 + i) = true := by decide
  have hhigh : ∀ i < 8, (0xFF000000 : BitVec 32).getLsbD (24 + i) = true := by decide
  refine BitVec.eq_of_getLsbD_eq fun i hi => ?_
  simp only [SegDesc.base, UserDesc.segDesc, BitVec.getLsbD_append, BitVec.getLsbD_setWidth,
    BitVec.getLsbD_ushiftRight, BitVec.getLsbD_and]
  split
  next h₁₆ =>
    rw [hlow i h₁₆, Bool.and_true, decide_eq_true h₁₆, Bool.true_and]
  next h₁₆ =>
    split
    next h₈ =>
      rw [hmiddle _ h₈, Bool.and_true, decide_eq_true h₈, Bool.true_and,
        show 16 + (i - 16) = i by omega]
    next h₈ =>
      rw [hhigh _ (by omega), Bool.and_true, decide_eq_true (by omega), Bool.true_and,
        show 24 + (i - 16 - 8) = i by omega]

theorem limit_segDesc : u.segDesc.limit = u.limit.setWidth 20 := by
  have hlow : ∀ i < 16, (0x0000FFFF : BitVec 32).getLsbD i = true := by decide
  have hhigh : ∀ i < 4, (0x000F0000 : BitVec 32).getLsbD (16 + i) = true := by decide
  refine BitVec.eq_of_getLsbD_eq fun i hi => ?_
  simp only [SegDesc.limit, UserDesc.segDesc, BitVec.getLsbD_append, BitVec.getLsbD_setWidth,
    BitVec.getLsbD_ushiftRight, BitVec.getLsbD_and]
  rw [decide_eq_true hi, Bool.true_and]
  split
  next h₁₆ =>
    rw [hlow i h₁₆, Bool.and_true, decide_eq_true h₁₆, Bool.true_and]
  next h₁₆ =>
    rw [hhigh _ (by omega), Bool.and_true, decide_eq_true (by omega), Bool.true_and,
      show 16 + (i - 16) = i by omega]

/-- Only the lower bit of `contents` gets through. -/
theorem contents_segDesc_iff : u.segDesc.contents = u.contents ↔ u.contents.getLsbD 1 = false := by
  have hcontents : ∀ c : BitVec 2,
      (c &&& 2).setWidth 1 ++ (c &&& 1).setWidth 1 = c ↔ c.getLsbD 1 = false := by
    decide
  exact hcontents u.contents

theorem encodes_segDesc_iff : Encodes u.segDesc u ↔ u.contents.getLsbD 1 = false := by
  rw [← contents_segDesc_iff]
  exact ⟨fun h => h.contents, fun h =>
    ⟨base_segDesc, limit_segDesc, rfl, rfl, lnot_lnot _, lnot_lnot _, rfl, h, rfl⟩⟩

end Descriptors

section Slots

variable {tls tls' : TlsSeg} {u u' : UserDesc} {n : BitVec 32} {entry : BitVec 16}
variable {i : Fin TLS_SEG_NUM}

theorem slot_eq_some : slot entry = some i ↔ entry.toNat = i := by
  have hlt := entry.isLt
  have hi := i.isLt
  have hint := entry.toInt_eq_toNat_cond
  simp only [TLS_SEG_NUM] at hi
  rw [slot]
  split
  next h =>
    simp only [TLS_SEG_NUM] at h
    refine iff_of_false (fun hsome => nomatch hsome) fun heq => ?_
    split at hint <;> omega
  next h =>
    simp only [TLS_SEG_NUM] at h
    rw [Option.some_inj, Fin.ext_iff]
    have htoNat : entry.toInt.toNat = entry.toNat := by
      split at hint <;> omega
    rw [← htoNat]

theorem firstFree_le : firstFree tls ≤ TLS_SEG_NUM := by
  have hle : (List.ofFn tls).findIdx SegDesc.isFree ≤ (List.ofFn tls).length :=
    List.findIdx_le_length
  rwa [List.length_ofFn] at hle

theorem firstFree_eq_iff : firstFree tls = i ↔
    (tls i).isFree = true ∧ ∀ j < i, (tls j).isFree = false := by
  have hi : i.val < (List.ofFn tls).length := by
    rw [List.length_ofFn]
    exact i.isLt
  rw [firstFree, List.findIdx_eq hi, List.getElem_ofFn]
  refine and_congr_right fun _ => ⟨fun h j hj => ?_, fun h j hj => ?_⟩
  · have hbefore := h j hj
    rwa [List.getElem_ofFn] at hbefore
  · rw [List.getElem_ofFn]
    exact h _ hj

/-- If a slot is free, there is a first one. -/
theorem exists_firstFree (hfree : (tls i).isFree = true) :
    ∃ j : Fin TLS_SEG_NUM, firstFree tls = j := by
  have hlt : (List.ofFn tls).findIdx SegDesc.isFree < (List.ofFn tls).length :=
    List.findIdx_lt_length_of_exists ⟨tls i, List.mem_ofFn.mpr ⟨i, rfl⟩, hfree⟩
  rw [List.length_ofFn] at hlt
  exact ⟨⟨_, hlt⟩, rfl⟩

/-- The slot for a number depends on the lower half of the number. -/
theorem slot_entryOf : slot (entryOf tls n) = some i ↔
    n.setWidth 16 = (-1 : BitVec 16) ∧ firstFree tls = i ∨
      n.toNat % 2 ^ 16 = TLS_SEG_IDX + i := by
  have hi := i.isLt
  have hfirst := @firstFree_le tls
  have hlow : (n.setWidth 16).toNat = n.toNat % 2 ^ 16 := BitVec.toNat_setWidth ..
  have hones : (-1 : BitVec 16).toNat = 65535 := rfl
  rw [slot_eq_some, entryOf]
  simp only [TLS_SEG_NUM, TLS_SEG_IDX] at hi hfirst ⊢
  by_cases hall : n.setWidth 16 = (-1 : BitVec 16)
  · rw [if_pos hall, BitVec.toNat_ofNat, Nat.mod_eq_of_lt (by omega)]
    rw [hall, hones] at hlow
    exact ⟨fun h => Or.inl ⟨hall, h⟩, fun h => h.elim (fun h => h.2) fun h => by omega⟩
  · rw [if_neg hall, BitVec.toNat_sub, BitVec.toNat_ofNat, hlow]
    constructor
    · intro h
      exact Or.inr (by omega)
    · rintro (⟨h, -⟩ | h)
      · exact absurd h hall
      · omega

/-- When a slot is found. -/
theorem accepts_iff : Accepts tls n ↔ ∃ i, slot (entryOf tls n) = some i := by
  have hlow : ((n.setWidth 16).setWidth 32).toNat = n.toNat % 2 ^ 16 := by
    rw [BitVec.toNat_setWidth_of_le (by decide), BitVec.toNat_setWidth]
  rw [Accepts, InRange, hlow]
  constructor
  · rintro (⟨hall, i, hfree⟩ | ⟨hle, hlt⟩)
    · obtain ⟨j, hj⟩ := exists_firstFree hfree
      exact ⟨j, slot_entryOf.mpr (Or.inl ⟨hall, hj⟩)⟩
    · exact ⟨⟨n.toNat % 2 ^ 16 - TLS_SEG_IDX, by omega⟩, slot_entryOf.mpr (Or.inr (by
        change n.toNat % 2 ^ 16 = TLS_SEG_IDX + (n.toNat % 2 ^ 16 - TLS_SEG_IDX)
        omega))⟩
  · rintro ⟨i, hslot⟩
    rcases slot_entryOf.mp hslot with ⟨hall, hfirst⟩ | hnumber
    · exact Or.inl ⟨hall, i, (firstFree_eq_iff.mp hfirst).1⟩
    · have hi := i.isLt
      exact Or.inr ⟨by omega, by omega⟩

theorem doSetThreadArea_of_some (hslot : slot (entryOf tls u.entryNumber) = some i) :
    doSetThreadArea tls u = (0, Function.update tls i u.segDesc,
      { u with entryNumber := BitVec.ofNat 32 (TLS_SEG_IDX + i) }) := by
  simp only [doSetThreadArea, hslot]

/-- Without a slot nothing changes. -/
theorem doSetThreadArea_of_none (hslot : slot (entryOf tls u.entryNumber) = none) :
    ∃ res < 0, doSetThreadArea tls u = (res, tls, u) := by
  refine ⟨if entryOf tls u.entryNumber = -1 then -ESRCH else -EINVAL, ?_, ?_⟩
  · split
    next => decide
    next => decide
  · simp only [doSetThreadArea, hslot]

/-- A number that is honest stands for the slot that is taken. -/
theorem names_of_slot (hnumber : n = -1 ∨ InRange n) (hslot : slot (entryOf tls n) = some i) :
    Names tls n i := by
  have hi := i.isLt
  rcases hnumber with rfl | ⟨hle, hlt⟩
  · rcases slot_entryOf.mp hslot with ⟨-, hfirst⟩ | hnumber
    · exact Or.inr ⟨rfl, firstFree_eq_iff.mp hfirst⟩
    · have hones : (-1 : BitVec 32).toNat = 4294967295 := rfl
      simp only [TLS_SEG_IDX, TLS_SEG_NUM] at hi hnumber
      omega
  · simp only [TLS_SEG_IDX, TLS_SEG_NUM] at hi hle hlt
    rcases slot_entryOf.mp hslot with ⟨hall, -⟩ | hnumber
    · have hlow : (n.setWidth 16).toNat = n.toNat % 2 ^ 16 := BitVec.toNat_setWidth ..
      have hones : (-1 : BitVec 16).toNat = 65535 := rfl
      rw [hall, hones] at hlow
      omega
    · refine Or.inl ?_
      simp only [TLS_SEG_IDX] at hnumber ⊢
      omega

/-- The slot that is reported. -/
theorem reported_injective {j : Fin TLS_SEG_NUM}
    (h : BitVec.ofNat 32 (TLS_SEG_IDX + i) = BitVec.ofNat 32 (TLS_SEG_IDX + j)) : i = j := by
  have hi := i.isLt
  have hj := j.isLt
  have hnat := congrArg BitVec.toNat h
  rw [BitVec.toNat_ofNat, BitVec.toNat_ofNat] at hnat
  simp only [TLS_SEG_IDX, TLS_SEG_NUM] at hi hj hnat
  exact Fin.ext (by omega)

end Slots

/-- **When requests are stored as they are.**  An accepted request is encoded in the slot that its
number stands for, and other numbers are rejected, if and only if a request that passes has a
number that is -1 or that of a slot in all its bits, and the upper bit of `contents` not set. -/
theorem doSetThreadArea_right_iff (tls : TlsSeg) (u : UserDesc) :
    Right tls u ↔ (Accepts tls u.entryNumber → Honest u) := by
  constructor
  · intro h haccepts
    obtain ⟨i, hslot⟩ := accepts_iff.mp haccepts
    obtain ⟨j, hstores⟩ := h.accepted _ _ (doSetThreadArea_of_some hslot)
    have hij : i = j := reported_injective (congrArg UserDesc.entryNumber hstores.reported)
    subst hij
    have hencodes := hstores.encodes
    rw [Function.update_self] at hencodes
    refine ⟨?_, encodes_segDesc_iff.mp hencodes⟩
    rcases hstores.names with hnumber | hall
    · exact Or.inr ⟨by omega, by omega⟩
    · exact Or.inl hall.1
  · intro h
    constructor
    · intro tls' u' heq
      cases hslot : slot (entryOf tls u.entryNumber) with
      | none =>
          obtain ⟨res, hneg, hres⟩ := doSetThreadArea_of_none hslot
          rw [hres] at heq
          injection heq with hzero
          omega
      | some i =>
          have honest := h (accepts_iff.mpr ⟨i, hslot⟩)
          rw [doSetThreadArea_of_some hslot] at heq
          injection heq with _ heq
          injection heq with htls hu
          subst htls hu
          refine ⟨i, names_of_slot honest.number hslot, ?_, fun j hj => ?_, rfl⟩
          · rw [Function.update_self]
            exact encodes_segDesc_iff.mpr honest.contents
          · exact Function.update_of_ne hj _ _
    · intro hall hrange
      refine doSetThreadArea_of_none (Option.eq_none_iff_forall_ne_some.mpr fun i hslot => ?_)
      rcases (h (accepts_iff.mpr ⟨i, hslot⟩)).number with heq | hin
      · exact hall heq
      · exact hrange hin

/-- A request for a segment at `0x08050000`. -/
def request (entryNumber : BitVec 32) (contents : BitVec 2) : UserDesc where
  entryNumber := entryNumber
  baseAddr := 0x08050000
  limit := 0xFFFFF
  seg_32bit := 1
  contents := contents
  readExecOnly := 0
  limitInPages := 1
  segNotPresent := 0
  useable := 1

/-- The number `0x1000a` is accepted for the slot of 10, and of `contents` 2 nothing is left. -/
theorem not_right :
    ¬ Right (fun _ => .zero) (request 0x1000a 0) ∧ ¬ Right (fun _ => .zero) (request 10 2) := by
  constructor
  · intro h
    obtain ⟨res, hneg, hres⟩ := h.rejected (by decide) (by rw [InRange]; decide)
    rw [@doSetThreadArea_of_some _ _ ⟨1, by decide⟩ (by decide)] at hres
    injection hres with hzero
    omega
  · intro h
    obtain ⟨j, hstores⟩ := h.accepted _ _ (@doSetThreadArea_of_some _ _ ⟨1, by decide⟩ (by decide))
    have hj : ⟨1, by decide⟩ = j := reported_injective (congrArg UserDesc.entryNumber hstores.reported)
    subst hj
    have hcontents := hstores.encodes.contents
    rw [Function.update_self] at hcontents
    exact absurd (contents_segDesc_iff.mp hcontents) (by decide)

end Tls
end JkxyKernel
