import JkxyKernel.Paging.Boot
import JkxyKernel.Paging.Supply

/-!
# Allocations of physical memory

Pages of both sizes, and runs of small ones, are allocated from the memory that the boot loader
reports, used again, and freed.  `phys_dir` has one entry for each page and one for each large
page; a page is in use by its own entry, and no entry of a page around it or in it is.

The end of a run is computed with 32 bits.  For runs of more than 2^32 - 2^20 frames it comes
out before the start, and the frame at which this happens is taken without any check.
-/

namespace JkxyKernel
namespace Paging

/-- A page that is allocated, and the number of its users.  Runs are freed frame by frame, so
every frame of a run is an allocation. -/
structure Allocation where
  gfp : Gfp
  idx : Nat
  refs : Nat
  deriving DecidableEq, Repr

/-- The bytes of a page. -/
def Gfp.size (gfp : Gfp) : Nat := if gfp.large then pageSizeLarge else pageSizeSmall

namespace Allocation

variable (a : Allocation)

/-- The frame at which the page begins. -/
def first : Nat := a.idx * a.gfp.pages

def Holds (frame : Nat) : Prop := a.first ≤ frame ∧ frame < a.first + a.gfp.pages

/-- No frame is in both. -/
def Apart (a b : Allocation) : Prop := ∀ frame, a.Holds frame → ¬ b.Holds frame

/-- The entry of `phys_dir` for the page. -/
def count : Int := if a.gfp.user then (a.refs : Int).bmod (2 ^ 16) else PHYS_DIR_KERNEL

end Allocation

/-- The memory, and what is allocated. -/
structure Supplied where
  memory : Memory
  live : List Allocation

inductive SupplyCall
  | alloc (gfp : Gfp)
  | allocConsecutive (num : Nat) (gfp : Gfp)
  | use (a : Allocation)
  | free (a : Allocation)

namespace Supplied

/-- The allocations of the frames of a run. -/
def run (gfp : Gfp) (first num : Nat) : List Allocation :=
  (List.range' first num).map fun f => ⟨gfp, f, 1⟩

/-- The calls, and what is allocated after them; the null pointer is no page. -/
def exec : SupplyCall → Supplied → Except Fault Supplied
  | .alloc gfp, s => do
      let (memory, frame) ← s.memory.allocPhysMem gfp
      .ok ⟨memory, if frame = 0 then s.live else ⟨gfp, frame / gfp.pages, 1⟩ :: s.live⟩
  | .allocConsecutive num gfp, s => do
      let (memory, frame) ← s.memory.allocPhysMemConsecutive num gfp
      .ok ⟨memory, if frame = 0 then s.live else run gfp frame num ++ s.live⟩
  | .use a, s => do
      let memory ← s.memory.usePhysMem a.first a.gfp
      .ok ⟨memory, { a with refs := a.refs + 1 } :: s.live.erase a⟩
  | .free a, s => do
      let memory ← s.memory.freePhysMem a.first a.gfp
      .ok ⟨memory, if a.gfp.user && 1 < a.refs then
        { a with refs := a.refs - 1 } :: s.live.erase a else s.live.erase a⟩

/-- Only what is allocated is used again or freed, and with the flags it was allocated with. -/
def machine : Machine Supplied SupplyCall Fault where
  enabled
    | .use a, s => decide (a ∈ s.live)
    | .free a, s => decide (a ∈ s.live)
    | _, _ => true
  exec := exec

/-- After `init_page`. -/
def Booted (maps : List MultibootMemoryMap) (physDir : Nat → Int) (s : Supplied) : Prop :=
  initPage ⟨true, maps⟩ physDir = .ok s.memory.physDir ∧ s.live = []

/-- No run is longer than 2^32 - 2^20 frames. -/
def InRange (_ : Supplied) : SupplyCall → Prop
  | .allocConsecutive num _ => num ≤ 2 ^ 32 - physDirSmallNum
  | _ => True

/-! ### The invariant -/

variable {booted : Nat → Int} {m m' : Memory} {live rest : List Allocation} {a b : Allocation}
  {gfp : Gfp} {idx frame num : Nat}

/-- `phys_dir` has the page as allocated, and the large page around it as unused. -/
structure Sound (booted : Nat → Int) (m : Memory) (a : Allocation) : Prop where
  scale : a.idx ∈ Memory.allocIndices a.gfp
  offered : booted a.idx = PHYS_DIR_UNUSED
  entry : m.physDir a.idx = a.count
  some : 0 < a.refs
  few : a.refs ≤ 2 ^ 15
  alone : a.gfp.large = false → m.physDir (a.idx / 1024) = PHYS_DIR_UNUSED

structure Inv (booted : Nat → Int) (s : Supplied) : Prop where
  preallocated : ∀ i < numPreallocateLarge, booted i = PHYS_DIR_KERNEL
  kernel : ∀ i < numPreallocateLarge, s.memory.physDir i = PHYS_DIR_KERNEL
  unused : ∀ i, s.memory.physDir i = PHYS_DIR_UNUSED → booted i = PHYS_DIR_UNUSED
  sound : ∀ a ∈ s.live, Sound booted s.memory a
  distinct : s.live.Pairwise fun a b => a.idx ≠ b.idx

theorem count_ne_unused (h : Sound booted m a) : a.count ≠ PHYS_DIR_UNUSED := by
  have hsome := h.some
  have hfew := h.few
  rw [Allocation.count, PHYS_DIR_UNUSED]
  split
  next =>
    rw [Int.bmod]
    omega
  next => decide

theorem count_first : (Allocation.mk gfp idx 1).count = gfp.taken := by
  have hone : ((1 : Nat) : Int).bmod (2 ^ 16) = 1 := by decide
  rw [Allocation.count, hone]
  rfl

theorem Sound.small_range (h : Sound booted m a) (hsmall : a.gfp.large = false) :
    physDirLargeNum ≤ a.idx ∧ a.idx < physDirSmallNum :=
  (Memory.mem_allocIndices_small hsmall).mp h.scale

theorem Sound.large_range (h : Sound booted m a) (hlarge : a.gfp.large = true) :
    a.idx < physDirLargeNum :=
  (Memory.mem_allocIndices_large hlarge).mp h.scale

/-- The large page around a frame has an entry of its own. -/
theorem Sound.around_lt (h : Sound booted m a) (hsmall : a.gfp.large = false) :
    a.idx / 1024 < physDirLargeNum := by
  have hrange := (h.small_range hsmall).2
  rw [physDirSmallNum] at hrange
  rw [physDirLargeNum]
  omega

/-- An entry that is not about a page does not matter for it. -/
theorem Sound.set (h : Sound booted m a) {v : Int} (hne : a.idx ≠ idx)
    (haround : a.gfp.large = false → a.idx / 1024 ≠ idx) :
    Sound booted (m.setPhysDir idx v) a where
  scale := h.scale
  offered := h.offered
  entry := (Memory.setPhysDir_of_ne _ hne).trans h.entry
  some := h.some
  few := h.few
  alone hsmall := (Memory.setPhysDir_of_ne _ (haround hsmall)).trans (h.alone hsmall)

namespace Inv

theorem perm (h : Inv booted ⟨m, live⟩) (hperm : live.Perm rest) : Inv booted ⟨m, rest⟩ where
  preallocated := h.preallocated
  kernel := h.kernel
  unused := h.unused
  sound a ha := h.sound a (hperm.mem_iff.mpr ha)
  distinct := (hperm.pairwise_iff fun hne => Ne.symm hne).mp h.distinct

/-- What is offered by the boot loader is no pre-allocated page. -/
theorem not_preallocated (h : Inv booted ⟨m, live⟩) {i : Nat} (hi : i < numPreallocateLarge)
    (hidx : booted idx = PHYS_DIR_UNUSED) : i ≠ idx := by
  rintro rfl
  rw [h.preallocated i hi] at hidx
  cases hidx

/-- An entry of what is offered may be changed, if the allocations agree with it. -/
theorem set (h : Inv booted ⟨m, live⟩) {v : Int} (hidx : booted idx = PHYS_DIR_UNUSED)
    (hsound : ∀ a ∈ rest, Sound booted (m.setPhysDir idx v) a)
    (hdistinct : rest.Pairwise fun a b => a.idx ≠ b.idx) :
    Inv booted ⟨m.setPhysDir idx v, rest⟩ where
  preallocated := h.preallocated
  kernel i hi := (Memory.setPhysDir_of_ne _ (h.not_preallocated hi hidx)).trans (h.kernel i hi)
  unused i hi := by
    by_cases hii : i = idx
    · rw [hii]
      exact hidx
    · exact h.unused i ((Memory.setPhysDir_of_ne _ hii).symm.trans hi)
  sound := hsound
  distinct := hdistinct

/-! ### Pages that are taken -/

theorem take (h : Inv booted ⟨m, live⟩) (hfree : m.Free gfp idx) :
    Inv booted ⟨m.setPhysDir idx gfp.taken,
      ⟨gfp, idx, 1⟩ :: live⟩ := by
  have hoffered := h.unused idx hfree.unused
  have hne : ∀ a ∈ live, a.idx ≠ idx := by
    intro a ha heq
    have hentry := (h.sound a ha).entry
    rw [heq, hfree.unused] at hentry
    exact count_ne_unused (h.sound a ha) hentry.symm
  refine h.set hoffered ?_ (List.pairwise_cons.mpr ⟨fun a ha => (hne a ha).symm, h.distinct⟩)
  intro a ha
  rcases List.mem_cons.mp ha with rfl | ha
  · refine ⟨hfree.scale, hoffered, (m.setPhysDir_self).trans count_first.symm, Nat.one_pos,
      Nat.one_le_two_pow, fun hsmall => ?_⟩
    have hlow := ((Memory.mem_allocIndices_small hsmall).mp hfree.scale).1
    have haround : idx / 1024 ≠ idx := by
      rw [physDirLargeNum] at hlow
      omega
    exact (m.setPhysDir_of_ne haround).trans (hfree.around hsmall)
  · have hsound := h.sound a ha
    refine hsound.set (hne a ha) fun hsmall haround => ?_
    have hlt := hsound.around_lt hsmall
    cases hlarge : gfp.large with
    | true =>
        have hentry := hsound.entry
        rw [hfree.frames hlarge a.idx haround] at hentry
        exact count_ne_unused hsound hentry.symm
    | false =>
        have hlow := ((Memory.mem_allocIndices_small hlarge).mp hfree.scale).1
        rw [haround] at hlt
        exact Nat.not_lt.mpr hlow hlt

theorem alloc (h : Inv booted ⟨m, live⟩) (halloc : m.allocPhysMem gfp = .ok (m', frame)) :
    Inv booted ⟨m', if frame = 0 then live else ⟨gfp, frame / gfp.pages, 1⟩ :: live⟩ := by
  rcases Memory.allocPhysMem_found halloc with ⟨rfl, rfl, -⟩ | ⟨idx, hmem, hfree, rfl, rfl⟩
  · exact h
  · have htake := h.take (Memory.free_of_isFree hmem hfree)
    have hpages : 0 < gfp.pages := by
      rw [Gfp.pages]
      split <;> decide
    have hidx : idx ≠ 0 := by
      rintro rfl
      have hoffered := h.unused 0 (Memory.free_of_isFree hmem hfree).unused
      exact h.not_preallocated (by decide) hoffered rfl
    rw [if_neg (Nat.mul_ne_zero hidx (Nat.ne_of_gt hpages)), Nat.mul_div_cancel idx hpages]
    exact htake

/-- The second loop of `alloc_phys_mem_consecutive`, by induction on the frames that it has
gone through. -/
theorem takeFrames (hsmall : gfp.large = false) (hkernel : gfp.user = false)
    (h : Inv booted ⟨m, live⟩) (hlow : physDirLargeNum ≤ idx)
    (hfree : ∀ f, idx ≤ f → f < idx + num → f < physDirSmallNum ∧ m.FrameUnused f) :
    Inv booted ⟨(List.range' idx num).foldl (fun m j => m.setPhysDir j PHYS_DIR_KERNEL) m,
      run gfp idx num ++ live⟩ ∧
      ∀ f, (f < idx ∨ idx + num ≤ f) →
        ((List.range' idx num).foldl (fun m j => m.setPhysDir j PHYS_DIR_KERNEL) m).physDir f =
          m.physDir f := by
  induction num with
  | zero => exact ⟨h, fun _ _ => rfl⟩
  | succ num ih =>
      obtain ⟨hinv, hother⟩ := ih fun f hle hlt => hfree f hle (Nat.lt_succ_of_lt hlt)
      obtain ⟨hlt, haround, hunused⟩ :=
        hfree (idx + num) (Nat.le_add_right _ _) (Nat.lt_succ_self _)
      have hdiv : (idx + num) / 1024 < idx := by
        rw [physDirLargeNum] at hlow
        rw [physDirSmallNum] at hlt
        omega
      have hfree' : Memory.Free
          ((List.range' idx num).foldl (fun m j => m.setPhysDir j PHYS_DIR_KERNEL) m) gfp (idx + num) :=
        ⟨(Memory.mem_allocIndices_small hsmall).mpr ⟨Nat.le_trans hlow (Nat.le_add_right _ _), hlt⟩,
          (hother _ (.inr (Nat.le_refl _))).trans hunused,
          fun hlarge => absurd (hsmall.symm.trans hlarge) Bool.false_ne_true,
          fun _ => (hother _ (.inl hdiv)).trans haround⟩
      have htake := hinv.take hfree'
      have htaken : gfp.taken = PHYS_DIR_KERNEL := if_neg (by rw [hkernel]; exact Bool.false_ne_true)
      rw [htaken] at htake
      rw [List.range'_concat, List.foldl_append, Nat.one_mul]
      constructor
      · refine htake.perm ?_
        rw [run, run, List.range'_concat, Nat.one_mul, List.map_append, List.append_assoc]
        exact List.perm_middle.symm
      · intro f hf
        have hne : f ≠ idx + num := by omega
        exact (Memory.setPhysDir_of_ne _ hne).trans (hother f (by omega))

theorem allocConsecutive (h : Inv booted ⟨m, live⟩) (hnum : num ≤ 2 ^ 32 - physDirSmallNum)
    (halloc : m.allocPhysMemConsecutive num gfp = .ok (m', frame)) :
    Inv booted ⟨m', if frame = 0 then live else run gfp frame num ++ live⟩ := by
  cases hgfp : gfp.large || gfp.user with
  | true =>
      rw [Memory.allocPhysMemConsecutive, if_pos hgfp] at halloc
      cases halloc
      exact h
  | false =>
      obtain ⟨hsmall, hkernel⟩ := Bool.or_eq_false_iff.mp hgfp
      rcases Memory.allocPhysMemConsecutive_found hgfp halloc with
        ⟨rfl, rfl, -⟩ | ⟨hmem, hfree, htake⟩
      · exact h
      · obtain ⟨hlow, hhigh⟩ := (Memory.mem_allocIndices_small hsmall).mp hmem
        have hwrap : frame + num < 2 ^ 32 := by
          rw [physDirSmallNum] at hnum hhigh
          omega
        obtain ⟨hrun, hbound⟩ := (Memory.runFree_iff_of_lt hlow hwrap).mp hfree
        rw [Memory.takeRun_eq (by rw [Memory.runEnd_eq hwrap]; exact hbound),
          Memory.runEnd_eq hwrap,
          Nat.mod_eq_of_lt (Nat.lt_of_le_of_lt (Nat.le_add_right _ _) hbound),
          Nat.add_sub_cancel_left] at htake
        cases htake
        rw [if_neg (Nat.ne_of_gt (Nat.lt_of_lt_of_le (by decide) hlow))]
        exact (takeFrames hsmall hkernel h hlow fun f hle hlt =>
          ⟨Nat.lt_of_lt_of_le hlt hrun.high, hrun.frames f hle hlt⟩).1

/-! ### Pages that are used again and freed -/

/-- Other allocations have other entries, and none in the entry of a page around them. -/
theorem apart_entries (h : Inv booted ⟨m, a :: rest⟩) (hb : b ∈ rest) :
    b.idx ≠ a.idx ∧ (b.gfp.large = false → b.idx / 1024 ≠ a.idx) := by
  refine ⟨((List.pairwise_cons.mp h.distinct).1 b hb).symm, fun hsmall haround => ?_⟩
  have hsound := h.sound a List.mem_cons_self
  have halone := (h.sound b (List.mem_cons_of_mem _ hb)).alone hsmall
  rw [haround, hsound.entry] at halone
  exact count_ne_unused hsound halone

/-- One allocation is given up. -/
theorem drop (h : Inv booted ⟨m, a :: rest⟩) :
    Inv booted ⟨m.setPhysDir a.idx PHYS_DIR_UNUSED, rest⟩ := by
  refine h.set (h.sound a List.mem_cons_self).offered (fun b hb => ?_)
    (List.pairwise_cons.mp h.distinct).2
  obtain ⟨hne, haround⟩ := h.apart_entries hb
  exact (h.sound b (List.mem_cons_of_mem _ hb)).set hne haround

/-- The number of its users changes. -/
theorem recount (h : Inv booted ⟨m, a :: rest⟩) {refs : Nat} (hsome : 0 < refs)
    (hfew : refs ≤ 2 ^ 15) {v : Int} (hv : v = { a with refs := refs }.count) :
    Inv booted ⟨m.setPhysDir a.idx v, { a with refs := refs } :: rest⟩ := by
  have hsound := h.sound a List.mem_cons_self
  refine h.set hsound.offered (fun b hb => ?_) (List.pairwise_cons.mpr
    ⟨(List.pairwise_cons.mp h.distinct).1, (List.pairwise_cons.mp h.distinct).2⟩)
  rcases List.mem_cons.mp hb with rfl | hb
  · refine ⟨hsound.scale, hsound.offered, (m.setPhysDir_self).trans hv, hsome, hfew,
      fun hsmall => ?_⟩
    have hlow := (hsound.small_range hsmall).1
    have haround : a.idx / 1024 ≠ a.idx := by
      rw [physDirLargeNum] at hlow
      omega
    exact (m.setPhysDir_of_ne haround).trans (hsound.alone hsmall)
  · obtain ⟨hne, haround⟩ := h.apart_entries hb
    exact (h.sound b (List.mem_cons_of_mem _ hb)).set hne haround

theorem first_div_pages (a : Allocation) : a.first / a.gfp.pages = a.idx := by
  rw [Allocation.first, Gfp.pages]
  split
  next => exact Nat.mul_div_cancel _ (by decide)
  next => exact Nat.mul_div_cancel _ (by decide)

theorem count_user (huser : a.gfp.user = true) (hfew : a.refs < 2 ^ 15) :
    a.count = a.refs := by
  rw [Allocation.count, if_pos huser, Int.bmod]
  omega

/-- A positive count is that of a user program, and has not overflowed. -/
theorem of_count_pos (hsome : 0 < a.refs) (hfew : a.refs ≤ 2 ^ 15) (hpos : 0 < a.count) :
    a.gfp.user = true ∧ a.refs < 2 ^ 15 := by
  rw [Allocation.count] at hpos
  split at hpos
  next huser =>
    refine ⟨huser, ?_⟩
    rw [Int.bmod] at hpos
    omega
  next => exact absurd hpos (by decide)

theorem use (h : Inv booted ⟨m, a :: rest⟩) (huse : m.usePhysMem a.first a.gfp = .ok m') :
    Inv booted ⟨m', { a with refs := a.refs + 1 } :: rest⟩ := by
  have hsound := h.sound a List.mem_cons_self
  rw [Memory.usePhysMem, first_div_pages] at huse
  split at huse
  next => cases huse
  next hpos =>
    rw [hsound.entry] at hpos huse
    obtain ⟨huser, hfew⟩ := of_count_pos hsound.some hsound.few (Int.not_le.mp hpos)
    rw [huser] at huse
    cases huse
    refine h.recount (Nat.succ_pos _) hfew ?_
    rw [count_user huser hfew, Allocation.count, if_pos huser]
    rfl

theorem free (h : Inv booted ⟨m, a :: rest⟩) (hfree : m.freePhysMem a.first a.gfp = .ok m') :
    Inv booted ⟨m', if a.gfp.user && 1 < a.refs then
      { a with refs := a.refs - 1 } :: rest else rest⟩ := by
  have hsound := h.sound a List.mem_cons_self
  rw [Memory.freePhysMem, first_div_pages, hsound.entry] at hfree
  split at hfree
  next => cases hfree
  next =>
    split at hfree
    next => cases hfree
    next =>
      split at hfree
      next hkernel =>
        -- the kernel's pages have one user
        split at hfree
        next => cases hfree
        next huser =>
          cases hfree
          rw [Bool.not_eq_true] at huser
          rw [huser]
          exact h.drop
      next =>
        split at hfree
        next hpos =>
          obtain ⟨huser, hfew⟩ := of_count_pos hsound.some hsound.few hpos
          rw [if_pos huser, count_user huser hfew] at hfree
          cases hfree
          by_cases hmore : 1 < a.refs
          · rw [huser, decide_eq_true hmore]
            refine h.recount (Nat.sub_pos_of_lt hmore) (by omega) ?_
            have hcount : { a with refs := a.refs - 1 }.count = ((a.refs - 1 : Nat) : Int) :=
              count_user huser (Nat.lt_of_le_of_lt (Nat.sub_le _ _) hfew)
            rw [hcount]
            omega
          · have hone : a.refs = 1 := by
              have hsome := hsound.some
              omega
            rw [huser, decide_eq_false hmore, hone]
            exact h.drop
        next => cases hfree

end Inv

/-! ### All runs -/

variable {maps : List MultibootMemoryMap} {physDir : Nat → Int} {s s' : Supplied}

theorem Inv.step {call : SupplyCall} (h : Inv booted s) (hcall : InRange s call)
    (hstep : machine.Step s call s') : Inv booted s' := by
  obtain ⟨hlive, hexec⟩ := hstep
  cases call with
  | alloc gfp =>
      obtain ⟨⟨m, frame⟩, halloc, hdone⟩ := Machine.bind_eq_ok_iff.mp hexec
      cases hdone
      exact Inv.alloc h halloc
  | allocConsecutive num gfp =>
      obtain ⟨⟨m, frame⟩, halloc, hdone⟩ := Machine.bind_eq_ok_iff.mp hexec
      cases hdone
      exact Inv.allocConsecutive h hcall halloc
  | use a =>
      obtain ⟨m, huse, hdone⟩ := Machine.bind_eq_ok_iff.mp hexec
      cases hdone
      exact Inv.use (h.perm (List.perm_cons_erase (of_decide_eq_true hlive))) huse
  | free a =>
      obtain ⟨m, hfree, hdone⟩ := Machine.bind_eq_ok_iff.mp hexec
      cases hdone
      exact Inv.free (h.perm (List.perm_cons_erase (of_decide_eq_true hlive))) hfree

/-- What is unused after `init_page` is offered by an entry of the memory map. -/
theorem offered_of_unused (hboot : initPage ⟨true, maps⟩ physDir = .ok booted)
    (hlt : idx < physDirSmallNum) (hidx : booted idx = PHYS_DIR_UNUSED) :
    numPreallocateLarge ≤ idx ∧ Marked maps idx := by
  obtain ⟨booted', hboot', hkernel, hrest⟩ := initPage_eq maps physDir
  cases hboot.symm.trans hboot'
  have hlow : numPreallocateLarge ≤ idx := by
    refine Nat.not_lt.mp fun hlt => ?_
    rw [hkernel idx hlt] at hidx
    cases hidx
  exact ⟨hlow, (unused_iff_marked (hrest idx hlow hlt)).mp hidx⟩

theorem Inv.start (h : Booted maps physDir s) : Inv s.memory.physDir s := by
  obtain ⟨hboot, hlive⟩ := h
  obtain ⟨booted', hboot', hkernel, -⟩ := initPage_eq maps physDir
  cases hboot.symm.trans hboot'
  refine ⟨hkernel, hkernel, fun _ => id, ?_, ?_⟩
  · rw [hlive]
    exact nofun
  · rw [hlive]
    exact .nil

theorem Sound.apart (ha : Sound booted m a) (hb : Sound booted m b) (hne : a.idx ≠ b.idx) :
    a.Apart b := by
  intro f hfa hfb
  rw [Allocation.Holds, Allocation.first, Gfp.pages] at hfa hfb
  cases hlarge : a.gfp.large with
  | true =>
      rw [hlarge] at hfa
      cases hlarge' : b.gfp.large with
      | true =>
          rw [hlarge'] at hfb
          simp only [if_true] at hfa hfb
          omega
      | false =>
          rw [hlarge'] at hfb
          simp only [if_true, Bool.false_eq_true, if_false] at hfa hfb
          have haround : b.idx / 1024 = a.idx := by omega
          have halone := hb.alone hlarge'
          rw [haround, ha.entry] at halone
          exact count_ne_unused ha halone
  | false =>
      rw [hlarge] at hfa
      cases hlarge' : b.gfp.large with
      | true =>
          rw [hlarge'] at hfb
          simp only [if_true, Bool.false_eq_true, if_false] at hfa hfb
          have haround : a.idx / 1024 = b.idx := by omega
          have halone := ha.alone hlarge
          rw [haround, hb.entry] at halone
          exact count_ne_unused hb halone
      | false =>
          rw [hlarge'] at hfb
          simp only [Bool.false_eq_true, if_false] at hfa hfb
          omega

/-- An allocation is behind the pre-allocated memory, and in an entry of the memory map. -/
theorem Sound.available (ha : Sound booted m a)
    (hboot : initPage ⟨true, maps⟩ physDir = .ok booted) :
    numPreallocateLarge * 1024 ≤ a.first ∧ ∃ mmap ∈ maps, mmap.Covers a.gfp.size a.idx := by
  rw [Allocation.first, Gfp.pages, Gfp.size]
  cases hlarge : a.gfp.large with
  | true =>
      have hlt := ha.large_range hlarge
      obtain ⟨hlow, hmarked⟩ := offered_of_unused hboot (Nat.lt_trans hlt (by decide)) ha.offered
      obtain ⟨mmap, hmem, -, hcovers⟩ := (marked_large_iff hlow hlt).mp hmarked
      exact ⟨Nat.mul_le_mul_right _ hlow, mmap, hmem, hcovers⟩
  | false =>
      obtain ⟨hlow, hlt⟩ := ha.small_range hlarge
      obtain ⟨-, hmarked⟩ := offered_of_unused hboot hlt ha.offered
      obtain ⟨hle, mmap, hmem, -, hcovers⟩ := (marked_small_iff hlow).mp hmarked
      exact ⟨(Nat.mul_one a.idx).symm ▸ hle, mmap, hmem, hcovers⟩

/-- What holds of all that is allocated. -/
structure Disjoint (maps : List MultibootMemoryMap) (s : Supplied) : Prop where
  apart : s.live.Pairwise Allocation.Apart
  available : ∀ a ∈ s.live, numPreallocateLarge * 1024 ≤ a.first ∧
    ∃ mmap ∈ maps, mmap.Covers a.gfp.size a.idx

theorem Inv.disjoint (h : Inv booted s) (hboot : initPage ⟨true, maps⟩ physDir = .ok booted) :
    Disjoint maps s where
  apart := h.distinct.imp_of_mem fun ha hb hne => (h.sound _ ha).apart (h.sound _ hb) hne
  available a ha := (h.sound a ha).available hboot

/-- **Allocations do not overlap.**  In every run from the boot in which no run of frames is
longer than 2^32 - 2^20, the pages that are allocated have no frame in common, are not among
the pre-allocated ones, and lie in memory that the boot loader reports available. -/
theorem allocations_disjoint (maps : List MultibootMemoryMap) (physDir : Nat → Int) (s : Supplied)
    (h : machine.Reach (Booted maps physDir) InRange s) : Disjoint maps s := by
  have hinv : ∃ booted, initPage ⟨true, maps⟩ physDir = .ok booted ∧ Inv booted s := by
    refine h.invariant (P := fun s => ∃ booted, initPage ⟨true, maps⟩ physDir = .ok booted ∧
      Inv booted s) ?_ ?_
    · exact fun s hbooted => ⟨s.memory.physDir, hbooted.1, Inv.start hbooted⟩
    · rintro s call s' ⟨booted, hboot, hinv⟩ hcall hstep
      exact ⟨booted, hboot, hinv.step hcall hstep⟩
  obtain ⟨booted, hboot, hinv⟩ := hinv
  exact hinv.disjoint hboot

/-! ### A machine of 64 MiB -/

/-- All memory from 1 MiB on. -/
def extendedMemory : MultibootMemoryMap where
  baseAddrLow := 0x100000
  baseAddrHigh := 0
  lengthLow := 0x3f00000
  lengthHigh := 0
  type := 1

theorem marked_extendedMemory {i : Nat} (hlow : physDirLargeNum * 3 ≤ i) (hi : i < 16384) :
    Marked [extendedMemory] i := by
  refine ⟨extendedMemory, List.mem_singleton_self _, by decide, .inr ⟨?_, ⟨rfl, rfl⟩, ?_, ?_⟩⟩
  · rw [Nat.mul_comm]
    exact hlow
  · have hbase : extendedMemory.baseAddrLow.toNat = 1048576 := rfl
    rw [hbase, pageSizeSmall]
    rw [physDirLargeNum] at hlow
    omega
  · have hend : extendedMemory.baseAddrLow.toNat + extendedMemory.length = 67108864 := rfl
    rw [hend, pageSizeSmall]
    omega

theorem marked_extendedMemory_large : Marked [extendedMemory] 3 :=
  ⟨extendedMemory, List.mem_singleton_self _, by decide,
    .inl ⟨by decide, by decide, ⟨rfl, rfl⟩, by decide, by decide⟩⟩

/-- The memory with this table. -/
def withTable (physDir : Nat → Int) : Memory where
  physDir := physDir
  heapTables _ := .zero
  entries _ _ := .zero
  data _ _ := 0
  cr3 := initPageDirectory

/-- The first large page that is taken is the one behind the pre-allocated ones. -/
theorem disjoint_extendedMemory :
    ∃ s : Supplied, s.live = [⟨gfpUserLarge, 3, 1⟩] ∧ Disjoint [extendedMemory] s := by
  obtain ⟨booted, hboot, hkernel, hrest⟩ := initPage_eq [extendedMemory] fun _ => 0
  have hused : ∀ idx < 3, (withTable booted).isFree gfpUserLarge idx = .ok false := by
    intro idx hidx
    have hentry : (withTable booted).physDir idx = PHYS_DIR_KERNEL := hkernel idx hidx
    rw [Memory.isFree, hentry]
    exact if_pos (by decide)
  have hunused : (withTable booted).LargeUnused 3 := by
    refine ⟨by decide, (hrest 3 (by decide) (by decide)).1 marked_extendedMemory_large, ?_⟩
    intro f hf
    refine (hrest f (by rw [numPreallocateLarge]; omega) (by rw [physDirSmallNum]; omega)).1
      (marked_extendedMemory ?_ (by omega))
    rw [physDirLargeNum]
    omega
  have hfound : (Memory.allocIndices gfpUserLarge).findM? ((withTable booted).isFree gfpUserLarge) =
      .ok (some 3) := by
    refine FirstFit.findM?_eq_some_iff.mpr ⟨List.range' 0 3, List.range' 4 1020, rfl,
      (Memory.isFree_large_iff rfl (by decide)).mpr ⟨by decide, hunused⟩, fun idx hidx => ?_⟩
    exact hused idx (List.mem_range'_1.mp hidx).2
  have hstep : machine.Step ⟨withTable booted, []⟩ (.alloc gfpUserLarge)
      ⟨(withTable booted).setPhysDir 3 1, [⟨gfpUserLarge, 3, 1⟩]⟩ := by
    refine ⟨rfl, Machine.bind_eq_ok_iff.mpr ⟨((withTable booted).setPhysDir 3 1, 3072), ?_, rfl⟩⟩
    rw [Memory.allocPhysMem, hfound]
    rfl
  have hcall : InRange ⟨withTable booted, []⟩ (.alloc gfpUserLarge) := trivial
  exact ⟨_, rfl, allocations_disjoint [extendedMemory] (fun _ => 0) _
    (.step (.start ⟨hboot, rfl⟩) hcall hstep)⟩

/-- A run of 2^32 - 1 frames is said to begin at frame 1024, which is pre-allocated. -/
theorem run_of_all_frames :
    ∃ s s', Booted [extendedMemory] (fun _ => 0) s ∧
      machine.Step s (.allocConsecutive (2 ^ 32 - 1) gfpKernel) s' ∧
      ¬ Disjoint [extendedMemory] s' := by
  obtain ⟨booted, hboot, -, -⟩ := initPage_eq [extendedMemory] fun _ => 0
  have hend : Memory.runEnd (2 ^ 32 - 1) 1024 = 1023 := by decide
  have hbound : Memory.runEnd (2 ^ 32 - 1) 1024 < Memory.counterSize := by rw [hend]; decide
  have hstart : 1024 % Memory.counterSize = 1024 := by decide
  have hfree : (withTable booted).runFree (2 ^ 32 - 1) 1024 = .ok true := by
    refine Memory.runFree_iff.mpr ⟨hbound, fun j hle hlt => ?_⟩
    omega
  have htake : (withTable booted).takeRun (2 ^ 32 - 1) 1024 = .ok (withTable booted) := by
    rw [Memory.takeRun_eq hbound, hend, hstart]
    rfl
  have halloc : (withTable booted).allocPhysMemConsecutive (2 ^ 32 - 1) gfpKernel =
      .ok (withTable booted, 1024) := by
    obtain ⟨rest, hrest⟩ := @Memory.allocIndices_eq_cons gfpKernel rfl
    rw [Memory.allocPhysMemConsecutive_eq rfl, hrest, physDirLargeNum,
      FirstFit.findM?_cons_true hfree]
    exact Machine.bind_eq_ok_iff.mpr ⟨_, rfl, Machine.bind_eq_ok_iff.mpr ⟨_, htake, rfl⟩⟩
  refine ⟨⟨withTable booted, []⟩, ⟨withTable booted, run gfpKernel 1024 (2 ^ 32 - 1) ++ []⟩,
    ⟨hboot, rfl⟩, ⟨rfl, Machine.bind_eq_ok_iff.mpr ⟨_, halloc, rfl⟩⟩, fun h => ?_⟩
  have hmem : (⟨gfpKernel, 1024, 1⟩ : Allocation) ∈ run gfpKernel 1024 (2 ^ 32 - 1) :=
    List.mem_map.mpr ⟨1024, List.mem_range'_1.mpr ⟨Nat.le_refl _, by decide⟩, rfl⟩
  exact absurd (h.available _ (List.mem_append_left _ hmem)).1 (by decide)

end Supplied
end Paging
end JkxyKernel
