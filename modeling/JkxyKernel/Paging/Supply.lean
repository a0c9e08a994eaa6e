import JkxyKernel.Lib.FirstFit
import JkxyKernel.Paging.Frames

/-!
# When physical memory is found

`alloc_phys_mem` and `alloc_phys_mem_consecutive` go through `phys_dir` and take the first page,
or the first run of frames, that is not in use.  Their inner loops count frames with 16 bits:
a large page from number 63 on, and a run that ends behind frame 65534, are never found to be
free, whatever `phys_dir` says.
-/

namespace JkxyKernel
namespace Paging
namespace Memory

open FirstFit WrappedCounter

variable {s s' : Memory} {gfp : Gfp} {idx frame num first : Nat}

/-- The entry of a large page, and those of all small ones in it, are unused. -/
structure LargeUnused (s : Memory) (idx : Nat) : Prop where
  lt : idx < physDirLargeNum
  unused : s.physDir idx = PHYS_DIR_UNUSED
  frames : ∀ f, f / 1024 = idx → s.physDir f = PHYS_DIR_UNUSED

/-- The entry of a frame, and the one of the large page around it, are unused. -/
def FrameUnused (s : Memory) (f : Nat) : Prop :=
  s.physDir (f / 1024) = PHYS_DIR_UNUSED ∧ s.physDir f = PHYS_DIR_UNUSED

/-- A run of unused frames. -/
structure RunUnused (s : Memory) (num first : Nat) : Prop where
  low : physDirLargeNum ≤ first
  high : first + num ≤ physDirSmallNum
  frames : ∀ f, first ≤ f → f < first + num → s.FrameUnused f

/-- Some entry that a 16-bit counter gets to is in use. -/
def SomeUsed (s : Memory) : Prop := ∃ j < counterSize, s.physDir j ≠ PHYS_DIR_UNUSED

/-! ### The counters -/

theorem counterSize_pos : 0 < counterSize := Nat.two_pow_pos 16

theorem sub_lt_counterRounds {bound i : Nat} (h : bound < counterSize) :
    bound - i < counterRounds :=
  Nat.lt_of_le_of_lt (Nat.sub_le _ _) (Nat.lt_succ_of_lt h)

theorem counterSize_lt_counterRounds : counterSize < counterRounds := Nat.lt_succ_self counterSize

theorem orHang_eq_ok {α : Type} {x : Option α} {a : α} : orHang x = .ok a ↔ x = some a := by
  cases x with
  | none => exact iff_of_false nofun nofun
  | some b =>
      exact ⟨fun h => congrArg some (Except.ok.inj h), fun h => congrArg _ (Option.some.inj h)⟩

theorem map_not_eq_true {x : Except Fault Bool} : x.map not = .ok true ↔ x = .ok false := by
  cases x with
  | error e => exact iff_of_false nofun nofun
  | ok b => cases b <;> decide

/-! ### Large pages -/

section Large

variable (hlarge : gfp.large = true)

theorem regionBusy_eq_false_of_lt (hidx : idx < 63) :
    s.regionBusy idx = .ok false ↔ ∀ f, f / 1024 = idx → s.physDir f = PHYS_DIR_UNUSED := by
  have hbound : (idx + 1) * 1024 < counterSize := by
    rw [counterSize]
    omega
  have hstart : idx * 1024 % counterSize = idx * 1024 :=
    Nat.mod_eq_of_lt (Nat.lt_of_le_of_lt (Nat.mul_le_mul_right _ (Nat.le_succ idx)) hbound)
  rw [regionBusy, orHang_eq_ok, hstart,
    scan_eq_false_of_lt hbound (sub_lt_counterRounds hbound)]
  constructor
  · intro h f hf
    exact bne_eq_false_iff_eq.mp (h f (by omega) (by omega))
  · intro h j hle hlt
    exact bne_eq_false_iff_eq.mpr (h j (by omega))

/-- The counter of the inner loop never gets to the end of these pages. -/
theorem regionBusy_ne_false (hidx : 63 ≤ idx) : s.regionBusy idx ≠ .ok false := by
  rw [regionBusy, ne_eq, orHang_eq_ok]
  exact scan_ne_false (by rw [counterSize]; omega) (Nat.mod_lt _ counterSize_pos)

theorem regionBusy_ok (h : idx < 63 ∨ s.SomeUsed) : ∃ busy, s.regionBusy idx = .ok busy := by
  have hends : (idx + 1) * 1024 < counterSize ∨
      ∃ j < counterSize, (s.physDir j != PHYS_DIR_UNUSED) = true := by
    rcases h with hidx | ⟨j, hj, hused⟩
    · exact .inl (by rw [counterSize]; omega)
    · exact .inr ⟨j, hj, bne_iff_ne.mpr hused⟩
  obtain ⟨busy, hbusy⟩ := scan_ok (Nat.mod_lt (idx * 1024) counterSize_pos)
    counterSize_lt_counterRounds hends
  exact ⟨busy, orHang_eq_ok.mpr hbusy⟩

include hlarge

theorem isFree_large (hunused : s.physDir idx = PHYS_DIR_UNUSED) :
    s.isFree gfp idx = (s.regionBusy idx).map not := by
  rw [isFree, if_neg (not_not.mpr hunused), if_pos hlarge]

/-- A large page is taken if it is unused, and one of the first 63. -/
theorem isFree_large_iff (hidx : idx < physDirLargeNum) :
    s.isFree gfp idx = .ok true ↔ idx < 63 ∧ s.LargeUnused idx := by
  by_cases hunused : s.physDir idx = PHYS_DIR_UNUSED
  · rw [isFree_large hlarge hunused, map_not_eq_true]
    rcases Nat.lt_or_ge idx 63 with hlt | hge
    · rw [regionBusy_eq_false_of_lt hlt]
      exact ⟨fun h => ⟨hlt, hidx, hunused, h⟩, fun h => h.2.frames⟩
    · exact iff_of_false (regionBusy_ne_false hge) fun h => Nat.not_lt.mpr hge h.1
  · rw [isFree, if_pos hunused]
    exact iff_of_false (by decide) fun h => hunused h.2.unused

theorem isFree_large_ok (h : idx < 63 ∨ s.SomeUsed) : ∃ free, s.isFree gfp idx = .ok free := by
  by_cases hunused : s.physDir idx = PHYS_DIR_UNUSED
  · obtain ⟨busy, hbusy⟩ := regionBusy_ok h
    exact ⟨!busy, by rw [isFree_large hlarge hunused, hbusy]; rfl⟩
  · exact ⟨false, by rw [isFree, if_pos hunused]⟩

theorem mem_allocIndices_large : idx ∈ allocIndices gfp ↔ idx < physDirLargeNum := by
  rw [allocIndices, if_pos hlarge, List.mem_range'_1, Nat.zero_add]
  exact and_iff_right (Nat.zero_le _)

end Large

/-! ### Small pages -/

theorem mem_allocIndices_small (hsmall : gfp.large = false) :
    idx ∈ allocIndices gfp ↔ physDirLargeNum ≤ idx ∧ idx < physDirSmallNum := by
  rw [allocIndices, if_neg (by rw [hsmall]; exact Bool.false_ne_true), List.mem_range'_1]
  exact Iff.rfl

theorem isFree_small (hsmall : gfp.large = false) :
    s.isFree gfp idx = .ok (decide (s.physDir (idx / 1024) = PHYS_DIR_UNUSED ∧
      s.physDir idx = PHYS_DIR_UNUSED)) := by
  rw [isFree]
  split
  next hused => rw [decide_eq_false fun h => hused h.2]
  next hunused =>
    rw [if_neg (by rw [hsmall]; exact Bool.false_ne_true)]
    rw [not_not] at hunused
    simp only [hunused, and_true]
    rfl

/-! ### Runs -/

/-- A run is taken if the loop gets to its end, and finds all frames on its way unused. -/
theorem runFree_iff :
    s.runFree num idx = .ok true ↔ runEnd num idx < counterSize ∧
      ∀ j, idx % counterSize ≤ j → j < runEnd num idx → s.FrameUnused j := by
  rw [runFree, map_not_eq_true, orHang_eq_ok]
  rcases Nat.lt_or_ge (runEnd num idx) counterSize with hbound | hbound
  · rw [scan_eq_false_of_lt hbound (sub_lt_counterRounds hbound), and_iff_right hbound]
    refine forall_congr' fun j => forall₂_congr fun _ _ => ?_
    rw [Bool.or_eq_false_iff, bne_eq_false_iff_eq, bne_eq_false_iff_eq]
    rfl
  · exact iff_of_false (scan_ne_false hbound (Nat.mod_lt _ counterSize_pos)) fun h =>
      Nat.not_lt.mpr hbound h.1

theorem runFree_ok (h : runEnd num idx < counterSize ∨ s.SomeUsed) :
    ∃ free, s.runFree num idx = .ok free := by
  have hends : runEnd num idx < counterSize ∨ ∃ j < counterSize,
      (s.physDir (j / 1024) != PHYS_DIR_UNUSED || s.physDir j != PHYS_DIR_UNUSED) = true := by
    refine h.imp_right ?_
    rintro ⟨j, hj, hused⟩
    exact ⟨j, hj, Bool.or_eq_true_iff.mpr (.inr (bne_iff_ne.mpr hused))⟩
  obtain ⟨busy, hbusy⟩ := scan_ok (Nat.mod_lt idx counterSize_pos)
    counterSize_lt_counterRounds hends
  exact ⟨!busy, by rw [runFree, hbusy]; rfl⟩

/-- Where nothing is in use, the loop for a run that ends behind the counter goes on for
ever. -/
theorem runFree_hangs (hbound : counterSize ≤ runEnd num idx) (h : ¬ s.SomeUsed) :
    s.runFree num idx = .error .hang := by
  have hunused : ∀ j < counterSize, s.physDir j = PHYS_DIR_UNUSED := fun j hj =>
    not_not.mp fun hused => h ⟨j, hj, hused⟩
  have hnone := (@scan_eq_of_le _ (fun j =>
    s.physDir (j / 1024) != PHYS_DIR_UNUSED || s.physDir j != PHYS_DIR_UNUSED) _ _ _ hbound
    (Nat.mod_lt idx counterSize_pos) (Nat.le_of_lt counterSize_lt_counterRounds)).2.mpr fun j hj => by
      rw [Bool.or_eq_false_iff, bne_eq_false_iff_eq, bne_eq_false_iff_eq]
      exact ⟨hunused _ (Nat.lt_of_le_of_lt (Nat.div_le_self _ _) hj), hunused j hj⟩
  rw [runFree, hnone]
  rfl

theorem runEnd_eq (h : idx + num < 2 ^ 32) : runEnd num idx = idx + num := Nat.mod_eq_of_lt h

/-- Where the bound does not wrap around, a run is taken that is unused and ends early. -/
theorem runFree_iff_of_lt (hlow : physDirLargeNum ≤ idx) (hwrap : idx + num < 2 ^ 32) :
    s.runFree num idx = .ok true ↔ s.RunUnused num idx ∧ idx + num < counterSize := by
  rw [runFree_iff, runEnd_eq hwrap]
  constructor
  · rintro ⟨hbound, hfree⟩
    rw [Nat.mod_eq_of_lt (Nat.lt_of_le_of_lt (Nat.le_add_right _ _) hbound)] at hfree
    exact ⟨⟨hlow, Nat.le_of_lt (Nat.lt_trans hbound (by decide)), hfree⟩, hbound⟩
  · rintro ⟨hrun, hbound⟩
    refine ⟨hbound, ?_⟩
    rw [Nat.mod_eq_of_lt (Nat.lt_of_le_of_lt (Nat.le_add_right _ _) hbound)]
    exact hrun.frames

theorem takeRun_eq (hbound : runEnd num idx < counterSize) :
    s.takeRun num idx = .ok ((List.range' (idx % counterSize)
      (runEnd num idx - idx % counterSize)).foldl
        (fun s j => s.setPhysDir j PHYS_DIR_KERNEL) s) := by
  rw [takeRun, loop_eq_of_lt hbound (sub_lt_counterRounds hbound)]
  rfl

/-! ### What the searches come to -/

theorem allocPhysMem_ok (h : ∃ found, (allocIndices gfp).findM? (s.isFree gfp) = .ok found) :
    ∃ r, s.allocPhysMem gfp = .ok r := by
  obtain ⟨found, hfound⟩ := h
  rw [allocPhysMem, hfound]
  cases found with
  | none => exact ⟨_, rfl⟩
  | some idx => exact ⟨_, rfl⟩

/-- `alloc_phys_mem` takes a page that is free, or finds that none is. -/
theorem allocPhysMem_found (h : s.allocPhysMem gfp = .ok (s', frame)) :
    (frame = 0 ∧ s' = s ∧ ∀ idx ∈ allocIndices gfp, s.isFree gfp idx = .ok false) ∨
      ∃ idx ∈ allocIndices gfp, s.isFree gfp idx = .ok true ∧ frame = idx * gfp.pages ∧
        s' = s.setPhysDir idx gfp.taken := by
  rw [allocPhysMem] at h
  obtain ⟨found, hfound, hrest⟩ := Machine.bind_eq_ok_iff.mp h
  cases found with
  | none =>
      cases hrest
      exact .inl ⟨rfl, rfl, findM?_eq_none_iff.mp hfound⟩
  | some idx =>
      cases hrest
      obtain ⟨hmem, hfree⟩ := test_of_findM? hfound
      exact .inr ⟨idx, hmem, hfree, rfl, rfl⟩

/-- A page of which no part is in use. -/
structure Free (s : Memory) (gfp : Gfp) (idx : Nat) : Prop where
  scale : idx ∈ allocIndices gfp
  unused : s.physDir idx = PHYS_DIR_UNUSED
  frames : gfp.large = true → ∀ f, f / 1024 = idx → s.physDir f = PHYS_DIR_UNUSED
  around : gfp.large = false → s.physDir (idx / 1024) = PHYS_DIR_UNUSED

theorem free_of_isFree (hmem : idx ∈ allocIndices gfp) (h : s.isFree gfp idx = .ok true) :
    s.Free gfp idx := by
  cases hlarge : gfp.large with
  | true =>
      have hlt := (mem_allocIndices_large hlarge).mp hmem
      have hunused := ((isFree_large_iff hlarge hlt).mp h).2
      refine ⟨hmem, hunused.unused, fun _ => hunused.frames, fun hsmall => ?_⟩
      rw [hlarge] at hsmall
      cases hsmall
  | false =>
      rw [isFree_small hlarge] at h
      have hunused := of_decide_eq_true (Except.ok.inj h)
      refine ⟨hmem, hunused.2, fun htrue => ?_, fun _ => hunused.1⟩
      rw [hlarge] at htrue
      cases htrue

theorem isFree_ok (hused : s.SomeUsed) : ∃ free, s.isFree gfp idx = .ok free := by
  cases hlarge : gfp.large with
  | true => exact isFree_large_ok hlarge (.inr hused)
  | false => exact ⟨_, isFree_small hlarge⟩

/-- Where the first page is in use, `alloc_phys_mem` takes a page that is free, or finds that
none is. -/
theorem allocPhysMem_total (hzero : s.physDir 0 ≠ PHYS_DIR_UNUSED) :
    (s.allocPhysMem gfp = .ok (s, 0) ∧ ∀ idx ∈ allocIndices gfp, s.isFree gfp idx = .ok false) ∨
      ∃ idx, s.Free gfp idx ∧ idx ≠ 0 ∧
        s.allocPhysMem gfp = .ok (s.setPhysDir idx gfp.taken, idx * gfp.pages) := by
  obtain ⟨⟨s', frame⟩, halloc⟩ := @allocPhysMem_ok s gfp (findM?_ok fun idx _ =>
    isFree_ok ⟨0, counterSize_pos, hzero⟩)
  rcases allocPhysMem_found halloc with ⟨rfl, rfl, hnone⟩ | ⟨idx, hmem, hfree, rfl, rfl⟩
  · exact .inl ⟨halloc, hnone⟩
  · have hfree := free_of_isFree hmem hfree
    refine .inr ⟨idx, hfree, ?_, halloc⟩
    rintro rfl
    exact hzero hfree.unused

section Consecutive

variable (hgfp : (gfp.large || gfp.user) = false)

include hgfp

theorem allocPhysMemConsecutive_eq :
    s.allocPhysMemConsecutive num gfp =
      (allocIndices gfp).findM? (s.runFree num) >>= fun found =>
        match found with
        | none => .ok (s, 0)
        | some idx => s.takeRun num idx >>= fun s => .ok (s, idx) := by
  rw [allocPhysMemConsecutive]
  exact if_neg (by rw [hgfp]; exact Bool.false_ne_true)

/-- `alloc_phys_mem_consecutive` takes a run that is free, or finds that none is. -/
theorem allocPhysMemConsecutive_found (h : s.allocPhysMemConsecutive num gfp = .ok (s', frame)) :
    (frame = 0 ∧ s' = s ∧ ∀ idx ∈ allocIndices gfp, s.runFree num idx = .ok false) ∨
      frame ∈ allocIndices gfp ∧ s.runFree num frame = .ok true ∧
        s.takeRun num frame = .ok s' := by
  rw [allocPhysMemConsecutive_eq hgfp] at h
  obtain ⟨found, hfound, hrest⟩ := Machine.bind_eq_ok_iff.mp h
  cases found with
  | none =>
      cases hrest
      exact .inl ⟨rfl, rfl, findM?_eq_none_iff.mp hfound⟩
  | some idx =>
      obtain ⟨s₁, htake, hdone⟩ := Machine.bind_eq_ok_iff.mp hrest
      cases hdone
      obtain ⟨hmem, hfree⟩ := test_of_findM? hfound
      exact .inr ⟨hmem, hfree, htake⟩

theorem allocPhysMemConsecutive_ok
    (h : ∃ found, (allocIndices gfp).findM? (s.runFree num) = .ok found) :
    ∃ r, s.allocPhysMemConsecutive num gfp = .ok r := by
  obtain ⟨found, hfound⟩ := h
  rw [allocPhysMemConsecutive_eq hgfp, hfound]
  cases found with
  | none => exact ⟨_, rfl⟩
  | some idx =>
      have hbound := (runFree_iff.mp (test_of_findM? hfound).2).1
      change ∃ r, (s.takeRun num idx >>= fun s => .ok (s, idx)) = .ok r
      rw [takeRun_eq hbound]
      exact ⟨_, rfl⟩

end Consecutive

/-! ### Memory is found while there is some -/

/-- `alloc_phys_mem` ends, and only fails where no large page is unused. -/
def LargeRight (s : Memory) (gfp : Gfp) : Prop :=
  (∃ r, s.allocPhysMem gfp = .ok r) ∧
    ∀ s', s.allocPhysMem gfp = .ok (s', 0) → ∀ idx, ¬ s.LargeUnused idx

/-- `alloc_phys_mem_consecutive` ends, and only fails where no run of frames is unused. -/
def ConsecutiveRight (s : Memory) (num : Nat) (gfp : Gfp) : Prop :=
  (∃ r, s.allocPhysMemConsecutive num gfp = .ok r) ∧
    ∀ s', s.allocPhysMemConsecutive num gfp = .ok (s', 0) → ∀ first, ¬ s.RunUnused num first

/-- Where all that the counter gets to is unused, the first large page is. -/
theorem someUsed_of_not_unused (h : ¬ s.LargeUnused 0) : s.SomeUsed := by
  refine not_not.mp fun hnone => h ?_
  have hunused : ∀ j < counterSize, s.physDir j = PHYS_DIR_UNUSED := fun j hj =>
    not_not.mp fun hused => hnone ⟨j, hj, hused⟩
  refine ⟨by decide, hunused 0 counterSize_pos, fun f hf => hunused f ?_⟩
  have hlt : f < 1024 := by omega
  exact Nat.lt_trans hlt (by decide)

theorem findM?_large_zero (hlarge : gfp.large = true) (hzero : s.LargeUnused 0) :
    (allocIndices gfp).findM? (s.isFree gfp) = .ok (some 0) := by
  rw [allocIndices, if_pos hlarge, physDirLargeNum, List.range'_succ]
  exact findM?_cons_true ((isFree_large_iff hlarge (by decide)).mpr ⟨by decide, hzero⟩)

/-- The search for a large page ends: where nothing is in use, it takes the first one. -/
theorem allocPhysMem_large_ok (s : Memory) (hlarge : gfp.large = true) :
    ∃ r, s.allocPhysMem gfp = .ok r := by
  by_cases hzero : s.LargeUnused 0
  · exact allocPhysMem_ok ⟨some 0, findM?_large_zero hlarge hzero⟩
  · exact allocPhysMem_ok (findM?_ok fun idx _ =>
      isFree_large_ok hlarge (.inr (someUsed_of_not_unused hzero)))

theorem largeRight_iff (hlarge : gfp.large = true) :
    s.LargeRight gfp ↔
      ¬ s.LargeUnused 0 ∧ ∀ idx, s.LargeUnused idx → ∃ j < 63, s.LargeUnused j := by
  obtain ⟨⟨s', frame⟩, halloc⟩ := s.allocPhysMem_large_ok hlarge
  constructor
  · rintro ⟨-, hright⟩
    have hzero : ¬ s.LargeUnused 0 := by
      intro hzero
      refine hright (s.setPhysDir 0 gfp.taken) ?_ 0 hzero
      rw [allocPhysMem, findM?_large_zero hlarge hzero]
      exact congrArg (fun f => Except.ok (_, f)) (Nat.zero_mul gfp.pages)
    refine ⟨hzero, fun idx hidx => ?_⟩
    rcases allocPhysMem_found halloc with ⟨rfl, -, -⟩ | ⟨found, hmem, hfree, -, -⟩
    · exact absurd hidx (hright s' halloc idx)
    · exact ⟨found, (isFree_large_iff hlarge ((mem_allocIndices_large hlarge).mp hmem)).mp hfree⟩
  · rintro ⟨hzero, hfirst⟩
    refine ⟨⟨_, halloc⟩, fun s₁ hnull idx hidx => ?_⟩
    rcases allocPhysMem_found hnull with ⟨-, -, hnone⟩ | ⟨found, hmem, hfree, hframe, -⟩
    · obtain ⟨j, hj, hunused⟩ := hfirst idx hidx
      have hfree := (isFree_large_iff hlarge hunused.lt).mpr ⟨hj, hunused⟩
      rw [hnone j ((mem_allocIndices_large hlarge).mpr hunused.lt)] at hfree
      cases hfree
    · have hunused := (isFree_large_iff hlarge ((mem_allocIndices_large hlarge).mp hmem)).mp hfree
      rw [Gfp.pages, if_pos hlarge] at hframe
      have hfound : found = 0 := by omega
      exact hzero (hfound ▸ hunused.2)

section Runs

variable (hgfp : (gfp.large || gfp.user) = false)

/-- Where nothing is in use, every run that ends early enough is taken. -/
theorem runFree_of_not_someUsed (h : ¬ s.SomeUsed) (hbound : runEnd num idx < counterSize) :
    s.runFree num idx = .ok true := by
  have hunused : ∀ j < counterSize, s.physDir j = PHYS_DIR_UNUSED := fun j hj =>
    not_not.mp fun hused => h ⟨j, hj, hused⟩
  refine runFree_iff.mpr ⟨hbound, fun j _ hj => ?_⟩
  have hlt := Nat.lt_trans hj hbound
  exact ⟨hunused _ (Nat.lt_of_le_of_lt (Nat.div_le_self _ _) hlt), hunused j hlt⟩

include hgfp

theorem allocIndices_eq_cons : ∃ rest, allocIndices gfp = physDirLargeNum :: rest := by
  rw [allocIndices, if_neg (by rw [(Bool.or_eq_false_iff.mp hgfp).1]; exact Bool.false_ne_true)]
  exact ⟨_, List.range'_succ⟩

/-- The search for a run ends, but for one case: nothing is in use, and the first run already
ends too late. -/
theorem allocPhysMemConsecutive_ok_iff :
    (∃ r, s.allocPhysMemConsecutive num gfp = .ok r) ↔
      runEnd num physDirLargeNum < counterSize ∨ s.SomeUsed := by
  obtain ⟨rest, hrest⟩ := allocIndices_eq_cons hgfp
  constructor
  · rintro ⟨r, hr⟩
    by_cases hbound : runEnd num physDirLargeNum < counterSize
    · exact .inl hbound
    · refine .inr (not_not.mp fun hnone => ?_)
      rw [allocPhysMemConsecutive_eq hgfp, hrest,
        findM?_cons_error (runFree_hangs (Nat.not_lt.mp hbound) hnone)] at hr
      cases hr
  · intro h
    refine allocPhysMemConsecutive_ok hgfp ?_
    by_cases hused : s.SomeUsed
    · exact findM?_ok fun idx _ => runFree_ok (.inr hused)
    · refine ⟨some physDirLargeNum, ?_⟩
      rw [hrest]
      exact findM?_cons_true (runFree_of_not_someUsed hused (h.resolve_right hused))

theorem consecutiveRight_iff :
    s.ConsecutiveRight num gfp ↔
      (runEnd num physDirLargeNum < counterSize ∨ s.SomeUsed) ∧
        ∀ first, s.RunUnused num first →
          ∃ early, s.RunUnused num early ∧ early + num < counterSize := by
  have hsmall := (Bool.or_eq_false_iff.mp hgfp).1
  rw [ConsecutiveRight, allocPhysMemConsecutive_ok_iff hgfp]
  refine and_congr_right fun hends => ?_
  obtain ⟨⟨s', frame⟩, halloc⟩ := (allocPhysMemConsecutive_ok_iff hgfp).mpr hends
  have hwrap : ∀ {first}, s.RunUnused num first → ∀ idx ∈ allocIndices gfp, idx + num < 2 ^ 32 := by
    intro first hfirst idx hidx
    have hhigh := hfirst.high
    have hidx := ((mem_allocIndices_small hsmall).mp hidx).2
    rw [physDirSmallNum] at hhigh hidx
    omega
  constructor
  · intro hright first hfirst
    rcases allocPhysMemConsecutive_found hgfp halloc with ⟨rfl, -, -⟩ | ⟨hmem, hfree, -⟩
    · exact absurd hfirst (hright s' halloc first)
    · exact ⟨frame, (runFree_iff_of_lt ((mem_allocIndices_small hsmall).mp hmem).1
        (hwrap hfirst frame hmem)).mp hfree⟩
  · intro hearly s₁ hnull first hfirst
    rcases allocPhysMemConsecutive_found hgfp hnull with ⟨-, -, hnone⟩ | ⟨hmem, -, -⟩
    · obtain ⟨early, hrun, hbound⟩ := hearly first hfirst
      have hmem : early ∈ allocIndices gfp := by
        refine (mem_allocIndices_small hsmall).mpr ⟨hrun.low, ?_⟩
        exact Nat.lt_trans (Nat.lt_of_le_of_lt (Nat.le_add_right _ _) hbound) (by decide)
      have hfree := (runFree_iff_of_lt hrun.low (hwrap hfirst early hmem)).mpr ⟨hrun, hbound⟩
      rw [hnone early hmem] at hfree
      cases hfree
    · exact absurd ((mem_allocIndices_small hsmall).mp hmem).1 (by decide)

end Runs

/-- **Memory is out.**  The search for a large page always ends, and that it fails means that
there is none, unless large pages are unused but none of the first 63, or the first one is,
whose address is the null pointer.  The search for a run of frames ends unless nothing is in
use and its first run is too long for the counter, and that it fails means that there is
none, unless all of them end behind what the counter gets to. -/
theorem exhausted_iff (s : Memory) (num : Nat) :
    (∀ gfp : Gfp, gfp.large = true →
      (s.LargeRight gfp ↔
        ¬ s.LargeUnused 0 ∧ ∀ idx, s.LargeUnused idx → ∃ j < 63, s.LargeUnused j)) ∧
    (∀ gfp : Gfp, (gfp.large || gfp.user) = false →
      (s.ConsecutiveRight num gfp ↔
        (runEnd num physDirLargeNum < counterSize ∨ s.SomeUsed) ∧
          ∀ first, s.RunUnused num first →
            ∃ early, s.RunUnused num early ∧ early + num < counterSize)) :=
  ⟨fun _ hlarge => largeRight_iff hlarge, fun _ hgfp => consecutiveRight_iff hgfp⟩

/-- Memory of which only the 4 MiB from 256 MiB on are unused. -/
def highMemory : Memory where
  physDir f := if f = 64 ∨ f / 1024 = 64 then PHYS_DIR_UNUSED else PHYS_DIR_KERNEL
  heapTables _ := .zero
  entries _ _ := .zero
  data _ _ := 0
  cr3 := initPageDirectory

theorem highMemory_unused {f : Nat} :
    highMemory.physDir f = PHYS_DIR_UNUSED ↔ f = 64 ∨ f / 1024 = 64 := by
  constructor
  · intro h
    by_contra hused
    have hkernel : highMemory.physDir f = PHYS_DIR_KERNEL := if_neg hused
    rw [h] at hkernel
    cases hkernel
  · exact fun h => if_pos h

/-- No page is found there, neither a large one nor a frame in a run of one. -/
theorem highMemory_not_found :
    ¬ highMemory.LargeRight gfpUserLarge ∧ ¬ highMemory.ConsecutiveRight 1 gfpKernel := by
  constructor
  · intro h
    have hunused : highMemory.LargeUnused 64 :=
      ⟨by decide, highMemory_unused.mpr (.inl rfl), fun f hf => highMemory_unused.mpr (.inr hf)⟩
    obtain ⟨j, hj, hfound⟩ := ((largeRight_iff rfl).mp h).2 64 hunused
    have hused := highMemory_unused.mp hfound.unused
    omega
  · intro h
    have hrun : highMemory.RunUnused 1 65536 := by
      refine ⟨by decide, by decide, fun f hle hlt => ?_⟩
      exact ⟨highMemory_unused.mpr (.inl (by omega)), highMemory_unused.mpr (.inr (by omega))⟩
    obtain ⟨early, hearly, hbound⟩ :=
      ((consecutiveRight_iff rfl).mp h).2 65536 hrun
    have hlow := hearly.low
    have hused := highMemory_unused.mp (hearly.frames early (Nat.le_refl _) (by omega)).2
    rw [physDirLargeNum] at hlow
    rw [counterSize] at hbound
    omega

end Memory
end Paging
end JkxyKernel
