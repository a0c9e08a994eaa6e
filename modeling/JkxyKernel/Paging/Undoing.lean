import JkxyKernel.Paging.Outcomes

/-!
# Requests that fail

`request_pages` undoes what it has mapped when there is no frame for the next page.  All its
variants share the code for this; the loop variable says how many pages are to be undone.  For
pages in consecutive frames it is the number of all pages, none of which is mapped yet.

A page table that was made for the request stays.
-/

namespace JkxyKernel
namespace Paging
namespace Memory

variable {s s' t : Memory} {dir page num i p idx frame : Nat} {gfp : Gfp}

/-- A new, empty page table: the page of the kernel heap, the frame, and the entry of the
directory in use that were not in use before. -/
structure NewTable (s s' : Memory) (i p idx : Nat) : Prop where
  inHeap : isHeapPage p = true
  absent : (s.heapTables p).present = false
  heap : s'.heapTables p = newEntry gfpKernel idx
  unused : s.physDir idx = PHYS_DIR_UNUSED
  kernel : s'.physDir idx = PHYS_DIR_KERNEL
  missing : (s.entries s.cr3 i).present = false
  entry : s'.entries s.cr3 i = newEntry gfpUser idx
  empty : ∀ j, (s'.entries idx j).present = false

/-- All is as before: the translation of every page and the count of every frame, but for a page
table that may be new in one entry of the directory. -/
def Undone (s s' : Memory) (i : Nat) : Prop :=
  s'.cr3 = s.cr3 ∧ ∃ new : Option (Nat × Nat),
    (∀ page < physDirSmallNum, (∀ idx, new ≠ some (page, idx)) →
      s'.lookup s.cr3 page = s.lookup s.cr3 page) ∧
    (∀ frame, (∀ p, new ≠ some (p, frame)) → s'.physDir frame = s.physDir frame) ∧
    ∀ p idx, new = some (p, idx) → NewTable s s' i p idx

theorem Restored.undone (h : Restored s s') : Undone s s' i :=
  ⟨h.cr3, none, fun _ _ _ => h.lookup, fun _ _ => congrFun h.physDir _, nofun⟩

/-! ### A new page table -/

section Table

variable (h : s.Ready dir) (hi : i < numEntries)
  (hmissing : (s.entries s.cr3 i).present = false) (hidx : idx ∈ s.freeFrames)

include h hmissing hidx

/-- An empty page table maps nothing. -/
theorem lookup_withTable (hpage : page < physDirSmallNum) (hne : page ≠ p) :
    (s.withTable s.cr3 i p idx).lookup s.cr3 page = s.lookup s.cr3 page := by
  have hroot : s.cr3 ≠ idx := fun heq => h.root (heq ▸ hidx)
  by_cases hentry : isHeapPage page = false ∧ page / 1024 = i
  · obtain ⟨hheap, hentry⟩ := hentry
    have hbefore : s.lookup s.cr3 page = none := lookup_of_absent hheap (by rw [hentry, hmissing])
    have he : (s.withTable s.cr3 i p idx).entries s.cr3 (page / 1024) = newEntry gfpUser idx := by
      rw [entries_withTable, if_pos ⟨rfl, hentry⟩]
    have hte : (s.withTable s.cr3 i p idx).entries (newEntry gfpUser idx).addr (page % 1024) =
        .zero := getCell_withTable_new hroot
    rw [hbefore, lookup_of_table hheap he rfl rfl hte]
    rfl
  · refine lookup_congr (fun _ => ?_) (fun hheap => ?_) fun hheap hpresent hsize => ?_
    · rw [heapTables_withTable, Function.update_of_ne hne]
    · rw [entries_withTable, if_neg fun hcell => hentry ⟨hheap, hcell.2⟩, if_neg hroot]
    · have hlt : page / 1024 < numEntries := by
        rw [physDirSmallNum] at hpage
        rw [numEntries]
        omega
      have hapart := h.apart _ hlt hpresent hsize
      have hkept : (s.entries s.cr3 (page / 1024)).addr ≠ idx := fun heq =>
        h.kept _ hlt hpresent hsize (heq ▸ hidx)
      rw [entries_withTable, if_neg fun hcell => hapart hcell.1, if_neg hkept]

/-- What is undone leaves the page table that was made. -/
theorem undone_withTable (hspare : s.Spare p)
    (hrestored : Restored (s.withTable s.cr3 i p idx) s') :
    Undone s s' i := by
  have hroot : s.cr3 ≠ idx := fun heq => h.root (heq ▸ hidx)
  have hphys : s'.physDir = Function.update s.physDir idx PHYS_DIR_KERNEL := hrestored.physDir
  have hkeep : ∀ c : Cell, ((s.withTable s.cr3 i p idx).getCell c).present = true →
      s'.getCell c = (s.withTable s.cr3 i p idx).getCell c := by
    intro c hpresent
    rcases hrestored.cells c with hsame | ⟨habsent, -⟩
    · exact hsame
    · rw [habsent] at hpresent
      cases hpresent
  refine ⟨hrestored.cr3, some (p, idx), fun page hpage hnot => ?_, fun frame hnot => ?_, ?_⟩
  · rw [hrestored.lookup]
    refine lookup_withTable h hmissing hidx hpage ?_
    rintro rfl
    exact hnot idx rfl
  · have hne : frame ≠ idx := by
      rintro rfl
      exact hnot p rfl
    rw [hphys, Function.update_of_ne hne]
  · rintro p' idx' hnew
    cases hnew
    have hheap : (s.withTable s.cr3 i p idx).getCell (.heap p) = newEntry gfpKernel idx := by
      exact Function.update_self p _ s.heapTables
    have hentry : (s.withTable s.cr3 i p idx).getCell (.entry s.cr3 i) = newEntry gfpUser idx := by
      exact entries_withTable.trans (if_pos ⟨rfl, rfl⟩)
    refine ⟨hspare.inHeap, hspare.absent, ?_, ?_, ?_, hmissing, ?_, fun j => ?_⟩
    · exact (hkeep _ (by rw [hheap]; rfl)).trans hheap
    · exact ((@mem_freeFrames_iff s idx gfpKernel rfl).mp hidx).unused
    · rw [hphys, Function.update_self]
    · exact (hkeep _ (by rw [hentry]; rfl)).trans hentry
    · rcases hrestored.cells (.entry idx j) with hsame | ⟨-, habsent⟩
      · have hcell : s'.entries idx j = .zero := hsame.trans (getCell_withTable_new hroot)
        rw [hcell]
        rfl
      · exact habsent

end Table

/-! ### The variants -/

theorem finishRequest_refused : s.finishRequest page num gfp .refused = .ok (s, 0) := rfl

/-- A request that has mapped its pages returns the first. -/
theorem eq_of_finishRequest_done (h : s.finishRequest page num gfp .done = .ok (s', p)) :
    p = page := by
  rw [finishRequest] at h
  split at h
  · obtain ⟨s₁, -, hret⟩ := Machine.bind_eq_ok_iff.mp h
    cases hret
    rfl
  · cases h
    rfl

/-- What the loop has mapped is undone if the request returns the null pointer. -/
theorem Begins.restored {request : Except Fault (Memory × Outcome)}
    (h : Begins t page num gfp request) (hnull : page = 0 → num = 0) {s₁ : Memory} {out : Outcome}
    (hout : request = .ok (s₁, out))
    (hreq : s₁.finishRequest page num gfp out = .ok (s', 0)) : Restored t s' := by
  obtain ⟨put, cell, I, htarget, hI, hzero, habsent, rfl⟩ := h
  rcases htarget.run hI hzero habsent with ⟨idxs, hdone, hlength, -, -⟩ |
    ⟨s₂, n, s₃, hfailed, hfinish, hrestored, -⟩
  · cases hdone.symm.trans hout
    have hpage : 0 = page := eq_of_finishRequest_done hreq
    have hnil : idxs = [] := List.length_eq_zero_iff.mp (hlength.trans (hnull hpage.symm))
    subst hnil
    rw [finishRequest, if_neg fun hcond => hcond.1 hpage.symm] at hreq
    cases hreq
    exact .refl t
  · cases hfailed.symm.trans hout
    cases hfinish.symm.trans hreq
    exact hrestored

/-- A request that is refused changes nothing. -/
theorem undone_of_refused {request : Except Fault (Memory × Outcome)} {out : Outcome}
    (h : request = .ok (s, .refused)) (hout : request = .ok (t, out))
    (hreq : t.finishRequest page num gfp out = .ok (s', 0)) : Undone s s' i := by
  cases h.symm.trans hout
  cases hreq
  exact (Restored.refl s).undone

/-- Large pages of a user program. -/
theorem requestLarge_undone (h : s.Ready dir) (huser : gfp.user = true) (hlarge : gfp.large = true)
    (hpage : page % 1024 = 0) (hnum : page / 1024 + num ≤ numEntries) {out : Outcome}
    (hout : s.requestLarge dir page num gfp = .ok (t, out))
    (hreq : t.finishRequest page num gfp out = .ok (s', 0)) : Undone s s' i := by
  rcases requestLarge_cases h hnum huser hlarge hpage with hrefused | ⟨hnull, hbegins⟩
  · exact undone_of_refused hrefused hout hreq
  · exact (hbegins.restored hnull hout hreq).undone

/-- Small pages of a user program. -/
theorem requestSmall_undone (h : s.Ready dir) (huser : gfp.user = true) (hsmall : gfp.large = false)
    (hpage : page / 1024 < numEntries) (hnum : page % 1024 + num ≤ 1024) {out : Outcome}
    (hout : s.requestSmall dir page num gfp = .ok (t, out))
    (hreq : t.finishRequest page num gfp out = .ok (s', 0)) : Undone s s' (page / 1024) := by
  rcases requestSmall_cases h huser hsmall hpage hnum with
    hrefused | hpanic | ⟨hnull, hbegins | ⟨hmissing, p, hspare, idx, hidx, hbegins⟩⟩
  · exact undone_of_refused hrefused hout hreq
  · cases hpanic.symm.trans hout
  · exact (hbegins.restored (fun heq => absurd heq hnull) hout hreq).undone
  · exact undone_withTable h hmissing hidx hspare
      (hbegins.restored (fun heq => absurd heq hnull) hout hreq)

/-- Pages of the kernel in consecutive frames: none is mapped when the frames are not found. -/
theorem requestHeap_consecutive_undone (hzero : s.physDir 0 ≠ PHYS_DIR_UNUSED) (hkernel : gfp.user = false) (hsmall : gfp.large = false)
    (hcons : gfp.cons = true) (hlow : kheapAddrIdx ≤ page) (hhigh : page + num ≤ physDirSmallNum)
    (habsent : ∀ k < num, (s.heapTables (page + k)).present = false) {out : Outcome}
    (hout : s.requestHeap page num gfp = .ok (t, out))
    (hreq : t.finishRequest page num gfp out = .ok (s', 0)) : Undone s s' i := by
  rcases requestHeap_consecutive_cases hsmall hlow hhigh habsent hcons hkernel hzero with
    ⟨hfailed, hundo, -⟩ | ⟨-, -, s₂, -, -, -, -, hdone⟩
  · cases hfailed.symm.trans hout
    cases hundo.symm.trans hreq
    exact (Restored.refl s).undone
  · cases hdone.symm.trans hout
    have hpage : 0 = page := eq_of_finishRequest_done hreq
    rw [← hpage] at hlow
    exact absurd hlow (by decide)

/-- Pages of the kernel. -/
theorem requestKernelPages_undone (hzero : s.physDir 0 ≠ PHYS_DIR_UNUSED)
    (hkernel : gfp.user = false) (hin : InRange page num gfp)
    (hreq : s.requestKernelPages page num gfp = .ok (s', 0)) : Undone s s' i := by
  cases hfits : requestFits page num gfp with
  | false =>
      cases (requestKernelPages_unfit hfits).symm.trans hreq
      exact (Restored.refl s).undone
  | true =>
      rw [requestKernelPages_fit hfits] at hreq
      obtain ⟨⟨s₁, out⟩, hout, hfinish⟩ := Machine.bind_eq_ok_iff.mp hreq
      cases hcond : gfp.large || decide (page < kheapAddrIdx) with
      | true => exact undone_of_refused (requestHeap_low hcond) hout hfinish
      | false =>
          obtain ⟨hsmall, hpage⟩ := Bool.or_eq_false_iff.mp hcond
          have hlow : kheapAddrIdx ≤ page := Nat.not_lt.mp (of_decide_eq_false hpage)
          rw [InRange, if_neg (by rw [hsmall]; exact Bool.false_ne_true), numEntries] at hin
          have hhigh : page + num ≤ physDirSmallNum := by
            rw [physDirSmallNum]
            omega
          rcases requestHeap_cases hsmall hlow hhigh hkernel hzero with
            hrefused | ⟨habsent, hcons | hbegins⟩
          · exact undone_of_refused hrefused hout hfinish
          · exact requestHeap_consecutive_undone hzero hkernel hsmall hcons hlow hhigh habsent hout hfinish
          · refine (hbegins.restored (fun heq => ?_) hout hfinish).undone
            rw [heq] at hlow
            exact absurd hlow (by decide)

/-- **Undone.**  A request in range that returns the null pointer leaves all as it was, but for an
empty page table that may be new. -/
theorem requestPages_undone (h : s.Ready dir) (hin : InRange page num gfp)
    (hreq : s.requestPages page num gfp = .ok (s', 0)) : Undone s s' (page / 1024) := by
  cases huser : gfp.user with
  | false =>
      rw [requestPages_kernel huser] at hreq
      exact requestKernelPages_undone h.zero huser hin hreq
  | true =>
      rw [requestPages_user huser] at hreq
      cases hfits : requestFits page num gfp with
      | false =>
          cases (requestUserPages_unfit hfits).symm.trans hreq
          exact (Restored.refl s).undone
      | true =>
          cases hlarge : gfp.large with
          | true =>
              rw [requestUserPages_large h.current hfits hlarge] at hreq
              obtain ⟨⟨s₁, out⟩, hout, hfinish⟩ := Machine.bind_eq_ok_iff.mp hreq
              rw [InRange, if_pos hlarge] at hin
              exact requestLarge_undone h huser hlarge hin.1 hin.2 hout hfinish
          | false =>
              rw [requestUserPages_small h.current hfits hlarge] at hreq
              obtain ⟨⟨s₁, out⟩, hout, hfinish⟩ := Machine.bind_eq_ok_iff.mp hreq
              rw [InRange, if_neg (by rw [hlarge]; exact Bool.false_ne_true)] at hin
              exact requestSmall_undone h huser hlarge hin.1 hin.2 hout hfinish

/-- Memory with one frame that is not in use, and a directory without page tables. -/
def oneFrame : Memory where
  physDir f := if f = 4 ∨ f = 4096 then PHYS_DIR_UNUSED else PHYS_DIR_KERNEL
  heapTables _ := .zero
  entries _ i := if i < 2 then { Entry.zero with present := true, size := true } else .zero
  data _ _ := 0
  cr3 := initPageDirectory

theorem oneFrame_freeFrames : oneFrame.freeFrames = {4096} := by
  ext f
  rw [Finset.mem_singleton, freeFrames, Finset.mem_filter, Finset.mem_Ico]
  have hphys : ∀ f, oneFrame.physDir f = PHYS_DIR_UNUSED ↔ f = 4 ∨ f = 4096 := by
    intro f
    constructor
    · intro hunused
      by_contra hnot
      have hkernel : oneFrame.physDir f = PHYS_DIR_KERNEL := if_neg hnot
      rw [hkernel] at hunused
      cases hunused
    · exact fun h => if_pos h
  rw [FrameUnused, hphys, hphys, physDirLargeNum, physDirSmallNum]
  omega

theorem oneFrame_ready : oneFrame.Ready initPageDirectory := by
  have hentry : ∀ i, oneFrame.entries oneFrame.cr3 i =
      if i < 2 then { Entry.zero with present := true, size := true } else .zero := fun _ => rfl
  have hnone : ∀ i, (oneFrame.entries oneFrame.cr3 i).user = false := by
    intro i
    rw [hentry]
    split <;> rfl
  have hsize : ∀ i, (oneFrame.entries oneFrame.cr3 i).present = true →
      (oneFrame.entries oneFrame.cr3 i).size ≠ false := by
    intro i hpresent
    rw [hentry] at hpresent ⊢
    split at hpresent
    next h => rw [if_pos h]; exact nofun
    next => cases hpresent
  have htable : ∀ i, (oneFrame.entries oneFrame.cr3 i).isTable ≠ true := fun i ht =>
    Bool.false_ne_true ((hnone i).symm.trans (Entry.isTable_iff.mp ht).2.1)
  refine ⟨⟨rfl, fun i _ ht => absurd ht (htable i)⟩, by decide, ?_, fun i hi => ?_,
    fun i _ hpresent hnot => absurd hnot (hsize i hpresent),
    fun i _ hpresent hnot => absurd hnot (hsize i hpresent), fun i _ ht => absurd ht (htable i),
    fun i hlow _ hpresent => ?_, fun i _ hlarge => ?_⟩
  · rw [oneFrame_freeFrames]
    decide
  · rw [hentry, if_pos hi]
    exact ⟨rfl, rfl⟩
  · rw [hentry, if_neg (Nat.not_lt.mpr hlow)] at hpresent
    cases hpresent
  · exact absurd ((hnone i).symm.trans (Entry.isLarge_iff.mp hlarge).2.1) Bool.false_ne_true

/-- Of two pages the first is mapped, and undone. -/
theorem oneFrame_undone :
    ∃ s', oneFrame.requestPages kheapAddrIdx 2 gfpKernel = .ok (s', 0) ∧
      Undone oneFrame s' (kheapAddrIdx / 1024) := by
  have hlow : kheapAddrIdx ≤ kheapAddrIdx := Nat.le_refl _
  have hhigh : kheapAddrIdx + 2 ≤ physDirSmallNum := by decide
  have habsent : ∀ k < 2, (oneFrame.heapTables (kheapAddrIdx + k)).present = false := fun _ _ => rfl
  have htarget := @heapTarget kheapAddrIdx 2 gfpKernel rfl rfl hlow hhigh
  obtain ⟨s', hreq⟩ : ∃ s', oneFrame.requestPages kheapAddrIdx 2 gfpKernel = .ok (s', 0) := by
    have hstart := @requestHeap_start oneFrame _ _ gfpKernel rfl hlow hhigh habsent rfl
    rcases htarget.run trivial oneFrame_ready.zero habsent with
      ⟨idxs, -, hlength, hnodup, hall⟩ | ⟨s₁, n, s₂, hmap, hfinish, -⟩
    · have hsub : idxs.toFinset ⊆ oneFrame.freeFrames := fun f hf =>
        (mem_freeFrames_iff rfl).mpr (hall f (List.mem_toFinset.mp hf)).1
      have hcard := Finset.card_le_card hsub
      rw [List.toFinset_card_of_nodup hnodup, hlength, oneFrame_freeFrames] at hcard
      exact absurd hcard (by decide)
    · refine ⟨s₂, ?_⟩
      rw [requestPages_kernel rfl, requestKernelPages_fit (by decide), hstart, hmap]
      exact hfinish
  exact ⟨s', hreq, requestPages_undone oneFrame_ready (by rw [InRange]; decide) hreq⟩

end Memory
end Paging
end JkxyKernel
