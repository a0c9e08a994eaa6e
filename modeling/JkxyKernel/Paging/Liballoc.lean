import JkxyKernel.Paging.Undoing

/-!
# The pages of the heap allocator

`allocate_new_page` computes how many pages a request of `kmalloc` needs, asks the kernel for them
through `liballoc_alloc`, and records so many pages as usable.  The kernel gives back the first of
as many pages of its heap, which were not mapped and are mapped to consecutive frames.

The number of pages has 32 bits and the parameter of `liballoc_alloc` has 16.  From 65536 pages on,
the allocator records more pages than it was given.
-/

namespace JkxyKernel
namespace Paging

/-- `GFP_CONS` -/
def gfpCons : Gfp where
  cons := true

/-- `l_pageSize` -/
def liballocPageSize : BitVec 32 := 4096

/-- `l_pageCount`: the pages of the smallest request. -/
def liballocPageCount : BitVec 32 := 16

/-- `sizeof(struct liballoc_major)` -/
def sizeofMajor : BitVec 32 := 24

/-- `sizeof(struct liballoc_minor)` -/
def sizeofMinor : BitVec 32 := 24

/-- `struct liballoc_major`, without its links, which are null. -/
structure LiballocMajor where
  /-- The page at which it begins. -/
  page : Nat
  pages : BitVec 32
  size : BitVec 32
  usage : BitVec 32
  deriving DecidableEq, Repr

/-- The pages that `allocate_new_page` asks for. -/
def newPageCount (size : BitVec 32) : BitVec 32 :=
  let st := size + sizeofMajor + sizeofMinor
  let st := if st % liballocPageSize = 0 then st / liballocPageSize else st / liballocPageSize + 1
  if st < liballocPageCount then liballocPageCount else st

namespace Memory

open FirstFit

/-- `liballoc_alloc` -/
def liballocAlloc (pages : BitVec 16) (s : Memory) : Except Fault (Memory × Nat) :=
  s.allocPages pages.toNat 0 gfpCons

/-- `liballoc_free` -/
def liballocFree (page : Nat) (pages : BitVec 16) (s : Memory) : Except Fault Memory :=
  freePages page pages.toNat gfpKernel s

/-- `allocate_new_page`, which writes to the first page that it gets. -/
def allocateNewPage (size : BitVec 32) (s : Memory) :
    Except Fault (Memory × Option LiballocMajor) := do
  let st := newPageCount size
  let (s, page) ← s.liballocAlloc (st.setWidth 16)
  if page = 0 then .ok (s, none)
  else if (s.heapTables page).present then
    .ok (s, some ⟨page, st, st * liballocPageSize, sizeofMajor⟩)
  else .error .pageFault

/-! ### Runs of pages and frames -/

variable {s s' t : Memory} {page first num offset left idx : Nat} {gfp : Gfp} {e : Nat → Entry}
  {n : Int}

/-- Other entries for a run of pages of the heap, and for a run of frames. -/
def withRun (s : Memory) (page first num : Nat) (e : Nat → Entry) (n : Int) : Memory :=
  { s with
    physDir := fun f => if first ≤ f ∧ f < first + num then n else s.physDir f
    heapTables := fun q => if page ≤ q ∧ q < page + num then e (q - page) else s.heapTables q }

/-- The frames are taken, and the pages are mapped to them. -/
def supply (s : Memory) (page first num : Nat) : Memory :=
  s.withRun page first num (fun k => newEntry gfpCons (first + k)) PHYS_DIR_KERNEL

/-- The pages are not mapped, and the frames are free. -/
def withdraw (s : Memory) (page first num : Nat) : Memory :=
  s.withRun page first num (fun _ => .zero) PHYS_DIR_UNUSED

theorem heapTables_withRun {k : Nat} (hk : k < num) :
    (s.withRun page first num e n).heapTables (page + k) = e k := by
  refine (if_pos ⟨Nat.le_add_right _ _, Nat.add_lt_add_left hk _⟩).trans ?_
  rw [Nat.add_sub_cancel_left]

theorem heapTables_withRun_of_le {k : Nat} (hk : num ≤ k) :
    (s.withRun page first num e n).heapTables (page + k) = s.heapTables (page + k) :=
  if_neg fun h => absurd h.2 (by omega)

theorem setPhysDir_update (g : Nat → Int) :
    ({ s with physDir := g } : Memory).setPhysDir idx n =
      { s with physDir := Function.update g idx n } := rfl

/-- The second loop of `alloc_phys_mem_consecutive`. -/
theorem foldl_run :
    (List.range' first num).foldl (fun s j => s.setPhysDir j PHYS_DIR_KERNEL) s =
      { s with physDir := fun f =>
          if first ≤ f ∧ f < first + num then PHYS_DIR_KERNEL else s.physDir f } := by
  induction num with
  | zero =>
      have hsame : (fun f => if first ≤ f ∧ f < first + 0 then PHYS_DIR_KERNEL else s.physDir f) =
          s.physDir := by
        funext f
        exact if_neg fun h => Nat.not_lt.mpr h.1 h.2
      rw [hsame]
      rfl
  | succ num ih =>
      rw [List.range'_concat, List.foldl_append, Nat.one_mul, List.foldl_cons, List.foldl_nil, ih,
        setPhysDir_update]
      congr 1
      funext f
      rw [Function.update_apply]
      by_cases hlast : f = first + num
      · rw [if_pos hlast, if_pos ⟨by omega, by omega⟩]
      · rw [if_neg hlast]
        exact if_congr (by omega) rfl rfl

/-- The loop that maps the frames of a run changes no other entries. -/
theorem mapConsecutive_eq (hlow : kheapAddrIdx ≤ page)
    (hhigh : page + offset + left ≤ physDirSmallNum) :
    mapConsecutive page gfp first left offset s =
      .ok { s with heapTables := fun q =>
        if page + offset ≤ q ∧ q < page + offset + left then newEntry gfp (first + (q - page))
        else s.heapTables q } := by
  induction left generalizing offset s with
  | zero =>
      have hsame : (fun q => if page + offset ≤ q ∧ q < page + offset + 0 then
          newEntry gfp (first + (q - page)) else s.heapTables q) = s.heapTables := by
        funext q
        exact if_neg fun h => Nat.not_lt.mpr h.1 h.2
      rw [hsame]
      rfl
  | succ left ih =>
      have hwrite : s.writeHeap (page + offset) (newEntry gfp (first + offset)) =
          .ok (s.setHeap (page + offset) (newEntry gfp (first + offset))) :=
        if_pos (isHeapPage_iff.mpr ⟨by omega, by omega⟩)
      refine Machine.bind_eq_ok_iff.mpr ⟨_, hwrite, (ih (by omega)).trans ?_⟩
      have htables : (fun q => if page + (offset + 1) ≤ q ∧ q < page + (offset + 1) + left then
            newEntry gfp (first + (q - page))
          else Function.update s.heapTables (page + offset) (newEntry gfp (first + offset)) q) =
          fun q => if page + offset ≤ q ∧ q < page + offset + (left + 1) then
            newEntry gfp (first + (q - page)) else s.heapTables q := by
        funext q
        rw [Function.update_apply]
        by_cases hfirst : q = page + offset
        · have hsub : q - page = offset := by omega
          rw [if_neg (by omega), if_pos hfirst, if_pos ⟨by omega, by omega⟩, hsub]
        · rw [if_neg hfirst]
          exact if_congr (by omega) rfl rfl
      exact congrArg (fun g => Except.ok { s with heapTables := g }) htables

/-- The pages and frames that are given back one after the other. -/
theorem clearAll_run :
    clearAll (fun offset => .heap (page + offset)) offset (List.range' first num) s =
      s.withdraw (page + offset) first num := by
  induction num generalizing offset first s with
  | zero =>
      have hphys : (fun f => if first ≤ f ∧ f < first + 0 then PHYS_DIR_UNUSED else s.physDir f) =
          s.physDir := by
        funext f
        exact if_neg fun h => Nat.not_lt.mpr h.1 h.2
      have htables : (fun q => if page + offset ≤ q ∧ q < page + offset + 0 then Entry.zero
          else s.heapTables q) = s.heapTables := by
        funext q
        exact if_neg fun h => Nat.not_lt.mpr h.1 h.2
      rw [withdraw, withRun, hphys, htables]
      rfl
  | succ num ih =>
      rw [List.range'_succ, clearAll, ih]
      have hphys : (fun f => if first + 1 ≤ f ∧ f < first + 1 + num then PHYS_DIR_UNUSED
          else Function.update s.physDir first PHYS_DIR_UNUSED f) =
          fun f => if first ≤ f ∧ f < first + (num + 1) then PHYS_DIR_UNUSED else s.physDir f := by
        funext f
        rw [Function.update_apply]
        by_cases hfirst : f = first
        · rw [if_neg (by omega), if_pos hfirst, if_pos ⟨by omega, by omega⟩]
        · rw [if_neg hfirst]
          exact if_congr (by omega) rfl rfl
      have htables : (fun q => if page + (offset + 1) ≤ q ∧ q < page + (offset + 1) + num then
            Entry.zero
          else Function.update s.heapTables (page + offset) .zero q) =
          fun q => if page + offset ≤ q ∧ q < page + offset + (num + 1) then Entry.zero
            else s.heapTables q := by
        funext q
        rw [Function.update_apply]
        by_cases hfirst : q = page + offset
        · rw [if_neg (by omega), if_pos hfirst, if_pos ⟨by omega, by omega⟩]
        · rw [if_neg hfirst]
          exact if_congr (by omega) rfl rfl
      exact congrArg₂ (fun g h => { s with physDir := g, heapTables := h }) hphys htables

/-! ### What the kernel finds -/

/-- A run of frames that `alloc_phys_mem_consecutive` gets to. -/
def HasRun (s : Memory) (num : Nat) : Prop :=
  ∃ first, s.RunUnused num first ∧ first + num < counterSize

/-- Pages of the heap that a request may get: not the last ones of 4 MiB, and not mapped. -/
structure Vacant (s : Memory) (num page : Nat) : Prop where
  inHeap : isHeapPage page = true
  region : page % 1024 + num < 1024
  absent : ∀ k < num, (s.heapTables (page + k)).present = false

/-- There are pages and frames for a request. -/
def RoomFor (s : Memory) (num : Nat) : Prop := (∃ page, s.Vacant num page) ∧ s.HasRun num

/-- `alloc_phys_mem_consecutive` of less than 4 MiB. -/
theorem allocPhysMemConsecutive_cases (hnum : num < 1024) :
    (¬ s.HasRun num ∧ s.allocPhysMemConsecutive num gfpCons = .ok (s, 0)) ∨
      ∃ first, s.RunUnused num first ∧ first + num < counterSize ∧
        s.allocPhysMemConsecutive num gfpCons = .ok ({ s with physDir := fun f =>
          if first ≤ f ∧ f < first + num then PHYS_DIR_KERNEL else s.physDir f }, first) := by
  have hgfp : (gfpCons.large || gfpCons.user) = false := rfl
  have hwrap : ∀ {idx}, idx < physDirSmallNum → idx + num < 2 ^ 32 := by
    intro idx hidx
    rw [physDirSmallNum] at hidx
    omega
  have hends : runEnd num physDirLargeNum < counterSize := by
    rw [runEnd_eq (hwrap (by decide)), physDirLargeNum]
    exact Nat.lt_trans (Nat.add_lt_add_left hnum 1024) (by decide)
  obtain ⟨⟨s', frame⟩, halloc⟩ := (allocPhysMemConsecutive_ok_iff hgfp).mpr (.inl hends)
  rcases allocPhysMemConsecutive_found hgfp halloc with ⟨rfl, rfl, hnone⟩ | ⟨hmem, hfree, htake⟩
  · refine .inl ⟨?_, halloc⟩
    rintro ⟨first, hrun, hbound⟩
    have hlt : first < physDirSmallNum :=
      Nat.lt_of_le_of_lt (Nat.le_add_right _ _) (Nat.lt_trans hbound (by decide))
    have hfound := hnone first ((mem_allocIndices_small rfl).mpr ⟨hrun.low, hlt⟩)
    rw [(runFree_iff_of_lt hrun.low (hwrap hlt)).mpr ⟨hrun, hbound⟩] at hfound
    cases hfound
  · obtain ⟨hlow, hhigh⟩ := (mem_allocIndices_small rfl).mp hmem
    obtain ⟨hrun, hbound⟩ := (runFree_iff_of_lt hlow (hwrap hhigh)).mp hfree
    refine .inr ⟨frame, hrun, hbound, ?_⟩
    rw [takeRun_eq (by rw [runEnd_eq (hwrap hhigh)]; exact hbound), runEnd_eq (hwrap hhigh),
      Nat.mod_eq_of_lt (Nat.lt_of_le_of_lt (Nat.le_add_right _ _) hbound),
      Nat.add_sub_cancel_left, foldl_run] at htake
    rw [halloc, ← Except.ok.inj htake]

/-- A request fits if it does not get to the last page of 4 MiB. -/
theorem requestFits_iff (hsmall : gfp.large = false) (hpage : isHeapPage page = true)
    (hhigh : page + num ≤ physDirSmallNum) :
    requestFits page num gfp = true ↔ page % 1024 + num < 1024 := by
  obtain ⟨hlow, hlt⟩ := isHeapPage_iff.mp hpage
  rw [requestFits, if_neg (by rw [hsmall]; exact Bool.false_ne_true), decide_eq_true_iff]
  rw [physDirSmallNum] at *
  rw [kheapAddrIdx] at hlow
  omega

/-- A request for pages of the heap in consecutive frames gets all of them or none. -/
theorem requestKernelPages_consecutive (hpage : isHeapPage page = true)
    (hhigh : page + num ≤ physDirSmallNum) :
    (¬ (s.Vacant num page ∧ s.HasRun num) ∧
      s.requestKernelPages page num gfpCons = .ok (s, 0)) ∨
    (s.Vacant num page ∧ s.HasRun num) ∧ ∃ s', (∃ first, s.RunUnused num first ∧
        s' = s.supply page first num) ∧
      s.requestKernelPages page num gfpCons = .ok (s', page) := by
  obtain ⟨hlow, -⟩ := isHeapPage_iff.mp hpage
  have hfits := @requestFits_iff page num gfpCons rfl hpage hhigh
  by_cases hregion : page % 1024 + num < 1024
  · rw [requestKernelPages_fit (hfits.mpr hregion)]
    by_cases hbusy : ∃ k < num, (s.heapTables (page + k)).present = true
    · obtain ⟨k, hk, hpresent⟩ := hbusy
      refine .inl ⟨fun h => ?_, ?_⟩
      · rw [h.1.absent k hk] at hpresent
        cases hpresent
      · rw [requestHeap_busy rfl hlow hhigh hk hpresent]
        rfl
    · have habsent : ∀ k < num, (s.heapTables (page + k)).present = false := fun k hk =>
        Bool.eq_false_iff.mpr fun hpresent => hbusy ⟨k, hk, hpresent⟩
      rw [requestHeap_consecutive rfl hlow hhigh habsent rfl]
      rcases @allocPhysMemConsecutive_cases s num (by omega) with
        ⟨hnone, halloc⟩ | ⟨first, hrun, hbound, halloc⟩
      · refine .inl ⟨fun h => hnone h.2, ?_⟩
        have hnothing : Memory.freePages (page + 0 * gfpCons.pages) num gfpCons s = .ok s :=
          (heapTarget rfl rfl hlow hhigh).freePages_absent trivial
            (Nat.le_of_eq (Nat.zero_add num)) habsent
        rw [Nat.zero_mul, Nat.add_zero] at hnothing
        rw [halloc]
        exact Machine.bind_eq_ok_iff.mpr ⟨(s, .failed num), rfl,
          Machine.bind_eq_ok_iff.mpr ⟨s, hnothing, rfl⟩⟩
      · refine .inr ⟨⟨⟨hpage, hregion, habsent⟩, first, hrun, hbound⟩, s.supply page first num,
          ⟨first, hrun, rfl⟩, ?_⟩
        have hne : first ≠ 0 := Nat.ne_of_gt (Nat.lt_of_lt_of_le (by decide) hrun.low)
        rw [halloc]
        refine Machine.bind_eq_ok_iff.mpr ⟨(s.supply page first num, .done), ?_,
          finishRequest_kernel rfl⟩
        refine (if_neg hne).trans ?_
        exact Machine.bind_eq_ok_iff.mpr ⟨_, @mapConsecutive_eq _ page first 0 num gfpCons hlow
          hhigh, rfl⟩
  · have hunfit : requestFits page num gfpCons = false := Bool.eq_false_iff.mpr fun hfit =>
      hregion (hfits.mp hfit)
    exact .inl ⟨fun h => hregion h.1.region, requestKernelPages_unfit hunfit⟩

/-! ### The hooks -/

/-- A request behind the end of the heap is refused. -/
theorem requestKernelPages_zero (num : Nat) :
    s.requestKernelPages 0 num gfpCons = .ok (s, 0) := by
  cases hfits : requestFits 0 num gfpCons with
  | false => exact requestKernelPages_unfit hfits
  | true =>
      rw [requestKernelPages_fit hfits, requestHeap, if_pos (by decide)]
      rfl

/-- `liballoc_alloc` gets all pages or none. -/
theorem liballocAlloc_cases (pages : BitVec 16) :
    (¬ s.RoomFor pages.toNat ∧ s.liballocAlloc pages = .ok (s, 0)) ∨
      s.HasRun pages.toNat ∧ ∃ page first, page ≠ 0 ∧ s.Vacant pages.toNat page ∧
        s.RunUnused pages.toNat first ∧
        s.liballocAlloc pages = .ok (s.supply page first pages.toNat, page) := by
  rw [liballocAlloc]
  have hnum := pages.isLt
  generalize pages.toNat = num at hnum ⊢
  have hstop : (kheapAddrIdx + numKheapPages + 2 ^ 32 - num) % 2 ^ 32 = 1048576 - num := by
    rw [kheapAddrIdx, numKheapPages]
    omega
  have hloop : s.allocPages num 0 gfpCons =
      allocLoop (fun s page => s.requestKernelPages page num gfpCons) (1048576 - num) 1
        (fun start => start % physDirSmallNum) allocRounds kheapAddrIdx s := by
    rw [allocPages, if_pos (by decide), allocKernelPages, if_neg (by decide)]
    exact congrArg (fun stop => allocLoop (fun s page => s.requestKernelPages page num gfpCons) stop
      1 (fun start => start % physDirSmallNum) allocRounds kheapAddrIdx s) hstop
  have hmod : ∀ i < physDirSmallNum, i % physDirSmallNum = i := fun i hi => Nat.mod_eq_of_lt hi
  rw [hloop]
  have hfirst := @allocLoop_first s kheapAddrIdx
    (fun s page => s.requestKernelPages page num gfpCons) (1048576 - num) allocRounds
    (fun i => s.Vacant num i ∧ s.HasRun num)
    (fun i s' => ∃ first, s.RunUnused num first ∧ s' = s.supply i first num)
    (fun start => start % physDirSmallNum) ?_ (by omega) (by rw [allocRounds]; omega)
  · rcases hfirst with ⟨hnone, hres⟩ | ⟨i, -, -, ⟨hvacant, hfound⟩, s', ⟨first, hrun, rfl⟩, hne,
      hres⟩
    · refine .inl ⟨?_, hres⟩
      rintro ⟨⟨page, hvacant⟩, hrun⟩
      obtain ⟨hlow, hhigh⟩ := isHeapPage_iff.mp hvacant.inHeap
      have hregion := hvacant.region
      rw [physDirSmallNum] at hhigh
      exact hnone page hlow (by omega) ⟨hvacant, hrun⟩
    · have hlt := (isHeapPage_iff.mp hvacant.inHeap).2
      simp only [hmod i hlt] at hne hres
      exact .inr ⟨hfound, i, first, hne, hvacant, hrun, hres⟩
  · intro i hlow hhigh
    rcases Nat.lt_or_ge i physDirSmallNum with hlt | hge
    · have hpage := isHeapPage_iff.mpr ⟨hlow, hlt⟩
      simp only [hmod i hlt]
      rcases @requestKernelPages_consecutive s i num hpage (by rw [physDirSmallNum]; omega) with
        hnone | ⟨hgood, hreq⟩
      · exact .inl hnone
      · exact .inr ⟨hgood, Nat.ne_of_gt (Nat.lt_of_lt_of_le (by decide) hlow), hreq⟩
    · have hend : i = physDirSmallNum := Nat.le_antisymm (by rw [physDirSmallNum]; omega) hge
      refine .inl ⟨fun h => Nat.not_lt.mpr hge (isHeapPage_iff.mp h.1.inHeap).2, ?_⟩
      simp only [hend, Nat.mod_self]
      exact requestKernelPages_zero num

/-- `liballoc_free` of a run of pages that are mapped to a run of frames. -/
theorem liballocFree_eq {pages : BitVec 16} (hlow : kheapAddrIdx ≤ page)
    (hhigh : page + pages.toNat ≤ physDirSmallNum) (hfirst : physDirLargeNum ≤ first)
    (hmapped : ∀ k < pages.toNat, t.heapTables (page + k) = newEntry gfpCons (first + k) ∧
      t.physDir (first + k) = PHYS_DIR_KERNEL) :
    t.liballocFree page pages = .ok (t.withdraw page first pages.toNat) := by
  rw [liballocFree]
  generalize pages.toNat = num at hhigh hmapped ⊢
  have htarget := @heapTarget page num gfpKernel rfl rfl hlow hhigh
  have hfree := @Target.freePages t _ page num gfpKernel _ _ (List.range' first num) 0 htarget
    trivial (by rw [Nat.zero_add, List.length_range']) (fun k idx hk => ?_) (fun idx hidx => ?_)
    List.nodup_range'
  · rw [List.length_range', Nat.zero_mul, Nat.add_zero, clearAll_run, Nat.add_zero] at hfree
    exact hfree
  · obtain ⟨hlt, hget⟩ := List.getElem?_eq_some_iff.mp hk
    rw [List.length_range'] at hlt
    rw [List.getElem_range', Nat.one_mul] at hget
    have hcell := (hmapped k hlt).1
    rw [Nat.zero_add, ← hget]
    exact hcell.trans (congrArg (newEntry gfpCons) (Nat.mul_one _).symm)
  · obtain ⟨hge, hlt⟩ := List.mem_range'_1.mp hidx
    have hphys := (hmapped (idx - first) (by omega)).2
    rw [Nat.add_sub_cancel' hge] at hphys
    exact ⟨Nat.ne_of_gt (Nat.lt_of_lt_of_le (by decide) (Nat.le_trans hfirst hge)), hphys⟩

/-- The pages are mapped to fresh consecutive frames, and freeing them gives back these pages and
frames and no others. -/
structure PagesSupplied (s : Memory) (n : BitVec 32) (page first : Nat) (s' : Memory) : Prop where
  inHeap : kheapAddrIdx ≤ page ∧ page + n.toNat ≤ physDirSmallNum
  unmapped : ∀ k < n.toNat, (s.heapTables (page + k)).present = false
  fresh : s.RunUnused n.toNat first
  mapped : s' = s.supply page first n.toNat
  freed : ∀ t : Memory, (∀ k < n.toNat, t.heapTables (page + k) = newEntry gfpCons (first + k) ∧
      t.physDir (first + k) = PHYS_DIR_KERNEL) →
    t.liballocFree page (n.setWidth 16) = .ok (t.withdraw page first n.toNat)

/-- `liballoc_alloc` returns the null pointer, or all pages that are asked for. -/
def SupplyRight (s : Memory) (n : BitVec 32) : Prop :=
  s.liballocAlloc (n.setWidth 16) = .ok (s, 0) ∨
    ∃ s' page first, page ≠ 0 ∧ s.liballocAlloc (n.setWidth 16) = .ok (s', page) ∧
      s.PagesSupplied n page first s'

theorem Vacant.bounds (h : s.Vacant num page) :
    kheapAddrIdx ≤ page ∧ page + num ≤ physDirSmallNum := by
  obtain ⟨hlow, hhigh⟩ := isHeapPage_iff.mp h.inHeap
  have hregion := h.region
  rw [physDirSmallNum] at *
  exact ⟨hlow, by omega⟩

theorem supplyRight_iff (s : Memory) (n : BitVec 32) :
    s.SupplyRight n ↔ n.toNat < 2 ^ 16 ∨ ¬ s.RoomFor (n.toNat % 2 ^ 16) := by
  have hwidth : (n.setWidth 16).toNat = n.toNat % 2 ^ 16 := BitVec.toNat_setWidth 16 n
  rw [← hwidth]
  rcases @liballocAlloc_cases s (n.setWidth 16) with
    ⟨hroom, halloc⟩ | ⟨hfound, page, first, hpage, hvacant, hrun, halloc⟩
  · exact iff_of_true (.inl halloc) (.inr hroom)
  · have hbounds := hvacant.bounds
    rcases Nat.lt_or_ge n.toNat (2 ^ 16) with hlt | hge
    · have hsame : (n.setWidth 16).toNat = n.toNat := hwidth.trans (Nat.mod_eq_of_lt hlt)
      refine iff_of_true (.inr ⟨_, page, first, hpage, halloc, ?_⟩) (.inl hlt)
      rw [hsame] at hvacant hrun hbounds ⊢
      refine ⟨hbounds, hvacant.absent, hrun, rfl, fun t hmapped => ?_⟩
      rw [← hsame] at hbounds hmapped ⊢
      exact liballocFree_eq hbounds.1 hbounds.2 hrun.low hmapped
    · refine iff_of_false ?_ ?_
      · -- The page behind those that were given is still not mapped.
        rintro (hnull | ⟨s', page', first', -, halloc', hsupplied⟩)
        · exact hpage (Prod.mk.inj (Except.ok.inj (halloc.symm.trans hnull))).2
        · obtain ⟨hs', rfl⟩ := Prod.mk.inj (Except.ok.inj (halloc.symm.trans halloc'))
          have hshort : (n.setWidth 16).toNat < n.toNat :=
            Nat.lt_of_lt_of_le (n.setWidth 16).isLt hge
          have habsent := hsupplied.unmapped _ hshort
          have hentry := congrArg (fun m => m.heapTables (page + (n.setWidth 16).toNat))
            (hs'.trans hsupplied.mapped)
          simp only [supply, heapTables_withRun_of_le (Nat.le_refl _),
            heapTables_withRun hshort] at hentry
          rw [hentry] at habsent
          cases habsent
      · rintro (hlt | hnone)
        · exact Nat.not_lt.mpr hge hlt
        · exact hnone ⟨⟨page, hvacant⟩, hfound⟩

/-- **Pages for the allocator.**  For each number of pages that `allocate_new_page` computes,
`liballoc_alloc` returns the null pointer, or as many pages of the kernel heap, mapped to fresh
consecutive frames, which `liballoc_free` gives back, if and only if the number has 16 bits, or
there is no room for the pages that are left of it. -/
theorem liballoc_right_iff (s : Memory) (size : BitVec 32) :
    s.SupplyRight (newPageCount size) ↔
      (newPageCount size).toNat < 2 ^ 16 ∨ ¬ s.RoomFor ((newPageCount size).toNat % 2 ^ 16) :=
  supplyRight_iff s (newPageCount size)

/-- There is always room for no pages. -/
theorem roomFor_zero (s : Memory) : s.RoomFor 0 :=
  ⟨⟨kheapAddrIdx, by decide, by decide, fun _ hk => absurd hk (Nat.not_lt_zero _)⟩,
    physDirLargeNum, ⟨Nat.le_refl _, by decide, fun _ hle hlt => absurd hle (Nat.not_le.mpr hlt)⟩,
    by decide⟩

/-- A request of 256 MiB needs 65536 pages, and none are mapped for it. -/
theorem oneFrame_supply_wrong : ¬ oneFrame.SupplyRight (newPageCount 268435408) := by
  have hcount : (newPageCount 268435408).toNat = 2 ^ 16 := by decide
  rw [supplyRight_iff, hcount, Nat.mod_self]
  rintro (hlt | hnone)
  · exact Nat.lt_irrefl _ hlt
  · exact hnone (roomFor_zero oneFrame)

/-- What `allocate_new_page` records is mapped, where the number of pages has 16 bits. -/
theorem allocateNewPage_mapped {size : BitVec 32} {maj : LiballocMajor}
    (hcount : (newPageCount size).toNat < 2 ^ 16)
    (h : s.allocateNewPage size = .ok (s', some maj)) :
    ∀ k < maj.pages.toNat, (s.heapTables (maj.page + k)).present = false ∧
      (s'.heapTables (maj.page + k)).present = true := by
  rw [allocateNewPage] at h
  obtain ⟨⟨s₁, page⟩, halloc, hrest⟩ := Machine.bind_eq_ok_iff.mp h
  by_cases hpage : page = 0
  · cases (if_pos hpage).symm.trans hrest
  · have hrest := (if_neg hpage).symm.trans hrest
    split at hrest
    next =>
      cases hrest
      rcases (supplyRight_iff s _).mpr (.inl hcount) with hnull | ⟨s₂, page', first, -, hok, hall⟩
      · exact absurd (Prod.mk.inj (Except.ok.inj (halloc.symm.trans hnull))).2 hpage
      · obtain ⟨rfl, rfl⟩ := Prod.mk.inj (Except.ok.inj (halloc.symm.trans hok))
        intro k hk
        refine ⟨hall.unmapped k hk, ?_⟩
        rw [hall.mapped, supply, heapTables_withRun hk]
        rfl
    next => cases hrest

end Memory
end Paging
end JkxyKernel
