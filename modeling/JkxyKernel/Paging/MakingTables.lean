import JkxyKernel.Paging.Requests

/-!
# Page tables that are made

`mk_user_table` asks `alloc_pages` for one page of the kernel heap.  It gets the first page that
is not mapped, but never the last page of 4 MiB: `request_pages` takes the end of its range for
a part of the next table.
-/

namespace JkxyKernel
namespace Paging
namespace Memory

variable {s s' t : Memory} {dir page num root i p q frame idx start : Nat} {gfp : Gfp} {e : Entry}

/-! ### Which entries are present -/

section AnyPresent

variable {get : Nat → Except Fault Entry} {f : Nat → Entry} {left k : Nat}

theorem anyPresent_false (hget : ∀ k < left, get (i + k) = .ok (f (i + k)))
    (habsent : ∀ k < left, (f (i + k)).present = false) : anyPresent get left i = .ok false := by
  induction left generalizing i with
  | zero => rfl
  | succ left ih =>
      have hfirst : get i = .ok (f i) := hget 0 (Nat.succ_pos _)
      have habsent' : (f i).present = false := habsent 0 (Nat.succ_pos _)
      rw [anyPresent, hfirst]
      refine Machine.bind_eq_ok_iff.mpr ⟨_, rfl, ?_⟩
      rw [habsent']
      refine ih (fun k hk => ?_) fun k hk => ?_
      · rw [Nat.add_assoc, Nat.add_comm 1 k]
        exact hget (k + 1) (Nat.succ_lt_succ hk)
      · rw [Nat.add_assoc, Nat.add_comm 1 k]
        exact habsent (k + 1) (Nat.succ_lt_succ hk)

/-- The search ends at the first entry that is present. -/
theorem anyPresent_true (hk : k < left) (hget : ∀ j ≤ k, get (i + j) = .ok (f (i + j)))
    (hpresent : (f (i + k)).present = true) : anyPresent get left i = .ok true := by
  induction left generalizing i k with
  | zero => cases hk
  | succ left ih =>
      have hfirst : get i = .ok (f i) := hget 0 (Nat.zero_le _)
      rw [anyPresent, hfirst]
      refine Machine.bind_eq_ok_iff.mpr ⟨_, rfl, ?_⟩
      split
      next => rfl
      next hnot =>
        cases k with
        | zero => exact absurd hpresent hnot
        | succ k =>
            have hshift : ∀ j, i + 1 + j = i + (j + 1) := by omega
            refine ih (Nat.lt_of_succ_lt_succ hk) (fun j hj => ?_) ?_
            · rw [hshift]
              exact hget (j + 1) (Nat.succ_le_succ hj)
            · rw [hshift]
              exact hpresent

/-- The search runs into a fault if nothing before it is present. -/
theorem anyPresent_error {fault : Fault} (hk : k < left)
    (hget : ∀ j < k, get (i + j) = .ok (f (i + j)))
    (habsent : ∀ j < k, (f (i + j)).present = false) (hfault : get (i + k) = .error fault) :
    anyPresent get left i = .error fault := by
  induction k generalizing i left with
  | zero =>
      obtain ⟨left, rfl⟩ := Nat.exists_eq_succ_of_ne_zero (Nat.ne_of_gt hk)
      have hfirst : get i = .error fault := hfault
      rw [anyPresent, hfirst]
      rfl
  | succ k ih =>
      obtain ⟨left, rfl⟩ := Nat.exists_eq_succ_of_ne_zero (Nat.ne_of_gt (Nat.zero_lt_of_lt hk))
      have hshift : ∀ j, i + 1 + j = i + (j + 1) := by omega
      have hfirst : get i = .ok (f i) := hget 0 (Nat.succ_pos _)
      have habsent' : (f i).present = false := habsent 0 (Nat.succ_pos _)
      rw [anyPresent, hfirst]
      change (if (f i).present = true then _ else _) = _
      rw [habsent', if_neg Bool.false_ne_true]
      refine ih (Nat.lt_of_succ_lt_succ hk) (fun j hj => ?_) (fun j hj => ?_) ?_
      · rw [hshift]
        exact hget (j + 1) (Nat.succ_lt_succ hj)
      · rw [hshift]
        exact habsent (j + 1) (Nat.succ_lt_succ hj)
      · rw [hshift]
        exact hfault

end AnyPresent

/-! ### One page of the kernel heap -/

/-- A page of the kernel heap that a request for it alone may get. -/
structure Spare (s : Memory) (p : Nat) : Prop where
  inHeap : isHeapPage p = true
  absent : (s.heapTables p).present = false
  notLast : p % 1024 ≠ 1023

theorem requestFits_one (hp : p < physDirSmallNum) (hsmall : gfp.large = false) :
    requestFits p 1 gfp = decide (p % 1024 ≠ 1023) := by
  rw [requestFits, if_neg (by rw [hsmall]; exact Bool.false_ne_true)]
  rw [physDirSmallNum] at *
  refine decide_eq_decide.mpr ?_
  omega

theorem heapTarget_one (hp : isHeapPage p = true) :
    Target (fun t offset => t.writeHeap (p + offset)) p 1 gfpKernel
      (fun offset => .heap (p + offset)) (fun _ => True) :=
  heapTarget rfl rfl (isHeapPage_iff.mp hp).1 (isHeapPage_iff.mp hp).2

/-- A request for one page of the kernel heap. -/
theorem requestKernelPages_one (hp : isHeapPage p = true)
    (hzero : s.physDir 0 ≠ PHYS_DIR_UNUSED) :
    (¬ (s.Spare p ∧ s.freeFrames.Nonempty) ∧
      s.requestKernelPages p 1 gfpKernel = .ok (s, 0)) ∨
      s.Spare p ∧ ∃ idx ∈ s.freeFrames, s.requestKernelPages p 1 gfpKernel =
        .ok ((s.setPhysDir idx PHYS_DIR_KERNEL).setHeap p (newEntry gfpKernel idx), p) := by
  obtain ⟨hlow, hhigh⟩ := isHeapPage_iff.mp hp
  rw [requestKernelPages, requestFits_one hhigh rfl]
  by_cases hlast : p % 1024 = 1023
  · refine .inl ⟨fun h => h.1.notLast hlast, ?_⟩
    rw [decide_eq_false (not_not.mpr hlast)]
    rfl
  · rw [decide_eq_true hlast]
    have hread : ∀ k < 1, s.readHeap (p + k) = .ok (s.heapTables (p + k)) := fun k hk => by
      rw [Nat.lt_one_iff.mp hk]
      exact if_pos hp
    have hstart : s.requestHeap p 1 gfpKernel =
        anyPresent s.readHeap 1 p >>= fun busy => if busy then .ok (s, .refused)
          else mapPages (fun t offset => t.writeHeap (p + offset)) gfpKernel 1 0 s := by
      have hcond : ¬ ((gfpKernel.large || decide (p < kheapAddrIdx)) = true) := by
        rw [decide_eq_false (Nat.not_lt.mpr hlow)]
        exact Bool.false_ne_true
      rw [requestHeap, if_neg hcond]
      rfl
    cases hpresent : (s.heapTables p).present with
    | true =>
        refine .inl ⟨fun h => ?_, ?_⟩
        · rw [h.1.absent] at hpresent
          cases hpresent
        · have hany : anyPresent s.readHeap 1 p = .ok true :=
            anyPresent_true Nat.one_pos (fun j hj => hread j (by omega)) hpresent
          refine Machine.bind_eq_ok_iff.mpr ⟨(s, .refused), ?_, rfl⟩
          rw [hstart, hany]
          rfl
    | false =>
        have hspare : s.Spare p := ⟨hp, hpresent, hlast⟩
        have hany : anyPresent s.readHeap 1 p = .ok false :=
          anyPresent_false hread fun k hk => by
            rw [Nat.lt_one_iff.mp hk]
            exact hpresent
        rw [hany] at hstart
        obtain ⟨idxs, out, hmap, -, hall, hout⟩ :=
          @Target.mapPages s _ p 1 gfpKernel _ _ 0 1 (heapTarget_one hp) trivial hzero rfl
        rcases hout with ⟨rfl, hlength⟩ | ⟨rfl, hlength, hnone⟩
        · obtain ⟨idx, rfl⟩ := List.length_eq_one_iff.mp hlength
          have hfree := (hall idx (List.mem_singleton_self idx)).1
          refine .inr ⟨hspare, idx, (mem_freeFrames_iff rfl).mpr hfree, ?_⟩
          refine Machine.bind_eq_ok_iff.mpr ⟨_, hstart.trans hmap, ?_⟩
          rw [mapAll, mapAll]
          have hkernel : (p ≠ 0 ∧ gfpKernel.user = true) → False := fun h => Bool.false_ne_true h.2
          have hone : idx * gfpKernel.pages = idx := Nat.mul_one idx
          rw [hone]
          exact if_neg hkernel
        · have hnil : idxs = [] := List.length_eq_zero_iff.mp (Nat.lt_one_iff.mp hlength)
          subst hnil
          refine .inl ⟨fun h => ?_, Machine.bind_eq_ok_iff.mpr ⟨_, hstart.trans hmap, rfl⟩⟩
          rw [freeFrames_eq_empty rfl hzero hnone] at h
          exact Finset.not_nonempty_empty h.2

/-- The loop of `alloc_pages` ends with the first page that a request gets; by induction on how
far it is to the end of the loop. -/
theorem allocLoop_first {request : Memory → Nat → Except Fault (Memory × Nat)} {stop rounds : Nat}
    {good : Nat → Prop} {result : Nat → Memory → Prop} {page : Nat → Nat}
    (hrequest : ∀ i, start ≤ i → i ≤ stop →
      (¬ good i ∧ request s (page i) = .ok (s, 0)) ∨
        good i ∧ page i ≠ 0 ∧ ∃ s', result i s' ∧ request s (page i) = .ok (s', page i))
    (hstop : stop + 1 < 2 ^ 32) (hrounds : stop + 1 - start < rounds) :
    ((∀ i, start ≤ i → i ≤ stop → ¬ good i) ∧
      allocLoop request stop 1 page rounds start s = .ok (s, 0)) ∨
      ∃ i, start ≤ i ∧ i ≤ stop ∧ good i ∧ ∃ s', result i s' ∧ page i ≠ 0 ∧
        allocLoop request stop 1 page rounds start s = .ok (s', page i) := by
  induction rounds generalizing start with
  | zero => exact absurd hrounds (Nat.not_lt_zero _)
  | succ rounds ih =>
      rw [allocLoop]
      split
      next hle =>
        rcases hrequest start (Nat.le_refl _) hle with ⟨hbad, hreq⟩ | ⟨hgood, hne, s', hs', hreq⟩
        · have hnext : (start + 1) % 2 ^ 32 = start + 1 := Nat.mod_eq_of_lt (by omega)
          rw [hreq, hnext]
          rcases @ih (start + 1) (fun i hi => hrequest i (Nat.le_of_succ_le hi)) (by omega) with
            ⟨hnone, hloop⟩ | ⟨i, hi, hi', hgood, s', hs', hne, hloop⟩
          · refine .inl ⟨fun i hi hi' => ?_, hloop⟩
            rcases Nat.eq_or_lt_of_le hi with rfl | hlt
            · exact hbad
            · exact hnone i hlt hi'
          · exact .inr ⟨i, Nat.le_of_succ_le hi, hi', hgood, s', hs', hne, hloop⟩
        · refine .inr ⟨start, Nat.le_refl _, hle, hgood, s', hs', hne, ?_⟩
          rw [hreq]
          exact if_pos hne
      next hle => exact .inl ⟨fun i hi hi' => absurd (Nat.le_trans hi hi') hle, rfl⟩

/-- Is there a page and a frame for a page table? -/
def TableAvailable (s : Memory) : Prop := (∃ p, s.Spare p) ∧ s.freeFrames.Nonempty

/-- `alloc_pages` of one page of the kernel heap. -/
theorem allocKernelPages_one (hzero : s.physDir 0 ≠ PHYS_DIR_UNUSED) :
    (¬ s.TableAvailable ∧ s.allocKernelPages 1 0 gfpKernel = .ok (s, 0)) ∨
      ∃ p, s.Spare p ∧ ∃ idx ∈ s.freeFrames, p ≠ 0 ∧ s.allocKernelPages 1 0 gfpKernel =
        .ok ((s.setPhysDir idx PHYS_DIR_KERNEL).setHeap p (newEntry gfpKernel idx), p) := by
  have hheap : ∀ i, kheapAddrIdx ≤ i → i ≤ 1048575 → isHeapPage (i % physDirSmallNum) = true ∧
      i % physDirSmallNum = i := by
    intro i hlow hhigh
    have hmod : i % physDirSmallNum = i :=
      Nat.mod_eq_of_lt (by rw [physDirSmallNum]; omega)
    rw [hmod]
    exact ⟨isHeapPage_iff.mpr ⟨hlow, by rw [physDirSmallNum]; omega⟩, rfl⟩
  have hloop : s.allocKernelPages 1 0 gfpKernel =
      allocLoop (fun s page => s.requestKernelPages page 1 gfpKernel) 1048575 1
        (fun start => start % physDirSmallNum) allocRounds kheapAddrIdx s := by
    rw [allocKernelPages, if_neg (by decide)]
    rfl
  rw [hloop]
  have hfirst := @allocLoop_first s kheapAddrIdx
    (fun s page => s.requestKernelPages page 1 gfpKernel) 1048575 allocRounds
    (fun i => s.Spare i ∧ s.freeFrames.Nonempty)
    (fun i s' => ∃ idx ∈ s.freeFrames,
      s' = (s.setPhysDir idx PHYS_DIR_KERNEL).setHeap i (newEntry gfpKernel idx))
    (fun start => start % physDirSmallNum) ?_ (by decide) (by rw [allocRounds]; omega)
  · rcases hfirst with ⟨hnone, hres⟩ | ⟨i, hlow, hhigh, ⟨hspare, -⟩, s', ⟨idx, hidx, rfl⟩, hne, hres⟩
    · refine .inl ⟨?_, hres⟩
      rintro ⟨⟨p, hp⟩, hfree⟩
      obtain ⟨hlow, hhigh⟩ := isHeapPage_iff.mp hp.inHeap
      rw [physDirSmallNum] at hhigh
      exact hnone p hlow (by omega) ⟨hp, hfree⟩
    · have hmod := (hheap i hlow hhigh).2
      rw [hmod] at hne hres
      exact .inr ⟨i, hspare, idx, hidx, hne, hres⟩
  · intro i hlow hhigh
    obtain ⟨hp, hmod⟩ := hheap i hlow hhigh
    rw [hmod] at hp ⊢
    rcases requestKernelPages_one hp hzero with hnone | ⟨hspare, idx, hidx, hreq⟩
    · exact .inl hnone
    · refine .inr ⟨⟨hspare, idx, hidx⟩, ?_, _, ⟨idx, hidx, rfl⟩, hreq⟩
      exact Nat.ne_of_gt (Nat.lt_of_lt_of_le (by decide) hlow)

/-! ### The new table -/

/-- The memory with an empty page table, in a new page of the kernel heap, for the entry of a
directory. -/
def withTable (s : Memory) (root i p idx : Nat) : Memory :=
  (((s.setPhysDir idx PHYS_DIR_KERNEL).setHeap p (newEntry gfpKernel idx)).clearFrame
    idx).setCell (.entry root i) (newEntry gfpUser idx)

theorem physDir_withTable :
    (s.withTable root i p idx).physDir = Function.update s.physDir idx PHYS_DIR_KERNEL := rfl

theorem heapTables_withTable :
    (s.withTable root i p idx).heapTables =
      Function.update s.heapTables p (newEntry gfpKernel idx) := rfl

theorem entries_withTable {j : Nat} :
    (s.withTable root i p idx).entries frame j =
      if frame = root ∧ j = i then newEntry gfpUser idx
      else if frame = idx then .zero else s.entries frame j := by
  have hset := @getCell_setCell (((s.setPhysDir idx PHYS_DIR_KERNEL).setHeap p
    (newEntry gfpKernel idx)).clearFrame idx) (.entry root i) (.entry frame j) (newEntry gfpUser idx)
  refine hset.trans ?_
  by_cases hcell : frame = root ∧ j = i
  · rw [if_pos hcell, if_pos (by rw [hcell.1, hcell.2])]
  · rw [if_neg hcell, if_neg fun heq => hcell (Cell.entry.inj heq)]
    simp only [getCell, clearFrame, Function.update_apply]
    split <;> rfl

/-- The new table is empty. -/
theorem getCell_withTable_new {j : Nat} (hroot : root ≠ idx) :
    (s.withTable root i p idx).getCell (.entry idx j) = .zero := by
  refine entries_withTable.trans ?_
  rw [if_neg fun hcell => hroot hcell.1.symm, if_pos rfl]

theorem zero_withTable (hzero : s.physDir 0 ≠ PHYS_DIR_UNUSED) :
    (s.withTable root i p idx).physDir 0 ≠ PHYS_DIR_UNUSED := by
  rw [physDir_withTable, Function.update_apply]
  split
  next => decide
  next => exact hzero

/-- `mk_user_table`, for a directory that lies in `root`. -/
theorem mkUserTable_total (hzero : s.physDir 0 ≠ PHYS_DIR_UNUSED) (hroot : s.frameAt dir = root)
    (hdir : ∀ p, s.Spare p → dir ≠ p) :
    (¬ s.TableAvailable ∧ s.mkUserTable dir i = .ok (s, 0)) ∨
      ∃ p, s.Spare p ∧ ∃ idx ∈ s.freeFrames, p ≠ 0 ∧
        s.mkUserTable dir i = .ok (s.withTable root i p idx, p) := by
  rw [mkUserTable]
  rcases allocKernelPages_one hzero with ⟨hnone, halloc⟩ | ⟨p, hspare, idx, hidx, hp, halloc⟩
  · rw [halloc]
    exact .inl ⟨hnone, rfl⟩
  · refine .inr ⟨p, hspare, idx, hidx, hp, ?_⟩
    rw [halloc]
    refine (if_neg hp).trans ?_
    have hframe : ((s.setPhysDir idx PHYS_DIR_KERNEL).setHeap p
        (newEntry gfpKernel idx)).frameAt p = idx := by
      rw [frameAt_of_isHeapPage hspare.inHeap]
      exact congrArg Entry.addr (Function.update_self p _ s.heapTables)
    have hcleared : (((s.setPhysDir idx PHYS_DIR_KERNEL).setHeap p
        (newEntry gfpKernel idx)).clearFrame idx).frameAt p = idx := hframe
    have hroot' : (((s.setPhysDir idx PHYS_DIR_KERNEL).setHeap p
        (newEntry gfpKernel idx)).clearFrame idx).frameAt dir = root := by
      rw [← hroot, frameAt, frameAt]
      split
      next => rfl
      next => exact congrArg Entry.addr (Function.update_of_ne (hdir p hspare) _ _)
    rw [hframe, hcleared, setEntry, hroot']
    rfl

/-- The new page of the heap does not get in the way of those that are looked for. -/
theorem heapPage_withTable (hspare : s.Spare p) (hne : frame ≠ idx) :
    (s.withTable root i p idx).heapPage frame = s.heapPage frame := by
  rw [heapPage, heapPage, heapTables_withTable]
  congr 1
  funext q
  by_cases hq : q = p
  · subst hq
    rw [Function.update_self, hspare.absent, Bool.false_and]
    exact Bool.and_eq_false_imp.mpr fun _ => beq_eq_false_iff_ne.mpr (Ne.symm hne)
  · rw [Function.update_of_ne hq]

theorem currentPageDirectory_withTable (hspare : s.Spare p) (hne : s.cr3 ≠ idx) :
    (s.withTable root i p idx).currentPageDirectory = s.currentPageDirectory := by
  have hcr3 : (s.withTable root i p idx).cr3 = s.cr3 := rfl
  rw [currentPageDirectory, currentPageDirectory, hcr3, heapPage_withTable hspare hne]

theorem mapsTo_withTable (hspare : s.Spare p) : (s.withTable root i p idx).MapsTo p idx := by
  refine ⟨hspare.inHeap, ?_, ?_⟩
  · rw [heapTables_withTable, Function.update_self]
    rfl
  · rw [heapTables_withTable, Function.update_self]
    rfl

theorem freeFrames_withTable (hidx : idx ∈ s.freeFrames) :
    (s.withTable root i p idx).freeFrames = s.freeFrames.erase idx := by
  have htaken := @freeFrames_of_taken s (s.withTable root i p idx) gfpKernel rfl [idx]
    (fun f => ?_) (fun f hf => ?_)
  · rw [htaken]
    exact Finset.sdiff_singleton_eq_erase idx s.freeFrames
  · rw [physDir_withTable, Function.update_apply]
    simp only [List.mem_singleton]
    rfl
  · rw [List.mem_singleton.mp hf]
    exact (mem_freeFrames_iff rfl).mp hidx

end Memory
end Paging
end JkxyKernel
