import JkxyKernel.Paging.Granting

/-!
# Pages that are freed

`free_pages` goes through small pages of a user program one by one.  It takes away those that are
mapped in a page table for user programs, and leaves all others: large pages, the kernel's, and those
that are not mapped.
-/

namespace JkxyKernel
namespace Paging
namespace Memory

variable {s s' s₁ t : Memory} {dir page num i p q idx frame : Nat} {P Q : Nat → Prop}

/-- The entry of a page in the page table that the directory in use has for it. -/
def leaf (s : Memory) (page : Nat) : Entry :=
  s.entries (s.entries s.cr3 (page / 1024)).addr (page % 1024)

/-- A small page that `free_pages` takes away from a user program. -/
structure Freeable (s : Memory) (page : Nat) : Prop where
  table : (s.entries s.cr3 (page / 1024)).isTable = true
  present : (s.leaf page).present = true
  user : (s.leaf page).user = true

/-- The directory in use has no page table twice, and the frames of its pages are counted and
mapped once. -/
structure Counted (s : Memory) : Prop where
  separate : s.Separate
  positive : ∀ page < physDirSmallNum, s.Freeable page → 0 < s.physDir (s.leaf page).addr
  once : ∀ page < physDirSmallNum, ∀ q < physDirSmallNum, s.Freeable page → s.Freeable q →
    (s.leaf page).addr = (s.leaf q).addr → page = q

/-- Of the small pages with some property, those of user programs are taken away, and nothing
else. -/
structure Frees (s s' : Memory) (P : Nat → Prop) : Prop where
  heapTables : s'.heapTables = s.heapTables
  cr3 : s'.cr3 = s.cr3
  root : ∀ i, s'.entries s.cr3 i = s.entries s.cr3 i
  freed : ∀ page < physDirSmallNum, P page → s.Freeable page → s'.leaf page = .zero
  kept : ∀ page < physDirSmallNum, ¬ (P page ∧ s.Freeable page) →
    (s.entries s.cr3 (page / 1024)).present = true →
    (s.entries s.cr3 (page / 1024)).size = false → s'.leaf page = s.leaf page
  physDir : ∀ frame, (∀ page < physDirSmallNum, P page → s.Freeable page →
    (s.leaf page).addr ≠ frame) → s'.physDir frame = s.physDir frame

theorem lt_numEntries (hpage : page < physDirSmallNum) : page / 1024 < numEntries := by
  rw [physDirSmallNum] at hpage
  rw [numEntries]
  omega

/-! ### One page -/

section One

variable (h : s.InUse dir) (hpage : page < physDirSmallNum)

include h hpage

theorem unmapPage_freeable (hfree : s.Freeable page) :
    s.unmapPage page gfpUser = .ok (s.setCell
      (.entry (s.entries s.cr3 (page / 1024)).addr (page % 1024)) .zero, (s.leaf page).addr) := by
  have hlt := lt_numEntries hpage
  have hmod : page % 1024 < numEntries := Nat.mod_lt _ (by decide)
  obtain ⟨hpresent, huser, hsize⟩ := Entry.isTable_iff.mp hfree.table
  obtain ⟨table, hfind, hframe⟩ := h.find hlt hfree.table
  have hread : s.readEntry table (page % 1024) = .ok (s.leaf page) := readEntry_of_frameAt hframe hmod
  rw [unmapPage, if_pos (show gfpUser.user = true from rfl), h.current]
  refine Machine.bind_eq_ok_iff.mpr ⟨_, rfl, Machine.bind_eq_ok_iff.mpr
    ⟨_, readEntry_of_frameAt (frameAt_currentPageDirectory h.current) hlt, ?_⟩⟩
  rw [hpresent, huser, hsize]
  refine Machine.bind_eq_ok_iff.mpr ⟨_, hfind, Machine.bind_eq_ok_iff.mpr ⟨_, hread, ?_⟩⟩
  rw [hfree.present, hfree.user]
  exact Machine.bind_eq_ok_iff.mpr ⟨_, writeEntry_of_frameAt hframe hmod, rfl⟩

theorem unmapPage_not_freeable (hnot : ¬ s.Freeable page) :
    s.unmapPage page gfpUser = .ok (s, 0) := by
  have hlt := lt_numEntries hpage
  have hmod : page % 1024 < numEntries := Nat.mod_lt _ (by decide)
  rw [unmapPage, if_pos (show gfpUser.user = true from rfl), h.current]
  refine Machine.bind_eq_ok_iff.mpr ⟨_, rfl, Machine.bind_eq_ok_iff.mpr
    ⟨_, readEntry_of_frameAt (frameAt_currentPageDirectory h.current) hlt, ?_⟩⟩
  cases hentry : (s.entries s.cr3 (page / 1024)).present &&
    (s.entries s.cr3 (page / 1024)).user with
  | false => rfl
  | true =>
      obtain ⟨hpresent, huser⟩ := Bool.and_eq_true_iff.mp hentry
      cases hsize : (s.entries s.cr3 (page / 1024)).size with
      | true => rfl
      | false =>
          have htable := Entry.isTable_iff.mpr ⟨hpresent, huser, hsize⟩
          obtain ⟨table, hfind, hframe⟩ := h.find hlt htable
          have hread : s.readEntry table (page % 1024) = .ok (s.leaf page) :=
            readEntry_of_frameAt hframe hmod
          refine Machine.bind_eq_ok_iff.mpr ⟨_, hfind, Machine.bind_eq_ok_iff.mpr ⟨_, hread, ?_⟩⟩
          refine if_neg fun hleaf => ?_
          obtain ⟨hpresent', huser'⟩ := Bool.and_eq_true_iff.mp hleaf
          exact hnot ⟨htable, hpresent', huser'⟩

end One

/-- The entry of another page lies elsewhere. -/
theorem leaf_ne (hseparate : s.Separate) (hpage : page < physDirSmallNum) (hq : q < physDirSmallNum)
    (htable : (s.entries s.cr3 (page / 1024)).isTable = true)
    (hpresent : (s.entries s.cr3 (q / 1024)).present = true)
    (hsize : (s.entries s.cr3 (q / 1024)).size = false) (hne : q ≠ page) :
    (Cell.entry (s.entries s.cr3 (q / 1024)).addr (q % 1024)) ≠
      .entry (s.entries s.cr3 (page / 1024)).addr (page % 1024) := by
  intro heq
  obtain ⟨haddr, hindex⟩ := Cell.entry.inj heq
  obtain ⟨hpresent', -, hsize'⟩ := Entry.isTable_iff.mp htable
  have hdiv := hseparate _ (lt_numEntries hq) _ (lt_numEntries hpage) hpresent hsize hpresent' hsize'
    haddr
  omega

/-- What is freed of one page. -/
theorem freeOnePage_frees (h : s.InUse dir)
    (hapart : ∀ i < numEntries, (s.entries s.cr3 i).isTable = true →
      (s.entries s.cr3 i).addr ≠ s.cr3)
    (hcounted : s.Counted) (hpage : page < physDirSmallNum) :
    ∃ s', s.freeOnePage page gfpUser = .ok s' ∧ s.Frees s' (· = page) := by
  by_cases hfree : s.Freeable page
  · have hunmap := unmapPage_freeable h hpage hfree
    generalize hc : Cell.entry (s.entries s.cr3 (page / 1024)).addr (page % 1024) = c at hunmap
    have hroot : ∀ i, (s.setCell c .zero).entries s.cr3 i = s.entries s.cr3 i := by
      intro i
      refine @getCell_setCell_of_ne s c (.entry s.cr3 i) .zero fun heq => ?_
      rw [← hc] at heq
      exact hapart _ (lt_numEntries hpage) hfree.table (Cell.entry.inj heq).1.symm
    have hleaf : ∀ q, (s.setCell c .zero).leaf q = (s.setCell c .zero).getCell
        (.entry (s.entries s.cr3 (q / 1024)).addr (q % 1024)) := by
      intro q
      rw [leaf, cr3_setCell, hroot]
      rfl
    have hfrees : ∀ s', s'.heapTables = s.heapTables → s'.cr3 = s.cr3 →
        s'.entries = (s.setCell c .zero).entries →
        (∀ frame, (s.leaf page).addr ≠ frame → s'.physDir frame = s.physDir frame) →
        s.Frees s' (· = page) := by
      intro s' hheap hcr3 hentries hphys
      have hleaf' : ∀ q, s'.leaf q = (s.setCell c .zero).leaf q := by
        intro q
        rw [leaf, leaf, hcr3, hentries, cr3_setCell]
      refine ⟨hheap, hcr3, fun i => ?_, fun q _ hq _ => ?_, fun q hq hnot hpresent hsize => ?_,
        fun frame hother => hphys frame (hother page hpage rfl hfree)⟩
      · rw [hentries, hroot]
      · rw [hleaf', hleaf, hq, hc, getCell_setCell_self]
      · have hne : q ≠ page := by
          rintro rfl
          exact hnot ⟨rfl, hfree⟩
        have hcell := leaf_ne hcounted.separate hpage hq hfree.table hpresent hsize hne
        rw [hc] at hcell
        rw [hleaf', hleaf, getCell_setCell_of_ne hcell]
        rfl
    have hheapCell : (s.setCell c .zero).heapTables = s.heapTables := by
      rw [← hc]
      rfl
    by_cases hzero : (s.leaf page).addr = 0
    · refine ⟨s.setCell c .zero, Machine.bind_eq_ok_iff.mpr ⟨_, hunmap, if_pos hzero⟩,
        hfrees _ hheapCell cr3_setCell rfl fun _ _ => congrFun physDir_setCell _⟩
    · have hpositive := hcounted.positive page hpage hfree
      have hphys : (s.setCell c .zero).physDir = s.physDir := physDir_setCell
      have hcount : (s.setCell c .zero).freePhysMem (s.leaf page).addr gfpUser =
          .ok ((s.setCell c .zero).setPhysDir (s.leaf page).addr
            (s.physDir (s.leaf page).addr - 1)) := by
        have hidx : (s.leaf page).addr / gfpUser.pages = (s.leaf page).addr := Nat.div_one _
        rw [freePhysMem, hidx, hphys, if_neg (by rw [PHYS_DIR_UNUSED]; omega),
          if_neg (by rw [PHYS_DIR_UNAVAIL]; omega), if_neg (by rw [PHYS_DIR_KERNEL]; omega),
          if_pos hpositive]
        exact if_pos rfl
      refine ⟨_, Machine.bind_eq_ok_iff.mpr ⟨_, hunmap, (if_neg hzero).trans hcount⟩,
        hfrees _ hheapCell cr3_setCell rfl fun frame hne => ?_⟩
      rw [setPhysDir_of_ne _ hne.symm, hphys]
  · refine ⟨s, Machine.bind_eq_ok_iff.mpr ⟨_, unmapPage_not_freeable h hpage hfree, if_pos rfl⟩,
      rfl, rfl, fun _ => rfl, fun q _ hq hfree' => ?_, fun _ _ _ _ _ => rfl, fun _ _ => rfl⟩
    exact absurd (hq ▸ hfree') hfree

/-! ### What stays as it was -/

namespace Frees

variable (h : s.Frees s' P)

include h

theorem entry : ∀ i, s'.entries s'.cr3 i = s.entries s.cr3 i := by
  intro i
  rw [h.cr3, h.root]

theorem inUse (hin : s.InUse dir) : s'.InUse dir := by
  refine ⟨(currentPageDirectory_congr h.heapTables h.cr3).trans hin.current, fun i hi ht => ?_⟩
  rw [h.entry] at ht ⊢
  obtain ⟨p, hp⟩ := hin.tables i hi ht
  exact ⟨p, hp.inHeap, by rw [h.heapTables, hp.present], by rw [h.heapTables, hp.addr]⟩

/-- What can be freed afterwards could be freed before, and has not been. -/
theorem freeable (hpage : page < physDirSmallNum) (hfree : s'.Freeable page) :
    s.Freeable page ∧ ¬ P page ∧ s'.leaf page = s.leaf page := by
  have htable := hfree.table
  rw [h.entry] at htable
  obtain ⟨hpresent, -, hsize⟩ := Entry.isTable_iff.mp htable
  have hnot : ¬ (P page ∧ s.Freeable page) := by
    rintro ⟨hP, hbefore⟩
    have hzero := h.freed page hpage hP hbefore
    have hpresent' := hfree.present
    rw [hzero] at hpresent'
    cases hpresent'
  have hleaf := h.kept page hpage hnot hpresent hsize
  have hbefore : s.Freeable page :=
    ⟨htable, hleaf ▸ hfree.present, hleaf ▸ hfree.user⟩
  exact ⟨hbefore, fun hP => hnot ⟨hP, hbefore⟩, hleaf⟩

/-- What is not freed can still be freed. -/
theorem freeable_of_not (hpage : page < physDirSmallNum) (hfree : s.Freeable page) (hnot : ¬ P page) :
    s'.Freeable page := by
  obtain ⟨hpresent, -, hsize⟩ := Entry.isTable_iff.mp hfree.table
  have hleaf := h.kept page hpage (fun hP => hnot hP.1) hpresent hsize
  exact ⟨by rw [h.entry, hfree.table], by rw [hleaf, hfree.present], by rw [hleaf, hfree.user]⟩

theorem counted (hcounted : s.Counted) : s'.Counted := by
  refine ⟨fun i hi j hj => ?_, fun page hpage hfree => ?_, fun page hpage q hq hfree hfree' => ?_⟩
  · rw [h.entry, h.entry]
    exact hcounted.separate i hi j hj
  · obtain ⟨hbefore, hnot, hleaf⟩ := h.freeable hpage hfree
    rw [hleaf, h.physDir _ fun q hq hP hfreed heq => ?_]
    · exact hcounted.positive page hpage hbefore
    · rw [hcounted.once q hq page hpage hfreed hbefore heq] at hP
      exact hnot hP
  · obtain ⟨hbefore, -, hleaf⟩ := h.freeable hpage hfree
    obtain ⟨hbefore', -, hleaf'⟩ := h.freeable hq hfree'
    rw [hleaf, hleaf']
    exact hcounted.once page hpage q hq hbefore hbefore'

/-- Pages freed one after the other. -/
theorem trans (hnext : s'.Frees t Q) : s.Frees t (fun page => P page ∨ Q page) where
  heapTables := hnext.heapTables.trans h.heapTables
  cr3 := hnext.cr3.trans h.cr3
  root i := by
    have hsame := hnext.root i
    rw [h.cr3] at hsame
    exact hsame.trans (h.root i)
  freed page hpage hPQ hfree := by
    have hpresent : (s'.entries s'.cr3 (page / 1024)).present = true := by
      rw [h.entry, (Entry.isTable_iff.mp hfree.table).1]
    have hsize : (s'.entries s'.cr3 (page / 1024)).size = false := by
      rw [h.entry, (Entry.isTable_iff.mp hfree.table).2.2]
    by_cases hP : P page
    · have hzero := h.freed page hpage hP hfree
      rw [hnext.kept page hpage (fun hQ => (h.freeable hpage hQ.2).2.1 hP) hpresent hsize, hzero]
    · exact hnext.freed page hpage (hPQ.resolve_left hP) (h.freeable_of_not hpage hfree hP)
  kept page hpage hnot hpresent hsize := by
    have hpresent' : (s'.entries s'.cr3 (page / 1024)).present = true := by rw [h.entry, hpresent]
    have hsize' : (s'.entries s'.cr3 (page / 1024)).size = false := by rw [h.entry, hsize]
    rw [hnext.kept page hpage (fun hQ => hnot ⟨.inr hQ.1, (h.freeable hpage hQ.2).1⟩) hpresent' hsize',
      h.kept page hpage (fun hP => hnot ⟨.inl hP.1, hP.2⟩) hpresent hsize]
  physDir frame hother := by
    rw [hnext.physDir frame fun page hpage hQ hfree => ?_,
      h.physDir frame fun page hpage hP hfree => hother page hpage (.inl hP) hfree]
    obtain ⟨hbefore, -, hleaf⟩ := h.freeable hpage hfree
    rw [hleaf]
    exact hother page hpage (.inr hQ) hbefore

theorem leaf_eq : s'.entries (s.entries s.cr3 (page / 1024)).addr (page % 1024) = s'.leaf page := by
  rw [leaf, h.cr3, h.root]

theorem lookup_freed (hpage : page < physDirSmallNum) (hheap : isHeapPage page = false)
    (hP : P page) (hfree : s.Freeable page) : s'.lookup s.cr3 page = none := by
  obtain ⟨hpresent, -, hsize⟩ := Entry.isTable_iff.mp hfree.table
  rw [lookup_of_table hheap (h.root _) hpresent hsize
    (h.leaf_eq.trans (h.freed page hpage hP hfree))]
  rfl

theorem lookup_kept (hpage : page < physDirSmallNum) (hnot : ¬ (P page ∧ s.Freeable page)) :
    s'.lookup s.cr3 page = s.lookup s.cr3 page :=
  lookup_congr (fun _ => congrFun h.heapTables _) (fun _ => h.root _) fun _ hpresent hsize =>
    h.leaf_eq.trans (h.kept page hpage hnot hpresent hsize)

end Frees

/-- **Freeing pages.**  `free_pages` of small pages takes away those that a user program has. -/
theorem freePages_frees (h : s.InUse dir)
    (hapart : ∀ i < numEntries, (s.entries s.cr3 i).isTable = true →
      (s.entries s.cr3 i).addr ≠ s.cr3)
    (hcounted : s.Counted) (hend : page + num < physDirSmallNum) :
    ∃ s', freePages page num gfpUser s = .ok s' ∧
      s.Frees s' (fun q => page ≤ q ∧ q < page + num) := by
  induction num generalizing page s with
  | zero =>
      refine ⟨s, rfl, rfl, rfl, fun _ => rfl, fun q _ hq => absurd hq (by omega), fun _ _ _ _ _ => rfl,
        fun _ _ => rfl⟩
  | succ num ih =>
      have hpage : page < physDirSmallNum := by omega
      obtain ⟨s₁, hone, hfrees⟩ := freeOnePage_frees h hapart hcounted hpage
      have hnext : (page + gfpUser.pages) % physDirSmallNum = page + 1 :=
        Nat.mod_eq_of_lt (by rw [show gfpUser.pages = 1 from rfl]; omega)
      obtain ⟨s₂, hrest, hfrees'⟩ := @ih s₁ (page + 1) (hfrees.inUse h) (fun i hi ht => by
        rw [hfrees.entry, hfrees.cr3]
        rw [hfrees.entry] at ht
        exact hapart i hi ht) (hfrees.counted hcounted) (by omega)
      refine ⟨s₂, Machine.bind_eq_ok_iff.mpr ⟨s₁, hone, ?_⟩, ?_⟩
      · rw [hnext]
        exact hrest
      · have hboth := hfrees.trans hfrees'
        have hiff : (fun q => q = page ∨ page + 1 ≤ q ∧ q < page + 1 + num) =
            fun q => page ≤ q ∧ q < page + (num + 1) := by
          funext q
          refine propext ?_
          omega
        rw [hiff] at hboth
        exact hboth

end Memory
end Paging
end JkxyKernel
