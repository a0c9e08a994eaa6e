import JkxyKernel.Paging.MakingTables

/-!
# How requests come out

A request of pages is refused, or it gets to the loop that maps one page after the other, in the
memory as it was or with a new page table.  If the loop runs out of frames, what it has mapped is
undone; a page table that is new stays.
-/

namespace JkxyKernel
namespace Paging

/-- What a page is translated to. -/
structure Translation where
  frame : Nat
  rw : Bool
  user : Bool
  deriving DecidableEq, Repr

namespace Memory

variable {s s' t : Memory} {dir page num root i p idx frame left offset : Nat} {gfp : Gfp}

/-- The translation of a page in the directory that lies in a frame.  The pages of the kernel heap
are the same in all directories; elsewhere both levels must permit writing, and user programs. -/
def lookup (s : Memory) (root page : Nat) : Option Translation :=
  if isHeapPage page then
    if (s.heapTables page).present then
      some ⟨(s.heapTables page).addr, (s.heapTables page).rw, false⟩
    else none
  else
    let e := s.entries root (page / 1024)
    let te := s.entries e.addr (page % 1024)
    if !e.present then none
    else if e.size then some ⟨e.addr + page % 1024, e.rw, e.user⟩
    else if te.present then some ⟨te.addr, e.rw && te.rw, e.user && te.user⟩
    else none

/-! ### Lookups in special cases -/

theorem lookup_of_isHeapPage (h : isHeapPage page = true) :
    s.lookup root page = if (s.heapTables page).present then
      some ⟨(s.heapTables page).addr, (s.heapTables page).rw, false⟩ else none := if_pos h

theorem lookup_of_absent (hheap : isHeapPage page = false)
    (h : (s.entries root (page / 1024)).present = false) : s.lookup root page = none := by
  rw [lookup, hheap]
  simp only [h, Bool.false_eq_true, if_false, Bool.not_false, if_true]

theorem lookup_of_size (hheap : isHeapPage page = false)
    (hpresent : (s.entries root (page / 1024)).present = true)
    (hsize : (s.entries root (page / 1024)).size = true) :
    s.lookup root page = some ⟨(s.entries root (page / 1024)).addr + page % 1024,
      (s.entries root (page / 1024)).rw, (s.entries root (page / 1024)).user⟩ := by
  rw [lookup, hheap]
  simp only [hpresent, hsize, Bool.false_eq_true, if_false, Bool.not_true, if_true]

theorem lookup_of_table (hheap : isHeapPage page = false) {e te : Entry}
    (he : s.entries root (page / 1024) = e) (hpresent : e.present = true) (hsize : e.size = false)
    (hte : s.entries e.addr (page % 1024) = te) :
    s.lookup root page =
      if te.present then some ⟨te.addr, e.rw && te.rw, e.user && te.user⟩ else none := by
  subst hte
  subst he
  rw [lookup, hheap]
  simp only [hpresent, hsize, Bool.false_eq_true, if_false, Bool.not_true]

/-- A translation depends on the entries that it goes through. -/
theorem lookup_congr (hheap : isHeapPage page = true → t.heapTables page = s.heapTables page)
    (he : isHeapPage page = false →
      t.entries root (page / 1024) = s.entries root (page / 1024))
    (hte : isHeapPage page = false → (s.entries root (page / 1024)).present = true →
      (s.entries root (page / 1024)).size = false →
      t.entries (s.entries root (page / 1024)).addr (page % 1024) =
        s.entries (s.entries root (page / 1024)).addr (page % 1024)) :
    t.lookup root page = s.lookup root page := by
  cases hinHeap : isHeapPage page with
  | true => rw [lookup_of_isHeapPage hinHeap, lookup_of_isHeapPage hinHeap, hheap hinHeap]
  | false =>
      have he := he hinHeap
      cases hpresent : (s.entries root (page / 1024)).present with
      | false =>
          rw [lookup_of_absent hinHeap hpresent, lookup_of_absent hinHeap (by rw [he, hpresent])]
      | true =>
          cases hsize : (s.entries root (page / 1024)).size with
          | true =>
              have hpresent' : (t.entries root (page / 1024)).present = true := by rw [he, hpresent]
              have hsize' : (t.entries root (page / 1024)).size = true := by rw [he, hsize]
              rw [lookup_of_size hinHeap hpresent hsize, lookup_of_size hinHeap hpresent' hsize', he]
          | false =>
              rw [lookup_of_table hinHeap rfl hpresent hsize rfl,
                lookup_of_table hinHeap he hpresent hsize (hte hinHeap hpresent hsize)]

/-- Entries that map nothing do not matter. -/
theorem Restored.lookup (h : Restored s s') : s'.lookup root page = s.lookup root page := by
  cases hheap : isHeapPage page with
  | true =>
      rw [lookup_of_isHeapPage hheap, lookup_of_isHeapPage hheap]
      rcases h.cells (.heap page) with hsame | ⟨habsent, habsent'⟩
      · have hcell : s'.heapTables page = s.heapTables page := hsame
        rw [hcell]
      · have hbefore : (s.heapTables page).present = false := habsent
        have hafter : (s'.heapTables page).present = false := habsent'
        rw [hbefore, hafter]
        rfl
  | false =>
      rcases h.cells (.entry root (page / 1024)) with hsame | ⟨habsent, habsent'⟩
      · have he : s'.entries root (page / 1024) = s.entries root (page / 1024) := hsame
        cases hpresent : (s.entries root (page / 1024)).present with
        | false => rw [lookup_of_absent hheap hpresent, lookup_of_absent hheap (by rw [he, hpresent])]
        | true =>
            cases hsize : (s.entries root (page / 1024)).size with
            | true =>
                have hpresent' : (s'.entries root (page / 1024)).present = true := by
                  rw [he, hpresent]
                have hsize' : (s'.entries root (page / 1024)).size = true := by rw [he, hsize]
                rw [lookup_of_size hheap hpresent hsize, lookup_of_size hheap hpresent' hsize', he]
            | false =>
                rw [lookup_of_table hheap rfl hpresent hsize rfl,
                  lookup_of_table hheap he hpresent hsize rfl]
                rcases h.cells (.entry (s.entries root (page / 1024)).addr (page % 1024)) with
                  hsame | ⟨habsent, habsent'⟩
                · have hte : s'.entries (s.entries root (page / 1024)).addr (page % 1024) =
                    s.entries (s.entries root (page / 1024)).addr (page % 1024) := hsame
                  rw [hte]
                · have hbefore :
                      (s.entries (s.entries root (page / 1024)).addr (page % 1024)).present = false :=
                    habsent
                  have hafter :
                      (s'.entries (s.entries root (page / 1024)).addr (page % 1024)).present = false :=
                    habsent'
                  rw [hbefore, hafter]
                  rfl
      · rw [lookup_of_absent hheap habsent, lookup_of_absent hheap habsent']

/-! ### A directory that is ready for requests -/

/-- The directory in use: it and its page tables lie in frames that are in use and apart, and are
found through the kernel heap. -/
structure Ready (s : Memory) (dir : Nat) : Prop extends s.InUse dir where
  zero : s.physDir 0 ≠ PHYS_DIR_UNUSED
  root : s.cr3 ∉ s.freeFrames
  /-- The first 8 MiB are the kernel's. -/
  low : ∀ i < 2, (s.entries s.cr3 i).present = true ∧ (s.entries s.cr3 i).user = false
  /-- Page tables are in use. -/
  kept : ∀ i < numEntries, (s.entries s.cr3 i).present = true →
    (s.entries s.cr3 i).size = false → (s.entries s.cr3 i).addr ∉ s.freeFrames
  apart : ∀ i < numEntries, (s.entries s.cr3 i).present = true →
    (s.entries s.cr3 i).size = false → (s.entries s.cr3 i).addr ≠ s.cr3
  rw : ∀ i < numEntries, (s.entries s.cr3 i).isTable = true → (s.entries s.cr3 i).rw = true
  /-- From 8 MiB to 3 GiB all is for user programs. -/
  space : ∀ i, 2 ≤ i → i < 768 → (s.entries s.cr3 i).present = true →
    (s.entries s.cr3 i).user = true
  /-- Large pages do not lie in the kernel heap. -/
  large : ∀ i < numEntries, (s.entries s.cr3 i).isLarge = true →
    ∀ p, ¬ s.MapsTo p (s.entries s.cr3 i).addr

theorem heapPage_of_large (h : ∀ p, ¬ s.MapsTo p frame) : s.heapPage frame = none := by
  cases hfound : s.heapPage frame with
  | none => rfl
  | some p => exact absurd (mapsTo_of_heapPage hfound) (h p)

/-- The directory in use is not a page that is not mapped. -/
theorem dir_ne_of_spare (h : s.currentPageDirectory = .ok dir) (hspare : s.Spare p) : dir ≠ p := by
  rintro rfl
  rw [currentPageDirectory] at h
  split at h
  next =>
    cases h
    exact absurd hspare.inHeap (by decide)
  next =>
    split at h
    next => cases h
    next hfound =>
      cases h
      have hpresent := (mapsTo_of_heapPage hfound).present
      rw [hspare.absent] at hpresent
      cases hpresent

/-! ### Requests that fit -/

theorem requestPages_user (huser : gfp.user = true) :
    s.requestPages page num gfp = s.requestUserPages page num gfp := if_pos huser

theorem requestPages_kernel (hkernel : gfp.user = false) :
    s.requestPages page num gfp = s.requestKernelPages page num gfp :=
  if_neg (by rw [hkernel]; exact Bool.false_ne_true)

theorem requestUserPages_unfit (hfits : requestFits page num gfp = false) :
    s.requestUserPages page num gfp = .ok (s, 0) := by
  rw [requestUserPages, hfits]
  rfl

theorem requestUserPages_large (h : s.currentPageDirectory = .ok dir)
    (hfits : requestFits page num gfp = true) (hlarge : gfp.large = true) :
    s.requestUserPages page num gfp = s.requestLarge dir page num gfp >>= fun (s, out) =>
      s.finishRequest page num gfp out := by
  rw [requestUserPages, hfits, h]
  change (if gfp.large = true then _ else _) = _
  rw [if_pos hlarge]

theorem requestUserPages_small (h : s.currentPageDirectory = .ok dir)
    (hfits : requestFits page num gfp = true) (hsmall : gfp.large = false) :
    s.requestUserPages page num gfp = s.requestSmall dir page num gfp >>= fun (s, out) =>
      s.finishRequest page num gfp out := by
  rw [requestUserPages, hfits, h]
  change (if gfp.large = true then _ else _) = _
  rw [if_neg (by rw [hsmall]; exact Bool.false_ne_true)]

theorem requestKernelPages_unfit (hfits : requestFits page num gfp = false) :
    s.requestKernelPages page num gfp = .ok (s, 0) := by
  rw [requestKernelPages, hfits]
  rfl

theorem requestKernelPages_fit (hfits : requestFits page num gfp = true) :
    s.requestKernelPages page num gfp = s.requestHeap page num gfp >>= fun (s, out) =>
      s.finishRequest page num gfp out := by
  rw [requestKernelPages, hfits]
  rfl

/-! ### The loop, and what follows it -/

namespace Target

variable {put : Memory → Nat → Entry → Except Fault Memory} {cell : Nat → Cell} {I : Memory → Prop}

/-- The pages are all mapped, or what is mapped is undone. -/
theorem run (h : Target put page num gfp cell I) (hI : I t) (hzero : t.physDir 0 ≠ PHYS_DIR_UNUSED)
    (habsent : ∀ k < num, (t.getCell (cell k)).present = false) :
    (∃ idxs, Memory.mapPages put gfp num 0 t = .ok (mapAll cell gfp 0 idxs t, .done) ∧
      idxs.length = num ∧ idxs.Nodup ∧ ∀ idx ∈ idxs, t.Free gfp idx ∧ idx ≠ 0) ∨
    ∃ s₁ n s₂, Memory.mapPages put gfp num 0 t = .ok (s₁, .failed n) ∧
      s₁.finishRequest page num gfp (.failed n) = .ok (s₂, 0) ∧ Restored t s₂ ∧
      (gfp.large = false → t.freeFrames.card < num) := by
  obtain ⟨idxs, out, hmap, hnodup, hall, hout⟩ := h.mapPages hI hzero (Nat.zero_add num)
  rcases hout with ⟨rfl, hlength⟩ | ⟨rfl, hlt, hnone⟩
  · exact .inl ⟨idxs, hmap, hlength, hnodup, hall⟩
  · obtain ⟨s₂, hundo, hrestored⟩ := h.undo hI habsent (Nat.le_of_lt hlt) hnodup hall
    rw [Nat.zero_add] at hmap
    refine .inr ⟨_, _, s₂, hmap, Machine.bind_eq_ok_iff.mpr ⟨s₂, hundo, rfl⟩, hrestored, ?_⟩
    intro hsmall
    have hphys : ∀ f, (mapAll cell gfp 0 idxs t).physDir f =
        if f ∈ idxs then gfp.taken else t.physDir f := fun f => physDir_mapAll
    have hzero' : (mapAll cell gfp 0 idxs t).physDir 0 ≠ PHYS_DIR_UNUSED := by
      rw [hphys, if_neg fun hmem => (hall 0 hmem).2 rfl]
      exact hzero
    have hcard := card_freeFrames_of_taken hsmall hphys (fun idx hidx => (hall idx hidx).1) hnodup
    rw [freeFrames_eq_empty hsmall hzero' hnone, Finset.card_empty, Nat.zero_add] at hcard
    rw [← hcard]
    exact hlt

end Target

/-- The request gets to the loop, with this memory, and none of its pages is mapped there. -/
def Begins (t : Memory) (page num : Nat) (gfp : Gfp) (request : Except Fault (Memory × Outcome)) :
    Prop :=
  ∃ put cell I, Target put page num gfp cell I ∧ I t ∧ t.physDir 0 ≠ PHYS_DIR_UNUSED ∧
    (∀ k < num, (t.getCell (cell k)).present = false) ∧ request = mapPages put gfp num 0 t

/-! ### Small pages -/

section Small

variable (h : s.Ready dir) (huser : gfp.user = true) (hsmall : gfp.large = false)
  (hpage : page / 1024 < numEntries) (hnum : page % 1024 + num ≤ 1024)

include h hpage

theorem Ready.readEntry : s.readEntry dir (page / 1024) = .ok (s.entries s.cr3 (page / 1024)) :=
  readEntry_of_frameAt (frameAt_currentPageDirectory h.current) hpage

theorem requestSmall_kernel (hpresent : (s.entries s.cr3 (page / 1024)).present = true)
    (huser' : (s.entries s.cr3 (page / 1024)).user = false) :
    s.requestSmall dir page num gfp = .ok (s, .refused) := by
  rw [requestSmall, h.readEntry hpage]
  refine Machine.bind_eq_ok_iff.mpr ⟨_, rfl, ?_⟩
  rw [hpresent, huser']
  rfl

/-- A large page is in the way. -/
theorem requestSmall_large (hlarge : (s.entries s.cr3 (page / 1024)).isLarge = true) :
    s.requestSmall dir page num gfp = .error .noTable := by
  obtain ⟨hpresent, huser', -⟩ := Entry.isLarge_iff.mp hlarge
  have hnone := heapPage_of_large (h.large _ hpage hlarge)
  have hfind : s.findUserspacePageTable (s.entries s.cr3 (page / 1024)) = .error .noTable := by
    rw [findUserspacePageTable, hnone]
  rw [requestSmall, h.readEntry hpage]
  change (if (s.entries s.cr3 (page / 1024)).present = true then _ else _) = _
  rw [if_pos hpresent, huser', hfind]
  rfl

/-- One of the pages is mapped already. -/
theorem requestSmall_busy (htable : (s.entries s.cr3 (page / 1024)).isTable = true) {k : Nat}
    (hk : k < num) (hlast : page % 1024 + k < 1024)
    (hbusy : (s.entries (s.entries s.cr3 (page / 1024)).addr (page % 1024 + k)).present = true) :
    s.requestSmall dir page num gfp = .ok (s, .refused) := by
  obtain ⟨hpresent, huser', -⟩ := Entry.isTable_iff.mp htable
  obtain ⟨table, hfind, hframe⟩ := h.find hpage htable
  have hany : anyPresent (s.readEntry table) num (page % 1024) = .ok true := by
    refine anyPresent_true hk (fun j hj => ?_) hbusy
    exact readEntry_of_frameAt hframe (by rw [numEntries]; omega)
  rw [requestSmall, h.readEntry hpage]
  change (if (s.entries s.cr3 (page / 1024)).present = true then _ else _) = _
  rw [if_pos hpresent, huser', hfind]
  change (anyPresent (s.readEntry table) num (page % 1024) >>= _) = _
  rw [hany]
  rfl

/-- There is no memory for the page table. -/
theorem requestSmall_noMemory (habsent : (s.entries s.cr3 (page / 1024)).present = false)
    (hnone : ¬ s.TableAvailable) : s.requestSmall dir page num gfp = .ok (s, .refused) := by
  rw [requestSmall, h.readEntry hpage]
  change (if (s.entries s.cr3 (page / 1024)).present = true then _ else _) = _
  rw [habsent, if_neg Bool.false_ne_true]
  rcases mkUserTable_total (i := page / 1024) h.zero (frameAt_currentPageDirectory h.current)
    (fun p => dir_ne_of_spare h.current) with ⟨-, hmake⟩ | ⟨p, hspare, idx, hidx, -, -⟩
  · rw [hmake]
    rfl
  · exact absurd ⟨⟨p, hspare⟩, idx, hidx⟩ hnone

/-- The loop starts with the new page table. -/
theorem requestSmall_newTable_eq (habsent : (s.entries s.cr3 (page / 1024)).present = false)
    (havailable : s.TableAvailable) :
    ∃ p, s.Spare p ∧ ∃ idx ∈ s.freeFrames, s.requestSmall dir page num gfp =
      mapPages (fun t offset => t.writeEntry p (page % 1024 + offset)) gfp num 0
        (s.withTable s.cr3 (page / 1024) p idx) := by
  rcases mkUserTable_total (i := page / 1024) h.zero (frameAt_currentPageDirectory h.current)
    (fun p => dir_ne_of_spare h.current) with ⟨hnone, -⟩ | ⟨p, hspare, idx, hidx, hp, hmake⟩
  · exact absurd havailable hnone
  · refine ⟨p, hspare, idx, hidx, ?_⟩
    rw [requestSmall, h.readEntry hpage]
    change (if (s.entries s.cr3 (page / 1024)).present = true then _ else _) = _
    rw [habsent, if_neg Bool.false_ne_true, hmake]
    exact if_neg hp

include huser hsmall hnum

/-- The pages are mapped in a page table that is there. -/
theorem requestSmall_table (htable : (s.entries s.cr3 (page / 1024)).isTable = true)
    (habsent : ∀ k < num,
      (s.entries (s.entries s.cr3 (page / 1024)).addr (page % 1024 + k)).present = false) :
    ∃ put I, Target put page num gfp
      (fun offset => .entry (s.entries s.cr3 (page / 1024)).addr (page % 1024 + offset)) I ∧ I s ∧
        s.requestSmall dir page num gfp = mapPages put gfp num 0 s := by
  obtain ⟨hpresent, huser', hsize⟩ := Entry.isTable_iff.mp htable
  obtain ⟨table, hfind, hframe⟩ := h.find hpage htable
  have hany : anyPresent (s.readEntry table) num (page % 1024) = .ok false := by
    refine anyPresent_false (fun j hj => ?_) habsent
    exact readEntry_of_frameAt hframe (by rw [numEntries]; omega)
  refine ⟨_, _, smallTarget h.current huser hsmall hpage hnum rfl htable
    (h.apart _ hpage hpresent hsize) hfind hframe, ⟨⟨rfl, rfl⟩, rfl⟩, ?_⟩
  rw [requestSmall, h.readEntry hpage]
  change (if (s.entries s.cr3 (page / 1024)).present = true then _ else _) = _
  rw [if_pos hpresent, huser', hfind]
  change (anyPresent (s.readEntry table) num (page % 1024) >>= _) = _
  rw [hany]
  rfl

/-- The pages are mapped in a page table that is made for them. -/
theorem requestSmall_newTable
    (habsent : (s.entries s.cr3 (page / 1024)).present = false)
    (havailable : s.TableAvailable) :
    ∃ p, s.Spare p ∧ ∃ idx ∈ s.freeFrames, ∃ put I, Target put page num gfp
      (fun offset => .entry idx (page % 1024 + offset)) I ∧
        I (s.withTable s.cr3 (page / 1024) p idx) ∧
        s.requestSmall dir page num gfp =
          mapPages put gfp num 0 (s.withTable s.cr3 (page / 1024) p idx) := by
  obtain ⟨p, hspare, idx, hidx, heq⟩ :=
    @requestSmall_newTable_eq s dir page num gfp h hpage habsent havailable
  refine ⟨p, hspare, idx, hidx, ?_⟩
  have hne : s.cr3 ≠ idx := fun heq => h.root (heq ▸ hidx)
  have hentry : (s.withTable s.cr3 (page / 1024) p idx).entries s.cr3 (page / 1024) =
      newEntry gfpUser idx := by
    rw [entries_withTable, if_pos ⟨rfl, rfl⟩]
  have hcurrent : (s.withTable s.cr3 (page / 1024) p idx).currentPageDirectory = .ok dir := by
    rw [currentPageDirectory_withTable hspare hne, h.current]
  have hmaps := @mapsTo_withTable s s.cr3 (page / 1024) p idx hspare
  obtain ⟨found, hfind⟩ :=
    @findUserspacePageTable_of_mapsTo _ p (newEntry gfpUser idx) hmaps
  exact ⟨_, _, smallTarget hcurrent huser hsmall hpage hnum hentry rfl hne.symm hfind
    hmaps.frameAt, ⟨⟨rfl, rfl⟩, rfl⟩, heq⟩

/-- How a request for small pages comes out: it is refused, it runs into a large page, or it gets
to the loop, with a new page table if there was none. -/
theorem requestSmall_cases :
    s.requestSmall dir page num gfp = .ok (s, .refused) ∨
    s.requestSmall dir page num gfp = .error .noTable ∨
    page ≠ 0 ∧ (Begins s page num gfp (s.requestSmall dir page num gfp) ∨
      (s.entries s.cr3 (page / 1024)).present = false ∧ ∃ p, s.Spare p ∧ ∃ idx ∈ s.freeFrames,
        Begins (s.withTable s.cr3 (page / 1024) p idx) page num gfp
          (s.requestSmall dir page num gfp)) := by
  cases hpresent : (s.entries s.cr3 (page / 1024)).present with
  | true =>
      cases huser' : (s.entries s.cr3 (page / 1024)).user with
      | false => exact .inl (requestSmall_kernel h hpage hpresent huser')
      | true =>
          have hnull : page ≠ 0 := by
            rintro rfl
            exact Bool.false_ne_true ((h.low 0 Nat.two_pos).2.symm.trans huser')
          cases hsize : (s.entries s.cr3 (page / 1024)).size with
          | true =>
              exact .inr (.inl (requestSmall_large h hpage
                (Entry.isLarge_iff.mpr ⟨hpresent, huser', hsize⟩)))
          | false =>
              have htable := Entry.isTable_iff.mpr ⟨hpresent, huser', hsize⟩
              by_cases hbusy : ∃ k < num, (s.entries (s.entries s.cr3 (page / 1024)).addr
                (page % 1024 + k)).present = true
              · obtain ⟨k, hk, hbusy⟩ := hbusy
                exact .inl (requestSmall_busy h hpage htable hk (by omega) hbusy)
              · have habsent : ∀ k < num, (s.entries (s.entries s.cr3 (page / 1024)).addr
                    (page % 1024 + k)).present = false := fun k hk =>
                  Bool.eq_false_iff.mpr fun hpresent => hbusy ⟨k, hk, hpresent⟩
                obtain ⟨put, I, htarget, hI, hstart⟩ :=
                  requestSmall_table h huser hsmall hpage hnum htable habsent
                exact .inr (.inr ⟨hnull, .inl ⟨put, _, I, htarget, hI, h.zero, habsent, hstart⟩⟩)
  | false =>
      have hnull : page ≠ 0 := by
        rintro rfl
        exact Bool.false_ne_true (hpresent.symm.trans (h.low 0 Nat.two_pos).1)
      by_cases havailable : s.TableAvailable
      · obtain ⟨p, hspare, idx, hidx, put, I, htarget, hI, hstart⟩ :=
          requestSmall_newTable h huser hsmall hpage hnum hpresent havailable
        have hroot : s.cr3 ≠ idx := fun heq => h.root (heq ▸ hidx)
        have hempty : ∀ k < num, ((s.withTable s.cr3 (page / 1024) p idx).getCell
            (.entry idx (page % 1024 + k))).present = false := fun k _ => by
          rw [getCell_withTable_new hroot]
          rfl
        exact .inr (.inr ⟨hnull, .inr ⟨rfl, p, hspare, idx, hidx, put, _, I, htarget, hI,
          zero_withTable h.zero, hempty, hstart⟩⟩)
      · exact .inl (requestSmall_noMemory h hpage hpresent havailable)

end Small

/-! ### Large pages -/

section Large

variable (h : s.Ready dir) (hnum : page / 1024 + num ≤ numEntries)

include h hnum

theorem requestLarge_busy {k : Nat} (hk : k < num)
    (hbusy : (s.entries s.cr3 (page / 1024 + k)).present = true) :
    s.requestLarge dir page num gfp = .ok (s, .refused) := by
  have hany : anyPresent (s.readEntry dir) num (page / 1024) = .ok true := by
    refine anyPresent_true hk (fun j hj => ?_) hbusy
    exact readEntry_of_frameAt (frameAt_currentPageDirectory h.current) (by omega)
  rw [requestLarge, hany]
  rfl

/-- How a request for large pages comes out: it is refused, or it gets to the loop. -/
theorem requestLarge_cases (huser : gfp.user = true) (hlarge : gfp.large = true)
    (hpage : page % 1024 = 0) :
    s.requestLarge dir page num gfp = .ok (s, .refused) ∨
    (page = 0 → num = 0) ∧ Begins s page num gfp (s.requestLarge dir page num gfp) := by
  by_cases hbusy : ∃ k < num, (s.entries s.cr3 (page / 1024 + k)).present = true
  · obtain ⟨k, hk, hpresent⟩ := hbusy
    exact .inl (requestLarge_busy h hnum hk hpresent)
  · have habsent : ∀ k < num, (s.entries s.cr3 (page / 1024 + k)).present = false := fun k hk =>
      Bool.eq_false_iff.mpr fun hpresent => hbusy ⟨k, hk, hpresent⟩
    have hany : anyPresent (s.readEntry dir) num (page / 1024) = .ok false := by
      refine anyPresent_false (fun j hj => ?_) habsent
      exact readEntry_of_frameAt (frameAt_currentPageDirectory h.current) (by omega)
    refine .inr ⟨fun hnull => Nat.eq_zero_of_not_pos fun hpos => ?_, _, _, _,
      largeTarget h.current huser hlarge hpage hnum, ⟨rfl, rfl⟩, h.zero, habsent, ?_⟩
    · have hfirst := habsent 0 hpos
      subst hnull
      exact Bool.false_ne_true (hfirst.symm.trans (h.low 0 Nat.two_pos).1)
    · rw [requestLarge, hany]
      rfl

end Large

/-! ### The kernel heap -/

theorem requestHeap_low (h : (gfp.large || decide (page < kheapAddrIdx)) = true) :
    s.requestHeap page num gfp = .ok (s, .refused) := if_pos h

theorem requestHeap_eq (hsmall : gfp.large = false) (hlow : kheapAddrIdx ≤ page) {busy : Bool}
    (hany : anyPresent s.readHeap num page = .ok busy) :
    s.requestHeap page num gfp =
      if busy then .ok (s, .refused)
      else if gfp.cons then
        s.allocPhysMemConsecutive num gfp >>= fun (s, frame) =>
          if frame = 0 then .ok (s, .failed num)
          else mapConsecutive page gfp frame num 0 s >>= fun s => .ok (s, .done)
      else mapPages (fun s offset => s.writeHeap (page + offset)) gfp num 0 s := by
  rw [requestHeap, hsmall, decide_eq_false (Nat.not_lt.mpr hlow), hany]
  rfl

theorem readHeap_of_lt (hlow : kheapAddrIdx ≤ page) (hhigh : page + num ≤ physDirSmallNum) {k : Nat}
    (hk : k < num) : s.readHeap (page + k) = .ok (s.heapTables (page + k)) :=
  if_pos (isHeapPage_iff.mpr ⟨by omega, by omega⟩)

theorem finishRequest_kernel (hkernel : gfp.user = false) :
    t.finishRequest page num gfp .done = .ok (t, page) :=
  if_neg fun hcond => Bool.false_ne_true (hkernel.symm.trans hcond.2)

/-- The loop that maps the frames of a run. -/
theorem mapConsecutive_ok (hlow : kheapAddrIdx ≤ page) (hhigh : page + num ≤ physDirSmallNum)
    (hleft : offset + left = num) :
    ∃ s', mapConsecutive page gfp frame left offset s = .ok s' ∧ s'.physDir = s.physDir ∧
      s'.cr3 = s.cr3 ∧ (∀ k < offset, s'.heapTables (page + k) = s.heapTables (page + k)) ∧
      ∀ k, offset ≤ k → k < num → s'.heapTables (page + k) = newEntry gfp (frame + k) := by
  induction left generalizing offset s with
  | zero => exact ⟨s, rfl, rfl, rfl, fun _ _ => rfl, fun k hle hlt => absurd hlt (by omega)⟩
  | succ left ih =>
      have hwrite : s.writeHeap (page + offset) (newEntry gfp (frame + offset)) =
          .ok (s.setHeap (page + offset) (newEntry gfp (frame + offset))) :=
        if_pos (isHeapPage_iff.mpr ⟨by omega, by omega⟩)
      obtain ⟨s', hrest, hphys, hcr3, hbefore, hafter⟩ := @ih
        (s.setHeap (page + offset) (newEntry gfp (frame + offset))) (offset + 1) (by omega)
      refine ⟨s', Machine.bind_eq_ok_iff.mpr ⟨_, hwrite, hrest⟩, hphys, hcr3, fun k hk => ?_,
        fun k hle hlt => ?_⟩
      · rw [hbefore k (Nat.lt_succ_of_lt hk)]
        exact Function.update_of_ne (by omega) _ _
      · rcases Nat.eq_or_lt_of_le hle with rfl | hgt
        · rw [hbefore offset (Nat.lt_succ_self _)]
          exact Function.update_self _ _ _
        · exact hafter k hgt hlt

section Heap

variable (hsmall : gfp.large = false) (hlow : kheapAddrIdx ≤ page)
  (hhigh : page + num ≤ physDirSmallNum)

include hsmall hlow hhigh

theorem requestHeap_busy {k : Nat} (hk : k < num)
    (hbusy : (s.heapTables (page + k)).present = true) :
    s.requestHeap page num gfp = .ok (s, .refused) := by
  rw [requestHeap_eq hsmall hlow
    (anyPresent_true hk (fun j hj => readHeap_of_lt hlow hhigh (by omega)) hbusy)]
  rfl

variable (habsent : ∀ k < num, (s.heapTables (page + k)).present = false)

include habsent

theorem requestHeap_start (hcons : gfp.cons = false) :
    s.requestHeap page num gfp =
      mapPages (fun s offset => s.writeHeap (page + offset)) gfp num 0 s := by
  rw [requestHeap_eq hsmall hlow
    (anyPresent_false (fun j hj => readHeap_of_lt hlow hhigh hj) habsent), hcons]
  rfl

theorem requestHeap_consecutive (hcons : gfp.cons = true) :
    s.requestHeap page num gfp =
      s.allocPhysMemConsecutive num gfp >>= fun (s, frame) =>
        if frame = 0 then .ok (s, .failed num)
        else mapConsecutive page gfp frame num 0 s >>= fun s => .ok (s, .done) := by
  rw [requestHeap_eq hsmall hlow
    (anyPresent_false (fun j hj => readHeap_of_lt hlow hhigh hj) habsent), hcons]
  rfl

/-- Consecutive frames are not found, and nothing has to be undone; or they are found and mapped. -/
theorem requestHeap_consecutive_cases (hcons : gfp.cons = true) (hkernel : gfp.user = false)
    (hzero : s.physDir 0 ≠ PHYS_DIR_UNUSED) :
    (s.requestHeap page num gfp = .ok (s, .failed num) ∧
      s.finishRequest page num gfp (.failed num) = .ok (s, 0) ∧
      ∀ idx ∈ allocIndices gfp, s.runFree num idx = .ok false) ∨
    ∃ first s₁ s', first ∈ allocIndices gfp ∧ s.runFree num first = .ok true ∧
      s.takeRun num first = .ok s₁ ∧ mapConsecutive page gfp first num 0 s₁ = .ok s' ∧
      s.requestHeap page num gfp = .ok (s', .done) := by
  have hgfp : (gfp.large || gfp.user) = false := by rw [hkernel, hsmall]; rfl
  obtain ⟨⟨s₁, first⟩, halloc⟩ := (@allocPhysMemConsecutive_ok_iff s gfp num hgfp).mpr
    (.inr ⟨0, counterSize_pos, hzero⟩)
  have heq := requestHeap_consecutive hsmall hlow hhigh habsent hcons
  rcases allocPhysMemConsecutive_found hgfp halloc with ⟨rfl, rfl, hnone⟩ | ⟨hmem, hfree, htake⟩
  · have htarget := heapTarget hkernel hsmall hlow hhigh
    have hnothing : Memory.freePages (page + 0 * gfp.pages) num gfp s₁ = .ok s₁ :=
      htarget.freePages_absent trivial (Nat.le_of_eq (Nat.zero_add num)) habsent
    rw [Nat.zero_mul, Nat.add_zero] at hnothing
    refine .inl ⟨?_, Machine.bind_eq_ok_iff.mpr ⟨s₁, hnothing, rfl⟩, hnone⟩
    rw [heq, halloc]
    rfl
  · obtain ⟨s', hmap, -⟩ :=
      @mapConsecutive_ok s₁ page num first num 0 gfp hlow hhigh (Nat.zero_add num)
    refine .inr ⟨first, s₁, s', hmem, hfree, htake, hmap, ?_⟩
    have hlow' := ((mem_allocIndices_small hsmall).mp hmem).1
    have hne : first ≠ 0 := Nat.ne_of_gt (Nat.lt_of_lt_of_le (by decide) hlow')
    rw [heq, halloc]
    refine (if_neg hne).trans ?_
    rw [hmap]
    rfl

omit habsent in
/-- How a request of the kernel comes out: it is refused, it takes consecutive frames, or it gets to
the loop. -/
theorem requestHeap_cases (hkernel : gfp.user = false) (hzero : s.physDir 0 ≠ PHYS_DIR_UNUSED) :
    s.requestHeap page num gfp = .ok (s, .refused) ∨
    (∀ k < num, (s.heapTables (page + k)).present = false) ∧
      (gfp.cons = true ∨ Begins s page num gfp (s.requestHeap page num gfp)) := by
  by_cases hbusy : ∃ k < num, (s.heapTables (page + k)).present = true
  · obtain ⟨k, hk, hbusy⟩ := hbusy
    exact .inl (requestHeap_busy hsmall hlow hhigh hk hbusy)
  · have habsent : ∀ k < num, (s.heapTables (page + k)).present = false := fun k hk =>
      Bool.eq_false_iff.mpr fun hpresent => hbusy ⟨k, hk, hpresent⟩
    refine .inr ⟨habsent, ?_⟩
    cases hcons : gfp.cons with
    | true => exact .inl rfl
    | false =>
        exact .inr ⟨_, _, _, heapTarget hkernel hsmall hlow hhigh, trivial, hzero, habsent,
          requestHeap_start hsmall hlow hhigh habsent hcons⟩

end Heap

end Memory
end Paging
end JkxyKernel
