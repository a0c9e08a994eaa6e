import JkxyKernel.Paging.Undoing

/-!
# Requests that leave their table

`request_pages` computes the end of a request with 32 bits.  A number of pages that goes around the
whole address space ends in the same 4 MiB again, and passes; and for large pages only their number
is checked, not where they end.  The loops then run behind the last entry of the page table, the
directory or `heap_tables`, unless the request is refused before.
-/

namespace JkxyKernel
namespace Paging
namespace Memory

variable {s s' t : Memory} {dir page num i p idx frame left offset : Nat} {gfp : Gfp} {out : Outcome}

/-- The pages of a request have entries in one directory, page table or `heap_tables`. -/
def Stays (page num : Nat) (gfp : Gfp) : Prop :=
  if gfp.user then
    if gfp.large then page / 1024 + num ≤ numEntries else page % 1024 + num ≤ numEntries
  else kheapAddrIdx ≤ page ∧ page + num ≤ physDirSmallNum

/-- No entry behind the end of a table is touched, and a request that would leave its table is
refused as it is. -/
def Confined (s : Memory) (page num : Nat) (gfp : Gfp) : Prop :=
  s.requestPages page num gfp ≠ .error .outOfBounds ∧
    (¬ Stays page num gfp → s.requestPages page num gfp = .ok (s, 0))

/-- The request is refused for an entry that it comes to, or there is no memory for the page
table. -/
def RefusedEarly (s : Memory) (page : Nat) (gfp : Gfp) : Prop :=
  if gfp.user then
    if gfp.large then
      ∃ k, page / 1024 + k < numEntries ∧ (s.entries s.cr3 (page / 1024 + k)).present = true
    else
      let e := s.entries s.cr3 (page / 1024)
      (e.present = true ∧ e.user = false) ∨
      (e.isTable = true ∧ ∃ k, page % 1024 + k < numEntries ∧
        (s.entries e.addr (page % 1024 + k)).present = true) ∨
      (e.present = false ∧ ¬ s.TableAvailable)
  else gfp.large = true ∨ page < kheapAddrIdx ∨
    ∃ k, page + k < physDirSmallNum ∧ (s.heapTables (page + k)).present = true

/-! ### Requests that stay -/

theorem clearPages_ne_outOfBounds : clearPages left page s ≠ .error .outOfBounds := by
  induction left generalizing page s with
  | zero => exact nofun
  | succ left ih =>
      rw [clearPages]
      cases htranslate : s.translate page with
      | ok f => exact ih
      | error e =>
          rintro herror
          rw [translate] at htranslate
          cases herror
          split at htranslate
          · cases htranslate
          · split at htranslate
            · cases htranslate
            · split at htranslate
              · cases htranslate
              · cases htranslate

theorem finishRequest_done_ne_outOfBounds :
    s.finishRequest page num gfp .done ≠ .error .outOfBounds := by
  rw [finishRequest]
  split
  · cases hclear : clearPages (num * gfp.pages % physDirSmallNum) page s with
    | ok s₁ => exact Machine.ok_ne_error
    | error e =>
        intro herror
        cases herror
        exact clearPages_ne_outOfBounds hclear
  · exact Machine.ok_ne_error

/-- The loop and what follows it touch no entry but those of the request. -/
theorem Begins.ne_outOfBounds {request : Except Fault (Memory × Outcome)}
    (h : Begins t page num gfp request) :
    (request >>= fun (s, out) => s.finishRequest page num gfp out) ≠ .error .outOfBounds := by
  obtain ⟨put, cell, I, htarget, hI, hzero, habsent, rfl⟩ := h
  rcases htarget.run hI hzero habsent with ⟨idxs, hmap, -⟩ | ⟨s₁, n, s₂, hmap, hfinish, -⟩
  · rw [hmap]
    exact finishRequest_done_ne_outOfBounds
  · rw [hmap]
    change s₁.finishRequest page num gfp (.failed n) ≠ _
    rw [hfinish]
    exact nofun

/-- A request that stays touches no entry behind the end of its table. -/
theorem requestPages_ne_outOfBounds (h : s.Ready dir) (hpage : page / 1024 < numEntries)
    (hstays : Stays page num gfp) : s.requestPages page num gfp ≠ .error .outOfBounds := by
  cases huser : gfp.user with
  | true =>
      rw [Stays, if_pos huser] at hstays
      rw [requestPages_user huser]
      cases hfits : requestFits page num gfp with
      | false =>
          rw [requestUserPages_unfit hfits]
          exact Machine.ok_ne_error
      | true =>
          cases hlarge : gfp.large with
          | true =>
              rw [if_pos hlarge] at hstays
              rw [requestFits, if_pos hlarge, Bool.and_eq_true] at hfits
              have haligned := of_decide_eq_true hfits.1
              have hfits : requestFits page num gfp = true := by
                rw [requestFits, if_pos hlarge, Bool.and_eq_true]
                exact hfits
              rw [requestUserPages_large h.current hfits hlarge]
              rcases requestLarge_cases h hstays huser hlarge haligned with hrefused | ⟨-, hbegins⟩
              · rw [hrefused]
                exact Machine.ok_ne_error
              · exact hbegins.ne_outOfBounds
          | false =>
              rw [if_neg (by rw [hlarge]; exact Bool.false_ne_true)] at hstays
              rw [requestUserPages_small h.current hfits hlarge]
              rcases requestSmall_cases h huser hlarge hpage hstays with
                hrefused | hpanic | ⟨-, hbegins | ⟨-, p, -, idx, -, hbegins⟩⟩
              · rw [hrefused]
                exact Machine.ok_ne_error
              · rw [hpanic]
                intro herror
                cases herror
              · exact hbegins.ne_outOfBounds
              · exact hbegins.ne_outOfBounds
  | false =>
      rw [Stays, if_neg (by rw [huser]; exact Bool.false_ne_true)] at hstays
      obtain ⟨hlow, hhigh⟩ := hstays
      rw [requestPages_kernel huser]
      cases hfits : requestFits page num gfp with
      | false =>
          rw [requestKernelPages_unfit hfits]
          exact Machine.ok_ne_error
      | true =>
          rw [requestKernelPages_fit hfits]
          cases hlarge : gfp.large with
          | true =>
              rw [requestHeap_low (by rw [hlarge, Bool.true_or])]
              exact Machine.ok_ne_error
          | false =>
              rcases requestHeap_cases hlarge hlow hhigh huser h.zero with
                hrefused | ⟨habsent, hcons | hbegins⟩
              · rw [hrefused]
                exact Machine.ok_ne_error
              · rcases requestHeap_consecutive_cases hlarge hlow hhigh habsent hcons huser h.zero with
                  ⟨hfailed, hundo, -⟩ | ⟨-, -, s', -, -, -, -, hdone⟩
                · rw [hfailed]
                  change s.finishRequest page num gfp (.failed num) ≠ _
                  rw [hundo]
                  exact Machine.ok_ne_error
                · rw [hdone]
                  exact finishRequest_done_ne_outOfBounds
              · exact hbegins.ne_outOfBounds

/-! ### Requests that leave their table -/

theorem readEntry_outOfBounds (hi : numEntries ≤ i) : s.readEntry p i = .error .outOfBounds :=
  if_neg (Nat.not_lt.mpr hi)

theorem readHeap_outOfBounds (hp : physDirSmallNum ≤ p) : s.readHeap p = .error .outOfBounds :=
  if_neg fun hheap => Nat.not_lt.mpr hp (isHeapPage_iff.mp hheap).2

/-! Requests for user programs do not touch the pages of the heap. -/

theorem allocPhysMem_heapTables (h : s.allocPhysMem gfp = .ok (s', frame)) :
    s'.heapTables = s.heapTables := by
  rcases allocPhysMem_found h with ⟨-, rfl, -⟩ | ⟨idx, -, -, -, rfl⟩
  · rfl
  · rfl

theorem writeEntry_heapTables {e : Entry} (h : s.writeEntry p i e = .ok s') :
    s'.heapTables = s.heapTables := by
  rw [writeEntry] at h
  split at h
  · cases h
    rfl
  · cases h

theorem mapPages_heapTables {put : Memory → Nat → Entry → Except Fault Memory}
    (hput : ∀ t offset e t', put t offset e = .ok t' → t'.heapTables = t.heapTables)
    (h : mapPages put gfp left offset s = .ok (s', out)) : s'.heapTables = s.heapTables := by
  induction left generalizing offset s with
  | zero =>
      cases h
      rfl
  | succ left ih =>
      rw [mapPages] at h
      obtain ⟨⟨s₁, f⟩, halloc, hrest⟩ := Machine.bind_eq_ok_iff.mp h
      have hsame := allocPhysMem_heapTables halloc
      by_cases hf : f = 0
      · cases (if_pos hf).symm.trans hrest
        exact hsame
      · obtain ⟨s₂, hwrite, hrest⟩ := Machine.bind_eq_ok_iff.mp ((if_neg hf).symm.trans hrest)
        rw [ih hrest, hput _ _ _ _ hwrite, hsame]

theorem freePhysMem_heapTables (h : s.freePhysMem frame gfp = .ok s') :
    s'.heapTables = s.heapTables := by
  rw [freePhysMem] at h
  split at h
  · cases h
  · split at h
    · cases h
    · split at h
      · split at h
        · cases h
        · cases h
          rfl
      · split at h
        · split at h
          · cases h
            rfl
          · cases h
        · cases h

theorem unmapPage_heapTables (huser : gfp.user = true)
    (h : s.unmapPage page gfp = .ok (s', frame)) : s'.heapTables = s.heapTables := by
  rw [unmapPage, if_pos huser] at h
  obtain ⟨dir, -, h⟩ := Machine.bind_eq_ok_iff.mp h
  obtain ⟨e, -, h⟩ := Machine.bind_eq_ok_iff.mp h
  split at h
  · split at h
    · obtain ⟨s₁, hwrite, h⟩ := Machine.bind_eq_ok_iff.mp h
      cases h
      exact writeEntry_heapTables hwrite
    · split at h
      · obtain ⟨table, -, h⟩ := Machine.bind_eq_ok_iff.mp h
        obtain ⟨te, -, h⟩ := Machine.bind_eq_ok_iff.mp h
        split at h
        · obtain ⟨s₁, hwrite, h⟩ := Machine.bind_eq_ok_iff.mp h
          cases h
          exact writeEntry_heapTables hwrite
        · cases h
          rfl
      · cases h
        rfl
  · cases h
    rfl

theorem freePages_heapTables (huser : gfp.user = true) (h : freePages page num gfp s = .ok s') :
    s'.heapTables = s.heapTables := by
  induction num generalizing page s with
  | zero =>
      cases h
      rfl
  | succ num ih =>
      rw [freePages] at h
      obtain ⟨s₁, hone, hrest⟩ := Machine.bind_eq_ok_iff.mp h
      obtain ⟨⟨s₂, phys⟩, hunmap, hfree⟩ := Machine.bind_eq_ok_iff.mp hone
      have hsame : s₁.heapTables = s₂.heapTables := by
        by_cases hphys : phys = 0
        · cases (if_pos hphys).symm.trans hfree
          rfl
        · exact freePhysMem_heapTables ((if_neg hphys).symm.trans hfree)
      rw [ih hrest, hsame, unmapPage_heapTables huser hunmap]

theorem clearPages_heapTables (h : clearPages left page s = .ok s') :
    s'.heapTables = s.heapTables := by
  induction left generalizing page s with
  | zero =>
      cases h
      rfl
  | succ left ih =>
      rw [clearPages] at h
      obtain ⟨f, -, hrest⟩ := Machine.bind_eq_ok_iff.mp h
      exact (ih hrest).trans rfl

theorem finishRequest_heapTables (huser : gfp.user = true)
    (h : s.finishRequest page num gfp out = .ok (s', p)) : s'.heapTables = s.heapTables := by
  cases out with
  | refused =>
      cases h
      rfl
  | failed n =>
      obtain ⟨s₁, hfree, hret⟩ := Machine.bind_eq_ok_iff.mp h
      cases hret
      exact freePages_heapTables huser hfree
  | done =>
      rw [finishRequest] at h
      split at h
      · obtain ⟨s₁, hclear, hret⟩ := Machine.bind_eq_ok_iff.mp h
        cases hret
        exact clearPages_heapTables hclear
      · cases h
        rfl

section Leaves

variable (h : s.Ready dir)

include h

/-- Large pages: the loop that looks for entries runs behind the directory. -/
theorem requestLarge_leaves (hpage : page / 1024 < numEntries)
    (hleaves : numEntries < page / 1024 + num) :
    ((∃ k, page / 1024 + k < numEntries ∧ (s.entries s.cr3 (page / 1024 + k)).present = true) ∧
      s.requestLarge dir page num gfp = .ok (s, .refused)) ∨
    ((¬ ∃ k, page / 1024 + k < numEntries ∧ (s.entries s.cr3 (page / 1024 + k)).present = true) ∧
      s.requestLarge dir page num gfp = .error .outOfBounds) := by
  have hread : ∀ k, page / 1024 + k < numEntries →
      s.readEntry dir (page / 1024 + k) = .ok (s.entries s.cr3 (page / 1024 + k)) := fun k hk =>
    readEntry_of_frameAt (frameAt_currentPageDirectory h.current) hk
  by_cases hbusy : ∃ k, page / 1024 + k < numEntries ∧
    (s.entries s.cr3 (page / 1024 + k)).present = true
  · refine .inl ⟨hbusy, ?_⟩
    obtain ⟨k, hk, hpresent⟩ := hbusy
    have hany : anyPresent (s.readEntry dir) num (page / 1024) = .ok true :=
      anyPresent_true (by omega) (fun j hj => hread j (by omega)) hpresent
    rw [requestLarge, hany]
    rfl
  · refine .inr ⟨hbusy, ?_⟩
    have hany : anyPresent (s.readEntry dir) num (page / 1024) = .error .outOfBounds := by
      refine anyPresent_error (k := numEntries - page / 1024) (by omega)
        (fun j hj => hread j (by omega)) (fun j hj => ?_) (readEntry_outOfBounds (by omega))
      exact Bool.eq_false_iff.mpr fun hpresent => hbusy ⟨j, by omega, hpresent⟩
    rw [requestLarge, hany]
    rfl

/-- Small pages: the loop that looks for entries runs behind the page table. -/
theorem requestSmall_leaves (hpage : page / 1024 < numEntries)
    (hleaves : numEntries < page % 1024 + num)
    (htable : (s.entries s.cr3 (page / 1024)).isTable = true) :
    ((∃ k, page % 1024 + k < numEntries ∧
      (s.entries (s.entries s.cr3 (page / 1024)).addr (page % 1024 + k)).present = true) ∧
      s.requestSmall dir page num gfp = .ok (s, .refused)) ∨
    ((¬ ∃ k, page % 1024 + k < numEntries ∧
      (s.entries (s.entries s.cr3 (page / 1024)).addr (page % 1024 + k)).present = true) ∧
      s.requestSmall dir page num gfp = .error .outOfBounds) := by
  obtain ⟨hpresent, huser', -⟩ := Entry.isTable_iff.mp htable
  obtain ⟨table, hfind, hframe⟩ := h.find hpage htable
  by_cases hbusy : ∃ k, page % 1024 + k < numEntries ∧
    (s.entries (s.entries s.cr3 (page / 1024)).addr (page % 1024 + k)).present = true
  · refine .inl ⟨hbusy, ?_⟩
    obtain ⟨k, hk, hbusy⟩ := hbusy
    exact requestSmall_busy h hpage htable (by omega) hk hbusy
  · refine .inr ⟨hbusy, ?_⟩
    have hmod : page % 1024 < numEntries := Nat.mod_lt _ (by decide)
    have hany : anyPresent (s.readEntry table) num (page % 1024) = .error .outOfBounds := by
      refine anyPresent_error (k := numEntries - page % 1024) (by omega)
        (fun j hj => readEntry_of_frameAt hframe (by omega)) (fun j hj => ?_)
        (readEntry_outOfBounds (by omega))
      exact Bool.eq_false_iff.mpr fun hpresent => hbusy ⟨j, by omega, hpresent⟩
    rw [requestSmall, h.readEntry hpage]
    change (if (s.entries s.cr3 (page / 1024)).present = true then _ else _) = _
    rw [if_pos hpresent, huser', hfind]
    change (anyPresent (s.readEntry table) num (page % 1024) >>= _) = _
    rw [hany]
    rfl

/-- A page table that was made is there afterwards. -/
theorem requestSmall_newTable_ne (huser : gfp.user = true) (hpage : page / 1024 < numEntries)
    (habsent : (s.entries s.cr3 (page / 1024)).present = false) (havailable : s.TableAvailable) :
    (s.requestSmall dir page num gfp >>= fun (s, out) => s.finishRequest page num gfp out) ≠
      .ok (s, 0) := by
  intro hreq
  obtain ⟨⟨s₁, out⟩, hout, hfinish⟩ := Machine.bind_eq_ok_iff.mp hreq
  obtain ⟨p, hspare, idx, -, heq⟩ :=
    @requestSmall_newTable_eq s dir page num gfp h hpage habsent havailable
  have hmap := mapPages_heapTables (fun _ _ _ _ => writeEntry_heapTables) (heq.symm.trans hout)
  have hsame := (finishRequest_heapTables huser hfinish).trans hmap
  have hpresent : (s.heapTables p).present = true := by
    rw [hsame, heapTables_withTable, Function.update_self]
    rfl
  exact Bool.false_ne_true (hspare.absent.symm.trans hpresent)

theorem requestSmall_refused_iff (huser : gfp.user = true) (hpage : page / 1024 < numEntries)
    (hleaves : numEntries < page % 1024 + num) :
    (s.requestSmall dir page num gfp >>= fun (s, out) => s.finishRequest page num gfp out) =
        .ok (s, 0) ↔
      let e := s.entries s.cr3 (page / 1024)
      (e.present = true ∧ e.user = false) ∨
      (e.isTable = true ∧ ∃ k, page % 1024 + k < numEntries ∧
        (s.entries e.addr (page % 1024 + k)).present = true) ∨
      (e.present = false ∧ ¬ s.TableAvailable) := by
  cases hpresent : (s.entries s.cr3 (page / 1024)).present with
  | true =>
      cases huser' : (s.entries s.cr3 (page / 1024)).user with
      | false =>
          refine iff_of_true ?_ (.inl ⟨hpresent, huser'⟩)
          rw [requestSmall_kernel h hpage hpresent huser']
          rfl
      | true =>
          cases hsize : (s.entries s.cr3 (page / 1024)).size with
          | true =>
              refine iff_of_false ?_ ?_
              · rw [requestSmall_large h hpage (Entry.isLarge_iff.mpr ⟨hpresent, huser', hsize⟩)]
                exact nofun
              · rintro (⟨-, hkernel⟩ | ⟨htable, -⟩ | ⟨habsent, -⟩)
                · exact Bool.false_ne_true (hkernel.symm.trans huser')
                · exact Bool.false_ne_true ((Entry.isTable_iff.mp htable).2.2.symm.trans hsize)
                · exact Bool.false_ne_true (habsent.symm.trans hpresent)
          | false =>
              have htable := Entry.isTable_iff.mpr ⟨hpresent, huser', hsize⟩
              rcases @requestSmall_leaves s dir page num gfp h hpage hleaves htable with
                ⟨hbusy, hrefused⟩ | ⟨hbusy, hfault⟩
              · exact iff_of_true (by rw [hrefused]; rfl) (.inr (.inl ⟨htable, hbusy⟩))
              · refine iff_of_false (by rw [hfault]; exact nofun) ?_
                rintro (⟨-, hkernel⟩ | ⟨-, hfound⟩ | ⟨habsent, -⟩)
                · exact Bool.false_ne_true (hkernel.symm.trans huser')
                · exact hbusy hfound
                · exact Bool.false_ne_true (habsent.symm.trans hpresent)
  | false =>
      by_cases havailable : s.TableAvailable
      · refine iff_of_false (requestSmall_newTable_ne h huser hpage hpresent havailable) ?_
        rintro (⟨hpresent', -⟩ | ⟨htable, -⟩ | ⟨-, hnone⟩)
        · exact Bool.false_ne_true (hpresent.symm.trans hpresent')
        · exact Bool.false_ne_true (hpresent.symm.trans (Entry.isTable_iff.mp htable).1)
        · exact hnone havailable
      · refine iff_of_true ?_ (.inr (.inr ⟨hpresent, havailable⟩))
        rw [requestSmall_noMemory h hpage hpresent havailable]
        rfl

end Leaves

/-- Pages of the kernel: the loop that looks for entries runs behind `heap_tables`. -/
theorem requestHeap_leaves (hsmall : gfp.large = false) (hlow : kheapAddrIdx ≤ page)
    (hpage : page < physDirSmallNum) (hleaves : physDirSmallNum < page + num) :
    ((∃ k, page + k < physDirSmallNum ∧ (s.heapTables (page + k)).present = true) ∧
      s.requestHeap page num gfp = .ok (s, .refused)) ∨
    ((¬ ∃ k, page + k < physDirSmallNum ∧ (s.heapTables (page + k)).present = true) ∧
      s.requestHeap page num gfp = .error .outOfBounds) := by
  have hread : ∀ k, page + k < physDirSmallNum →
      s.readHeap (page + k) = .ok (s.heapTables (page + k)) := fun k hk =>
    if_pos (isHeapPage_iff.mpr ⟨by omega, hk⟩)
  by_cases hbusy : ∃ k, page + k < physDirSmallNum ∧ (s.heapTables (page + k)).present = true
  · refine .inl ⟨hbusy, ?_⟩
    obtain ⟨k, hk, hpresent⟩ := hbusy
    rw [requestHeap_eq hsmall hlow
      (anyPresent_true (by omega) (fun j hj => hread j (by omega)) hpresent)]
    rfl
  · refine .inr ⟨hbusy, ?_⟩
    have hany : anyPresent s.readHeap num page = .error .outOfBounds := by
      refine anyPresent_error (k := physDirSmallNum - page) (by omega)
        (fun j hj => hread j (by omega)) (fun j hj => ?_) (readHeap_outOfBounds (by omega))
      exact Bool.eq_false_iff.mpr fun hpresent => hbusy ⟨j, by omega, hpresent⟩
    rw [requestHeap, hsmall, decide_eq_false (Nat.not_lt.mpr hlow), hany]
    rfl

/-- A request that leaves its table is refused as it is if and only if it does not fit, or is refused
early. -/
theorem requestPages_leaves_iff (h : s.Ready dir) (hpage : page < physDirSmallNum)
    (hleaves : ¬ Stays page num gfp) :
    s.requestPages page num gfp = .ok (s, 0) ↔
      requestFits page num gfp = false ∨ s.RefusedEarly page gfp := by
  have hentry : page / 1024 < numEntries := by
    rw [physDirSmallNum] at hpage
    rw [numEntries]
    omega
  cases huser : gfp.user with
  | true =>
      rw [Stays, if_pos huser] at hleaves
      rw [requestPages_user huser, RefusedEarly, if_pos huser]
      cases hfits : requestFits page num gfp with
      | false => exact iff_of_true (requestUserPages_unfit hfits) (.inl rfl)
      | true =>
          rw [or_iff_right (fun hunfit => Bool.false_ne_true hunfit.symm)]
          cases hlarge : gfp.large with
          | true =>
              rw [if_pos hlarge, Nat.not_le] at hleaves
              rw [requestUserPages_large h.current hfits hlarge, if_pos rfl]
              rcases @requestLarge_leaves s dir page num gfp h hentry hleaves with
                ⟨hbusy, hrefused⟩ | ⟨hbusy, hfault⟩
              · exact iff_of_true (by rw [hrefused]; rfl) hbusy
              · exact iff_of_false (by rw [hfault]; exact Machine.ok_ne_error.symm) hbusy
          | false =>
              rw [if_neg (by rw [hlarge]; exact Bool.false_ne_true), Nat.not_le] at hleaves
              rw [requestUserPages_small h.current hfits hlarge, if_neg Bool.false_ne_true]
              exact requestSmall_refused_iff h huser hentry hleaves
  | false =>
      rw [Stays, if_neg (by rw [huser]; exact Bool.false_ne_true)] at hleaves
      rw [requestPages_kernel huser, RefusedEarly, if_neg (by rw [huser]; exact Bool.false_ne_true)]
      cases hfits : requestFits page num gfp with
      | false => exact iff_of_true (requestKernelPages_unfit hfits) (.inl rfl)
      | true =>
          rw [or_iff_right (fun hunfit => Bool.false_ne_true hunfit.symm),
            requestKernelPages_fit hfits]
          by_cases hcond : gfp.large = true ∨ page < kheapAddrIdx
          · have hlow : (gfp.large || decide (page < kheapAddrIdx)) = true := by
              rw [Bool.or_eq_true, decide_eq_true_iff]
              exact hcond
            refine iff_of_true ?_ (hcond.imp_right .inl)
            rw [requestHeap_low hlow]
            rfl
          · obtain ⟨hsmall, hlow⟩ := not_or.mp hcond
            rw [or_iff_right hsmall, or_iff_right hlow]
            have hend : physDirSmallNum < page + num := by omega
            rcases requestHeap_leaves (Bool.eq_false_iff.mpr hsmall) (Nat.not_lt.mp hlow) hpage hend
              with ⟨hbusy, hrefused⟩ | ⟨hbusy, hfault⟩
            · exact iff_of_true (by rw [hrefused]; rfl) hbusy
            · exact iff_of_false (by rw [hfault]; exact Machine.ok_ne_error.symm) hbusy

/-- **Confinement.**  A request keeps to its tables, or is refused as it is, if and only if its pages
have entries in one table, or it does not pass the check of its end, or it is refused before it gets
behind the last entry. -/
theorem requestPages_confined_iff (h : s.Ready dir) (hpage : page < physDirSmallNum) :
    s.Confined page num gfp ↔ Stays page num gfp ∨ requestFits page num gfp = false ∨
      s.RefusedEarly page gfp := by
  have hentry : page / 1024 < numEntries := by
    rw [physDirSmallNum] at hpage
    rw [numEntries]
    omega
  by_cases hstays : Stays page num gfp
  · exact iff_of_true ⟨requestPages_ne_outOfBounds h hentry hstays, fun hnot => absurd hstays hnot⟩
      (.inl hstays)
  · rw [or_iff_right hstays, ← requestPages_leaves_iff h hpage hstays]
    constructor
    · exact fun hconfined => hconfined.2 hstays
    · intro hrefused
      exact ⟨by rw [hrefused]; exact Machine.ok_ne_error, fun _ => hrefused⟩

/-- The first pages of the heap have entries in one table. -/
theorem oneFrame_confined : oneFrame.Confined kheapAddrIdx 2 gfpKernel :=
  (requestPages_confined_iff oneFrame_ready (by decide)).mpr (.inl (by rw [Stays]; decide))

/-- A request for as many pages as there are starts where a user program is loaded, and gets behind
the end of the page table that is made for it. -/
theorem oneFrame_leaves : ¬ oneFrame.Confined 0x8048 (2 ^ 20) gfpUser := by
  intro hconfined
  have hleaves : ¬ Stays 0x8048 (2 ^ 20) gfpUser := by
    rw [Stays]
    decide
  have hrefused := hconfined.2 hleaves
  rw [requestPages_leaves_iff oneFrame_ready (by decide) hleaves] at hrefused
  have havailable : oneFrame.TableAvailable := by
    refine ⟨⟨kheapAddrIdx, by decide, rfl, by decide⟩, ?_⟩
    rw [oneFrame_freeFrames]
    exact Finset.singleton_nonempty _
  rcases hrefused with hunfit | ⟨hpresent, -⟩ | ⟨htable, -⟩ | ⟨-, hnone⟩
  · exact absurd hunfit (by decide)
  · exact absurd hpresent (by decide)
  · exact absurd htable (by decide)
  · exact hnone havailable

end Memory
end Paging
end JkxyKernel
