import JkxyKernel.Paging.Undoing

/-!
# Requests that are granted

When a request for small pages within 4 MiB finds its pages not mapped and frames enough, it is
granted, with fresh frames and the permissions that are asked for.  There are three exceptions: the
pages end with the last one of the 4 MiB; a page table is needed and the only pages of the kernel
heap that are left are each the last of 4 MiB; and the frames must be consecutive and all such runs
end behind the 16 bits that count them.
-/

namespace JkxyKernel
namespace Paging
namespace Memory

variable {s s' t : Memory} {dir page num root i p idx frame left offset : Nat} {gfp : Gfp}
  {e : Entry} {frames : List Nat}

/-- The request needs a page table that is not there yet. -/
def NeedsTable (s : Memory) (page : Nat) (gfp : Gfp) : Prop :=
  gfp.user = true ∧ (s.entries s.cr3 (page / 1024)).present = false

instance : Decidable (s.NeedsTable page gfp) := inferInstanceAs (Decidable (_ ∧ _))

/-- A request that is to be granted: small pages within 4 MiB of the user space or of the kernel
heap, none of which is mapped; and enough frames, and a page of the heap if a table is needed. -/
structure Grantable (s : Memory) (page num : Nat) (gfp : Gfp) : Prop where
  small : gfp.large = false
  pos : 1 ≤ num
  region : page % 1024 + num ≤ 1024
  userSpace : gfp.user = true → 2 ≤ page / 1024 ∧ page / 1024 < 768
  kernelHeap : gfp.user = false → isHeapPage page = true
  unmapped : ∀ k < num, s.lookup s.cr3 (page + k) = none
  frames : (if s.NeedsTable page gfp then num + 1 else num) ≤ s.freeFrames.card
  table : s.NeedsTable page gfp → ∃ p, isHeapPage p = true ∧ (s.heapTables p).present = false
  run : gfp.user = false → gfp.cons = true → ∃ first, s.RunUnused num first

/-- The pages are mapped to fresh frames with the permissions that are asked for, and the first is
returned. -/
def Granted (s : Memory) (page num : Nat) (gfp : Gfp) : Prop :=
  ∃ (s' : Memory) (frames : List Nat), s.requestPages page num gfp = .ok (s', page) ∧
    frames.length = num ∧ frames.Nodup ∧ (∀ f ∈ frames, s.FrameUnused f ∧ s'.physDir f = gfp.taken) ∧
    s'.cr3 = s.cr3 ∧
    ∀ k f, frames[k]? = some f → s'.lookup s.cr3 (page + k) = some ⟨f, !gfp.ro, gfp.user⟩

namespace Grantable

variable (h : s.Grantable page num gfp)

include h

theorem lt : page / 1024 < numEntries := by
  cases huser : gfp.user with
  | true => exact Nat.lt_trans (h.userSpace huser).2 (by decide)
  | false =>
      have hhigh := (isHeapPage_iff.mp (h.kernelHeap huser)).2
      rw [physDirSmallNum] at hhigh
      rw [numEntries]
      omega

theorem ne_zero : page ≠ 0 := by
  rintro rfl
  cases huser : gfp.user with
  | true => exact absurd (h.userSpace huser).1 (by decide)
  | false => exact absurd (h.kernelHeap huser) (by decide)

theorem pages : gfp.pages = 1 := if_neg (by rw [h.small]; exact Bool.false_ne_true)

theorem fits_iff : requestFits page num gfp = true ↔ page % 1024 + num < 1024 := by
  have hlt := h.lt
  have hregion := h.region
  have hpos := h.pos
  rw [requestFits, if_neg (by rw [h.small]; exact Bool.false_ne_true), decide_eq_true_iff,
    physDirSmallNum]
  rw [numEntries] at hlt
  omega

/-- A request that returns the null pointer is not granted. -/
theorem not_granted (hreq : s.requestPages page num gfp = .ok (t, 0)) :
    ¬ s.Granted page num gfp := by
  rintro ⟨s', frames, hgranted, -⟩
  have hpage := (Prod.mk.inj (Except.ok.inj (hreq.symm.trans hgranted))).2
  exact h.ne_zero hpage.symm

theorem not_granted_of_unfit (hfits : ¬ page % 1024 + num < 1024) : ¬ s.Granted page num gfp := by
  have hunfit : requestFits page num gfp = false := Bool.eq_false_iff.mpr fun hfit =>
    hfits (h.fits_iff.mp hfit)
  cases huser : gfp.user with
  | true =>
      exact h.not_granted ((requestPages_user huser).trans (requestUserPages_unfit hunfit))
  | false =>
      exact h.not_granted ((requestPages_kernel huser).trans (requestKernelPages_unfit hunfit))

end Grantable

/-! ### Clearing the pages -/

/-- The pages of a user program that are mapped are cleared; nothing but their contents changes. -/
theorem clearPages_ok (h : ∀ k < left, ∃ f, s.translate (page + k) = .ok f) :
    ∃ data, clearPages left page s = .ok { s with data := data } := by
  induction left generalizing page s with
  | zero => exact ⟨s.data, rfl⟩
  | succ left ih =>
      obtain ⟨f, hf⟩ := h 0 (Nat.succ_pos _)
      rw [Nat.add_zero] at hf
      obtain ⟨data, hdata⟩ := @ih { s with data := Function.update s.data f fun _ => 0 }
        (page + 1) fun k hk => by
          obtain ⟨g, hg⟩ := h (k + 1) (Nat.succ_lt_succ hk)
          rw [Nat.add_comm k 1, ← Nat.add_assoc] at hg
          exact ⟨g, hg⟩
      refine ⟨data, ?_⟩
      rw [clearPages, hf]
      exact hdata

/-! ### Small pages of a user program -/

section Small

variable (huser : gfp.user = true) (hsmall : gfp.large = false) (hheap : page / 1024 < 768)
  (hregion : page % 1024 + num ≤ 1024)

include hheap hregion

theorem user_page {k : Nat} (hk : k < num) : isHeapPage (page + k) = false ∧
    (page + k) / 1024 = page / 1024 ∧ (page + k) % 1024 = page % 1024 + k := by
  refine ⟨?_, by omega, by omega⟩
  rw [isHeapPage, kheapAddrIdx, Bool.and_eq_false_iff]
  exact .inl (decide_eq_false (by omega))

include huser hsmall

/-- What the loop has mapped in a page table is cleared, and is looked up as it was asked for. -/
theorem small_mapped (he : t.entries t.cr3 (page / 1024) = e) (htable : e.isTable = true)
    (hrw : e.rw = true) (hapart : e.addr ≠ t.cr3) (hne : page ≠ 0) {idxs : List Nat}
    (hlength : idxs.length = num) :
    ∃ s', (mapAll (fun offset => .entry e.addr (page % 1024 + offset)) gfp 0 idxs t).finishRequest
        page num gfp .done = .ok (s', page) ∧ s'.cr3 = t.cr3 ∧
      (∀ f ∈ idxs, s'.physDir f = gfp.taken) ∧
      (∀ k f, idxs[k]? = some f → s'.lookup t.cr3 (page + k) = some ⟨f, !gfp.ro, gfp.user⟩) ∧
      ((∀ j < numEntries, (t.entries t.cr3 j).present = true → (t.entries t.cr3 j).size = false →
        (t.entries t.cr3 j).addr = e.addr → j = page / 1024) →
        ∀ q < physDirSmallNum, q < page ∨ page + num ≤ q →
          s'.lookup t.cr3 q = t.lookup t.cr3 q) := by
  obtain ⟨hpresent, huser', hsize⟩ := Entry.isTable_iff.mp htable
  have hpages : gfp.pages = 1 := if_neg (by rw [hsmall]; exact Bool.false_ne_true)
  generalize hm : mapAll (fun offset => Cell.entry e.addr (page % 1024 + offset)) gfp 0 idxs t = m
  have hcr3 : m.cr3 = t.cr3 := by rw [← hm, cr3_mapAll]
  have hentry : m.entries t.cr3 (page / 1024) = e := by
    rw [← hm]
    refine (getCell_mapAll_of_ne (c := .entry t.cr3 (page / 1024)) fun k _ heq => ?_).trans he
    exact hapart (Cell.entry.inj heq).1.symm
  have hcell : ∀ k f, idxs[k]? = some f →
      m.entries e.addr (page % 1024 + k) = newEntry gfp f := by
    intro k f hk
    have hread := @getCell_mapAll t f (fun offset => .entry e.addr (page % 1024 + offset)) gfp idxs
      0 num k (fun a _ b _ heq => Nat.add_left_cancel (Cell.entry.inj heq).2)
      (by rw [Nat.zero_add, hlength]) hk
    rw [hm, Nat.zero_add, hpages, Nat.mul_one] at hread
    exact hread
  have hmapped : ∀ k < num, ∃ f, idxs[k]? = some f := fun k hk =>
    ⟨_, List.getElem?_eq_getElem (hlength.symm ▸ hk)⟩
  obtain ⟨data, hclear⟩ := @clearPages_ok m page num fun k hk => by
    obtain ⟨f, hf⟩ := hmapped k hk
    obtain ⟨-, hdiv, hmod⟩ := user_page hheap hregion hk
    have hcell' : (m.entries e.addr (page % 1024 + k)).present = true := by
      rw [hcell k f hf]
      rfl
    refine ⟨(m.entries e.addr (page % 1024 + k)).addr, ?_⟩
    rw [translate, hcr3, hdiv, hmod, hentry]
    simp only [hpresent, huser', hsize, hcell', Bool.not_true, Bool.or_self, Bool.false_eq_true,
      if_false, if_true]
  refine ⟨{ m with data := data }, ?_, hcr3, fun f hf => ?_, fun k f hk => ?_,
    fun honly q hq hother => ?_⟩
  · have hbytes : num * gfp.pages % physDirSmallNum = num := by
      rw [hpages, Nat.mul_one]
      exact Nat.mod_eq_of_lt (by rw [physDirSmallNum]; omega)
    rw [finishRequest, if_pos ⟨hne, huser⟩, hbytes, hclear]
    rfl
  · have hphys : m.physDir f = gfp.taken := by rw [← hm, physDir_mapAll, if_pos hf]
    exact hphys
  · have hlt : k < num := by
      rw [← hlength]
      exact (List.getElem?_eq_some_iff.mp hk).1
    obtain ⟨hnot, hdiv, hmod⟩ := user_page hheap hregion hlt
    have he' : m.entries t.cr3 ((page + k) / 1024) = e := by rw [hdiv, hentry]
    have hte : m.entries e.addr ((page + k) % 1024) = newEntry gfp f := by
      rw [hmod, hcell k f hk]
    refine (lookup_of_table hnot he' hpresent hsize hte).trans ?_
    rw [newEntry, hrw, huser', Bool.true_and, Bool.true_and]
    rfl
  · have hcells : ∀ c : Cell, (∀ k < num, c ≠ .entry e.addr (page % 1024 + k)) →
        m.getCell c = t.getCell c := by
      intro c hc
      rw [← hm]
      refine getCell_mapAll_of_ne fun k hk => ?_
      rw [Nat.zero_add]
      exact hc k (hlength ▸ hk)
    have hlt : q / 1024 < numEntries := by
      rw [physDirSmallNum] at hq
      rw [numEntries]
      omega
    refine @lookup_congr t { m with data := data } q t.cr3 (fun _ => ?_) (fun _ => ?_)
      fun _ hpresent hsize => ?_
    · exact hcells (.heap q) fun k _ hcell => by cases hcell
    · refine hcells (.entry t.cr3 (q / 1024)) fun k _ heq => ?_
      exact hapart (Cell.entry.inj heq).1.symm
    · refine hcells (.entry _ (q % 1024)) fun k hk heq => ?_
      obtain ⟨haddr, hindex⟩ := Cell.entry.inj heq
      have hj := honly _ hlt hpresent hsize haddr
      omega

end Small

theorem Free.frameUnused (hsmall : gfp.large = false) (h : s.Free gfp idx) : s.FrameUnused idx :=
  ⟨h.around hsmall, h.unused⟩

/-- No two entries of the directory in use lead to one page table. -/
def Separate (s : Memory) : Prop :=
  ∀ i < numEntries, ∀ j < numEntries,
    (s.entries s.cr3 i).present = true → (s.entries s.cr3 i).size = false →
    (s.entries s.cr3 j).present = true → (s.entries s.cr3 j).size = false →
    (s.entries s.cr3 i).addr = (s.entries s.cr3 j).addr → i = j

/-- The memory in which small pages are mapped, which is the one before the request or has a new
page table; and the entry of the directory that leads to the page table. -/
structure InTable (s t : Memory) (page num : Nat) (gfp : Gfp) (e : Entry) : Prop where
  cr3 : t.cr3 = s.cr3
  zero : t.physDir 0 ≠ PHYS_DIR_UNUSED
  entry : t.entries s.cr3 (page / 1024) = e
  table : e.isTable = true
  rw : e.rw = true
  apart : e.addr ≠ s.cr3
  absent : ∀ k < num, (t.entries e.addr (page % 1024 + k)).present = false
  enough : num ≤ t.freeFrames.card ↔
    (if s.NeedsTable page gfp then num + 1 else num) ≤ s.freeFrames.card
  unused : ∀ idx, t.Free gfp idx → s.FrameUnused idx
  same : ∀ q < physDirSmallNum, isHeapPage q = false → t.lookup s.cr3 q = s.lookup s.cr3 q
  only : s.Separate → ∀ j < numEntries, (t.entries s.cr3 j).present = true →
    (t.entries s.cr3 j).size = false → (t.entries s.cr3 j).addr = e.addr → j = page / 1024

/-- The page table that is there. -/
theorem inTable_self (h : s.Ready dir) (hsmall : gfp.large = false)
    (hlow : 2 ≤ page / 1024) (hhigh : page / 1024 < 768) (hpos : 1 ≤ num)
    (hregion : page % 1024 + num ≤ 1024) (hunmapped : ∀ k < num, s.lookup s.cr3 (page + k) = none)
    (hpresent : (s.entries s.cr3 (page / 1024)).present = true) :
    InTable s s page num gfp (s.entries s.cr3 (page / 1024)) := by
  have hlt : page / 1024 < numEntries := Nat.lt_trans hhigh (by decide)
  have hsize : (s.entries s.cr3 (page / 1024)).size = false := by
    refine Bool.eq_false_iff.mpr fun hsize => ?_
    have hheap := (user_page hhigh hregion hpos).1
    have hnone := hunmapped 0 hpos
    rw [Nat.add_zero] at hheap hnone
    rw [lookup_of_size hheap hpresent hsize] at hnone
    cases hnone
  have htable := Entry.isTable_iff.mpr ⟨hpresent, h.space _ hlow hhigh hpresent, hsize⟩
  refine ⟨rfl, h.zero, rfl, htable, h.rw _ hlt htable, h.apart _ hlt hpresent hsize,
    fun k hk => ?_, ?_, fun idx hfree => hfree.frameUnused hsmall, fun _ _ _ => rfl,
    fun hseparate j hj hpresent' hsize' haddr =>
      hseparate j hj _ hlt hpresent' hsize' hpresent hsize haddr⟩
  · obtain ⟨hheap, hdiv, hmod⟩ := user_page hhigh hregion hk
    have hnone := hunmapped k hk
    rw [lookup_of_table hheap (congrArg (s.entries s.cr3) hdiv) hpresent hsize
      (congrArg (s.entries _) hmod)] at hnone
    refine Bool.eq_false_iff.mpr fun hmapped => ?_
    rw [if_pos hmapped] at hnone
    cases hnone
  · rw [if_neg fun hneeds => Bool.false_ne_true (hneeds.2.symm.trans hpresent)]

/-- The page table that is made. -/
theorem inTable_withTable (h : s.Ready dir) (huser : gfp.user = true) (hsmall : gfp.large = false)
    (habsent : (s.entries s.cr3 (page / 1024)).present = false) (hspare : s.Spare p)
    (hidx : idx ∈ s.freeFrames) :
    InTable s (s.withTable s.cr3 (page / 1024) p idx) page num gfp (newEntry gfpUser idx) := by
  have hroot : s.cr3 ≠ idx := fun heq => h.root (heq ▸ hidx)
  have hphys : (s.withTable s.cr3 (page / 1024) p idx).physDir =
      (s.setPhysDir idx PHYS_DIR_KERNEL).physDir := rfl
  refine ⟨rfl, zero_withTable h.zero, entries_withTable.trans (if_pos ⟨rfl, rfl⟩), rfl, rfl,
    hroot.symm, fun k _ => ?_, ?_, fun f hfree => ?_, fun q hq hheap => ?_,
    fun _ j hj hpresent hsize haddr => ?_⟩
  · have hempty := @getCell_withTable_new s s.cr3 (page / 1024) p idx (page % 1024 + k) hroot
    exact congrArg Entry.present hempty
  · have hpos := Finset.card_pos.mpr ⟨idx, hidx⟩
    rw [if_pos (show s.NeedsTable page gfp from ⟨huser, habsent⟩), freeFrames_withTable hidx,
      Finset.card_erase_of_mem hidx]
    omega
  · exact ((hfree.congr hphys.symm).of_setPhysDir (by decide)).2.frameUnused hsmall
  · refine lookup_withTable h habsent hidx hq ?_
    rintro rfl
    exact Bool.false_ne_true (hheap.symm.trans hspare.inHeap)
  · by_contra hne
    have he : (s.withTable s.cr3 (page / 1024) p idx).entries s.cr3 j = s.entries s.cr3 j := by
      rw [entries_withTable, if_neg fun hcell => hne hcell.2, if_neg hroot]
    rw [he] at hpresent hsize haddr
    have hkept := h.kept j hj hpresent hsize
    rw [haddr] at hkept
    exact hkept hidx

/-- How a request for pages of the user space that are not mapped comes out: there is no memory for
the page table, or it gets to the loop. -/
theorem requestSmall_inTable (h : s.Ready dir) (huser : gfp.user = true) (hsmall : gfp.large = false)
    (hlow : 2 ≤ page / 1024) (hhigh : page / 1024 < 768) (hpos : 1 ≤ num)
    (hregion : page % 1024 + num ≤ 1024)
    (hunmapped : ∀ k < num, s.lookup s.cr3 (page + k) = none) :
    (s.NeedsTable page gfp ∧ ¬ s.TableAvailable ∧
      s.requestSmall dir page num gfp = .ok (s, .refused)) ∨
    (s.NeedsTable page gfp → s.TableAvailable) ∧ ∃ t e put I, InTable s t page num gfp e ∧
      Target put page num gfp (fun offset => .entry e.addr (page % 1024 + offset)) I ∧ I t ∧
        s.requestSmall dir page num gfp = mapPages put gfp num 0 t := by
  have hlt : page / 1024 < numEntries := Nat.lt_trans hhigh (by decide)
  cases hpresent : (s.entries s.cr3 (page / 1024)).present with
  | true =>
      have hin := inTable_self h hsmall hlow hhigh hpos hregion hunmapped hpresent
      obtain ⟨put, I, htarget, hI, hstart⟩ :=
        requestSmall_table h huser hsmall hlt hregion hin.table hin.absent
      refine .inr ⟨fun hneeds => ?_, s, _, put, I, hin, htarget, hI, hstart⟩
      exact absurd (hneeds.2.symm.trans hpresent) Bool.false_ne_true
  | false =>
      by_cases havailable : s.TableAvailable
      · obtain ⟨p, hspare, idx, hidx, put, I, htarget, hI, hstart⟩ :=
          requestSmall_newTable h huser hsmall hlt hregion hpresent havailable
        exact .inr ⟨fun _ => havailable, _, newEntry gfpUser idx, put, I,
          inTable_withTable h huser hsmall hpresent hspare hidx, htarget, hI, hstart⟩
      · exact .inl ⟨⟨huser, hpresent⟩, havailable, requestSmall_noMemory h hlt hpresent havailable⟩

/-- There are frames for the pages and their page table, and a page of the heap for the table. -/
structure Suffices (s : Memory) (page num : Nat) (gfp : Gfp) : Prop where
  frames : (if s.NeedsTable page gfp then num + 1 else num) ≤ s.freeFrames.card
  table : s.NeedsTable page gfp → ∃ p, s.Spare p

/-- A request for pages of the user space that are not mapped: it is granted if there is memory
enough, and changes nothing else; and it fails if there is not. -/
theorem requestPages_user_cases (h : s.Ready dir) (huser : gfp.user = true)
    (hsmall : gfp.large = false) (hlow : 2 ≤ page / 1024) (hhigh : page / 1024 < 768)
    (hpos : 1 ≤ num) (hfits : page % 1024 + num < 1024)
    (hunmapped : ∀ k < num, s.lookup s.cr3 (page + k) = none) :
    (s.Suffices page num gfp ∧ ∃ (s' : Memory) (frames : List Nat),
      s.requestPages page num gfp = .ok (s', page) ∧ frames.length = num ∧ frames.Nodup ∧
      (∀ f ∈ frames, s.FrameUnused f ∧ s'.physDir f = gfp.taken) ∧ s'.cr3 = s.cr3 ∧
      (∀ k f, frames[k]? = some f → s'.lookup s.cr3 (page + k) = some ⟨f, !gfp.ro, gfp.user⟩) ∧
      (s.Separate → ∀ q < physDirSmallNum, isHeapPage q = false → q < page ∨ page + num ≤ q →
        s'.lookup s.cr3 q = s.lookup s.cr3 q)) ∨
    ¬ s.Suffices page num gfp ∧ ∃ s', s.requestPages page num gfp = .ok (s', 0) := by
  have hregion := Nat.le_of_lt hfits
  have hrequest : ∀ {t out}, s.requestSmall dir page num gfp = .ok (t, out) →
      s.requestPages page num gfp = t.finishRequest page num gfp out := by
    intro t out hout
    have hfit : requestFits page num gfp = true := by
      rw [requestFits, if_neg (by rw [hsmall]; exact Bool.false_ne_true), decide_eq_true_iff,
        physDirSmallNum]
      omega
    rw [requestPages_user huser, requestUserPages_small h.current hfit hsmall, hout]
    rfl
  have hne : page ≠ 0 := by
    rintro rfl
    exact absurd hlow (by decide)
  rcases requestSmall_inTable h huser hsmall hlow hhigh hpos hregion hunmapped with
    ⟨hneeds, hnone, hrefused⟩ | ⟨havailable, t, e, put, I, hin, htarget, hI, hstart⟩
  · refine .inr ⟨fun hsuffices => hnone ⟨hsuffices.table hneeds, ?_⟩, s,
      (hrequest hrefused).trans finishRequest_refused⟩
    have hcard := hsuffices.frames
    rw [if_pos hneeds] at hcard
    exact Finset.card_pos.mp (Nat.lt_of_lt_of_le (Nat.succ_pos num) hcard)
  · rcases htarget.run hI hin.zero hin.absent with ⟨idxs, hmap, hlength, hnodup, hall⟩ |
      ⟨s₁, n, s₂, hmap, hfinish, -, hshort⟩
    · have hcard : num ≤ t.freeFrames.card := by
        rw [← hlength, ← List.toFinset_card_of_nodup hnodup]
        refine Finset.card_le_card fun f hf => ?_
        exact (mem_freeFrames_iff hsmall).mpr (hall f (List.mem_toFinset.mp hf)).1
      obtain ⟨s', hfinish, hcr3, hphys, hlookup, hothers⟩ := small_mapped huser hsmall hhigh hregion
        (hin.cr3 ▸ hin.entry) hin.table hin.rw (hin.cr3 ▸ hin.apart) hne hlength
      rw [hin.cr3] at hcr3 hlookup hothers
      refine .inl ⟨⟨hin.enough.mp hcard, fun hneeds => (havailable hneeds).1⟩, s', idxs,
        (hrequest (hstart.trans hmap)).trans hfinish, hlength, hnodup,
        fun f hf => ⟨hin.unused f (hall f hf).1, hphys f hf⟩, hcr3, hlookup,
        fun hseparate q hq hheap hother => ?_⟩
      rw [hothers (hin.only hseparate) q hq hother, hin.same q hq hheap]
    · refine .inr ⟨fun hsuffices => ?_, s₂, (hrequest (hstart.trans hmap)).trans hfinish⟩
      exact absurd (hshort hsmall) (Nat.not_lt.mpr (hin.enough.mpr hsuffices.frames))

/-- A request for pages of a user program. -/
theorem user_granted_iff (h : s.Ready dir) (hg : s.Grantable page num gfp)
    (huser : gfp.user = true) (hfits : page % 1024 + num < 1024) :
    s.Granted page num gfp ↔ (s.NeedsTable page gfp → ∃ p, s.Spare p) := by
  obtain ⟨hlow, hhigh⟩ := hg.userSpace huser
  rcases requestPages_user_cases h huser hg.small hlow hhigh hg.pos hfits hg.unmapped with
    ⟨hsuffices, s', frames, hreq, hlength, hnodup, hall, hcr3, hlookup, -⟩ |
    ⟨hsuffices, s', hreq⟩
  · exact iff_of_true ⟨s', frames, hreq, hlength, hnodup, hall, hcr3, hlookup⟩ hsuffices.table
  · exact iff_of_false (hg.not_granted hreq) fun htable => hsuffices ⟨hg.frames, htable⟩

/-! ### Pages of the kernel -/

section Heap

variable (hg : s.Grantable page num gfp) (hkernel : gfp.user = false)

include hg hkernel

theorem Grantable.bounds : kheapAddrIdx ≤ page ∧ page + num ≤ physDirSmallNum := by
  obtain ⟨hlow, hhigh⟩ := isHeapPage_iff.mp (hg.kernelHeap hkernel)
  have hregion := hg.region
  rw [physDirSmallNum] at *
  exact ⟨hlow, by omega⟩

theorem Grantable.inHeap {k : Nat} (hk : k < num) : isHeapPage (page + k) = true := by
  obtain ⟨hlow, hhigh⟩ := hg.bounds hkernel
  exact isHeapPage_iff.mpr ⟨by omega, by omega⟩

theorem Grantable.heapAbsent : ∀ k < num, (s.heapTables (page + k)).present = false := by
  intro k hk
  have hnone := hg.unmapped k hk
  rw [lookup_of_isHeapPage (hg.inHeap hkernel hk)] at hnone
  refine Bool.eq_false_iff.mpr fun hmapped => ?_
  rw [if_pos hmapped] at hnone
  cases hnone

/-- The heap maps the pages as it was asked to. -/
theorem heap_lookup (hcell : ∀ k f, frames[k]? = some f → t.heapTables (page + k) = newEntry gfp f)
    (hlength : frames.length = num) {k f : Nat} (hk : frames[k]? = some f) :
    t.lookup root (page + k) = some ⟨f, !gfp.ro, gfp.user⟩ := by
  have hlt : k < num := by
    rw [← hlength]
    exact (List.getElem?_eq_some_iff.mp hk).1
  rw [lookup_of_isHeapPage (hg.inHeap hkernel hlt), hcell k f hk, hkernel]
  rfl

variable (hfits : page % 1024 + num < 1024)

include hfits

theorem Grantable.requestKernel {out : Outcome} (hout : s.requestHeap page num gfp = .ok (t, out)) :
    s.requestPages page num gfp = t.finishRequest page num gfp out := by
  rw [requestPages_kernel hkernel, requestKernelPages_fit (hg.fits_iff.mpr hfits), hout]
  rfl

theorem heap_granted (hzero : s.physDir 0 ≠ PHYS_DIR_UNUSED) (hcons : gfp.cons = false) :
    s.Granted page num gfp := by
  obtain ⟨hlow, hhigh⟩ := hg.bounds hkernel
  have habsent := hg.heapAbsent hkernel
  have htarget := heapTarget hkernel hg.small hlow hhigh
  have hstart := requestHeap_start hg.small hlow hhigh habsent hcons
  have hcard := hg.frames
  rw [if_neg fun hneeds => Bool.false_ne_true (hkernel.symm.trans hneeds.1)] at hcard
  rcases htarget.run trivial hzero habsent with ⟨idxs, hmap, hlength, hnodup, hall⟩ |
    ⟨-, -, -, -, -, -, hshort⟩
  · refine ⟨_, idxs, (hg.requestKernel hkernel hfits (hstart.trans hmap)).trans
      (finishRequest_kernel hkernel), hlength, hnodup, fun f hf => ⟨(hall f hf).1.frameUnused hg.small, ?_⟩,
      cr3_mapAll, fun k f hk => heap_lookup hg hkernel (fun k f hk => ?_) hlength hk⟩
    · rw [physDir_mapAll, if_pos hf]
    · have hread := @getCell_mapAll s f (fun offset => .heap (page + offset)) gfp idxs 0 num k
        htarget.inj (by rw [Nat.zero_add, hlength]) hk
      rw [Nat.zero_add, hg.pages, Nat.mul_one] at hread
      exact hread
  · exact absurd (hshort hg.small) (Nat.not_lt.mpr hcard)

end Heap

/-! ### Pages of the kernel in consecutive frames -/

/-- The frames of a run are the kernel's. -/
theorem physDir_foldl {first : Nat} :
    ((List.range' first num).foldl (fun s j => s.setPhysDir j PHYS_DIR_KERNEL) s).physDir i =
      if first ≤ i ∧ i < first + num then PHYS_DIR_KERNEL else s.physDir i := by
  induction num with
  | zero => exact (if_neg fun h => Nat.not_lt.mpr h.1 h.2).symm
  | succ num ih =>
      rw [List.range'_concat, List.foldl_append, Nat.one_mul, List.foldl_cons, List.foldl_nil]
      by_cases hlast : i = first + num
      · rw [hlast, setPhysDir_self, if_pos ⟨Nat.le_add_right _ _, Nat.lt_succ_self _⟩]
      · rw [setPhysDir_of_ne _ hlast, ih]
        have hiff : (first ≤ i ∧ i < first + num) ↔ (first ≤ i ∧ i < first + (num + 1)) := by omega
        rw [if_congr hiff rfl rfl]

theorem foldl_setPhysDir (js : List Nat) :
    (js.foldl (fun s j => s.setPhysDir j PHYS_DIR_KERNEL) s).cr3 = s.cr3 := by
  induction js generalizing s with
  | nil => rfl
  | cons j js ih => exact ih

/-- A run is found if and only if there is one that ends early enough. -/
theorem consecutive_granted_iff (hg : s.Grantable page num gfp) (hkernel : gfp.user = false)
    (hfits : page % 1024 + num < 1024) (hzero : s.physDir 0 ≠ PHYS_DIR_UNUSED)
    (hcons : gfp.cons = true) :
    s.Granted page num gfp ↔ ∃ early, s.RunUnused num early ∧ early + num < counterSize := by
  obtain ⟨hlow, hhigh⟩ := hg.bounds hkernel
  have hwrap : ∀ {idx}, idx < physDirSmallNum → idx + num < 2 ^ 32 := by
    intro idx hidx
    rw [physDirSmallNum] at hidx hhigh
    omega
  rcases requestHeap_consecutive_cases hg.small hlow hhigh (hg.heapAbsent hkernel) hcons hkernel hzero
    with ⟨hfailed, hundo, hnone⟩ | ⟨first, s₁, s', hmem, hfree, htake, hmap, hdone⟩
  · refine iff_of_false ?_ ?_
    · exact hg.not_granted ((hg.requestKernel hkernel hfits hfailed).trans hundo)
    · rintro ⟨early, hrun, hbound⟩
      have hlt : early < physDirSmallNum :=
        Nat.lt_of_lt_of_le (Nat.lt_add_of_pos_right hg.pos) hrun.high
      have hfound := hnone early ((mem_allocIndices_small hg.small).mpr ⟨hrun.low, hlt⟩)
      rw [(runFree_iff_of_lt hrun.low (hwrap hlt)).mpr ⟨hrun, hbound⟩] at hfound
      cases hfound
  · obtain ⟨hlow', hhigh'⟩ := (mem_allocIndices_small hg.small).mp hmem
    obtain ⟨hrun, hbound⟩ := (runFree_iff_of_lt hlow' (hwrap hhigh')).mp hfree
    refine iff_of_true ?_ ⟨first, hrun, hbound⟩
    rw [takeRun_eq (by rw [runEnd_eq (hwrap hhigh')]; exact hbound), runEnd_eq (hwrap hhigh'),
      Nat.mod_eq_of_lt (Nat.lt_of_le_of_lt (Nat.le_add_right _ _) hbound),
      Nat.add_sub_cancel_left] at htake
    have hs₁ := Except.ok.inj htake
    obtain ⟨s₂, hmap', hphys, hcr3, -, hcell⟩ := @mapConsecutive_ok s₁ page num first num 0 gfp hlow
      hhigh (Nat.zero_add num)
    cases hmap'.symm.trans hmap
    refine ⟨s', List.range' first num, (hg.requestKernel hkernel hfits hdone).trans
      (finishRequest_kernel hkernel), List.length_range', List.nodup_range', fun f hf => ?_, ?_,
      fun k f hk => heap_lookup hg hkernel (fun k f hk => ?_) List.length_range' hk⟩
    · obtain ⟨hge, hlt⟩ := List.mem_range'_1.mp hf
      refine ⟨hrun.frames f hge hlt, ?_⟩
      rw [hphys, ← hs₁, physDir_foldl, if_pos ⟨hge, hlt⟩, Gfp.taken, hkernel]
      rfl
    · rw [hcr3, ← hs₁, foldl_setPhysDir]
    · obtain ⟨hlt, hf⟩ := List.getElem?_eq_some_iff.mp hk
      rw [List.length_range'] at hlt
      rw [List.getElem_range', Nat.one_mul] at hf
      rw [hcell k (Nat.zero_le k) hlt, hf]

/-- **Grantable requests.**  A request that is to be granted is, if and only if its pages do not end
with the last of 4 MiB, a page of the heap is left for its table that is not the last of 4 MiB, and
frames that must be consecutive are found before the end of what 16 bits count. -/
theorem requestPages_granted_iff (h : s.Ready dir) (hg : s.Grantable page num gfp) :
    s.Granted page num gfp ↔ page % 1024 + num < 1024 ∧
      (s.NeedsTable page gfp → ∃ p, s.Spare p) ∧
      (gfp.user = false → gfp.cons = true →
        ∃ early, s.RunUnused num early ∧ early + num < counterSize) := by
  by_cases hfits : page % 1024 + num < 1024
  · rw [and_iff_right hfits]
    cases huser : gfp.user with
    | true =>
        rw [user_granted_iff h hg huser hfits]
        exact (and_iff_left fun hkernel => absurd hkernel.symm Bool.false_ne_true).symm
    | false =>
        have hneeds : ¬ s.NeedsTable page gfp := fun hneeds =>
          Bool.false_ne_true (huser.symm.trans hneeds.1)
        rw [and_iff_right fun hneeds' => absurd hneeds' hneeds]
        cases hcons : gfp.cons with
        | false =>
            exact iff_of_true (heap_granted hg huser hfits h.zero hcons) fun _ hcons' =>
              absurd hcons' Bool.false_ne_true
        | true =>
            rw [consecutive_granted_iff hg huser hfits h.zero hcons]
            exact ⟨fun hrun _ _ => hrun, fun hrun => hrun rfl rfl⟩
  · exact iff_of_false (hg.not_granted_of_unfit hfits) fun hcond => hfits hcond.1

theorem oneFrame_grantable {k : Nat} (hk : k < 1024) :
    oneFrame.Grantable (kheapAddrIdx + k) 1 gfpKernel := by
  have hheap : isHeapPage (kheapAddrIdx + k) = true := by
    refine isHeapPage_iff.mpr ⟨Nat.le_add_right _ _, ?_⟩
    rw [kheapAddrIdx, physDirSmallNum]
    omega
  refine ⟨rfl, Nat.le_refl 1, ?_, fun huser => absurd huser Bool.false_ne_true, fun _ => hheap,
    fun j hj => ?_, ?_, fun hneeds => absurd hneeds.1 Bool.false_ne_true,
    fun _ hcons => absurd hcons Bool.false_ne_true⟩
  · rw [kheapAddrIdx]
    omega
  · rw [Nat.lt_one_iff.mp hj, Nat.add_zero, lookup_of_isHeapPage hheap]
    rfl
  · rw [oneFrame_freeFrames, if_neg fun hneeds => Bool.false_ne_true hneeds.1]
    exact Nat.le_refl 1

/-- The first page of the heap is granted. -/
theorem oneFrame_granted : oneFrame.Granted (kheapAddrIdx + 0) 1 gfpKernel :=
  (requestPages_granted_iff oneFrame_ready (oneFrame_grantable (by decide))).mpr
    ⟨by decide, nofun, nofun⟩

/-- The last page of the first 4 MiB of the heap is not. -/
theorem oneFrame_lastPage :
    oneFrame.Grantable (kheapAddrIdx + 1023) 1 gfpKernel ∧
      ¬ oneFrame.Granted (kheapAddrIdx + 1023) 1 gfpKernel := by
  have hg := oneFrame_grantable (k := 1023) (by decide)
  exact ⟨hg, hg.not_granted_of_unfit (by decide)⟩

end Memory
end Paging
end JkxyKernel
