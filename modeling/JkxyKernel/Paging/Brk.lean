import JkxyKernel.Paging.Unmapping

/-!
# The heap of a program

`do_brk` moves the break of a program: it requests the pages up to the new break, or frees those
down to it.  The page numbers of both breaks are kept in 16 bits, enough for 256 MiB; the breaks
themselves are compared with 32 bits.
-/

namespace JkxyKernel
namespace Paging
namespace Memory

variable {s s' : Memory} {dir page num brk addr : Nat}

section Code

variable (s : Memory)

/-- What is returned as an `int32_t`. -/
def int32 (n : Nat) : Int := (BitVec.ofNat 32 n).toInt

def ENOMEM : Int := 12

/-- `BRK_PAGE_IDX` -/
def brkPageIdx (addr : Nat) : Nat := (addr + 2 ^ 32 - 1) % 2 ^ 32 / 4096 + 1

/-- `do_brk`: the memory, `mm->brk` and the returned value. -/
def doBrk (brk addr : Nat) : Except Fault (Memory × Nat × Int) :=
  if addr = 0 then .ok (s, brk, int32 brk)
  else
    let newbrkIdx := brkPageIdx addr % 2 ^ 16
    let curbrkIdx := brkPageIdx brk % 2 ^ 16
    if newbrkIdx > curbrkIdx then do
      let (s, ret) ← s.requestPages curbrkIdx (newbrkIdx - curbrkIdx) gfpUser
      if ret = 0 then .ok (s, brk, -ENOMEM) else .ok (s, addr, int32 addr)
    else if addr < brk then do
      let s ← freePages newbrkIdx (curbrkIdx - newbrkIdx) gfpUser s
      .ok (s, addr, int32 addr)
    else .ok (s, addr, int32 addr)

end Code

/-! ### What the pages are to be -/

/-- The page-rounded break. -/
def pagesTo (addr : Nat) : Nat := (addr + 4095) / 4096

/-- The pages from the old to the new break are mapped, those from the new to the old one are not, and
all others are as before. -/
structure BrkMoved (s s' : Memory) (old new : Nat) : Prop where
  grown : ∀ page < physDirSmallNum, old ≤ page → page < new →
    s.lookup s.cr3 page = none ∧ ∃ f, s'.lookup s.cr3 page = some ⟨f, true, true⟩
  shrunk : ∀ page < physDirSmallNum, new ≤ page → page < old → s'.lookup s.cr3 page = none
  others : ∀ page < physDirSmallNum, isHeapPage page = false → ¬ (old ≤ page ∧ page < new) →
    ¬ (new ≤ page ∧ page < old) → s'.lookup s.cr3 page = s.lookup s.cr3 page

/-- Every page but those of the kernel heap is translated as before. -/
def SameSpace (s s' : Memory) : Prop :=
  ∀ page < physDirSmallNum, isHeapPage page = false → s'.lookup s.cr3 page = s.lookup s.cr3 page

/-- The break is where it was asked to be, and the pages are mapped up to it; or, when there is no
memory, all is as before. -/
def BrkRight (s : Memory) (brk addr : Nat) : Prop :=
  ∀ s' brk' ret, s.doBrk brk addr = .ok (s', brk', ret) →
    (ret = int32 addr → brk' = addr ∧ BrkMoved s s' (pagesTo brk) (pagesTo addr)) ∧
    (ret = -ENOMEM → brk' = brk ∧ SameSpace s s')

/-- Pages that a user program gets: in one page table of the user space but not up to its end, not
mapped, and with memory enough. -/
structure Obtainable (s : Memory) (page num : Nat) : Prop where
  low : 2 ≤ page / 1024
  fits : page % 1024 + num < 1024
  unmapped : ∀ k < num, s.lookup s.cr3 (page + k) = none
  memory : s.Suffices page num gfpUser

/-! ### Page numbers -/

theorem brkPageIdx_mod (haddr : addr < 2 ^ 32) :
    brkPageIdx addr % 2 ^ 16 = pagesTo addr % 2 ^ 16 := by
  rw [brkPageIdx, pagesTo]
  rcases Nat.eq_zero_or_pos addr with rfl | hpos
  · rfl
  · have hsub : (addr + 2 ^ 32 - 1) % 2 ^ 32 = addr - 1 := by omega
    have hdiv : (addr - 1) / 4096 + 1 = (addr + 4095) / 4096 := by omega
    rw [hsub, hdiv]

theorem pagesTo_le (h : addr ≤ brk) : pagesTo addr ≤ pagesTo brk := by
  rw [pagesTo, pagesTo]
  omega

theorem pagesTo_lt (h : addr < 2 ^ 32) : pagesTo addr ≤ physDirSmallNum := by
  rw [pagesTo, physDirSmallNum]
  omega

/-- An address of a user program is not taken for an error. -/
theorem int32_ne_enomem (haddr : addr ≤ 0xc0000000) : int32 addr ≠ -ENOMEM := by
  have hmod : addr % 2 ^ 32 = addr := Nat.mod_eq_of_lt (by omega)
  rw [int32, ENOMEM, BitVec.toInt_eq_toNat_cond, BitVec.toNat_ofNat, hmod]
  split <;> omega

theorem int32_inj (haddr : addr < 2 ^ 32) (hbrk : brk < 2 ^ 32) (h : int32 addr = int32 brk) :
    addr = brk := by
  have hbits := congrArg BitVec.toNat (BitVec.toInt_inj.mp h)
  rw [BitVec.toNat_ofNat, BitVec.toNat_ofNat, Nat.mod_eq_of_lt haddr, Nat.mod_eq_of_lt hbrk] at hbits
  exact hbits

/-! ### Growing -/

section Growing

variable (h : s.Ready dir) (hpage : page + num < 2 ^ 16)

include hpage

theorem brk_fits_iff : requestFits page num gfpUser = true ↔ page % 1024 + num < 1024 := by
  rw [requestFits, if_neg (show gfpUser.large ≠ true from Bool.false_ne_true), decide_eq_true_iff,
    physDirSmallNum]
  omega

include h

/-- A request that fails changes no page but one of the kernel heap. -/
theorem sameSpace_of_failed (hreq : s.requestPages page num gfpUser = .ok (s', 0)) :
    SameSpace s s' := by
  cases hfits : requestFits page num gfpUser with
  | false =>
      cases ((requestPages_user rfl).trans (requestUserPages_unfit hfits)).symm.trans hreq
      exact fun _ _ _ => rfl
  | true =>
      have hregion := (brk_fits_iff hpage).mp hfits
      have hin : InRange page num gfpUser := by
        rw [InRange, if_neg (show gfpUser.large ≠ true from Bool.false_ne_true), numEntries]
        omega
      obtain ⟨-, new, hlookup, -, hnew⟩ := requestPages_undone h hin hreq
      intro q hq hheap
      refine hlookup q hq fun idx heq => ?_
      exact Bool.false_ne_true (hheap.symm.trans (hnew q idx heq).inHeap)

/-- A page of the space is mapped, so the request is refused, or runs into a large page. -/
theorem request_mapped (hlow : 2 ≤ page / 1024) (hfits : page % 1024 + num < 1024) {k : Nat}
    (hk : k < num) (hmapped : s.lookup s.cr3 (page + k) ≠ none) :
    s.requestPages page num gfpUser = .ok (s, 0) ∨
      s.requestPages page num gfpUser = .error .noTable := by
  have hhigh : page / 1024 < 768 := by omega
  have hlt : page / 1024 < numEntries := Nat.lt_trans hhigh (by decide)
  obtain ⟨hheap, hdiv, hmod⟩ := user_page hhigh (Nat.le_of_lt hfits) hk
  rw [requestPages_user rfl,
    requestUserPages_small h.current ((brk_fits_iff hpage).mpr hfits) rfl]
  cases hpresent : (s.entries s.cr3 (page / 1024)).present with
  | false => exact absurd (lookup_of_absent hheap (by rw [hdiv, hpresent])) hmapped
  | true =>
      have huser := h.space _ hlow hhigh hpresent
      cases hsize : (s.entries s.cr3 (page / 1024)).size with
      | true =>
          rw [requestSmall_large h hlt (Entry.isLarge_iff.mpr ⟨hpresent, huser, hsize⟩)]
          exact .inr rfl
      | false =>
          have hte := @lookup_of_table s (page + k) s.cr3 hheap _ _
            (congrArg (s.entries s.cr3) hdiv) hpresent hsize (congrArg (s.entries _) hmod)
          have hbusy : (s.entries (s.entries s.cr3 (page / 1024)).addr
              (page % 1024 + k)).present = true := by
            by_contra hnot
            rw [if_neg hnot] at hte
            exact hmapped hte
          rw [requestSmall_busy h hlt (Entry.isTable_iff.mpr ⟨hpresent, huser, hsize⟩) hk (by omega)
            hbusy]
          exact .inl rfl

/-- How the request for a break that grows comes out. -/
theorem brk_request_cases (hpos : 1 ≤ num) :
    (s.Obtainable page num ∧ ∃ s', s.requestPages page num gfpUser = .ok (s', page) ∧
      s'.cr3 = s.cr3 ∧
      (∀ k < num, ∃ f, s'.lookup s.cr3 (page + k) = some ⟨f, true, true⟩) ∧
      (s.Separate → ∀ q < physDirSmallNum, isHeapPage q = false → q < page ∨ page + num ≤ q →
        s'.lookup s.cr3 q = s.lookup s.cr3 q)) ∨
    ¬ s.Obtainable page num ∧ ∀ s' ret, s.requestPages page num gfpUser = .ok (s', ret) →
      ret = 0 ∧ SameSpace s s' := by
  have hfailed : ∀ s₁, s.requestPages page num gfpUser = .ok (s₁, 0) → ∀ s' ret,
      s.requestPages page num gfpUser = .ok (s', ret) → ret = 0 ∧ SameSpace s s' := by
    intro s₁ hreq s' ret hreq'
    cases hreq.symm.trans hreq'
    exact ⟨rfl, sameSpace_of_failed h hpage hreq⟩
  have hhigh : page / 1024 < 768 := by omega
  by_cases hfits : page % 1024 + num < 1024
  · by_cases hlow : 2 ≤ page / 1024
    · by_cases hmapped : ∃ k < num, s.lookup s.cr3 (page + k) ≠ none
      · obtain ⟨k, hk, hmapped⟩ := hmapped
        refine .inr ⟨fun hobtain => hmapped (hobtain.unmapped k hk), ?_⟩
        rcases request_mapped h hpage hlow hfits hk hmapped with hreq | hpanic
        · exact hfailed s hreq
        · intro s' ret hreq
          cases hpanic.symm.trans hreq
      · have hunmapped : ∀ k < num, s.lookup s.cr3 (page + k) = none := fun k hk =>
          not_not.mp fun hne => hmapped ⟨k, hk, hne⟩
        rcases @requestPages_user_cases s dir page num gfpUser h rfl rfl hlow hhigh hpos hfits
          hunmapped with
          ⟨hsuffices, s', frames, hreq, hlength, -, -, hcr3, hlookup, hothers⟩ | ⟨hnot, s', hreq⟩
        · refine .inl ⟨⟨hlow, hfits, hunmapped, hsuffices⟩, s', hreq, hcr3, fun k hk => ?_, hothers⟩
          exact ⟨_, hlookup k _ (List.getElem?_eq_getElem (hlength.symm ▸ hk))⟩
        · exact .inr ⟨fun hobtain => hnot hobtain.memory, hfailed s' hreq⟩
    · refine .inr ⟨fun hobtain => hlow hobtain.low, hfailed s ?_⟩
      obtain ⟨hpresent, hkernel⟩ := h.low _ (Nat.not_le.mp hlow)
      rw [requestPages_user rfl,
        requestUserPages_small h.current ((brk_fits_iff hpage).mpr hfits) rfl,
        requestSmall_kernel h (Nat.lt_trans hhigh (by decide)) hpresent hkernel]
      rfl
  · refine .inr ⟨fun hobtain => hfits hobtain.fits, hfailed s ?_⟩
    have hunfit := Bool.eq_false_iff.mpr fun hfit => hfits ((brk_fits_iff hpage).mp hfit)
    exact (requestPages_user rfl).trans (requestUserPages_unfit hunfit)

end Growing

/-! ### When the break is right -/

/-- The break does not leave the 16 bits of its page numbers. -/
def Agrees (brk addr : Nat) : Prop :=
  pagesTo addr % 2 ^ 16 = pagesTo addr ∧ pagesTo brk % 2 ^ 16 = pagesTo brk

/-- The pages that are freed, `lo` to `hi`, are those from `new` to `old` as far as these are
mapped. -/
structure FreesRight (s : Memory) (lo hi new old : Nat) : Prop where
  all : ∀ page, new ≤ page → page < old →
    s.lookup s.cr3 page = none ∨ (lo ≤ page ∧ page < hi) ∧ s.Freeable page
  only : ∀ page, lo ≤ page → page < hi → ¬ (new ≤ page ∧ page < old) → ¬ s.Freeable page

section Right

/-- A page that can be freed is mapped. -/
theorem lookup_freeable (hheap : isHeapPage page = false) (hfree : s.Freeable page) :
    s.lookup s.cr3 page ≠ none := by
  obtain ⟨hpresent, -, hsize⟩ := Entry.isTable_iff.mp hfree.table
  have hte : (s.entries (s.entries s.cr3 (page / 1024)).addr (page % 1024)).present = true :=
    hfree.present
  rw [lookup_of_table hheap rfl hpresent hsize rfl, if_pos hte]
  exact nofun

theorem not_heap_of_lt (hpage : page < 2 ^ 16) : isHeapPage page = false := by
  rw [isHeapPage, kheapAddrIdx, Bool.and_eq_false_iff]
  exact .inl (decide_eq_false (by omega))

/-- What was freed is what the breaks say. -/
theorem brkMoved_iff {lo hi left old new : Nat} (hfrees : s.Frees s' fun q => lo ≤ q ∧ q < lo + left)
    (hsmall : hi < 2 ^ 16) (hleft : lo + left = hi) (hle : new ≤ old) (hold : old ≤ physDirSmallNum)
    (hequal : new = old → lo = hi) :
    BrkMoved s s' old new ↔ new = old ∨ new < old ∧ s.FreesRight lo hi new old := by
  have hspace : ∀ {page}, page < hi → page < physDirSmallNum ∧ isHeapPage page = false := fun hpage =>
    ⟨Nat.lt_trans (Nat.lt_trans hpage hsmall) (by decide),
      not_heap_of_lt (Nat.lt_trans hpage hsmall)⟩
  constructor
  · intro hmoved
    rcases Nat.eq_or_lt_of_le hle with hsame | hlt
    · exact .inl hsame
    · refine .inr ⟨hlt, fun page hnew hpage => ?_, fun page hlo hhi hnot hfree => ?_⟩
      · have hlt' : page < physDirSmallNum := Nat.lt_of_lt_of_le hpage hold
        have hnone := hmoved.shrunk page hlt' hnew hpage
        by_cases hfreed : (lo ≤ page ∧ page < lo + left) ∧ s.Freeable page
        · exact .inr ⟨hleft ▸ hfreed.1, hfreed.2⟩
        · rw [hfrees.lookup_kept hlt' hfreed] at hnone
          exact .inl hnone
      · obtain ⟨hlt', hheap⟩ := hspace hhi
        have hother := hmoved.others page hlt' hheap (by omega) hnot
        rw [hfrees.lookup_freed hlt' hheap ⟨hlo, hleft.symm ▸ hhi⟩ hfree] at hother
        exact lookup_freeable hheap hfree hother.symm
  · intro hright
    refine ⟨fun page _ hle' hlt' => absurd hlt' (by omega), fun page hpage hnew hlt' => ?_,
      fun page hpage hheap _ hnot => hfrees.lookup_kept hpage fun hfreed => ?_⟩
    · rcases hright with hsame | ⟨-, hright⟩
      · exact absurd hlt' (by omega)
      · rcases hright.all page hnew hlt' with hnone | ⟨hin, hfree⟩
        · by_cases hfreed : (lo ≤ page ∧ page < lo + left) ∧ s.Freeable page
          · exact hfrees.lookup_freed hpage (hspace (hleft ▸ hfreed.1.2)).2 hfreed.1 hfreed.2
          · rw [hfrees.lookup_kept hpage hfreed, hnone]
        · exact hfrees.lookup_freed hpage (hspace hin.2).2 (hleft.symm ▸ hin) hfree
    · rcases hright with hsame | ⟨-, hright⟩
      · have hempty := hequal hsame
        obtain ⟨⟨hlo, hhi⟩, -⟩ := hfreed
        omega
      · exact hright.only page hfreed.1.1 (hleft ▸ hfreed.1.2) hnot hfreed.2

variable (h : s.Ready dir) (hbrk : brk < 2 ^ 32) (haddr : addr ≤ 0xc0000000)

include h hbrk haddr

/-- The break grows, as far as its page numbers say. -/
theorem grows_right_iff (hseparate : s.Separate) (hne : addr ≠ 0)
    (hlt : pagesTo brk % 2 ^ 16 < pagesTo addr % 2 ^ 16) :
    s.BrkRight brk addr ↔
      ¬ s.Obtainable (pagesTo brk % 2 ^ 16) (pagesTo addr % 2 ^ 16 - pagesTo brk % 2 ^ 16) ∨
        Agrees brk addr := by
  generalize hc : pagesTo brk % 2 ^ 16 = c at hlt ⊢
  generalize hn : pagesTo addr % 2 ^ 16 = n at hlt ⊢
  have hc' : brkPageIdx brk % 2 ^ 16 = c := (brkPageIdx_mod hbrk).trans hc
  have hn' : brkPageIdx addr % 2 ^ 16 = n :=
    (brkPageIdx_mod (Nat.lt_of_le_of_lt haddr (by decide))).trans hn
  have hsmall : c + (n - c) < 2 ^ 16 := by omega
  have hcode : s.doBrk brk addr = s.requestPages c (n - c) gfpUser >>= fun (s, ret) =>
      if ret = 0 then .ok (s, brk, -ENOMEM) else .ok (s, addr, int32 addr) := by
    rw [doBrk, if_neg hne, hc', hn']
    exact if_pos hlt
  rcases brk_request_cases h hsmall (by omega) with
    ⟨hobtain, s', hreq, hcr3, hmapped, hothers⟩ | ⟨hobtain, hfailed⟩
  · have hrun : s.doBrk brk addr = .ok (s', addr, int32 addr) := by
      have hpos : c ≠ 0 := by
        rintro rfl
        exact absurd hobtain.low (by decide)
      rw [hcode, hreq]
      exact if_neg hpos
    rw [or_iff_right (not_not.mpr hobtain)]
    constructor
    · intro hright
      obtain ⟨-, hmoved⟩ := (hright s' addr _ hrun).1 rfl
      have hspace : ∀ {page}, page < 2 ^ 16 → page < physDirSmallNum := fun hpage =>
        Nat.lt_trans hpage (by decide)
      -- What was mapped lies between the breaks.
      have hinside : ∀ k < n - c, pagesTo brk ≤ c + k ∧ c + k < pagesTo addr := by
        intro k hk
        have hpage : c + k < 2 ^ 16 := by omega
        obtain ⟨f, hf⟩ := hmapped k hk
        by_contra hnot
        by_cases hshrunk : pagesTo addr ≤ c + k ∧ c + k < pagesTo brk
        · rw [hmoved.shrunk _ (hspace hpage) hshrunk.1 hshrunk.2] at hf
          cases hf
        · rw [hmoved.others _ (hspace hpage) (not_heap_of_lt hpage) hnot hshrunk,
            hobtain.unmapped k hk] at hf
          cases hf
      have hfirst := hinside 0 (by omega)
      have hlast := hinside (n - c - 1) (by omega)
      -- Nothing behind it was to be mapped.
      have hend : ¬ n < pagesTo addr := by
        intro hbehind
        have hpage : n < 2 ^ 16 := by omega
        obtain ⟨hnone, f, hf⟩ := hmoved.grown n (hspace hpage) (by omega) hbehind
        rw [hothers hseparate n (hspace hpage) (not_heap_of_lt hpage) (by omega), hnone] at hf
        cases hf
      exact ⟨by omega, by omega⟩
    · rintro ⟨hagree, hagree'⟩
      intro s₁ brk' ret hrun'
      cases hrun.symm.trans hrun'
      refine ⟨fun _ => ⟨rfl, ?_⟩, fun hret => absurd hret (int32_ne_enomem haddr)⟩
      rw [hn] at hagree
      rw [hc] at hagree'
      rw [← hagree, ← hagree']
      have hend : ∀ {page}, c ≤ page → page < n → ∃ k < n - c, page = c + k := fun hle hlt =>
        ⟨_, Nat.sub_lt_sub_right hle hlt, (Nat.add_sub_of_le hle).symm⟩
      refine ⟨fun page _ hle hlt' => ?_, fun page _ hle hlt' => absurd hlt' (by omega),
        fun page hpage hheap hnot _ => hothers hseparate page hpage hheap (by omega)⟩
      obtain ⟨k, hk, rfl⟩ := hend hle hlt'
      exact ⟨hobtain.unmapped k hk, hmapped k hk⟩
  · refine iff_of_true ?_ (.inl hobtain)
    intro s₁ brk' ret hrun
    rw [hcode] at hrun
    obtain ⟨⟨s₂, page⟩, hreq, hret⟩ := Machine.bind_eq_ok_iff.mp hrun
    obtain ⟨hnull, hsame⟩ := hfailed s₂ page hreq
    cases (if_pos hnull).symm.trans hret
    refine ⟨fun hret => absurd hret.symm (int32_ne_enomem haddr), fun _ => ⟨rfl, hsame⟩⟩

/-- The break shrinks, as far as the breaks themselves say, or nothing is done. -/
theorem shrinks_right_iff (hcounted : s.Counted) (hne : addr ≠ 0)
    (hle : pagesTo addr % 2 ^ 16 ≤ pagesTo brk % 2 ^ 16) :
    s.BrkRight brk addr ↔ pagesTo addr = pagesTo brk ∨
      pagesTo addr < pagesTo brk ∧ s.FreesRight (pagesTo addr % 2 ^ 16) (pagesTo brk % 2 ^ 16)
        (pagesTo addr) (pagesTo brk) := by
  generalize hc : pagesTo brk % 2 ^ 16 = c at hle ⊢
  generalize hn : pagesTo addr % 2 ^ 16 = n at hle ⊢
  have hc' : brkPageIdx brk % 2 ^ 16 = c := (brkPageIdx_mod hbrk).trans hc
  have hn' : brkPageIdx addr % 2 ^ 16 = n :=
    (brkPageIdx_mod (Nat.lt_of_le_of_lt haddr (by decide))).trans hn
  have hold := pagesTo_lt hbrk
  by_cases hshrinks : addr < brk
  · have hsmall : c < 2 ^ 16 := by omega
    have hend : n + (c - n) < physDirSmallNum := Nat.lt_of_lt_of_le (by omega) (by decide : 2 ^ 16 ≤ _)
    obtain ⟨s', hfree, hfrees⟩ := freePages_frees h.toInUse (fun i hi ht =>
      h.apart i hi (Entry.isTable_iff.mp ht).1 (Entry.isTable_iff.mp ht).2.2) hcounted hend
    have hrun : s.doBrk brk addr = .ok (s', addr, int32 addr) := by
      rw [doBrk, if_neg hne, hc', hn']
      refine (if_neg (Nat.not_lt.mpr hle)).trans ((if_pos hshrinks).trans ?_)
      rw [hfree]
      rfl
    have hright : s.BrkRight brk addr ↔ BrkMoved s s' (pagesTo brk) (pagesTo addr) := by
      constructor
      · exact fun hright => ((hright s' addr _ hrun).1 rfl).2
      · intro hmoved s₁ brk' ret hrun'
        cases hrun.symm.trans hrun'
        exact ⟨fun _ => ⟨rfl, hmoved⟩, fun hret => absurd hret (int32_ne_enomem haddr)⟩
    rw [hright]
    refine brkMoved_iff hfrees hsmall ?_ (pagesTo_le (Nat.le_of_lt hshrinks)) hold ?_
    · omega
    · intro hsame
      rw [← hc, ← hn, hsame]
  · have hrun : s.doBrk brk addr = .ok (s, addr, int32 addr) := by
      rw [doBrk, if_neg hne, hc', hn']
      exact (if_neg (Nat.not_lt.mpr hle)).trans (if_neg hshrinks)
    have hmono := pagesTo_le (Nat.not_lt.mp hshrinks)
    rw [or_iff_left fun hlt => Nat.not_lt.mpr hmono hlt.1]
    constructor
    · intro hright
      obtain ⟨-, hmoved⟩ := (hright s addr _ hrun).1 rfl
      by_contra hdiffer
      have hnew := pagesTo_lt (Nat.lt_of_le_of_lt haddr (by decide))
      obtain ⟨hnone, f, hf⟩ := hmoved.grown (pagesTo brk) (by omega) (Nat.le_refl _) (by omega)
      rw [hnone] at hf
      cases hf
    · intro hsame s₁ brk' ret hrun'
      cases hrun.symm.trans hrun'
      refine ⟨fun _ => ⟨rfl, ?_⟩, fun hret => absurd hret (int32_ne_enomem haddr)⟩
      rw [hsame]
      exact ⟨fun page _ hle' hlt => absurd hlt (Nat.not_lt.mpr hle'),
        fun page _ hle' hlt => absurd hlt (Nat.not_lt.mpr hle'), fun _ _ _ _ _ => rfl⟩

end Right

/-- **The break.**  `do_brk` maps or unmaps the pages between the breaks and no others, or leaves all
as it was when there is no memory, if and only if it is asked for no address; or both breaks end in
the same page; or its page numbers grow, and the request fails or they are the true ones; or they do
not, the break shrinks, and what is freed are the mapped ones of its pages. -/
theorem doBrk_right_iff (h : s.Ready dir) (hcounted : s.Counted) (hbrk : brk < 2 ^ 32)
    (haddr : addr ≤ 0xc0000000) :
    s.BrkRight brk addr ↔ addr = 0 ∨ pagesTo addr = pagesTo brk ∨
      pagesTo brk % 2 ^ 16 < pagesTo addr % 2 ^ 16 ∧
        (¬ s.Obtainable (pagesTo brk % 2 ^ 16) (pagesTo addr % 2 ^ 16 - pagesTo brk % 2 ^ 16) ∨
          Agrees brk addr) ∨
      pagesTo addr % 2 ^ 16 ≤ pagesTo brk % 2 ^ 16 ∧ pagesTo addr < pagesTo brk ∧
        s.FreesRight (pagesTo addr % 2 ^ 16) (pagesTo brk % 2 ^ 16) (pagesTo addr) (pagesTo brk) := by
  by_cases hzero : addr = 0
  · refine iff_of_true ?_ (.inl hzero)
    subst hzero
    intro s' brk' ret hrun
    cases hrun
    refine ⟨fun hret => ?_, fun _ => ⟨rfl, fun _ _ _ => rfl⟩⟩
    have hsame := int32_inj hbrk (by decide) hret
    subst hsame
    exact ⟨rfl, fun _ _ _ hlt => absurd hlt (Nat.not_lt_zero _),
      fun _ _ _ hlt => absurd hlt (Nat.not_lt_zero _), fun _ _ _ _ _ => rfl⟩
  · rw [or_iff_right hzero]
    rcases Nat.lt_or_ge (pagesTo brk % 2 ^ 16) (pagesTo addr % 2 ^ 16) with hlt | hge
    · have hdiffer : pagesTo addr ≠ pagesTo brk := by
        intro hsame
        rw [hsame] at hlt
        exact Nat.lt_irrefl _ hlt
      have hnever : ¬ (pagesTo addr % 2 ^ 16 ≤ pagesTo brk % 2 ^ 16 ∧ pagesTo addr < pagesTo brk ∧
          s.FreesRight (pagesTo addr % 2 ^ 16) (pagesTo brk % 2 ^ 16) (pagesTo addr)
            (pagesTo brk)) := fun hshrinks => Nat.not_lt.mpr hshrinks.1 hlt
      rw [grows_right_iff h hbrk haddr hcounted.separate hzero hlt, or_iff_right hdiffer,
        and_iff_right hlt, or_iff_left hnever]
    · rw [shrinks_right_iff h hbrk haddr hcounted hzero hge, and_iff_right hge,
        or_iff_right fun hgrows : _ ∧ _ => Nat.not_lt.mpr hge hgrows.1]

theorem oneFrame_counted : oneFrame.Counted := by
  have hnone : ∀ page, ¬ oneFrame.Freeable page := by
    intro page hfree
    obtain ⟨-, huser, -⟩ := Entry.isTable_iff.mp hfree.table
    have hentry : oneFrame.entries oneFrame.cr3 (page / 1024) =
        if page / 1024 < 2 then { Entry.zero with present := true, size := true } else .zero := rfl
    rw [hentry] at huser
    split at huser <;> cases huser
  refine ⟨fun i _ j _ hpresent hsize => ?_, fun page _ hfree => absurd hfree (hnone page),
    fun page _ q _ hfree => absurd hfree (hnone page)⟩
  have hentry : oneFrame.entries oneFrame.cr3 i =
      if i < 2 then { Entry.zero with present := true, size := true } else .zero := rfl
  rw [hentry] at hpresent hsize
  split at hsize
  next => cases hsize
  next hi =>
    rw [if_neg hi] at hpresent
    cases hpresent

/-- There is no memory for a page more in the 161st MiB. -/
theorem oneFrame_brk : oneFrame.BrkRight 0x0a000000 0x0a001000 :=
  (doBrk_right_iff oneFrame_ready oneFrame_counted (by decide) (by decide)).mpr
    (.inr (.inr (.inl ⟨by decide, .inr ⟨rfl, rfl⟩⟩)))

/-- The break is moved to 256 MiB, and the page below it is not mapped. -/
theorem oneFrame_brk_wraps : ¬ oneFrame.BrkRight 0x0ffff000 0x10000000 := by
  rw [shrinks_right_iff oneFrame_ready (by decide) (by decide) oneFrame_counted (by decide)
    (by decide)]
  rintro (hsame | ⟨hlt, -⟩)
  · exact absurd hsame (by decide)
  · exact absurd hlt (by decide)

end Memory
end Paging
end JkxyKernel
