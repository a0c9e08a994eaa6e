import JkxyKernel.Paging.MakingTables
import JkxyKernel.Paging.SafeBuf

/-!
# What may be written for a user program

Before it writes to user memory the kernel asks `safe_buf`.  The processor does not stop the
kernel at pages that are not writable, so the answer is all that keeps pages apart that are
read-only or are copied on write.

For a page in a page table, `addr_is_safe` wants the directory's entry to be writable.  But
`mk_user_table` enters every page table as writable, and the permission of the page is the one in
the table: it is not looked at, and the page is not copied.
-/

namespace JkxyKernel
namespace Paging
namespace Memory

section Code

variable (s : Memory)

/-- The entry that maps a page. -/
def mapping (root page : Nat) : Entry :=
  let e := s.entries root (page / 1024)
  if e.size then e else s.entries e.addr (page % 1024)

/-- The frame that a page is mapped to. -/
def frameOf (root page : Nat) : Nat :=
  let e := s.entries root (page / 1024)
  if e.size then e.addr + page % 1024 else (s.entries e.addr (page % 1024)).addr

/-- Both levels are present, the upper one is for user programs, and a large page is writable. -/
def writePassed (root page : Nat) : Bool :=
  s.passed root page && (!(s.entries root (page / 1024)).size || (s.entries root (page / 1024)).rw)

/-- A page in a table is for user programs, and writable. -/
def permits (root page : Nat) : Bool :=
  let e := s.entries root (page / 1024)
  let te := s.entries e.addr (page % 1024)
  e.size || te.user && te.rw

end Code

variable {s : Memory} {dir root page buf nbytes : Nat} {roots : List Nat}

/-- The page tables of the directory in use are entered as writable. -/
def TablesWritable (s : Memory) : Prop :=
  ∀ i < numEntries, (s.entries s.cr3 i).isTable = true → (s.entries s.cr3 i).rw = true

/-- `mk_user_table` enters the new one so. -/
theorem TablesWritable.withTable {i p idx : Nat} (h : s.TablesWritable) :
    (s.withTable s.cr3 i p idx).TablesWritable := by
  intro j hj htable
  have hcr3 : (s.withTable s.cr3 i p idx).cr3 = s.cr3 := rfl
  rw [hcr3, entries_withTable] at htable ⊢
  split at htable
  next hnew => rw [if_pos hnew]; rfl
  next hnew =>
    rw [if_neg hnew]
    split at htable
    next => cases htable
    next hold =>
      rw [if_neg hold]
      exact h j hj htable

/-- No user program has the frame of a page in another address space; `roots` are the frames of
all page directories. -/
def Alone (s : Memory) (roots : List Nat) (page : Nat) : Prop :=
  ∀ root ∈ roots, root ≠ s.cr3 → ∀ q < physDirSmallNum, s.accessible root q = true →
    s.frameOf root q ≠ s.frameOf s.cr3 page

/-- A user program has access to the page, may write to it, and is alone with it unless it is
shared on purpose. -/
structure WritablePrivately (s : Memory) (roots : List Nat) (page : Nat) : Prop where
  accessible : s.accessible s.cr3 page = true
  rw : (s.mapping s.cr3 page).rw = true
  alone : (s.mapping s.cr3 page).shared = false → s.Alone roots page

theorem accessible_of_writePassed (h : s.writePassed root page = true)
    (hpermits : s.permits root page = true) :
    s.accessible root page = true ∧ (s.mapping root page).rw = true := by
  simp only [writePassed, passed, permits, accessible, mapping] at *
  cases hsize : (s.entries root (page / 1024)).size with
  | true =>
      simp only [hsize, Bool.true_or, Bool.and_true, Bool.not_true, Bool.false_or,
        Bool.and_eq_true] at *
      exact h
  | false =>
      simp only [hsize, Bool.false_or, Bool.not_false, Bool.true_or, Bool.and_true,
        Bool.and_eq_true] at *
      exact ⟨⟨h.1, h.2, hpermits.1⟩, hpermits.2⟩

theorem permits_of_accessible (h : s.accessible root page = true)
    (hrw : (s.mapping root page).rw = true) : s.permits root page = true := by
  simp only [permits, accessible, mapping] at *
  cases hsize : (s.entries root (page / 1024)).size with
  | true => rw [Bool.true_or]
  | false =>
      simp only [hsize, Bool.false_or, Bool.and_eq_true, Bool.false_eq_true, if_false] at *
      exact ⟨h.2.2, hrw⟩

/-- `addr_is_safe` of a byte that is to be written, where the page tables are entered as
writable. -/
theorem addrIsSafe_write (h : s.InUse dir) (hrw : s.TablesWritable)
    (hpage : page < physDirSmallNum) :
    s.addrIsSafe dir page true = .ok (s, s.writePassed s.cr3 page) := by
  have hread := addrIsSafe_read h hpage
  have hi : page / 1024 < numEntries := by
    rw [physDirSmallNum] at hpage
    rw [numEntries]
    omega
  rw [addrIsSafe, h.entry] at hread ⊢
  rw [writePassed]
  generalize he : s.entries s.cr3 (page / 1024) = e at hread ⊢
  cases hout : !e.present || !e.user with
  | true =>
      simp only [hout, if_true] at hread ⊢
      rw [← (Prod.mk.inj (Except.ok.inj hread)).2, Bool.false_and]
  | false =>
      cases hsize : e.size with
      | true =>
          simp only [hout, hsize, if_true, Bool.false_eq_true, if_false,
            Bool.false_and] at hread ⊢
          rw [← (Prod.mk.inj (Except.ok.inj hread)).2]
          cases e.rw <;> rfl
      | false =>
          have htable : e.isTable = true := by
            rw [Bool.or_eq_false_iff, Bool.not_eq_false', Bool.not_eq_false'] at hout
            exact Entry.isTable_iff.mpr ⟨hout.1, hout.2, hsize⟩
          have hwritable : e.rw = true := by
            rw [← he]
            exact hrw _ hi (by rw [he]; exact htable)
          simp only [hout, hsize, hwritable, Bool.false_eq_true, if_false, Bool.not_true,
            Bool.and_false, Bool.not_false, Bool.true_or, Bool.and_true] at hread ⊢
          exact hread

/-- `safe_buf` of a buffer that is to be written answers only for what may be written. -/
def SafeWriteRight (s : Memory) (roots : List Nat) (buf nbytes : Nat) : Prop :=
  ∃ k ≤ nbytes, s.safeBuf buf nbytes true = .ok (s, k) ∧
    ∀ i < k, s.WritablePrivately roots (pageAt (buf + i))

/-- Each page of the buffer, up to the first one that is not present or is refused by the
directory's entry, is permitted by its own entry, and in no other address space unless it is
shared. -/
def Permitted (s : Memory) (roots : List Nat) (buf nbytes : Nat) : Prop :=
  ∀ i < nbytes, (∀ j ≤ i, s.writePassed s.cr3 (pageAt (buf + j)) = true) →
    s.permits s.cr3 (pageAt (buf + i)) = true ∧
      ((s.mapping s.cr3 (pageAt (buf + i))).shared = false → s.Alone roots (pageAt (buf + i)))

theorem safeWriteRight_iff (hdir : s.InUse dir) (hrw : s.TablesWritable) (hbuf : buf < 2 ^ 32) :
    s.SafeWriteRight roots buf nbytes ↔ s.Permitted roots buf nbytes := by
  obtain ⟨k, hk, hresult, hbefore, hafter⟩ :=
    @safeBuf_count s dir buf nbytes true (s.writePassed s.cr3)
      (fun _ hpage => addrIsSafe_write hdir hrw hpage) hdir.current hbuf
  constructor
  · rintro ⟨k', -, hresult', hall⟩ i hi hpassed
    cases hresult.symm.trans hresult'
    have hlt : i < k := by
      refine Nat.not_le.mp fun hle => ?_
      have hrefused := hafter (Nat.lt_of_le_of_lt hle hi)
      rw [hpassed k hle] at hrefused
      cases hrefused
    have hpage := hall i hlt
    exact ⟨permits_of_accessible hpage.accessible hpage.rw, hpage.alone⟩
  · intro hall
    refine ⟨k, hk, hresult, fun i hi => ?_⟩
    obtain ⟨hpermits, halone⟩ := hall i (Nat.lt_of_lt_of_le hi hk) fun j hj =>
      hbefore j (Nat.lt_of_le_of_lt hj hi)
    obtain ⟨haccessible, hwritable⟩ := accessible_of_writePassed (hbefore i hi) hpermits
    exact ⟨haccessible, hwritable, halone⟩

/-- **Stores of the kernel.**  What `safe_buf` answers for may be written privately, if and only if
each page of the buffer that passes the check of the directory's entry, up to the first one that
does not, is large or has a writable entry in its table for user programs, and has its frame to
itself unless it is shared. -/
theorem safeBuf_write_right_iff (hdir : s.InUse dir) (hrw : s.TablesWritable)
    (hbuf : buf < 2 ^ 32) :
    s.SafeWriteRight roots buf nbytes ↔ s.Permitted roots buf nbytes :=
  safeWriteRight_iff hdir hrw hbuf

/-- Two directories, the tables of which have a page each.  The page is copied on write; it is in
the same frame still, or the directory in use has a copy. -/
def forkedPage (copied : Bool) : Memory where
  physDir f := if f = 6000 then 2 else PHYS_DIR_KERNEL
  heapTables p :=
    if p = kheapAddrIdx then newEntry gfpKernel 5000
    else if p = kheapAddrIdx + 1 then newEntry gfpKernel 5001
    else .zero
  entries frame i :=
    if i = 0 then
      if frame = initPageDirectory then newEntry gfpUser 5000
      else if frame = 4999 then newEntry gfpUser 5001
      else if frame = 5000 ∧ copied = true then newEntry gfpUser 6001
      else { newEntry gfpUser 6000 with rw := false, cow := true }
    else .zero
  data _ _ := 0
  cr3 := initPageDirectory

section ForkedPage

variable {copied : Bool}

theorem forkedPage_entries {frame i : Nat} (hi : i ≠ 0) :
    (forkedPage copied).entries frame i = .zero :=
  if_neg hi

theorem forkedPage_inUse : (forkedPage copied).InUse initPageDirectory := by
  refine ⟨rfl, fun i _ ht => ?_⟩
  by_cases hi : i = 0
  · subst hi
    exact ⟨kheapAddrIdx, by decide, rfl, rfl⟩
  · rw [forkedPage_entries hi] at ht
    cases ht

theorem forkedPage_tablesWritable : (forkedPage copied).TablesWritable := by
  intro i _ ht
  by_cases hi : i = 0
  · subst hi
    rfl
  · rw [forkedPage_entries hi] at ht
    cases ht

/-- The copy is in no other directory. -/
theorem forkedPage_alone : (forkedPage true).Alone [initPageDirectory, 4999] 0 := by
  intro root hroot hne q _ haccessible
  have hother : root = 4999 := by
    rcases List.mem_cons.mp hroot with hcurrent | hrest
    · exact absurd hcurrent hne
    · exact List.mem_singleton.mp hrest
  subst hother
  rw [accessible] at haccessible
  by_cases hdir : q / 1024 = 0
  · by_cases htable : q % 1024 = 0
    · rw [frameOf, hdir, htable]
      decide
    · simp only [forkedPage_entries htable] at haccessible
      rw [hdir] at haccessible
      cases haccessible
  · simp only [forkedPage_entries hdir] at haccessible
    cases haccessible

end ForkedPage

theorem forkedPage_copied : (forkedPage true).SafeWriteRight [initPageDirectory, 4999] 0 1 := by
  refine (safeBuf_write_right_iff forkedPage_inUse forkedPage_tablesWritable (by decide)).mpr ?_
  intro i hi _
  have hzero : i = 0 := Nat.lt_one_iff.mp hi
  subst hzero
  exact ⟨rfl, fun _ => forkedPage_alone⟩

/-- The page that has not been copied is not writable, and `safe_buf` answers for it. -/
theorem forkedPage_not_copied :
    ¬ (forkedPage false).SafeWriteRight [initPageDirectory, 4999] 0 1 := by
  intro hright
  have hall := (safeWriteRight_iff forkedPage_inUse forkedPage_tablesWritable (by decide)).mp hright
  have hpermits := hall 0 Nat.one_pos fun j hj => by
    rw [Nat.le_zero.mp hj]
    rfl
  exact Bool.false_ne_true hpermits.1

end Memory
end Paging
end JkxyKernel
