import JkxyKernel.Paging.Directories
import JkxyKernel.Paging.Tables

/-!
# What may be touched for a user program

`safe_buf` goes through a buffer page by page and counts the bytes up to the first page that is
not safe.  For reads `addr_is_safe` wants both levels to be present, and the directory's entry
to be for user programs; it does not look whether the table's entry is.
-/

namespace JkxyKernel
namespace Paging
namespace Memory

section Code

variable (s : Memory)

/-- `addr_is_safe` -/
def addrIsSafe (dir page : Nat) (write : Bool) : Except Fault (Memory × Bool) :=
  let e := s.entry dir (page / 1024)
  if !e.present || !e.user then .ok (s, false)
  else if e.size then
    if write && !e.rw then .ok (s, false) else .ok (s, true)
  else do
    let table ← s.findUserspacePageTable e
    if !(s.entry table (page % 1024)).present then .ok (s, false)
    else if write && !e.rw then s.cloneCowIn dir page
    else .ok (s, true)

/-- The bytes up to the end of the page, a `uint16_t`. -/
def cancheck (buf : Nat) : Nat :=
  ((buf / 4096 + 1) * 4096 % 2 ^ 32 + 2 ^ 32 - buf) % 2 ^ 32 % 2 ^ 16

/-- The loop of `safe_buf`; every round takes a byte at least. -/
def safeBufLoop (dir : Nat) (write : Bool) :
    Nat → Nat → Nat → Nat → Memory → Except Fault (Memory × Nat)
  | 0, _, _, _, _ => .error .hang
  | rounds + 1, buf, nbytes, ret, s =>
      if nbytes = 0 then .ok (s, ret)
      else do
        let nbytesCancheck := if nbytes < cancheck buf then nbytes else cancheck buf
        let (s, safe) ← s.addrIsSafe dir (buf / 4096) write
        if !safe then .ok (s, ret)
        else
          safeBufLoop dir write rounds ((buf + nbytesCancheck) % 2 ^ 32)
            (nbytes - nbytesCancheck) (ret + nbytesCancheck) s

/-- `safe_buf` -/
def safeBuf (buf nbytes : Nat) (write : Bool) : Except Fault (Memory × Nat) := do
  let dir ← s.currentPageDirectory
  safeBufLoop dir write (nbytes + 1) buf nbytes 0 s

/-! ### Pages -/

/-- Both levels are present and for user programs. -/
def accessible (root page : Nat) : Bool :=
  let e := s.entries root (page / 1024)
  let te := s.entries e.addr (page % 1024)
  e.present && e.user && (e.size || te.present && te.user)

/-- Both levels are present, and the upper one is for user programs. -/
def passed (root page : Nat) : Bool :=
  let e := s.entries root (page / 1024)
  e.present && e.user && (e.size || (s.entries e.addr (page % 1024)).present)

/-- The table of a user program has an entry for the page that is present, but is the
kernel's. -/
def supervisor (root page : Nat) : Bool :=
  let e := s.entries root (page / 1024)
  let te := s.entries e.addr (page % 1024)
  e.isTable && te.present && !te.user

end Code

variable {s : Memory} {dir root page buf nbytes ret rounds : Nat}

theorem passed_eq : s.passed root page = (s.accessible root page || s.supervisor root page) := by
  simp only [passed, accessible, supervisor, Entry.isTable]
  cases (s.entries root (page / 1024)).present <;> cases (s.entries root (page / 1024)).user <;>
    cases (s.entries root (page / 1024)).size <;>
    cases (s.entries (s.entries root (page / 1024)).addr (page % 1024)).user <;> simp

theorem supervisor_not_accessible (h : s.supervisor root page = true) :
    s.accessible root page = false := by
  simp only [supervisor, accessible, Entry.isTable, Bool.and_eq_true, Bool.not_eq_true'] at h ⊢
  simp only [h.1.1.2, h.2, Bool.false_or, Bool.and_false]

/-- `addr_is_safe` of a byte that is to be read. -/
theorem addrIsSafe_read (h : s.InUse dir) (hpage : page < physDirSmallNum) :
    s.addrIsSafe dir page false = .ok (s, s.passed s.cr3 page) := by
  have hi : page / 1024 < numEntries := by
    rw [physDirSmallNum] at hpage
    rw [numEntries]
    omega
  simp only [addrIsSafe, h.entry, passed, Bool.false_and, Bool.false_eq_true, if_false]
  split
  next hout =>
    rw [Bool.or_eq_true, Bool.not_eq_true', Bool.not_eq_true'] at hout
    rcases hout with hout | hout
    · simp only [hout, Bool.false_and]
    · simp only [hout, Bool.and_false, Bool.false_and]
  next hin =>
    simp only [Bool.or_eq_true, Bool.not_eq_true', not_or, Bool.not_eq_false] at hin
    obtain ⟨hpresent, huser⟩ := hin
    rw [hpresent, huser]
    split
    next hsize => simp only [hsize, Bool.true_or, Bool.and_self]
    next hsize =>
      rw [Bool.not_eq_true] at hsize
      obtain ⟨table, hfind, hframe⟩ := h.find hi (Entry.isTable_iff.mpr ⟨hpresent, huser, hsize⟩)
      rw [hfind, hsize]
      change (if _ then _ else _) = _
      rw [Memory.entry, hframe]
      cases (s.entries (s.entries s.cr3 (page / 1024)).addr (page % 1024)).present <;> rfl

/-- The page of a byte; addresses wrap around. -/
def pageAt (addr : Nat) : Nat := addr % 2 ^ 32 / 4096

theorem cancheck_eq (hbuf : buf < 2 ^ 32) : cancheck buf = 4096 - buf % 4096 := by
  rw [cancheck]
  omega

theorem pageAt_wrap (addr i : Nat) : pageAt (addr % 2 ^ 32 + i) = pageAt (addr + i) := by
  rw [pageAt, pageAt, Nat.mod_add_mod]

/-- The bytes of a chunk are in one page. -/
theorem pageAt_chunk (hbuf : buf < 2 ^ 32) {i : Nat} (hi : i < cancheck buf) :
    pageAt (buf + i) = buf / 4096 := by
  rw [cancheck_eq hbuf] at hi
  rw [pageAt]
  omega

section Count

variable {write : Bool} {safe : Nat → Bool}

/-- The loop counts the bytes up to the first page that is refused, by induction on its
rounds. -/
theorem safeBufLoop_count
    (hsafe : ∀ page < physDirSmallNum, s.addrIsSafe dir page write = .ok (s, safe page))
    (hbuf : buf < 2 ^ 32) (hrounds : nbytes < rounds) :
    ∃ k ≤ nbytes, safeBufLoop dir write rounds buf nbytes ret s = .ok (s, ret + k) ∧
      (∀ i < k, safe (pageAt (buf + i)) = true) ∧
      (k < nbytes → safe (pageAt (buf + k)) = false) := by
  induction rounds generalizing buf nbytes ret with
  | zero => exact absurd hrounds (Nat.not_lt_zero _)
  | succ rounds ih =>
      by_cases hzero : nbytes = 0
      · refine ⟨0, Nat.zero_le _, ?_, nofun, fun hlt => absurd hlt (by omega)⟩
        rw [safeBufLoop, if_pos hzero]
        rfl
      · have hpage : buf / 4096 < physDirSmallNum := by
          rw [physDirSmallNum]
          omega
        have hfirst : pageAt buf = buf / 4096 := by
          rw [pageAt, Nat.mod_eq_of_lt hbuf]
        have hpos : 0 < cancheck buf := by
          rw [cancheck_eq hbuf]
          omega
        rw [safeBufLoop, if_neg hzero]
        simp only [hsafe _ hpage]
        cases hpassed : safe (buf / 4096) with
        | false =>
            refine ⟨0, Nat.zero_le _, rfl, nofun, fun _ => ?_⟩
            rw [Nat.add_zero, hfirst]
            exact hpassed
        | true =>
            obtain ⟨chunk, hchunk⟩ : ∃ chunk,
                chunk = if nbytes < cancheck buf then nbytes else cancheck buf := ⟨_, rfl⟩
            have hle : 0 < chunk ∧ chunk ≤ nbytes ∧ chunk ≤ cancheck buf := by
              rw [hchunk]
              split <;> omega
            obtain ⟨hsome, hall, hcan⟩ := hle
            have hrest := @ih ((buf + chunk) % 2 ^ 32) (nbytes - chunk) (ret + chunk)
              (Nat.mod_lt _ (Nat.two_pow_pos 32)) (by omega)
            obtain ⟨k, hk, hloop, hbefore, hafter⟩ := hrest
            refine ⟨chunk + k, by omega, ?_, fun i hi => ?_, fun hlt => ?_⟩
            · rw [← hchunk, ← Nat.add_assoc]
              exact hloop
            · rcases Nat.lt_or_ge i chunk with hlt | hge
              · rw [pageAt_chunk hbuf (Nat.lt_of_lt_of_le hlt hcan)]
                exact hpassed
              · have hi' := hbefore (i - chunk) (by omega)
                rw [pageAt_wrap, Nat.add_assoc, Nat.add_sub_cancel' hge] at hi'
                exact hi'
            · have hk' := hafter (by omega)
              rw [pageAt_wrap, Nat.add_assoc] at hk'
              exact hk'

/-- `safe_buf`, where checking a page changes nothing. -/
theorem safeBuf_count
    (hsafe : ∀ page < physDirSmallNum, s.addrIsSafe dir page write = .ok (s, safe page))
    (h : s.currentPageDirectory = .ok dir) (hbuf : buf < 2 ^ 32) :
    ∃ k ≤ nbytes, s.safeBuf buf nbytes write = .ok (s, k) ∧
      (∀ i < k, safe (pageAt (buf + i)) = true) ∧
      (k < nbytes → safe (pageAt (buf + k)) = false) := by
  obtain ⟨k, hk, hloop, hrest⟩ :=
    @safeBufLoop_count s dir buf nbytes 0 (nbytes + 1) write safe hsafe hbuf (Nat.lt_succ_self _)
  refine ⟨k, hk, ?_, hrest⟩
  rw [safeBuf, h]
  exact hloop.trans (by rw [Nat.zero_add])

end Count

/-- `safe_buf` of a buffer that is read. -/
theorem safeBuf_read (h : s.InUse dir) (hbuf : buf < 2 ^ 32) :
    ∃ k ≤ nbytes, s.safeBuf buf nbytes false = .ok (s, k) ∧
      (∀ i < k, s.passed s.cr3 (pageAt (buf + i)) = true) ∧
      (k < nbytes → s.passed s.cr3 (pageAt (buf + k)) = false) :=
  safeBuf_count (fun _ hpage => addrIsSafe_read h hpage) h.current hbuf

/-- What `safe_buf` is to return for a buffer that is read. -/
def SafeBufRight (s : Memory) (buf nbytes : Nat) : Prop :=
  ∃ k ≤ nbytes, s.safeBuf buf nbytes false = .ok (s, k) ∧
    (∀ i < k, s.accessible s.cr3 (pageAt (buf + i)) = true) ∧
    (k < nbytes → s.accessible s.cr3 (pageAt (buf + k)) = false)

/-- **The accessible prefix.**  `safe_buf` returns the number of bytes up to the first page that a
user program has no access to, if and only if no page of the buffer has an entry in a table
that is present but the kernel's, unless a page before it is refused. -/
theorem safeBuf_right_iff (hdir : s.InUse dir) (hbuf : buf < 2 ^ 32) :
    s.SafeBufRight buf nbytes ↔
      ∀ i < nbytes, s.supervisor s.cr3 (pageAt (buf + i)) = true →
        ∃ j < i, s.passed s.cr3 (pageAt (buf + j)) = false := by
  obtain ⟨k, hk, hresult, hbefore, hafter⟩ := @safeBuf_read s dir buf nbytes hdir hbuf
  constructor
  · rintro ⟨k', -, hresult', haccessible, -⟩ i hi hsupervisor
    cases hresult.symm.trans hresult'
    have hpassed : s.passed s.cr3 (pageAt (buf + i)) = true := by
      rw [passed_eq, hsupervisor, Bool.or_true]
    have hge : k ≤ i := by
      refine Nat.not_lt.mp fun hlt => ?_
      have hacc := haccessible i hlt
      rw [supervisor_not_accessible hsupervisor] at hacc
      cases hacc
    have hrefused := hafter (Nat.lt_of_le_of_lt hge hi)
    refine ⟨k, Nat.lt_of_le_of_ne hge ?_, hrefused⟩
    rintro rfl
    rw [hpassed] at hrefused
    cases hrefused
  · intro hnone
    refine ⟨k, hk, hresult, fun i hi => ?_, fun hlt => ?_⟩
    · have hpassed := hbefore i hi
      rw [passed_eq, Bool.or_eq_true] at hpassed
      refine hpassed.resolve_right fun hsupervisor => ?_
      obtain ⟨j, hj, hrefused⟩ := hnone i (Nat.lt_of_lt_of_le hi hk) hsupervisor
      rw [hbefore j (Nat.lt_trans hj hi)] at hrefused
      cases hrefused
    · have hrefused := hafter hlt
      rw [passed_eq, Bool.or_eq_false_iff] at hrefused
      exact hrefused.1

/-- A directory with a page table, whose only entry is present but the kernel's. -/
def supervisorPage : Memory where
  physDir _ := PHYS_DIR_KERNEL
  heapTables p := if p = kheapAddrIdx then { Entry.zero with present := true, addr := 5000 } else .zero
  entries frame i :=
    if i = 0 then
      if frame = initPageDirectory then { Entry.zero with present := true, user := true, addr := 5000 }
      else { Entry.zero with present := true, addr := 6000 }
    else .zero
  data _ _ := 0
  cr3 := initPageDirectory

theorem supervisorPage_inUse : supervisorPage.InUse initPageDirectory := by
  refine ⟨rfl, fun i _ ht => ?_⟩
  by_cases hi : i = 0
  · subst hi
    exact ⟨kheapAddrIdx, by decide, rfl, rfl⟩
  · have hzero : supervisorPage.entries supervisorPage.cr3 i = .zero := if_neg hi
    rw [hzero] at ht
    cases ht

/-- The page behind it is not present, and is refused. -/
theorem supervisorPage_next : supervisorPage.SafeBufRight 4096 1 := by
  refine (safeBuf_right_iff supervisorPage_inUse (by decide)).mpr fun i hi hsupervisor => ?_
  have hzero : i = 0 := Nat.lt_one_iff.mp hi
  subst hzero
  exact absurd hsupervisor (by decide)

/-- The kernel's page is counted. -/
theorem supervisorPage_counted : ¬ supervisorPage.SafeBufRight 0 1 := by
  rintro ⟨k, hk, hresult', haccessible, -⟩
  obtain ⟨n, -, hresult, -, hafter⟩ :=
    @safeBuf_read supervisorPage initPageDirectory 0 1 supervisorPage_inUse (by decide)
  cases hresult.symm.trans hresult'
  have hone : k = 1 := by
    refine Nat.le_antisymm hk (Nat.not_lt.mp fun hlt => ?_)
    have hzero : k = 0 := Nat.lt_one_iff.mp hlt
    subst hzero
    exact absurd (hafter hlt) (by decide)
  subst hone
  exact absurd (haccessible 0 Nat.one_pos) (by decide)

end Memory
end Paging
end JkxyKernel
