import JkxyKernel.Paging.Cloning
import JkxyKernel.Paging.Unmapping

/-!
# Freeing an address space

`free_directory` goes through the directory and its page tables as `clone_directory` did, and
gives back every use, every page table and at last the directory.  After a clone is freed the
books are closed.
-/

namespace JkxyKernel
namespace Paging
namespace Memory

variable {s m m' m₁ : Memory} {G R T : List (Nat × Nat)} {L is js : List Nat} {gfp : Gfp} {e : Entry}
  {src dst root dir d p q f frame i j page : Nat}

/-- Nothing is different but `phys_dir` and `heap_tables`. -/
structure Same (m m' : Memory) : Prop where
  entries : m'.entries = m.entries
  data : m'.data = m.data
  cr3 : m'.cr3 = m.cr3

theorem Same.refl (m : Memory) : Same m m := ⟨rfl, rfl, rfl⟩

theorem Same.trans (h : Same m m₁) (h' : Same m₁ m') : Same m m' :=
  ⟨h'.entries.trans h.entries, h'.data.trans h.data, h'.cr3.trans h.cr3⟩

theorem Same.held (h : Same m m') : m'.held root is = m.held root is := by
  have hholdings : ∀ e, m'.holdings e = m.holdings e := fun e => by
    rw [holdings, holdings, h.entries]
  simp only [Memory.held, h.entries, hholdings]

/-! ### The loops -/

theorem Ledger.giveBack (h : Ledger s m G (frame / gfp.pages :: L)) (huser : gfp.user = true) :
    ∃ m', m.freePhysMem frame gfp = .ok m' ∧ Ledger s m' G L ∧ Same m m' := by
  obtain ⟨n, hfree, hledger⟩ := h.release huser
  exact ⟨_, hfree, hledger, rfl, rfl, rfl⟩

/-- The uses in a page table are given back; by induction on the entries that are left. -/
theorem freeTable_returned (hg : (p, f) ∈ G)
    (h : Ledger s m G (tableHoldings (m.entries f) js ++ L)) :
    ∃ m', freeTable p js m = .ok m' ∧ Ledger s m' G L ∧ Same m m' := by
  induction js generalizing m with
  | nil => exact ⟨m, rfl, h, .refl m⟩
  | cons j js ih =>
      have hread : m.entry p j = m.entries f j := by rw [Memory.entry, h.frameAt hg]
      rw [freeTable]
      simp only [hread]
      cases hpresent : (m.entries f j).present with
      | false =>
          rw [tableHoldings_cons_absent hpresent] at h
          exact ih h
      | true =>
          rw [tableHoldings_cons_present hpresent, List.cons_append] at h
          have hone : (m.entries f j).addr / gfpUser.pages = (m.entries f j).addr := Nat.div_one _
          rw [← hone] at h
          obtain ⟨m₁, hfree, h₁, hsame⟩ := h.giveBack (show gfpUser.user = true from rfl)
          rw [← hsame.entries] at h₁
          obtain ⟨m', hrest, h', hsame'⟩ := ih h₁
          exact ⟨m', Machine.bind_eq_ok_iff.mpr ⟨m₁, hfree, hrest⟩, h', hsame.trans hsame'⟩

/-- One round of the loop over the directory. -/
theorem freeEntry_returned (hsound : s.HeapSound) (hd : (dst, d) ∈ R)
    (h : Ledger s m (T ++ R) (m.holdings (m.entries d i) ++ L))
    (htables : T.map Prod.snd = (m.entries d i).tables) :
    ∃ m', m.freeEntry dst i = .ok m' ∧ Ledger s m' R L ∧ Same m m' := by
  have hread : m.entry dst i = m.entries d i := by
    rw [Memory.entry, h.frameAt (List.mem_append_right _ hd)]
  rw [freeEntry]
  simp only [hread]
  generalize m.entries d i = e at *
  have hskip : e.present = false ∨ e.user = false → Ledger s m R L := by
    intro hnone
    obtain ⟨hheld, htables', -⟩ := @holdings_of_not m e hnone
    rw [htables', List.map_eq_nil_iff] at htables
    rw [hheld, htables] at h
    exact h
  cases hpresent : e.present with
  | false => exact ⟨m, rfl, hskip (.inl hpresent), .refl m⟩
  | true =>
      cases huser : e.user with
      | false => exact ⟨m, rfl, hskip (.inr huser), .refl m⟩
      | true =>
          cases hsize : e.size with
          | true =>
              have hlarge : e.isLarge = true := Entry.isLarge_iff.mpr ⟨hpresent, huser, hsize⟩
              rw [Entry.tables, Entry.isTable_of_isLarge hlarge, if_neg Bool.false_ne_true,
                List.map_eq_nil_iff] at htables
              rw [holdings_of_large hlarge, htables] at h
              exact h.giveBack (show gfpUserLarge.user = true from rfl)
          | false =>
              have htable : e.isTable = true := Entry.isTable_iff.mpr ⟨hpresent, huser, hsize⟩
              rw [Entry.tables, if_pos htable] at htables
              obtain ⟨⟨p, f⟩, rfl, hf⟩ := List.map_eq_singleton_iff.mp htables
              have hf : f = e.addr := hf
              have hg : (p, f) ∈ [(p, f)] ++ R := List.mem_append_left _ (List.mem_singleton_self _)
              have hfind : m.findUserspacePageTable e = .ok p := by
                rw [findUserspacePageTable, ← hf, h.heapPage_granted hsound hg]
              rw [holdings_of_table htable, ← hf] at h
              obtain ⟨m₁, hfree, h₁, hsame⟩ := freeTable_returned hg h
              obtain ⟨m', hrevoke, h', hentries, hcr3, hdata⟩ := h₁.revoke hsound
              refine ⟨m', ?_, h', hsame.trans ⟨hentries, hdata, hcr3⟩⟩
              exact Machine.bind_eq_ok_iff.mpr ⟨p, hfind, Machine.bind_eq_ok_iff.mpr
                ⟨m₁, hfree, hrevoke⟩⟩

/-- The loop over the directory, by induction on the entries that are left. -/
theorem freeEntries_returned (hsound : s.HeapSound) (hd : (dst, d) ∈ R)
    (h : Ledger s m (T ++ R) (m.held d is ++ L))
    (htables : T.map Prod.snd = is.flatMap fun i => (m.entries d i).tables) :
    ∃ m', freeEntries dst is m = .ok m' ∧ Ledger s m' R L ∧ Same m m' := by
  induction is generalizing m T with
  | nil =>
      have hnil : T = [] := List.map_eq_nil_iff.mp htables
      rw [hnil] at h
      exact ⟨m, rfl, h, .refl m⟩
  | cons i is ih =>
      rw [List.flatMap_cons] at htables
      obtain ⟨T₁, T₂, rfl, htables₁, htables₂⟩ := List.map_eq_append_iff.mp htables
      rw [held_cons, List.append_assoc, List.append_assoc] at h
      obtain ⟨m₁, hfree, h₁, hsame⟩ :=
        freeEntry_returned hsound (List.mem_append_right _ hd) h htables₁
      rw [← hsame.entries] at htables₂
      rw [← hsame.held] at h₁
      obtain ⟨m', hrest, h', hsame'⟩ := ih h₁ htables₂
      exact ⟨m', Machine.bind_eq_ok_iff.mpr ⟨m₁, hfree, hrest⟩, h', hsame.trans hsame'⟩

/-! ### The directory -/

theorem located_currentPageDirectory (h : s.currentPageDirectory = .ok dir) :
    s.Located dir s.cr3 := by
  rw [currentPageDirectory] at h
  split at h
  next hinit =>
    cases h
    exact .inl ⟨rfl, hinit⟩
  next =>
    split at h
    next => cases h
    next hfound =>
      cases h
      exact .inr (mapsTo_of_heapPage hfound)

/-- A clone is freed, and the books are closed. -/
theorem freeDirectory_returned (hs : s.Clonable src root) (hrange : is = List.range numEntries)
    (h : Copied s m₁ m root d [(dst, d)] T [] is) :
    ∃ s', m.freeDirectory dst = .ok s' ∧ Ledger s s' [] [] ∧ s'.entries = m.entries ∧
      s'.data = s.data ∧ s'.cr3 = s.cr3 := by
  have hclone := h.cloning
  obtain ⟨dir, hdir⟩ := hs.current
  have hcr3 := located_currentPageDirectory hdir
  have hspare : s.Spare dst := hclone.spare (dst, d) List.mem_cons_self
  have hcurrent : m.currentPageDirectory = .ok dir := by
    rw [← hdir, currentPageDirectory, currentPageDirectory, hclone.cr3,
      hclone.heapPage_eq (hs.located_kept hcr3)]
  have hbooks : Ledger s (m.switchDirectory dst) (T ++ [(dst, d)])
      ((m.switchDirectory dst).held d is ++ []) := by
    have hheld : (m.switchDirectory dst).held d is = s.held root is := h.held
    rw [hheld, List.append_nil]
    exact (hclone.toLedger.perm List.perm_append_comm).congr rfl rfl
  obtain ⟨m₂, hfree, h₂, hsame⟩ := freeEntries_returned hs.heap
    (List.mem_singleton_self (dst, d)) hbooks h.tables
  have hback : (m₂.switchDirectory dir).cr3 = s.cr3 := h₂.frameAt_located hcr3
  obtain ⟨s', hrevoke, h', hentries, hcr3', hdata⟩ :=
    (@Ledger.congr _ _ (m₂.switchDirectory dir) _ _ h₂ rfl rfl).revoke hs.heap
  refine ⟨s', ?_, h', hentries.trans hsame.entries, (hdata.trans hsame.data).trans hclone.data,
    hcr3'.trans hback⟩
  have hne : dst ≠ dir := (dir_ne_of_spare hdir hspare).symm
  rw [freeDirectory, hcurrent, ← hrange]
  refine Machine.bind_eq_ok_iff.mpr ⟨dir, rfl, ?_⟩
  rw [if_neg hne]
  exact Machine.bind_eq_ok_iff.mpr ⟨m₂, hfree, hrevoke⟩

/-! ### What is left behind -/

theorem Kept.rw (h : s.Kept m root) (hframe : frame ∉ s.freeFrames) (j : Nat) :
    (m.entries frame j).rw = (s.entries frame j).rw ∨ (m.entries frame j).rw = false := by
  rcases h frame hframe j with heq | ⟨-, heq⟩
  · rw [heq]
    exact .inl rfl
  · rw [heq, Entry.cloned]
    split
    next => exact .inr rfl
    next => exact .inl rfl

/-- The same translation, or one that is no longer writable. -/
def MarkedAtMost (t t' : Option Translation) : Prop :=
  t' = t ∨ ∃ x : Translation, t = some x ∧ t' = some { x with rw := false }

/-- All is as it was, but for pages of the directory that may be marked as copy-on-write. -/
structure Intact (s s' : Memory) (root : Nat) : Prop where
  physDir : s'.physDir = s.physDir
  heapTables : s'.heapTables = s.heapTables
  cr3 : s'.cr3 = s.cr3
  data : s'.data = s.data
  kept : s.Kept s' root
  lookup : ∀ page < physDirSmallNum, MarkedAtMost (s.lookup root page) (s'.lookup root page)

theorem markedAtMost_of {x x' : Translation} (hframe : x'.frame = x.frame) (huser : x'.user = x.user)
    (hrw : x'.rw = x.rw ∨ x'.rw = false) : MarkedAtMost (some x) (some x') := by
  obtain ⟨frame, rw, user⟩ := x
  obtain ⟨frame', rw', user'⟩ := x'
  cases hframe
  cases huser
  rcases hrw with hrw | hrw
  · exact .inl (by rw [show rw' = rw from hrw])
  · exact .inr ⟨_, rfl, by rw [show rw' = false from hrw]⟩

/-- Pages that are marked are mapped to the same frames. -/
theorem Kept.lookup (h : s.Kept m root) (hs : s.Clonable src root)
    (hheap : m.heapTables = s.heapTables) (hpage : page < physDirSmallNum) :
    MarkedAtMost (s.lookup root page) (m.lookup root page) := by
  have hdir := h.alike hs.root_kept (page / 1024)
  have hrw := h.rw hs.root_kept (page / 1024)
  cases hinHeap : isHeapPage page with
  | true =>
      refine .inl ?_
      rw [lookup_of_isHeapPage hinHeap, lookup_of_isHeapPage hinHeap, hheap]
  | false =>
      cases hpresent : (s.entries root (page / 1024)).present with
      | false =>
          refine .inl ?_
          rw [lookup_of_absent hinHeap hpresent, lookup_of_absent hinHeap (hdir.present.trans hpresent)]
      | true =>
          have hpresent' := hdir.present.trans hpresent
          cases hsize : (s.entries root (page / 1024)).size with
          | true =>
              rw [lookup_of_size hinHeap hpresent hsize,
                lookup_of_size hinHeap hpresent' (hdir.size.trans hsize)]
              exact markedAtMost_of (congrArg (· + page % 1024) hdir.addr) hdir.user hrw
          | false =>
              have hkept := hs.kept _ (lt_numEntries hpage) hpresent hsize
              have htable := h.alike hkept (page % 1024)
              have hrw' := h.rw hkept (page % 1024)
              rw [lookup_of_table hinHeap rfl hpresent hsize rfl,
                lookup_of_table hinHeap rfl hpresent' (hdir.size.trans hsize)
                  (congrArg (fun f => m.entries f (page % 1024)) hdir.addr), htable.present]
              cases hleaf : (s.entries (s.entries root (page / 1024)).addr (page % 1024)).present with
              | false => exact .inl rfl
              | true =>
                  refine markedAtMost_of htable.addr ?_ ?_
                  · exact congrArg₂ (· && ·) hdir.user htable.user
                  · rcases hrw with hrw | hrw
                    · rcases hrw' with hrw' | hrw'
                      · exact .inl (congrArg₂ (· && ·) hrw hrw')
                      · refine .inr ?_
                        simp only [hrw', Bool.and_false]
                    · refine .inr ?_
                      simp only [hrw, Bool.false_and]

/-- A directory is cloned, the clone is freed, and all is as it was. -/
def CloneFreeRight (s : Memory) (src root : Nat) : Prop :=
  ∃ s₁ dst s', s.cloneDirectory src = .ok (s₁, dst) ∧ s₁.freeDirectory dst = .ok s' ∧
    Intact s s' root

/-- **Clones leave nothing behind.**  With enough memory, and counts that have 16 bits, a
directory can be cloned and the clone freed, and all is as it was. -/
theorem cloneDirectory_freeDirectory (hs : s.Clonable src root)
    (hcount : s.Countable (s.held root (List.range numEntries)))
    (hroom : s.Room (s.tableCount root (List.range numEntries) + 1)) :
    s.CloneFreeRight src root := by
  obtain ⟨m₁, m, dst, d, T, hclone, hcopied⟩ := cloneDirectory_copied hs hcount hroom
  obtain ⟨s', hfree, hledger, hentries, hdata, hcr3⟩ := freeDirectory_returned hs rfl hcopied
  obtain ⟨hphys, hheap⟩ := hledger.closed
  have hkept : s.Kept s' root := fun frame hframe j => by
    rw [hentries]
    exact hcopied.cloning.marked frame hframe j
  exact ⟨m, dst, s', hclone, hfree, hphys, hheap, hcr3, hdata, hkept,
    fun page hpage => hkept.lookup hs hheap hpage⟩

/-- Memory with one frame that is not in use, and a directory with one large page, which has a
number of users. -/
def sharedPage (users : Int) : Memory where
  physDir f := if f = 4 then users else if f = 5 ∨ f = 5120 then PHYS_DIR_UNUSED else PHYS_DIR_KERNEL
  heapTables _ := .zero
  entries _ i := if i = 0 then newEntry gfpUserLarge 4096 else .zero
  data _ _ := 0
  cr3 := initPageDirectory

section SharedPage

variable {users : Int}

theorem sharedPage_freeFrames : (sharedPage users).freeFrames = {5120} := by
  ext f
  rw [Finset.mem_singleton, freeFrames, Finset.mem_filter, Finset.mem_Ico, physDirLargeNum,
    physDirSmallNum]
  constructor
  · rintro ⟨⟨hlow, -⟩, -, hunused⟩
    by_contra hne
    have hkernel : (sharedPage users).physDir f = PHYS_DIR_KERNEL := by
      exact (if_neg (by omega)).trans (if_neg (by omega))
    rw [hkernel] at hunused
    cases hunused
  · rintro rfl
    exact ⟨by decide, rfl, rfl⟩

theorem sharedPage_spare : (sharedPage users).Spare kheapAddrIdx := ⟨by decide, rfl, by decide⟩

theorem sharedPage_room : (sharedPage users).Room 1 := by
  refine ⟨?_, {kheapAddrIdx}, fun p hp => ?_, Nat.le_refl _⟩
  · rw [sharedPage_freeFrames]
    exact Nat.le_refl _
  · rw [Finset.mem_singleton.mp hp]
    exact sharedPage_spare

theorem sharedPage_entries {f : Nat} (hi : i ≠ 0) : (sharedPage users).entries f i = .zero :=
  if_neg hi

theorem sharedPage_clonable : (sharedPage users).Clonable initPageDirectory initPageDirectory := by
  have hmaps : ∀ p frame, ¬ (sharedPage users).MapsTo p frame := fun p frame h =>
    Bool.false_ne_true h.present
  have hpresent : ∀ i, ((sharedPage users).entries initPageDirectory i).present = true → i = 0 := by
    intro i hpresent
    by_contra hi
    rw [sharedPage_entries hi] at hpresent
    cases hpresent
  have hzero : (sharedPage users).physDir 0 = PHYS_DIR_KERNEL := rfl
  refine ⟨?_, ⟨fun p frame h => absurd h (hmaps p frame), fun _ _ _ => rfl⟩, ?_, ⟨_, rfl⟩,
    .inl ⟨rfl, rfl⟩, fun i _ ht => ?_, fun i _ hp hsize => ?_⟩
  · rw [hzero]
    decide
  · rw [sharedPage_freeFrames]
    decide
  · obtain ⟨hp, -, hsize⟩ := Entry.isTable_iff.mp ht
    rw [hpresent i hp] at hsize
    cases hsize
  · rw [hpresent i hp] at hsize
    cases hsize

theorem sharedPage_held {is : List Nat} (his : 0 ∉ is) :
    (sharedPage users).held initPageDirectory is = [] ∧
      (sharedPage users).tableCount initPageDirectory is = 0 := by
  induction is with
  | nil => exact ⟨rfl, rfl⟩
  | cons i is ih =>
      obtain ⟨hheld, hcount⟩ := ih (List.not_mem_of_not_mem_cons his)
      have hi : i ≠ 0 := fun heq => his (heq ▸ List.mem_cons_self)
      obtain ⟨hnone, -, hpage⟩ := @holdings_of_not (sharedPage users) .zero (.inl rfl)
      rw [held_cons, tableCount_cons, sharedPage_entries hi, hheld, hcount, hnone, hpage]
      exact ⟨rfl, rfl⟩

theorem range_numEntries : List.range numEntries = 0 :: (List.range 1023).map Nat.succ :=
  List.range_succ_eq_map

theorem zero_not_mem_succ : 0 ∉ (List.range 1023).map Nat.succ := by
  intro hmem
  obtain ⟨i, -, hi⟩ := List.mem_map.mp hmem
  cases hi

end SharedPage

/-- One user. -/
theorem sharedPage_right : (sharedPage 1).CloneFreeRight initPageDirectory initPageDirectory := by
  obtain ⟨hheld, hcount⟩ := @sharedPage_held 1 _ zero_not_mem_succ
  have hheld' : (sharedPage 1).held initPageDirectory (List.range numEntries) = [4] := by
    rw [range_numEntries, held_cons, hheld]
    rfl
  have hcount' : (sharedPage 1).tableCount initPageDirectory (List.range numEntries) = 0 := by
    rw [range_numEntries, tableCount_cons, hcount]
    rfl
  refine cloneDirectory_freeDirectory sharedPage_clonable ?_ ?_
  · rw [hheld']
    exact List.forall_mem_singleton.mpr (by decide)
  · rw [hcount']
    exact sharedPage_room

/-! ### Too many users, and none -/

/-- Entries that are not present are cleared. -/
theorem cloneEntries_absent (hne : m.frameAt src ≠ m.frameAt dst)
    (habsent : ∀ i ∈ is, (m.entry src i).present = false) :
    ∃ m', cloneEntries src dst is m = .ok m' ∧ m'.physDir = m.physDir ∧
      m'.heapTables = m.heapTables ∧ m'.cr3 = m.cr3 ∧
      ∀ i, i ∉ is → m'.entry dst i = m.entry dst i := by
  induction is generalizing m with
  | nil => exact ⟨m, rfl, rfl, rfl, rfl, fun _ _ => rfl⟩
  | cons i is ih =>
      have hsrc : ∀ j, (m.setEntry dst i .zero).entry src j = m.entry src j := fun j =>
        entries_setEntry.trans (if_neg fun hcell => hne hcell.1)
      have hone : m.cloneEntry src dst i = .ok (m.setEntry dst i .zero) := by
        rw [cloneEntry]
        simp only [habsent i List.mem_cons_self]
        rfl
      obtain ⟨m', hclone, hphys, hheap, hcr3, hdst⟩ := @ih (m.setEntry dst i .zero) hne
        fun j hj => by rw [hsrc, habsent j (List.mem_cons_of_mem _ hj)]
      refine ⟨m', Machine.bind_eq_ok_iff.mpr ⟨_, hone, hclone⟩, hphys, hheap, hcr3, fun j hj => ?_⟩
      rw [hdst j (List.not_mem_of_not_mem_cons hj)]
      have hji : j ≠ i := fun heq => hj (heq ▸ List.mem_cons_self)
      exact entries_setEntry.trans (if_neg fun hcell => hji hcell.2)

section SharedPage

variable {users : Int}

/-- The page of the kernel heap that the clone lies in. -/
theorem sharedPage_alloc : ∃ dst, (sharedPage users).Spare dst ∧ dst ≠ 0 ∧
    (sharedPage users).allocKernelPages 1 0 gfpKernel =
      .ok (((sharedPage users).setPhysDir 5120 PHYS_DIR_KERNEL).setHeap dst
        (newEntry gfpKernel 5120), dst) := by
  rcases allocKernelPages_one (@sharedPage_clonable users).zero with
    ⟨hnone, -⟩ | ⟨dst, hspare, d, hd, hne, halloc⟩
  · refine absurd ⟨⟨_, sharedPage_spare⟩, ?_⟩ hnone
    rw [sharedPage_freeFrames]
    exact Finset.singleton_nonempty _
  · rw [sharedPage_freeFrames] at hd
    rw [Finset.mem_singleton.mp hd] at halloc
    exact ⟨dst, hspare, hne, halloc⟩

/-- The first round of the loop, in which the use of the page is counted. -/
theorem sharedPage_first (hentries : m.entries = (sharedPage users).entries) :
    m.cloneEntry initPageDirectory dst 0 =
      ((m.setEntry dst 0 (newEntry gfpUserLarge 4096).cloned).setEntry initPageDirectory 0
        (newEntry gfpUserLarge 4096).cloned).usePhysMem 4096 gfpUserLarge := by
  have hread : m.entry initPageDirectory 0 = newEntry gfpUserLarge 4096 := by
    rw [Memory.entry, hentries]
    rfl
  rw [cloneEntry]
  simp only [hread]
  rfl

theorem sharedPage_granted (hspare : (sharedPage users).Spare dst) :
    (((sharedPage users).setPhysDir 5120 PHYS_DIR_KERNEL).setHeap dst
      (newEntry gfpKernel 5120)).frameAt dst = 5120 :=
  (frameAt_of_isHeapPage hspare.inHeap).trans
    (congrArg Entry.addr (Function.update_self dst _ (sharedPage users).heapTables))

theorem usePhysMem_shared (hphys : m.physDir 4 = users) (hpos : 0 < users) :
    m.usePhysMem 4096 gfpUserLarge = .ok (m.setPhysDir 4 ((users + 1).bmod (2 ^ 16))) := by
  have hidx : 4096 / gfpUserLarge.pages = 4 := rfl
  rw [usePhysMem, hidx, hphys, if_neg (by omega)]
  rfl

/-- The memory after the page is marked. -/
theorem sharedPage_started {s₁ : Memory} {dst' : Nat} (hne : dst ≠ 0)
    (halloc : (sharedPage users).allocKernelPages 1 0 gfpKernel = .ok (m, dst))
    (hentries : m.entries = (sharedPage users).entries)
    (hclone : (sharedPage users).cloneDirectory initPageDirectory = .ok (s₁, dst')) :
    dst' = dst ∧ ∃ m₁, ((m.setEntry dst 0 (newEntry gfpUserLarge 4096).cloned).setEntry
        initPageDirectory 0 (newEntry gfpUserLarge 4096).cloned).usePhysMem 4096 gfpUserLarge =
          .ok m₁ ∧
      cloneEntries initPageDirectory dst ((List.range 1023).map Nat.succ) m₁ = .ok s₁ := by
  rw [cloneDirectory_eq halloc hne, range_numEntries, cloneEntries,
    sharedPage_first hentries] at hclone
  obtain ⟨m', hloop, hret⟩ := Machine.bind_eq_ok_iff.mp hclone
  cases hret
  exact ⟨rfl, Machine.bind_eq_ok_iff.mp hloop⟩

/-- A clone with a count that is corrupted cannot be freed. -/
theorem freeDirectory_corrupted {s' : Memory} (hcr3 : m.cr3 = initPageDirectory)
    (hentry : m.entry dst 0 = (newEntry gfpUserLarge 4096).cloned) (hphys : m.physDir 4 = -32768) :
    m.freeDirectory dst ≠ .ok s' := by
  intro hfree
  have hcurrent : m.currentPageDirectory = .ok initPageDirectory := if_pos hcr3
  have hfirst : (m.switchDirectory dst).freeEntry dst 0 = .error .freeCorrupted := by
    have hread : (m.switchDirectory dst).entry dst 0 = (newEntry gfpUserLarge 4096).cloned := hentry
    have hcount : (m.switchDirectory dst).physDir (4096 / gfpUserLarge.pages) = -32768 := hphys
    have hlast : (m.switchDirectory dst).freePhysMem 4096 gfpUserLarge = .error .freeCorrupted := by
      rw [freePhysMem, hcount]
      rfl
    rw [freeEntry]
    simp only [hread]
    exact hlast
  rw [freeDirectory, hcurrent, range_numEntries, freeEntries] at hfree
  obtain ⟨dir, hdir, hloop⟩ := Machine.bind_eq_ok_iff.mp hfree
  rw [hfirst] at hloop
  cases hloop

end SharedPage

/-- A page of the kernel cannot be used. -/
theorem sharedPage_kernel :
    ¬ (sharedPage PHYS_DIR_KERNEL).CloneFreeRight initPageDirectory initPageDirectory := by
  rintro ⟨s₁, dst', s', hclone, -⟩
  obtain ⟨dst, hspare, hne, halloc⟩ := @sharedPage_alloc PHYS_DIR_KERNEL
  obtain ⟨-, m₁, huse, -⟩ := sharedPage_started hne halloc rfl hclone
  cases huse

/-- Behind 32767 users the count is negative, and the page cannot be given back. -/
theorem sharedPage_overflow :
    ¬ (sharedPage 32767).CloneFreeRight initPageDirectory initPageDirectory := by
  rintro ⟨s₁, dst', s', hclone, hfree, -⟩
  obtain ⟨dst, hspare, hne, halloc⟩ := @sharedPage_alloc 32767
  obtain ⟨rfl, m₁, huse, hloop⟩ := sharedPage_started hne halloc rfl hclone
  have hframe := @sharedPage_granted dst' 32767 hspare
  generalize hm : ((sharedPage 32767).setPhysDir 5120 PHYS_DIR_KERNEL).setHeap dst'
    (newEntry gfpKernel 5120) = m at huse hframe
  have hentries : m.entries = (sharedPage 32767).entries := by rw [← hm]; rfl
  have hphys : m.physDir 4 = 32767 := by rw [← hm]; rfl
  have hcr3 : m.cr3 = initPageDirectory := by rw [← hm]; rfl
  generalize hm₂ : (m.setEntry dst' 0 (newEntry gfpUserLarge 4096).cloned).setEntry
    initPageDirectory 0 (newEntry gfpUserLarge 4096).cloned = m₂ at huse
  have hphys₂ : m₂.physDir 4 = 32767 := by rw [← hm₂]; exact hphys
  have hcr3₂ : m₂.cr3 = initPageDirectory := by rw [← hm₂]; exact hcr3
  have hframe₂ : m₂.frameAt dst' = 5120 := by rw [← hm₂]; exact hframe
  have hcells : ∀ f i, m₂.entries f i =
      if f = initPageDirectory ∧ i = 0 then (newEntry gfpUserLarge 4096).cloned
      else if f = 5120 ∧ i = 0 then (newEntry gfpUserLarge 4096).cloned
      else (sharedPage 32767).entries f i := by
    intro f i
    rw [← hm₂, entries_setEntry, entries_setEntry, hframe, hentries]
    rfl
  have hcount : (32767 + 1 : Int).bmod (2 ^ 16) = -32768 := by decide
  rw [usePhysMem_shared hphys₂ (by decide), hcount] at huse
  cases huse
  have habsent : ∀ i ∈ (List.range 1023).map Nat.succ,
      ((m₂.setPhysDir 4 (-32768)).entry initPageDirectory i).present = false := by
    intro i hi
    have hi0 : i ≠ 0 := fun heq => zero_not_mem_succ (heq ▸ hi)
    have hread : m₂.entries initPageDirectory i = .zero := by
      rw [hcells, if_neg fun h => hi0 h.2, if_neg fun h => hi0 h.2, sharedPage_entries hi0]
    exact congrArg Entry.present hread
  have hapart : (m₂.setPhysDir 4 (-32768)).frameAt initPageDirectory ≠
      (m₂.setPhysDir 4 (-32768)).frameAt dst' := by
    rw [show (m₂.setPhysDir 4 (-32768)).frameAt dst' = 5120 from hframe₂,
      show (m₂.setPhysDir 4 (-32768)).frameAt initPageDirectory = initPageDirectory from if_pos rfl]
    decide
  obtain ⟨m', hclone', hphys', -, hcr3', hdst⟩ := cloneEntries_absent hapart habsent
  cases hclone'.symm.trans hloop
  refine freeDirectory_corrupted (hcr3'.trans hcr3₂) ?_ ?_ hfree
  · rw [hdst 0 zero_not_mem_succ]
    refine (congrArg (fun f => m₂.entries f 0) hframe₂).trans ?_
    rw [hcells, if_neg (by decide), if_pos ⟨rfl, rfl⟩]
  · rw [hphys', setPhysDir_self]

/-- With as many users as can be counted, or for a page of the kernel. -/
theorem sharedPage_wrong :
    ¬ (sharedPage 32767).CloneFreeRight initPageDirectory initPageDirectory ∧
      ¬ (sharedPage PHYS_DIR_KERNEL).CloneFreeRight initPageDirectory initPageDirectory :=
  ⟨sharedPage_overflow, sharedPage_kernel⟩

end Memory
end Paging
end JkxyKernel
