import JkxyKernel.Paging.Directories
import JkxyKernel.Paging.Ledger

/-!
# Cloning an address space

`clone_directory` goes through the directory and its page tables.  It counts one more use of the
frame of every page, marks the pages that are not shared as copy-on-write if they are writable,
and makes a page table for the clone where it finds a page.

What it finds is what was there before: pages are marked after they are read, and marking them
twice is marking them once.
-/

namespace JkxyKernel
namespace Paging

namespace Entry

variable {e e' : Entry}

/-- The entries differ in `rw` and `PAGE_COW_RO` at most, and are cloned alike. -/
structure Alike (e e' : Entry) : Prop where
  present : e'.present = e.present
  user : e'.user = e.user
  size : e'.size = e.size
  addr : e'.addr = e.addr
  cloned : e'.cloned = e.cloned

theorem alike_refl (e : Entry) : e.Alike e := ⟨rfl, rfl, rfl, rfl, rfl⟩

theorem alike_cloned (e : Entry) : e.Alike e.cloned := by
  cases hwritable : e.rw && !e.shared with
  | false =>
      have hsame : e.cloned = e := if_neg (by rw [hwritable]; exact Bool.false_ne_true)
      rw [hsame]
      exact alike_refl e
  | true =>
      have hmarked : e.cloned = { e with rw := false, cow := true } := if_pos hwritable
      rw [hmarked]
      exact ⟨rfl, rfl, rfl, rfl, hmarked.symm ▸ rfl⟩

namespace Alike

variable (h : e.Alike e')

include h

theorem isTable : e'.isTable = e.isTable := by
  rw [Entry.isTable, Entry.isTable, h.present, h.user, h.size]

theorem isLarge : e'.isLarge = e.isLarge := by
  rw [Entry.isLarge, Entry.isLarge, h.present, h.user, h.size]

end Alike

theorem isTable_of_isLarge (h : e.isLarge = true) : e.isTable = false := by
  rw [isTable, (isLarge_iff.mp h).2.2, Bool.not_true, Bool.and_false]

/-- The page table that the entry leads to. -/
def tables (e : Entry) : List Nat := if e.isTable then [e.addr] else []

end Entry

namespace Memory

variable {s m m' : Memory} {G G' : List (Nat × Nat)} {L : List Nat} {gfp : Gfp} {e : Entry}
  {src dst root d table t p q f frame i j : Nat} {is js : List Nat}

/-! ### What a directory holds -/

/-- The frames that these entries of a page table map. -/
def tableHoldings (row : Nat → Entry) (js : List Nat) : List Nat :=
  (js.filter fun j => (row j).present).map fun j => (row j).addr

/-- The entries of `phys_dir` for the pages that an entry of a directory maps. -/
def holdings (s : Memory) (e : Entry) : List Nat :=
  if e.isTable then tableHoldings (s.entries e.addr) (List.range numEntries)
  else if e.isLarge then [e.addr / gfpUserLarge.pages]
  else []

/-- The same, for entries of the directory that lies in a frame. -/
def held (s : Memory) (root : Nat) (is : List Nat) : List Nat :=
  is.flatMap fun i => s.holdings (s.entries root i)

/-- The entry leads to a page table with a page. -/
def hasPage (s : Memory) (e : Entry) : Bool :=
  e.isTable && (List.range numEntries).any fun j => (s.entries e.addr j).present

/-- The page tables that a clone of these entries has. -/
def tableCount (s : Memory) (root : Nat) (is : List Nat) : Nat :=
  (is.map fun i => (s.hasPage (s.entries root i)).toNat).sum

theorem tableHoldings_cons_present {row : Nat → Entry} (h : (row j).present = true) :
    tableHoldings row (j :: js) = (row j).addr :: tableHoldings row js := by
  rw [tableHoldings, List.filter_cons_of_pos (p := fun j => (row j).present) h]
  rfl

theorem tableHoldings_cons_absent {row : Nat → Entry} (h : (row j).present = false) :
    tableHoldings row (j :: js) = tableHoldings row js := by
  have hnot : ¬ (row j).present = true := by
    rw [h]
    exact Bool.false_ne_true
  rw [tableHoldings, List.filter_cons_of_neg (p := fun j => (row j).present) hnot]
  rfl

theorem tableHoldings_congr {row row' : Nat → Entry}
    (hpresent : ∀ j ∈ js, (row' j).present = (row j).present)
    (haddr : ∀ j ∈ js, (row j).present = true → (row' j).addr = (row j).addr) :
    tableHoldings row' js = tableHoldings row js := by
  induction js with
  | nil => rfl
  | cons j js ih =>
      have hrest := ih (fun j' hj' => hpresent j' (List.mem_cons_of_mem _ hj'))
        fun j' hj' => haddr j' (List.mem_cons_of_mem _ hj')
      have hfirst := hpresent j List.mem_cons_self
      cases h : (row j).present with
      | true =>
          rw [tableHoldings_cons_present h, tableHoldings_cons_present (hfirst.trans h), hrest,
            haddr j List.mem_cons_self h]
      | false =>
          rw [tableHoldings_cons_absent h, tableHoldings_cons_absent (hfirst.trans h), hrest]

theorem holdings_of_table (h : e.isTable = true) :
    s.holdings e = tableHoldings (s.entries e.addr) (List.range numEntries) := if_pos h

theorem holdings_of_large (h : e.isLarge = true) :
    s.holdings e = [e.addr / gfpUserLarge.pages] := by
  rw [holdings, if_neg (by rw [Entry.isTable_of_isLarge h]; exact Bool.false_ne_true), if_pos h]

/-- Entries that map nothing for user programs hold nothing. -/
theorem holdings_of_not (h : e.present = false ∨ e.user = false) :
    s.holdings e = [] ∧ e.tables = [] ∧ s.hasPage e = false := by
  have htable : e.isTable = false := by
    rw [Entry.isTable]
    rcases h with h | h <;> simp only [h, Bool.false_and, Bool.and_false]
  have hlarge : e.isLarge = false := by
    rw [Entry.isLarge]
    rcases h with h | h <;> simp only [h, Bool.false_and, Bool.and_false]
  refine ⟨?_, ?_, ?_⟩
  · rw [holdings, htable, hlarge]
    rfl
  · rw [Entry.tables, htable]
    rfl
  · rw [hasPage, htable, Bool.false_and]

/-! ### What is written -/

/-- The entry of a directory or table maps a page of the user program. -/
def IsPage (s : Memory) (root frame j : Nat) : Prop :=
  frame = root ∧ (s.entries root j).isLarge = true ∨
    ∃ i < numEntries, (s.entries root i).isTable = true ∧ (s.entries root i).addr = frame ∧
      (s.entries frame j).present = true

/-- In the frames that were in use, entries are as they were, but for pages of the directory that
may be marked. -/
def Kept (s m : Memory) (root : Nat) : Prop :=
  ∀ frame ∉ s.freeFrames, ∀ j, m.entries frame j = s.entries frame j ∨
    s.IsPage root frame j ∧ m.entries frame j = (s.entries frame j).cloned

/-- A pointer to a frame that was in use. -/
def Located (s : Memory) (p frame : Nat) : Prop :=
  p = initPageDirectory ∧ frame = initPageDirectory ∨ s.MapsTo p frame

/-- In the frames that are granted, nothing is written but some entries of one of them. -/
def Untouched (m m' : Memory) (G : List (Nat × Nat)) (frame : Nat) (js : List Nat) : Prop :=
  ∀ g ∈ G, ∀ j, (g.2 = frame → j ∉ js) → m'.entries g.2 j = m.entries g.2 j

theorem entries_setEntry :
    (s.setEntry p i e).entries f j = if f = s.frameAt p ∧ j = i then e else s.entries f j := by
  refine (@getCell_setCell s (.entry (s.frameAt p) i) (.entry f j) e).trans ?_
  by_cases hcell : f = s.frameAt p ∧ j = i
  · rw [if_pos hcell, if_pos (by rw [hcell.1, hcell.2])]
  · rw [if_neg hcell, if_neg fun heq => hcell (Cell.entry.inj heq)]
    rfl

theorem Kept.alike (h : s.Kept m root) (hframe : frame ∉ s.freeFrames) (j : Nat) :
    (s.entries frame j).Alike (m.entries frame j) := by
  rcases h frame hframe j with heq | ⟨-, heq⟩
  · rw [heq]
    exact Entry.alike_refl _
  · rw [heq]
    exact Entry.alike_cloned _

theorem Ledger.frameAt_located (h : Ledger s m G L) (hp : s.Located p frame) :
    m.frameAt p = frame := by
  rcases hp with ⟨rfl, rfl⟩ | hmaps
  · exact if_pos rfl
  · exact (h.mapsTo_of hmaps).frameAt

/-- The books while a directory is cloned. -/
structure Cloning (s m : Memory) (root : Nat) (G : List (Nat × Nat)) (L : List Nat) : Prop
    extends Ledger s m G L where
  marked : s.Kept m root
  cr3 : m.cr3 = s.cr3
  data : m.data = s.data

namespace Cloning

variable (h : Cloning s m root G L)

include h

theorem entry (hp : s.Located p frame) : m.entry p j = m.entries frame j := by
  rw [Memory.entry, h.frameAt_located hp]

/-- A frame that is granted is written. -/
theorem write (hg : (q, f) ∈ G) : Cloning s (m.setEntry q j e) root G L where
  toLedger := h.toLedger.congr rfl rfl
  marked frame hframe j' := by
    have hne : frame ≠ m.frameAt q := by
      rintro rfl
      exact hframe ((h.frameAt hg).symm ▸ h.free _ hg)
    rw [entries_setEntry, if_neg fun hcell => hne hcell.1]
    exact h.marked frame hframe j'
  cr3 := h.cr3
  data := h.data

/-- A page is marked. -/
theorem mark (hp : s.Located p frame) (hframe : frame ∉ s.freeFrames)
    (hpage : s.IsPage root frame j) :
    Cloning s (m.setEntry p j (m.entries frame j).cloned) root G L where
  toLedger := h.toLedger.congr rfl rfl
  marked frame' hframe' j' := by
    rw [entries_setEntry, h.frameAt_located hp]
    by_cases hcell : frame' = frame ∧ j' = j
    · rw [if_pos hcell, hcell.1, hcell.2]
      exact .inr ⟨hpage, (h.marked.alike hframe j).cloned⟩
    · rw [if_neg hcell]
      exact h.marked frame' hframe' j'
  cr3 := h.cr3
  data := h.data

/-- A use is counted. -/
theorem count (huser : gfp.user = true) (hcount : s.Countable (L ++ [frame / gfp.pages])) :
    ∃ m', m.usePhysMem frame gfp = .ok m' ∧ m'.entries = m.entries ∧
      Cloning s m' root G (L ++ [frame / gfp.pages]) := by
  obtain ⟨n, huse, hledger⟩ := h.toLedger.use huser hcount
  exact ⟨_, huse, rfl, hledger, h.marked, h.cr3, h.data⟩

/-- A page is cloned: its entry is marked and copied, and the use is counted. -/
theorem copy (hg : (q, f) ∈ G) (hp : s.Located p frame) (hframe : frame ∉ s.freeFrames)
    (hpage : s.IsPage root frame j) (huser : gfp.user = true)
    (hcount : s.Countable (L ++ [(s.entries frame j).addr / gfp.pages])) :
    ∃ m', ((m.setEntry q j (m.entry p j).cloned).setEntry p j (m.entry p j).cloned).usePhysMem
        (m.entry p j).addr gfp = .ok m' ∧
      Cloning s m' root G (L ++ [(s.entries frame j).addr / gfp.pages]) ∧
      m'.entries f j = (s.entries frame j).cloned ∧ Untouched m m' G f [j] := by
  have halike := h.marked.alike hframe j
  have hne : ∀ g ∈ G, g.2 ≠ frame := by
    rintro g hg rfl
    exact hframe (h.free g hg)
  rw [h.entry hp]
  have hwrite := h.write (j := j) (e := (m.entries frame j).cloned) hg
  have hsame : (m.setEntry q j (m.entries frame j).cloned).entries frame j = m.entries frame j := by
    rw [entries_setEntry, h.frameAt hg, if_neg fun hcell => hne _ hg hcell.1.symm]
  have hmark := hwrite.mark hp hframe hpage
  rw [hsame] at hmark
  rw [← halike.addr] at hcount
  obtain ⟨m', huse, hentries, hclone⟩ := hmark.count huser hcount
  rw [halike.addr] at hclone
  have hrows : ∀ g ∈ G, ∀ j', m'.entries g.2 j' =
      if g.2 = f ∧ j' = j then (m.entries frame j).cloned else m.entries g.2 j' := by
    intro g hg' j'
    rw [hentries, entries_setEntry, hwrite.frameAt_located hp, if_neg fun hcell => hne g hg' hcell.1,
      entries_setEntry, h.frameAt hg]
  refine ⟨m', huse, hclone, ?_, fun g hg' j' hnot => ?_⟩
  · rw [hrows _ hg, if_pos ⟨rfl, rfl⟩, halike.cloned]
  · rw [hrows g hg', if_neg fun hcell => hnot hcell.1 (List.mem_singleton.mpr hcell.2)]

/-- A page table is made for the clone, and is empty. -/
theorem make (hd : (dst, d) ∈ G) (hzero : s.physDir 0 ≠ PHYS_DIR_UNUSED)
    (hroom : s.Room (G.length + 1)) :
    ∃ q f m', m.mkUserTable dst i = .ok (m', q) ∧ q ≠ 0 ∧ Cloning s m' root (G ++ [(q, f)]) L ∧
      m'.entries d i = newEntry gfpUser f ∧ (∀ j, m'.entries f j = .zero) ∧
      Untouched m m' G d [i] := by
  have hdst : ∀ p, m.Spare p → dst ≠ p := by
    rintro p hp rfl
    exact (h.spare_iff.mp hp).2 (List.mem_map_of_mem hd)
  rcases @mkUserTable_total m dst d i (h.zero hzero) (h.frameAt hd) hdst with
    ⟨hnone, -⟩ | ⟨q, hspare, f, hf, hq, hmake⟩
  · exact absurd (h.available hroom) hnone
  · obtain ⟨hfree, hnew⟩ := h.mem_freeFrames_iff.mp hf
    have hne : ∀ g ∈ G, g.2 ≠ f := by
      rintro g hg rfl
      exact hnew (List.mem_map_of_mem hg)
    refine ⟨q, f, _, hmake, hq, ⟨h.toLedger.grant hspare hf rfl rfl, fun frame hframe j => ?_,
      h.cr3, h.data⟩, entries_withTable.trans (if_pos ⟨rfl, rfl⟩),
      fun j => getCell_withTable_new (hne _ hd), fun g hg j hnot => ?_⟩
    · have hother : frame ≠ f ∧ frame ≠ d :=
        ⟨fun heq => hframe (heq ▸ hfree), fun heq => hframe (heq ▸ h.free _ hd)⟩
      rw [entries_withTable, if_neg fun hcell => hother.2 hcell.1, if_neg hother.1]
      exact h.marked frame hframe j
    · rw [entries_withTable, if_neg fun hcell => hnot hcell.1 (List.mem_singleton.mpr hcell.2),
        if_neg (hne g hg)]

end Cloning

/-! ### Page tables -/

/-- The page table is made at the first page. -/
theorem cloneTable_make {rest : List Nat} (hpresent : (m.entry table j).present = true)
    (hmake : m.mkUserTable dst i = .ok (m', q)) (hq : q ≠ 0)
    (hpresent' : (m'.entry table j).present = true) :
    cloneTable table dst i (j :: rest) 0 m = cloneTable table dst i (j :: rest) q m' := by
  rw [cloneTable, cloneTable, if_pos hpresent, if_pos hpresent', if_pos rfl, hmake, if_neg hq]

section Table

variable (htable : s.Located table t) (ht : t ∉ s.freeFrames)
  (hpage : ∀ j ∈ js, (s.entries t j).present = true → s.IsPage root t j)

include htable ht hpage

/-- The pages of a page table are cloned into a page table that there is; by induction on the
entries that are left. -/
theorem cloneTable_into (h : Cloning s m root G L) (hg : (q, f) ∈ G) (hnodup : js.Nodup)
    (hcount : s.Countable (L ++ tableHoldings (s.entries t) js)) :
    ∃ m', cloneTable table dst i js q m = .ok m' ∧
      Cloning s m' root G (L ++ tableHoldings (s.entries t) js) ∧
      (∀ j ∈ js, m'.entries f j =
        if (s.entries t j).present then (s.entries t j).cloned else m.entries f j) ∧
      Untouched m m' G f js := by
  induction js generalizing m L with
  | nil =>
      refine ⟨m, rfl, ?_, nofun, fun _ _ _ _ => rfl⟩
      rw [show tableHoldings (s.entries t) [] = [] from rfl, List.append_nil]
      exact h
  | cons j js ih =>
      obtain ⟨hj, hnodup⟩ := List.nodup_cons.mp hnodup
      have hsub : ∀ j' ∈ js, (s.entries t j').present = true → s.IsPage root t j' :=
        fun j' hj' => hpage j' (List.mem_cons_of_mem _ hj')
      have hq : q ≠ 0 := by
        rintro rfl
        exact absurd (show isHeapPage 0 = true from (h.spare _ hg).inHeap) (by decide)
      have hread : (m.entry table j).present = (s.entries t j).present := by
        rw [h.entry htable, (h.marked.alike ht j).present]
      rw [cloneTable, hread]
      cases hpresent : (s.entries t j).present with
      | false =>
          rw [tableHoldings_cons_absent hpresent] at hcount ⊢
          obtain ⟨m', hclone, h', hrow, huntouched⟩ := ih hsub h hnodup hcount
          refine ⟨m', hclone, h', fun j' hj' => ?_, fun g hg' j' hnot => huntouched g hg' j' fun heq =>
            List.not_mem_of_not_mem_cons (hnot heq)⟩
          rcases List.mem_cons.mp hj' with rfl | hj'
          · rw [hpresent]
            exact huntouched _ hg j' fun _ => hj
          · exact hrow j' hj'
      | true =>
          have hone : (s.entries t j).addr / gfpUser.pages = (s.entries t j).addr := Nat.div_one _
          have hsplit : L ++ (s.entries t j).addr :: tableHoldings (s.entries t) js =
              L ++ [(s.entries t j).addr] ++ tableHoldings (s.entries t) js := by
            rw [List.append_assoc, List.singleton_append]
          rw [tableHoldings_cons_present hpresent, hsplit] at hcount ⊢
          obtain ⟨m₁, huse, h₁, hcopied, huntouched⟩ := h.copy hg htable ht
            (hpage j List.mem_cons_self hpresent) (show gfpUser.user = true from rfl)
            (by rw [hone]; exact hcount.of_append)
          rw [hone] at h₁
          obtain ⟨m', hclone, h', hrow, huntouched'⟩ := ih hsub h₁ hnodup hcount
          refine ⟨m', ?_, h', fun j' hj' => ?_, fun g hg' j' hnot => ?_⟩
          · rw [if_pos rfl, if_neg hq]
            refine Machine.bind_eq_ok_iff.mpr ⟨(m, q), rfl, (if_neg hq).trans ?_⟩
            exact Machine.bind_eq_ok_iff.mpr ⟨m₁, huse, hclone⟩
          · by_cases heq : j' = j
            · rw [heq, huntouched' _ hg j fun _ => hj, hcopied, if_pos hpresent]
            · have hj' := List.mem_of_ne_of_mem heq hj'
              rw [hrow j' hj', huntouched _ hg j' fun _ hmem => heq (List.mem_singleton.mp hmem)]
          · rw [huntouched' g hg' j' fun heq => List.not_mem_of_not_mem_cons (hnot heq),
              huntouched g hg' j' fun heq hmem => hnot heq (List.mem_singleton.mp hmem ▸
                List.mem_cons_self)]

/-- The pages of a page table are cloned, into a new page table if there are any; by induction on
the entries that are left. -/
theorem cloneTable_lazy (h : Cloning s m root G L) (hd : (dst, d) ∈ G)
    (hzero : s.physDir 0 ≠ PHYS_DIR_UNUSED) (hnodup : js.Nodup)
    (hcount : s.Countable (L ++ tableHoldings (s.entries t) js))
    (hroom : (∃ j ∈ js, (s.entries t j).present = true) → s.Room (G.length + 1)) :
    ((∀ j ∈ js, (s.entries t j).present = false) ∧ cloneTable table dst i js 0 m = .ok m) ∨
      (∃ j ∈ js, (s.entries t j).present = true) ∧ ∃ q f m',
        cloneTable table dst i js 0 m = .ok m' ∧
        Cloning s m' root (G ++ [(q, f)]) (L ++ tableHoldings (s.entries t) js) ∧
        m'.entries d i = newEntry gfpUser f ∧
        (∀ j ∈ js, m'.entries f j =
          if (s.entries t j).present then (s.entries t j).cloned else .zero) ∧
        (∀ j, j ∉ js → m'.entries f j = .zero) ∧ Untouched m m' G d [i] := by
  induction js with
  | nil => exact .inl ⟨nofun, rfl⟩
  | cons j js ih =>
      have hsub : ∀ j' ∈ js, (s.entries t j').present = true → s.IsPage root t j' :=
        fun j' hj' => hpage j' (List.mem_cons_of_mem _ hj')
      obtain ⟨hj, hnodup'⟩ := List.nodup_cons.mp hnodup
      have hread : (m.entry table j).present = (s.entries t j).present := by
        rw [h.entry htable, (h.marked.alike ht j).present]
      cases hpresent : (s.entries t j).present with
      | false =>
          have hskip : cloneTable table dst i (j :: js) 0 m = cloneTable table dst i js 0 m := by
            rw [cloneTable, hread, hpresent]
            rfl
          rw [tableHoldings_cons_absent hpresent] at hcount ⊢
          rw [hskip]
          rcases ih hsub hnodup' hcount fun ⟨j', hj', hp⟩ =>
              hroom ⟨j', List.mem_cons_of_mem _ hj', hp⟩ with
            ⟨hnone, hclone⟩ | ⟨⟨j', hj', hp⟩, q, f, m', hclone, h', hentry, hrow, hother, huntouched⟩
          · exact .inl ⟨List.forall_mem_cons.mpr ⟨hpresent, hnone⟩, hclone⟩
          · refine .inr ⟨⟨j', List.mem_cons_of_mem _ hj', hp⟩, q, f, m', hclone, h', hentry,
              List.forall_mem_cons.mpr ⟨?_, hrow⟩,
              fun j' hj' => hother j' (List.not_mem_of_not_mem_cons hj'), huntouched⟩
            rw [hpresent]
            exact hother j hj
      | true =>
          have hex : ∃ j' ∈ j :: js, (s.entries t j').present = true :=
            ⟨j, List.mem_cons_self, hpresent⟩
          obtain ⟨q, f, m₁, hmake, hq, h₁, hentry, hempty, huntouched⟩ :=
            h.make hd hzero (hroom hex)
          have hread' : (m₁.entry table j).present = (s.entries t j).present := by
            rw [h₁.entry htable, (h₁.marked.alike ht j).present]
          rw [cloneTable_make (hread.trans hpresent) hmake hq (hread'.trans hpresent)]
          have hnew : (q, f) ∈ G ++ [(q, f)] := List.mem_append_right _ (List.mem_singleton_self _)
          have hne : ∀ g ∈ G, g.2 ≠ f := by
            rintro g hg rfl
            have hframes := h₁.frames
            rw [List.map_append] at hframes
            exact (List.nodup_append.mp hframes).2.2 _ (List.mem_map_of_mem hg) _
              (List.mem_singleton_self _) rfl
          obtain ⟨m', hclone, h', hrow, huntouched'⟩ :=
            cloneTable_into htable ht hpage h₁ hnew hnodup hcount
          have hkept : ∀ g ∈ G, ∀ j', m'.entries g.2 j' = m₁.entries g.2 j' := fun g hg j' =>
            huntouched' g (List.mem_append_left _ hg) j' fun heq => absurd heq (hne g hg)
          refine .inr ⟨hex, q, f, m', hclone, h', ?_, fun j' hj' => ?_, fun j' hj' => ?_,
            fun g hg j' hnot => ?_⟩
          · rw [hkept _ hd i, hentry]
          · rw [hrow j' hj', hempty j']
          · rw [huntouched' _ hnew j' fun _ => hj', hempty j']
          · rw [hkept g hg j', huntouched g hg j' hnot]

end Table

/-! ### Directories -/

/-- A directory that can be cloned lies in a frame that is in use, and its page tables are found
through the kernel heap. -/
structure Clonable (s : Memory) (src root : Nat) : Prop where
  zero : s.physDir 0 ≠ PHYS_DIR_UNUSED
  heap : s.HeapSound
  init : initPageDirectory ∉ s.freeFrames
  current : ∃ dir, s.currentPageDirectory = .ok dir
  located : s.Located src root
  tables : ∀ i < numEntries, (s.entries root i).isTable = true →
    ∃ p, s.MapsTo p (s.entries root i).addr
  kept : ∀ i < numEntries, (s.entries root i).present = true →
    (s.entries root i).size = false → (s.entries root i).addr ∉ s.freeFrames

theorem Clonable.located_kept (hs : s.Clonable src root) (hp : s.Located p frame) :
    frame ∉ s.freeFrames := by
  rcases hp with ⟨-, rfl⟩ | hmaps
  · exact hs.init
  · exact hs.heap.kept _ _ hmaps

theorem Clonable.root_kept (hs : s.Clonable src root) : root ∉ s.freeFrames :=
  hs.located_kept hs.located

/-- Some entries of a directory are copied, with new page tables. -/
structure Copied (s m m' : Memory) (root d : Nat) (G T : List (Nat × Nat)) (L is : List Nat) :
    Prop where
  cloning : Cloning s m' root (G ++ T) (L ++ s.held root is)
  length : T.length = s.tableCount root is
  tables : T.map Prod.snd = is.flatMap fun i => (m'.entries d i).tables
  held : m'.held d is = s.held root is
  untouched : Untouched m m' G d is

section Entries

variable {T T' : List (Nat × Nat)} {m₁ m₂ : Memory}

theorem held_cons : s.held root (i :: is) = s.holdings (s.entries root i) ++ s.held root is :=
  List.flatMap_cons

theorem tableCount_cons :
    s.tableCount root (i :: is) = (s.hasPage (s.entries root i)).toNat + s.tableCount root is :=
  List.sum_cons

/-- One entry. -/
theorem copied_one (h : Cloning s m' root (G ++ T) (L ++ s.holdings (s.entries root i)))
    (hlength : T.length = (s.hasPage (s.entries root i)).toNat)
    (htables : T.map Prod.snd = (m'.entries d i).tables)
    (hheld : m'.holdings (m'.entries d i) = s.holdings (s.entries root i))
    (huntouched : Untouched m m' G d [i]) : Copied s m m' root d G T L [i] where
  cloning := by
    rw [held_cons, show s.held root [] = [] from rfl, List.append_nil]
    exact h
  length := hlength
  tables := by rw [List.flatMap_singleton, htables]
  held := by
    rw [held_cons, held_cons, hheld]
    rfl
  untouched := huntouched

/-- An entry that maps nothing for user programs. -/
theorem copied_skip (h : Cloning s m root G L) (hd : (dst, d) ∈ G)
    (hnone : (s.entries root i).present = false ∨ (s.entries root i).user = false)
    (he : e.present = false ∨ e.user = false) :
    Copied s m (m.setEntry dst i e) root d G [] L [i] := by
  obtain ⟨hheld, -, hpage⟩ := @holdings_of_not s _ hnone
  have hentry : (m.setEntry dst i e).entries d i = e := by
    rw [entries_setEntry, h.frameAt hd, if_pos ⟨rfl, rfl⟩]
  obtain ⟨hheld', htables, -⟩ := @holdings_of_not (m.setEntry dst i e) _ he
  refine copied_one ?_ ?_ ?_ ?_ fun g hg j hnot => ?_
  · rw [hheld, List.append_nil, List.append_nil]
    exact h.write hd
  · rw [hpage]
    rfl
  · rw [hentry, htables]
    rfl
  · rw [hentry, hheld, hheld']
  · rw [entries_setEntry, h.frameAt hd, if_neg fun hcell => hnot hcell.1
      (List.mem_singleton.mpr hcell.2)]

/-- The entry of a large page. -/
theorem copied_large (hlarge : (s.entries root i).isLarge = true)
    (hclone : Cloning s m' root G (L ++ [(s.entries root i).addr / gfpUserLarge.pages]))
    (hcopied : m'.entries d i = (s.entries root i).cloned)
    (huntouched : Untouched m m' G d [i]) : Copied s m m' root d G [] L [i] := by
  have halike := Entry.alike_cloned (s.entries root i)
  have hlarge' : (s.entries root i).cloned.isLarge = true := halike.isLarge.trans hlarge
  have htable := Entry.isTable_of_isLarge hlarge
  refine copied_one ?_ ?_ ?_ ?_ huntouched
  · rw [holdings_of_large hlarge, List.append_nil]
    exact hclone
  · rw [hasPage, htable]
    rfl
  · rw [hcopied, Entry.tables, halike.isTable, htable]
    rfl
  · rw [hcopied, holdings_of_large hlarge', holdings_of_large hlarge, halike.addr]

/-- The entry of a page table, all of which is cloned. -/
theorem copied_table (htable : (s.entries root i).isTable = true)
    (hclone : Cloning s m' root (G ++ [(q, f)]) (L ++ s.holdings (s.entries root i)))
    (hpage : s.hasPage (s.entries root i) = true) (hentry : m'.entries d i = newEntry gfpUser f)
    (hrow : ∀ j ∈ List.range numEntries, m'.entries f j =
      if (s.entries (s.entries root i).addr j).present then
        (s.entries (s.entries root i).addr j).cloned else .zero)
    (huntouched : Untouched m m' G d [i]) : Copied s m m' root d G [(q, f)] L [i] := by
  have hnew : (newEntry gfpUser f).isTable = true := rfl
  refine copied_one hclone ?_ ?_ ?_ huntouched
  · rw [hpage]
    rfl
  · rw [hentry]
    rfl
  · rw [hentry, holdings_of_table hnew, holdings_of_table htable]
    refine tableHoldings_congr (fun j hj => ?_) fun j hj hpresent => ?_
    · refine (congrArg Entry.present (hrow j hj)).trans ?_
      cases hpresent : (s.entries (s.entries root i).addr j).present with
      | false => rfl
      | true => rw [if_pos rfl, (Entry.alike_cloned _).present, hpresent]
    · refine (congrArg Entry.addr (hrow j hj)).trans ?_
      rw [if_pos hpresent, (Entry.alike_cloned _).addr]

/-- The entry of a page table without pages. -/
theorem copied_empty (htable : (s.entries root i).isTable = true) (h : Cloning s m' root G L)
    (hnone : ∀ j ∈ List.range numEntries, (s.entries (s.entries root i).addr j).present = false)
    (hentry : m'.entries d i = .zero) (huntouched : Untouched m m' G d [i]) :
    Copied s m m' root d G [] L [i] := by
  obtain ⟨hheld', htables, -⟩ := @holdings_of_not m' .zero (.inl rfl)
  have hheld : s.holdings (s.entries root i) = [] := by
    rw [holdings_of_table htable, tableHoldings, List.filter_eq_nil_iff.mpr fun j hj => by
      rw [hnone j hj]
      exact Bool.false_ne_true]
    rfl
  refine copied_one ?_ ?_ ?_ ?_ huntouched
  · rw [hheld, List.append_nil, List.append_nil]
    exact h
  · rw [hasPage, List.any_eq_false.mpr fun j hj => by rw [hnone j hj]; exact Bool.false_ne_true,
      Bool.and_false]
    rfl
  · rw [hentry, htables]
    rfl
  · rw [hentry, hheld, hheld']

/-- The round of the loop for a page table. -/
theorem cloneTable_copied (hs : s.Clonable src root) (hi : i < numEntries)
    (htable : (s.entries root i).isTable = true) (h : Cloning s m root G L) (hd : (dst, d) ∈ G)
    (hcount : s.Countable (L ++ s.holdings (s.entries root i)))
    (hroom : s.Room (G.length + (s.hasPage (s.entries root i)).toNat)) :
    ∃ table m' T, (m.setEntry dst i .zero).findUserspacePageTable (m.entries root i) = .ok table ∧
      cloneTable table dst i (List.range numEntries) 0 (m.setEntry dst i .zero) = .ok m' ∧
      Copied s m m' root d G T L [i] := by
  generalize ht : (s.entries root i).addr = t
  obtain ⟨p, hp⟩ := hs.tables i hi htable
  rw [ht] at hp
  obtain ⟨table, hfound⟩ := heapPage_of_mapsTo hp
  have hkept : t ∉ s.freeFrames := hs.heap.kept p t hp
  have hwrite := h.write (j := i) (e := .zero) hd
  have hcleared : Untouched m (m.setEntry dst i .zero) G d [i] := fun g hg j hnot => by
    rw [entries_setEntry, h.frameAt hd, if_neg fun hcell => hnot hcell.1
      (List.mem_singleton.mpr hcell.2)]
  have hfind : (m.setEntry dst i .zero).findUserspacePageTable (m.entries root i) = .ok table := by
    rw [findUserspacePageTable, (h.marked.alike hs.root_kept i).addr, ht, hwrite.heapPage_eq hkept,
      hfound]
  have hpage : (s.hasPage (s.entries root i) = true) ↔
      ∃ j ∈ List.range numEntries, (s.entries t j).present = true := by
    rw [hasPage, htable, Bool.true_and, List.any_eq_true, ht]
  have hcount' := hcount
  rw [holdings_of_table htable, ht] at hcount'
  rcases cloneTable_lazy (.inr (mapsTo_of_heapPage hfound)) hkept
      (fun j _ hpresent => .inr ⟨i, hi, htable, ht, hpresent⟩) hwrite hd hs.zero List.nodup_range
      hcount' fun hex => by rw [hpage.mpr hex] at hroom; exact hroom with
    ⟨hnone, hclone⟩ | ⟨hex, q, f, m', hclone, h', hentry, hrow, -, huntouched⟩
  · refine ⟨table, _, [], hfind, hclone, copied_empty htable hwrite ?_ ?_ hcleared⟩
    · rw [ht]
      exact hnone
    · rw [entries_setEntry, h.frameAt hd, if_pos ⟨rfl, rfl⟩]
  · refine ⟨table, m', [(q, f)], hfind, hclone, copied_table htable ?_ (hpage.mpr hex) hentry ?_
      fun g hg j hnot => (huntouched g hg j hnot).trans (hcleared g hg j hnot)⟩
    · rw [holdings_of_table htable, ht]
      exact h'
    · rw [ht]
      exact hrow

/-- One round of the loop. -/
theorem cloneEntry_copied (hs : s.Clonable src root) (hi : i < numEntries)
    (h : Cloning s m root G L) (hd : (dst, d) ∈ G)
    (hcount : s.Countable (L ++ s.holdings (s.entries root i)))
    (hroom : s.Room (G.length + (s.hasPage (s.entries root i)).toNat)) :
    ∃ m' T, m.cloneEntry src dst i = .ok m' ∧ Copied s m m' root d G T L [i] := by
  have halike := h.marked.alike hs.root_kept i
  have hread : m.entry src i = m.entries root i := h.entry hs.located
  rw [cloneEntry]
  simp only [hread]
  cases hpresent : (m.entries root i).present with
  | false => exact ⟨_, [], rfl, copied_skip h hd (.inl (halike.present ▸ hpresent)) (.inl rfl)⟩
  | true =>
      cases huser : (m.entries root i).user with
      | false =>
          exact ⟨_, [], rfl, copied_skip h hd (.inr (halike.user ▸ huser)) (.inr huser)⟩
      | true =>
          cases hsize : (m.entries root i).size with
          | true =>
              have hlarge : (s.entries root i).isLarge = true := by
                rw [← halike.isLarge]
                exact Entry.isLarge_iff.mpr ⟨hpresent, huser, hsize⟩
              rw [holdings_of_large hlarge] at hcount
              obtain ⟨m', huse, hclone, hcopied, huntouched⟩ := h.copy hd hs.located hs.root_kept
                (.inl ⟨rfl, hlarge⟩) (show gfpUserLarge.user = true from rfl) hcount
              rw [hread] at huse
              exact ⟨m', [], huse, copied_large hlarge hclone hcopied huntouched⟩
          | false =>
              have htable : (s.entries root i).isTable = true := by
                rw [← halike.isTable]
                exact Entry.isTable_iff.mpr ⟨hpresent, huser, hsize⟩
              obtain ⟨table, m', T, hfind, hclone, hcopied⟩ :=
                cloneTable_copied hs hi htable h hd hcount hroom
              exact ⟨m', T, Machine.bind_eq_ok_iff.mpr ⟨table, hfind, hclone⟩, hcopied⟩

/-- Entries copied one after the other. -/
theorem Copied.cons (h : Copied s m m₁ root d G T L [i])
    (h' : Copied s m₁ m' root d (G ++ T) T' (L ++ s.holdings (s.entries root i)) is)
    (hd : (dst, d) ∈ G) (hi : i ∉ is) : Copied s m m' root d G (T ++ T') L (i :: is) := by
  have hone : s.held root [i] = s.holdings (s.entries root i) := by
    rw [held_cons]
    exact List.append_nil _
  have hentry : m'.entries d i = m₁.entries d i :=
    h'.untouched _ (List.mem_append_left _ hd) i fun _ => hi
  have htables : T.map Prod.snd = (m₁.entries d i).tables := by
    rw [h.tables, List.flatMap_singleton]
  have hframes := h.cloning.frames
  rw [List.map_append] at hframes
  have hkept : m'.holdings (m₁.entries d i) = m₁.holdings (m₁.entries d i) := by
    by_cases htable : (m₁.entries d i).isTable = true
    · have hmem : (m₁.entries d i).addr ∈ T.map Prod.snd := by
        rw [htables, Entry.tables, if_pos htable]
        exact List.mem_singleton_self _
      obtain ⟨g, hg, haddr⟩ := List.mem_map.mp hmem
      have hne : g.2 ≠ d := fun heq => (List.nodup_append.mp hframes).2.2 d
        (List.mem_map_of_mem hd) _ hmem (haddr ▸ heq.symm)
      have hrow : m'.entries (m₁.entries d i).addr = m₁.entries (m₁.entries d i).addr := by
        funext j
        rw [← haddr]
        exact h'.untouched g (List.mem_append_right _ hg) j fun heq => absurd heq hne
      rw [holdings_of_table htable, holdings_of_table htable, hrow]
    · rw [holdings, if_neg htable, holdings, if_neg htable]
  refine ⟨?_, ?_, ?_, ?_, fun g hg j hnot => ?_⟩
  · rw [held_cons, ← List.append_assoc, ← List.append_assoc]
    exact h'.cloning
  · rw [List.length_append, tableCount_cons, h.length, h'.length]
    rfl
  · rw [List.map_append, htables, h'.tables, List.flatMap_cons, hentry]
  · have hheld : m₁.holdings (m₁.entries d i) = s.holdings (s.entries root i) := by
      have hheld := h.held
      rw [hone, held_cons] at hheld
      exact (List.append_nil _).symm.trans hheld
    rw [held_cons, held_cons, hentry, hkept, hheld, h'.held]
  · rw [h'.untouched g (List.mem_append_left _ hg) j fun heq hj =>
        hnot heq (List.mem_cons_of_mem _ hj),
      h.untouched g hg j fun heq hj => hnot heq (List.mem_singleton.mp hj ▸ List.mem_cons_self)]

/-- The loop over the directory, by induction on the entries that are left. -/
theorem cloneEntries_copied (hs : s.Clonable src root) (his : ∀ i ∈ is, i < numEntries)
    (hnodup : is.Nodup) (h : Cloning s m root G L) (hd : (dst, d) ∈ G)
    (hcount : s.Countable (L ++ s.held root is))
    (hroom : s.Room (G.length + s.tableCount root is)) :
    ∃ m' T, cloneEntries src dst is m = .ok m' ∧ Copied s m m' root d G T L is := by
  induction is generalizing m G L with
  | nil =>
      refine ⟨m, [], rfl, ?_, rfl, rfl, rfl, fun _ _ _ _ => rfl⟩
      rw [show s.held root [] = [] from rfl, List.append_nil, List.append_nil]
      exact h
  | cons i is ih =>
      obtain ⟨hi, hnodup⟩ := List.nodup_cons.mp hnodup
      rw [held_cons, ← List.append_assoc] at hcount
      rw [tableCount_cons, ← Nat.add_assoc] at hroom
      obtain ⟨m₁, T, hclone, hcopied⟩ := cloneEntry_copied hs (his i List.mem_cons_self) h hd
        hcount.of_append (hroom.mono (Nat.le_add_right _ _))
      have hclone₁ := hcopied.cloning
      rw [held_cons, show s.held root [] = [] from rfl, List.append_nil] at hclone₁
      have hlength : (G ++ T).length = G.length + (s.hasPage (s.entries root i)).toNat := by
        rw [List.length_append, hcopied.length]
        rfl
      obtain ⟨m', T', hclone', hcopied'⟩ := ih (fun i' hi' => his i' (List.mem_cons_of_mem _ hi'))
        hnodup hclone₁ (List.mem_append_left _ hd) hcount (by rw [hlength]; exact hroom)
      exact ⟨m', T ++ T', Machine.bind_eq_ok_iff.mpr ⟨m₁, hclone, hclone'⟩,
        hcopied.cons hcopied' hd hi⟩

end Entries

/-- A page of the kernel heap is granted for the directory. -/
theorem cloneDirectory_eq (halloc : s.allocKernelPages 1 0 gfpKernel = .ok (m, dst)) (hne : dst ≠ 0) :
    s.cloneDirectory src =
      cloneEntries src dst (List.range numEntries) m >>= fun m' => .ok (m', dst) := by
  have halloc' : s.allocPages 1 0 gfpKernel = .ok (m, dst) := by
    rw [allocPages, if_pos (show (!gfpKernel.user) = true from rfl)]
    exact halloc
  rw [cloneDirectory, halloc']
  generalize List.range numEntries = is
  exact if_neg hne

/-- **Cloning.**  With enough memory a directory is cloned, and the books say what the clone
has. -/
theorem cloneDirectory_copied (hs : s.Clonable src root)
    (hcount : s.Countable (s.held root (List.range numEntries)))
    (hroom : s.Room (s.tableCount root (List.range numEntries) + 1)) :
    ∃ m₁ m' dst d T, s.cloneDirectory src = .ok (m', dst) ∧
      Copied s m₁ m' root d [(dst, d)] T [] (List.range numEntries) := by
  have hroom₁ : s.Room (([] : List (Nat × Nat)).length + 1) :=
    hroom.mono (Nat.succ_le_succ (Nat.zero_le _))
  rcases allocKernelPages_one hs.zero with ⟨hnone, -⟩ | ⟨dst, hspare, d, hd, hne, halloc⟩
  · exact absurd ((Ledger.refl s).available hroom₁) hnone
  · have hledger : Ledger s ((s.setPhysDir d PHYS_DIR_KERNEL).setHeap dst
        (newEntry gfpKernel d)) [(dst, d)] [] := (Ledger.refl s).grant hspare hd rfl rfl
    have hstart : Cloning s ((s.setPhysDir d PHYS_DIR_KERNEL).setHeap dst
        (newEntry gfpKernel d)) root [(dst, d)] [] := ⟨hledger, fun _ _ _ => .inl rfl, rfl, rfl⟩
    have hrange : ∀ i ∈ List.range numEntries, i < numEntries := fun i hi => List.mem_range.mp hi
    generalize hall : List.range numEntries = is at hcount hroom hrange ⊢
    have hnodup : is.Nodup := hall ▸ List.nodup_range
    have hroom' : s.Room ([(dst, d)].length + s.tableCount root is) := by
      rw [List.length_singleton, Nat.add_comm]
      exact hroom
    obtain ⟨m', T, hclone, hcopied⟩ := cloneEntries_copied hs hrange hnodup hstart
      (List.mem_singleton_self _) (by rw [List.nil_append]; exact hcount) hroom'
    refine ⟨_, m', dst, d, T, ?_, hcopied⟩
    rw [cloneDirectory_eq halloc hne, hall, hclone]
    rfl

end Memory
end Paging
end JkxyKernel
