import JkxyKernel.Paging.Outcomes

/-!
# The books of an address space

Between two moments pages of the kernel heap are granted, and uses of frames are counted.  What
is granted and counted since is kept in two lists.  Granting and counting add to the lists, and
giving back takes from them, in any order; with nothing left in the lists, `phys_dir` and
`heap_tables` are what they were.
-/

namespace JkxyKernel
namespace Paging
namespace Memory

variable {s m m' : Memory} {G G' : List (Nat × Nat)} {L L' : List Nat} {gfp : Gfp} {e : Entry}
  {p f frame idx k : Nat} {n : Int}

/-- These uses can be counted in 16 bits, of frames that user programs have. -/
def Countable (s : Memory) (L : List Nat) : Prop :=
  ∀ f ∈ L, 0 < s.physDir f ∧ s.physDir f + L.count f ≤ 32767

theorem Countable.of_append (h : s.Countable (L ++ L')) : s.Countable L := by
  intro f hf
  obtain ⟨hpos, hle⟩ := h f (List.mem_append_left _ hf)
  rw [List.count_append] at hle
  exact ⟨hpos, by omega⟩

theorem Countable.tail (h : s.Countable (f :: L)) : s.Countable L := by
  intro f' hf'
  obtain ⟨hpos, hle⟩ := h f' (List.mem_cons_of_mem _ hf')
  have hcount := List.count_le_count_cons (a := f') (b := f) (l := L)
  exact ⟨hpos, by omega⟩

/-- Of the kernel heap and the frames, there is enough for so many pages. -/
def Room (s : Memory) (k : Nat) : Prop :=
  k ≤ s.freeFrames.card ∧ ∃ pages : Finset Nat, (∀ p ∈ pages, s.Spare p) ∧ k ≤ pages.card

theorem Room.mono {l : Nat} (h : s.Room k) (hle : l ≤ k) : s.Room l := by
  obtain ⟨hframes, pages, hspare, hpages⟩ := h
  exact ⟨Nat.le_trans hle hframes, pages, hspare, Nat.le_trans hle hpages⟩

/-- The kernel heap maps no frame that is free, and what it does not map is `{0}`. -/
structure HeapSound (s : Memory) : Prop where
  kept : ∀ p frame, s.MapsTo p frame → frame ∉ s.freeFrames
  zero : ∀ p, isHeapPage p = true → (s.heapTables p).present = false → s.heapTables p = .zero

/-- The books since `s`: the pages of the kernel heap that are granted, with their frames, and the
uses of frames that are counted. -/
structure Ledger (s m : Memory) (G : List (Nat × Nat)) (L : List Nat) : Prop where
  pages : (G.map Prod.fst).Nodup
  frames : (G.map Prod.snd).Nodup
  spare : ∀ g ∈ G, s.Spare g.1
  free : ∀ g ∈ G, g.2 ∈ s.freeFrames
  granted : ∀ g ∈ G, m.heapTables g.1 = newEntry gfpKernel g.2
  heap : ∀ p, p ∉ G.map Prod.fst → m.heapTables p = s.heapTables p
  kernel : ∀ g ∈ G, m.physDir g.2 = PHYS_DIR_KERNEL
  counts : ∀ f, f ∉ G.map Prod.snd → m.physDir f = s.physDir f + L.count f
  countable : s.Countable L

theorem physDir_eq_unused (hf : f ∈ s.freeFrames) : s.physDir f = PHYS_DIR_UNUSED :=
  ((@mem_freeFrames_iff s f gfpKernel rfl).mp hf).unused

theorem low_of_mem_freeFrames (hf : f ∈ s.freeFrames) : physDirLargeNum ≤ f :=
  (Finset.mem_Ico.mp (Finset.mem_filter.mp hf).1).1

namespace Ledger

theorem refl (s : Memory) : Ledger s s [] [] where
  pages := .nil
  frames := .nil
  spare := nofun
  free := nofun
  granted := nofun
  heap _ _ := rfl
  kernel := nofun
  counts _ _ := (Int.add_zero _).symm
  countable := nofun

theorem congr (h : Ledger s m G L) (hheap : m'.heapTables = m.heapTables)
    (hphys : m'.physDir = m.physDir) : Ledger s m' G L where
  pages := h.pages
  frames := h.frames
  spare := h.spare
  free := h.free
  granted g hg := by rw [hheap, h.granted g hg]
  heap p hp := by rw [hheap, h.heap p hp]
  kernel g hg := by rw [hphys, h.kernel g hg]
  counts f hf := by rw [hphys, h.counts f hf]
  countable := h.countable

/-- The order of the grants does not matter. -/
theorem perm (h : Ledger s m G L) (hperm : G.Perm G') : Ledger s m G' L where
  pages := (hperm.map Prod.fst).nodup_iff.mp h.pages
  frames := (hperm.map Prod.snd).nodup_iff.mp h.frames
  spare g hg := h.spare g (hperm.mem_iff.mpr hg)
  free g hg := h.free g (hperm.mem_iff.mpr hg)
  granted g hg := h.granted g (hperm.mem_iff.mpr hg)
  heap p hp := h.heap p fun hmem => hp ((hperm.map Prod.fst).mem_iff.mp hmem)
  kernel g hg := h.kernel g (hperm.mem_iff.mpr hg)
  counts f hf := h.counts f fun hmem => hf ((hperm.map Prod.snd).mem_iff.mp hmem)
  countable := h.countable

/-- Closed books. -/
theorem closed (h : Ledger s m [] []) : m.physDir = s.physDir ∧ m.heapTables = s.heapTables :=
  ⟨funext fun f => (h.counts f nofun).trans (Int.add_zero _), funext fun p => h.heap p nofun⟩

/-! ### What is free -/

section Free

variable (h : Ledger s m G L)

include h

theorem unused_iff (hf : f ∉ G.map Prod.snd) :
    m.physDir f = PHYS_DIR_UNUSED ↔ s.physDir f = PHYS_DIR_UNUSED := by
  rw [h.counts f hf, PHYS_DIR_UNUSED]
  by_cases hmem : f ∈ L
  · have hpos := (h.countable f hmem).1
    omega
  · rw [List.count_eq_zero.mpr hmem]
    omega

theorem ne_granted (hlow : f < physDirLargeNum) : f ∉ G.map Prod.snd := by
  intro hmem
  obtain ⟨g, hg, rfl⟩ := List.mem_map.mp hmem
  exact absurd (low_of_mem_freeFrames (h.free g hg)) (Nat.not_le.mpr hlow)

theorem zero (hzero : s.physDir 0 ≠ PHYS_DIR_UNUSED) : m.physDir 0 ≠ PHYS_DIR_UNUSED :=
  fun heq => hzero ((h.unused_iff (h.ne_granted (by decide))).mp heq)

/-- The frames that are free are those that were, without those granted. -/
theorem mem_freeFrames_iff : f ∈ m.freeFrames ↔ f ∈ s.freeFrames ∧ f ∉ G.map Prod.snd := by
  rw [freeFrames, freeFrames, Finset.mem_filter, Finset.mem_filter, and_assoc]
  refine and_congr_right fun hrange => ?_
  have hlt : f / 1024 < physDirLargeNum := by
    have hhigh := (Finset.mem_Ico.mp hrange).2
    rw [physDirSmallNum] at hhigh
    rw [physDirLargeNum]
    omega
  rw [FrameUnused, FrameUnused, h.unused_iff (h.ne_granted hlt)]
  by_cases hmem : f ∈ G.map Prod.snd
  · refine iff_of_false (fun hunused => ?_) fun hnot => hnot.2 hmem
    obtain ⟨g, hg, rfl⟩ := List.mem_map.mp hmem
    have hunused := hunused.2
    rw [h.kernel g hg] at hunused
    cases hunused
  · rw [h.unused_iff hmem]
    exact (and_iff_left hmem).symm

theorem absent_of_not_granted (hp : p ∉ G.map Prod.fst) :
    (m.heapTables p).present = (s.heapTables p).present := by rw [h.heap p hp]

/-- The pages that can be granted are those that could, without those granted. -/
theorem spare_iff : m.Spare p ↔ s.Spare p ∧ p ∉ G.map Prod.fst := by
  constructor
  · intro hspare
    have hp : p ∉ G.map Prod.fst := by
      intro hmem
      obtain ⟨g, hg, rfl⟩ := List.mem_map.mp hmem
      have habsent := hspare.absent
      rw [h.granted g hg] at habsent
      cases habsent
    exact ⟨⟨hspare.inHeap, (h.absent_of_not_granted hp).symm.trans hspare.absent, hspare.notLast⟩, hp⟩
  · rintro ⟨hspare, hp⟩
    exact ⟨hspare.inHeap, (h.absent_of_not_granted hp).trans hspare.absent, hspare.notLast⟩

/-- With room for one more, a page can be granted. -/
theorem available (hroom : s.Room (G.length + 1)) : m.TableAvailable := by
  obtain ⟨hframes, pages, hspare, hpages⟩ := hroom
  have hmore : ∀ (A : Finset Nat) (l : List Nat), l.length = G.length → G.length + 1 ≤ A.card →
      ∃ a ∈ A, a ∉ l := by
    intro A l hlength hcard
    by_contra hnone
    push Not at hnone
    have hsub : A ⊆ l.toFinset := fun a ha => List.mem_toFinset.mpr (hnone a ha)
    have hle := Nat.le_trans (Finset.card_le_card hsub) l.toFinset_card_le
    omega
  obtain ⟨p, hp, hnew⟩ := hmore pages (G.map Prod.fst) (List.length_map _) hpages
  obtain ⟨f, hf, hnew'⟩ := hmore s.freeFrames (G.map Prod.snd) (List.length_map _) hframes
  exact ⟨⟨p, h.spare_iff.mpr ⟨hspare p hp, hnew⟩⟩, f, h.mem_freeFrames_iff.mpr ⟨hf, hnew'⟩⟩

end Free

/-! ### What is mapped -/

section Maps

variable (h : Ledger s m G L)

include h

/-- Two grants of one frame are one. -/
theorem page_eq {q : Nat} (hp : (p, f) ∈ G) (hq : (q, f) ∈ G) : p = q :=
  congrArg Prod.fst (List.inj_on_of_nodup_map h.frames hp hq rfl)

theorem mapsTo (hg : (p, f) ∈ G) : m.MapsTo p f :=
  ⟨(h.spare _ hg).inHeap, by rw [h.granted _ hg]; rfl, by rw [h.granted _ hg]; rfl⟩

theorem frameAt (hg : (p, f) ∈ G) : m.frameAt p = f := (h.mapsTo hg).frameAt

/-- A page that is mapped was mapped before, or is granted. -/
theorem mapsTo_cases (hmaps : m.MapsTo p frame) : (p, frame) ∈ G ∨ s.MapsTo p frame := by
  by_cases hp : p ∈ G.map Prod.fst
  · obtain ⟨g, hg, rfl⟩ := List.mem_map.mp hp
    have haddr := hmaps.addr
    rw [h.granted g hg] at haddr
    exact .inl (haddr ▸ hg)
  · have hheap := h.heap p hp
    exact .inr ⟨hmaps.inHeap, hheap ▸ hmaps.present, hheap ▸ hmaps.addr⟩

theorem heapTables_eq (hpresent : (s.heapTables p).present = true) :
    m.heapTables p = s.heapTables p := by
  refine h.heap p fun hmem => ?_
  obtain ⟨g, hg, rfl⟩ := List.mem_map.mp hmem
  rw [(h.spare g hg).absent] at hpresent
  cases hpresent

theorem mapsTo_of (hmaps : s.MapsTo p frame) : m.MapsTo p frame := by
  have hheap := h.heapTables_eq hmaps.present
  exact ⟨hmaps.inHeap, hheap ▸ hmaps.present, hheap ▸ hmaps.addr⟩

/-- Frames that are not granted are found where they were. -/
theorem heapPage_eq (hframe : frame ∉ s.freeFrames) : m.heapPage frame = s.heapPage frame := by
  rw [heapPage, heapPage]
  congr 1
  funext p
  by_cases hp : p ∈ G.map Prod.fst
  · obtain ⟨g, hg, rfl⟩ := List.mem_map.mp hp
    rw [h.granted g hg, (h.spare g hg).absent, Bool.false_and]
    refine Bool.and_eq_false_imp.mpr fun _ => beq_eq_false_iff_ne.mpr ?_
    rintro rfl
    exact hframe (h.free g hg)
  · rw [h.heap p hp]

/-- A frame that is granted is found in its page. -/
theorem heapPage_granted (hsound : s.HeapSound) (hg : (p, f) ∈ G) : m.heapPage f = some p := by
  obtain ⟨q, hq⟩ := heapPage_of_mapsTo (h.mapsTo hg)
  rcases h.mapsTo_cases (mapsTo_of_heapPage hq) with hgranted | hbefore
  · rw [hq, h.page_eq hgranted hg]
  · exact absurd (h.free _ hg) (hsound.kept q f hbefore)

end Maps

/-! ### Entries of the books -/

/-- A page is granted. -/
theorem grant (h : Ledger s m G L) (hspare : m.Spare p) (hidx : idx ∈ m.freeFrames)
    (hheap : m'.heapTables = Function.update m.heapTables p (newEntry gfpKernel idx))
    (hphys : m'.physDir = Function.update m.physDir idx PHYS_DIR_KERNEL) :
    Ledger s m' (G ++ [(p, idx)]) L := by
  obtain ⟨hspare', hp⟩ := h.spare_iff.mp hspare
  obtain ⟨hfree, hf⟩ := h.mem_freeFrames_iff.mp hidx
  have hother : ∀ g ∈ G, g.1 ≠ p ∧ g.2 ≠ idx := fun g hg =>
    ⟨fun heq => hp (heq ▸ List.mem_map_of_mem hg), fun heq => hf (heq ▸ List.mem_map_of_mem hg)⟩
  refine ⟨?_, ?_, fun g hg => ?_, fun g hg => ?_, fun g hg => ?_, fun q hq => ?_, fun g hg => ?_,
    fun f' hf' => ?_, h.countable⟩
  · rw [List.map_append]
    exact List.nodup_append.mpr ⟨h.pages, List.nodup_singleton _, fun a ha b hb heq =>
      hp ((heq.trans (List.mem_singleton.mp hb : b = p)) ▸ ha)⟩
  · rw [List.map_append]
    exact List.nodup_append.mpr ⟨h.frames, List.nodup_singleton _, fun a ha b hb heq =>
      hf ((heq.trans (List.mem_singleton.mp hb : b = idx)) ▸ ha)⟩
  · rcases List.mem_append.mp hg with hg | hg
    · exact h.spare g hg
    · rw [List.mem_singleton.mp hg]
      exact hspare'
  · rcases List.mem_append.mp hg with hg | hg
    · exact h.free g hg
    · rw [List.mem_singleton.mp hg]
      exact hfree
  · rw [hheap]
    rcases List.mem_append.mp hg with hg | hg
    · rw [Function.update_of_ne (hother g hg).1, h.granted g hg]
    · rw [List.mem_singleton.mp hg, Function.update_self]
  · rw [List.map_append, List.mem_append, not_or] at hq
    rw [hheap, Function.update_of_ne fun heq => hq.2 (List.mem_singleton.mpr heq), h.heap q hq.1]
  · rw [hphys]
    rcases List.mem_append.mp hg with hg | hg
    · rw [Function.update_of_ne (hother g hg).2, h.kernel g hg]
    · rw [List.mem_singleton.mp hg, Function.update_self]
  · rw [List.map_append, List.mem_append, not_or] at hf'
    rw [hphys, Function.update_of_ne fun heq => hf'.2 (List.mem_singleton.mpr heq),
      h.counts f' hf'.1]

/-- The count of another frame. -/
theorem setPhysDir (h : Ledger s m G L) (hf : f ∉ G.map Prod.snd) (hcount : s.Countable L')
    (hn : n = s.physDir f + L'.count f)
    (hother : ∀ f' ≠ f, L'.count f' = L.count f') : Ledger s (m.setPhysDir f n) G L' where
  pages := h.pages
  frames := h.frames
  spare := h.spare
  free := h.free
  granted := h.granted
  heap := h.heap
  kernel g hg := by
    have hother : g.2 ≠ f := by
      rintro rfl
      exact hf (List.mem_map_of_mem hg)
    rw [setPhysDir_of_ne m hother, h.kernel g hg]
  counts f' hf' := by
    by_cases heq : f' = f
    · rw [heq, setPhysDir_self, hn]
    · rw [setPhysDir_of_ne m heq, h.counts f' hf', hother f' heq]
  countable := hcount

theorem not_granted (h : Ledger s m G L) (hpos : 0 < s.physDir f) : f ∉ G.map Prod.snd := by
  intro hmem
  obtain ⟨g, hg, rfl⟩ := List.mem_map.mp hmem
  rw [physDir_eq_unused (h.free g hg)] at hpos
  exact absurd hpos (by decide)

section Uses

variable (huser : gfp.user = true)

include huser

/-- A use is counted. -/
theorem use (h : Ledger s m G L) (hcount : s.Countable (L ++ [frame / gfp.pages])) :
    ∃ n, m.usePhysMem frame gfp = .ok (m.setPhysDir (frame / gfp.pages) n) ∧
      Ledger s (m.setPhysDir (frame / gfp.pages) n) G (L ++ [frame / gfp.pages]) := by
  generalize hf : frame / gfp.pages = f at hcount
  obtain ⟨hpos, hle⟩ := hcount f (List.mem_append_right _ (List.mem_singleton_self f))
  have hcounts := h.counts f (h.not_granted hpos)
  have hlast : (L ++ [f]).count f = L.count f + 1 := by
    rw [List.count_append, List.count_singleton_self]
  rw [hlast] at hle
  have hmod : (m.physDir f + 1).bmod (2 ^ 16) = m.physDir f + 1 :=
    Int.bmod_eq_of_le (by omega) (by omega)
  refine ⟨m.physDir f + 1, ?_, h.setPhysDir (h.not_granted hpos) hcount ?_ fun f' hne => ?_⟩
  · rw [usePhysMem, hf, if_neg (by omega), huser, hmod]
    rfl
  · rw [hlast, hcounts]
    omega
  · rw [List.count_append, List.count_singleton, beq_eq_false_iff_ne.mpr (Ne.symm hne)]
    rfl

/-- A use is given back. -/
theorem release (h : Ledger s m G (frame / gfp.pages :: L)) :
    ∃ n, m.freePhysMem frame gfp = .ok (m.setPhysDir (frame / gfp.pages) n) ∧
      Ledger s (m.setPhysDir (frame / gfp.pages) n) G L := by
  generalize hf : frame / gfp.pages = f at h
  obtain ⟨hpos, -⟩ := h.countable f List.mem_cons_self
  have hcounts := h.counts f (h.not_granted hpos)
  rw [List.count_cons_self] at hcounts
  refine ⟨m.physDir f - 1, ?_, h.setPhysDir (h.not_granted hpos) h.countable.tail ?_
    fun f' hne => ?_⟩
  · rw [freePhysMem, hf, if_neg (by rw [PHYS_DIR_UNUSED]; omega),
      if_neg (by rw [PHYS_DIR_UNAVAIL]; omega), if_neg (by rw [PHYS_DIR_KERNEL]; omega),
      if_pos (by omega), huser]
    rfl
  · omega
  · exact (List.count_cons_of_ne (Ne.symm hne)).symm

end Uses

/-- A page is given back. -/
theorem revoke (h : Ledger s m ((p, f) :: G) L) (hsound : s.HeapSound) :
    ∃ m', freePages p 1 gfpKernel m = .ok m' ∧ Ledger s m' G L ∧ m'.entries = m.entries ∧
      m'.cr3 = m.cr3 ∧ m'.data = m.data := by
  have hspare := h.spare _ List.mem_cons_self
  have hfree := h.free _ List.mem_cons_self
  have hgranted : m.heapTables p = newEntry gfpKernel f := h.granted _ List.mem_cons_self
  have hkernel : m.physDir f = PHYS_DIR_KERNEL := h.kernel _ List.mem_cons_self
  have hne : f ≠ 0 := Nat.ne_of_gt (Nat.lt_of_lt_of_le (by decide) (low_of_mem_freeFrames hfree))
  have hunmap : m.unmapPage p gfpKernel = .ok (m.setHeap p .zero, f) := by
    rw [unmapPage, if_neg (by decide), if_neg (by decide),
      if_pos (isHeapPage_iff.mp hspare.inHeap).1]
    refine Machine.bind_eq_ok_iff.mpr ⟨newEntry gfpKernel f, ?_, ?_⟩
    · rw [readHeap, if_pos hspare.inHeap, hgranted]
    · refine Machine.bind_eq_ok_iff.mpr ⟨m.setHeap p .zero, ?_, rfl⟩
      rw [writeHeap, if_pos hspare.inHeap]
  have hone : m.freeOnePage p gfpKernel = .ok ((m.setHeap p .zero).setPhysDir f PHYS_DIR_UNUSED) := by
    refine Machine.bind_eq_ok_iff.mpr ⟨_, hunmap, (if_neg hne).trans ?_⟩
    have hidx : f / gfpKernel.pages = f := Nat.div_one f
    rw [freePhysMem, hidx]
    simp only [setHeap, hkernel]
    rfl
  refine ⟨_, Machine.bind_eq_ok_iff.mpr ⟨_, hone, rfl⟩, ?_, rfl, rfl, rfl⟩
  obtain ⟨hp, hpages⟩ := List.nodup_cons.mp (show (p :: G.map Prod.fst).Nodup from h.pages)
  obtain ⟨hf, hframes⟩ := List.nodup_cons.mp (show (f :: G.map Prod.snd).Nodup from h.frames)
  refine ⟨hpages, hframes, fun g hg => h.spare g (List.mem_cons_of_mem _ hg),
    fun g hg => h.free g (List.mem_cons_of_mem _ hg), fun g hg => ?_, fun q hq => ?_, fun g hg => ?_,
    fun f' hf' => ?_, h.countable⟩
  · have hother : g.1 ≠ p := by
      rintro rfl
      exact hp (List.mem_map_of_mem hg)
    exact (Function.update_of_ne hother _ _).trans (h.granted g (List.mem_cons_of_mem _ hg))
  · by_cases heq : q = p
    · rw [heq]
      exact (Function.update_self p _ _).trans (hsound.zero p hspare.inHeap hspare.absent).symm
    · exact (Function.update_of_ne heq _ _).trans (h.heap q fun hmem =>
        (List.mem_cons.mp hmem).elim heq hq)
  · have hother : g.2 ≠ f := by
      rintro rfl
      exact hf (List.mem_map_of_mem hg)
    exact (Function.update_of_ne hother _ _).trans (h.kernel g (List.mem_cons_of_mem _ hg))
  · by_cases heq : f' = f
    · rw [heq, setPhysDir_self, physDir_eq_unused hfree]
      have hcount : L.count f = 0 := by
        refine List.count_eq_zero.mpr fun hmem => ?_
        exact h.not_granted (h.countable f hmem).1 List.mem_cons_self
      rw [hcount]
      rfl
    · exact (Function.update_of_ne heq _ _).trans (h.counts f' fun hmem =>
        (List.mem_cons.mp hmem).elim heq hf')

end Ledger
end Memory
end Paging
end JkxyKernel
