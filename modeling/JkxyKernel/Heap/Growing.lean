import JkxyKernel.Heap.Placing

/-!
# Blocks that do not meet

The blocks have pages and frames of their own, and each of them has an allocation.  The block that
the kernel gives for a request is large enough for it, and has none of the pages and frames of the
others.
-/

namespace JkxyKernel
namespace Kmalloc

open Packing
open Paging (Memory gfpCons newPageCount liballocPageSize liballocPageCount physDirSmallNum
  physDirLargeNum sizeofMajor sizeofMinor PHYS_DIR_KERNEL PHYS_DIR_UNUSED)
open Paging.Memory (newEntry)

/-- Requests for which the number of pages has 16 bits. -/
def Modest (reqSize : BitVec 32) : Prop := reqSize.toNat + 80 ≤ 65535 * 4096

instance (reqSize : BitVec 32) : Decidable (Modest reqSize) :=
  inferInstanceAs (Decidable (_ ≤ _))

namespace Heap

/-- The first frame of a block. -/
def frame (h : Heap) (maj : Major) : Nat := (h.mem.heapTables maj.page).addr

/-- The block is mapped to frames of the kernel, which are consecutive. -/
structure Mapped (h : Heap) (maj : Major) : Prop where
  low : physDirLargeNum ≤ h.frame maj
  pages : ∀ k < maj.pages.toNat,
    h.mem.heapTables (maj.page + k) = newEntry gfpCons (h.frame maj + k) ∧
      h.mem.physDir (h.frame maj + k) = PHYS_DIR_KERNEL

/-- The state of the allocator between two calls. -/
structure Good (h : Heap) : Prop where
  sound : ∀ maj ∈ h.majors, maj.Sound
  apart : h.majors.Pairwise fun a b => Apart a.page a.pages.toNat b.page b.pages.toNat
  frames : h.majors.Pairwise fun a b =>
    Apart (h.frame a) a.pages.toNat (h.frame b) b.pages.toNat
  mapped : ∀ maj ∈ h.majors, h.Mapped maj
  bet : ∀ page, h.bestBet = some page → ∃ maj ∈ h.majors, maj.page = page
  allocated : h.allocated = BitVec.ofNat 32 (h.majors.map fun maj => maj.size.toNat).sum
  inuse : h.inuse = BitVec.ofNat 32 (h.minors.map fun min => min.size.toNat).sum

/-- Every block has an allocation. -/
def Used (h : Heap) : Prop := ∀ maj ∈ h.majors, maj.minors ≠ []

section Growing

variable {h : Heap} {maj : Major} {size reqSize : BitVec 32} {pre post : List Major}
  {r : Major × Minor} {bestBet : Option Nat} {first : Nat}

/-- The pages for a request are enough for it, and not too many for `liballoc_alloc`. -/
theorem newPageCount_spec (hsize : size.toNat + 48 ≤ 65535 * 4096) :
    (newPageCount size).toNat < 2 ^ 16 ∧ 0 < (newPageCount size).toNat ∧
      size.toNat + 48 ≤ (newPageCount size).toNat * 4096 := by
  have hst : (size + sizeofMajor + sizeofMinor).toNat = size.toNat + 48 := by
    rw [BitVec.toNat_add, BitVec.toNat_add]
    change ((size.toNat + 24) % 2 ^ 32 + 24) % 2 ^ 32 = _
    omega
  have hmod : ((size + sizeofMajor + sizeofMinor) % liballocPageSize).toNat =
      (size.toNat + 48) % 4096 := by
    rw [BitVec.toNat_umod, hst]
    rfl
  have hdiv : ((size + sizeofMajor + sizeofMinor) / liballocPageSize).toNat =
      (size.toNat + 48) / 4096 := by
    rw [BitVec.toNat_udiv, hst]
    rfl
  have hzero : (size + sizeofMajor + sizeofMinor) % liballocPageSize = 0 ↔
      (size.toNat + 48) % 4096 = 0 := by
    rw [← hmod, ← BitVec.toNat_inj]
    rfl
  have hone : ((size + sizeofMajor + sizeofMinor) / liballocPageSize + 1).toNat =
      (size.toNat + 48) / 4096 + 1 := by
    rw [BitVec.toNat_add, hdiv]
    change ((size.toNat + 48) / 4096 + 1) % 2 ^ 32 = _
    omega
  have hleast : liballocPageCount.toNat = 16 := rfl
  rw [newPageCount]
  simp only [hzero, BitVec.lt_def, hleast]
  split
  next hexact =>
    rw [hdiv]
    split <;> omega
  next hrest =>
    rw [hone]
    split <;> omega

/-- A block that has just been made, and where its pages and frames come from. -/
structure Fresh (h : Heap) (size : BitVec 32) (maj : Major) (first : Nat) : Prop where
  sound : maj.Sound
  minors : maj.minors = []
  room : size.toNat + 24 ≤ (maj.size - maj.usage).toNat
  vacant : ∀ k < maj.pages.toNat, (h.mem.heapTables (maj.page + k)).present = false
  unused : h.mem.RunUnused maj.pages.toNat first

/-- The state with a new block, which has no allocation yet. -/
def grown (h : Heap) (maj : Major) (first : Nat) : Heap :=
  { h with
    mem := h.mem.supply maj.page first maj.pages.toNat
    majors := h.majors ++ [maj]
    allocated := h.allocated + maj.size }

/-- `allocate_new_page` gets a block, or there are no pages or no frames for it. -/
theorem grow_cases (hsize : size.toNat + 48 ≤ 65535 * 4096) :
    (¬ h.mem.RoomFor (newPageCount size).toNat ∧
      h.grow size = .ok ({ h with warningCount := h.warningCount + 1 }, none)) ∨
    ∃ maj first, h.Fresh size maj first ∧ h.grow size = .ok (h.grown maj first, some maj) := by
  obtain ⟨hlt, hpos, henough⟩ := newPageCount_spec hsize
  have hwidth : ((newPageCount size).setWidth 16).toNat = (newPageCount size).toNat := by
    rw [BitVec.toNat_setWidth, Nat.mod_eq_of_lt hlt]
  rcases Memory.liballocAlloc_cases (s := h.mem) ((newPageCount size).setWidth 16) with
    ⟨hnone, halloc⟩ | ⟨-, page, first, hpage, hvacant, hrun, halloc⟩
  · refine .inl ⟨by rw [← hwidth]; exact hnone, ?_⟩
    have hnull : h.mem.allocateNewPage size = .ok (h.mem, none) := by
      rw [Memory.allocateNewPage, halloc]
      rfl
    rw [grow, hnull]
    rfl
  · rw [hwidth] at hvacant hrun halloc
    have hbounds := hvacant.bounds
    have hregion := hvacant.region
    have hmany : (newPageCount size * liballocPageSize).toNat =
        (newPageCount size).toNat * 4096 := by
      rw [BitVec.toNat_mul]
      change (newPageCount size).toNat * 4096 % 2 ^ 32 = _
      omega
    have hpresent : ((h.mem.supply page first (newPageCount size).toNat).heapTables page).present =
        true := by
      have hentry := @Memory.heapTables_withRun h.mem page first (newPageCount size).toNat
        (fun k => newEntry gfpCons (first + k)) PHYS_DIR_KERNEL 0 hpos
      rw [Nat.add_zero] at hentry
      rw [Memory.supply, hentry]
      rfl
    refine .inr ⟨⟨⟨page, newPageCount size, newPageCount size * liballocPageSize, sizeofMajor⟩, []⟩,
      first, ⟨⟨hbounds.1, hregion, hbounds.2, hpos, hmany, rfl, ?_, by simp⟩, rfl, ?_,
        hvacant.absent, hrun⟩, ?_⟩
    · change page * 4096 + 24 ≤ page * 4096 + (newPageCount size * liballocPageSize).toNat
      omega
    · change size.toNat + 24 ≤ (newPageCount size * liballocPageSize - sizeofMajor).toNat
      rw [BitVec.toNat_sub, hmany]
      change _ ≤ (2 ^ 32 - 24 + (newPageCount size).toNat * 4096) % 2 ^ 32
      omega
    · have hmake : h.mem.allocateNewPage size =
          .ok (h.mem.supply page first (newPageCount size).toNat, some
            ⟨page, newPageCount size, newPageCount size * liballocPageSize, sizeofMajor⟩) := by
        rw [Memory.allocateNewPage, halloc]
        change (if page = 0 then _ else _) = _
        rw [if_neg hpage, if_pos hpresent]
      rw [grow, hmake]
      rfl

/-! ### Other pages and frames -/

/-- The pages and the frames of the blocks are not touched. -/
def Kept (h : Heap) (mem : Memory) : Prop :=
  ∀ maj ∈ h.majors, ∀ k < maj.pages.toNat,
    mem.heapTables (maj.page + k) = h.mem.heapTables (maj.page + k) ∧
      mem.physDir (h.frame maj + k) = h.mem.physDir (h.frame maj + k)

theorem Kept.frame {mem : Memory} (hk : h.Kept mem) (hmaj : maj ∈ h.majors) (hs : maj.Sound) :
    Heap.frame { h with mem := mem } maj = h.frame maj :=
  congrArg Paging.Entry.addr (hk maj hmaj 0 hs.pos).1

/-- The kernel changes other pages and frames. -/
theorem Good.withMem {mem : Memory} (hg : h.Good) (hk : h.Kept mem) :
    Good { h with mem := mem } := by
  have hframe : ∀ m ∈ h.majors, Heap.frame { h with mem := mem } m = h.frame m := fun m hm =>
    hk.frame hm (hg.sound m hm)
  refine ⟨hg.sound, hg.apart, ?_, fun m hm => ?_, hg.bet, hg.allocated, hg.inuse⟩
  · refine hg.frames.imp_of_mem fun {a b} ha hb hab => ?_
    rw [hframe a ha, hframe b hb]
    exact hab
  · have hmapped := hg.mapped m hm
    refine ⟨by rw [hframe m hm]; exact hmapped.low, fun k hlt => ?_⟩
    obtain ⟨htable, hphys⟩ := hk m hm k hlt
    rw [hframe m hm]
    exact ⟨htable.trans (hmapped.pages k hlt).1, hphys.trans (hmapped.pages k hlt).2⟩

/-! ### A block that is changed -/

/-- The memory behind the headers of a block. -/
def sizes (minors : List Minor) : Nat := (minors.map fun min => min.size.toNat).sum

theorem sizes_append (l l' : List Minor) : sizes (l ++ l') = sizes l + sizes l' := by
  rw [sizes, List.map_append, List.sum_append]
  rfl

theorem minors_split (hsplit : h.majors = pre ++ maj :: post) :
    h.minors = pre.flatMap Major.minors ++ (maj.minors ++ post.flatMap Major.minors) := by
  rw [minors, hsplit, List.flatMap_append, List.flatMap_cons]

/-- A block does not meet the others. -/
theorem Good.split_apart (hg : h.Good) (hsplit : h.majors = pre ++ maj :: post) :
    ∀ m ∈ pre ++ post, Apart m.page m.pages.toNat maj.page maj.pages.toNat ∧
      Apart (h.frame m) m.pages.toNat (h.frame maj) maj.pages.toNat := by
  have hapart := hg.apart
  have hframes := hg.frames
  rw [hsplit, List.pairwise_append, List.pairwise_cons] at hapart hframes
  intro m hm
  rcases List.mem_append.mp hm with hpre | hpost
  · exact ⟨hapart.2.2 m hpre maj List.mem_cons_self, hframes.2.2 m hpre maj List.mem_cons_self⟩
  · exact ⟨(hapart.2.1.1 m hpost).symm, (hframes.2.1.1 m hpost).symm⟩

theorem Good.page_ne (hg : h.Good) (hsplit : h.majors = pre ++ maj :: post) :
    ∀ other ∈ pre ++ post, other.page ≠ maj.page := by
  intro other hother heq
  have hmem : other ∈ h.majors := by
    rw [hsplit]
    rcases List.mem_append.mp hother with hpre | hpost
    · exact List.mem_append_left _ hpre
    · exact List.mem_append_right _ (List.mem_cons_of_mem _ hpost)
  have hmaj : maj ∈ h.majors := hsplit ▸ List.mem_append_right _ List.mem_cons_self
  have hpos := (hg.sound other hmem).pos
  have hpos' := (hg.sound maj hmaj).pos
  rcases (hg.split_apart hsplit other hother).1 with hle | hle <;> omega

/-- A store through the pointer to a block changes this block. -/
theorem Good.store_majors (hg : h.Good) (hsplit : h.majors = pre ++ maj :: post) {maj' : Major}
    (hpage : maj'.page = maj.page) : (h.store maj').majors = pre ++ maj' :: post := by
  have hne := hg.page_ne hsplit
  have hsame : ∀ l : List Major, (∀ other ∈ l, other.page ≠ maj.page) →
      l.map (fun other => if other.page = maj'.page then maj' else other) = l := by
    intro l hl
    refine (List.map_congr_left fun other hother => ?_).trans (List.map_id l)
    rw [hpage, if_neg (hl other hother)]
    rfl
  rw [store]
  simp only [hsplit, List.map_append, List.map_cons, hpage, if_true]
  rw [← hpage, hsame pre fun o ho => hne o (List.mem_append_left post ho),
    hsame post fun o ho => hne o (List.mem_append_right pre ho)]

/-- What is said of the pages and the frames of a block is said of every block that has them. -/
theorem Mapped.same {maj' : Major} (hm : h.Mapped maj) (hpage : maj'.page = maj.page)
    (hpages : maj'.pages = maj.pages) : h.Mapped maj' := by
  have hframe : h.frame maj' = h.frame maj := by rw [frame, frame, hpage]
  refine ⟨hframe ▸ hm.low, fun k hk => ?_⟩
  rw [hpage, hframe]
  exact hm.pages k (hpages ▸ hk)

/-- A block has other allocations. -/
theorem Good.replace {maj' : Major} {inuse : BitVec 32} (hg : h.Good)
    (hsplit : h.majors = pre ++ maj :: post)
    (hsame : maj'.page = maj.page ∧ maj'.pages = maj.pages ∧ maj'.size = maj.size)
    (hsound : maj'.Sound)
    (hbet : ∀ page, bestBet = some page → ∃ maj ∈ h.majors, maj.page = page)
    (hinuse : inuse + BitVec.ofNat 32 (sizes maj.minors) =
      h.inuse + BitVec.ofNat 32 (sizes maj'.minors)) :
    Good { h with majors := pre ++ maj' :: post, inuse := inuse, bestBet := bestBet } := by
  obtain ⟨hpage, hpages, hsize⟩ := hsame
  have hold : ∀ m ∈ pre ++ maj' :: post, m = maj' ∨ m ∈ h.majors := by
    intro m hm
    rw [hsplit]
    simp only [List.mem_append, List.mem_cons] at hm ⊢
    tauto
  have hmaj : maj ∈ h.majors := by
    rw [hsplit]
    simp
  have hkeys : (pre ++ maj' :: post).map (fun m => (m.page, m.pages.toNat)) =
      h.majors.map fun m => (m.page, m.pages.toNat) := by
    rw [hsplit]
    simp only [List.map_append, List.map_cons, hpage, hpages]
  have hpairs : ∀ {R : Nat × Nat → Nat × Nat → Prop},
      (h.majors.Pairwise fun a b => R (a.page, a.pages.toNat) (b.page, b.pages.toNat)) →
      (pre ++ maj' :: post).Pairwise fun a b =>
        R (a.page, a.pages.toNat) (b.page, b.pages.toNat) := by
    intro R hR
    have hmapped := List.pairwise_map.mpr hR
    rw [← hkeys] at hmapped
    exact List.pairwise_map.mp hmapped
  constructor
  case sound =>
    intro m hm
    rcases hold m hm with rfl | hm
    · exact hsound
    · exact hg.sound m hm
  case apart => exact @hpairs (fun a b => Apart a.1 a.2 b.1 b.2) hg.apart
  case frames =>
    exact @hpairs (fun a b => Apart (h.mem.heapTables a.1).addr a.2 (h.mem.heapTables b.1).addr b.2)
      hg.frames
  case mapped =>
    intro m hm
    have hm' : h.Mapped m := by
      rcases hold m hm with rfl | hm
      · exact (hg.mapped maj hmaj).same hpage hpages
      · exact hg.mapped m hm
    exact ⟨hm'.low, hm'.pages⟩
  case bet =>
    intro page hpage'
    obtain ⟨m, hm, rfl⟩ := hbet page hpage'
    rw [hsplit, List.mem_append, List.mem_cons] at hm
    rcases hm with hpre | rfl | hpost
    · exact ⟨m, by simp [hpre], rfl⟩
    · exact ⟨maj', by simp, hpage⟩
    · exact ⟨m, by simp [hpost], rfl⟩
  case allocated =>
    refine hg.allocated.trans ?_
    rw [hsplit]
    simp only [List.map_append, List.map_cons, hsize]
  case inuse =>
    have hsum := hg.inuse
    change _ = BitVec.ofNat 32 (sizes h.minors) at hsum
    change inuse = BitVec.ofNat 32 (sizes ((pre ++ maj' :: post).flatMap Major.minors))
    rw [minors_split hsplit, sizes_append, sizes_append] at hsum
    rw [List.flatMap_append, List.flatMap_cons, sizes_append, sizes_append]
    rw [hsum] at hinuse
    simp only [BitVec.ofNat_add] at hinuse ⊢
    generalize BitVec.ofNat 32 (sizes (pre.flatMap Major.minors)) = a at hinuse ⊢
    generalize BitVec.ofNat 32 (sizes (post.flatMap Major.minors)) = b at hinuse ⊢
    generalize BitVec.ofNat 32 (sizes maj.minors) = c at hinuse
    generalize BitVec.ofNat 32 (sizes maj'.minors) = d at hinuse ⊢
    clear * - hinuse
    have hshift : inuse + c = (a + (d + b)) + c := by
      rw [hinuse]
      ac_rfl
    exact (BitVec.add_left_inj c).mp hshift

/-- Another block, which has no allocation yet. -/
theorem Good.append (hg : h.Good) (hsound : maj.Sound) (hminors : maj.minors = [])
    (hapart : ∀ m ∈ h.majors, Apart m.page m.pages.toNat maj.page maj.pages.toNat)
    (hframes : ∀ m ∈ h.majors, Apart (h.frame m) m.pages.toNat (h.frame maj) maj.pages.toNat)
    (hmapped : h.Mapped maj) :
    Good { h with majors := h.majors ++ [maj], allocated := h.allocated + maj.size } := by
  have hpairs : ∀ {R : Major → Major → Prop}, h.majors.Pairwise R → (∀ m ∈ h.majors, R m maj) →
      (h.majors ++ [maj]).Pairwise R := fun hR hlast =>
    List.pairwise_append.mpr ⟨hR, List.pairwise_singleton _ _, fun m hm m' hm' =>
      List.mem_singleton.mp hm' ▸ hlast m hm⟩
  have hmem : ∀ {P : Major → Prop}, (∀ m ∈ h.majors, P m) → P maj →
      ∀ m ∈ h.majors ++ [maj], P m := by
    intro P hall hlast m hm
    rcases List.mem_append.mp hm with hm | hm
    · exact hall m hm
    · exact List.mem_singleton.mp hm ▸ hlast
  refine ⟨hmem hg.sound hsound, hpairs hg.apart hapart, hpairs hg.frames hframes,
    fun m hm => ?_, fun page hpage => ?_, ?_, ?_⟩
  · have hm' : h.Mapped m := hmem hg.mapped hmapped m hm
    exact ⟨hm'.low, hm'.pages⟩
  · obtain ⟨m, hm, hpage⟩ := hg.bet page hpage
    exact ⟨m, List.mem_append_left _ hm, hpage⟩
  · rw [hg.allocated, List.map_append, List.sum_append, BitVec.ofNat_add]
    change _ = _ + BitVec.ofNat 32 (maj.size.toNat + 0)
    rw [Nat.add_zero, BitVec.ofNat_toNat, BitVec.setWidth_eq]
  · rw [hg.inuse, minors, minors, List.flatMap_append, List.flatMap_cons, hminors]
    simp

/-- A block is not there any more. -/
theorem Good.remove (hg : h.Good) (hsplit : h.majors = pre ++ maj :: post)
    (hbet : bestBet ≠ some maj.page)
    (hold : bestBet = none ∨ bestBet = h.bestBet) :
    Good { h with
      majors := pre ++ post
      bestBet := bestBet
      allocated := h.allocated - maj.size
      inuse := h.inuse - BitVec.ofNat 32 (sizes maj.minors) } := by
  have hsub : (pre ++ post).Sublist h.majors := by
    rw [hsplit]
    exact (List.Sublist.refl pre).append (List.sublist_cons_self maj post)
  refine ⟨fun m hm => hg.sound m (hsub.mem hm), hg.apart.sublist hsub, hg.frames.sublist hsub,
    fun m hm => ?_, fun page hpage => ?_, ?_, ?_⟩
  · have hm' := hg.mapped m (hsub.mem hm)
    exact ⟨hm'.low, hm'.pages⟩
  · rcases hold with hnone | heq
    · rw [hnone] at hpage
      cases hpage
    · rw [heq] at hpage hbet
      obtain ⟨m, hm, rfl⟩ := hg.bet page hpage
      rw [hsplit, List.mem_append, List.mem_cons] at hm
      rcases hm with hpre | rfl | hpost
      · exact ⟨m, List.mem_append_left _ hpre, rfl⟩
      · exact absurd hpage hbet
      · exact ⟨m, List.mem_append_right _ hpost, rfl⟩
  · have hsum := hg.allocated
    rw [hsplit, List.map_append, List.map_cons, List.sum_append, List.sum_cons,
      Nat.add_left_comm, BitVec.ofNat_add, BitVec.ofNat_toNat, BitVec.setWidth_eq,
      BitVec.add_comm] at hsum
    change h.allocated - maj.size = _
    rw [hsum, BitVec.add_sub_cancel, List.map_append, List.sum_append]
  · have hsum := hg.inuse
    change _ = BitVec.ofNat 32 (sizes h.minors) at hsum
    rw [minors_split hsplit, sizes_append, sizes_append, Nat.add_left_comm, BitVec.ofNat_add,
      BitVec.add_comm] at hsum
    change h.inuse - _ = BitVec.ofNat 32 (sizes ((pre ++ post).flatMap Major.minors))
    rw [hsum, BitVec.add_sub_cancel, List.flatMap_append, sizes_append]

/-- Giving a block back does not touch the others. -/
theorem Good.kept_withdraw (hg : h.Good) (hsplit : h.majors = pre ++ maj :: post)
    {bestBet : Option Nat} {allocated inuse : BitVec 32} :
    Kept { h with
      majors := pre ++ post
      bestBet := bestBet
      allocated := allocated
      inuse := inuse } (h.mem.withdraw maj.page (h.frame maj) maj.pages.toNat) := by
  intro m hm k hk
  obtain ⟨hpages, hframes⟩ := hg.split_apart hsplit m hm
  change _ ∧ _ = h.mem.physDir (h.frame m + k)
  constructor
  · refine if_neg fun hin => ?_
    rcases hpages with hle | hle <;> omega
  · refine if_neg fun hin => ?_
    change _ ∧ h.frame m + k < _ at hin
    have hlow : h.frame maj ≤ h.frame m + k := hin.1
    rcases hframes with hle | hle <;> omega

/-! ### A new block -/

theorem Mapped.present (hm : h.Mapped maj) {k : Nat} (hk : k < maj.pages.toNat) :
    (h.mem.heapTables (maj.page + k)).present = true := by
  rw [(hm.pages k hk).1]
  rfl

/-- The new block has pages and frames of its own, by what the tables were before. -/
theorem Good.fresh_apart (hg : h.Good) (hf : h.Fresh size maj first) :
    ∀ m ∈ h.majors, Apart m.page m.pages.toNat maj.page maj.pages.toNat ∧
      Apart (h.frame m) m.pages.toNat first maj.pages.toNat := by
  intro m hm
  constructor
  · refine apart_of_disjoint (hg.sound m hm).pos hf.sound.pos fun k hk k' hk' heq => ?_
    have hpresent := (hg.mapped m hm).present hk
    rw [heq, hf.vacant k' hk'] at hpresent
    cases hpresent
  · refine apart_of_disjoint (hg.sound m hm).pos hf.sound.pos fun k hk k' hk' heq => ?_
    have hkernel := ((hg.mapped m hm).pages k hk).2
    have hunused := (hf.unused.frames (first + k') (by omega) (by omega)).2
    rw [heq, hunused] at hkernel
    cases hkernel

theorem Good.kept_supply (hg : h.Good) (hf : h.Fresh size maj first) :
    h.Kept (h.mem.supply maj.page first maj.pages.toNat) := by
  intro m hm k hk
  obtain ⟨hpages, hframes⟩ := hg.fresh_apart hf m hm
  constructor
  · refine if_neg fun hin => ?_
    rcases hpages with hle | hle <;> omega
  · refine if_neg fun hin => ?_
    rcases hframes with hle | hle <;> omega

theorem Fresh.heapTables (mem : Memory) (page first num : Nat) {k : Nat} (hk : k < num) :
    (mem.supply page first num).heapTables (page + k) = newEntry gfpCons (first + k) :=
  @Memory.heapTables_withRun mem page first num (fun k => newEntry gfpCons (first + k))
    PHYS_DIR_KERNEL k hk

theorem Good.grown (hg : h.Good) (hf : h.Fresh size maj first) : (h.grown maj first).Good := by
  have hkept := hg.kept_supply hf
  have hfirst : Heap.frame { h with mem := h.mem.supply maj.page first maj.pages.toNat } maj =
      first :=
    congrArg Paging.Entry.addr (Fresh.heapTables h.mem maj.page first maj.pages.toNat hf.sound.pos)
  refine (hg.withMem hkept).append hf.sound hf.minors (fun m hm => (hg.fresh_apart hf m hm).1)
    (fun m hm => ?_) ⟨?_, fun k hk => ?_⟩
  · rw [hfirst, hkept.frame hm (hg.sound m hm)]
    exact (hg.fresh_apart hf m hm).2
  · rw [hfirst]
    exact hf.unused.low
  · rw [hfirst]
    exact ⟨Fresh.heapTables h.mem maj.page first _ hk, if_pos ⟨by omega, by omega⟩⟩

end Growing
end Heap
end Kmalloc
end JkxyKernel
