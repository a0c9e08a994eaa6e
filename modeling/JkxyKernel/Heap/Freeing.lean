import JkxyKernel.Heap.Searching

/-!
# Giving memory back

The byte in front of a pointer leads to the header of its allocation, and no other allocation has
the same pointer.  A block is given back to the kernel, with its pages and frames, together with its
last allocation.
-/

namespace JkxyKernel
namespace Kmalloc
namespace Heap

open Packing
open Paging (Fault Memory physDirSmallNum sizeofMinor)

variable {h : Heap} {maj maj' : Major} {min min' : Minor} {pos : Nat}

/-! ### The header of a pointer -/

theorem mem_minors : min ∈ h.minors ↔ ∃ maj ∈ h.majors, min ∈ maj.minors := List.mem_flatMap

/-- A number in the pieces of two allocations is in one piece of one block. -/
theorem Good.owner_unique (hg : h.Good) (hmaj : maj ∈ h.majors) (hmaj' : maj' ∈ h.majors)
    (hmin : min ∈ maj.minors) (hmin' : min' ∈ maj'.minors)
    (hpos : min.start ≤ pos ∧ pos < min.start + min.width)
    (hpos' : min'.start ≤ pos ∧ pos < min'.start + min'.width) : maj = maj' ∧ min = min' := by
  have hpage : ∀ {maj min}, maj ∈ h.majors → min ∈ maj.minors →
      min.start ≤ pos ∧ pos < min.start + min.width →
      maj.page ≤ pos / 4096 ∧ pos / 4096 < maj.page + maj.pages.toNat := by
    intro maj min hmaj hmin hpos
    have hs := hg.sound maj hmaj
    have hbounds := hs.packed.bounds hmin
    have hsize := hs.size
    rw [Major.low, Major.high] at hbounds
    omega
  have heq := eq_of_meet hg.apart hmaj hmaj' (hpage hmaj hmin hpos) (hpage hmaj' hmin' hpos')
  subst heq
  exact ⟨rfl, eq_of_meet (hg.sound maj hmaj).packed.pairwise hmin hmin' hpos hpos'⟩

/-- The byte in front of a pointer is in the piece of its allocation. -/
theorem Good.pointer_mem (hg : h.Good) (hmaj : maj ∈ h.majors) (hmin : min ∈ maj.minors) :
    min.start ≤ min.pointer.toNat - 1 ∧ min.pointer.toNat - 1 < min.start + min.width := by
  obtain ⟨-, hlow, hhigh⟩ := (hg.sound maj hmaj).pointer hmin
  omega

/-- The header of a pointer that has been returned is found. -/
theorem Good.header_eq (hg : h.Good) (hmaj : maj ∈ h.majors) (hmin : min ∈ maj.minors) :
    h.header min.pointer = .ok (maj, min) := by
  have hfound : (h.minors.find? fun m => m.pointer = min.pointer) = some min := by
    have hsome : (h.minors.find? fun m => m.pointer = min.pointer).isSome := by
      rw [List.find?_isSome]
      exact ⟨min, mem_minors.mpr ⟨maj, hmaj, hmin⟩, decide_eq_true rfl⟩
    obtain ⟨m, hm⟩ := Option.isSome_iff_exists.mp hsome
    have hpointer : m.pointer = min.pointer := by simpa using List.find?_some hm
    obtain ⟨maj', hmaj', hmin'⟩ := mem_minors.mp (List.mem_of_find?_eq_some hm)
    have hpos := hg.pointer_mem hmaj' hmin'
    rw [hpointer] at hpos
    rw [hm, (hg.owner_unique hmaj' hmaj hmin' hmin hpos (hg.pointer_mem hmaj hmin)).2]
  have haddr : unalign min.pointer min.info - sizeofMinor = min.addr := by
    rw [((hg.sound maj hmaj).minors min hmin).info, Minor.pointer, unalign_align,
      BitVec.add_sub_cancel]
  have hstart : ∀ m : Minor, m.start ≤ m.start ∧ m.start < m.start + m.width := by
    intro m
    rw [Minor.width]
    omega
  have howner : (h.majors.findSome? fun maj' =>
      (maj'.minors.find? fun m => m.addr = min.addr).map fun m => (maj', m)) = some (maj, min) := by
    have hsome : (h.majors.findSome? fun maj' =>
        (maj'.minors.find? fun m => m.addr = min.addr).map fun m => (maj', m)).isSome := by
      rw [List.findSome?_isSome_iff]
      refine ⟨maj, hmaj, ?_⟩
      rw [Option.isSome_map, List.find?_isSome]
      exact ⟨min, hmin, decide_eq_true rfl⟩
    obtain ⟨r, hr⟩ := Option.isSome_iff_exists.mp hsome
    obtain ⟨maj', hmaj', hmap⟩ := List.exists_of_findSome?_eq_some hr
    obtain ⟨m, hm, rfl⟩ := Option.map_eq_some_iff.mp hmap
    have hsame : m.addr = min.addr := by simpa using List.find?_some hm
    have hpos := hstart m
    rw [Minor.start, hsame] at hpos
    obtain ⟨rfl, rfl⟩ := hg.owner_unique hmaj' hmaj (List.mem_of_find?_eq_some hm) hmin
      (by rw [Minor.start, hsame]; exact hpos) (hstart min)
    exact hr
  rw [header, hfound]
  simp only [haddr, howner]

/-! ### An allocation that is released -/

/-- An allocation is gone, with its block if it was the last one there. -/
structure Freed (h h' : Heap) (maj : Major) (min : Minor) : Prop where
  good : h'.Good
  used : h.Used → h'.Used
  gone : h.minors.Perm (min :: h'.minors)
  bytes : h'.bytes = h.bytes
  pages : h'.mem = if maj.minors = [min] then h.mem.withdraw maj.page (h.frame maj) maj.pages.toNat
    else h.mem
  owes : ∀ m₀, h.Owes m₀ → h'.Owes m₀

theorem without_sound (hs : maj.Sound) (hmin : min ∈ maj.minors) : (maj.without min).Sound := by
  have hperm := List.perm_cons_erase hmin
  have hsum := (hperm.map Minor.width).sum_eq
  rw [List.map_cons, List.sum_cons] at hsum
  have hwidth : min.width = min.size.toNat + 24 := rfl
  have husage := hs.usage
  have hlt := maj.usage.isLt
  refine ⟨hs.low, hs.region, hs.high, hs.pos, hs.size, ?_,
    hs.packed.sublist List.erase_sublist, fun m hm => hs.minors m (List.mem_of_mem_erase hm)⟩
  have hadd : (min.size + sizeofMinor).toNat = min.width := by
    rw [BitVec.toNat_add]
    change (min.size.toNat + 24) % 2 ^ 32 = _
    omega
  change (maj.usage - (min.size + sizeofMinor)).toNat = 24 + ((maj.minors.erase min).map _).sum
  rw [BitVec.toNat_sub_of_le (by rw [BitVec.le_def]; omega), hadd]
  omega

theorem sizes_perm {l l' : List Minor} (hperm : l.Perm l') : sizes l = sizes l' :=
  (hperm.map _).sum_eq

/-- The last allocation of a block takes the block with it. -/
theorem Good.release_last (hg : h.Good) (hmaj : maj ∈ h.majors) (hlast : maj.minors = [min]) :
    ∃ h', h.release maj min = .ok h' ∧ h.Freed h' maj min := by
  obtain ⟨pre, post, hsplit⟩ := List.append_of_mem hmaj
  have hs := hg.sound maj hmaj
  have hmapped := hg.mapped maj hmaj
  have hnone : (maj.without min).minors = [] := by
    change maj.minors.erase min = []
    rw [hlast, List.erase_cons_head]
  have hwidth : (maj.pages.setWidth 16).toNat = maj.pages.toNat := by
    have hregion := hs.region
    rw [BitVec.toNat_setWidth]
    omega
  have hfree : h.mem.liballocFree maj.page (maj.pages.setWidth 16) =
      .ok (h.mem.withdraw maj.page (h.frame maj) maj.pages.toNat) := by
    rw [← hwidth]
    refine Memory.liballocFree_eq hs.low (by rw [hwidth]; exact hs.high) hmapped.low ?_
    rw [hwidth]
    exact hmapped.pages
  have hfilter : h.majors.filter (fun m => m.page ≠ (maj.without min).page) = pre ++ post := by
    change h.majors.filter (fun m => m.page ≠ maj.page) = _
    have hne := hg.page_ne hsplit
    have hself : ∀ l : List Major, (∀ m ∈ l, m.page ≠ maj.page) →
        l.filter (fun m => m.page ≠ maj.page) = l := fun l hl =>
      List.filter_eq_self.mpr fun m hm => decide_eq_true (hl m hm)
    rw [hsplit, List.filter_append, List.filter_cons, if_neg (by simp),
      hself pre fun m hm => hne m (List.mem_append_left _ hm),
      hself post fun m hm => hne m (List.mem_append_right _ hm)]
  let bestBet := if h.bestBet = some maj.page then none else h.bestBet
  have hbet : bestBet ≠ some maj.page ∧ (bestBet = none ∨ bestBet = h.bestBet) := by
    by_cases hbest : h.bestBet = some maj.page
    · exact ⟨by simp [bestBet, hbest], .inl (if_pos hbest)⟩
    · exact ⟨by simp [bestBet, hbest], .inr (if_neg hbest)⟩
  have hsize : BitVec.ofNat 32 (sizes maj.minors) = min.size := by
    rw [hlast]
    change BitVec.ofNat 32 (min.size.toNat + 0) = _
    rw [Nat.add_zero, BitVec.ofNat_toNat, BitVec.setWidth_eq]
  have hgood := hg.remove hsplit hbet.1 hbet.2
  rw [hsize] at hgood
  have hkept := hgood.withMem (hg.kept_withdraw hsplit)
  refine ⟨_, ?_, hkept, fun hused m hm => ?_, ?_, rfl, (if_pos hlast).symm,
    fun m₀ ho => ho.withdraw hg hsplit rfl rfl⟩
  · rw [release]
    dsimp only
    rw [if_pos hnone]
    refine Machine.bind_eq_ok_iff.mpr ⟨_, hfree, ?_⟩
    rw [hfilter]
    rfl
  · rcases List.mem_append.mp hm with hpre | hpost
    · exact hused m (hsplit ▸ List.mem_append_left _ hpre)
    · exact hused m (hsplit ▸ List.mem_append_right _ (List.mem_cons_of_mem _ hpost))
  · change h.minors.Perm (min :: (pre ++ post).flatMap Major.minors)
    rw [minors_split hsplit, hlast, List.flatMap_append]
    exact List.perm_middle

theorem without_ne_nil (hmin : min ∈ maj.minors) (hne : maj.minors ≠ [min]) :
    (maj.without min).minors ≠ [] := by
  intro hnone
  have hperm : maj.minors.Perm (min :: (maj.without min).minors) := List.perm_cons_erase hmin
  rw [hnone] at hperm
  exact hne (List.perm_singleton.mp hperm)

/-- Only the best bet may be another one. -/
theorem Good.rebet_ok (hg : h.Good) (maj : Major) :
    ∃ bestBet, (bestBet = h.bestBet ∨ bestBet = some maj.page) ∧
      h.rebet maj = .ok { h with bestBet := bestBet } := by
  rw [rebet]
  split
  next => exact ⟨h.bestBet, .inl rfl, rfl⟩
  next page hbest =>
    obtain ⟨m, hm, hpage⟩ := hg.bet page hbest
    split
    next hnone => exact absurd (decide_eq_true hpage) (List.find?_eq_none.mp hnone m hm)
    next best hfound =>
      split
      next => exact ⟨some maj.page, .inr rfl, rfl⟩
      next => exact ⟨h.bestBet, .inl rfl, rfl⟩

/-- Other allocations stay in the block, which may become the best bet. -/
theorem Good.release_more (hg : h.Good) (hmaj : maj ∈ h.majors) (hmin : min ∈ maj.minors)
    (hmore : maj.minors ≠ [min]) : ∃ h', h.release maj min = .ok h' ∧ h.Freed h' maj min := by
  obtain ⟨pre, post, hsplit⟩ := List.append_of_mem hmaj
  have hnone := without_ne_nil hmin hmore
  have hperm := List.perm_cons_erase hmin
  have hmajors := @Good.store_majors h maj pre post hg hsplit (maj.without min) rfl
  have hstore : Heap.store { h with inuse := h.inuse - min.size } (maj.without min) =
      { h with majors := pre ++ maj.without min :: post, inuse := h.inuse - min.size } := by
    rw [← hmajors]
    rfl
  have hsizes : h.inuse - min.size + BitVec.ofNat 32 (sizes maj.minors) =
      h.inuse + BitVec.ofNat 32 (sizes (maj.without min).minors) := by
    have hsum : sizes maj.minors = min.size.toNat + sizes (maj.without min).minors :=
      sizes_perm hperm
    rw [hsum, BitVec.ofNat_add, BitVec.ofNat_toNat, BitVec.setWidth_eq, ← BitVec.add_assoc,
      BitVec.sub_add_cancel]
  have hgood : ∀ bestBet, (bestBet = h.bestBet ∨ bestBet = some maj.page) →
      Good { h with
        majors := pre ++ maj.without min :: post
        inuse := h.inuse - min.size
        bestBet := bestBet } := by
    intro bestBet hbet
    refine hg.replace hsplit ⟨rfl, rfl, rfl⟩ (without_sound (hg.sound maj hmaj) hmin) ?_ hsizes
    rintro page hpage
    rcases hbet with rfl | rfl
    · exact hg.bet page hpage
    · exact ⟨maj, hmaj, Option.some.inj hpage⟩
  have hfreed : ∀ bestBet, (bestBet = h.bestBet ∨ bestBet = some maj.page) →
      h.Freed { h with
        majors := pre ++ maj.without min :: post
        inuse := h.inuse - min.size
        bestBet := bestBet } maj min := by
    intro bestBet hbet
    refine ⟨hgood bestBet hbet, fun hused m hm => ?_, ?_, rfl, (if_neg hmore).symm,
      fun m₀ ho => ho.congr rfl ?_⟩
    · rcases List.mem_append.mp hm with hpre | hm
      · exact hused m (hsplit ▸ List.mem_append_left _ hpre)
      · rcases List.mem_cons.mp hm with rfl | hpost
        · exact hnone
        · exact hused m (hsplit ▸ List.mem_append_right _ (List.mem_cons_of_mem _ hpost))
    · change h.minors.Perm (min :: (pre ++ maj.without min :: post).flatMap Major.minors)
      rw [minors_split hsplit, List.flatMap_append, List.flatMap_cons]
      refine (List.Perm.append_left _ (hperm.append_right _)).trans ?_
      rw [List.cons_append]
      exact List.perm_middle
    · rw [runs, runs, hsplit, List.map_append, List.map_append]
      rfl
  obtain ⟨bestBet, hbet, hrebet⟩ := (hgood h.bestBet (.inl rfl)).rebet_ok (maj.without min)
  refine ⟨_, ?_, hfreed bestBet hbet⟩
  rw [release]
  dsimp only
  rw [if_neg hnone, hstore]
  exact hrebet

theorem Good.pointer_ne_zero (hg : h.Good) (hmaj : maj ∈ h.majors) (hmin : min ∈ maj.minors) :
    min.pointer ≠ 0 := by
  intro hzero
  obtain ⟨-, hlow, -⟩ := (hg.sound maj hmaj).pointer hmin
  rw [hzero] at hlow
  change min.start + 40 ≤ 0 at hlow
  omega

/-- `kfree` of a pointer that has been returned and not been freed. -/
theorem Good.kfree_ok (hg : h.Good) (hmaj : maj ∈ h.majors) (hmin : min ∈ maj.minors) :
    ∃ h', h.kfree min.pointer = .ok h' ∧ h.Freed h' maj min := by
  have hrelease : ∃ h', h.release maj min = .ok h' ∧ h.Freed h' maj min := by
    by_cases hlast : maj.minors = [min]
    · exact hg.release_last hmaj hlast
    · exact hg.release_more hmaj hmin hlast
  obtain ⟨h', hres, hfreed⟩ := hrelease
  refine ⟨h', ?_, hfreed⟩
  rw [kfree, if_neg (hg.pointer_ne_zero hmaj hmin)]
  exact Machine.bind_eq_ok_iff.mpr ⟨_, hg.header_eq hmaj hmin, hres⟩

end Heap
end Kmalloc
end JkxyKernel
