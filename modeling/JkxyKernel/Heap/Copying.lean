import JkxyKernel.Heap.Freeing

/-!
# Reallocation

`krealloc` either keeps the allocation and its size in the header, or moves what the old allocation
holds into a new one.  It does not look whether there is a new one: without room it copies to the
null pointer, unless there is nothing to copy.  The same is true of `kcalloc`.
-/

namespace JkxyKernel
namespace Kmalloc
namespace Heap

open Packing
open Paging (Fault newPageCount)

variable {h : Heap} {maj : Major} {min : Minor} {s1 s2 v a : BitVec 32} {n : Nat}
  {bytes : BitVec 32 → BitVec 8} {size : BitVec 32}

/-! ### Copying -/

/-- One unit is copied, and then the rest. -/
theorem copyUnit_step (hs1 : s1.toNat + (n + v.toNat) < 2 ^ 32)
    (hs2 : s2.toNat + (n + v.toNat) < 2 ^ 32)
    (hapart : Apart s1.toNat (n + v.toNat) s2.toNat (n + v.toNat)) :
    (if (a - (s1 + v)).toNat < n then
        copyUnit s1 s2 v.toNat bytes (s2 + v + (a - (s1 + v)))
      else copyUnit s1 s2 v.toNat bytes a) =
      if (a - s1).toNat < n + v.toNat then bytes (s2 + (a - s1)) else bytes a := by
  have hback : s2 + v + (a - (s1 + v)) = s2 + (a - s1) := by
    apply BitVec.eq_of_toNat_eq
    simp only [BitVec.toNat_add, BitVec.toNat_sub]
    omega
  have hrest : (a - (s1 + v)).toNat = (2 ^ 32 - v.toNat + (a - s1).toNat) % 2 ^ 32 := by
    simp only [BitVec.toNat_add, BitVec.toNat_sub]
    omega
  have hoff : (s2 + (a - s1) - s1).toNat =
      (2 ^ 32 - s1.toNat + (s2.toNat + (a - s1).toNat)) % 2 ^ 32 := by
    rw [BitVec.toNat_sub, BitVec.toNat_add]
    omega
  have hd := (a - s1).isLt
  rw [hback, hrest]
  simp only [copyUnit, hoff]
  generalize (a - s1).toNat = d at hd ⊢
  rcases Nat.lt_or_ge d v.toNat with hfirst | hbehind
  · rw [if_neg (by omega), if_pos hfirst, if_pos (by omega)]
  · rcases Nat.lt_or_ge d (n + v.toNat) with hin | hout
    · rw [if_pos (by omega), if_pos hin, if_neg ?_]
      rcases hapart with hle | hle <;> omega
    · rw [if_neg (by omega), if_neg (by omega), if_neg (by omega)]

theorem toNat_step {k : Nat} (h : s1.toNat + (k + v.toNat) < 2 ^ 32) :
    (s1 + v).toNat = s1.toNat + v.toNat := by
  rw [BitVec.toNat_add, Nat.mod_eq_of_lt (by omega)]

/-- The rest is as far away from where it is copied to. -/
theorem apart_step (h : Apart s1.toNat (n + v.toNat) s2.toNat (n + v.toNat)) :
    Apart (s1.toNat + v.toNat) n (s2.toNat + v.toNat) n :=
  h.imp (by omega) (by omega)

/-- All bytes are copied, and no others are written, by induction on the units. -/
theorem copyLoop_apply (hs1 : s1.toNat + n < 2 ^ 32) (hs2 : s2.toNat + n < 2 ^ 32)
    (hapart : Apart s1.toNat n s2.toNat n) :
    copyLoop s1 s2 n bytes a = if (a - s1).toNat < n then bytes (s2 + (a - s1)) else bytes a := by
  fun_induction copyLoop s1 s2 n bytes with
  | case1 s1 s2 n bytes ih =>
      have h1 : (s1 + 4).toNat = s1.toNat + 4 := @toNat_step s1 4 n hs1
      have h2 : (s2 + 4).toNat = s2.toNat + 4 := @toNat_step s2 4 n hs2
      rw [ih (by rw [h1]; omega) (by rw [h2]; omega)
        (by rw [h1, h2]; exact @apart_step s1 s2 4 n hapart)]
      exact @copyUnit_step s1 s2 4 a n bytes hs1 hs2 hapart
  | case2 s1 s2 n bytes _ ih =>
      have h1 : (s1 + 1).toNat = s1.toNat + 1 := @toNat_step s1 1 n hs1
      have h2 : (s2 + 1).toNat = s2.toNat + 1 := @toNat_step s2 1 n hs2
      rw [ih (by rw [h1]; omega) (by rw [h2]; omega)
        (by rw [h1, h2]; exact @apart_step s1 s2 1 n hapart)]
      exact @copyUnit_step s1 s2 1 a n bytes hs1 hs2 hapart
  | case3 s1 s2 bytes => exact (if_neg (Nat.not_lt_zero _)).symm

/-! ### Allocations do not meet -/

/-- The pieces of all allocations lie apart, in one block or in two. -/
theorem Good.minors_apart (hg : h.Good) :
    h.minors.Pairwise fun a b => Apart a.start a.width b.start b.width := by
  rw [minors, List.pairwise_flatMap]
  refine ⟨fun m hm => (hg.sound m hm).packed.pairwise, ?_⟩
  refine hg.apart.imp_of_mem fun {maj maj'} hmaj hmaj' hapart a ha b hb => ?_
  have hs := hg.sound maj hmaj
  have hs' := hg.sound maj' hmaj'
  have hbounds := hs.packed.bounds ha
  have hbounds' := hs'.packed.bounds hb
  have hsize := hs.size
  have hsize' := hs'.size
  rw [Major.low, Major.high] at hbounds hbounds'
  rcases hapart with hle | hle
  · exact .inl (by omega)
  · exact .inr (by omega)

/-- The memory behind a pointer is in the piece of its allocation. -/
theorem Good.pointer_bounds (hg : h.Good) (hmin : min ∈ h.minors) :
    min.pointer.toNat % 16 = 0 ∧ min.start + 40 ≤ min.pointer.toNat ∧
      min.pointer.toNat + min.reqSize.toNat ≤ min.start + min.width ∧
      min.start + min.width < 2 ^ 32 := by
  obtain ⟨maj, hmaj, hmin⟩ := mem_minors.mp hmin
  have hs := hg.sound maj hmaj
  obtain ⟨haligned, hlow, hhigh⟩ := hs.pointer hmin
  have hbounds := (hs.packed.bounds hmin).2
  have hlt := hs.high_lt
  exact ⟨haligned, hlow, hhigh, by omega⟩

/-- The memory of two allocations does not meet. -/
theorem Good.memory_apart (hg : h.Good) :
    h.minors.Pairwise fun a b =>
      Apart a.pointer.toNat a.reqSize.toNat b.pointer.toNat b.reqSize.toNat := by
  refine hg.minors_apart.imp_of_mem fun {a b} ha hb hapart => ?_
  have hbounds := hg.pointer_bounds ha
  have hbounds' := hg.pointer_bounds hb
  rcases hapart with hle | hle
  · exact .inl (by omega)
  · exact .inr (by omega)

/-- What callers keep in their memory does not matter. -/
theorem Good.withBytes (hg : h.Good) (bytes : BitVec 32 → BitVec 8) :
    Good { h with bytes := bytes } :=
  ⟨hg.sound, hg.apart, hg.frames, fun m hm => ⟨(hg.mapped m hm).low, (hg.mapped m hm).pages⟩,
    hg.bet, hg.allocated, hg.inuse⟩

/-! ### `krealloc` -/

/-- An allocation has another size, and another place unless it is the old one.  What was in it is
still there. -/
structure Reallocated (h h' : Heap) (min : Minor) (size p : BitVec 32) : Prop where
  good : h'.Good
  used : h.Used → h'.Used
  made : ∃ new : Minor, new.pointer = p ∧ new.reqSize = size ∧
    (min :: h'.minors).Perm (new :: h.minors)
  bytes : ∀ a, h'.bytes a =
    if (a - p).toNat < min.reqSize.toNat then h.bytes (min.pointer + (a - p)) else h.bytes a
  owes : ∀ m₀, h.Owes m₀ → h'.Owes m₀

/-- The sizes of the other requests in the block are the same. -/
theorem resize_perm (hs : maj.Sound) (hmin : min ∈ maj.minors) :
    (min :: (maj.resize size min).minors).Perm ({ min with reqSize := size } :: maj.minors) := by
  obtain ⟨pre, post, hsplit⟩ := List.append_of_mem hmin
  have hapart := hs.packed.pairwise
  rw [hsplit, List.pairwise_append, List.pairwise_cons] at hapart
  have hwidth : ∀ m : Minor, 0 < m.width := fun m => Nat.succ_pos _
  have hother : ∀ m ∈ pre ++ post, m.addr ≠ min.addr := by
    intro m hm heq
    have hstart : m.start = min.start := congrArg BitVec.toNat heq
    have hm0 := hwidth m
    have hmin0 := hwidth min
    rcases List.mem_append.mp hm with hpre | hpost
    · rcases hapart.2.2 m hpre min List.mem_cons_self with hle | hle <;> omega
    · rcases hapart.2.1.1 m hpost with hle | hle <;> omega
  have hsame : ∀ l : List Minor, (∀ m ∈ l, m.addr ≠ min.addr) → l.map (fun m =>
      if m.addr = min.addr then { m with reqSize := size } else m) = l := fun l hl =>
    (List.map_congr_left fun m hm => if_neg (hl m hm)).trans (List.map_id l)
  have hresized : (maj.resize size min).minors =
      pre ++ { min with reqSize := size } :: post := by
    rw [Major.resize]
    simp only [hsplit, List.map_append, List.map_cons, if_true]
    rw [hsame pre fun m hm => hother m (List.mem_append_left _ hm),
      hsame post fun m hm => hother m (List.mem_append_right _ hm)]
  rw [hresized, hsplit]
  exact ((List.perm_middle.cons min).trans (List.Perm.swap _ _ _)).trans
    (List.perm_middle.symm.cons _)

theorem resize_sound (hs : maj.Sound) (hmin : min ∈ maj.minors) (hle : size ≤ min.reqSize) :
    (maj.resize size min).Sound := by
  have hstart : ∀ m : Minor, Minor.start
      (if m.addr = min.addr then { m with reqSize := size } else m) = m.start := by
    intro m
    split <;> rfl
  have hwidth : ∀ m : Minor, Minor.width
      (if m.addr = min.addr then { m with reqSize := size } else m) = m.width := by
    intro m
    split <;> rfl
  refine ⟨hs.low, hs.region, hs.high, hs.pos, hs.size, ?_, hs.packed.map hstart hwidth, ?_⟩
  · refine hs.usage.trans ?_
    rw [Major.resize, List.map_map]
    exact congrArg (fun l => 24 + List.sum l) (List.map_congr_left fun m _ => (hwidth m).symm)
  · intro m hm
    obtain ⟨m', hm', rfl⟩ := List.mem_map.mp hm
    have hsound := hs.minors m' hm'
    split
    next heq =>
      have hmeet : m' = min := by
        have hpos : ∀ m : Minor, m.addr = min.addr → m.start ≤ min.start ∧
            min.start < m.start + m.width := by
          intro m heq
          rw [Minor.start, Minor.start, Minor.width, heq]
          omega
        exact eq_of_meet hs.packed.pairwise hm' hmin (hpos m' heq) (hpos min rfl)
      subst hmeet
      have hroom := hsound.room
      rw [BitVec.le_def] at hle
      have hroom' : size.toNat + 32 ≤ m'.size.toNat := by omega
      exact ⟨hroom', hsound.info⟩
    next => exact hsound

/-- A smaller size is written into the header. -/
theorem Good.krealloc_smaller (hg : h.Good) (hmaj : maj ∈ h.majors) (hmin : min ∈ maj.minors)
    (hne : size ≠ 0) (hle : size ≤ min.reqSize) :
    ∃ h', h.krealloc min.pointer size = .ok (h', min.pointer) ∧
      h.Reallocated h' min size min.pointer := by
  obtain ⟨pre, post, hsplit⟩ := List.append_of_mem hmaj
  have hs := hg.sound maj hmaj
  have hperm := @resize_perm maj min size hs hmin
  have hmajors := @Good.store_majors h maj pre post hg hsplit (maj.resize size min) rfl
  have hstore : h.store (maj.resize size min) =
      { h with
        majors := pre ++ maj.resize size min :: post
        inuse := h.inuse
        bestBet := h.bestBet } := by
    rw [← hmajors]
    rfl
  have hsizes : sizes (maj.resize size min).minors = sizes maj.minors := by
    have hsum := sizes_perm hperm
    exact Nat.add_left_cancel hsum
  refine ⟨h.store (maj.resize size min), ?_, ?_, fun hused m hm => ?_, ?_, fun a => ?_,
    fun m₀ ho => ho.congr rfl ?_⟩
  · rw [krealloc, if_neg hne, if_neg (hg.pointer_ne_zero hmaj hmin)]
    refine Machine.bind_eq_ok_iff.mpr ⟨_, hg.header_eq hmaj hmin, ?_⟩
    dsimp only
    rw [if_pos hle]
  · rw [hstore]
    exact hg.replace hsplit ⟨rfl, rfl, rfl⟩ (resize_sound hs hmin hle) hg.bet (by rw [hsizes])
  · rw [hmajors] at hm
    rcases List.mem_append.mp hm with hpre | hm
    · exact hused m (hsplit ▸ List.mem_append_left _ hpre)
    · rcases List.mem_cons.mp hm with rfl | hpost
      · exact fun hnone => hused maj hmaj (List.map_eq_nil_iff.mp hnone)
      · exact hused m (hsplit ▸ List.mem_append_right _ (List.mem_cons_of_mem _ hpost))
  · refine ⟨{ min with reqSize := size }, rfl, rfl, ?_⟩
    rw [minors_split hsplit, minors, hmajors, List.flatMap_append, List.flatMap_cons]
    refine List.perm_middle.symm.trans (.trans (.append_left _ ?_) List.perm_middle)
    exact hperm.append_right _
  · split
    next => rw [BitVec.add_comm, BitVec.sub_add_cancel]; rfl
    next => rfl
  · rw [runs, runs, hmajors, hsplit, List.map_append, List.map_append]
    rfl

/-- A new allocation, what is copied into it, and the old one that is freed. -/
theorem Allocated.move_ok {h₁ : Heap} {p : BitVec 32} (hmin : min ∈ h.minors)
    (hlt : min.reqSize < size) (hmade : h.Allocated h₁ size p) :
    p ≠ 0 ∧ ∃ h', (do let h ← h₁.liballocMemcpy p min.pointer min.reqSize
                      let h ← h.kfree min.pointer
                      .ok (h, p)) = .ok (h', p) ∧ h.Reallocated h' min size p := by
  obtain ⟨new, rfl, hsize, hperm⟩ := hmade.made
  have hnew : new ∈ h₁.minors := hperm.mem_iff.mpr List.mem_cons_self
  have hold : min ∈ h₁.minors := hperm.mem_iff.mpr (List.mem_cons_of_mem _ hmin)
  obtain ⟨majNew, hmajNew, hminNew⟩ := mem_minors.mp hnew
  have hne := hmade.good.pointer_ne_zero hmajNew hminNew
  have hapart : Apart new.pointer.toNat new.reqSize.toNat min.pointer.toNat min.reqSize.toNat := by
    have hpairs := (hperm.pairwise_iff fun {a b} h => Or.symm h).mp hmade.good.memory_apart
    exact (List.pairwise_cons.mp hpairs).1 min hmin
  have hbounds := hmade.good.pointer_bounds hnew
  have hbounds' := hmade.good.pointer_bounds hold
  rw [BitVec.lt_def] at hlt
  rw [hsize] at hapart hbounds
  have hcopy : ∀ a, copyLoop new.pointer min.pointer min.reqSize.toNat h₁.bytes a =
      if (a - new.pointer).toNat < min.reqSize.toNat then h.bytes (min.pointer + (a - new.pointer))
      else h.bytes a := by
    intro a
    rw [copyLoop_apply (by omega) (by omega) (by rcases hapart with hle | hle <;>
      [left; right] <;> omega), hmade.bytes]
  have hold' : min ∈ Heap.minors { h₁ with
      bytes := copyLoop new.pointer min.pointer min.reqSize.toNat h₁.bytes } := hold
  obtain ⟨majOld, hmajOld, hminOld⟩ := mem_minors.mp hold'
  obtain ⟨h', hfree, hfreed⟩ := (hmade.good.withBytes _).kfree_ok hmajOld hminOld
  have hmemcpy : h₁.liballocMemcpy new.pointer min.pointer min.reqSize =
      .ok { h₁ with bytes := copyLoop new.pointer min.pointer min.reqSize.toNat h₁.bytes } :=
    if_neg fun hnull => hne hnull.1
  refine ⟨hne, h', ?_, hfreed.good, fun _ => hfreed.used hmade.used,
    ⟨new, rfl, hsize, hfreed.gone.symm.trans hperm⟩, fun a => ?_,
    fun m₀ ho => hfreed.owes m₀ ((hmade.owes m₀ ho).congr rfl rfl)⟩
  · exact Machine.bind_eq_ok_iff.mpr ⟨_, hmemcpy, Machine.bind_eq_ok_iff.mpr ⟨_, hfree, rfl⟩⟩
  · rw [hfreed.bytes]
    exact hcopy a

/-- The allocation is moved, if there is room for the new one. -/
theorem Good.krealloc_larger (hg : h.Good) (hused : h.Used) (hmaj : maj ∈ h.majors)
    (hmin : min ∈ maj.minors) (hreq : Modest size) (hlt : min.reqSize < size) :
    (∃ h' p, h.krealloc min.pointer size = .ok (h', p) ∧ p ≠ 0 ∧
      h.Reallocated h' min size p) ∨
    h.Full (size.toNat + 56) ∧ ¬ h.mem.RoomFor (newPageCount (size + 32)).toNat ∧
      if min.reqSize = 0 then
        ∃ h', h.krealloc min.pointer size = .ok (h', 0) ∧ h'.Good ∧ h'.Used ∧
          h.minors.Perm (min :: h'.minors) ∧ h'.bytes = h.bytes ∧ ∀ m₀, h.Owes m₀ → h'.Owes m₀
      else h.krealloc min.pointer size = .error .pageFault := by
  have hne : size ≠ 0 := by
    rintro rfl
    exact BitVec.not_lt_zero hlt
  have hheader := hg.header_eq hmaj hmin
  have hpointer := hg.pointer_ne_zero hmaj hmin
  have hkrealloc : h.krealloc min.pointer size = (do
      let r ← h.kmalloc size
      let h ← r.1.liballocMemcpy r.2 min.pointer min.reqSize
      let h ← h.kfree min.pointer
      .ok (h, r.2)) := by
    rw [krealloc, if_neg hne, if_neg hpointer]
    simp only [hheader, bind, Except.bind, if_neg (BitVec.not_le.mpr hlt)]
  obtain ⟨h₁, p, hres, hmade | ⟨rfl, hrefused⟩⟩ := hg.kmalloc_answered hused hreq
  · left
    obtain ⟨hp, h', hmove, hreallocated⟩ :=
      hmade.move_ok (mem_minors.mpr ⟨maj, hmaj, hmin⟩) hlt
    refine ⟨h', p, ?_, hp, hreallocated⟩
    rw [hkrealloc]
    exact Machine.bind_eq_ok_iff.mpr ⟨_, hres, hmove⟩
  · right
    refine ⟨hrefused.full, hrefused.room, ?_⟩
    split
    next hzero =>
      have hmaj₁ : maj ∈ h₁.majors := hrefused.majors ▸ hmaj
      obtain ⟨h', hfree, hfreed⟩ := hrefused.good.kfree_ok hmaj₁ hmin
      have hmemcpy : h₁.liballocMemcpy 0 min.pointer min.reqSize = .ok h₁ := by
        rw [hzero]
        rfl
      have hused₁ : h₁.Used := by
        rw [Used, hrefused.majors]
        exact hused
      refine ⟨h', ?_, hfreed.good, hfreed.used hused₁, ?_, hfreed.bytes.trans hrefused.bytes,
        fun m₀ ho => hfreed.owes m₀ (hrefused.owes ho)⟩
      · rw [hkrealloc]
        exact Machine.bind_eq_ok_iff.mpr ⟨_, hres,
          Machine.bind_eq_ok_iff.mpr ⟨_, hmemcpy, Machine.bind_eq_ok_iff.mpr ⟨_, hfree, rfl⟩⟩⟩
      · rw [minors, ← hrefused.majors]
        exact hfreed.gone
    next hsome =>
      have hmemcpy : h₁.liballocMemcpy 0 min.pointer min.reqSize = .error .pageFault :=
        if_pos ⟨rfl, hsome⟩
      rw [hkrealloc, hres]
      simp only [bind, Except.bind, hmemcpy]

/-! ### `kcalloc` -/

theorem Allocated.ne_zero {h' : Heap} {p : BitVec 32} (hmade : h.Allocated h' size p) : p ≠ 0 := by
  obtain ⟨min, rfl, -, hperm⟩ := hmade.made
  obtain ⟨maj, hmaj, hmin⟩ := mem_minors.mp (hperm.mem_iff.mpr List.mem_cons_self)
  exact hmade.good.pointer_ne_zero hmaj hmin

/-- The new memory is filled with zeros, if there is room for it. -/
theorem Good.kcalloc_answered {nobj : BitVec 32} (hg : h.Good) (hused : h.Used)
    (hreq : Modest (nobj * size)) :
    (∃ h' p, h.Allocated h' (nobj * size) p ∧ h.kcalloc nobj size =
      .ok ({ h' with bytes := fun a => if a - p < nobj * size then 0 else h.bytes a }, p)) ∨
    ∃ h', h.Refused h' (nobj * size) ∧ h.kcalloc nobj size =
      if nobj * size = 0 then .ok (h', 0) else .error .pageFault := by
  rw [kcalloc]
  generalize nobj * size = n at hreq ⊢
  obtain ⟨h', p, hres, hmade | ⟨rfl, hrefused⟩⟩ := hg.kmalloc_answered hused hreq
  · refine .inl ⟨h', p, hmade, ?_⟩
    have hmemset : h'.liballocMemset p 0 n =
        .ok { h' with bytes := fun a => if a - p < n then 0 else h.bytes a } := by
      rw [← hmade.bytes]
      exact if_neg fun hnull => hmade.ne_zero hnull.1
    exact Machine.bind_eq_ok_iff.mpr ⟨_, hres, Machine.bind_eq_ok_iff.mpr ⟨_, hmemset, rfl⟩⟩
  · refine .inr ⟨h', hrefused, ?_⟩
    split
    next hzero =>
      have hmemset : h'.liballocMemset 0 0 n = .ok h' := by
        have hnone : (fun a => if a - 0 < n then (0 : BitVec 8) else h'.bytes a) = h'.bytes := by
          funext a
          rw [hzero]
          exact if_neg BitVec.not_lt_zero
        refine (if_neg fun hnull => hnull.2 hzero).trans ?_
        rw [hnone]
      exact Machine.bind_eq_ok_iff.mpr ⟨_, hres, Machine.bind_eq_ok_iff.mpr ⟨_, hmemset, rfl⟩⟩
    next hsome =>
      have hmemset : h'.liballocMemset 0 0 n = .error .pageFault := if_pos ⟨rfl, hsome⟩
      simp only [hres, bind, Except.bind, hmemset]

end Heap
end Kmalloc
end JkxyKernel
