import JkxyKernel.Heap.Owing

/-!
# The search for room

`kmalloc` goes through the blocks at most twice: from the best bet to the last one, and then from
the first one.  It asks the kernel for another block only when there is no gap in any block, and
returns the null pointer only when the kernel has no pages or no frames for it either.
-/

namespace JkxyKernel
namespace Kmalloc

open Paging (Fault Memory newPageCount sizeofMinor)

theorem Modest.toNat_size {reqSize : BitVec 32} (hreq : Modest reqSize) :
    (reqSize + 32).toNat = reqSize.toNat + 32 := by
  rw [Modest] at hreq
  rw [BitVec.toNat_add]
  change (reqSize.toNat + 32) % 2 ^ 32 = _
  omega

namespace Heap

/-- No block has a gap of this width. -/
def Full (h : Heap) (w : Nat) : Prop := ∀ maj ∈ h.majors, ¬ maj.HasGap w

/-- There is one more allocation, for a request of this size. -/
structure Allocated (h h' : Heap) (reqSize p : BitVec 32) : Prop where
  good : h'.Good
  used : h'.Used
  made : ∃ min : Minor, min.pointer = p ∧ min.reqSize = reqSize ∧
    h'.minors.Perm (min :: h.minors)
  bytes : h'.bytes = h.bytes
  pages : h'.mem = h.mem ∨ h.Full (reqSize.toNat + 56)
  owes : ∀ m₀, h.Owes m₀ → h'.Owes m₀

/-- There was no room, neither in the blocks nor for another one. -/
structure Refused (h h' : Heap) (reqSize : BitVec 32) : Prop where
  good : h'.Good
  majors : h'.majors = h.majors
  mem : h'.mem = h.mem
  bytes : h'.bytes = h.bytes
  full : h.Full (reqSize.toNat + 56)
  room : ¬ h.mem.RoomFor (newPageCount (reqSize + 32)).toNat

/-- `kmalloc` returns a pointer to a new allocation, or the null pointer if there is no room. -/
def Answered (h : Heap) (reqSize : BitVec 32) (r : Except Fault (Heap × BitVec 32)) : Prop :=
  ∃ h' p, r = .ok (h', p) ∧ (h.Allocated h' reqSize p ∨ p = 0 ∧ h.Refused h' reqSize)

section Searching

variable {h h₁ : Heap} {maj : Major} {size reqSize bestSize : BitVec 32} {r : Major × Minor}
  {res : Except Fault (Heap × BitVec 32)} {page first i rounds : Nat} {startedBet : Bool}

/-- The best bet and the number of warnings do not matter. -/
theorem Answered.congr (hmajors : h₁.majors = h.majors) (hmem : h₁.mem = h.mem)
    (hbytes : h₁.bytes = h.bytes) (ha : h₁.Answered reqSize res) : h.Answered reqSize res := by
  obtain ⟨h', p, hres, ha⟩ := ha
  refine ⟨h', p, hres, ha.imp (fun hmade => ?_) (And.imp_right fun hnone => ?_)⟩
  · obtain ⟨min, hpointer, hsize, hperm⟩ := hmade.made
    have hminors : h₁.minors = h.minors := by rw [minors, minors, hmajors]
    refine ⟨hmade.good, hmade.used, ⟨min, hpointer, hsize, hminors ▸ hperm⟩,
      hmade.bytes.trans hbytes, ?_, fun m₀ ho => hmade.owes m₀ (ho.congr hmem ?_)⟩
    · rw [Full, ← hmajors, ← hmem]
      exact hmade.pages
    · rw [runs, runs, hmajors]
  · refine ⟨hnone.good, hnone.majors.trans hmajors, hnone.mem.trans hmem,
      hnone.bytes.trans hbytes, ?_, hmem ▸ hnone.room⟩
    rw [Full, ← hmajors]
    exact hnone.full

theorem Refused.owes {h' : Heap} {m₀ : Memory} (hr : h.Refused h' reqSize) (ho : h.Owes m₀) :
    h'.Owes m₀ := by
  refine ho.congr hr.mem ?_
  rw [runs, runs, hr.majors]

/-! ### The best bet -/

theorem Good.withBet (hg : h.Good) (hmaj : maj ∈ h.majors) :
    Good { h with bestBet := some maj.page } :=
  ⟨hg.sound, hg.apart, hg.frames, fun m hm => ⟨(hg.mapped m hm).low, (hg.mapped m hm).pages⟩,
    fun _ hpage => ⟨maj, hmaj, Option.some.inj hpage⟩, hg.allocated, hg.inuse⟩

/-- A block that becomes the best bet changes nothing else. -/
theorem bet_eq (h : Heap) (maj : Major) (bestSize : BitVec 32) :
    (h.bet maj bestSize).1 = h ∨ (h.bet maj bestSize).1 = { h with bestBet := some maj.page } := by
  rw [bet]
  split
  next => exact .inr rfl
  next => exact .inl rfl

theorem Good.bet_good (hg : h.Good) (hmaj : maj ∈ h.majors) : (h.bet maj bestSize).1.Good := by
  rcases h.bet_eq maj bestSize with heq | heq
  · rw [heq]
    exact hg
  · rw [heq]
    exact hg.withBet hmaj

theorem bet_fields (h : Heap) (maj : Major) (bestSize : BitVec 32) :
    (h.bet maj bestSize).1.majors = h.majors ∧ (h.bet maj bestSize).1.mem = h.mem ∧
      (h.bet maj bestSize).1.bytes = h.bytes := by
  rcases h.bet_eq maj bestSize with heq | heq
  · rw [heq]
    exact ⟨rfl, rfl, rfl⟩
  · rw [heq]
    exact ⟨rfl, rfl, rfl⟩

/-! ### An allocation that is placed -/

/-- The block with the new allocation replaces the old one. -/
theorem Good.settle_allocated (hg : h.Good) (hused : ∀ m ∈ h.majors, m ≠ maj → m.minors ≠ [])
    (hmaj : maj ∈ h.majors) (hr : maj.Placed size reqSize r) :
    h.Allocated (h.settle size r).1 reqSize (h.settle size r).2 := by
  obtain ⟨pre, post, hsplit⟩ := List.append_of_mem hmaj
  obtain ⟨pre', post', hminors, huse⟩ := hr.split
  have hfields : r.1.page = maj.page ∧ r.1.pages = maj.pages ∧ r.1.size = maj.size := by
    rw [huse]
    exact ⟨rfl, rfl, rfl⟩
  have hnew : r.1.minors = pre' ++ r.2 :: post' := by
    rw [huse]
    rfl
  have heq : (h.settle size r).1 =
      { h with majors := pre ++ r.1 :: post, inuse := h.inuse + size, bestBet := h.bestBet } := by
    rw [← hg.store_majors hsplit hfields.1]
    rfl
  have hsizes : sizes r.1.minors = sizes maj.minors + size.toNat := by
    have hmin : sizes (r.2 :: post') = size.toNat + sizes post' := by
      rw [← hr.sizes.1]
      rfl
    rw [hnew, hminors, sizes_append, sizes_append, hmin]
    omega
  constructor
  case good =>
    rw [heq]
    refine hg.replace hsplit hfields hr.sound hg.bet ?_
    rw [hsizes, BitVec.ofNat_add, BitVec.ofNat_toNat, BitVec.setWidth_eq, BitVec.add_assoc,
      BitVec.add_comm size]
  case used =>
    rw [heq]
    intro m hm
    rcases List.mem_append.mp hm with hpre | hm
    · refine hused m (hsplit ▸ List.mem_append_left _ hpre) fun heq => ?_
      exact hg.page_ne hsplit m (List.mem_append_left _ hpre) (by rw [heq])
    · rcases List.mem_cons.mp hm with rfl | hpost
      · rw [hnew]
        exact List.append_ne_nil_of_right_ne_nil _ (List.cons_ne_nil _ _)
      · refine hused m (hsplit ▸ List.mem_append_right _ (List.mem_cons_of_mem _ hpost))
          fun heq => ?_
        exact hg.page_ne hsplit m (List.mem_append_right _ hpost) (by rw [heq])
  case made =>
    refine ⟨r.2, rfl, hr.sizes.2, ?_⟩
    have hall : (h.settle size r).1.minors =
        pre.flatMap Major.minors ++ (r.1.minors ++ post.flatMap Major.minors) := by
      rw [heq]
      exact @minors_split _ r.1 pre post rfl
    rw [hall, minors_split hsplit, hnew, hminors, List.append_assoc, List.append_assoc,
      List.cons_append]
    refine (List.Perm.append_left _ List.perm_middle).trans ?_
    exact List.perm_middle
  case bytes => rfl
  case pages => exact .inl rfl
  case owes =>
    refine fun m₀ ho => ho.congr rfl ?_
    rw [heq, runs, runs, hsplit]
    simp only [List.map_append, List.map_cons, hfields.1, hfields.2.1]

/-- The first allocation of a new block. -/
theorem Good.grown_allocated (hg : h.Good) (hused : h.Used) (hreq : Modest reqSize)
    (hfull : h.Full (reqSize.toNat + 56)) (hf : h.Fresh (reqSize + 32) maj first)
    (hg₁ : h₁.Good) (hmajors : h₁.majors = h.majors ++ [maj])
    (hmem₁ : h₁.mem = (h.grown maj first).mem) (hbytes : h₁.bytes = h.bytes) :
    h.Answered reqSize (.ok (h₁.settle (reqSize + 32) (maj.front (reqSize + 32) reqSize))) := by
  have hsize := hreq.toNat_size
  have hlt := hreq
  rw [Modest] at hlt
  have hplace : maj.place (reqSize + 32) reqSize = some (maj.front (reqSize + 32) reqSize) := by
    rw [Major.place, hf.minors]
  have hplaced := Major.place_some hf.sound hsize (by omega) hf.room hplace
  have hmem : maj ∈ h₁.majors := by
    rw [hmajors]
    exact List.mem_append_right _ (List.mem_singleton_self maj)
  have hmade := hg₁.settle_allocated (fun m hm hne => ?_) hmem hplaced
  · obtain ⟨min, hpointer, hsame, hperm⟩ := hmade.made
    refine ⟨_, _, rfl, .inl ⟨hmade.good, hmade.used, ⟨min, hpointer, hsame, ?_⟩,
      hmade.bytes.trans hbytes, .inr hfull, fun m₀ ho => hmade.owes m₀ ?_⟩⟩
    rotate_left
    · refine (ho.grown hg hf).congr hmem₁ ?_
      rw [runs, hmajors]
      rfl
    have hminors : h₁.minors = h.minors := by
      rw [minors, hmajors, List.flatMap_append, List.flatMap_cons, hf.minors]
      exact List.append_nil _
    rw [← hminors]
    exact hperm
  · rw [hmajors] at hm
    rcases List.mem_append.mp hm with hm | hm
    · exact hused m hm
    · exact absurd (List.mem_singleton.mp hm) hne

theorem Good.refused (hg : h.Good) (hfull : h.Full (reqSize.toNat + 56))
    (hroom : ¬ h.mem.RoomFor (newPageCount (reqSize + 32)).toNat) :
    h.Answered reqSize (.ok ({ h with warningCount := h.warningCount + 1 }, 0)) := by
  have hg' : Good { h with warningCount := h.warningCount + 1 } :=
    ⟨hg.sound, hg.apart, hg.frames, fun m hm => ⟨(hg.mapped m hm).low, (hg.mapped m hm).pages⟩,
      hg.bet, hg.allocated, hg.inuse⟩
  exact ⟨_, 0, rfl, .inr ⟨rfl, hg', rfl, rfl, rfl, hfull, hroom⟩⟩

/-! ### The loop -/

/-- The block that has just been made takes the allocation. -/
theorem kmallocLoop_fresh (hg : h.Good) (hused : h.Used) (hreq : Modest reqSize)
    (hfull : h.Full (reqSize.toNat + 56)) (hf : h.Fresh (reqSize + 32) maj first) :
    h.Answered reqSize (kmallocLoop (reqSize + 32) reqSize (rounds + 1) (h.grown maj first)
      h.majors.length startedBet bestSize) := by
  have hsize := hreq.toNat_size
  have hlt := hreq
  rw [Modest] at hlt
  have hget : (h.grown maj first).majors[h.majors.length]? = some maj :=
    List.getElem?_concat_length
  have hroom : ¬ maj.size - maj.usage < reqSize + 32 + sizeofMinor := by
    rw [BitVec.not_lt, Major.fits_iff (by omega)]
    exact hf.room
  have hplace : maj.place (reqSize + 32) reqSize = some (maj.front (reqSize + 32) reqSize) := by
    rw [Major.place, hf.minors]
  have hmem : maj ∈ (h.grown maj first).majors :=
    List.mem_append_right _ (List.mem_singleton_self maj)
  rw [kmallocLoop, hget]
  simp only [hroom, if_false, hplace]
  have hfields := (h.grown maj first).bet_fields maj bestSize
  exact hg.grown_allocated hused hreq hfull hf ((hg.grown hf).bet_good hmem) hfields.1
    hfields.2.1 hfields.2.2

/-- Another block that is of no use, and the first ones again. -/
theorem Full.of_getElem? {w : Nat} (hall : ∀ j < h.majors.length, ∀ m, h.majors[j]? = some m →
    ¬ m.HasGap w) : h.Full w := by
  intro m hm
  obtain ⟨j, hj, heq⟩ := List.getElem_of_mem hm
  exact hall j hj m (by rw [List.getElem?_eq_getElem hj, heq])

/-- The loop gets an answer, by induction on the rounds.  Without the best bet, the blocks that it
has been to have no gap. -/
theorem kmallocLoop_answered (hg : h.Good) (hused : h.Used) (hreq : Modest reqSize)
    (hi : i < h.majors.length)
    (hrounds : (if startedBet then h.majors.length else 0) + (h.majors.length - i) < rounds)
    (hbefore : startedBet = false → ∀ j < i, ∀ m, h.majors[j]? = some m →
      ¬ m.HasGap (reqSize.toNat + 56)) :
    h.Answered reqSize
      (kmallocLoop (reqSize + 32) reqSize rounds h i startedBet bestSize) := by
  have hsize := hreq.toNat_size
  have hlt := hreq
  rw [Modest] at hlt
  induction rounds generalizing h i startedBet bestSize with
  | zero => exact absurd hrounds (Nat.not_lt_zero _)
  | succ rounds ih =>
      have hget : h.majors[i]? = some h.majors[i] := List.getElem?_eq_getElem hi
      have hmaj : h.majors[i] ∈ h.majors := List.getElem_mem hi
      generalize h.majors[i] = maj at hget hmaj
      have hsound := hg.sound maj hmaj
      have hgood : (h.bet maj bestSize).1.Good := hg.bet_good hmaj
      obtain ⟨hmajors, hmem, hbytes⟩ := h.bet_fields maj bestSize
      rw [kmallocLoop, hget]
      dsimp only
      generalize h.bet maj bestSize = b at hgood hmajors hmem hbytes ⊢
      obtain ⟨h₁, bestSize₁⟩ := b
      dsimp only at hgood hmajors hmem hbytes ⊢
      refine Answered.congr hmajors hmem hbytes ?_
      have hused₁ : h₁.Used := by
        rw [Used, hmajors]
        exact hused
      rw [← hmajors] at hi hrounds hbefore hget hmaj
      -- The next block, or the first one; or all blocks are known to be full.
      have honward : ¬ maj.HasGap (reqSize.toNat + 56) →
          (i + 1 < h₁.majors.length → h₁.Answered reqSize
            (kmallocLoop (reqSize + 32) reqSize rounds h₁ (i + 1) startedBet bestSize₁)) ∧
          (startedBet = true → ¬ i + 1 < h₁.majors.length → h₁.Answered reqSize
            (kmallocLoop (reqSize + 32) reqSize rounds h₁ 0 false bestSize₁)) ∧
          (startedBet = false → ¬ i + 1 < h₁.majors.length →
            h₁.Full (reqSize.toNat + 56) ∧ 0 < rounds) := by
        intro hno
        have hupto : startedBet = false → ∀ j < i + 1, ∀ m, h₁.majors[j]? = some m →
            ¬ m.HasGap (reqSize.toNat + 56) := by
          intro hstarted j hj m hm
          rcases Nat.lt_succ_iff_lt_or_eq.mp hj with hlt | rfl
          · exact hbefore hstarted j hlt m hm
          · rw [hget] at hm
            exact Option.some.inj hm ▸ hno
        refine ⟨fun hnext => ?_, fun hstarted hlast => ?_, fun hstarted hlast => ⟨?_, ?_⟩⟩
        · exact ih hgood hused₁ hnext (by omega) hupto
        · rw [if_pos hstarted] at hrounds
          refine ih hgood hused₁ (by omega) ?_ fun _ j hj => absurd hj (Nat.not_lt_zero j)
          rw [if_neg Bool.false_ne_true]
          omega
        · exact Full.of_getElem? fun j hj => hupto hstarted j (by omega)
        · rw [hstarted, if_neg Bool.false_ne_true] at hrounds
          omega
      split
      next hdiff =>
        -- CASE 1
        have hno : ¬ maj.HasGap (reqSize.toNat + 56) := by
          refine hsound.no_gap (Nat.lt_of_not_le fun hle => ?_)
          exact BitVec.not_le.mpr hdiff ((Major.fits_iff (by omega)).mpr (by omega))
        obtain ⟨hnext, hagain, hlast⟩ := honward hno
        split
        next hlt => exact hnext hlt
        next hend =>
          cases hstarted : startedBet with
          | true => exact hagain hstarted hend
          | false =>
              obtain ⟨hfull, -⟩ := hlast hstarted hend
              rcases @grow_cases h₁ (reqSize + 32) (by omega) with
                ⟨hroom, hgrow⟩ | ⟨new, first, hfresh, hgrow⟩
              · rw [if_neg Bool.false_ne_true, hgrow]
                exact hgood.refused hfull hroom
              · rw [if_neg Bool.false_ne_true, hgrow]
                exact hgood.grown_allocated hused₁ hreq hfull hfresh (hgood.grown hfresh) rfl rfl
                  rfl
      next hdiff =>
        have hroom : (reqSize + 32).toNat + 24 ≤ (maj.size - maj.usage).toNat := by
          rw [BitVec.not_lt] at hdiff
          exact (Major.fits_iff (by omega)).mp hdiff
        split
        next r hplace =>
          have hplaced := Major.place_some hsound hsize (by omega) hroom hplace
          exact ⟨_, _, rfl, .inl (hgood.settle_allocated (fun m hm _ => hused₁ m hm) hmaj hplaced)⟩
        next hplace =>
          -- CASE 5
          have hno := Major.place_none hsound (by omega) hroom hplace
          rw [hsize] at hno
          obtain ⟨hnext, hagain, hlast⟩ := honward hno
          split
          next hlt => exact hnext hlt
          next hend =>
            cases hstarted : startedBet with
            | true => exact hagain hstarted hend
            | false =>
                obtain ⟨hfull, hpos⟩ := hlast hstarted hend
                rcases @grow_cases h₁ (reqSize + 32) (by omega) with
                  ⟨hroom, hgrow⟩ | ⟨new, first, hfresh, hgrow⟩
                · rw [if_neg Bool.false_ne_true, hgrow]
                  exact hgood.refused hfull hroom
                · rw [if_neg Bool.false_ne_true, hgrow]
                  obtain ⟨n, rfl⟩ := Nat.exists_eq_succ_of_ne_zero (Nat.ne_of_gt hpos)
                  have hindex : i + 1 = h₁.majors.length := by omega
                  rw [hindex]
                  exact kmallocLoop_fresh hgood hused₁ hreq hfull hfresh

/-- The loop starts at one of the blocks, which is the first one unless it is the best bet. -/
theorem Good.startAt_ok (hg : h.Good) (hne : h.majors ≠ []) :
    ∃ i startedBet bestSize, h.startAt size = .ok (i, startedBet, bestSize) ∧
      i < h.majors.length ∧ (startedBet = false → i = 0) := by
  have hpos := List.length_pos_iff.mpr hne
  rw [startAt]
  cases hbet : h.bestBet with
  | none => exact ⟨0, false, 0, rfl, hpos, fun _ => rfl⟩
  | some page =>
      obtain ⟨maj, hmaj, hpage⟩ := hg.bet page hbet
      have hsome : (h.majors.findIdx? fun maj => maj.page = page).isSome := by
        rw [List.findIdx?_isSome, List.any_eq_true]
        exact ⟨maj, hmaj, decide_eq_true hpage⟩
      have hfound : (h.majors.find? fun maj => maj.page = page).isSome := by
        rw [List.find?_isSome]
        exact ⟨maj, hmaj, decide_eq_true hpage⟩
      obtain ⟨i, hi⟩ := Option.isSome_iff_exists.mp hsome
      obtain ⟨best, hbest⟩ := Option.isSome_iff_exists.mp hfound
      obtain ⟨hlt, -⟩ := List.findIdx?_eq_some_iff_getElem.mp hi
      simp only [hi, hbest]
      split
      next => exact ⟨i, true, _, rfl, hlt, fun h => by cases h⟩
      next => exact ⟨0, false, _, rfl, hpos, fun _ => rfl⟩

theorem kmalloc_eq (hreq : Modest reqSize) : h.kmalloc reqSize = h.kmallocOf reqSize := by
  refine if_neg fun hzero => ?_
  have hsize := hreq.toNat_size
  rw [hzero] at hsize
  change 0 = _ at hsize
  omega

/-- `kmalloc` gets an answer. -/
theorem Good.kmalloc_answered (hg : h.Good) (hused : h.Used) (hreq : Modest reqSize) :
    h.Answered reqSize (h.kmalloc reqSize) := by
  have hlt := hreq
  rw [Modest] at hlt
  have hsize := hreq.toNat_size
  rw [kmalloc_eq hreq, kmallocOf]
  by_cases hempty : h.majors = []
  · have hfull : h.Full (reqSize.toNat + 56) := by
      intro m hm
      rw [hempty] at hm
      cases hm
    rw [if_pos hempty]
    rcases @grow_cases h (reqSize + 32) (by omega) with
      ⟨hroom, hgrow⟩ | ⟨new, first, hfresh, hgrow⟩
    · rw [hgrow]
      exact hg.refused hfull hroom
    · have hbet : (h.grown new first).bestBet = none := by
        change h.bestBet = none
        cases hbet : h.bestBet with
        | none => rfl
        | some page =>
            obtain ⟨m, hm, -⟩ := hg.bet page hbet
            rw [hempty] at hm
            cases hm
      have hstart : (h.grown new first).startAt (reqSize + 32) = .ok (0, false, 0) := by
        rw [startAt, hbet]
      have hindex : 0 = h.majors.length := by
        rw [hempty]
        rfl
      simp only [hgrow, bind, Except.bind, Option.isNone_some, Bool.false_eq_true, if_false, hstart]
      rw [hindex]
      exact kmallocLoop_fresh hg hused hreq hfull hfresh
  · obtain ⟨i, startedBet, bestSize, hstart, hi, hzero⟩ :=
      @Good.startAt_ok h (reqSize + 32) hg hempty
    obtain ⟨maj, majors, hmajors⟩ := List.exists_cons_of_ne_nil hempty
    have hroot : h.majors.head?.isNone = false := by
      rw [hmajors]
      rfl
    simp only [if_neg hempty, bind, Except.bind, hroot, Bool.false_eq_true, if_false, hstart]
    refine kmallocLoop_answered hg hused hreq hi ?_ fun hstarted j hj => ?_
    · split <;> omega
    · rw [hzero hstarted] at hj
      exact absurd hj (Nat.not_lt_zero j)

end Searching
end Heap
end Kmalloc
end JkxyKernel
