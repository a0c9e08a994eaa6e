import JkxyKernel.Lib.Bytes

/-!
# Objects on a stack

An object is an address and the bytes that are there.  A stack grows downwards: what is
pushed lies right below what was pushed before, and leaves it alone.

`Stacked` is the invariant of a stack: everything that was pushed is still held, inside the
stack, and no two objects overlap.
-/

namespace JkxyKernel
namespace Bytes

abbrev Obj := Addr × List Byte

/-- The bytes are in memory. -/
def Holds (m : Mem) (a : Addr) (bs : List Byte) : Prop :=
  ∀ j b, bs[j]? = some b → m (a + BitVec.ofNat 32 j) = b

/-- Two objects have no byte in common. -/
def Apart (o p : Obj) : Prop :=
  ∀ i < o.2.length, ∀ j < p.2.length, o.1.toNat + i ≠ p.1.toNat + j

/-- The objects of a stack, which goes from `low` to `high`. -/
structure Stacked (m : Mem) (low high : Nat) (objs : List Obj) : Prop where
  inside : ∀ o ∈ objs, low ≤ o.1.toNat ∧ o.1.toNat + o.2.length ≤ high
  holds : ∀ o ∈ objs, Holds m o.1 o.2
  apart : objs.Pairwise Apart

section Objects

variable {m : Mem} {a b : Addr} {bs cs : List Byte} {ws : List Word} {i low low' high : Nat}
  {objs objs' : List Obj}

theorem toNat_add_ofNat (h : a.toNat + i < 4294967296) :
    (a + BitVec.ofNat 32 i).toNat = a.toNat + i := by
  simp only [BitVec.toNat_add, BitVec.toNat_ofNat]
  omega

theorem eq_add_ofNat (h : a.toNat + i = b.toNat) : b = a + BitVec.ofNat 32 i := by
  refine BitVec.eq_of_toNat_eq ?_
  rw [toNat_add_ofNat (h.trans_lt b.isLt), h]

theorem Apart.symm {o p : Obj} (h : Apart o p) : Apart p o := fun i hi j hj =>
  (h j hj i hi).symm

theorem apart_of_le {o p : Obj} (h : o.1.toNat + o.2.length ≤ p.1.toNat) : Apart o p := by
  intro i hi j _
  omega

theorem holds_store (h : bs.length ≤ 4294967296) : Holds (store m a bs) a bs := by
  intro j b hb
  have hj : j < bs.length := (List.getElem?_eq_some_iff.mp hb).1
  rw [store, sub_toNat_of_lt (by omega), hb, Option.getD_some]

/-- What is stored elsewhere leaves an object alone. -/
theorem Holds.store
    (h : Holds m a bs) (hapart : Apart (a, bs) (b, cs)) (ha : a.toNat + bs.length ≤ 4294967296)
    (hb : b.toNat + cs.length ≤ 4294967296) : Holds (store m b cs) a bs := by
  intro j c hc
  have hj : j < bs.length := (List.getElem?_eq_some_iff.mp hc).1
  have hout : cs.length ≤ (a + BitVec.ofNat 32 j - b).toNat := by
    have hblt := b.isLt
    rw [BitVec.toNat_sub, toNat_add_ofNat (by omega)]
    by_contra hin
    have hne := hapart j hj (a.toNat + j - b.toNat)
    simp only at hne
    omega
  rw [Bytes.store, List.getElem?_eq_none hout, Option.getD_none]
  exact h j c hc

theorem Holds.append
    (h : Holds m a bs) (h' : Holds m (a + BitVec.ofNat 32 bs.length) cs) :
    Holds m a (bs ++ cs) := by
  intro j b hb
  by_cases hj : j < bs.length
  · rw [List.getElem?_append_left hj] at hb
    exact h j b hb
  · have hle := Nat.le_of_not_lt hj
    rw [List.getElem?_append_right hle] at hb
    have hthere := h' _ _ hb
    rw [BitVec.add_assoc, ← BitVec.ofNat_add, Nat.add_sub_cancel' hle] at hthere
    exact hthere

/-- The words of a block that is held. -/
theorem Holds.wordAt (h : Holds m a (block ws)) {w : Word} (hw : ws[i]? = some w) :
    wordAt m a i = w := by
  have hbyte : ∀ j < 4,
      m (a + BitVec.ofNat 32 (4 * i) + BitVec.ofNat 32 j) = byteOf w j := by
    intro j hj
    rw [BitVec.add_assoc, ← BitVec.ofNat_add]
    refine h _ _ ?_
    rw [getElem?_block hj, hw, Option.map_some]
  have hfirst := hbyte 0 (by decide)
  rw [BitVec.add_zero] at hfirst
  exact word_eq hfirst (hbyte 1 (by decide)) (hbyte 2 (by decide)) (hbyte 3 (by decide))

namespace Stacked

theorem nil : Stacked m low high [] :=
  ⟨fun _ h => absurd h List.not_mem_nil, fun _ h => absurd h List.not_mem_nil, List.Pairwise.nil⟩

theorem perm (h : Stacked m low high objs) (hperm : objs.Perm objs') :
    Stacked m low high objs' :=
  ⟨fun o ho => h.inside o (hperm.mem_iff.mpr ho), fun o ho => h.holds o (hperm.mem_iff.mpr ho),
    h.apart.perm hperm Apart.symm⟩

/-- The stack may go on further down. -/
theorem lower (h : Stacked m low high objs) (hlow : low' ≤ low) : Stacked m low' high objs :=
  ⟨fun o ho => ⟨hlow.trans (h.inside o ho).1, (h.inside o ho).2⟩, h.holds, h.apart⟩

/-- An object is pushed. -/
theorem push
    (h : Stacked m low high objs) (hb : b.toNat + bs.length = low) (hlow : low ≤ high)
    (hhigh : high ≤ 4294967296) : Stacked (store m b bs) b.toNat high ((b, bs) :: objs) := by
  have hapart : ∀ o ∈ objs, Apart (b, bs) o := fun o ho =>
    apart_of_le (hb.trans_le (h.inside o ho).1)
  refine ⟨?_, ?_, List.pairwise_cons.mpr ⟨hapart, h.apart⟩⟩
  · intro o ho
    rcases List.mem_cons.mp ho with rfl | ho
    · exact ⟨Nat.le_refl _, hb.trans_le hlow⟩
    · have hinside := h.inside o ho
      exact ⟨by omega, hinside.2⟩
  · intro o ho
    rcases List.mem_cons.mp ho with rfl | ho
    · exact holds_store (by omega)
    · have hinside := h.inside o ho
      exact (h.holds o ho).store (hapart o ho).symm (by omega) (by omega)

/-- Nothing is pushed. -/
theorem empty (h : Stacked m low high objs) (hb : b.toNat = low) (hlow : low ≤ high) :
    Stacked m low high ((b, []) :: objs) := by
  refine ⟨?_, ?_, List.pairwise_cons.mpr ⟨?_, h.apart⟩⟩
  · intro o ho
    rcases List.mem_cons.mp ho with rfl | ho
    · exact ⟨hb.ge, hb.trans_le hlow⟩
    · exact h.inside o ho
  · intro o ho
    rcases List.mem_cons.mp ho with rfl | ho
    · exact fun j c hc => nomatch hc
    · exact h.holds o ho
  · exact fun o _ i hi => absurd hi (Nat.not_lt_zero i)

/-- Two objects, one on top of the other, are one object. -/
theorem merge
    (h : Stacked m low high ((a, bs) :: (b, cs) :: objs))
    (hab : a.toNat + bs.length = b.toNat) : Stacked m low high ((a, bs ++ cs) :: objs) := by
  have ha := h.inside (a, bs) List.mem_cons_self
  have hb := h.inside (b, cs) (List.mem_cons_of_mem _ List.mem_cons_self)
  have hrest := (List.pairwise_cons.mp h.apart).2
  simp only at ha hb
  refine ⟨?_, ?_, List.pairwise_cons.mpr ⟨?_, (List.pairwise_cons.mp hrest).2⟩⟩
  · intro o ho
    rcases List.mem_cons.mp ho with rfl | ho
    · simp only [List.length_append]
      exact ⟨ha.1, by omega⟩
    · exact h.inside o (List.mem_cons_of_mem _ (List.mem_cons_of_mem _ ho))
  · intro o ho
    rcases List.mem_cons.mp ho with rfl | ho
    · refine (h.holds _ List.mem_cons_self).append ?_
      rw [← eq_add_ofNat hab]
      exact h.holds _ (List.mem_cons_of_mem _ List.mem_cons_self)
    · exact h.holds o (List.mem_cons_of_mem _ (List.mem_cons_of_mem _ ho))
  · intro o ho
    have hao := (List.pairwise_cons.mp h.apart).1 o (List.mem_cons_of_mem _ ho)
    have hbo := (List.pairwise_cons.mp hrest).1 o ho
    intro i hi j hj
    rw [List.length_append] at hi
    by_cases hin : i < bs.length
    · exact hao i hin j hj
    · have hne := hbo (i - bs.length) (by simp only; omega) j hj
      simp only at hne ⊢
      omega

end Stacked

end Objects

end Bytes
end JkxyKernel
