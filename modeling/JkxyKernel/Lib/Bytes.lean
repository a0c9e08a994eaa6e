import Mathlib.Data.BitVec
import Mathlib.Data.List.Basic

/-!
# Words in a byte-addressed memory

A memory of bytes under 32-bit addresses, little-endian words, and blocks of words
stored at an address.  A block wraps around with the address, so all that is asked of it
is that it is no longer than the memory.

`Agree` says that two memories hold the same bytes in a range: what is read from a block
depends on the bytes of the block only.
-/

namespace JkxyKernel
namespace Bytes

abbrev Byte := BitVec 8
abbrev Addr := BitVec 32
abbrev Word := BitVec 32
abbrev Mem := Addr → Byte

/-- The byte of weight `256 ^ j`. -/
def byteOf (w : Word) (j : Nat) : Byte :=
  BitVec.ofNat 8 (w.toNat / 256 ^ j)

def leBytes (w : Word) : List Byte :=
  [byteOf w 0, byteOf w 1, byteOf w 2, byteOf w 3]

/-- The bytes of consecutive words. -/
def block (ws : List Word) : List Byte :=
  ws.flatMap leBytes

/-- Read a word. -/
def word (m : Mem) (a : Addr) : Word :=
  BitVec.ofNat 32 ((m a).toNat + 256 * (m (a + 1)).toNat + 65536 * (m (a + 2)).toNat +
    16777216 * (m (a + 3)).toNat)

/-- Read word `i` of a block. -/
def wordAt (m : Mem) (a : Addr) (i : Nat) : Word :=
  word m (a + BitVec.ofNat 32 (4 * i))

/-- Write a list of bytes. -/
def store (m : Mem) (a : Addr) (bs : List Byte) : Mem := fun x =>
  (bs[(x - a).toNat]?).getD (m x)

/-- The memories hold the same `n` bytes at `a`. -/
def Agree (m m' : Mem) (a : Addr) (n : Nat) : Prop :=
  ∀ x, (x - a).toNat < n → m' x = m x

variable {m m' m'' : Mem} {a b x : Addr} {bs cs : List Byte} {ws : List Word} {n i j k : Nat}

theorem word_eq {w : Word}
    (h₀ : m a = byteOf w 0) (h₁ : m (a + 1) = byteOf w 1)
    (h₂ : m (a + 2) = byteOf w 2) (h₃ : m (a + 3) = byteOf w 3) : word m a = w := by
  have hlt : w.toNat < 4294967296 := w.isLt
  apply BitVec.eq_of_toNat_eq
  simp only [word, h₀, h₁, h₂, h₃, byteOf, BitVec.toNat_ofNat]
  omega

@[simp] theorem length_leBytes (w : Word) : (leBytes w).length = 4 := rfl

@[simp] theorem length_block : (block ws).length = 4 * ws.length := by
  induction ws with
  | nil => rfl
  | cons w ws ih =>
      change (leBytes w ++ block ws).length = _
      rw [List.length_append, ih, length_leBytes, List.length_cons]
      omega

theorem block_append {vs : List Word} : block (ws ++ vs) = block ws ++ block vs :=
  List.flatMap_append

theorem getElem?_leBytes {w : Word} (h : j < 4) : (leBytes w)[j]? = some (byteOf w j) := by
  match j, h with
  | 0, _ => rfl
  | 1, _ => rfl
  | 2, _ => rfl
  | 3, _ => rfl

/-- The bytes of a block, by word and position in it. -/
theorem getElem?_block (h : j < 4) :
    (block ws)[4 * i + j]? = (ws[i]?).map fun w => byteOf w j := by
  induction ws generalizing i with
  | nil => rfl
  | cons w ws ih =>
      change (leBytes w ++ block ws)[4 * i + j]? = _
      cases i with
      | zero =>
          rw [List.getElem?_append_left (by simp; omega), Nat.mul_zero, Nat.zero_add,
            getElem?_leBytes h]
          rfl
      | succ i =>
          rw [List.getElem?_append_right (by simp; omega), length_leBytes,
            show 4 * (i + 1) + j - 4 = 4 * i + j by omega, ih]
          rfl

theorem sub_toNat_of_lt (h : n < 4294967296) : (a + BitVec.ofNat 32 n - a).toNat = n := by
  simp only [BitVec.toNat_sub, BitVec.toNat_add, BitVec.toNat_ofNat]
  have := a.isLt
  omega

/-- Two blocks one below the other are one block. -/
theorem store_append
    (hlen : bs.length + cs.length ≤ 4294967296) (hb : b + BitVec.ofNat 32 bs.length = a) :
    store (store m a cs) b bs = store m b (bs ++ cs) := by
  funext x
  have hsub : (x - a).toNat = ((x - b).toNat + 4294967296 - bs.length) % 4294967296 := by
    subst hb
    simp only [BitVec.toNat_sub, BitVec.toNat_add, BitVec.toNat_ofNat]
    have h₁ := x.isLt
    have h₂ := b.isLt
    omega
  have hx := (x - b).isLt
  by_cases hin : (x - b).toNat < bs.length
  · simp only [store, List.getElem?_append_left hin, List.getElem?_eq_getElem hin,
      Option.getD_some]
  · have heq : (x - a).toNat = (x - b).toNat - bs.length := by omega
    simp only [store, List.getElem?_append_right (Nat.le_of_not_lt hin), heq,
      List.getElem?_eq_none (Nat.le_of_not_lt hin), Option.getD_none]

theorem word_first {w : Word} (h : word m a = w) : m a = byteOf w 0 := by
  apply BitVec.eq_of_toNat_eq
  have h₀ := (m a).isLt
  have h₁ := (m (a + 1)).isLt
  have h₂ := (m (a + 2)).isLt
  have h₃ := (m (a + 3)).isLt
  subst h
  simp only [word, byteOf, BitVec.toNat_ofNat]
  omega

theorem word_last {w : Word} (h : word m a = w) : m (a + 3) = byteOf w 3 := by
  apply BitVec.eq_of_toNat_eq
  have h₀ := (m a).isLt
  have h₁ := (m (a + 1)).isLt
  have h₂ := (m (a + 2)).isLt
  have h₃ := (m (a + 3)).isLt
  subst h
  simp only [word, byteOf, BitVec.toNat_ofNat]
  omega

/-- A byte in a zero word of a block is zero. -/
theorem store_zero_word (hx : (x - a).toNat / 4 = i) (hzero : ws[i]? = some 0) :
    store m a (block ws) x = 0 := by
  have hoff : (x - a).toNat = 4 * i + (x - a).toNat % 4 := by omega
  rw [store, hoff, getElem?_block (Nat.mod_lt _ (by omega)), hzero]
  simp only [Option.map_some, Option.getD_some, byteOf]
  simp

/-- Only the bytes of one word depend on it. -/
theorem store_set_elsewhere {e e' : Word} (hx : (x - a).toNat / 4 ≠ i) :
    store m a (block (ws.set i e)) x = store m a (block (ws.set i e')) x := by
  have hoff : (x - a).toNat = 4 * ((x - a).toNat / 4) + (x - a).toNat % 4 := by omega
  rw [store, store, hoff, getElem?_block (Nat.mod_lt _ (by omega)),
    getElem?_block (Nat.mod_lt _ (by omega)), List.getElem?_set_ne hx.symm,
    List.getElem?_set_ne hx.symm]

/-- A word that is stored in a block between two zero words is read nowhere else. -/
theorem word_elsewhere
    {z : Addr} (hleft : ws[k]? = some 0) (hright : ws[k + 2]? = some 0)
    (hlen : 4 * ws.length ≤ 4294967296) (hz : z ≠ a + BitVec.ofNat 32 (4 * (k + 1))) :
    ∃ e, word (store m a (block (ws.set (k + 1) e))) z ≠ e := by
  by_contra hall
  push Not at hall
  have hk : k + 2 < ws.length := (List.getElem?_eq_some_iff.mp hright).1
  have hq := (z - a).isLt
  have hne : (z - a).toNat ≠ 4 * (k + 1) := by
    intro heq
    apply hz
    have hsub : z - a = BitVec.ofNat 32 (4 * (k + 1)) := by
      rw [← heq, BitVec.ofNat_toNat, BitVec.setWidth_eq]
    rw [← hsub, BitVec.add_comm, BitVec.sub_add_cancel]
  have hoff : ∀ j < 4, (z + BitVec.ofNat 32 j - a).toNat = ((z - a).toNat + j) % 4294967296 := by
    intro j hj
    simp only [BitVec.toNat_sub, BitVec.toNat_add, BitVec.toNat_ofNat]
    omega
  -- The word read starts or ends in one of the zero words, or has nothing of the stored one.
  by_cases hbefore : (z - a).toNat / 4 = k ∧ (z - a).toNat ≠ 4 * k
  · have hfirst := word_first (hall 0x01010101)
    rw [store_zero_word hbefore.1 (by rw [List.getElem?_set_ne (by omega), hleft])] at hfirst
    revert hfirst
    decide
  by_cases hafter : (z - a).toNat / 4 = k + 1
  · have hlast := word_last (hall 0x01010101)
    have hword : (z + 3 - a).toNat / 4 = k + 2 := by
      have h3 := hoff 3 (by omega)
      change (z + 3 - a).toNat = _ at h3
      omega
    rw [store_zero_word hword (by rw [List.getElem?_set_ne (by omega), hright])] at hlast
    revert hlast
    decide
  have hother : ∀ j < 4, (z + BitVec.ofNat 32 j - a).toNat / 4 ≠ k + 1 := by
    intro j hj
    rw [hoff j hj]
    omega
  have hsame : word (store m a (block (ws.set (k + 1) 0x01010101))) z =
      word (store m a (block (ws.set (k + 1) 0x02020202))) z := by
    have hbyte : ∀ j < 4, store m a (block (ws.set (k + 1) 0x01010101)) (z + BitVec.ofNat 32 j) =
        store m a (block (ws.set (k + 1) 0x02020202)) (z + BitVec.ofNat 32 j) := fun j hj =>
      store_set_elsewhere (hother j hj)
    have h₀ := hbyte 0 (by omega)
    rw [BitVec.add_zero] at h₀
    simp only [word]
    rw [h₀, show z + 1 = z + BitVec.ofNat 32 1 from rfl, hbyte 1 (by omega),
      show z + 2 = z + BitVec.ofNat 32 2 from rfl, hbyte 2 (by omega),
      show z + 3 = z + BitVec.ofNat 32 3 from rfl, hbyte 3 (by omega)]
  rw [hall, hall] at hsame
  revert hsame
  decide
namespace Agree

theorem refl : Agree m m a n := fun _ _ => rfl

theorem trans (h : Agree m m' a n) (h' : Agree m' m'' a n) : Agree m m'' a n := fun x hx =>
  (h' x hx).trans (h x hx)

/-- A byte of a block that is still there. -/
theorem byte
    (h : Agree (store m a (block ws)) m' a n) (hn : 4 * i + j < n) (hn' : n ≤ 4294967296)
    (hj : j < 4) {w : Word} (hw : ws[i]? = some w) :
    m' (a + BitVec.ofNat 32 (4 * i + j)) = byteOf w j := by
  have hoff : (a + BitVec.ofNat 32 (4 * i + j) - a).toNat = 4 * i + j :=
    sub_toNat_of_lt (by omega)
  rw [h _ (by omega)]
  simp only [store, hoff, getElem?_block hj, hw, Option.map_some, Option.getD_some]

/-- A word of a block that is still there. -/
theorem wordAt
    (h : Agree (store m a (block ws)) m' a n) (hn : 4 * i + 4 ≤ n) (hn' : n ≤ 4294967296)
    {w : Word} (hw : ws[i]? = some w) : Bytes.wordAt m' a i = w := by
  have hbyte : ∀ j < 4, m' (a + BitVec.ofNat 32 (4 * i + j)) = byteOf w j := fun j hj =>
    h.byte (by omega) hn' hj hw
  have hnext : ∀ j, a + BitVec.ofNat 32 (4 * i) + BitVec.ofNat 32 j =
      a + BitVec.ofNat 32 (4 * i + j) := by
    intro j
    rw [BitVec.ofNat_add, BitVec.add_assoc]
  refine word_eq (hbyte 0 (by omega)) ?_ ?_ ?_
  · rw [← hbyte 1 (by omega), ← hnext]
    rfl
  · rw [← hbyte 2 (by omega), ← hnext]
    rfl
  · rw [← hbyte 3 (by omega), ← hnext]
    rfl

/-- The words of a block that is part of a larger one. -/
theorem inner
    {front back : List Word} {w : Word}
    (h : Agree (store m a (block (front ++ ws ++ back))) m' a n)
    (hn : 4 * (front.length + ws.length) ≤ n) (hn' : n ≤ 4294967296) (hw : ws[i]? = some w) :
    Bytes.wordAt m' (a + BitVec.ofNat 32 (4 * front.length)) i = w := by
  have hlt : i < ws.length := (List.getElem?_eq_some_iff.mp hw).1
  have hsame : Bytes.wordAt m' (a + BitVec.ofNat 32 (4 * front.length)) i =
      Bytes.wordAt m' a (front.length + i) := by
    simp only [Bytes.wordAt, BitVec.add_assoc, ← BitVec.ofNat_add, Nat.mul_add]
  rw [hsame]
  refine h.wordAt (by omega) hn' ?_
  rw [List.append_assoc, List.getElem?_append_right (Nat.le_add_right _ _),
    Nat.add_sub_cancel_left, List.getElem?_append_left hlt, hw]

end Agree

end Bytes
end JkxyKernel
