import JkxyKernel.Lib.Bytes
import JkxyKernel.Structure.Array
import Mathlib.Data.Fin.VecNotation

/-!
# Network byte order

The conversions of `inet.h`, and how 16-bit fields lie in the memory of a little-endian
machine.  A read beyond the end of a packet is an access beyond the end of its block.
-/

namespace JkxyKernel
namespace Net

open Bytes

abbrev Short := BitVec 16

/-- `mac_addr_t` -/
abbrev MacAddr := Fin 6 → Byte

/-- `ip_addr_t` -/
abbrev IpAddr := Fin 4 → Byte

/-- `flip_short` -/
def flipShort (shortInt : Short) : Short :=
  let firstByte : BitVec 32 := (shortInt.setWidth 8).setWidth 32
  let secondByte : BitVec 32 := ((shortInt >>> 8).setWidth 8).setWidth 32
  (firstByte <<< 8 ||| secondByte).setWidth 16

def htons (hostshort : Short) : Short := flipShort hostshort

def ntohs (netshort : Short) : Short := flipShort netshort

/-- `flip_byte` -/
def flipByte (byte : Byte) (numBits : Nat) : Byte :=
  byte <<< (8 - numBits) ||| byte >>> numBits

def htonb (byte : Byte) (numBits : Nat) : Byte := flipByte byte numBits

def ntohb (byte : Byte) (numBits : Nat) : Byte := flipByte byte (8 - numBits)

/-- A 16-bit field in memory. -/
def leShort (x : Short) : List Byte :=
  [x.setWidth 8, (x >>> 8).setWidth 8]

/-- Read a byte of a packet. -/
def byteAt (packet : List Byte) (i : Nat) : Except Fault Byte :=
  match packet[i]? with
  | some b => .ok b
  | none => .error .outOfBounds

/-- Read a 16-bit field. -/
def shortAt (packet : List Byte) (i : Nat) : Except Fault Short := do
  let low ← byteAt packet i
  let high ← byteAt packet (i + 1)
  .ok (high ++ low)

/-- Read an address. -/
def ipAddrAt (packet : List Byte) (i : Nat) : Except Fault IpAddr := do
  let a ← byteAt packet i
  let b ← byteAt packet (i + 1)
  let c ← byteAt packet (i + 2)
  let d ← byteAt packet (i + 3)
  .ok ![a, b, c, d]

section Facts

variable {x : Short} {packet rest : List Byte} {i : Nat}

/-- Flipping exchanges the bytes. -/
theorem getLsbD_flipShort (hi : i < 16) :
    (flipShort x).getLsbD i = if i < 8 then x.getLsbD (i + 8) else x.getLsbD (i - 8) := by
  simp only [flipShort, BitVec.getLsbD_setWidth, BitVec.getLsbD_or, BitVec.getLsbD_shiftLeft,
    BitVec.getLsbD_ushiftRight]
  split
  next hlow =>
    have hlt : i < 32 := by omega
    simp [hi, hlow, hlt, Nat.add_comm]
  next hhigh =>
    have hlt : i < 32 := by omega
    have hsub : i - 8 < 8 := by omega
    have hsub' : i - 8 < 32 := by omega
    simp [hi, hhigh, hlt, hsub, hsub']

theorem flipShort_flipShort : flipShort (flipShort x) = x := by
  refine BitVec.eq_of_getLsbD_eq fun i hi => ?_
  rw [getLsbD_flipShort hi]
  split
  next hlow =>
    rw [getLsbD_flipShort (by omega), if_neg (by omega), Nat.add_sub_cancel]
  next hhigh =>
    rw [getLsbD_flipShort (by omega), if_pos (by omega), Nat.sub_add_cancel (by omega)]

@[simp] theorem ntohs_htons : ntohs (htons x) = x :=
  flipShort_flipShort

@[simp] theorem htons_htons : htons (htons x) = x :=
  flipShort_flipShort

/-- The bytes of a field, put together again. -/
theorem leShort_append : ((x >>> 8).setWidth 8 ++ x.setWidth 8 : BitVec 16) = x := by
  refine BitVec.eq_of_getLsbD_eq fun i hi => ?_
  rw [BitVec.getLsbD_append]
  split
  next hlow => simp [hlow]
  next hhigh =>
    have hsub : i - 8 < 8 := by omega
    simp only [BitVec.getLsbD_setWidth, BitVec.getLsbD_ushiftRight, hsub, decide_true,
      Bool.true_and]
    rw [Nat.add_sub_cancel' (by omega)]

@[simp] theorem byteAt_cons_zero (b : Byte) : byteAt (b :: rest) 0 = .ok b := rfl

@[simp] theorem byteAt_cons_succ (b : Byte) : byteAt (b :: rest) (i + 1) = byteAt rest i := rfl

/-- A field is read back. -/
@[simp] theorem shortAt_leShort : shortAt (leShort x ++ rest) 0 = .ok x := by
  change Except.ok _ = Except.ok x
  rw [leShort_append]

@[simp] theorem shortAt_leShort_succ :
    shortAt (leShort x ++ rest) (i + 2) = shortAt rest i := rfl

@[simp] theorem shortAt_cons_succ (b : Byte) : shortAt (b :: rest) (i + 1) = shortAt rest i := rfl

end Facts

end Net
end JkxyKernel
