import JkxyKernel.Net.Encapsulation

/-!
# What is read of a frame

The way in, with the sockets that are there: `udp_receive` reads the payload only for a port that
has a socket.

Every layer is told how long its packet is, and none of them looks.  What is read depends on the
type of the packet and on the length in the datagram, from which the size of its header is
subtracted in 32 bits.  An access outside of the frame is an error.
-/

namespace JkxyKernel
namespace Net

open Bytes

/-- The ports for which `udp_sockets` has a socket. -/
structure Receiver where
  bound : Short → Bool

namespace Receiver

/-- `udp_receive` -/
def udpReceive (r : Receiver) (srcIp : IpAddr) (srcPort dstPort : Short) (data : List Byte)
    (nbytes : BitVec 32) : Except Fault Received :=
  if r.bound dstPort then
    if data.length < nbytes.toNat then .error .outOfBounds
    else .ok (.udp
      { srcIp := srcIp, srcPort := srcPort, dstPort := dstPort, data := data.take nbytes.toNat })
  else .ok .dropped

/-- `udp_handle_packet` -/
def udpHandlePacket (r : Receiver) (srcIp : IpAddr) (packet : List Byte) (_len : BitVec 32) :
    Except Fault Received := do
  let srcPort ← shortAt packet 0
  let dstPort ← shortAt packet 2
  let length ← shortAt packet 4
  let dataLen : BitVec 32 := (ntohs length).setWidth 32 - BitVec.ofNat 32 UdpPacket.size
  r.udpReceive srcIp (ntohs srcPort) (ntohs dstPort) (packet.drop UdpPacket.size) dataLen

/-- `ip_handle_packet` -/
def ipHandlePacket (r : Receiver) (packet : List Byte) (_len : BitVec 32) :
    Except Fault Received := do
  let versionIhl ← byteAt packet 0
  let _ ← byteAt packet 6
  let version : BitVec 4 := (ntohb versionIhl 4).setWidth 4
  if version = IP_IPV4 then
    let srcIp ← ipAddrAt packet 12
    let length ← shortAt packet 2
    let dataLen : BitVec 32 := (ntohs length).setWidth 32 - BitVec.ofNat 32 IpPacket.size
    let protocol ← byteAt packet 9
    if protocol = PROTOCOL_UDP then
      r.udpHandlePacket srcIp (packet.drop IpPacket.size) dataLen
    else .ok .dropped
  else .ok .dropped

/-- `ethernet_handle_packet` -/
def ethernetHandlePacket (r : Receiver) (frame : List Byte) : Except Fault Received := do
  let type ← shortAt frame 12
  let data := frame.drop EthernetFrame.size
  let dataLen := BitVec.ofNat 32 frame.length - BitVec.ofNat 32 EthernetFrame.size
  if ntohs type = ETHERNET_TYPE_ARP then .ok (.arp data)
  else if ntohs type = ETHERNET_TYPE_IP then r.ipHandlePacket data dataLen
  else .ok .dropped

end Receiver

/-! ### The fields of a frame -/

/-- A byte, 0 behind the end. -/
def octet (packet : List Byte) (i : Nat) : Byte := packet.getD i 0

/-- A field in host order. -/
def field (packet : List Byte) (i : Nat) : Short :=
  ntohs (octet packet (i + 1) ++ octet packet i)

def IsIp (frame : List Byte) : Prop := field frame 12 = ETHERNET_TYPE_IP

def IsIpv4 (frame : List Byte) : Prop := IsIp frame ∧ octet frame 14 >>> 4 = 4

def IsUdp (frame : List Byte) : Prop := IsIpv4 frame ∧ octet frame 23 = PROTOCOL_UDP

def ipLength (frame : List Byte) : Nat := (field frame 16).toNat

def udpLength (frame : List Byte) : Nat := (field frame 38).toNat

/-- When the length of a frame and the two length fields are consistent.  At least the frame
encloses the packet, the packet the datagram and the datagram its header. -/
structure LengthRule where
  consistent : (frame ip udp : Nat) → Prop
  encloses : ∀ {frame ip udp : Nat}, consistent frame ip udp →
    UdpPacket.size ≤ udp ∧ IpPacket.size + udp ≤ ip ∧ EthernetFrame.size + ip ≤ frame

/-- Nothing more than that is asked for. -/
def LengthRule.enclosed : LengthRule where
  consistent := fun frame ip udp =>
    UdpPacket.size ≤ udp ∧ IpPacket.size + udp ≤ ip ∧ EthernetFrame.size + ip ≤ frame
  encloses := id

/-- The datagram is all of the packet. -/
def LengthRule.exact : LengthRule where
  consistent := fun frame ip udp =>
    UdpPacket.size ≤ udp ∧ IpPacket.size + udp = ip ∧ EthernetFrame.size + ip ≤ frame
  encloses := fun h => ⟨h.1, Nat.le_of_eq h.2.1, h.2.2⟩

/-- Nothing outside of the frame is read, and lengths that are not consistent lead to the packet
being dropped. -/
structure Confined (r : Receiver) (rule : LengthRule) (frame : List Byte) : Prop where
  inside : ∀ fault, r.ethernetHandlePacket frame ≠ .error fault
  dropped : ∀ datagram, r.ethernetHandlePacket frame = .ok (.udp datagram) →
    rule.consistent frame.length (ipLength frame) (udpLength frame)

/-- The frame has all that the handlers look at, and the lengths are consistent where there is a
socket for the datagram. -/
structure Complete (r : Receiver) (rule : LengthRule) (frame : List Byte) : Prop where
  ethernet : 14 ≤ frame.length
  ip : IsIp frame → 21 ≤ frame.length
  ipv4 : IsIpv4 frame → 30 ≤ frame.length
  udp : IsUdp frame → 40 ≤ frame.length
  lengths : IsUdp frame → r.bound (field frame 36) = true →
    rule.consistent frame.length (ipLength frame) (udpLength frame)

section Reads

variable {packet : List Byte} {i n : Nat}

theorem byteAt_of_lt (hi : i < packet.length) : byteAt packet i = .ok (octet packet i) := by
  rw [byteAt, octet, List.getD_eq_getElem?_getD, List.getElem?_eq_getElem hi]
  rfl

theorem byteAt_of_le (hi : packet.length ≤ i) : byteAt packet i = .error .outOfBounds := by
  rw [byteAt, List.getElem?_eq_none hi]

theorem octet_drop : octet (packet.drop n) i = octet packet (n + i) := by
  rw [octet, octet, List.getD_eq_getElem?_getD, List.getD_eq_getElem?_getD, List.getElem?_drop]

theorem field_drop : field (packet.drop n) i = field packet (n + i) := by
  rw [field, field, octet_drop, octet_drop, Nat.add_assoc]

theorem shortAt_of_lt (hi : i + 1 < packet.length) :
    shortAt packet i = .ok (octet packet (i + 1) ++ octet packet i) := by
  rw [shortAt, byteAt_of_lt (Nat.lt_of_succ_lt hi), byteAt_of_lt hi]
  rfl

theorem shortAt_of_le (hi : packet.length ≤ i + 1) :
    shortAt packet i = .error .outOfBounds := by
  rw [shortAt, byteAt_of_le hi]
  rcases Nat.lt_or_ge i packet.length with hlow | hlow
  · rw [byteAt_of_lt hlow]
    rfl
  · rw [byteAt_of_le hlow]
    rfl

/-- An address is read if there is enough of the packet. -/
theorem ipAddrAt_cases (i : Nat) (packet : List Byte) :
    (i + 3 < packet.length ∧ ∃ a, ipAddrAt packet i = .ok a) ∨
      (packet.length ≤ i + 3 ∧ ipAddrAt packet i = .error .outOfBounds) := by
  by_cases h₃ : i + 3 < packet.length
  · rw [ipAddrAt, byteAt_of_lt (show i < packet.length by omega),
      byteAt_of_lt (show i + 1 < packet.length by omega),
      byteAt_of_lt (show i + 2 < packet.length by omega), byteAt_of_lt h₃]
    exact Or.inl ⟨h₃, _, rfl⟩
  · refine Or.inr ⟨Nat.not_lt.mp h₃, ?_⟩
    rw [ipAddrAt, @byteAt_of_le _ (i + 3) (Nat.not_lt.mp h₃)]
    -- whichever of the bytes is missing first, the fault is the same
    rcases Nat.lt_or_ge i packet.length with h₀ | h₀
    · rw [byteAt_of_lt h₀]
      rcases Nat.lt_or_ge (i + 1) packet.length with h₁ | h₁
      · rw [byteAt_of_lt h₁]
        rcases Nat.lt_or_ge (i + 2) packet.length with h₂ | h₂
        · rw [byteAt_of_lt h₂]
          rfl
        · rw [byteAt_of_le h₂]
          rfl
      · rw [byteAt_of_le h₁]
        rfl
    · rw [byteAt_of_le h₀]
      rfl

end Reads

section Layers

variable {r : Receiver} {srcIp : IpAddr} {srcPort dstPort : Short} {packet frame data : List Byte}
variable {len nbytes : BitVec 32} {rule : LengthRule}

theorem udpReceive_unbound (hbound : r.bound dstPort = false) :
    r.udpReceive srcIp srcPort dstPort data nbytes = .ok .dropped := by
  rw [Receiver.udpReceive, if_neg (by rw [hbound]; decide)]

theorem udpReceive_inside (hbound : r.bound dstPort = true) (hlen : nbytes.toNat ≤ data.length) :
    ∃ datagram, r.udpReceive srcIp srcPort dstPort data nbytes = .ok (.udp datagram) := by
  rw [Receiver.udpReceive, if_pos hbound, if_neg (Nat.not_lt.mpr hlen)]
  exact ⟨_, rfl⟩

/-- With a socket, the packet is not dropped. -/
theorem udpReceive_bound (hbound : r.bound dstPort = true) :
    r.udpReceive srcIp srcPort dstPort data nbytes = .error .outOfBounds ∨
      ∃ datagram, r.udpReceive srcIp srcPort dstPort data nbytes = .ok (.udp datagram) := by
  rw [Receiver.udpReceive, if_pos hbound]
  split
  next => exact Or.inl rfl
  next => exact Or.inr ⟨_, rfl⟩

theorem udpHandlePacket_short (hlen : packet.length < 6) :
    r.udpHandlePacket srcIp packet len = .error .outOfBounds := by
  rw [Receiver.udpHandlePacket, @shortAt_of_le packet 4 (by omega)]
  rcases Nat.lt_or_ge 1 packet.length with h₁ | h₁
  · rw [shortAt_of_lt h₁]
    rcases Nat.lt_or_ge 3 packet.length with h₃ | h₃
    · rw [shortAt_of_lt h₃]
      rfl
    · rw [shortAt_of_le h₃]
      rfl
  · rw [shortAt_of_le h₁]
    rfl

/-- The length in the datagram is all that counts. -/
theorem udpHandlePacket_eq (hlen : 6 ≤ packet.length) :
    r.udpHandlePacket srcIp packet len =
      r.udpReceive srcIp (field packet 0) (field packet 2) (packet.drop UdpPacket.size)
        ((field packet 4).setWidth 32 - BitVec.ofNat 32 UdpPacket.size) := by
  rw [Receiver.udpHandlePacket, @shortAt_of_lt packet 0 (by omega),
    @shortAt_of_lt packet 2 (by omega), @shortAt_of_lt packet 4 (by omega)]
  rfl

/-- The version is the upper half of the first byte. -/
theorem version_iff (b : Byte) : (ntohb b 4).setWidth 4 = IP_IPV4 ↔ b >>> 4 = 4 := by
  revert b
  decide +kernel

theorem ipHandlePacket_short (hlen : packet.length < 7) :
    r.ipHandlePacket packet len = .error .outOfBounds := by
  rw [Receiver.ipHandlePacket, @byteAt_of_le packet 6 (by omega)]
  rcases Nat.eq_zero_or_pos packet.length with h₀ | h₀
  · rw [byteAt_of_le (Nat.le_of_eq h₀)]
    rfl
  · rw [byteAt_of_lt h₀]
    rfl

/-- What is left of the handler when the first bytes are there. -/
theorem ipHandlePacket_eq (hlen : 7 ≤ packet.length) :
    r.ipHandlePacket packet len =
      if octet packet 0 >>> 4 = 4 then
        (ipAddrAt packet 12).bind fun srcIp => (shortAt packet 2).bind fun length =>
          (byteAt packet 9).bind fun protocol =>
            if protocol = PROTOCOL_UDP then
              r.udpHandlePacket srcIp (packet.drop IpPacket.size)
                ((ntohs length).setWidth 32 - BitVec.ofNat 32 IpPacket.size)
            else .ok .dropped
      else .ok .dropped := by
  rw [Receiver.ipHandlePacket, @byteAt_of_lt packet 0 (by omega), @byteAt_of_lt packet 6 hlen]
  by_cases hversion : octet packet 0 >>> 4 = 4
  · rw [if_pos hversion]
    exact if_pos ((version_iff _).mpr hversion)
  · rw [if_neg hversion]
    exact if_neg fun h => hversion ((version_iff _).mp h)

/-- What becomes of a packet of version 4. -/
theorem ipHandlePacket_ipv4 (hlen : 7 ≤ packet.length) (hversion : octet packet 0 >>> 4 = 4) :
    (packet.length < 16 ∧ r.ipHandlePacket packet len = .error .outOfBounds) ∨
      (16 ≤ packet.length ∧ octet packet 9 ≠ PROTOCOL_UDP ∧
        r.ipHandlePacket packet len = .ok .dropped) ∨
      (16 ≤ packet.length ∧ octet packet 9 = PROTOCOL_UDP ∧ ∃ srcIp len',
        r.ipHandlePacket packet len =
          r.udpHandlePacket srcIp (packet.drop IpPacket.size) len') := by
  rw [ipHandlePacket_eq hlen, if_pos hversion]
  rcases ipAddrAt_cases 12 packet with ⟨hlong, srcIp, hsrc⟩ | ⟨hshort, hsrc⟩
  · refine Or.inr ?_
    rw [hsrc, @shortAt_of_lt packet 2 (by omega), @byteAt_of_lt packet 9 (by omega)]
    by_cases hprotocol : octet packet 9 = PROTOCOL_UDP
    · exact Or.inr ⟨hlong, hprotocol, srcIp, _, if_pos hprotocol⟩
    · exact Or.inl ⟨hlong, hprotocol, if_neg hprotocol⟩
  · rw [hsrc]
    exact Or.inl ⟨Nat.lt_succ_of_le hshort, rfl⟩

theorem ethernetHandlePacket_short (hlen : frame.length < 14) :
    r.ethernetHandlePacket frame = .error .outOfBounds := by
  rw [Receiver.ethernetHandlePacket, shortAt_of_le (by omega)]
  rfl

/-- What becomes of a frame. -/
theorem ethernetHandlePacket_cases (hlen : 14 ≤ frame.length) :
    (¬ IsIp frame ∧ (r.ethernetHandlePacket frame = .ok .dropped ∨
        ∃ packet, r.ethernetHandlePacket frame = .ok (.arp packet))) ∨
      (IsIp frame ∧ ∃ len, r.ethernetHandlePacket frame =
        r.ipHandlePacket (frame.drop EthernetFrame.size) len) := by
  have heq : r.ethernetHandlePacket frame =
      if field frame 12 = ETHERNET_TYPE_ARP then .ok (.arp (frame.drop EthernetFrame.size))
      else if field frame 12 = ETHERNET_TYPE_IP then
        r.ipHandlePacket (frame.drop EthernetFrame.size)
          (BitVec.ofNat 32 frame.length - BitVec.ofNat 32 EthernetFrame.size)
      else .ok .dropped := by
    rw [Receiver.ethernetHandlePacket, shortAt_of_lt (by omega)]
    rfl
  rw [heq, IsIp]
  by_cases harp : field frame 12 = ETHERNET_TYPE_ARP
  · rw [if_pos harp]
    refine Or.inl ⟨fun hip => ?_, Or.inr ⟨_, rfl⟩⟩
    rw [harp] at hip
    exact absurd hip (by decide)
  · rw [if_neg harp]
    by_cases hip : field frame 12 = ETHERNET_TYPE_IP
    · rw [if_pos hip]
      exact Or.inr ⟨hip, _, rfl⟩
    · rw [if_neg hip]
      exact Or.inl ⟨hip, Or.inl rfl⟩

/-- The payload of a datagram whose length covers its header. -/
theorem payload_toNat (x : Short) (hx : UdpPacket.size ≤ x.toNat) :
    (x.setWidth 32 - BitVec.ofNat 32 UdpPacket.size).toNat = x.toNat - UdpPacket.size := by
  have hlt := x.isLt
  rw [BitVec.toNat_sub, BitVec.toNat_setWidth, BitVec.toNat_ofNat]
  simp only [UdpPacket.size] at hx ⊢
  omega

/-- A handler that ends with a packet dropped or given on to ARP is right. -/
theorem Confined.of_not_udp (hok : r.ethernetHandlePacket frame = .ok .dropped ∨
    ∃ packet, r.ethernetHandlePacket frame = .ok (.arp packet)) : Confined r rule frame := by
  rcases hok with heq | ⟨packet, heq⟩
  · refine ⟨fun fault hfault => ?_, fun datagram hudp => ?_⟩
    · rw [heq] at hfault
      cases hfault
    · rw [heq] at hudp
      cases hudp
  · refine ⟨fun fault hfault => ?_, fun datagram hudp => ?_⟩
    · rw [heq] at hfault
      cases hfault
    · rw [heq] at hudp
      cases hudp

/-- A frame with a datagram for a socket. -/
theorem confined_iff_of_bound (hlen : 40 ≤ frame.length) (hbound : r.bound (field frame 36) = true)
    (heq : r.ethernetHandlePacket frame =
      r.udpReceive srcIp srcPort (field frame 36) (frame.drop 42)
        ((field frame 38).setWidth 32 - BitVec.ofNat 32 UdpPacket.size)) :
    Confined r rule frame ↔
      rule.consistent frame.length (ipLength frame) (udpLength frame) := by
  constructor
  · intro h
    rcases @udpReceive_bound r srcIp srcPort (field frame 36) (frame.drop 42)
      ((field frame 38).setWidth 32 - BitVec.ofNat 32 UdpPacket.size) hbound with hfault | ⟨d, hd⟩
    · exact absurd (heq.trans hfault) (h.inside _)
    · exact h.dropped d (heq.trans hd)
  · intro hconsistent
    obtain ⟨hheader, hpacket, hframe⟩ := rule.encloses hconsistent
    have hpayload := payload_toNat (field frame 38) hheader
    have hle : ((field frame 38).setWidth 32 - BitVec.ofNat 32 UdpPacket.size).toNat ≤
        (frame.drop 42).length := by
      simp only [udpLength, IpPacket.size, EthernetFrame.size] at hpacket hframe
      rw [hpayload, List.length_drop, UdpPacket.size]
      omega
    obtain ⟨d, hd⟩ := @udpReceive_inside r srcIp srcPort (field frame 36) (frame.drop 42) _
      hbound hle
    refine ⟨fun fault hfault => ?_, fun _ _ => hconsistent⟩
    rw [heq, hd] at hfault
    cases hfault

/-- A frame with a datagram. -/
theorem confined_iff_of_udp {len : BitVec 32}
    (heq : r.ethernetHandlePacket frame = r.udpHandlePacket srcIp (frame.drop 34) len) :
    Confined r rule frame ↔
      40 ≤ frame.length ∧ (r.bound (field frame 36) = true →
        rule.consistent frame.length (ipLength frame) (udpLength frame)) := by
  rcases Nat.lt_or_ge frame.length 40 with hshort | hlong
  · refine iff_of_false (fun h => ?_) fun h => absurd h.1 (Nat.not_le.mpr hshort)
    exact h.inside _ (heq.trans (udpHandlePacket_short (by rw [List.length_drop]; omega)))
  · rw [udpHandlePacket_eq (by rw [List.length_drop]; omega), field_drop, field_drop, field_drop,
      List.drop_drop] at heq
    cases hbound : r.bound (field frame 36) with
    | false =>
        refine iff_of_true (Confined.of_not_udp (Or.inl (heq.trans (udpReceive_unbound hbound)))) ?_
        exact ⟨hlong, fun h => nomatch h⟩
    | true =>
        rw [confined_iff_of_bound hlong hbound heq]
        exact ⟨fun h => ⟨hlong, fun _ => h⟩, fun h => h.2 rfl⟩

end Layers

/-- **When reads stay in the frame.**  Nothing outside of a frame is read, and inconsistent lengths
lead to its packet being dropped, if and only if the frame has all the fields that its type makes
the handlers read, and the lengths are consistent where there is a socket for its datagram. -/
theorem confined_iff (r : Receiver) (rule : LengthRule) (frame : List Byte) :
    Confined r rule frame ↔ Complete r rule frame := by
  rcases Nat.lt_or_ge frame.length 14 with hshort | h₁₄
  · refine iff_of_false (fun h => ?_) fun h => absurd h.ethernet (Nat.not_le.mpr hshort)
    exact h.inside _ (ethernetHandlePacket_short hshort)
  have hlength : (frame.drop EthernetFrame.size).length = frame.length - 14 := List.length_drop
  rcases @ethernetHandlePacket_cases r frame h₁₄ with ⟨hip, hok⟩ | ⟨hip, len, heq⟩
  · refine iff_of_true (Confined.of_not_udp hok) ⟨h₁₄, fun h => absurd h hip, fun h => absurd h.1 hip,
      fun h => absurd h.1.1 hip, fun h => absurd h.1.1 hip⟩
  rcases Nat.lt_or_ge frame.length 21 with hshort | h₂₁
  · refine iff_of_false (fun h => ?_) fun h => absurd (h.ip hip) (Nat.not_le.mpr hshort)
    exact h.inside _ (heq.trans (ipHandlePacket_short (by omega)))
  by_cases hversion : octet frame 14 >>> 4 = 4
  · have hipv4 : IsIpv4 frame := ⟨hip, hversion⟩
    rcases @ipHandlePacket_ipv4 r (frame.drop EthernetFrame.size) len (by omega)
      (by rw [octet_drop]; exact hversion) with ⟨hshort, hfault⟩ | ⟨hlong, hprotocol, hdropped⟩ |
        ⟨hlong, hprotocol, srcIp, len', hudp⟩
    · refine iff_of_false (fun h => ?_) fun h => ?_
      · exact h.inside _ (heq.trans hfault)
      · have hle := h.ipv4 hipv4
        omega
    · rw [octet_drop] at hprotocol
      refine iff_of_true (Confined.of_not_udp (Or.inl (heq.trans hdropped)))
        ⟨h₁₄, fun _ => h₂₁, fun _ => by omega, fun h => absurd h.2 hprotocol,
          fun h => absurd h.2 hprotocol⟩
    · rw [octet_drop] at hprotocol
      have hisudp : IsUdp frame := ⟨hipv4, hprotocol⟩
      rw [hudp, List.drop_drop] at heq
      rw [confined_iff_of_udp heq]
      constructor
      · intro h
        exact ⟨h₁₄, fun _ => h₂₁, fun _ => by omega, fun _ => h.1, fun _ => h.2⟩
      · intro h
        exact ⟨h.udp hisudp, h.lengths hisudp⟩
  · have hfirst : ¬ octet (frame.drop EthernetFrame.size) 0 >>> 4 = 4 := by
      rw [octet_drop]
      exact hversion
    rw [ipHandlePacket_eq (by omega), if_neg hfirst] at heq
    exact iff_of_true (Confined.of_not_udp (Or.inl heq)) ⟨h₁₄, fun _ => h₂₁,
      fun h => absurd h.2 hversion, fun h => absurd h.1.2 hversion, fun h => absurd h.1.2 hversion⟩

/-- Where every port has a socket the handlers take a frame apart as before. -/
theorem ethernetHandlePacket_of_bound {r : Receiver} {frame : List Byte}
    (hbound : ∀ port, r.bound port = true) :
    r.ethernetHandlePacket frame = ethernetHandlePacket frame := by
  have hudp : ∀ srcIp packet len,
      r.udpHandlePacket srcIp packet len = udpHandlePacket srcIp packet := by
    intro srcIp packet len
    simp only [Receiver.udpHandlePacket, udpHandlePacket, Receiver.udpReceive, hbound, if_true]
  have hip : ∀ packet len, r.ipHandlePacket packet len = ipHandlePacket packet := by
    intro packet len
    simp only [Receiver.ipHandlePacket, ipHandlePacket, hudp]
    rcases ipAddrAt_cases 12 packet with ⟨hlong, srcIp, hsrc⟩ | ⟨hshort, hsrc⟩
    · rw [hsrc, @shortAt_of_lt packet 2 (by omega)]
      rfl
    · rw [hsrc]
      rfl
  simp only [Receiver.ethernetHandlePacket, ethernetHandlePacket, hip]

/-- A frame from `10.0.2.2` to port 5000, with a datagram of `length` bytes in a packet of 28. -/
def frameTo5000 (length : Byte) : List Byte :=
  [0x52, 0x54, 0, 0x12, 0x34, 0x56, 0x52, 0x55, 0x0a, 0, 2, 2, 8, 0,
    0x45, 0, 0, 28, 0, 0, 0, 0, 64, 17, 0, 0, 10, 0, 2, 2, 10, 0, 2, 14,
    0, 53, 0x13, 0x88, 0, length, 0, 0]

/-- A datagram that says it has no bytes, not even its header, is not dropped. -/
theorem not_confined_of_empty :
    ¬ Confined ⟨fun port => port = 5000⟩ .enclosed (frameTo5000 0) ∧
      ¬ Confined ⟨fun port => port = 5000⟩ .exact (frameTo5000 0) := by
  have hfault : Receiver.ethernetHandlePacket ⟨fun port => port = 5000⟩ (frameTo5000 0) =
      .error .outOfBounds := by
    rfl
  exact ⟨fun h => h.inside _ hfault, fun h => h.inside _ hfault⟩

end Net
end JkxyKernel
