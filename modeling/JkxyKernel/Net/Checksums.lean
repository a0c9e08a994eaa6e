import JkxyKernel.Lib.EndAround
import JkxyKernel.Net.Encapsulation

/-!
# The checksum of IP headers

`ip_calculate_checksum` adds up the words of the header and folds the carry once.  The sum of ten
words can have a carry again after that, and then the checksum is off by one.

The header is what the frame has of the packet: its length is computed with 16 bits, and behind
65515 bytes of payload the frame is too short for it.
-/

namespace JkxyKernel
namespace Net

open Bytes EndAround

/-- The 16-bit words in network order. -/
def netWords : List Byte → List Nat
  | high :: low :: rest => (high.toNat * 256 + low.toNat) :: netWords rest
  | _ => []

/-- The one's-complement sum of the ten words is `0xFFFF`. -/
structure ChecksumVerifies (header : List Byte) : Prop where
  length : header.length = IpPacket.size
  sum : endAround (2 ^ 16) (netWords header).sum = 0xFFFF

/-- What a frame has of the header of its packet. -/
def emittedHeader (frame : List Byte) : List Byte :=
  (frame.drop EthernetFrame.size).take IpPacket.size

/-- The sum of the words of a header without its checksum. -/
def headerSum (dstIp : IpAddr) (len : Nat) : Nat :=
  0x911f + (IpPacket.size + len) % 2 ^ 16 + ((dstIp 0).toNat * 256 + (dstIp 1).toNat) +
    ((dstIp 2).toNat * 256 + (dstIp 3).toNat)

section Words

variable {a b : Byte} {x : Short} {bytes rest : List Byte} {p : IpPacket}

theorem flipShort_append : flipShort (b ++ a) = a ++ b := by
  refine BitVec.eq_of_getLsbD_eq fun i hi => ?_
  rw [getLsbD_flipShort hi, BitVec.getLsbD_append, BitVec.getLsbD_append, BitVec.getLsbD_append]
  split
  next hlow =>
    rw [if_neg (by omega), Nat.add_sub_cancel]
  next hhigh =>
    rw [if_pos (by omega)]

theorem toNat_flipShort_append : (flipShort (b ++ a)).toNat = a.toNat * 256 + b.toNat := by
  rw [flipShort_append, BitVec.toNat_append, ← Nat.shiftLeft_add_eq_or_of_lt b.isLt,
    Nat.shiftLeft_eq]

/-- The word of a field. -/
theorem netWords_leShort : netWords (leShort x ++ rest) = (ntohs x).toNat :: netWords rest := by
  have hword : (ntohs x).toNat = (x.setWidth 8).toNat * 256 + ((x >>> 8).setWidth 8).toNat := by
    rw [← toNat_flipShort_append, leShort_append]
    rfl
  rw [hword]
  rfl

/-- The loop adds up the words, with 32 bits. -/
theorem toNat_sumShorts : ∀ bytes : List Byte,
    (sumShorts bytes).toNat = (netWords bytes).sum % 2 ^ 32
  | [] => rfl
  | [_] => rfl
  | first :: second :: rest => by
      have ih := toNat_sumShorts rest
      have hword := @toNat_flipShort_append first second
      have hlt := (flipShort (second ++ first)).isLt
      rw [sumShorts, netWords, List.sum_cons, BitVec.toNat_add, ih, ← hword,
        BitVec.toNat_setWidth_of_le (by decide)]
      omega

/-- The header, word by word. -/
theorem netWords_header : netWords p.header =
    [p.versionIhl.toNat * 256 + p.tos.toNat, (ntohs p.length).toNat, (ntohs p.id).toNat,
      p.flagsFragment.toNat * 256 + p.fragmentOffsetLow.toNat,
      p.ttl.toNat * 256 + p.protocol.toNat, (ntohs p.headerChecksum).toNat,
      (p.srcIp 0).toNat * 256 + (p.srcIp 1).toNat, (p.srcIp 2).toNat * 256 + (p.srcIp 3).toNat,
      (p.dstIp 0).toNat * 256 + (p.dstIp 1).toNat,
      (p.dstIp 2).toNat * 256 + (p.dstIp 3).toNat] := by
  have hbytes : ∀ a : IpAddr, List.ofFn a = [a 0, a 1, a 2, a 3] := fun _ => rfl
  simp only [IpPacket.header, hbytes, List.append_assoc, List.cons_append, List.nil_append, netWords,
    netWords_leShort]

theorem sum_netWords_le_length : ∀ bytes : List Byte,
    (netWords bytes).sum ≤ (netWords bytes).length * 0xFFFF
  | [] => Nat.zero_le _
  | [_] => Nat.zero_le _
  | high :: low :: rest => by
      have ih := sum_netWords_le_length rest
      have hhigh := high.isLt
      have hlow := low.isLt
      rw [netWords, List.sum_cons, List.length_cons]
      omega

theorem sum_netWords_le : (netWords p.header).sum ≤ 10 * 0xFFFF := by
  have hlength : (netWords p.header).length = 10 := by
    rw [netWords_header]
    rfl
  have hle := sum_netWords_le_length p.header
  rw [hlength] at hle
  exact hle

/-- The checksum of a header is the complement of the sum, folded once. -/
theorem toNat_ipCalculateChecksum : (ipCalculateChecksum p).toNat =
    2 ^ 16 - 1 - fold (2 ^ 16) (netWords p.header).sum % 2 ^ 16 := by
  have hlt := @sum_netWords_le p
  have hsum := toNat_sumShorts p.header
  rw [Nat.mod_eq_of_lt (by omega)] at hsum
  have hlow : (sumShorts p.header &&& 0x0000ffff).toNat = (netWords p.header).sum % 2 ^ 16 := by
    have hmask : (0x0000ffff : BitVec 32).toNat = 2 ^ 16 - 1 := rfl
    rw [BitVec.toNat_and, hmask, Nat.and_two_pow_sub_one_eq_mod, hsum]
  have hcarry : (sumShorts p.header >>> 16).toNat = (netWords p.header).sum / 2 ^ 16 := by
    rw [BitVec.toNat_ushiftRight, Nat.shiftRight_eq_div_pow, hsum]
  have hfold : fold (2 ^ 16) (netWords p.header).sum =
      (netWords p.header).sum % 2 ^ 16 + (netWords p.header).sum / 2 ^ 16 := rfl
  have hsmall : (netWords p.header).sum % 2 ^ 16 + (netWords p.header).sum / 2 ^ 16 < 2 ^ 17 := by
    omega
  rw [ipCalculateChecksum, BitVec.toNat_setWidth, BitVec.toNat_not, BitVec.toNat_add, hlow, hcarry,
    hfold]
  generalize (netWords p.header).sum % 2 ^ 16 + (netWords p.header).sum / 2 ^ 16 = F at hsmall
  rw [Nat.mod_eq_of_lt (Nat.lt_trans hsmall (by decide))]
  omega

/-- A header with its checksum verifies if and only if one fold leaves no carry. -/
theorem checksum_iff (hzero : p.headerChecksum = 0) :
    ChecksumVerifies { p with headerChecksum := htons (ipCalculateChecksum p) }.header ↔
      fold (2 ^ 16) (netWords p.header).sum < 2 ^ 16 := by
  have hlt := @sum_netWords_le p
  have hsum : (netWords { p with headerChecksum := htons (ipCalculateChecksum p) }.header).sum =
      (netWords p.header).sum + (ipCalculateChecksum p).toNat := by
    have hnone : (ntohs p.headerChecksum).toNat = 0 := by
      rw [hzero]
      rfl
    have hfirst : IpPacket.versionIhl
        { p with headerChecksum := htons (ipCalculateChecksum p) } = p.versionIhl := rfl
    have hfragment : IpPacket.flagsFragment
        { p with headerChecksum := htons (ipCalculateChecksum p) } = p.flagsFragment := rfl
    simp only [netWords_header, hfirst, hfragment, hnone, ntohs_htons, List.sum_cons, List.sum_nil]
    omega
  rw [← endAround_complement_iff (by decide) (show (netWords p.header).sum / 2 ^ 16 < 2 ^ 16 by omega),
    ← toNat_ipCalculateChecksum, ← hsum]
  exact ⟨fun h => h.sum, fun h => ⟨rfl, h⟩⟩

end Words

/-- The header of `ip_send_packet` before its checksum is entered. -/
def headerOf (dstIp : IpAddr) (data : List Byte) : IpPacket where
  version := 5
  ihl := 4
  tos := 0
  length := htons (BitVec.ofNat 16 (IpPacket.size + data.length))
  id := 0
  flags := 0
  fragmentOffsetHigh := 0
  fragmentOffsetLow := 0
  ttl := 64
  protocol := PROTOCOL_UDP
  headerChecksum := 0
  srcIp := myIp
  dstIp := dstIp
  data := data

section Sending

variable {h : Host} {dstIp : IpAddr} {data frame : List Byte}

theorem ipPacket_eq : ipPacket dstIp data = { headerOf dstIp data with
    headerChecksum := htons (ipCalculateChecksum (headerOf dstIp data)) } := by
  have hversion : BitVec.setWidth 4 (htonb ((5 : BitVec 4) ++ IP_IPV4) 4) = 5 := by decide
  have hihl : BitVec.setWidth 4 (htonb ((5 : BitVec 4) ++ IP_IPV4) 4 >>> 4) = 4 := by decide
  have hflags : BitVec.setWidth 3 (htonb ((0 : BitVec 5) ++ (0 : BitVec 3)) 3) = 0 := by decide
  have hfragment : BitVec.setWidth 5 (htonb ((0 : BitVec 5) ++ (0 : BitVec 3)) 3 >>> 3) = 0 := by
    decide
  simp only [ipPacket, IpPacket.setVersionIhl, IpPacket.setFlagsFragment, IpPacket.versionIhl,
    IpPacket.flagsFragment, headerOf, hversion, hihl, hflags, hfragment]

theorem sum_headerOf : (netWords (headerOf dstIp data).header).sum = headerSum dstIp data.length := by
  have hlength : (ntohs (headerOf dstIp data).length).toNat =
      (IpPacket.size + data.length) % 2 ^ 16 := by
    rw [headerOf, ntohs_htons, BitVec.toNat_ofNat]
  have hfirst : ((headerOf dstIp data).versionIhl).toNat = 0x45 :=
    show ((4 : BitVec 4) ++ (5 : BitVec 4)).toNat = 0x45 by decide
  have hfragment : ((headerOf dstIp data).flagsFragment).toNat = 0 :=
    show ((0 : BitVec 5) ++ (0 : BitVec 3)).toNat = 0 by decide
  have htos : (headerOf dstIp data).tos.toNat = 0 := rfl
  have hid : (ntohs (headerOf dstIp data).id).toNat = 0 :=
    show (ntohs 0).toNat = 0 by decide
  have hlow : (headerOf dstIp data).fragmentOffsetLow.toNat = 0 := rfl
  have httl : (headerOf dstIp data).ttl.toNat = 64 := rfl
  have hprotocol : (headerOf dstIp data).protocol.toNat = 17 := rfl
  have hchecksum : (ntohs (headerOf dstIp data).headerChecksum).toNat = 0 :=
    show (ntohs 0).toNat = 0 by decide
  have hsrc : (headerOf dstIp data).srcIp = myIp := rfl
  have hmine₀ : (myIp 0).toNat = 10 := rfl
  have hmine₁ : (myIp 1).toNat = 0 := rfl
  have hmine₂ : (myIp 2).toNat = 2 := rfl
  have hmine₃ : (myIp 3).toNat = 14 := rfl
  have hdst : (headerOf dstIp data).dstIp = dstIp := rfl
  rw [netWords_header, hlength, hfirst, hfragment, htos, hid, hlow, httl, hprotocol, hchecksum, hsrc,
    hdst, hmine₀, hmine₁, hmine₂, hmine₃, headerSum]
  simp only [List.sum_cons, List.sum_nil]
  omega

theorem ipPacket_checksum_iff :
    ChecksumVerifies (ipPacket dstIp data).header ↔
      fold (2 ^ 16) (headerSum dstIp data.length) < 2 ^ 16 := by
  rw [ipPacket_eq, checksum_iff rfl, sum_headerOf]

/-- The frame has as much of the packet as its length says. -/
theorem emittedHeader_ethernetSendPacket
    (dstMacAddr packetAddr : Addr) (packet : List Byte) (len : Nat) (protocol : Short) :
    emittedHeader (h.ethernetSendPacket dstMacAddr packetAddr packet len protocol) =
      packet.take (min IpPacket.size len) := by
  have hdrop : (h.ethernetSendPacket dstMacAddr packetAddr packet len protocol).drop
      EthernetFrame.size = packet.take len := rfl
  rw [emittedHeader, hdrop, List.take_take]

theorem length_header {p : IpPacket} : p.header.length = IpPacket.size := rfl

/-- **When headers verify.**  The header of a frame has the checksum that the rule asks for if
and only if the length, with 16 bits, has room for it, and the sum of the words has no carry
after one fold. -/
theorem ipSendPacket_checksum_iff (hsend : h.ipSendPacket dstIp data = some frame) :
    ChecksumVerifies (emittedHeader frame) ↔
      IpPacket.size ≤ (IpPacket.size + data.length) % 2 ^ 16 ∧
        fold (2 ^ 16) (headerSum dstIp data.length) < 2 ^ 16 := by
  obtain ⟨mac, hgateway⟩ : ∃ mac, h.arpLookup gatewayAddr = some mac := by
    cases hgateway : h.arpLookup gatewayAddr with
    | some mac => exact ⟨mac, rfl⟩
    | none =>
        unfold Host.ipSendPacket at hsend
        simp only [hgateway] at hsend
        cases hsend
  have hframe := (ipSendPacket_eq dstIp data hgateway).symm.trans hsend
  have hlength : (htons (ipPacket dstIp data).length).toNat =
      (IpPacket.size + data.length) % 2 ^ 16 := by
    change (htons (htons (BitVec.ofNat 16 (IpPacket.size + data.length)))).toNat = _
    rw [htons_htons, BitVec.toNat_ofNat]
  injection hframe with hframe
  rw [← hframe, emittedHeader_ethernetSendPacket, hlength, IpPacket.bytes]
  rcases Nat.lt_or_ge ((IpPacket.size + data.length) % 2 ^ 16) IpPacket.size with hlt | hle
  · refine iff_of_false (fun hverifies => ?_) fun hboth => absurd hboth.1 (Nat.not_le.mpr hlt)
    have hshort := hverifies.length
    rw [List.length_take] at hshort
    omega
  · rw [Nat.min_eq_left hle, List.take_append_of_le_length (Nat.le_of_eq length_header.symm),
      ← @length_header (ipPacket dstIp data), List.take_length, length_header,
      ipPacket_checksum_iff]
    exact ⟨fun hfold => ⟨hle, hfold⟩, fun hboth => hboth.2⟩

end Sending

/-- A question to the name server has a checksum that verifies. -/
theorem ipSendPacket_checksum_iff_query :
    ∃ frame, qemuHost.ipSendPacket ![10, 0, 2, 3] [1, 2, 3, 4, 5, 6, 7, 8] = some frame ∧
      ChecksumVerifies (emittedHeader frame) := by
  obtain ⟨frame, hsend⟩ : ∃ frame,
      qemuHost.ipSendPacket ![10, 0, 2, 3] [1, 2, 3, 4, 5, 6, 7, 8] = some frame :=
    ⟨_, ipSendPacket_eq _ _ qemuHost_arpLookup⟩
  exact ⟨frame, hsend, (ipSendPacket_checksum_iff hsend).mpr (by decide +kernel)⟩

/-- To `192.168.174.28` the sum is `0x1ffff`, and its checksum `0xffff`. -/
theorem not_checksumVerifies :
    ∃ frame, qemuHost.ipSendPacket ![192, 168, 174, 28] [1, 2, 3, 4, 5, 6, 7, 8] = some frame ∧
      ¬ ChecksumVerifies (emittedHeader frame) := by
  refine ⟨_, ipSendPacket_eq _ _ qemuHost_arpLookup, fun hverifies => ?_⟩
  rw [emittedHeader_ethernetSendPacket] at hverifies
  have hheader : (ipPacket ![192, 168, 174, 28] [1, 2, 3, 4, 5, 6, 7, 8]).bytes.take
      (min IpPacket.size (htons (ipPacket ![192, 168, 174, 28]
        [1, 2, 3, 4, 5, 6, 7, 8]).length).toNat) =
      (ipPacket ![192, 168, 174, 28] [1, 2, 3, 4, 5, 6, 7, 8]).header := by
    decide +kernel
  rw [hheader, ipPacket_checksum_iff] at hverifies
  exact absurd hverifies (by decide +kernel)

end Net
end JkxyKernel
