import JkxyKernel.Net.Inet
import Mathlib.Data.List.OfFn

/-!
# Datagrams in frames

The way of a datagram out of the machine, `udp_send_packet`, `ip_send_packet` and
`ethernet_send_packet`, and the way in.  Each layer puts its header in front of what it is
given and computes the length again.

The destination of the frame is copied from `&dst_mac_addr`, where `dst_mac_addr` is
already a pointer to the hardware address.  So the frame carries the bytes of the pointer,
and of what lies behind it among the arguments.
-/

namespace JkxyKernel
namespace Net

open Bytes

def IP_IPV4 : BitVec 4 := 4
def PROTOCOL_UDP : Byte := 17
def ETHERNET_TYPE_ARP : Short := 0x0806
def ETHERNET_TYPE_IP : Short := 0x0800
def ARP_TABLE_SIZE : Nat := 512

def myIp : IpAddr := ![10, 0, 2, 14]

/-- The address to which everything is routed. -/
def gatewayAddr : IpAddr := ![10, 0, 2, 2]

/-- `struct arp_table_entry` -/
structure ArpTableEntry where
  ipAddr : IpAddr
  macAddr : MacAddr

/-- What a frame is made of beside the datagram. -/
structure Host where
  arpTable : Nat → ArpTableEntry
  /-- The hardware address of the card. -/
  macAddr : MacAddr
  /-- Where the variable `dst_hardware_addr` of `ip_send_packet` lies. -/
  dstHardwareAddr : Addr
  /-- Where the block for the packet lies. -/
  packet : Addr

/-- `struct udp_packet` -/
structure UdpPacket where
  srcPort : Short
  dstPort : Short
  length : Short
  checksum : Short
  data : List Byte

/-- `struct ip_packet`; of the fields that share a byte the first is the lower one. -/
structure IpPacket where
  version : BitVec 4
  ihl : BitVec 4
  tos : Byte
  length : Short
  id : Short
  flags : BitVec 3
  fragmentOffsetHigh : BitVec 5
  fragmentOffsetLow : Byte
  ttl : Byte
  protocol : Byte
  headerChecksum : Short
  srcIp : IpAddr
  dstIp : IpAddr
  data : List Byte

/-- `struct ethernet_frame` -/
structure EthernetFrame where
  dstMacAddr : MacAddr
  srcMacAddr : MacAddr
  type : Short
  data : List Byte

/-- The arguments of a call of `udp_receive`. -/
structure Datagram where
  srcIp : IpAddr
  srcPort : Short
  dstPort : Short
  data : List Byte

/-- What becomes of a frame. -/
inductive Received
  /-- `udp_receive` is called. -/
  | udp (datagram : Datagram)
  /-- `arp_handle_packet` is called. -/
  | arp (packet : List Byte)
  | dropped

def UdpPacket.bytes (p : UdpPacket) : List Byte :=
  leShort p.srcPort ++ leShort p.dstPort ++ leShort p.length ++ leShort p.checksum ++ p.data

namespace IpPacket

/-- The byte at `version_ihl_ptr`. -/
def versionIhl (p : IpPacket) : Byte := p.ihl ++ p.version

/-- The byte at `flags_fragment_ptr`. -/
def flagsFragment (p : IpPacket) : Byte := p.fragmentOffsetHigh ++ p.flags

def setVersionIhl (p : IpPacket) (b : Byte) : IpPacket :=
  { p with version := b.setWidth 4, ihl := (b >>> 4).setWidth 4 }

def setFlagsFragment (p : IpPacket) (b : Byte) : IpPacket :=
  { p with flags := b.setWidth 3, fragmentOffsetHigh := (b >>> 3).setWidth 5 }

/-- The header, up to `data`. -/
def header (p : IpPacket) : List Byte :=
  [p.versionIhl, p.tos] ++ leShort p.length ++ leShort p.id ++
    [p.flagsFragment, p.fragmentOffsetLow, p.ttl, p.protocol] ++ leShort p.headerChecksum ++
    List.ofFn p.srcIp ++ List.ofFn p.dstIp

def bytes (p : IpPacket) : List Byte := p.header ++ p.data

/-- `sizeof(struct ip_packet)` -/
def size : Nat := 20

end IpPacket

def EthernetFrame.bytes (f : EthernetFrame) : List Byte :=
  List.ofFn f.dstMacAddr ++ List.ofFn f.srcMacAddr ++ leShort f.type ++ f.data

/-- `sizeof(struct udp_packet)` -/
def UdpPacket.size : Nat := 8

/-- `sizeof(struct ethernet_frame)` -/
def EthernetFrame.size : Nat := 14

/-! ### Out -/

/-- `arp_lookup` -/
def Host.arpLookup (h : Host) (ipAddr : IpAddr) : Option MacAddr :=
  ((List.range ARP_TABLE_SIZE).find? fun i => (h.arpTable i).ipAddr = ipAddr).map
    fun i => (h.arpTable i).macAddr

/-- The first six bytes at the address of the first argument; the second one lies behind it. -/
def argumentBytes (first second : Addr) : MacAddr :=
  ![byteOf first 0, byteOf first 1, byteOf first 2, byteOf first 3, byteOf second 0,
    byteOf second 1]

/-- `ethernet_send_packet`, with the addresses `dst_mac_addr` and `data` and the bytes at the
latter; the result is the frame that `rtl8139_send_packet` gets. -/
def Host.ethernetSendPacket (h : Host) (dstMacAddr data : Addr) (packet : List Byte)
    (len : Nat) (protocol : Short) : List Byte :=
  let frame : EthernetFrame :=
    { srcMacAddr := h.macAddr
      dstMacAddr := argumentBytes dstMacAddr data
      data := packet.take len
      type := htons protocol }
  frame.bytes

/-- The loop of `ip_calculate_checksum`. -/
def sumShorts : List Byte → BitVec 32
  | low :: high :: rest => (flipShort (high ++ low)).setWidth 32 + sumShorts rest
  | _ => 0

/-- `ip_calculate_checksum` -/
def ipCalculateChecksum (p : IpPacket) : Short :=
  let sum := sumShorts p.header
  let carry := sum >>> 16
  (~~~((sum &&& 0x0000ffff) + carry)).setWidth 16

/-- The packet of `ip_send_packet`. -/
def ipPacket (dstIp : IpAddr) (data : List Byte) : IpPacket :=
  let length := BitVec.ofNat 16 (IpPacket.size + data.length)
  let packet : IpPacket :=
    { version := IP_IPV4, ihl := 5, tos := 0, length := length, id := 0, flags := 0
      fragmentOffsetHigh := 0, fragmentOffsetLow := 0, ttl := 64, protocol := PROTOCOL_UDP
      headerChecksum := 0, srcIp := myIp, dstIp := dstIp, data := data }
  let packet := packet.setVersionIhl (htonb packet.versionIhl 4)
  let packet := packet.setFlagsFragment (htonb packet.flagsFragment 3)
  let packet := { packet with length := htons length }
  let packet := { packet with headerChecksum := 0 }
  { packet with headerChecksum := htons (ipCalculateChecksum packet) }

/-- `ip_send_packet`; without the address of the gateway it keeps asking for it. -/
def Host.ipSendPacket (h : Host) (dstIp : IpAddr) (data : List Byte) : Option (List Byte) :=
  let packet := ipPacket dstIp data
  match h.arpLookup gatewayAddr with
  | none => none
  | some _ =>
      some (h.ethernetSendPacket h.dstHardwareAddr h.packet packet.bytes
        (htons packet.length).toNat ETHERNET_TYPE_IP)

/-- `udp_calculate_checksum` -/
def udpCalculateChecksum : Short := 0

/-- The packet of `udp_send_packet`. -/
def udpPacket (srcPort dstPort : Short) (data : List Byte) : UdpPacket where
  srcPort := htons srcPort
  dstPort := htons dstPort
  length := htons (BitVec.ofNat 16 (UdpPacket.size + data.length))
  checksum := udpCalculateChecksum
  data := data

/-- `udp_send_packet` -/
def Host.udpSendPacket (h : Host) (dstIp : IpAddr) (srcPort dstPort : Short)
    (data : List Byte) : Option (List Byte) :=
  h.ipSendPacket dstIp (udpPacket srcPort dstPort data).bytes

/-! ### In -/

/-- `udp_handle_packet` -/
def udpHandlePacket (srcIp : IpAddr) (packet : List Byte) : Except Fault Received := do
  let srcPort ← shortAt packet 0
  let dstPort ← shortAt packet 2
  let length ← shortAt packet 4
  let dataLen : BitVec 32 := (ntohs length).setWidth 32 - BitVec.ofNat 32 UdpPacket.size
  let data := packet.drop UdpPacket.size
  if data.length < dataLen.toNat then .error .outOfBounds
  else .ok (.udp
    { srcIp := srcIp, srcPort := ntohs srcPort, dstPort := ntohs dstPort
      data := data.take dataLen.toNat })

/-- `ip_handle_packet` -/
def ipHandlePacket (packet : List Byte) : Except Fault Received := do
  let versionIhl ← byteAt packet 0
  let _ ← byteAt packet 6
  let version : BitVec 4 := (ntohb versionIhl 4).setWidth 4
  if version = IP_IPV4 then
    let srcIp ← ipAddrAt packet 12
    let protocol ← byteAt packet 9
    if protocol = PROTOCOL_UDP then udpHandlePacket srcIp (packet.drop IpPacket.size)
    else .ok .dropped
  else .ok .dropped

/-- `ethernet_handle_packet` -/
def ethernetHandlePacket (frame : List Byte) : Except Fault Received := do
  let type ← shortAt frame 12
  let data := frame.drop EthernetFrame.size
  if ntohs type = ETHERNET_TYPE_ARP then .ok (.arp data)
  else if ntohs type = ETHERNET_TYPE_IP then ipHandlePacket data
  else .ok .dropped

/-- The frame comes from the card, and the same bytes lead to the datagram. -/
structure Delivers (h : Host) (frame : List Byte) (srcPort dstPort : Short)
    (data : List Byte) : Prop where
  source : (frame.drop 6).take 6 = List.ofFn h.macAddr
  received : ethernetHandlePacket frame =
    .ok (.udp { srcIp := myIp, srcPort := srcPort, dstPort := dstPort, data := data })

/-- The frame goes to a hardware address, and delivers the datagram. -/
structure Encapsulates (h : Host) (mac : MacAddr) (frame : List Byte)
    (srcPort dstPort : Short) (data : List Byte) : Prop where
  destination : frame.take 6 = List.ofFn mac
  delivers : Delivers h frame srcPort dstPort data

section RoundTrip

variable {h : Host} {mac : MacAddr} {srcIp dstIp : IpAddr} {srcPort dstPort type : Short}
variable {data packet : List Byte}

/-- The UDP layer. -/
theorem udpHandlePacket_bytes (hlen : data.length ≤ 65527) :
    udpHandlePacket srcIp (udpPacket srcPort dstPort data).bytes =
      .ok (.udp { srcIp := srcIp, srcPort := srcPort, dstPort := dstPort, data := data }) := by
  have hsize : ((BitVec.ofNat 16 (UdpPacket.size + data.length)).setWidth 32 -
      BitVec.ofNat 32 UdpPacket.size).toNat = data.length := by
    rw [BitVec.toNat_sub, BitVec.toNat_setWidth, BitVec.toNat_ofNat, BitVec.toNat_ofNat]
    simp only [UdpPacket.size]
    omega
  simp only [udpHandlePacket, udpPacket, UdpPacket.bytes, List.append_assoc, shortAt_leShort,
    shortAt_leShort_succ, bind, Except.bind, ntohs_htons, hsize]
  change (if data.length < data.length then _ else Except.ok (Received.udp
    { srcIp := srcIp, srcPort := srcPort, dstPort := dstPort
      data := data.take data.length })) = _
  rw [if_neg (Nat.lt_irrefl _), List.take_length]

/-- The header of a packet is read back. -/
theorem ipHandlePacket_bytes (p : IpPacket) :
    ipHandlePacket p.bytes =
      if (ntohb p.versionIhl 4).setWidth 4 = IP_IPV4 ∧ p.protocol = PROTOCOL_UDP then
        udpHandlePacket p.srcIp p.data
      else .ok .dropped := by
  have hversion : byteAt p.bytes 0 = .ok p.versionIhl := rfl
  have hflags : byteAt p.bytes 6 = .ok p.flagsFragment := rfl
  have hprotocol : byteAt p.bytes 9 = .ok p.protocol := rfl
  have hsrc : ipAddrAt p.bytes 12 = .ok p.srcIp := by
    change Except.ok ![p.srcIp 0, p.srcIp 1, p.srcIp 2, p.srcIp 3] = _
    congr 1
    funext i
    match i with
    | 0 | 1 | 2 | 3 => rfl
  have hdata : p.bytes.drop IpPacket.size = p.data := rfl
  simp only [ipHandlePacket, hversion, hflags, hsrc, hprotocol, hdata, bind, Except.bind]
  by_cases hv : (ntohb p.versionIhl 4).setWidth 4 = IP_IPV4
  · by_cases hp : p.protocol = PROTOCOL_UDP
    · rw [if_pos hv, if_pos hp, if_pos ⟨hv, hp⟩]
    · rw [if_pos hv, if_neg hp, if_neg fun hboth => hp hboth.2]
  · rw [if_neg hv, if_neg fun hboth => hv hboth.1]

/-- The packet is one that `ip_handle_packet` takes apart. -/
theorem ipPacket_version :
    (ntohb (ipPacket dstIp data).versionIhl 4).setWidth 4 = IP_IPV4 := by
  simp only [ipPacket, IpPacket.setVersionIhl, IpPacket.setFlagsFragment, IpPacket.versionIhl]
  decide

theorem length_ipPacket_bytes :
    (ipPacket dstIp data).bytes.length = IpPacket.size + data.length := by
  simp only [IpPacket.bytes, List.length_append]
  rfl

/-- The frame of a packet. -/
theorem ethernetHandlePacket_bytes (src dst : MacAddr) :
    ethernetHandlePacket (EthernetFrame.bytes
      { dstMacAddr := dst, srcMacAddr := src, type := htons ETHERNET_TYPE_IP
        data := packet }) = ipHandlePacket packet := by
  have hbytes : ∀ a : MacAddr, List.ofFn a = [a 0, a 1, a 2, a 3, a 4, a 5] := fun a => rfl
  simp only [ethernetHandlePacket, EthernetFrame.bytes, hbytes, List.cons_append,
    List.nil_append, shortAt_cons_succ, shortAt_leShort, bind, Except.bind, ntohs_htons]
  rfl

/-- Every layer gives on what it was given. -/
theorem ethernetHandlePacket_send
    (hlen : data.length ≤ 65507) (dstMacAddr packetAddr : Addr) :
    ethernetHandlePacket (h.ethernetSendPacket dstMacAddr packetAddr
      (ipPacket dstIp data).bytes (htons (ipPacket dstIp data).length).toNat
      ETHERNET_TYPE_IP) = udpHandlePacket myIp data := by
  have hlength : (htons (ipPacket dstIp data).length).toNat =
      (ipPacket dstIp data).bytes.length := by
    rw [length_ipPacket_bytes]
    change (htons (htons (BitVec.ofNat 16 (IpPacket.size + data.length)))).toNat = _
    rw [htons_htons, BitVec.toNat_ofNat]
    simp only [IpPacket.size]
    omega
  rw [hlength, Host.ethernetSendPacket, List.take_length]
  refine (ethernetHandlePacket_bytes _ _).trans ?_
  rw [ipHandlePacket_bytes, if_pos ⟨ipPacket_version, rfl⟩]
  rfl

/-- The frame names the card as its source. -/
theorem ethernetSendPacket_source
    (dstMacAddr packetAddr : Addr) (packet : List Byte) (len : Nat) (protocol : Short) :
    ((h.ethernetSendPacket dstMacAddr packetAddr packet len protocol).drop 6).take 6 =
      List.ofFn h.macAddr := rfl

/-- The destination of the frame is what lies among the arguments. -/
theorem ethernetSendPacket_destination
    (dstMacAddr packetAddr : Addr) (packet : List Byte) (len : Nat) (protocol : Short) :
    (h.ethernetSendPacket dstMacAddr packetAddr packet len protocol).take 6 =
      List.ofFn (argumentBytes dstMacAddr packetAddr) := rfl

theorem length_udpPacket_bytes :
    (udpPacket srcPort dstPort data).bytes.length = UdpPacket.size + data.length := by
  simp only [UdpPacket.bytes, List.length_append]
  rfl

/-- With the gateway known, one frame is handed to the card. -/
theorem ipSendPacket_eq
    (dstIp : IpAddr) (data : List Byte) (hgateway : h.arpLookup gatewayAddr = some mac) :
    h.ipSendPacket dstIp data =
      some (h.ethernetSendPacket h.dstHardwareAddr h.packet (ipPacket dstIp data).bytes
        (htons (ipPacket dstIp data).length).toNat ETHERNET_TYPE_IP) := by
  unfold Host.ipSendPacket
  simp only [hgateway]

end RoundTrip

/-- **Datagrams come through, in frames with the wrong destination.**  With the gateway known,
a datagram of at most 1472 bytes is sent in one frame, from the card's address, and the
same bytes lead back to the datagram.  The frame goes to the gateway exactly when the
address of the variable that holds the hardware address, with the bytes behind it, looks
like that hardware address. -/
theorem udpSendPacket_encapsulates
    (h : Host) (mac : MacAddr) (dstIp : IpAddr) (srcPort dstPort : Short) (data : List Byte)
    (hlen : data.length ≤ 1472) (hgateway : h.arpLookup gatewayAddr = some mac) :
    ∃ frame, h.udpSendPacket dstIp srcPort dstPort data = some frame ∧
      Delivers h frame srcPort dstPort data ∧
      (Encapsulates h mac frame srcPort dstPort data ↔
        argumentBytes h.dstHardwareAddr h.packet = mac) := by
  have hsend := ipSendPacket_eq dstIp (udpPacket srcPort dstPort data).bytes hgateway
  have hbytes : (udpPacket srcPort dstPort data).bytes.length ≤ 65507 := by
    rw [length_udpPacket_bytes, UdpPacket.size]
    omega
  have hdelivers : Delivers h (h.ethernetSendPacket h.dstHardwareAddr h.packet
      (ipPacket dstIp (udpPacket srcPort dstPort data).bytes).bytes
      (htons (ipPacket dstIp (udpPacket srcPort dstPort data).bytes).length).toNat
      ETHERNET_TYPE_IP) srcPort dstPort data :=
    ⟨ethernetSendPacket_source _ _ _ _ _, (ethernetHandlePacket_send hbytes _ _).trans
      (udpHandlePacket_bytes (by omega))⟩
  refine ⟨_, hsend, hdelivers, fun hencapsulates => ?_, fun hmac => ⟨?_, hdelivers⟩⟩
  · have hdestination := hencapsulates.destination
    rw [ethernetSendPacket_destination] at hdestination
    exact List.ofFn_injective hdestination
  · rw [ethernetSendPacket_destination, hmac]

/-- The hardware address of a gateway. -/
def gatewayMac : MacAddr := ![0x52, 0x55, 0x0a, 0x00, 0x02, 0x02]

/-- A host that knows its gateway. -/
def qemuHost : Host where
  arpTable := fun i =>
    if i = 1 then { ipAddr := gatewayAddr, macAddr := gatewayMac }
    else { ipAddr := ![0, 0, 0, 0], macAddr := ![0, 0, 0, 0, 0, 0] }
  macAddr := ![0x52, 0x54, 0x00, 0x12, 0x34, 0x56]
  dstHardwareAddr := 0xc0801f80
  packet := 0xc0a02010

theorem qemuHost_arpLookup : qemuHost.arpLookup gatewayAddr = some gatewayMac := by
  have hfind : (List.range ARP_TABLE_SIZE).find?
      (fun i => (qemuHost.arpTable i).ipAddr = gatewayAddr) = some 1 := by
    decide +kernel
  simp only [Host.arpLookup, hfind]
  rfl

/-- A name server is asked. -/
theorem udpSendPacket_encapsulates_query :
    ∃ frame, qemuHost.udpSendPacket ![10, 0, 2, 3] 5000 53 [1, 2, 3] = some frame ∧
      Delivers qemuHost frame 5000 53 [1, 2, 3] ∧
      (Encapsulates qemuHost gatewayMac frame 5000 53 [1, 2, 3] ↔
        argumentBytes qemuHost.dstHardwareAddr qemuHost.packet = gatewayMac) :=
  udpSendPacket_encapsulates qemuHost gatewayMac ![10, 0, 2, 3] 5000 53 [1, 2, 3] (by decide)
    qemuHost_arpLookup

/-- The question goes out to `80:1f:80:c0:10:20`. -/
theorem not_encapsulates :
    ∃ frame, qemuHost.udpSendPacket ![10, 0, 2, 3] 5000 53 [1, 2, 3] = some frame ∧
      qemuHost.arpLookup gatewayAddr = some gatewayMac ∧
      ¬ Encapsulates qemuHost gatewayMac frame 5000 53 [1, 2, 3] := by
  refine ⟨_, ipSendPacket_eq _ _ qemuHost_arpLookup, qemuHost_arpLookup, fun h => ?_⟩
  have hdestination := h.destination
  rw [ethernetSendPacket_destination] at hdestination
  exact absurd hdestination (by decide)

end Net
end JkxyKernel
