import JkxyKernel.Net.Encapsulation
import Mathlib.Data.List.Dedup

/-!
# The ARP table

Every packet and every call of `arp_lookup_add` teaches an address.  Nothing moves
`arp_table_curr`, so each one takes the place of the one before, and the other entries stay empty.
An empty entry is one for `0.0.0.0`.

`memcmp` is 0 if the addresses are equal.  `arp_lookup` asks for that, and `arp_handle_packet` for
the opposite: it answers the requests for other hosts.
-/

namespace JkxyKernel
namespace Net

open Bytes

def ARP_REQUEST : Short := 1
def ARP_REPLY : Short := 2
def HARDWARE_TYPE_ETHERNET : Short := 1

/-- `struct arp_packet` -/
structure ArpPacket where
  hardwareType : Short
  protocol : Short
  hardwareAddrLen : Byte
  protocolAddrLen : Byte
  opcode : Short
  srcHardwareAddr : MacAddr
  srcProtocolAddr : IpAddr
  dstHardwareAddr : MacAddr
  dstProtocolAddr : IpAddr

/-- The arguments of a call of `ethernet_send_packet` for `ETHERNET_TYPE_ARP`. -/
structure ArpSent where
  dstMacAddr : MacAddr
  packet : ArpPacket

/-- The variables of `arp.c`, with the host whose table they are about. -/
structure Arp where
  host : Host
  arpTableSize : Nat
  arpTableCurr : Nat

/-- An entry that was never written. -/
def ArpTableEntry.zero : ArpTableEntry where
  ipAddr := fun _ => 0
  macAddr := fun _ => 0

/-- Before the first packet. -/
def Arp.init (h : Host) : Arp where
  host := { h with arpTable := fun _ => .zero }
  arpTableSize := 0
  arpTableCurr := 0

/-- `memcmp`, of blocks of one length. -/
def memcmp : List Byte → List Byte → Int
  | a :: s1, b :: s2 => if a ≠ b then a.toInt - b.toInt else memcmp s1 s2
  | _, _ => 0

namespace Arp

/-- The variables after an address was stored. -/
def store (a : Arp) (ipAddr : IpAddr) (macAddr : MacAddr) : Arp where
  host := { a.host with
    arpTable := Function.update a.host.arpTable a.arpTableCurr
      { ipAddr := ipAddr, macAddr := macAddr } }
  arpTableSize := if a.arpTableSize < 512 then a.arpTableSize + 1 else a.arpTableSize
  arpTableCurr := if 512 ≤ a.arpTableCurr then 0 else a.arpTableCurr

/-- `arp_lookup_add` -/
def arpLookupAdd (a : Arp) (retHardwareAddr : MacAddr) (ipAddr : IpAddr) : Arp :=
  a.store ipAddr retHardwareAddr

/-- The packet, made the answer to itself. -/
def reply (a : Arp) (p : ArpPacket) : ArpPacket :=
  { p with
    srcHardwareAddr := a.host.macAddr
    srcProtocolAddr := ![10, 0, 2, 14]
    dstHardwareAddr := p.srcHardwareAddr
    dstProtocolAddr := p.srcProtocolAddr
    opcode := htons ARP_REPLY
    hardwareAddrLen := 6
    protocolAddrLen := 4
    hardwareType := htons HARDWARE_TYPE_ETHERNET
    protocol := htons ETHERNET_TYPE_IP }

/-- `arp_handle_packet`, with what it sends. -/
def arpHandlePacket (a : Arp) (p : ArpPacket) : Arp × Option ArpSent :=
  let dstHardwareAddr := p.srcHardwareAddr
  let dstProtocolAddr := p.srcProtocolAddr
  let sent :=
    if ntohs p.opcode = ARP_REQUEST then
      let myIp : Word := 0x0e02000a
      if memcmp (List.ofFn p.dstProtocolAddr) (leBytes myIp) ≠ 0 then
        some { dstMacAddr := dstHardwareAddr, packet := a.reply p }
      else none
    else none
  (a.store dstProtocolAddr dstHardwareAddr, sent)

end Arp

/-- A packet is received, or `arp_lookup_add` called. -/
inductive ArpEvent
  | packet (p : ArpPacket)
  | add (retHardwareAddr : MacAddr) (ipAddr : IpAddr)

namespace ArpEvent

/-- The protocol address that is taught. -/
def ipAddr : ArpEvent → IpAddr
  | packet p => p.srcProtocolAddr
  | add _ ipAddr => ipAddr

/-- The hardware address that is taught for it. -/
def macAddr : ArpEvent → MacAddr
  | packet p => p.srcHardwareAddr
  | add retHardwareAddr _ => retHardwareAddr

end ArpEvent

namespace Arp

def step (a : Arp) : ArpEvent → Arp
  | .packet p => (a.arpHandlePacket p).1
  | .add retHardwareAddr ipAddr => a.arpLookupAdd retHardwareAddr ipAddr

/-- The variables after a history. -/
def run (h : Host) (history : List ArpEvent) : Arp := history.foldl step (init h)

end Arp

/-! ### What ARP is for -/

/-- What a host knows from its history: a map in which each event writes one address. -/
def known (history : List ArpEvent) : IpAddr → Option MacAddr :=
  history.foldl (fun m e => Function.update m e.ipAddr (some e.macAddr)) fun _ => none

def IsRequest (p : ArpPacket) : Prop := ntohs p.opcode = ARP_REQUEST

/-- A reply is sent exactly to a request for this host, and to the one who asks. -/
structure Answers (a : Arp) (p : ArpPacket) : Prop where
  answered : IsRequest p → p.dstProtocolAddr = myIp → ∃ sent, (a.arpHandlePacket p).2 = some sent
  sent : ∀ sent, (a.arpHandlePacket p).2 = some sent →
    IsRequest p ∧ p.dstProtocolAddr = myIp ∧ sent.dstMacAddr = p.srcHardwareAddr ∧
      sent.packet.dstHardwareAddr = p.srcHardwareAddr ∧
      sent.packet.dstProtocolAddr = p.srcProtocolAddr

/-- Every packet of a history is answered as it should be; and after it the table has what the
host knows, if there is room for it. -/
structure ArpRight (h : Host) (history : List ArpEvent) : Prop where
  answers : ∀ before p after, history = before ++ ArpEvent.packet p :: after →
    Answers (Arp.run h before) p
  lookups : (history.map ArpEvent.ipAddr).dedup.length ≤ ARP_TABLE_SIZE →
    ∀ ipAddr, (Arp.run h history).host.arpLookup ipAddr = known history ipAddr

/-- The address of an empty entry. -/
def zeroIp : IpAddr := fun _ => 0

/-- The last event teaches all there is to know, beside what an empty entry says. -/
def LastSuffices (history : List ArpEvent) : Prop :=
  ∃ before last, history = before ++ [last] ∧
    (∀ e ∈ before, e.ipAddr = last.ipAddr ∨ e.ipAddr = zeroIp) ∧
    (last.ipAddr ≠ zeroIp → known before zeroIp = some fun _ => 0)

section Replies

variable {a : Arp} {p : ArpPacket}

/-- Blocks of one length are equal if and only if `memcmp` is 0. -/
theorem memcmp_eq_zero_iff {s1 s2 : List Byte} (hlength : s1.length = s2.length) :
    memcmp s1 s2 = 0 ↔ s1 = s2 := by
  induction s1 generalizing s2 with
  | nil =>
      cases s2 with
      | nil => exact ⟨fun _ => rfl, fun _ => rfl⟩
      | cons b s2 => cases hlength
  | cons a s1 ih =>
      cases s2 with
      | nil => cases hlength
      | cons b s2 =>
          rw [memcmp]
          by_cases hab : a = b
          · rw [if_neg (not_not_intro hab), ih (Nat.succ.inj hlength), hab, List.cons_inj_right]
          · rw [if_pos hab]
            refine iff_of_false (fun hsub => ?_) fun heq => hab (List.cons.inj heq).1
            exact hab (BitVec.eq_of_toInt_eq (Int.sub_eq_zero.mp hsub))

theorem memcmp_myIp_iff {ipAddr : IpAddr} :
    memcmp (List.ofFn ipAddr) (leBytes 0x0e02000a) = 0 ↔ ipAddr = myIp := by
  have hmine : leBytes 0x0e02000a = List.ofFn myIp := by decide
  rw [hmine, memcmp_eq_zero_iff (by rw [List.length_ofFn, List.length_ofFn])]
  exact List.ofFn_injective.eq_iff

/-- What is sent: a reply, if the request is for another host. -/
theorem arpHandlePacket_request (hrequest : IsRequest p) :
    (a.arpHandlePacket p).2 = if p.dstProtocolAddr = myIp then none
      else some { dstMacAddr := p.srcHardwareAddr, packet := a.reply p } := by
  rw [IsRequest] at hrequest
  simp only [Arp.arpHandlePacket]
  rw [if_pos hrequest]
  by_cases hmine : p.dstProtocolAddr = myIp
  · rw [if_pos hmine, if_neg (not_not_intro (memcmp_myIp_iff.mpr hmine))]
  · rw [if_neg hmine, if_pos fun hzero => hmine (memcmp_myIp_iff.mp hzero)]

theorem arpHandlePacket_other (hother : ¬ IsRequest p) : (a.arpHandlePacket p).2 = none := by
  rw [IsRequest] at hother
  simp only [Arp.arpHandlePacket]
  rw [if_neg hother]

/-- No request is answered as it should be. -/
theorem answers_iff : Answers a p ↔ ¬ IsRequest p := by
  constructor
  · intro h hrequest
    have heq := @arpHandlePacket_request a p hrequest
    by_cases hmine : p.dstProtocolAddr = myIp
    · obtain ⟨sent, hsent⟩ := h.answered hrequest hmine
      rw [heq, if_pos hmine] at hsent
      cases hsent
    · rw [if_neg hmine] at heq
      exact hmine (h.sent _ heq).2.1
  · intro hother
    refine ⟨fun hrequest => absurd hrequest hother, fun sent hsent => ?_⟩
    rw [arpHandlePacket_other hother] at hsent
    cases hsent

end Replies

section Table

variable {h : Host} {history before : List ArpEvent} {e last : ArpEvent} {ipAddr : IpAddr}

theorem run_append : Arp.run h (before ++ [e]) = (Arp.run h before).step e := by
  rw [Arp.run, List.foldl_append]
  rfl

theorem known_append : known (before ++ [e]) =
    Function.update (known before) e.ipAddr (some e.macAddr) := by
  rw [known, List.foldl_append]
  rfl

/-- What is not taught is not known. -/
theorem known_eq_none_iff : known history ipAddr = none ↔ ∀ e ∈ history, e.ipAddr ≠ ipAddr := by
  induction history using List.reverseRecOn with
  | nil => exact ⟨fun _ _ hmem => (nomatch hmem), fun _ => rfl⟩
  | append_singleton before e ih =>
      rw [known_append, List.forall_mem_append]
      by_cases heq : e.ipAddr = ipAddr
      · rw [heq, Function.update_self]
        exact iff_of_false (fun hsome => nomatch hsome) fun hall =>
          hall.2 e (List.mem_singleton_self e) heq
      · rw [Function.update_of_ne (Ne.symm heq), ih]
        exact ⟨fun hall => ⟨hall, fun e' hmem => by rwa [List.mem_singleton.mp hmem]⟩,
          fun hall => hall.1⟩

/-- Both kinds of events store what they teach. -/
theorem step_eq (a : Arp) : a.step e = a.store e.ipAddr e.macAddr := by
  cases e with
  | packet p => rfl
  | add retHardwareAddr ipAddr => rfl

/-- The entry at 0 is always the next one. -/
theorem run_curr : (Arp.run h history).arpTableCurr = 0 := by
  induction history using List.reverseRecOn with
  | nil => rfl
  | append_singleton before e ih =>
      rw [run_append, step_eq, Arp.store]
      simp only [ih]
      decide

/-- After a history the table has its last event. -/
theorem run_arpTable : (Arp.run h (before ++ [last])).host.arpTable =
    Function.update (fun _ => ArpTableEntry.zero) 0
      { ipAddr := last.ipAddr, macAddr := last.macAddr } := by
  induction before using List.reverseRecOn generalizing last with
  | nil =>
      rw [run_append, step_eq, Arp.store]
      rfl
  | append_singleton before e ih =>
      rw [run_append, step_eq, Arp.store, run_curr]
      simp only [ih]
      rw [Function.update_idem]

/-- The first entry for an address. -/
theorem arpLookup_eq_some {i : Nat} (hi : i < ARP_TABLE_SIZE)
    (hentry : (h.arpTable i).ipAddr = ipAddr) (hbefore : ∀ j < i, (h.arpTable j).ipAddr ≠ ipAddr) :
    h.arpLookup ipAddr = some (h.arpTable i).macAddr := by
  have hfind : (List.range ARP_TABLE_SIZE).find? (fun i => (h.arpTable i).ipAddr = ipAddr) =
      some i := by
    rw [List.find?_range_eq_some]
    refine ⟨decide_eq_true hentry, List.mem_range.mpr hi, fun j hj => ?_⟩
    rw [decide_eq_false (hbefore j hj)]
    rfl
  rw [Host.arpLookup, hfind]
  rfl

theorem arpLookup_eq_none (hall : ∀ i < ARP_TABLE_SIZE, (h.arpTable i).ipAddr ≠ ipAddr) :
    h.arpLookup ipAddr = none := by
  have hfind : (List.range ARP_TABLE_SIZE).find? (fun i => (h.arpTable i).ipAddr = ipAddr) =
      none := by
    rw [List.find?_range_eq_none]
    intro i hi
    rw [decide_eq_false (hall i hi)]
    rfl
  rw [Host.arpLookup, hfind]
  rfl

/-- What is found after a history. -/
theorem run_arpLookup : (Arp.run h (before ++ [last])).host.arpLookup ipAddr =
    if ipAddr = last.ipAddr then some last.macAddr
    else if ipAddr = zeroIp then some fun _ => 0 else none := by
  have htable := @run_arpTable h before last
  have hfirst : (Arp.run h (before ++ [last])).host.arpTable 0 =
      { ipAddr := last.ipAddr, macAddr := last.macAddr } := by
    rw [htable, Function.update_self]
  have hempty : ∀ i, i ≠ 0 → (Arp.run h (before ++ [last])).host.arpTable i = .zero := by
    intro i hi
    rw [htable, Function.update_of_ne hi]
  by_cases hlast : ipAddr = last.ipAddr
  · rw [if_pos hlast, arpLookup_eq_some (show 0 < ARP_TABLE_SIZE by decide)
      (by rw [hfirst, hlast]) (fun j hj => absurd hj (Nat.not_lt_zero j)), hfirst]
  · rw [if_neg hlast]
    by_cases hzero : ipAddr = zeroIp
    · rw [if_pos hzero, arpLookup_eq_some (show 1 < ARP_TABLE_SIZE by decide)
        (by rw [hempty 1 Nat.one_ne_zero, hzero]; rfl) ?_, hempty 1 Nat.one_ne_zero]
      · rfl
      · intro j hj
        rw [Nat.lt_one_iff.mp hj, hfirst]
        exact Ne.symm hlast
    · rw [if_neg hzero]
      refine arpLookup_eq_none fun i _ => ?_
      rcases Nat.eq_zero_or_pos i with rfl | hpos
      · rw [hfirst]
        exact Ne.symm hlast
      · rw [hempty i (Nat.ne_of_gt hpos)]
        exact Ne.symm hzero

/-- Before the first event an address is found that nobody taught. -/
theorem init_arpLookup : (Arp.run h []).host.arpLookup zeroIp = some fun _ => 0 :=
  arpLookup_eq_some (i := 0) (show 0 < ARP_TABLE_SIZE by decide) rfl
    fun j hj => absurd hj (Nat.not_lt_zero j)

/-- The table has what the host knows if and only if the last event suffices. -/
theorem lookups_iff :
    (∀ ipAddr, (Arp.run h history).host.arpLookup ipAddr = known history ipAddr) ↔
      LastSuffices history := by
  constructor
  · intro hall
    rcases List.eq_nil_or_concat history with rfl | ⟨before, last, rfl⟩
    · have hzero := hall zeroIp
      rw [init_arpLookup] at hzero
      cases hzero
    · rw [List.concat_eq_append] at hall ⊢
      refine ⟨before, last, rfl, fun e he => ?_, fun hlast => ?_⟩
      · refine Classical.byContradiction fun hneither => ?_
        obtain ⟨hlast, hzero⟩ := not_or.mp hneither
        have hnone := hall e.ipAddr
        rw [run_arpLookup, if_neg hlast, if_neg hzero] at hnone
        exact known_eq_none_iff.mp hnone.symm e (List.mem_append_left _ he) rfl
      · have hzero := hall zeroIp
        rw [run_arpLookup, if_neg (Ne.symm hlast), if_pos rfl, known_append,
          Function.update_of_ne (Ne.symm hlast)] at hzero
        exact hzero.symm
  · rintro ⟨before, last, rfl, hbefore, hzero⟩ ipAddr
    rw [run_arpLookup, known_append]
    by_cases hlast : ipAddr = last.ipAddr
    · rw [if_pos hlast, hlast, Function.update_self]
    · rw [if_neg hlast, Function.update_of_ne hlast]
      by_cases hempty : ipAddr = zeroIp
      · rw [if_pos hempty, hempty, hzero (hempty ▸ Ne.symm hlast)]
      · rw [if_neg hempty]
        refine (known_eq_none_iff.mpr fun e he heq => ?_).symm
        rcases hbefore e he with h | h
        · exact hlast (heq ▸ h)
        · exact hempty (heq ▸ h)

end Table

/-- **When ARP works.**  Every packet is answered as it should be and the table has what was taught
if and only if there is no request, and too many addresses are taught for the table, or the last
event suffices. -/
theorem arpRight_iff (h : Host) (history : List ArpEvent) :
    ArpRight h history ↔ (∀ p, ArpEvent.packet p ∈ history → ¬ IsRequest p) ∧
      (ARP_TABLE_SIZE < (history.map ArpEvent.ipAddr).dedup.length ∨ LastSuffices history) := by
  constructor
  · intro hright
    refine ⟨fun p hp => ?_, ?_⟩
    · obtain ⟨before, after, heq⟩ := List.append_of_mem hp
      exact answers_iff.mp (hright.answers before p after heq)
    · rcases Nat.lt_or_ge ARP_TABLE_SIZE (history.map ArpEvent.ipAddr).dedup.length with hlt | hle
      · exact Or.inl hlt
      · exact Or.inr (lookups_iff.mp (hright.lookups hle))
  · rintro ⟨hrequests, htable⟩
    refine ⟨fun before p after heq => answers_iff.mpr (hrequests p ?_), fun hle => ?_⟩
    · rw [heq]
      exact List.mem_append_right _ List.mem_cons_self
    · rcases htable with hlt | hlast
      · exact absurd hle (Nat.not_le.mpr hlt)
      · exact lookups_iff.mpr hlast

/-- The gateway asks for this host. -/
def gatewayRequest : ArpPacket where
  hardwareType := htons HARDWARE_TYPE_ETHERNET
  protocol := htons ETHERNET_TYPE_IP
  hardwareAddrLen := 6
  protocolAddrLen := 4
  opcode := htons ARP_REQUEST
  srcHardwareAddr := gatewayMac
  srcProtocolAddr := gatewayAddr
  dstHardwareAddr := fun _ => 0
  dstProtocolAddr := myIp

/-- The gateway gets no reply; and what was taught at boot is lost when an address is added. -/
theorem not_arpRight :
    ¬ ArpRight qemuHost [.packet gatewayRequest] ∧
      ¬ ArpRight qemuHost [.add (fun _ => 0xff) (fun _ => 0xff), .add gatewayMac gatewayAddr] := by
  constructor
  · intro h
    exact answers_iff.mp (h.answers [] gatewayRequest [] rfl) (by rw [IsRequest]; decide)
  · intro h
    obtain ⟨before, last, heq, hbefore, -⟩ := lookups_iff.mp (h.lookups (by decide))
    have hsplit : [ArpEvent.add (fun _ => 0xff) (fun _ => 0xff)] ++
        [ArpEvent.add gatewayMac gatewayAddr] = before ++ [last] := heq
    obtain ⟨hinit, hlast⟩ := List.append_inj' hsplit rfl
    injection hlast with hlast
    have hmem : ArpEvent.add (fun _ => 0xff) (fun _ => 0xff) ∈ before := by
      rw [← hinit]
      exact List.mem_singleton_self _
    rcases hbefore _ hmem with heq' | heq'
    · rw [← hlast] at heq'
      exact absurd heq' (by decide)
    · exact absurd heq' (by decide)

end Net
end JkxyKernel
