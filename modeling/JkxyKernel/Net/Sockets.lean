import JkxyKernel.Lib.Machine
import JkxyKernel.Lib.Search
import JkxyKernel.Net.Inet

/-!
# UDP sockets and their ports

`udp_sockets` maps a port to the socket that gets its datagrams, and every socket
remembers its port.  `bind` clears the entry of the old port and writes the one of the new
port, without looking whether there is a socket already; only a port that the kernel
chooses itself is known to be free.

So a second socket takes the port of the first one away.  The first one still believes it
owns the port, and when it is closed or bound elsewhere it clears the entry of the second.
-/

namespace JkxyKernel
namespace Net

open Bytes

def AF_INET : Short := 2
def EFAULT : Int := 14
def EINVAL : Int := 22

def DYN_PORT_MIN : Nat := 32768
def DYN_PORT_MAX : Nat := 61000

/-- The address of a `struct udp_socket`. -/
abbrev SocketId := Nat

/-- `struct udp_socket`; the buffer has `buf_size` bytes. -/
structure UdpSocket where
  hostAddr : IpAddr
  hostPort : Short
  remoteAddr : IpAddr
  remotePort : Short
  recvBuf : Option (List Byte)
  deriving DecidableEq

/-- The socket of `kcalloc`. -/
def UdpSocket.zero : UdpSocket where
  hostAddr := fun _ => 0
  hostPort := 0
  remoteAddr := fun _ => 0
  remotePort := 0
  recvBuf := none

/-- `struct sockaddr_in` -/
structure SockaddrIn where
  sinFamily : Short
  sinPort : Short
  sinAddr : IpAddr

/-- `sizeof(struct sockaddr_in)` -/
def SockaddrIn.size : Nat := 8

/-- The sockets of the kernel. -/
structure Sockets where
  /-- `port_next` of `allocate_port` -/
  portNext : Nat
  udpSockets : Structure.Array SocketId
  /-- The blocks that are not freed. -/
  sockets : SocketId → Option UdpSocket

/-- No sockets. -/
def Sockets.boot : Sockets where
  portNext := DYN_PORT_MIN
  udpSockets := Structure.Array.empty
  sockets := fun _ => none

/-- An address as a system call gets it. -/
structure UserAddr where
  addr : SockaddrIn
  addrlen : Nat
  /-- What `safe_buf` finds. -/
  readable : Bool

/-- What can happen to the sockets.  `alloc` says that memory is there if it is asked for. -/
inductive Label
  /-- A socket is opened in the block at this address. -/
  | socket (s : SocketId)
  | bind (s : SocketId) (addr : UserAddr) (alloc : Bool)
  | connect (s : SocketId) (addr : UserAddr)
  /-- A datagram comes in. -/
  | receive (srcIp : IpAddr) (srcPort dstPort : Short) (data : List Byte) (alloc : Bool)
  /-- A reader has been waiting for data, and takes them. -/
  | read (s : SocketId) (nbytes : Nat) (alloc : Bool)
  /-- The last descriptor of a socket is closed. -/
  | release (s : SocketId)

/-- `array_set`, where memory may be short; nobody looks at the result. -/
def arraySet (arr : Structure.Array SocketId) (index : Nat) (value : Option SocketId)
    (alloc : Bool) : Except Fault (Structure.Array SocketId) :=
  if value.isSome ∧ arr.size ≤ index ∧ alloc = false then .ok arr else arr.set index value

/-- The checks that `bind` and `connect` make of an address. -/
def UserAddr.check (a : UserAddr) : Option Int :=
  if a.addrlen < SockaddrIn.size then some (-EINVAL)
  else if a.readable = false then some (-EFAULT)
  else if a.addr.sinFamily ≠ AF_INET then some (-EINVAL)
  else none

namespace Sockets

def setSocket (k : Sockets) (s : SocketId) (socket : Option UdpSocket) : Sockets :=
  { k with sockets := Function.update k.sockets s socket }

/-- `udp_allocate_port`, with the value of `port_next` behind it.  Without a free port it
goes on for ever. -/
def udpAllocatePort (k : Sockets) : Option (Nat × Nat) :=
  Search.searchFrom (Search.cycle DYN_PORT_MIN DYN_PORT_MAX)
    (fun port => (k.udpSockets.lookup port).isNone) (DYN_PORT_MAX + 1) k.portNext

/-- The port that `bind` is going to use, with `port_next`. -/
def newPort (k : Sockets) (socket : UdpSocket) (sinPort : Short) : Option (Short × Nat) :=
  if ntohs sinPort ≠ 0 then some (ntohs sinPort, k.portNext)
  else if socket.hostPort ≠ 0 then some (socket.hostPort, k.portNext)
  else k.udpAllocatePort.map fun r => (BitVec.ofNat 16 r.1, r.2)

/-- `udp_open` -/
def udpOpen (k : Sockets) (s : SocketId) : Sockets :=
  k.setSocket s (some .zero)

/-- `bind`; `none` stands for a call that does not come back. -/
def bind (k : Sockets) (s : SocketId) (addr : UserAddr) (alloc : Bool) :
    Except Fault (Option (Int × Sockets)) :=
  match addr.check with
  | some e => .ok (some (e, k))
  | none =>
      match k.sockets s with
      | none => .error .useAfterFree
      | some socket =>
          let socket := { socket with hostAddr := addr.addr.sinAddr }
          match k.newPort socket addr.addr.sinPort with
          | none => .ok none
          | some (port, portNext) =>
              let k := { k with portNext := portNext }
              if port ≠ socket.hostPort then do
                let cleared ← arraySet k.udpSockets socket.hostPort.toNat none alloc
                let written ← arraySet cleared port.toNat (some s) alloc
                .ok (some (0, { k with udpSockets := written }.setSocket s
                  (some { socket with hostPort := port })))
              else .ok (some (0, k.setSocket s (some socket)))

/-- `connect` -/
def connect (k : Sockets) (s : SocketId) (addr : UserAddr) : Except Fault (Int × Sockets) :=
  match addr.check with
  | some e => .ok (e, k)
  | none =>
      match k.sockets s with
      | none => .error .useAfterFree
      | some socket =>
          .ok (0, k.setSocket s (some { socket with
            remoteAddr := addr.addr.sinAddr, remotePort := ntohs addr.addr.sinPort }))

/-- `udp_receive` -/
def udpReceive (k : Sockets) (dstPort : Short) (data : List Byte) (alloc : Bool) :
    Except Fault Sockets := do
  match ← k.udpSockets.get dstPort.toNat with
  | none => .ok k
  | some s =>
      match k.sockets s with
      | none => .error .useAfterFree
      | some socket =>
          if alloc = false then .error .nullPointer
          else .ok (k.setSocket s (some { socket with
            recvBuf := some (socket.recvBuf.getD [] ++ data) }))

/-- The end of `udp_read`, when there are data; what is left goes to a new block. -/
def udpRead (k : Sockets) (s : SocketId) (nbytes : Nat) (alloc : Bool) :
    Except Fault (List Byte × Sockets) :=
  match k.sockets s with
  | none => .error .useAfterFree
  | some socket =>
      let buf := socket.recvBuf.getD []
      let left := buf.drop nbytes
      if left = [] then
        .ok (buf.take nbytes, k.setSocket s (some { socket with recvBuf := none }))
      else if alloc = false then .error .nullPointer
      else .ok (buf.take nbytes, k.setSocket s (some { socket with recvBuf := some left }))

/-- `udp_release` -/
def udpRelease (k : Sockets) (s : SocketId) : Except Fault Sockets :=
  match k.sockets s with
  | none => .error .useAfterFree
  | some socket =>
      if socket.hostPort ≠ 0 then do
        let cleared ← arraySet k.udpSockets socket.hostPort.toNat none true
        .ok ({ k with udpSockets := cleared }.setSocket s none)
      else .ok (k.setSocket s none)

/-- Can this happen here?  A call is made on an open socket, and a block is handed out once;
a call that does not come back is no step. -/
def enabled (l : Label) (k : Sockets) : Bool :=
  match l with
  | .socket s => (k.sockets s).isNone
  | .bind s addr alloc =>
      match k.bind s addr alloc with
      | .ok none => false
      | _ => (k.sockets s).isSome
  | .connect s _ => (k.sockets s).isSome
  | .receive .. => true
  | .read s _ _ => ((k.sockets s).bind (·.recvBuf)).isSome
  | .release s => (k.sockets s).isSome

/-- The state behind a step. -/
def exec (l : Label) (k : Sockets) : Except Fault Sockets :=
  match l with
  | .socket s => .ok (k.udpOpen s)
  | .bind s addr alloc => do
      let result ← k.bind s addr alloc
      .ok (result.elim k Prod.snd)
  | .connect s addr => do
      let result ← k.connect s addr
      .ok result.2
  | .receive _ _ dstPort data alloc => k.udpReceive dstPort data alloc
  | .read s nbytes alloc => do
      let result ← k.udpRead s nbytes alloc
      .ok result.2
  | .release s => k.udpRelease s

end Sockets

/-- The sockets as a machine. -/
def machine : Machine Sockets Label Fault where
  enabled := Sockets.enabled
  exec := Sockets.exec

namespace Sockets

/-- The port of an open socket. -/
def portOf (k : Sockets) (s : SocketId) : Option Short :=
  (k.sockets s).map (·.hostPort)

/-- The table and the sockets agree. -/
structure PortsAgree (k : Sockets) : Prop where
  table : ∀ (p : Short) s,
    k.udpSockets.lookup p.toNat = some s ↔ k.portOf s = some p ∧ p ≠ 0
  unique : ∀ s t p, k.portOf s = some p → k.portOf t = some p → p ≠ 0 → s = t
  /-- A datagram to the port of a socket ends up in its buffer. -/
  reachable : ∀ s socket data, k.sockets s = some socket → socket.hostPort ≠ 0 →
    k.udpReceive socket.hostPort data true = .ok (k.setSocket s (some { socket with
      recvBuf := some (socket.recvBuf.getD [] ++ data) }))

/-- Every entry is that of an open socket with this port. -/
def EntriesLive (k : Sockets) : Prop :=
  ∀ i s, k.udpSockets.lookup i = some s → ∃ p, k.portOf s = some p ∧ p.toNat = i ∧ p ≠ 0

/-- Every socket with a port has its entry. -/
def PortsHeld (k : Sockets) : Prop :=
  ∀ s p, k.portOf s = some p → p ≠ 0 → k.udpSockets.lookup p.toNat = some s

/-- What holds of the table and the counter in all runs. -/
structure TableSound (k : Sockets) : Prop where
  live : k.udpSockets.mem ≠ .freed
  counter : DYN_PORT_MIN ≤ k.portNext ∧ k.portNext ≤ DYN_PORT_MAX
  entries : k.EntriesLive

/-- The port that the step is to take is free, and there is memory for its entry. -/
def TakesFree (k : Sockets) : Label → Prop
  | .bind s addr alloc => alloc = true ∧
      (addr.check = none → ntohs addr.addr.sinPort ≠ 0 → ∀ socket, k.sockets s = some socket →
        ntohs addr.addr.sinPort ≠ socket.hostPort →
        k.udpSockets.lookup (ntohs addr.addr.sinPort).toNat = none)
  | _ => True

section Table

variable {arr arr' : Structure.Array SocketId} {index i : Nat} {value : Option SocketId}
variable {alloc : Bool}

theorem arraySet_mem (h : arraySet arr index value alloc = .ok arr') :
    arr'.mem = .freed ↔ arr.mem = .freed := by
  simp only [arraySet] at h
  split at h
  next =>
    cases h
    exact Iff.rfl
  next => exact (Structure.Array.set_spec h).1

theorem arraySet_ne (h : arraySet arr index value alloc = .ok arr') (hi : i ≠ index) :
    arr'.lookup i = arr.lookup i := by
  simp only [arraySet] at h
  split at h
  next =>
    cases h
    rfl
  next => exact (Structure.Array.set_spec h).2 i hi

/-- An entry can always be cleared. -/
theorem arraySet_none (h : arraySet arr index none alloc = .ok arr') :
    arr'.lookup index = none := by
  simp only [arraySet, Option.isSome_none, Bool.false_eq_true, false_and, if_false] at h
  rw [Structure.Array.set_lookup h]
  split <;> rfl

/-- An entry is written if there is memory for it. -/
theorem arraySet_some {s : SocketId} (hindex : index < 536870912)
    (h : arraySet arr index (some s) alloc = .ok arr') :
    arr'.lookup index = some s ∨ alloc = false ∧ arr'.lookup index = none := by
  simp only [arraySet] at h
  split at h
  next hfails =>
    cases h
    refine .inr ⟨hfails.2.2, ?_⟩
    rw [Structure.Array.lookup, if_pos hfails.2.1]
  next => exact .inl (Structure.Array.set_lookup_self hindex h)

end Table

section Bind

variable {k k' : Sockets} {s t : SocketId} {socket : UdpSocket} {addr : UserAddr} {alloc : Bool}
variable {port : Short} {portNext : Nat} {res : Int}

/-- A socket moves from one port to another. -/
structure Moves (k k' : Sockets) (s : SocketId) (old new : Short) (alloc : Bool) : Prop where
  before : k.portOf s = some old
  real : new ≠ 0
  differ : new ≠ old
  after : ∀ t, k'.portOf t = if t = s then some new else k.portOf t
  others : ∀ i, i ≠ old.toNat → i ≠ new.toNat → k'.udpSockets.lookup i = k.udpSockets.lookup i
  cleared : k'.udpSockets.lookup old.toNat = none
  written : k'.udpSockets.lookup new.toNat = some s ∨
    alloc = false ∧ k'.udpSockets.lookup new.toNat = none

/-- A socket is closed. -/
structure Closes (k k' : Sockets) (s : SocketId) (port : Short) : Prop where
  before : k.portOf s = some port
  after : ∀ t, k'.portOf t = if t = s then none else k.portOf t
  others : ∀ i, i ≠ port.toNat → k'.udpSockets.lookup i = k.udpSockets.lookup i
  cleared : port ≠ 0 → k'.udpSockets.lookup port.toNat = none
  unbound : port = 0 → k'.udpSockets = k.udpSockets

/-- A socket is opened, in a free block. -/
structure Opens (k k' : Sockets) (s : SocketId) : Prop where
  before : k.portOf s = none
  after : ∀ t, k'.portOf t = if t = s then some 0 else k.portOf t
  table : k'.udpSockets = k.udpSockets

/-- Nothing has changed that has to do with ports. -/
structure SamePorts (k k' : Sockets) : Prop where
  ports : ∀ t, k'.portOf t = k.portOf t
  table : k'.udpSockets = k.udpSockets

theorem portOf_setSocket :
    (k.setSocket s (some socket)).portOf t =
      if t = s then some socket.hostPort else k.portOf t := by
  simp only [portOf, setSocket, Function.update_apply]
  split <;> rfl

/-- What is changed in a socket is not its port. -/
theorem SamePorts.setSocket
    {old : UdpSocket} (h : k.sockets s = some old) (hport : socket.hostPort = old.hostPort) :
    SamePorts k (k.setSocket s (some socket)) := by
  refine ⟨fun t => ?_, rfl⟩
  rw [portOf_setSocket]
  split
  next ht => rw [ht, portOf, h, hport, Option.map_some]
  next => rfl

/-- The search yields a free port. -/
theorem udpAllocatePort_spec {r : Nat × Nat}
    (hcounter : DYN_PORT_MIN ≤ k.portNext ∧ k.portNext ≤ DYN_PORT_MAX)
    (h : k.udpAllocatePort = some r) :
    (DYN_PORT_MIN ≤ r.1 ∧ r.1 ≤ DYN_PORT_MAX) ∧ (DYN_PORT_MIN ≤ r.2 ∧ r.2 ≤ DYN_PORT_MAX) ∧
      k.udpSockets.lookup r.1 = none := by
  have hnext : ∀ n, DYN_PORT_MIN ≤ n ∧ n ≤ DYN_PORT_MAX →
      DYN_PORT_MIN ≤ Search.cycle DYN_PORT_MIN DYN_PORT_MAX n ∧
        Search.cycle DYN_PORT_MIN DYN_PORT_MAX n ≤ DYN_PORT_MAX := fun n hn =>
    ⟨Search.le_cycle (Nat.le_refl _) hn.1, Search.cycle_le (by decide)⟩
  obtain ⟨hport, hcount, hfree⟩ := Search.searchFrom_invariant
    (P := fun n => DYN_PORT_MIN ≤ n ∧ n ≤ DYN_PORT_MAX) hnext hcounter h
  exact ⟨hport, hcount, Option.isNone_iff_eq_none.mp hfree⟩

/-- The port of `bind` is a real one, and free if the kernel has chosen it. -/
theorem newPort_spec {sinPort : Short}
    (hcounter : DYN_PORT_MIN ≤ k.portNext ∧ k.portNext ≤ DYN_PORT_MAX)
    (h : k.newPort socket sinPort = some (port, portNext)) :
    (DYN_PORT_MIN ≤ portNext ∧ portNext ≤ DYN_PORT_MAX) ∧ port ≠ 0 ∧
      (port = socket.hostPort ∨ ntohs sinPort ≠ 0 ∧ port = ntohs sinPort ∨
        k.udpSockets.lookup port.toNat = none) := by
  simp only [newPort] at h
  split at h
  next hasked =>
    cases h
    exact ⟨hcounter, hasked, .inr (.inl ⟨hasked, rfl⟩)⟩
  next =>
    split at h
    next hown =>
      cases h
      exact ⟨hcounter, hown, .inl rfl⟩
    next =>
      rw [Option.map_eq_some_iff] at h
      obtain ⟨r, hr, heq⟩ := h
      cases heq
      obtain ⟨hport, hcount, hfree⟩ := udpAllocatePort_spec hcounter hr
      have hsame : (BitVec.ofNat 16 r.1).toNat = r.1 := by
        rw [BitVec.toNat_ofNat]
        exact Nat.mod_eq_of_lt (Nat.lt_of_le_of_lt hport.2 (by decide))
      refine ⟨hcount, fun hzero => ?_, .inr (.inr (by rw [hsame]; exact hfree))⟩
      rw [hzero] at hsame
      have hpos : 0 < r.1 := Nat.lt_of_lt_of_le (by decide) hport.1
      exact absurd hsame (Nat.ne_of_lt hpos)

/-- The two updates of the table, and that of the socket. -/
theorem moves_of_arraySet
    {cleared written : Structure.Array SocketId} {hostAddr : IpAddr}
    (hsocket : k.sockets s = some socket) (hreal : port ≠ 0) (hdiffer : port ≠ socket.hostPort)
    (hclear : arraySet k.udpSockets socket.hostPort.toNat none alloc = .ok cleared)
    (hwrite : arraySet cleared port.toNat (some s) alloc = .ok written) :
    Moves k (setSocket { k with portNext := portNext, udpSockets := written } s
      (some { socket with hostAddr := hostAddr, hostPort := port })) s socket.hostPort port
      alloc where
  before := by rw [portOf, hsocket, Option.map_some]
  real := hreal
  differ := hdiffer
  after := fun t => portOf_setSocket
  others := fun i hold hnew => (arraySet_ne hwrite hnew).trans (arraySet_ne hclear hold)
  cleared := by
    have hne : socket.hostPort.toNat ≠ port.toNat := fun heq =>
      hdiffer (BitVec.eq_of_toNat_eq heq.symm)
    exact (arraySet_ne hwrite hne).trans (arraySet_none hclear)
  written := arraySet_some (Nat.lt_trans port.isLt (by decide)) hwrite

/-- The inversion lemma of `bind`. -/
theorem bind_spec
    (hcounter : DYN_PORT_MIN ≤ k.portNext ∧ k.portNext ≤ DYN_PORT_MAX)
    (h : k.bind s addr alloc = .ok (some (res, k'))) :
    (DYN_PORT_MIN ≤ k'.portNext ∧ k'.portNext ≤ DYN_PORT_MAX) ∧
      (k'.udpSockets.mem = .freed ↔ k.udpSockets.mem = .freed) ∧
      (SamePorts k k' ∨ ∃ socket new, k.sockets s = some socket ∧ addr.check = none ∧
        Moves k k' s socket.hostPort new alloc ∧
        (ntohs addr.addr.sinPort ≠ 0 ∧ new = ntohs addr.addr.sinPort ∨
          k.udpSockets.lookup new.toNat = none)) := by
  simp only [bind] at h
  split at h
  next =>
    cases h
    exact ⟨hcounter, Iff.rfl, .inl ⟨fun _ => rfl, rfl⟩⟩
  next hcheck =>
    split at h
    next => cases h
    next socket hsocket =>
      split at h
      next => cases h
      next port portNext hnew =>
        obtain ⟨hcount, hreal, hwhich⟩ := newPort_spec hcounter hnew
        split at h
        next hdiffer =>
          simp only [Machine.bind_eq_ok_iff] at h
          obtain ⟨cleared, hclear, written, hwrite, heq⟩ := h
          cases heq
          refine ⟨hcount, (arraySet_mem hwrite).trans (arraySet_mem hclear), .inr
            ⟨socket, port, hsocket, hcheck, ?_, hwhich.resolve_left hdiffer⟩⟩
          exact moves_of_arraySet hsocket hreal hdiffer hclear hwrite
        next hsame =>
          cases h
          have hports : SamePorts { k with portNext := portNext }
              (setSocket { k with portNext := portNext } s
                (some { socket with hostAddr := addr.addr.sinAddr })) :=
            SamePorts.setSocket hsocket rfl
          exact ⟨hcount, Iff.rfl, .inl ⟨hports.ports, hports.table⟩⟩

end Bind

section Invariant

variable {k k' : Sockets} {s t : SocketId} {old new : Short} {alloc : Bool} {l : Label}

theorem EntriesLive.same (h : EntriesLive k) (hsame : SamePorts k k') : EntriesLive k' := by
  intro i s hi
  rw [hsame.table] at hi
  obtain ⟨p, hp⟩ := h i s hi
  exact ⟨p, by rw [hsame.ports]; exact hp⟩

theorem PortsHeld.same (h : PortsHeld k) (hsame : SamePorts k k') : PortsHeld k' := by
  intro s p hp hreal
  rw [hsame.ports] at hp
  rw [hsame.table]
  exact h s p hp hreal

/-- A move clears the entry that the socket may have had, and no other is about it. -/
theorem EntriesLive.moves (h : EntriesLive k) (hm : Moves k k' s old new alloc) :
    EntriesLive k' := by
  intro i t hi
  by_cases hnew : i = new.toNat
  · rw [hnew] at hi
    rcases hm.written with hwritten | ⟨-, hfailed⟩
    · rw [hwritten] at hi
      cases hi
      exact ⟨new, by rw [hm.after, if_pos rfl], hnew.symm, hm.real⟩
    · rw [hfailed] at hi
      cases hi
  · by_cases hold : i = old.toNat
    · rw [hold, hm.cleared] at hi
      cases hi
    · rw [hm.others i hold hnew] at hi
      obtain ⟨p, hp, hpi, hreal⟩ := h i t hi
      have hne : t ≠ s := by
        rintro rfl
        rw [hm.before] at hp
        cases hp
        exact hold hpi.symm
      exact ⟨p, by rw [hm.after, if_neg hne]; exact hp, hpi, hreal⟩

/-- A move to a free port takes nothing away. -/
theorem PortsHeld.moves
    (h : PortsHeld k) (hm : Moves k k' s old new true)
    (hfree : k.udpSockets.lookup new.toNat = none) : PortsHeld k' := by
  intro t p hp hreal
  rw [hm.after] at hp
  split at hp
  next ht =>
    cases hp
    rw [ht]
    exact hm.written.resolve_right nofun
  next hne =>
    have hheld := h t p hp hreal
    rw [hm.others]
    · exact hheld
    · intro heq
      have hown : k.udpSockets.lookup old.toNat = some s := by
        refine h s old hm.before fun hzero => ?_
        rw [hzero] at heq
        exact hreal (BitVec.eq_of_toNat_eq heq)
      rw [heq, hown] at hheld
      cases hheld
      exact hne rfl
    · intro heq
      rw [heq, hfree] at hheld
      cases hheld

/-- A new block is in no entry. -/
theorem EntriesLive.opens (h : EntriesLive k) (ho : Opens k k' s) : EntriesLive k' := by
  intro i t hi
  rw [ho.table] at hi
  obtain ⟨p, hp, hpi, hreal⟩ := h i t hi
  have hne : t ≠ s := by
    rintro rfl
    rw [ho.before] at hp
    cases hp
  exact ⟨p, by rw [ho.after, if_neg hne]; exact hp, hpi, hreal⟩

theorem PortsHeld.opens (h : PortsHeld k) (ho : Opens k k' s) : PortsHeld k' := by
  intro t p hp hreal
  rw [ho.after] at hp
  rw [ho.table]
  split at hp
  next =>
    cases hp
    exact absurd rfl hreal
  next => exact h t p hp hreal

/-- The entry of a socket goes before the socket does. -/
theorem EntriesLive.closes (h : EntriesLive k) (hc : Closes k k' s old) : EntriesLive k' := by
  intro i t hi
  have hkept : k.udpSockets.lookup i = some t ∧ (i = old.toNat → old = 0) := by
    by_cases hold : i = old.toNat
    · by_cases hzero : old = 0
      · rw [hc.unbound hzero] at hi
        exact ⟨hi, fun _ => hzero⟩
      · rw [hold, hc.cleared hzero] at hi
        cases hi
    · rw [hc.others i hold] at hi
      exact ⟨hi, fun heq => absurd heq hold⟩
  obtain ⟨p, hp, hpi, hreal⟩ := h i t hkept.1
  have hne : t ≠ s := by
    rintro rfl
    rw [hc.before] at hp
    cases hp
    exact hreal (hkept.2 hpi.symm)
  exact ⟨p, by rw [hc.after, if_neg hne]; exact hp, hpi, hreal⟩

/-- Where every socket has its own entry, closing one leaves those of the others. -/
theorem PortsHeld.closes (h : PortsHeld k) (hc : Closes k k' s old) : PortsHeld k' := by
  intro t p hp hreal
  rw [hc.after] at hp
  split at hp
  next => cases hp
  next hne =>
    have hheld := h t p hp hreal
    rw [hc.others]
    · exact hheld
    · intro heq
      have hown : k.udpSockets.lookup old.toNat = some s := by
        refine h s old hc.before fun hzero => ?_
        rw [hzero] at heq
        exact hreal (BitVec.eq_of_toNat_eq heq)
      rw [heq, hown] at hheld
      cases hheld
      exact hne rfl

end Invariant

section Steps

variable {k k' : Sockets} {s : SocketId} {l : Label}

/-- What a step can change about ports. -/
inductive Change (k : Sockets) (l : Label) (k' : Sockets) : Prop
  | same : SamePorts k k' → Change k l k'
  | opens (s : SocketId) : Opens k k' s → Change k l k'
  | closes (s : SocketId) (port : Short) : Closes k k' s port → Change k l k'
  | moves (s : SocketId) (old new : Short) (alloc : Bool) :
      Moves k k' s old new alloc →
        (TakesFree k l → alloc = true ∧ k.udpSockets.lookup new.toNat = none) → Change k l k'

theorem udpRelease_spec (h : k.udpRelease s = .ok k') :
    k'.portNext = k.portNext ∧ (k'.udpSockets.mem = .freed ↔ k.udpSockets.mem = .freed) ∧
      ∃ port, Closes k k' s port := by
  have hclosed : ∀ (k : Sockets) t, (k.setSocket s none).portOf t =
      if t = s then none else k.portOf t := by
    intro k t
    simp only [portOf, setSocket, Function.update_apply]
    split <;> rfl
  simp only [udpRelease] at h
  split at h
  next => cases h
  next socket hsocket =>
    have hbefore : k.portOf s = some socket.hostPort := by
      rw [portOf, hsocket, Option.map_some]
    split at h
    next hbound =>
      simp only [Machine.bind_eq_ok_iff] at h
      obtain ⟨cleared, hclear, heq⟩ := h
      cases heq
      exact ⟨rfl, arraySet_mem hclear, socket.hostPort, hbefore, hclosed _,
        fun i hi => arraySet_ne hclear hi, fun _ => arraySet_none hclear,
        fun hzero => absurd hzero hbound⟩
    next hbound =>
      cases h
      exact ⟨rfl, Iff.rfl, socket.hostPort, hbefore, hclosed _, fun _ _ => rfl,
        fun hreal => absurd hreal hbound, fun _ => rfl⟩

theorem udpReceive_spec {dstPort : Short} {data : List Byte} {alloc : Bool}
    (h : k.udpReceive dstPort data alloc = .ok k') :
    k'.portNext = k.portNext ∧ SamePorts k k' := by
  simp only [udpReceive, Machine.bind_eq_ok_iff] at h
  obtain ⟨entry, -, h⟩ := h
  split at h
  next =>
    cases h
    exact ⟨rfl, fun _ => rfl, rfl⟩
  next s =>
    split at h
    next => cases h
    next socket hsocket =>
      split at h
      next => cases h
      next =>
        cases h
        exact ⟨rfl, SamePorts.setSocket hsocket rfl⟩

theorem udpRead_spec {nbytes : Nat} {alloc : Bool} {r : List Byte × Sockets}
    (h : k.udpRead s nbytes alloc = .ok r) : r.2.portNext = k.portNext ∧ SamePorts k r.2 := by
  simp only [udpRead] at h
  split at h
  next => cases h
  next socket hsocket =>
    split at h
    next =>
      cases h
      exact ⟨rfl, SamePorts.setSocket hsocket rfl⟩
    next =>
      split at h
      next => cases h
      next =>
        cases h
        exact ⟨rfl, SamePorts.setSocket hsocket rfl⟩

theorem connect_spec {addr : UserAddr} {r : Int × Sockets}
    (h : k.connect s addr = .ok r) : r.2.portNext = k.portNext ∧ SamePorts k r.2 := by
  simp only [connect] at h
  split at h
  next =>
    cases h
    exact ⟨rfl, fun _ => rfl, rfl⟩
  next =>
    split at h
    next => cases h
    next socket hsocket =>
      cases h
      exact ⟨rfl, SamePorts.setSocket hsocket rfl⟩

/-- The inversion lemma of the machine. -/
theorem step_spec
    (hcounter : DYN_PORT_MIN ≤ k.portNext ∧ k.portNext ≤ DYN_PORT_MAX)
    (h : machine.Step k l k') :
    (DYN_PORT_MIN ≤ k'.portNext ∧ k'.portNext ≤ DYN_PORT_MAX) ∧
      (k'.udpSockets.mem = .freed ↔ k.udpSockets.mem = .freed) ∧ Change k l k' := by
  obtain ⟨hen, hexec⟩ := h
  change k.enabled l = true at hen
  change k.exec l = .ok k' at hexec
  cases l with
  | socket s =>
      cases hexec
      have hfree : k.sockets s = none := Option.isNone_iff_eq_none.mp hen
      exact ⟨hcounter, Iff.rfl, .opens s ⟨by rw [portOf, hfree, Option.map_none],
        fun t => portOf_setSocket, rfl⟩⟩
  | bind s addr alloc =>
      simp only [exec, Machine.bind_eq_ok_iff] at hexec
      obtain ⟨result, hbind, heq⟩ := hexec
      cases result with
      | none => simp [enabled, hbind] at hen
      | some r =>
          cases heq
          obtain ⟨hcount, hmem, hsame | ⟨socket, new, hsocket, hcheck, hmoves, hwhich⟩⟩ :=
            bind_spec hcounter hbind
          · exact ⟨hcount, hmem, .same hsame⟩
          · refine ⟨hcount, hmem, .moves s _ _ alloc hmoves fun htakes => ⟨htakes.1, ?_⟩⟩
            rcases hwhich with ⟨hasked, hnew⟩ | hfree
            · rw [hnew]
              exact htakes.2 hcheck hasked socket hsocket (hnew ▸ hmoves.differ)
            · exact hfree
  | connect s addr =>
      simp only [exec, Machine.bind_eq_ok_iff] at hexec
      obtain ⟨r, hconnect, heq⟩ := hexec
      cases heq
      obtain ⟨hcount, hsame⟩ := connect_spec hconnect
      exact ⟨hcount ▸ hcounter, by rw [hsame.table], .same hsame⟩
  | receive srcIp srcPort dstPort data alloc =>
      obtain ⟨hcount, hsame⟩ := udpReceive_spec hexec
      exact ⟨hcount ▸ hcounter, by rw [hsame.table], .same hsame⟩
  | read s nbytes alloc =>
      simp only [exec, Machine.bind_eq_ok_iff] at hexec
      obtain ⟨r, hread, heq⟩ := hexec
      cases heq
      obtain ⟨hcount, hsame⟩ := udpRead_spec hread
      exact ⟨hcount ▸ hcounter, by rw [hsame.table], .same hsame⟩
  | release s =>
      obtain ⟨hcount, hmem, port, hcloses⟩ := udpRelease_spec hexec
      exact ⟨hcount ▸ hcounter, hmem, .closes s port hcloses⟩

/-- Every step keeps the entries alive. -/
theorem TableSound.step (h : TableSound k) (hs : machine.Step k l k') : TableSound k' := by
  obtain ⟨hcount, hmem, hchange⟩ := step_spec h.counter hs
  refine ⟨fun hfreed => h.live (hmem.mp hfreed), hcount, ?_⟩
  cases hchange with
  | same hsame => exact h.entries.same hsame
  | opens s hopens => exact h.entries.opens hopens
  | closes s port hcloses => exact h.entries.closes hcloses
  | moves s old new alloc hmoves _ => exact h.entries.moves hmoves

/-- Steps that take free ports keep the sockets in the table. -/
theorem PortsHeld.step
    (h : PortsHeld k) (htable : TableSound k) (htakes : TakesFree k l)
    (hs : machine.Step k l k') : PortsHeld k' := by
  obtain ⟨-, -, hchange⟩ := step_spec htable.counter hs
  cases hchange with
  | same hsame => exact h.same hsame
  | opens s hopens => exact h.opens hopens
  | closes s port hcloses => exact h.closes hcloses
  | moves s old new alloc hmoves hfree =>
      obtain ⟨rfl, hnone⟩ := hfree htakes
      exact h.moves hmoves hnone

/-- With live entries and held ports, table and sockets agree. -/
theorem PortsAgree.of_held (htable : TableSound k) (h : PortsHeld k) : PortsAgree k := by
  have hentry : ∀ (p : Short) s,
      k.udpSockets.lookup p.toNat = some s ↔ k.portOf s = some p ∧ p ≠ 0 := by
    intro p s
    constructor
    · intro hlookup
      obtain ⟨q, hq, hqp, hreal⟩ := htable.entries _ _ hlookup
      rw [BitVec.eq_of_toNat_eq hqp] at hq hreal
      exact ⟨hq, hreal⟩
    · rintro ⟨hp, hreal⟩
      exact h s p hp hreal
  refine ⟨hentry, fun s t p hs ht hreal => ?_, fun s socket data hsocket hreal => ?_⟩
  · have hfirst := (hentry p s).mpr ⟨hs, hreal⟩
    rw [(hentry p t).mpr ⟨ht, hreal⟩] at hfirst
    exact (Option.some.inj hfirst).symm
  · have hown := (hentry socket.hostPort s).mpr
      ⟨by rw [portOf, hsocket, Option.map_some], hreal⟩
    have hget : k.udpSockets.get socket.hostPort.toNat = .ok (some s) := by
      rw [Structure.Array.get, if_neg fun hfreed => htable.live hfreed.2, hown]
    simp only [udpReceive, hget, Bind.bind, Except.bind, hsocket]
    rfl

end Steps

end Sockets

/-- The run begins without sockets. -/
def Boots (k : Sockets) : Prop :=
  k = Sockets.boot

section Runs

variable {k : Sockets} {ok : Sockets → Label → Prop}

theorem TableSound.boot : Sockets.TableSound Sockets.boot :=
  ⟨by decide, by decide, fun i s h => by simp [Sockets.boot, Structure.Array.lookup,
    Structure.Array.empty] at h⟩

theorem TableSound.reach (h : machine.Reach Boots ok k) : k.TableSound := by
  refine h.invariant (P := Sockets.TableSound) ?_ fun _ _ _ hk _ hs => hk.step hs
  rintro k rfl
  exact TableSound.boot

theorem PortsHeld.reach (h : machine.Reach Boots Sockets.TakesFree k) : k.PortsHeld := by
  refine (h.invariant (P := fun k => k.TableSound ∧ k.PortsHeld) ?_
    fun k l k' hk htakes hs => ⟨hk.1.step hs, hk.2.step hk.1 htakes hs⟩).2
  rintro k rfl
  exact ⟨TableSound.boot, fun s p hp _ => by cases hp⟩

end Runs

/-- **The port table is that of the sockets, as long as nobody asks for a port in use.**  No
entry ever outlives its socket.  When every `bind` asks for a port that is free, or for none,
and there is memory for the table, the sockets with a port are those in the table, no two
have the same port, and a datagram to a port reaches its socket. -/
theorem udpSockets_agree (k : Sockets) :
    (machine.Reach Boots (fun _ _ => True) k →
      ∀ (p : Short) s, k.udpSockets.lookup p.toNat = some s → k.portOf s = some p ∧ p ≠ 0) ∧
    (machine.Reach Boots Sockets.TakesFree k → k.PortsAgree) := by
  refine ⟨fun h p s hlookup => ?_, fun h => ?_⟩
  · obtain ⟨q, hq, hqp, hreal⟩ := (TableSound.reach h).entries _ _ hlookup
    rw [BitVec.eq_of_toNat_eq hqp] at hq hreal
    exact ⟨hq, hreal⟩
  · exact Sockets.PortsAgree.of_held (TableSound.reach h) (PortsHeld.reach h)

/-- A request for a port. -/
def anyAddr (port : Short) : UserAddr where
  addr := { sinFamily := AF_INET, sinPort := htons port, sinAddr := fun _ => 0 }
  addrlen := SockaddrIn.size
  readable := true

/-- Two sockets ask for port 5000. -/
def takeOverRun : List Label :=
  [.socket 1, .socket 2, .bind 1 (anyAddr 5000) true, .bind 2 (anyAddr 5000) true]

/-- The first socket has the port, and the second one its datagrams. -/
theorem takeOver_disagrees :
    ∃ k, machine.Reach Boots (fun _ _ => True) k ∧ ¬ k.PortsAgree := by
  have hrun : (machine.runLabels takeOverRun .boot).any (fun k =>
      decide (k.portOf 1 = some 5000) && decide (k.portOf 2 = some 5000)) = true := by
    decide +kernel
  obtain ⟨k, hreach, hk⟩ := Machine.exists_reach_of_run (show Boots Sockets.boot from rfl) hrun
  simp only [Bool.and_eq_true, decide_eq_true_eq] at hk
  refine ⟨k, hreach, fun hagree => ?_⟩
  exact absurd (hagree.unique 1 2 5000 hk.1 hk.2 (by decide)) (by decide)

end Net
end JkxyKernel
