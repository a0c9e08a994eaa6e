import JkxyKernel.Lib.Bytes
import JkxyKernel.Lib.Machine
import JkxyKernel.Structure.Array

/-!
# The receive buffer of a socket

`udp_receive` runs in an interrupt and appends a datagram to the buffer; `udp_read` takes bytes from
its front.  Both of them copy what is left to a new block.

A task that reads sleeps until there is a buffer.  From then on no other task runs until it is back
from the system call, but interrupts come until they are disabled: between the comparison of
`nbytes` with `buf_size`, the second look at `buf_size`, and the copy.  The bytes that were returned
and those in the buffer are always the ones that were received, in their order.
-/

namespace JkxyKernel
namespace Net
namespace RecvBuf

open Bytes

/-- What `struct udp_socket` has for receiving. -/
structure UdpSocket where
  recvBuf : Option (List Byte)
  bufSize : BitVec 32
  task : Option Nat

/-- Where a task is that has left the loop of `udp_read`. -/
inductive ReadPc
  /-- Before `nbytes > socket->buf_size`. -/
  | compare (nbytes : BitVec 32)
  /-- Before `nbytes = socket->buf_size`. -/
  | clamp
  /-- Before `cli`. -/
  | take (nbytes : BitVec 32)

/-- A socket with the tasks that wait in `udp_read`, the one that is about to copy, and what was
received and returned so far. -/
structure State where
  socket : UdpSocket
  waiting : Nat → Option (BitVec 32)
  running : Option ReadPc
  received : List Byte
  returned : List Byte

/-- A step of a task, or an interrupt.  The block is the one that `kmalloc` returns, with whatever
it contains. -/
inductive Label
  /-- A task calls `udp_read`. -/
  | call (task : Nat) (nbytes : BitVec 32)
  /-- A task leaves the loop, perhaps with a signal pending. -/
  | leave (task : Nat) (pending : Bool)
  | compare
  | clamp
  /-- From `cli` to `sti`. -/
  | take (block : List Byte)
  /-- `udp_receive` is called. -/
  | receive (data block : List Byte)

/-- `memcpy` from a block. -/
def readBlock (block : Option (List Byte)) (offset n : Nat) : Except Fault (List Byte) :=
  if n = 0 then .ok []
  else
    match block with
    | none => .error .nullPointer
    | some bytes =>
        if bytes.length < offset + n then .error .outOfBounds
        else .ok ((bytes.drop offset).take n)

/-- `memcpy` to a block. -/
def writeBlock (block : List Byte) (offset : Nat) (data : List Byte) : Except Fault (List Byte) :=
  if block.length < offset + data.length then .error .outOfBounds
  else .ok (block.take offset ++ data ++ block.drop (offset + data.length))

namespace UdpSocket

/-- What is in the buffer is copied to the start of a block. -/
def copyOld (s : UdpSocket) (block : List Byte) : Except Fault (List Byte) :=
  if s.bufSize ≠ 0 then do
    let old ← readBlock s.recvBuf 0 s.bufSize.toNat
    writeBlock block 0 old
  else .ok block

/-- `udp_receive` -/
def udpReceive (s : UdpSocket) (data block : List Byte) : Except Fault UdpSocket := do
  let recvBufNew ← s.copyOld block
  let recvBufNew ← writeBlock recvBufNew s.bufSize.toNat data
  .ok { s with
    recvBuf := some recvBufNew
    bufSize := s.bufSize + BitVec.ofNat 32 data.length }

/-- The part of `udp_read` with interrupts disabled. -/
def udpTake (s : UdpSocket) (nbytes : BitVec 32) (block : List Byte) :
    Except Fault (List Byte × UdpSocket) := do
  let buf ← readBlock s.recvBuf 0 nbytes.toNat
  let bufSize := s.bufSize - nbytes
  if bufSize ≠ 0 then
    let rest ← readBlock s.recvBuf nbytes.toNat bufSize.toNat
    let recvBufNew ← writeBlock block 0 rest
    .ok (buf, { s with recvBuf := some recvBufNew, bufSize := bufSize })
  else .ok (buf, { s with recvBuf := none, bufSize := bufSize })

/-- What is in the buffer. -/
def buffered (s : UdpSocket) : List Byte := (s.recvBuf.getD []).take s.bufSize.toNat

/-- The buffer has as many bytes as the socket says. -/
structure Valid (s : UdpSocket) : Prop where
  length : ∀ block, s.recvBuf = some block → block.length = s.bufSize.toNat
  exist : s.bufSize ≠ 0 → s.recvBuf ≠ none

end UdpSocket

/-- The socket and the tasks of one socket.  `kmalloc` succeeds: its block has as many bytes as it
was asked for, and what is in the buffer and the datagram have room beside each other in memory. -/
def machine : Machine State Label Fault where
  enabled l s :=
    match l with
    | .call task _ => s.running.isNone && (s.waiting task).isNone
    | .leave task pending =>
        s.running.isNone && (s.waiting task).isSome && (s.socket.recvBuf.isSome || pending)
    | .compare => match s.running with
        | some (.compare _) => true
        | _ => false
    | .clamp => match s.running with
        | some .clamp => true
        | _ => false
    | .take block => match s.running with
        | some (.take nbytes) => block.length = (s.socket.bufSize - nbytes).toNat
        | _ => false
    | .receive data block =>
        block.length = (s.socket.bufSize + BitVec.ofNat 32 data.length).toNat &&
          s.socket.bufSize.toNat + data.length < 2 ^ 32
  exec l s :=
    match l with
    | .call task nbytes =>
        -- with another task in the loop it is `-EBUSY`
        if s.socket.task.isSome then .ok s
        else .ok { s with
          socket := { s.socket with task := some task }
          waiting := Function.update s.waiting task (some nbytes) }
    | .leave task pending =>
        match s.waiting task with
        | none => .ok s
        | some nbytes =>
            let s := { s with
              socket := { s.socket with task := none }
              waiting := Function.update s.waiting task none }
            -- with a signal it is `-EINTR`
            if pending then .ok s else .ok { s with running := some (.compare nbytes) }
    | .compare =>
        match s.running with
        | some (.compare nbytes) =>
            if s.socket.bufSize < nbytes then .ok { s with running := some .clamp }
            else .ok { s with running := some (.take nbytes) }
        | _ => .ok s
    | .clamp => .ok { s with running := some (.take s.socket.bufSize) }
    | .take block =>
        match s.running with
        | some (.take nbytes) => do
            let (buf, socket) ← s.socket.udpTake nbytes block
            .ok { s with socket := socket, running := none, returned := s.returned ++ buf }
        | _ => .ok s
    | .receive data block => do
        let socket ← s.socket.udpReceive data block
        .ok { s with socket := socket, received := s.received ++ data }

/-- A new socket, from `kcalloc`. -/
def boot : State where
  socket := { recvBuf := none, bufSize := 0, task := none }
  waiting := fun _ => none
  running := none
  received := []
  returned := []

def Boots (s : State) : Prop := s = boot

/-- What a task is about to take is there. -/
def State.Takeable (s : State) : Prop :=
  ∀ nbytes, s.running = some (.take nbytes) → nbytes.toNat ≤ s.socket.bufSize.toNat

/-- The invariant of a socket. -/
structure State.Inv (s : State) : Prop where
  valid : s.socket.Valid
  fifo : s.returned ++ s.socket.buffered = s.received
  takeable : s.Takeable

section Blocks

variable {bytes block data : List Byte} {n : Nat} {s : UdpSocket} {nbytes : BitVec 32}

theorem readBlock_eq {offset : Nat} (h : offset + n ≤ bytes.length) :
    readBlock (some bytes) offset n = .ok ((bytes.drop offset).take n) := by
  rw [readBlock]
  split
  next hzero => rw [hzero, List.take_zero]
  next => rw [if_neg (Nat.not_lt.mpr h)]

/-- A block is filled from its start. -/
theorem writeBlock_start (h : data.length ≤ block.length) :
    writeBlock block 0 data = .ok (data ++ block.drop data.length) := by
  rw [writeBlock, if_neg (by omega), List.take_zero, List.nil_append, Nat.zero_add]

/-- And then to its end. -/
theorem writeBlock_append {old : List Byte} (h : data.length = block.length) :
    writeBlock (old ++ block) old.length data = .ok (old ++ data) := by
  rw [writeBlock, if_neg (by rw [List.length_append]; omega), List.take_left', List.drop_append]
  · rw [h, List.drop_eq_nil_of_le (by omega), Nat.add_sub_cancel_left, List.drop_length,
      List.nil_append, List.append_nil]
  · rfl

namespace UdpSocket

theorem Valid.buffered_eq (h : s.Valid) (hblock : s.recvBuf = some block) :
    s.buffered = block := by
  rw [buffered, hblock, ← h.length block hblock]
  exact List.take_length

theorem Valid.length_buffered (h : s.Valid) : s.buffered.length = s.bufSize.toNat := by
  cases hblock : s.recvBuf with
  | some block => rw [h.buffered_eq hblock, h.length block hblock]
  | none =>
      have hzero : s.bufSize = 0 := Classical.byContradiction fun hne => h.exist hne hblock
      rw [buffered, hblock, hzero]
      rfl

/-- Every part of what is in the buffer can be read. -/
theorem Valid.readBlock_eq (h : s.Valid) {offset : Nat} (hle : offset + n ≤ s.bufSize.toNat) :
    readBlock s.recvBuf offset n = .ok ((s.buffered.drop offset).take n) := by
  cases hblock : s.recvBuf with
  | some block =>
      rw [h.buffered_eq hblock]
      exact RecvBuf.readBlock_eq (by rw [h.length block hblock]; exact hle)
  | none =>
      have hzero : s.bufSize = 0 := Classical.byContradiction fun hne => h.exist hne hblock
      rw [hzero] at hle
      have hn : n = 0 := by
        have hbits : (0 : BitVec 32).toNat = 0 := rfl
        omega
      rw [hn, List.take_zero, readBlock, if_pos rfl]

/-- A socket with these bytes in its buffer. -/
theorem Valid.of_some (hlength : block.length = nbytes.toNat) (task : Option Nat) :
    Valid { recvBuf := some block, bufSize := nbytes, task := task } :=
  ⟨fun b hb => by rw [← Option.some.inj hb]; exact hlength, fun _ h => nomatch h⟩

/-- `udp_receive` appends the datagram. -/
theorem udpReceive_spec (h : s.Valid)
    (hblock : block.length = (s.bufSize + BitVec.ofNat 32 data.length).toNat)
    (hfits : s.bufSize.toNat + data.length < 2 ^ 32) :
    ∃ s', s.udpReceive data block = .ok s' ∧ s'.Valid ∧ s'.buffered = s.buffered ++ data ∧
      s'.bufSize.toNat = s.bufSize.toNat + data.length := by
  have hsum : (s.bufSize + BitVec.ofNat 32 data.length).toNat = s.bufSize.toNat + data.length := by
    rw [BitVec.toNat_add, BitVec.toNat_ofNat]
    omega
  rw [hsum] at hblock
  have hold := h.length_buffered
  obtain ⟨rest, hrest, hcopy⟩ : ∃ rest, rest.length = data.length ∧
      s.copyOld block = .ok (s.buffered ++ rest) := by
    rw [copyOld]
    by_cases hzero : s.bufSize = 0
    · rw [hzero] at hold hblock
      refine ⟨block, by rw [hblock]; exact Nat.zero_add _, ?_⟩
      rw [if_neg (not_not_intro hzero), List.eq_nil_of_length_eq_zero hold, List.nil_append]
    · refine ⟨block.drop s.buffered.length, by rw [List.length_drop]; omega, ?_⟩
      rw [if_pos hzero, h.readBlock_eq (Nat.le_of_eq (Nat.zero_add _)), List.drop_zero, ← hold,
        List.take_length]
      exact writeBlock_start (by omega)
  have hall : (s.buffered ++ data).length = (s.bufSize + BitVec.ofNat 32 data.length).toNat := by
    rw [List.length_append, hold, hsum]
  have hvalid := Valid.of_some hall s.task
  refine ⟨_, ?_, hvalid, hvalid.buffered_eq rfl, hsum⟩
  rw [udpReceive, hcopy, ← hold]
  have hwrite := @writeBlock_append rest data s.buffered hrest.symm
  simp only [bind, Except.bind, hwrite]

/-- `udp_read` takes bytes from the front. -/
theorem udpTake_spec (h : s.Valid) (hle : nbytes.toNat ≤ s.bufSize.toNat)
    (hblock : block.length = (s.bufSize - nbytes).toNat) :
    ∃ buf s', s.udpTake nbytes block = .ok (buf, s') ∧ s'.Valid ∧
      buf ++ s'.buffered = s.buffered := by
  have hold := h.length_buffered
  have hsub : (s.bufSize - nbytes).toNat = s.bufSize.toNat - nbytes.toNat :=
    BitVec.toNat_sub_of_le hle
  have hread := @Valid.readBlock_eq nbytes.toNat s h 0 (by omega)
  rw [List.drop_zero] at hread
  rw [udpTake, hread]
  by_cases hzero : s.bufSize - nbytes = 0
  · have hall : s.bufSize.toNat ≤ nbytes.toNat := by
      rw [hzero] at hsub
      have hbits : (0 : BitVec 32).toNat = 0 := rfl
      omega
    refine ⟨s.buffered.take nbytes.toNat, { s with recvBuf := none, bufSize := 0 }, ?_,
      ⟨fun _ hb => (nomatch hb), fun hne => absurd rfl hne⟩, ?_⟩
    · simp only [bind, Except.bind, hzero, ne_eq, not_true_eq_false, if_false]
    · rw [List.take_of_length_le (by omega)]
      exact List.append_nil _
  · have hrest := @Valid.readBlock_eq (s.bufSize - nbytes).toNat s h nbytes.toNat (by omega)
    rw [List.take_of_length_le (by rw [List.length_drop]; omega)] at hrest
    have hlength : (s.buffered.drop nbytes.toNat).length = (s.bufSize - nbytes).toNat := by
      rw [List.length_drop]
      omega
    have hvalid := Valid.of_some hlength s.task
    refine ⟨s.buffered.take nbytes.toNat, _, ?_, hvalid, ?_⟩
    · have hwrite := @writeBlock_start block (s.buffered.drop nbytes.toNat) (by omega)
      rw [hlength, ← hblock, List.drop_length, List.append_nil] at hwrite
      simp only [bind, Except.bind, hrest, ne_eq, hzero, not_false_eq_true, if_true, hwrite]
    · rw [hvalid.buffered_eq rfl]
      exact List.take_append_drop _ _

end UdpSocket
end Blocks

section Runs

variable {s s' : State} {l : Label}

theorem Inv.boot : boot.Inv :=
  ⟨⟨fun _ h => (nomatch h), fun h => absurd rfl h⟩, rfl, fun _ h => nomatch h⟩

/-- The buffer does not depend on who sleeps. -/
theorem State.Inv.with_task (h : s.Inv) (task : Option Nat) (waiting : Nat → Option (BitVec 32)) :
    State.Inv { s with socket := { s.socket with task := task }, waiting := waiting } :=
  ⟨⟨h.valid.length, h.valid.exist⟩, h.fifo, h.takeable⟩

/-- A step of a task does not fault and keeps the invariant; so does an interrupt. -/
theorem State.Inv.step (h : s.Inv) (hen : machine.enabled l s = true) :
    ∃ s', machine.exec l s = .ok s' ∧ s'.Inv := by
  cases l with
  | call task nbytes =>
      simp only [machine]
      split
      next => exact ⟨s, rfl, h⟩
      next => exact ⟨_, rfl, h.with_task _ _⟩
  | leave task pending =>
      simp only [machine]
      split
      next => exact ⟨s, rfl, h⟩
      next nbytes _ =>
        have hsleep := h.with_task none (Function.update s.waiting task none)
        split
        next => exact ⟨_, rfl, hsleep⟩
        next => exact ⟨_, rfl, ⟨hsleep.valid, hsleep.fifo, fun _ hrunning => nomatch hrunning⟩⟩
  | compare =>
      simp only [machine]
      split
      next nbytes _ =>
        split
        next => exact ⟨_, rfl, ⟨h.valid, h.fifo, fun _ hrunning => nomatch hrunning⟩⟩
        next hle =>
          refine ⟨_, rfl, h.valid, h.fifo, fun n hrunning => ?_⟩
          cases hrunning
          exact Nat.not_lt.mp hle
      next => exact ⟨s, rfl, h⟩
  | clamp =>
      refine ⟨_, rfl, h.valid, h.fifo, fun n hrunning => ?_⟩
      cases hrunning
      exact Nat.le_refl _
  | take block =>
      simp only [machine] at hen ⊢
      split
      next nbytes hrunning =>
        rw [hrunning] at hen
        obtain ⟨buf, socket, htake, hvalid, hbytes⟩ :=
          UdpSocket.udpTake_spec h.valid (h.takeable nbytes hrunning) (of_decide_eq_true hen)
        rw [htake]
        refine ⟨_, rfl, hvalid, ?_, fun _ hnone => nomatch hnone⟩
        rw [List.append_assoc, hbytes]
        exact h.fifo
      next => exact ⟨s, rfl, h⟩
  | receive data block =>
      simp only [machine, Bool.and_eq_true, decide_eq_true_eq] at hen ⊢
      obtain ⟨socket, hreceive, hvalid, hbytes, hsize⟩ :=
        UdpSocket.udpReceive_spec h.valid hen.1 hen.2
      rw [hreceive]
      refine ⟨_, rfl, hvalid, ?_, fun nbytes hrunning => ?_⟩
      · rw [hbytes, ← List.append_assoc, h.fifo]
      · -- the buffer only grows while a task is about to take from it
        exact Nat.le_trans (h.takeable nbytes hrunning) (hsize ▸ Nat.le_add_right _ _)

theorem Inv.reach (h : machine.Reach Boots (fun _ _ => True) s) : s.Inv := by
  refine h.invariant (fun s hs => ?_) fun s l s' hs _ hstep => ?_
  · rw [hs]
    exact Inv.boot
  · obtain ⟨s'', hexec, hinv⟩ := hs.step hstep.1
    rw [hstep.2] at hexec
    rw [Except.ok.inj hexec]
    exact hinv

end Runs

/-- **The buffer is a queue.**  Whatever interrupts come in whatever order between the steps of the
tasks, the bytes that were returned, followed by those in the buffer, are the ones that were
received; there is a buffer of just the right size unless it is empty, and no access goes beyond
it. -/
theorem recvBuf_fifo {s : State} (h : machine.Reach Boots (fun _ _ => True) s) :
    s.returned ++ s.socket.buffered = s.received ∧
      (s.socket.bufSize ≠ 0 →
        ∃ block, s.socket.recvBuf = some block ∧ block.length = s.socket.bufSize.toNat) ∧
      ∀ l fault, ¬ machine.Faults s l fault := by
  have hinv := Inv.reach h
  refine ⟨hinv.fifo, fun hsize => ?_, fun l fault hfault => ?_⟩
  · obtain ⟨block, hblock⟩ := Option.ne_none_iff_exists'.mp (hinv.valid.exist hsize)
    exact ⟨block, hblock, hinv.valid.length block hblock⟩
  · obtain ⟨s', hexec, -⟩ := hinv.step hfault.1
    rw [hfault.2] at hexec
    cases hexec

/-- A task asks for five bytes; an empty datagram wakes it up, and two more datagrams come before it
has copied.  Another one asks for none. -/
def fiveBytes : List Label :=
  [.call 1 5, .receive [] [], .leave 1 false, .compare, .receive [1, 2, 3] [0, 0, 0], .clamp,
    .receive [4] [0, 0, 0, 0], .take [0], .call 2 0, .receive [5] [0, 0], .leave 2 false, .compare,
    .take [7, 7]]

/-- Three bytes were returned, and two are left. -/
theorem recvBuf_fifo_five : ∃ s, s.returned = [1, 2, 3] ∧ s.socket.bufSize = 2 ∧
    s.returned ++ s.socket.buffered = s.received ∧
      (s.socket.bufSize ≠ 0 →
        ∃ block, s.socket.recvBuf = some block ∧ block.length = s.socket.bufSize.toNat) ∧
      ∀ l fault, ¬ machine.Faults s l fault := by
  have hrun : (machine.runLabels fiveBytes boot).any (fun s =>
      decide (s.returned = [1, 2, 3]) && decide (s.socket.bufSize = 2)) = true := by
    decide +kernel
  obtain ⟨s, hreach, hs⟩ := Machine.exists_reach_of_run (show Boots boot from rfl) hrun
  simp only [Bool.and_eq_true, decide_eq_true_eq] at hs
  exact ⟨s, hs.1, hs.2, recvBuf_fifo hreach⟩

end RecvBuf
end Net
end JkxyKernel
