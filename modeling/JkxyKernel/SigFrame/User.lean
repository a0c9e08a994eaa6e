import JkxyKernel.Lib.Bytes

/-!
# A task in user mode

The registers that the kernel saves at an entry, the memory of the task, and what the
kernel does with its stack: `safe_buf` and `push_userstack`.

The processor is modelled as far as the way back from a signal handler needs it: the
return from the handler, and the three instructions of the stubs behind it, up to the
`int $0x80`.

Between the delivery of a signal and the return from its handler anything may happen in
user mode, further signals included (`Handling`), except that the frames of the signals
still being handled are left alone.
-/

namespace JkxyKernel
namespace SigFrame

open Bytes

/-- The fields of `struct intr_info` that the signal code uses. -/
structure Regs where
  edi : Word
  esi : Word
  intrEsp : Word
  ebx : Word
  edx : Word
  ecx : Word
  eax : Word
  ds : BitVec 16
  es : BitVec 16
  fs : BitVec 16
  gs : BitVec 16
  ebp : Word
  intrNum : Word
  errorCode : Word
  eip : Word
  cs : BitVec 16
  eflags : Word
  esp : Word
  ss : BitVec 16
  deriving DecidableEq, Repr

structure User where
  regs : Regs
  mem : Mem
  /-- `addr_is_safe`, for reading and for writing. -/
  addrIsSafe : Addr → Bool → Bool
  /-- `sigpending.blocked_mask` -/
  blockedMask : Word

/-- The loop of `safe_buf`; every turn takes at least a byte, so `nbytes` turns do. -/
def safeBufLoop (safe : Addr → Bool) : Nat → Addr → Nat → Nat
  | 0, _, _ => 0
  | fuel + 1, buf, nbytes =>
      if nbytes = 0 then 0
      else
        let nbytesCancheck := min (4096 - buf.toNat % 4096) nbytes
        if safe buf then
          nbytesCancheck + safeBufLoop safe fuel (buf + BitVec.ofNat 32 nbytesCancheck)
            (nbytes - nbytesCancheck)
        else 0

namespace User

/-- A task with nothing in its registers and its memory, all of which it may use. -/
def zero : User where
  regs :=
    { edi := 0, esi := 0, intrEsp := 0, ebx := 0, edx := 0, ecx := 0, eax := 0
      ds := 0, es := 0, fs := 0, gs := 0, ebp := 0, intrNum := 0, errorCode := 0
      eip := 0, cs := 0, eflags := 0, esp := 0, ss := 0 }
  mem := fun _ => 0
  addrIsSafe := fun _ _ => true
  blockedMask := 0

/-- `safe_buf` -/
def safeBuf (u : User) (buf : Addr) (nbytes : Nat) (write : Bool) : Nat :=
  safeBufLoop (fun a => u.addrIsSafe a write) nbytes buf nbytes

/-- `push_userstack` -/
def pushUserstack (u : User) (data : Option (List Byte)) (size : Nat) : Option User :=
  let esp := u.regs.esp - BitVec.ofNat 32 size
  if u.safeBuf esp size true ≠ size then none
  else
    some { u with
      mem := match data with
        | some bytes => store u.mem esp bytes
        | none => u.mem
      regs := { u.regs with esp := esp } }

/-- `push_userstack` of an object. -/
def push (u : User) (bytes : List Byte) : Option User :=
  u.pushUserstack (some bytes) bytes.length

/-- The task with bytes below its stack. -/
def pushed (u : User) (bytes : List Byte) : User :=
  let esp := u.regs.esp - BitVec.ofNat 32 bytes.length
  { u with mem := store u.mem esp bytes, regs := { u.regs with esp := esp } }

/-- The processor takes a word off the stack. -/
def pop (u : User) : Word × User :=
  (word u.mem u.regs.esp, { u with regs := { u.regs with esp := u.regs.esp + 4 } })

/-- The handler executes `ret`. -/
def ret (u : User) : User :=
  { u.pop.2 with regs := { u.pop.2.regs with eip := u.pop.1 } }

end User

/-- The instructions of the stubs. -/
inductive Insn
  | popEax
  | movEax (imm : Word)
  | int (vector : Byte)
  deriving DecidableEq, Repr

/-- Decode the instruction at an address; the second component is the address behind it. -/
def fetch (m : Mem) (eip : Addr) : Option (Insn × Addr) :=
  if m eip = 0x58 then some (.popEax, eip + 1)
  else if m eip = 0xb8 then some (.movEax (word m (eip + 1)), eip + 5)
  else if m eip = 0xcd then some (.int (m (eip + 1)), eip + 2)
  else none

/-- Execute up to an `int $0x80`, which leaves `eip` behind the instruction. -/
def User.trap : Nat → User → Option User
  | 0, _ => none
  | fuel + 1, u =>
      match fetch u.mem u.regs.eip with
      | none => none
      | some (.popEax, next) =>
          trap fuel { u.pop.2 with regs := { u.pop.2.regs with eax := u.pop.1, eip := next } }
      | some (.movEax imm, next) => trap fuel { u with regs := { u.regs with eax := imm, eip := next } }
      | some (.int vector, next) =>
          if vector = 0x80 then some { u with regs := { u.regs with eip := next } } else none

/-- A range of addresses. -/
abbrev Region := Addr × Nat

/-- The range is still readable. -/
def Readable (u : User) (r : Region) : Prop :=
  ∀ x, (x - r.1).toNat < r.2 → u.addrIsSafe x false = true

/-- The bytes in the ranges are the same. -/
def Intact (rs : List Region) (u u' : User) : Prop :=
  ∀ r ∈ rs, Agree u.mem u'.mem r.1 r.2

/-- What a task does in user mode while the frames in `rs` are waiting: it computes, and
it handles further signals.  `deliver` puts a frame, `back` leads from the handler through
the kernel to the interrupted code. -/
inductive Handling
    (deliver : User → User → Region → Prop) (back : User → User → User → Prop) :
    List Region → User → User → Prop
  | done {rs : List Region} {u : User} : Handling deliver back rs u u
  | compute {rs : List Region} {u u' w : User} :
      Intact rs u u' → Handling deliver back rs u' w → Handling deliver back rs u w
  | signal {rs : List Region} {r : Region} {u u₁ u₂ u₃ w : User} :
      deliver u u₁ r → Intact rs u u₁ → Handling deliver back (r :: rs) u₁ u₂ →
        back u₁ u₂ u₃ → Handling deliver back rs u₃ w → Handling deliver back rs u w

/-- Everything that the handler's return should bring back. -/
structure Restored (r r' : Regs) : Prop where
  ebx : r'.ebx = r.ebx
  ecx : r'.ecx = r.ecx
  edx : r'.edx = r.edx
  esi : r'.esi = r.esi
  edi : r'.edi = r.edi
  ebp : r'.ebp = r.ebp
  eax : r'.eax = r.eax
  ds : r'.ds = r.ds
  es : r'.es = r.es
  fs : r'.fs = r.fs
  eip : r'.eip = r.eip
  eflags : r'.eflags = r.eflags
  esp : r'.esp = r.esp
  ss : r'.ss = r.ss

section Facts

variable {u u' u'' : User} {rs : List Region} {bytes : List Byte}

theorem Intact.trans (h : Intact rs u u') (h' : Intact rs u' u'') : Intact rs u u'' :=
  fun r hr => (h r hr).trans (h' r hr)

/-- However deep the signals nest, the waiting frames are the same at the end. -/
theorem Handling.intact
    {deliver : User → User → Region → Prop} {back : User → User → User → Prop} {w : User}
    (hback : ∀ u₁ u₂ u₃, back u₁ u₂ u₃ → u₃.mem = u₂.mem)
    (h : Handling deliver back rs u w) : Intact rs u w := by
  induction h with
  | done => exact fun _ _ => Agree.refl
  | compute hintact _ ih => exact hintact.trans ih
  | @signal rs r u u₁ u₂ u₃ w _ hput _ hret _ ihin ihout =>
      have hinner : Intact rs u₁ u₂ := fun r' hr' => ihin r' (List.mem_cons_of_mem _ hr')
      have hkernel : Intact rs u₂ u₃ := by
        intro r' _
        rw [hback _ _ _ hret]
        exact Agree.refl
      exact ((hput.trans hinner).trans hkernel).trans ihout

/-- A range that is readable throughout is safe. -/
theorem safeBufLoop_eq
    {safe : Addr → Bool} {fuel nbytes : Nat} {buf : Addr}
    (hsafe : ∀ i < nbytes, safe (buf + BitVec.ofNat 32 i) = true) (hfuel : nbytes ≤ fuel) :
    safeBufLoop safe fuel buf nbytes = nbytes := by
  induction fuel generalizing buf nbytes with
  | zero =>
      have hzero : nbytes = 0 := by omega
      rw [hzero]
      rfl
  | succ fuel ih =>
      simp only [safeBufLoop]
      split
      next hzero => rw [hzero]
      next hne =>
        have hhere : safe buf = true := by simpa using hsafe 0 (by omega)
        have hchunk : 0 < min (4096 - buf.toNat % 4096) nbytes := by omega
        rw [if_pos hhere, ih]
        · omega
        · intro i hi
          rw [BitVec.add_assoc, ← BitVec.ofNat_add]
          exact hsafe _ (by omega)
        · omega

/-- What `safe_buf` goes over is accessible. -/
theorem safe_of_lt_safeBufLoop
    {safe : Addr → Bool} (hpage : ∀ a b : Addr, a.toNat / 4096 = b.toNat / 4096 → safe a = safe b)
    {fuel nbytes i : Nat} {buf : Addr} (hi : i < safeBufLoop safe fuel buf nbytes) :
    i < nbytes ∧ safe (buf + BitVec.ofNat 32 i) = true := by
  induction fuel generalizing buf nbytes i with
  | zero => exact absurd hi (Nat.not_lt_zero i)
  | succ fuel ih =>
      simp only [safeBufLoop] at hi
      split_ifs at hi with hzero hsafe
      · exact absurd hi (Nat.not_lt_zero i)
      · by_cases hchunk : i < min (4096 - buf.toNat % 4096) nbytes
        · refine ⟨by omega, ?_⟩
          have hhere := hpage (buf + BitVec.ofNat 32 i) buf (by
            rw [BitVec.toNat_add, BitVec.toNat_ofNat]
            have := buf.isLt
            omega)
          rw [hhere]
          exact hsafe
        · have hlater : i - min (4096 - buf.toNat % 4096) nbytes <
              safeBufLoop safe fuel
                (buf + BitVec.ofNat 32 (min (4096 - buf.toNat % 4096) nbytes))
                (nbytes - min (4096 - buf.toNat % 4096) nbytes) := by omega
          obtain ⟨hlt, hrest⟩ := ih hlater
          rw [BitVec.add_assoc, ← BitVec.ofNat_add, Nat.add_sub_cancel' (by omega)] at hrest
          exact ⟨by omega, hrest⟩
      · exact absurd hi (Nat.not_lt_zero i)

/-- A readable frame passes the check of the way back. -/
theorem safeBuf_of_readable
    {a : Addr} {n i size : Nat} (h : Readable u (a, n)) (hsize : i + size ≤ n)
    (hn : n ≤ 4294967296) : u.safeBuf (a + BitVec.ofNat 32 i) size false = size := by
  refine safeBufLoop_eq (fun j hj => ?_) (Nat.le_refl _)
  rw [BitVec.add_assoc, ← BitVec.ofNat_add]
  refine h _ ?_
  rw [sub_toNat_of_lt (by omega)]
  change i + j < n
  omega

/-- The inversion lemma of `push_userstack`. -/
theorem push_cases (h : u.push bytes = some u') : u' = u.pushed bytes := by
  simp only [User.push, User.pushUserstack] at h
  split at h
  next => cases h
  next =>
    cases h
    rfl

section Trap

variable {fuel : Nat}

theorem trap_popEax (h : u.mem u.regs.eip = 0x58) :
    u.trap (fuel + 1) = User.trap fuel { u with regs := { u.regs with
      eax := word u.mem u.regs.esp, eip := u.regs.eip + 1, esp := u.regs.esp + 4 } } := by
  have hfetch : fetch u.mem u.regs.eip = some (.popEax, u.regs.eip + 1) := by
    simp [fetch, h]
  simp only [User.trap, hfetch]
  rfl

theorem trap_movEax (h : u.mem u.regs.eip = 0xb8) :
    u.trap (fuel + 1) = User.trap fuel { u with regs := { u.regs with
      eax := word u.mem (u.regs.eip + 1), eip := u.regs.eip + 5 } } := by
  have hfetch : fetch u.mem u.regs.eip =
      some (.movEax (word u.mem (u.regs.eip + 1)), u.regs.eip + 5) := by
    simp [fetch, h]
  simp only [User.trap, hfetch]

theorem trap_int (h : u.mem u.regs.eip = 0xcd) (h' : u.mem (u.regs.eip + 1) = 0x80) :
    u.trap (fuel + 1) =
      some { u with regs := { u.regs with eip := u.regs.eip + 2 } } := by
  have hfetch : fetch u.mem u.regs.eip = some (.int 0x80, u.regs.eip + 2) := by
    simp only [fetch, h, h']
    rfl
  simp only [User.trap, hfetch, if_pos]

/-- The stubs do not write. -/
theorem trap_mem (h : u.trap fuel = some u') : u'.mem = u.mem := by
  induction fuel generalizing u with
  | zero => cases h
  | succ fuel ih =>
      simp only [User.trap] at h
      split at h
      next => cases h
      next =>
        have hmem := ih h
        exact hmem
      next =>
        have hmem := ih h
        exact hmem
      next =>
        split at h
        next =>
          cases h
          rfl
        next => cases h

end Trap

/-- What is pushed one after the other lies there as one block. -/
theorem pushed_pushed {below : List Byte} (hlen : below.length + bytes.length ≤ 4294967296) :
    (u.pushed bytes).pushed below = u.pushed (below ++ bytes) := by
  have hesp : u.regs.esp - BitVec.ofNat 32 bytes.length - BitVec.ofNat 32 below.length =
      u.regs.esp - BitVec.ofNat 32 (below ++ bytes).length := by
    rw [List.length_append, Nat.add_comm, BitVec.ofNat_add, BitVec.sub_sub]
  have hback : u.regs.esp - BitVec.ofNat 32 (below ++ bytes).length +
      BitVec.ofNat 32 below.length = u.regs.esp - BitVec.ofNat 32 bytes.length := by
    rw [← hesp, BitVec.sub_add_cancel]
  simp only [User.pushed, hesp]
  rw [store_append hlen hback]

end Facts

end SigFrame
end JkxyKernel
