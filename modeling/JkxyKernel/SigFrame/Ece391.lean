import JkxyKernel.SigFrame.User
import JkxyKernel.Task.Signal

/-!
# The ECE391 signal frame

`deliver_signal` pushes four things: the code of the stub that will call `sigreturn`, the
saved context, the signal number, and the address of the stub for the handler to return
to.  `sigreturn` finds the context again from the address behind its own `int $0x80`:
the stub starts seven bytes before, and the context lies right below it.

All registers of the context come back, but the system call is not over then:
`syscall_handler` takes a negative `eax` for an error code and turns it into `-1`.
-/

namespace JkxyKernel
namespace SigFrame

open Bytes
open JkxyKernel.Task (SIGINT SIGFPE SIGUSR1 SIGSEGV SIGALRM)

def NR_ECE391_sigreturn : Word := 10

/-- The code from `ECE391_sigret_start` to `ECE391_sigret_stop`: `movl`, `int`, `hlt`. -/
def sigretStub : List Byte :=
  [0xb8, 0x0a, 0x00, 0x00, 0x00, 0xcd, 0x80, 0xf4]

/-- The distance from `ECE391_sigret_start` to `ECE391_sigret_postint`. -/
def sigretPostint : Nat := 7

/-- `struct ece391_user_context` -/
structure UserContext where
  ebx : Word
  ecx : Word
  edx : Word
  esi : Word
  edi : Word
  ebp : Word
  eax : Word
  ds : BitVec 16
  es : BitVec 16
  fs : BitVec 16
  intrNum : Word
  errorCode : Word
  eip : Word
  cs : BitVec 16
  eflags : Word
  esp : Word
  ss : BitVec 16
  deriving DecidableEq, Repr

/-- The layout of the context; the padding behind the segment selectors, which nobody
reads, is zero. -/
def UserContext.words (c : UserContext) : List Word :=
  [c.ebx, c.ecx, c.edx, c.esi, c.edi, c.ebp, c.eax, c.ds.setWidth 32, c.es.setWidth 32,
    c.fs.setWidth 32, c.intrNum, c.errorCode, c.eip, c.cs.setWidth 32, c.eflags, c.esp,
    c.ss.setWidth 32]

/-- `sizeof(struct ece391_user_context)` -/
def UserContext.size : Nat := 68

/-- Read a context. -/
def UserContext.read (m : Mem) (a : Addr) : UserContext where
  ebx := wordAt m a 0
  ecx := wordAt m a 1
  edx := wordAt m a 2
  esi := wordAt m a 3
  edi := wordAt m a 4
  ebp := wordAt m a 5
  eax := wordAt m a 6
  ds := (wordAt m a 7).setWidth 16
  es := (wordAt m a 8).setWidth 16
  fs := (wordAt m a 9).setWidth 16
  intrNum := wordAt m a 10
  errorCode := wordAt m a 11
  eip := wordAt m a 12
  cs := (wordAt m a 13).setWidth 16
  eflags := wordAt m a 14
  esp := wordAt m a 15
  ss := (wordAt m a 16).setWidth 16

/-- The context of the interrupted code. -/
def UserContext.save (regs : Regs) : UserContext where
  ebx := regs.ebx
  ecx := regs.ecx
  edx := regs.edx
  esi := regs.esi
  edi := regs.edi
  ebp := regs.ebp
  eax := regs.eax
  ds := regs.ds
  es := regs.es
  fs := regs.fs
  eip := regs.eip
  intrNum := regs.intrNum
  errorCode := regs.errorCode
  cs := regs.cs
  eflags := regs.eflags
  esp := regs.esp
  ss := regs.ss

/-- The number an ECE391 handler gets for a signal. -/
def ece391Signum (signum : Nat) : Option Word :=
  if signum = SIGFPE then some 0
  else if signum = SIGSEGV then some 1
  else if signum = SIGINT then some 2
  else if signum = SIGALRM then some 3
  else if signum = SIGUSR1 then some 4
  else none

/-- `deliver_signal` in the subsystem ECE391, when a handler is set; `none` stands for the
forced `SIGSEGV`. -/
def deliverEce391 (u : User) (handler : Addr) (signum : Nat) : Option User := do
  let u₁ ← u.push sigretStub
  let returnaddr := u₁.regs.esp
  let u₂ ← u₁.push (block (UserContext.save u.regs).words)
  let number ← ece391Signum signum
  let u₃ ← u₂.push (block [number])
  let u₄ ← u₃.push (block [returnaddr])
  some { u₄ with regs := { u₄.regs with eip := handler } }

/-- `sys_ECE391_sigreturn`; `none` stands for the forced `SIGSEGV`. -/
def sigreturnEce391 (u : User) : Option User :=
  let context := u.regs.eip - BitVec.ofNat 32 sigretPostint - BitVec.ofNat 32 UserContext.size
  if u.safeBuf context UserContext.size false ≠ UserContext.size then none
  else
    let c := UserContext.read u.mem context
    some { u with regs := { u.regs with
      ebx := c.ebx, ecx := c.ecx, edx := c.edx, esi := c.esi, edi := c.edi, ebp := c.ebp
      eax := c.eax, ds := c.ds, es := c.es, fs := c.fs, eip := c.eip, eflags := c.eflags
      esp := c.esp, ss := c.ss } }

/-- The end of `syscall_handler` in the subsystem ECE391. -/
def syscallShim (u : User) : User :=
  if u.regs.eax.toInt < 0 then { u with regs := { u.regs with eax := -1 } } else u

/-- `syscall_handler`, for the system call at hand. -/
def syscallEce391 (u : User) : Option User :=
  if u.regs.eax = NR_ECE391_sigreturn then (sigreturnEce391 u).map syscallShim else none

/-- The handler returns: into the stub, and through the system call. -/
def returnEce391 (u : User) : Option User := do
  let trapped ← u.ret.trap 2
  syscallEce391 trapped

/-- Where the four things are that a delivery has pushed. -/
def frameEce391 (u : User) : Region := (u.regs.esp, 84)

/-- Some signal is delivered. -/
def DeliversEce391 (u u₁ : User) (r : Region) : Prop :=
  ∃ handler signum, deliverEce391 u handler signum = some u₁ ∧ r = frameEce391 u₁

/-- A handler that started in `u₁` returns. -/
def ReturnsEce391 (u₁ u₂ u₃ : User) : Prop :=
  u₂.regs.esp = u₁.regs.esp ∧ returnEce391 u₂ = some u₃

/-- A handler that started in `u₁` is about to return, with its frame untouched, after any
number of further signals; other frames may be waiting above. -/
structure HandledEce391 (rs : List Region) (u₁ u₂ : User) : Prop where
  handling : Handling DeliversEce391 ReturnsEce391 (frameEce391 u₁ :: rs) u₁ u₂
  readable : Readable u₂ (frameEce391 u₁)
  esp : u₂.regs.esp = u₁.regs.esp

/-- A frame, as words. -/
def frameWords (regs : Regs) (number : Word) : List Word :=
  [regs.esp - 8, number] ++ (UserContext.save regs).words ++ [0x00000ab8, 0xf480cd00]

section RoundTrip

variable {u u₁ u₂ u₃ : User} {handler : Addr} {signum : Nat} {number : Word} {regs : Regs}

@[simp] theorem length_frameWords : (frameWords regs number).length = 21 := rfl

/-- The inversion lemma of the delivery: one block of words below the old stack. -/
theorem deliverEce391_spec (h : deliverEce391 u handler signum = some u₁) :
    ∃ number, u₁.mem = store u.mem (u.regs.esp - 84) (block (frameWords u.regs number)) ∧
      u₁.regs = { u.regs with esp := u.regs.esp - 84, eip := handler } := by
  simp only [deliverEce391, Option.bind_eq_bind, Option.bind_eq_some_iff, Option.some.injEq] at h
  obtain ⟨a, ha, b, hb, number, -, c, hc, d, hd, rfl⟩ := h
  refine ⟨number, ?_⟩
  have hstub : sigretStub = block [0x00000ab8, 0xf480cd00] := by decide
  have hreturn : a.regs.esp = u.regs.esp - 8 := by
    rw [push_cases ha]
    rfl
  have hwords : frameWords u.regs number = [u.regs.esp - 8] ++
      ([number] ++ ((UserContext.save u.regs).words ++ [0x00000ab8, 0xf480cd00])) := rfl
  have hframe : d = u.pushed (block (frameWords u.regs number)) := by
    rw [push_cases hd, push_cases hc, push_cases hb, hreturn, push_cases ha, hstub,
      pushed_pushed, pushed_pushed, pushed_pushed, hwords, block_append, block_append,
      block_append]
    all_goals simp [UserContext.words]
  have hsize : BitVec.ofNat 32 (block (frameWords u.regs number)).length = 84 := by
    rw [length_block, length_frameWords]
    rfl
  rw [hframe]
  simp only [User.pushed, hsize, and_self]

/-- The words of the frame, as long as it is left alone. -/
theorem frame_wordAt
    {m m' : Mem} {t : Addr} {i : Nat} {w : Word}
    (h : Agree (store m t (block (frameWords regs number))) m' t 84)
    (hi : i < 21) (hw : (frameWords regs number)[i]? = some w) : wordAt m' t i = w :=
  h.wordAt (by omega) (by omega) hw

/-- The handler returns into the stub, and the stub calls `sigreturn`. -/
theorem stub_traps
    {m : Mem} {t : Addr}
    (h : Agree (store m t (block (frameWords regs number))) u.mem t 84) (ht : u.regs.esp = t)
    (hreturn : regs.esp - 8 = t + 76) :
    u.ret.trap 2 = some { u with regs := { u.regs with
      eax := NR_ECE391_sigreturn, eip := t + 83, esp := t + 4 } } := by
  have hbyte : ∀ (i j : Nat) (w : Word), i < 21 → j < 4 →
      (frameWords regs number)[i]? = some w →
      u.mem (t + BitVec.ofNat 32 (4 * i + j)) = byteOf w j := fun i j w hi hj hw =>
    h.byte (by omega) (by omega) hj hw
  have hmovl : (frameWords regs number)[19]? = some 0x00000ab8 := rfl
  have hint : (frameWords regs number)[20]? = some 0xf480cd00 := rfl
  have hreturnaddr : word u.mem t = t + 76 := by
    have hzero : wordAt u.mem t 0 = regs.esp - 8 := frame_wordAt h (by omega) rfl
    rw [← hreturn, ← hzero]
    simp [wordAt]
  have himm : word u.mem (t + 76 + 1) = NR_ECE391_sigreturn := by
    refine word_eq ?_ ?_ ?_ ?_
    · rw [BitVec.add_assoc]
      exact hbyte 19 1 _ (by omega) (by omega) hmovl
    · rw [BitVec.add_assoc, BitVec.add_assoc]
      exact hbyte 19 2 _ (by omega) (by omega) hmovl
    · rw [BitVec.add_assoc, BitVec.add_assoc]
      exact hbyte 19 3 _ (by omega) (by omega) hmovl
    · rw [BitVec.add_assoc, BitVec.add_assoc]
      exact hbyte 20 0 _ (by omega) (by omega) hint
  have hret : u.ret =
      { u with regs := { u.regs with eip := t + 76, esp := t + 4 } } := by
    simp only [User.ret, User.pop, ht, hreturnaddr]
  rw [hret, trap_movEax (hbyte 19 0 _ (by omega) (by omega) hmovl), himm, trap_int]
  · simp only [BitVec.add_assoc]
    rfl
  · simp only [BitVec.add_assoc]
    exact hbyte 20 1 _ (by omega) (by omega) hint
  · simp only [BitVec.add_assoc]
    exact hbyte 20 2 _ (by omega) (by omega) hint

/-- The saved context is found again. -/
theorem context_read
    {m m' : Mem} {t : Addr}
    (h : Agree (store m t (block (frameWords regs number))) m' t 84) :
    UserContext.read m' (t + 8) = UserContext.save regs := by
  have hword : ∀ (i : Nat) (w : Word), (UserContext.save regs).words[i]? = some w →
      wordAt m' (t + 8) i = w := fun i w hw =>
    h.inner (by simp [UserContext.words]) (by omega) hw
  have hsel : ∀ x : BitVec 16, (x.setWidth 32).setWidth 16 = x := by
    intro x
    simp
  simp only [UserContext.read, hword 0 _ rfl, hword 1 _ rfl, hword 2 _ rfl, hword 3 _ rfl,
    hword 4 _ rfl, hword 5 _ rfl, hword 6 _ rfl, hword 7 _ rfl, hword 8 _ rfl, hword 9 _ rfl,
    hword 10 _ rfl, hword 11 _ rfl, hword 12 _ rfl, hword 13 _ rfl, hword 14 _ rfl,
    hword 15 _ rfl, hword 16 _ rfl, hsel]

theorem returnEce391_mem (h : returnEce391 u₂ = some u₃) : u₃.mem = u₂.mem := by
  simp only [returnEce391, Option.bind_eq_bind, Option.bind_eq_some_iff] at h
  obtain ⟨trapped, htrap, hcall⟩ := h
  have hmem := trap_mem htrap
  simp only [syscallEce391, sigreturnEce391] at hcall
  split at hcall
  next =>
    split at hcall
    next => cases hcall
    next =>
      cases hcall
      simp only [syscallShim]
      split
      · exact hmem
      · exact hmem
  next => cases hcall

/-- `sigreturn` takes over what the context holds. -/
theorem sigreturnEce391_spec
    {t : Addr} (heip : u.regs.eip = t + 83) (hreadable : Readable u (t, 84))
    (hread : UserContext.read u.mem (t + 8) = UserContext.save regs) :
    sigreturnEce391 u = some { u with regs := { regs with
      intrEsp := u.regs.intrEsp, gs := u.regs.gs, intrNum := u.regs.intrNum
      errorCode := u.regs.errorCode, cs := u.regs.cs } } := by
  have hcontext : t + 83 - BitVec.ofNat 32 sigretPostint - BitVec.ofNat 32 UserContext.size =
      t + BitVec.ofNat 32 8 := by
    rw [BitVec.sub_sub, sub_eq_iff_eq_add, add_assoc]
    rfl
  have hsafe : u.safeBuf (t + BitVec.ofNat 32 8) UserContext.size false = UserContext.size :=
    safeBuf_of_readable hreadable (by decide) (by decide)
  have hsaved : UserContext.read u.mem (t + BitVec.ofNat 32 8) = UserContext.save regs := hread
  simp only [sigreturnEce391, heip, hcontext, hsafe, hsaved, ne_eq, not_true_eq_false, if_false]
  rfl

/-- What the way back makes of the registers. -/
theorem returnEce391_spec
    {rs : List Region} (hdeliver : deliverEce391 u handler signum = some u₁)
    (hhandled : HandledEce391 rs u₁ u₂) :
    returnEce391 u₂ = some (syscallShim { u₂ with regs := { u.regs with
      intrEsp := u₂.regs.intrEsp, gs := u₂.regs.gs, intrNum := u₂.regs.intrNum
      errorCode := u₂.regs.errorCode, cs := u₂.regs.cs } }) := by
  obtain ⟨number, hmem, hregs⟩ := deliverEce391_spec hdeliver
  have hesp : u₁.regs.esp = u.regs.esp - 84 := by rw [hregs]
  have hframe : Agree (store u.mem u₁.regs.esp (block (frameWords u.regs number)))
      u₂.mem u₁.regs.esp 84 := by
    have hintact := hhandled.handling.intact (fun _ _ _ h => returnEce391_mem h.2)
      (frameEce391 u₁) List.mem_cons_self
    rw [hesp, ← hmem, ← hesp]
    exact hintact
  have hreturn : u.regs.esp - 8 = u₁.regs.esp + 76 := by
    rw [hesp, sub_eq_iff_eq_add, add_assoc]
    exact (sub_add_cancel u.regs.esp 84).symm
  have htrap := stub_traps hframe hhandled.esp hreturn
  have hback := sigreturnEce391_spec (t := u₁.regs.esp) (u := { u₂ with regs := { u₂.regs with
    eax := NR_ECE391_sigreturn, eip := u₁.regs.esp + 83, esp := u₁.regs.esp + 4 } }) rfl
    hhandled.readable (context_read hframe)
  simp only [returnEce391, htrap, Option.bind_eq_bind, Option.bind_some, syscallEce391, if_pos,
    hback, Option.map_some]

theorem deliverEce391_addrIsSafe (h : deliverEce391 u handler signum = some u₁) :
    u₁.addrIsSafe = u.addrIsSafe := by
  simp only [deliverEce391, Option.bind_eq_bind, Option.bind_eq_some_iff, Option.some.injEq] at h
  obtain ⟨a, ha, b, hb, number, -, c, hc, d, hd, rfl⟩ := h
  have hpush : ∀ {v v' : User} {bytes : List Byte}, v.push bytes = some v' →
      v'.addrIsSafe = v.addrIsSafe := fun h => by
    rw [push_cases h]
    rfl
  exact (hpush hd).trans ((hpush hc).trans ((hpush hb).trans (hpush ha)))

/-- **ECE391 signal frames come back, but for a negative `eax`.** However deep the stack and
however the deliveries nest, all registers are what they were, unless `eax` looks like an
error code to `syscall_handler` and is not `-1` already. -/
theorem ece391_frame_round_trip
    (rs : List Region) (u u₁ u₂ : User) (handler : Addr) (signum : Nat)
    (hdeliver : deliverEce391 u handler signum = some u₁)
    (hhandled : HandledEce391 rs u₁ u₂) :
    ∃ u₃, returnEce391 u₂ = some u₃ ∧
      (Restored u.regs u₃.regs ↔ 0 ≤ u.regs.eax.toInt ∨ u.regs.eax = -1) := by
  refine ⟨_, returnEce391_spec hdeliver hhandled, ?_⟩
  simp only [syscallShim]
  split
  next hneg =>
    constructor
    · intro hrestored
      exact Or.inr hrestored.eax.symm
    · rintro (hnonneg | hone)
      · exact absurd hneg (not_lt.mpr hnonneg)
      · exact ⟨rfl, rfl, rfl, rfl, rfl, rfl, hone.symm, rfl, rfl, rfl, rfl, rfl, rfl, rfl⟩
  next hnonneg =>
    constructor
    · intro _
      exact Or.inl (not_lt.mp hnonneg)
    · intro _
      exact ⟨rfl, rfl, rfl, rfl, rfl, rfl, rfl, rfl, rfl, rfl, rfl, rfl, rfl, rfl⟩

end RoundTrip

/-- A task that is interrupted with something in `eax`. -/
def interrupted (eax : Word) : User :=
  { User.zero with regs := { User.zero.regs with
    eax := eax, eip := 0x08048000, esp := 0x083ffff0 } }

theorem ece391_handler_returns_at_once {eax : Word} {handler : Addr} {signum : Nat} {u₁ : User}
    (h : deliverEce391 (interrupted eax) handler signum = some u₁) : HandledEce391 [] u₁ u₁ := by
  refine ⟨.done, fun x _ => ?_, rfl⟩
  rw [deliverEce391_addrIsSafe h]
  rfl

/-- A zero comes back. -/
theorem ece391_frame_round_trip_zero :
    ∃ u₁ u₃, deliverEce391 (interrupted 0) 0x08048100 SIGINT = some u₁ ∧
      returnEce391 u₁ = some u₃ ∧ Restored (interrupted 0).regs u₃.regs := by
  have hsome : (deliverEce391 (interrupted 0) 0x08048100 SIGINT).isSome = true := by
    decide +kernel
  obtain ⟨u₁, hdeliver⟩ := Option.isSome_iff_exists.mp hsome
  obtain ⟨u₃, hreturn, hrestored⟩ := ece391_frame_round_trip [] _ _ _ _ _ hdeliver
    (ece391_handler_returns_at_once hdeliver)
  exact ⟨u₁, u₃, hdeliver, hreturn, hrestored.mpr (Or.inl (by decide))⟩

/-- The address `0x80000000` in `eax` does not. -/
theorem ece391_frame_loses_eax :
    ∃ u₁ u₃, deliverEce391 (interrupted 0x80000000) 0x08048100 SIGINT = some u₁ ∧
      HandledEce391 [] u₁ u₁ ∧ returnEce391 u₁ = some u₃ ∧
      ¬ Restored (interrupted 0x80000000).regs u₃.regs := by
  have hsome : (deliverEce391 (interrupted 0x80000000) 0x08048100 SIGINT).isSome = true := by
    decide +kernel
  obtain ⟨u₁, hdeliver⟩ := Option.isSome_iff_exists.mp hsome
  have hhandled := ece391_handler_returns_at_once hdeliver
  refine ⟨u₁, _, hdeliver, hhandled, returnEce391_spec hdeliver hhandled, ?_⟩
  intro hrestored
  have heax := hrestored.eax
  have hnegative : (interrupted 0x80000000).regs.eax.toInt < 0 := by decide
  have hlost : (-1 : Word) ≠ (interrupted 0x80000000).regs.eax := by decide
  rw [syscallShim, if_pos hnegative] at heax
  exact hlost heax

end SigFrame
end JkxyKernel
