import JkxyKernel.SigFrame.User
import JkxyKernel.Task.Signal

/-!
# The Linux signal frame

`deliver_signal` makes room for one `struct sigframe` and fills it in.  The handler
returns to `pretcode`, which is the code at the end of the frame, or the restorer of the
program if it has named one.

`sigreturn` takes the frame to end where its system call was made.  This is so for the
code in the frame, and for no other code: the system call of a restorer that lies in the
program text makes `sigreturn` read the program text.
-/

namespace JkxyKernel
namespace SigFrame

open Bytes
open JkxyKernel.Task (SIGINT sigUnmaskable)

def SA_RESTORER : Word := 0x04000000

def NR_LINUX_sigreturn : Word := 119

structure Sigaction where
  sigaction : Addr
  mask : Word
  flags : Word
  restorer : Addr
  deriving DecidableEq, Repr

/-- `struct sigcontext` -/
structure Sigcontext where
  gs : BitVec 16
  fs : BitVec 16
  es : BitVec 16
  ds : BitVec 16
  edi : Word
  esi : Word
  ebp : Word
  esp : Word
  ebx : Word
  edx : Word
  ecx : Word
  eax : Word
  trapno : Word
  err : Word
  eip : Word
  cs : BitVec 16
  eflags : Word
  espAtSignal : Word
  ss : BitVec 16
  fpstate : Word
  oldmask : Word
  cr2 : Word
  deriving DecidableEq, Repr

/-- The layout of the context; the upper halves of the segment selectors are zero. -/
def Sigcontext.words (c : Sigcontext) : List Word :=
  [c.gs.setWidth 32, c.fs.setWidth 32, c.es.setWidth 32, c.ds.setWidth 32, c.edi, c.esi,
    c.ebp, c.esp, c.ebx, c.edx, c.ecx, c.eax, c.trapno, c.err, c.eip, c.cs.setWidth 32,
    c.eflags, c.espAtSignal, c.ss.setWidth 32, c.fpstate, c.oldmask, c.cr2]

/-- Read a context. -/
def Sigcontext.read (m : Mem) (a : Addr) : Sigcontext where
  gs := (wordAt m a 0).setWidth 16
  fs := (wordAt m a 1).setWidth 16
  es := (wordAt m a 2).setWidth 16
  ds := (wordAt m a 3).setWidth 16
  edi := wordAt m a 4
  esi := wordAt m a 5
  ebp := wordAt m a 6
  esp := wordAt m a 7
  ebx := wordAt m a 8
  edx := wordAt m a 9
  ecx := wordAt m a 10
  eax := wordAt m a 11
  trapno := wordAt m a 12
  err := wordAt m a 13
  eip := wordAt m a 14
  cs := (wordAt m a 15).setWidth 16
  eflags := wordAt m a 16
  espAtSignal := wordAt m a 17
  ss := (wordAt m a 18).setWidth 16
  fpstate := wordAt m a 19
  oldmask := wordAt m a 20
  cr2 := wordAt m a 21

/-- The context of the interrupted code. -/
def Sigcontext.save (u : User) : Sigcontext where
  gs := u.regs.gs
  fs := u.regs.fs
  es := u.regs.es
  ds := u.regs.ds
  edi := u.regs.edi
  esi := u.regs.esi
  ebp := u.regs.ebp
  esp := u.regs.intrEsp
  ebx := u.regs.ebx
  edx := u.regs.edx
  ecx := u.regs.ecx
  eax := u.regs.eax
  trapno := u.regs.intrNum
  err := u.regs.errorCode
  eip := u.regs.eip
  cs := u.regs.cs
  eflags := u.regs.eflags
  espAtSignal := u.regs.esp
  ss := u.regs.ss
  fpstate := 0
  oldmask := u.blockedMask
  cr2 := 0

/-- `popl %eax; movl $NR_LINUX_sigreturn, %eax; int $0x80` -/
def retcode : List Word := [0x0077b858, 0x80cd0000]

/-- `struct sigframe`; `fpstate` and `extramask`, 237 words, are zero. -/
structure Sigframe where
  pretcode : Addr
  sig : Word
  sc : Sigcontext

namespace Sigframe

/-- The words in front of the saved context. -/
def head (f : Sigframe) : List Word := [f.pretcode, f.sig]

/-- The words behind the saved context. -/
def tail : List Word := List.replicate 237 0 ++ retcode

def words (f : Sigframe) : List Word := f.head ++ f.sc.words ++ tail

/-- `sizeof(struct sigframe)` -/
def size : Nat := 1052

/-- `offsetof(struct sigframe, sc)` -/
def scOffset : Nat := 8

/-- `offsetof(struct sigframe, retcode)` -/
def retcodeOffset : Nat := 1044

end Sigframe

/-- `set_sigmask` -/
def User.setSigmask (u : User) (newmask : Word) : User :=
  { u with blockedMask := newmask &&& ~~~sigUnmaskable }

/-- The frame of a delivery, at its address. -/
def sigframe (u : User) (act : Sigaction) (signum : Nat) (a : Addr) : Sigframe where
  pretcode :=
    if act.flags &&& SA_RESTORER ≠ 0 then act.restorer
    else a + BitVec.ofNat 32 Sigframe.retcodeOffset
  sig := BitVec.ofNat 32 signum
  sc := Sigcontext.save u

/-- `deliver_signal` in the subsystem LINUX, when a handler is set; `none` stands for the
forced `SIGSEGV`. -/
def deliverLinux (u : User) (act : Sigaction) (signum : Nat) : Option User := do
  let u₁ ← u.pushUserstack none Sigframe.size
  let a := u₁.regs.esp
  let u₂ := { u₁ with mem := store u₁.mem a (block (sigframe u act signum a).words) }
  let u₃ := u₂.setSigmask act.mask
  some { u₃ with regs := { u₃.regs with eip := act.sigaction, eax := BitVec.ofNat 32 signum } }

/-- `sys_LINUX_sigreturn`; `none` stands for the forced `SIGSEGV`. -/
def sigreturnLinux (u : User) : Option User :=
  let context := u.regs.eip - BitVec.ofNat 32 Sigframe.size
  if u.safeBuf context Sigframe.size false ≠ Sigframe.size then none
  else
    let sc := Sigcontext.read u.mem (context + BitVec.ofNat 32 Sigframe.scOffset)
    let u' := { u with regs := { u.regs with
      ebx := sc.ebx, ecx := sc.ecx, edx := sc.edx, esi := sc.esi, edi := sc.edi, ebp := sc.ebp
      eax := sc.eax, ds := sc.ds, es := sc.es, fs := sc.fs, eip := sc.eip, eflags := sc.eflags
      esp := sc.espAtSignal, ss := sc.ss, gs := sc.gs } }
    some (u'.setSigmask sc.oldmask)

/-- `syscall_handler`, for the system call at hand. -/
def syscallLinux (u : User) : Option User :=
  if u.regs.eax = NR_LINUX_sigreturn then sigreturnLinux u else none

/-- The handler returns: into the three instructions at `pretcode`, and through the system
call. -/
def returnLinux (u : User) : Option User := do
  let trapped ← u.ret.trap 3
  syscallLinux trapped

/-- Where the frame is that a delivery has made. -/
def frameLinux (u : User) : Region := (u.regs.esp, Sigframe.size)

/-- Some signal is delivered. -/
def DeliversLinux (u u₁ : User) (r : Region) : Prop :=
  ∃ act signum, deliverLinux u act signum = some u₁ ∧ r = frameLinux u₁

/-- A handler or the restorer behind it has made the system call. -/
def ReturnsLinux (_ u₂ u₃ : User) : Prop :=
  syscallLinux u₂ = some u₃

/-- A handler that started in `u₁` is about to return, with its frame untouched, after any
number of further signals; other frames may be waiting above. -/
structure HandledLinux (rs : List Region) (u₁ u₂ : User) : Prop where
  handling : Handling DeliversLinux ReturnsLinux (frameLinux u₁ :: rs) u₁ u₂
  readable : Readable u₂ (frameLinux u₁)
  esp : u₂.regs.esp = u₁.regs.esp

/-- The handler has returned to the restorer, whose code has made the system call with an
instruction that ends at `a`, and the frame is still untouched. -/
structure RestorerCalls (rs : List Region) (u₁ : User) (a : Addr) (w : User) : Prop where
  returned : ∃ u₂, HandledLinux rs u₁ u₂ ∧
    Handling DeliversLinux ReturnsLinux (frameLinux u₁ :: rs) u₂.ret w
  readable : Readable w (frameLinux u₁)
  eax : w.regs.eax = NR_LINUX_sigreturn
  eip : w.regs.eip = a

/-- Everything that the Linux `sigreturn` should bring back. -/
structure RestoredLinux (u u' : User) : Prop where
  regs : Restored u.regs u'.regs
  gs : u'.regs.gs = u.regs.gs
  blockedMask : u'.blockedMask &&& ~~~sigUnmaskable = u.blockedMask &&& ~~~sigUnmaskable

section RoundTrip

variable {u u' u₁ u₂ u₃ w : User} {act : Sigaction} {signum : Nat} {f : Sigframe}
variable {rs : List Region} {b : Addr}

@[simp] theorem length_words : f.words.length = 263 := by
  simp only [Sigframe.words, Sigframe.head, Sigframe.tail, Sigcontext.words, retcode,
    List.length_append, List.length_cons, List.length_nil, List.length_replicate]

/-- The inversion lemma of the delivery. -/
theorem deliverLinux_spec (h : deliverLinux u act signum = some u₁) :
    u₁.regs.esp = u.regs.esp - BitVec.ofNat 32 Sigframe.size ∧
      u₁.mem = store u.mem u₁.regs.esp (block (sigframe u act signum u₁.regs.esp).words) ∧
      u₁.addrIsSafe = u.addrIsSafe := by
  simp only [deliverLinux, User.pushUserstack, Option.bind_eq_bind, Option.bind_eq_some_iff,
    Option.some.injEq] at h
  obtain ⟨a, ha, rfl⟩ := h
  split at ha
  next => cases ha
  next =>
    cases ha
    exact ⟨rfl, rfl, rfl⟩

/-- The saved context is found again. -/
theorem sigcontext_read
    {m m' : Mem} (h : Agree (store m b (block f.words)) m' b Sigframe.size) :
    Sigcontext.read m' (b + BitVec.ofNat 32 Sigframe.scOffset) = f.sc := by
  have hword : ∀ (i : Nat) (w : Word), f.sc.words[i]? = some w →
      wordAt m' (b + BitVec.ofNat 32 Sigframe.scOffset) i = w := fun i w hw =>
    h.inner (by simp [Sigcontext.words, Sigframe.head, Sigframe.size]) (by decide) hw
  have hsel : ∀ x : BitVec 16, (x.setWidth 32).setWidth 16 = x := by
    intro x
    simp
  simp only [Sigcontext.read, hword 0 _ rfl, hword 1 _ rfl, hword 2 _ rfl, hword 3 _ rfl,
    hword 4 _ rfl, hword 5 _ rfl, hword 6 _ rfl, hword 7 _ rfl, hword 8 _ rfl, hword 9 _ rfl,
    hword 10 _ rfl, hword 11 _ rfl, hword 12 _ rfl, hword 13 _ rfl, hword 14 _ rfl,
    hword 15 _ rfl, hword 16 _ rfl, hword 17 _ rfl, hword 18 _ rfl, hword 19 _ rfl,
    hword 20 _ rfl, hword 21 _ rfl, hsel]

theorem syscallLinux_mem (h : syscallLinux u = some u') : u'.mem = u.mem := by
  simp only [syscallLinux, sigreturnLinux] at h
  split at h
  next =>
    split at h
    next => cases h
    next =>
      cases h
      rfl
  next => cases h

/-- A frame that is handled is the frame that was delivered. -/
theorem handling_frame
    (hdeliver : deliverLinux u act signum = some u₁)
    (h : Handling DeliversLinux ReturnsLinux (frameLinux u₁ :: rs) u₁ w) :
    Agree (store u.mem u₁.regs.esp (block (sigframe u act signum u₁.regs.esp).words))
      w.mem u₁.regs.esp Sigframe.size := by
  rw [← (deliverLinux_spec hdeliver).2.1]
  exact h.intact (fun _ _ _ hreturn => syscallLinux_mem hreturn) (frameLinux u₁)
    List.mem_cons_self

/-- A system call at the end of the frame takes over what the frame holds. -/
theorem sigreturnLinux_restores
    {m : Mem} (h : Agree (store m b (block f.words)) w.mem b Sigframe.size)
    (hreadable : Readable w (b, Sigframe.size))
    (heip : w.regs.eip = b + BitVec.ofNat 32 Sigframe.size) (hsc : f.sc = Sigcontext.save u) :
    ∃ u₃, sigreturnLinux w = some u₃ ∧ RestoredLinux u u₃ := by
  have hcontext : w.regs.eip - BitVec.ofNat 32 Sigframe.size = b := by
    rw [heip, BitVec.add_sub_cancel]
  have hsafe : w.safeBuf b Sigframe.size false = Sigframe.size := by
    have hwhole : w.safeBuf (b + BitVec.ofNat 32 0) Sigframe.size false = Sigframe.size :=
      safeBuf_of_readable hreadable (by decide) (by decide)
    rwa [BitVec.add_zero] at hwhole
  have hread : Sigcontext.read w.mem (b + BitVec.ofNat 32 Sigframe.scOffset) =
      Sigcontext.save u := (sigcontext_read h).trans hsc
  simp only [sigreturnLinux, hcontext, hsafe, hread, ne_eq, not_true_eq_false, if_false,
    Option.some.injEq, exists_eq_left']
  refine ⟨⟨rfl, rfl, rfl, rfl, rfl, rfl, rfl, rfl, rfl, rfl, rfl, rfl, rfl, rfl⟩, rfl, ?_⟩
  simp only [User.setSigmask, Sigcontext.save, BitVec.and_assoc, BitVec.and_self]

/-- Without a restorer the handler returns to the code at the end of the frame. -/
theorem retcode_traps
    {m : Mem} (h : Agree (store m b (block f.words)) u.mem b Sigframe.size)
    (hesp : u.regs.esp = b) (hpretcode : f.pretcode = b + BitVec.ofNat 32 Sigframe.retcodeOffset) :
    u.ret.trap 3 = some { u with regs := { u.regs with
      eax := NR_LINUX_sigreturn, eip := b + BitVec.ofNat 32 Sigframe.size, esp := b + 8 } } := by
  have hcode : ∀ i, f.words[261 + i]? = retcode[i]? := by
    intro i
    have hfront : (f.head ++ f.sc.words ++ List.replicate 237 0).length = 261 := by
      simp only [Sigframe.head, Sigcontext.words, List.length_append, List.length_cons,
        List.length_nil, List.length_replicate]
    rw [Sigframe.words, Sigframe.tail, ← List.append_assoc,
      List.getElem?_append_right (by rw [hfront]; omega), hfront, Nat.add_sub_cancel_left]
  have hbyte : ∀ (i j : Nat) (w : Word), i < 2 → j < 4 → retcode[i]? = some w →
      u.mem (b + BitVec.ofNat 32 (4 * (261 + i) + j)) = byteOf w j := fun i j w hi hj hw =>
    h.byte (by simp only [Sigframe.size]; omega) (by decide) hj ((hcode i).trans hw)
  have hpop : retcode[0]? = some 0x0077b858 := rfl
  have hint : retcode[1]? = some 0x80cd0000 := rfl
  have hreturnaddr : word u.mem b = f.pretcode := by
    have hzero : wordAt u.mem b 0 = f.pretcode := h.wordAt (by decide) (by decide) rfl
    rw [← hzero]
    simp [wordAt]
  have himm : word u.mem (b + 1044 + 1 + 1) = NR_LINUX_sigreturn := by
    refine word_eq ?_ ?_ ?_ ?_
    · simp only [BitVec.add_assoc]
      exact hbyte 0 2 _ (by omega) (by omega) hpop
    · simp only [BitVec.add_assoc]
      exact hbyte 0 3 _ (by omega) (by omega) hpop
    · simp only [BitVec.add_assoc]
      exact hbyte 1 0 _ (by omega) (by omega) hint
    · simp only [BitVec.add_assoc]
      exact hbyte 1 1 _ (by omega) (by omega) hint
  have hret : u.ret = { u with regs := { u.regs with eip := b + 1044, esp := b + 4 } } := by
    simp only [User.ret, User.pop, hesp, hreturnaddr, hpretcode]
    rfl
  have hpopl : u.ret.mem u.ret.regs.eip = 0x58 := by
    rw [hret]
    exact hbyte 0 0 _ (by omega) (by omega) hpop
  rw [trap_popEax hpopl, hret, trap_movEax, himm, trap_int]
  · simp only [BitVec.add_assoc]
    rfl
  · simp only [BitVec.add_assoc]
    exact hbyte 1 2 _ (by omega) (by omega) hint
  · simp only [BitVec.add_assoc]
    exact hbyte 1 3 _ (by omega) (by omega) hint
  · simp only [BitVec.add_assoc]
    exact hbyte 0 1 _ (by omega) (by omega) hpop

theorem deliverLinux_of_safe (h : ∀ x, u.addrIsSafe x true = true) :
    ∃ u₁, deliverLinux u act signum = some u₁ := by
  have hsafe : u.safeBuf (u.regs.esp - BitVec.ofNat 32 Sigframe.size) Sigframe.size true =
      Sigframe.size := safeBufLoop_eq (fun _ _ => h _) (Nat.le_refl _)
  simp only [deliverLinux, User.pushUserstack, hsafe, ne_eq, not_true_eq_false, if_false,
    Option.bind_eq_bind, Option.bind_some, Option.some.injEq, exists_eq']

/-- Where `sigreturn` finds the `eip` that it restores. -/
theorem syscallLinux_eip (h : syscallLinux u = some u') :
    u'.regs.eip = word u.mem (u.regs.eip - BitVec.ofNat 32 Sigframe.size +
      BitVec.ofNat 32 Sigframe.scOffset + BitVec.ofNat 32 (4 * 14)) := by
  simp only [syscallLinux, sigreturnLinux] at h
  split at h
  next =>
    split at h
    next => cases h
    next =>
      cases h
      rfl
  next => cases h

/-- A task that is interrupted at an address, with some stack. -/
def interruptedAt (eip esp : Addr) : User :=
  { User.zero with regs := { User.zero.regs with eip := eip, esp := esp } }

/-- The interrupted `eip` is one word of the frame. -/
theorem words_interruptedAt {e esp : Addr} :
    (sigframe (interruptedAt e esp) act signum b).words =
      (sigframe (interruptedAt 0 esp) act signum b).words.set 16 e := rfl

/-- A restorer whose system call is elsewhere fails for some interrupted code. -/
theorem restorer_fails
    (act : Sigaction) (signum : Nat) {a : Addr} (ha : a ≠ b + BitVec.ofNat 32 Sigframe.size) :
    ∃ u u₁ w, deliverLinux u act signum = some u₁ ∧ u₁.regs.esp = b ∧
      RestorerCalls [] u₁ a w ∧ ∀ u₃, syscallLinux w = some u₃ → ¬ RestoredLinux u u₃ := by
  have hread : a - BitVec.ofNat 32 Sigframe.size + BitVec.ofNat 32 Sigframe.scOffset +
      BitVec.ofNat 32 (4 * 14) ≠ b + BitVec.ofNat 32 (4 * 16) := by
    intro heq
    apply ha
    simp only [Sigframe.size, Sigframe.scOffset] at heq ⊢
    bv_omega
  -- The interrupted `eip` stands between the error code and `cs`, both zero.
  obtain ⟨e, he⟩ : ∃ e, word (store User.zero.mem b (block ((sigframe (interruptedAt 0
      (b + BitVec.ofNat 32 Sigframe.size)) act signum b).words.set 16 e))) _ ≠ e :=
    word_elsewhere (k := 15) rfl rfl (by rw [length_words]; omega) hread
  obtain ⟨u₁, hdeliver⟩ : ∃ u₁, deliverLinux (interruptedAt e
      (b + BitVec.ofNat 32 Sigframe.size)) act signum = some u₁ :=
    deliverLinux_of_safe fun _ => rfl
  obtain ⟨hesp, hmem, hsafe⟩ := deliverLinux_spec hdeliver
  have hb : u₁.regs.esp = b := by
    rw [hesp]
    exact BitVec.add_sub_cancel b _
  have hreadable : ∀ x, u₁.addrIsSafe x false = true := fun x => by
    rw [hsafe]
    rfl
  have hcalls : RestorerCalls [] u₁ a { u₁ with regs := { u₁.regs with
      eip := a, eax := NR_LINUX_sigreturn } } := by
    refine ⟨⟨u₁, ⟨.done, fun x _ => hreadable x, rfl⟩, ?_⟩, fun x _ => hreadable x, rfl, rfl⟩
    have hrun : Intact [frameLinux u₁] u₁.ret { u₁ with regs := { u₁.regs with
        eip := a, eax := NR_LINUX_sigreturn } } := fun _ _ => Agree.refl
    exact .compute hrun .done
  refine ⟨_, u₁, _, hdeliver, hb, hcalls, ?_⟩
  intro u₃ hcall hrestored
  have heip := hrestored.regs.eip
  rw [syscallLinux_eip hcall] at heip
  apply he
  rw [← words_interruptedAt]
  rw [hmem, hb] at heip
  exact heip

/-- Without a restorer everything comes back. -/
theorem returnLinux_restores
    (hact : act.flags &&& SA_RESTORER = 0) (hdeliver : deliverLinux u act signum = some u₁)
    (hhandled : HandledLinux rs u₁ u₂) :
    ∃ u₃, returnLinux u₂ = some u₃ ∧ RestoredLinux u u₃ := by
  have hframe := handling_frame hdeliver hhandled.handling
  have hpretcode : (sigframe u act signum u₁.regs.esp).pretcode =
      u₁.regs.esp + BitVec.ofNat 32 Sigframe.retcodeOffset := by
    simp only [sigframe, hact, ne_eq, not_true_eq_false, if_false]
  have htrap := retcode_traps hframe hhandled.esp hpretcode
  simp only [returnLinux, htrap, Option.bind_eq_bind, Option.bind_some, syscallLinux, if_pos]
  exact sigreturnLinux_restores hframe hhandled.readable rfl rfl

/-- So it does with a restorer that makes the system call at the end of the frame. -/
theorem restorer_restores
    {a : Addr} (hdeliver : deliverLinux u act signum = some u₁)
    (hcalls : RestorerCalls rs u₁ a w) (ha : a = u₁.regs.esp + BitVec.ofNat 32 Sigframe.size) :
    ∃ u₃, syscallLinux w = some u₃ ∧ RestoredLinux u u₃ := by
  obtain ⟨u₂, hhandled, hrestorer⟩ := hcalls.returned
  have hmem : ∀ u₁ u₂ u₃, ReturnsLinux u₁ u₂ u₃ → u₃.mem = u₂.mem := fun _ _ _ hreturn =>
    syscallLinux_mem hreturn
  have hkept : Agree u₂.mem w.mem u₁.regs.esp Sigframe.size :=
    hrestorer.intact hmem (frameLinux u₁) List.mem_cons_self
  have hframe := (handling_frame hdeliver hhandled.handling).trans hkept
  rw [syscallLinux, if_pos hcalls.eax]
  exact sigreturnLinux_restores hframe hcalls.readable (hcalls.eip.trans ha) rfl

/-- **Linux signal frames come back through the code in the frame.** Without `SA_RESTORER`
every delivery is undone.  With it, the deliveries to a stack are undone for all that may
have been interrupted if and only if the system call ends where the frame does. -/
theorem linux_frame_round_trip (act : Sigaction) :
    (act.flags &&& SA_RESTORER = 0 →
      ∀ rs u u₁ u₂ signum, deliverLinux u act signum = some u₁ → HandledLinux rs u₁ u₂ →
        ∃ u₃, returnLinux u₂ = some u₃ ∧ RestoredLinux u u₃) ∧
    (act.flags &&& SA_RESTORER ≠ 0 → ∀ b a,
      (∀ rs u u₁ w signum, deliverLinux u act signum = some u₁ → u₁.regs.esp = b →
        RestorerCalls rs u₁ a w → ∃ u₃, syscallLinux w = some u₃ ∧ RestoredLinux u u₃) ↔
      a = b + BitVec.ofNat 32 Sigframe.size) := by
  constructor
  · intro hact rs u u₁ u₂ signum hdeliver hhandled
    exact returnLinux_restores hact hdeliver hhandled
  · intro _ b a
    constructor
    · intro hall
      by_contra hne
      obtain ⟨u, u₁, w, hdeliver, hb, hcalls, hfails⟩ :=
        restorer_fails act SIGINT hne
      obtain ⟨u₃, hcall, hrestored⟩ := hall [] u u₁ w SIGINT hdeliver hb hcalls
      exact hfails u₃ hcall hrestored
    · intro ha rs u u₁ w signum hdeliver hb hcalls
      exact restorer_restores hdeliver hcalls (by rw [hb, ha])

end RoundTrip

/-- A program whose restorer is a copy of the code in the frame. -/
def withRestorer : User :=
  { interruptedAt 0x08048000 0x083ffff0 with mem := store User.zero.mem 0x08049000 (block retcode) }

def restorerAct : Sigaction where
  sigaction := 0x08048100
  mask := 0
  flags := SA_RESTORER
  restorer := 0x08049000

/-- A handler of this program does not find the way back. -/
theorem restorer_loses_eip :
    ∃ u₁ u₃, deliverLinux withRestorer restorerAct SIGINT = some u₁ ∧ HandledLinux [] u₁ u₁ ∧
      returnLinux u₁ = some u₃ ∧ ¬ RestoredLinux withRestorer u₃ := by
  have hrun : (deliverLinux withRestorer restorerAct SIGINT).any (fun u₁ =>
      (returnLinux u₁).any fun u₃ => u₃.regs.eip ≠ withRestorer.regs.eip) = true := by
    decide +kernel
  simp only [Option.any_eq_true, decide_eq_true_eq] at hrun
  obtain ⟨u₁, hdeliver, u₃, hreturn, heip⟩ := hrun
  refine ⟨u₁, u₃, hdeliver, ⟨.done, fun x _ => ?_, rfl⟩, hreturn, ?_⟩
  · rw [(deliverLinux_spec hdeliver).2.2]
    rfl
  · intro hrestored
    exact heip hrestored.regs.eip

end SigFrame
end JkxyKernel
