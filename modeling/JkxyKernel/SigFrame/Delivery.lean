import JkxyKernel.SigFrame.Ece391
import JkxyKernel.SigFrame.Linux
import JkxyKernel.Task.SignalNumbers

/-!
# All or nothing

`deliver_signal` takes a signal out of the pending mask before it knows that the frame fits
on the stack.  When a push fails it forces `SIGSEGV` and starts over, and a forced
`SIGSEGV` ends the task, handler or not, blocked or not.

There are two gaps.  `force_sig` goes through `send_sig_info`, which drops a signal that is
ignored: then nothing ends the task, what was pushed so far stays on its stack and the
signal is lost.  And a forced signal whose default action is to ignore it is dropped even
when there is a handler for it.
-/

namespace JkxyKernel
namespace SigFrame

open Bytes
open JkxyKernel.Task (TaskStruct Sigpending SIGINT SIGSEGV SIGCONT nsig maskval
  sigUnmaskable signalPendingOne signalPending fatalSignalPending signalIsFatal
  defaultSigAction getLsbD_maskval and_maskval_ne_zero)
open JkxyKernel.Task.Kernel (killCode ece391Signals)

def SIG_DFL : Addr := 0
def SIG_IGN : Addr := 1

/-- The running task on its way back to user mode. -/
structure Receiver where
  current : TaskStruct
  regs : Regs
  mem : Mem
  addrIsSafe : Addr → Bool → Bool
  sigactions : Nat → Sigaction

/-- How `deliver_signal` ends. -/
inductive Delivered
  | returns (r : Receiver)
  /-- `do_exit`, for a signal. -/
  | exits (signum : Nat) (exitcode : Int)
  /-- The loop of a stopped task, behind which `BUG` waits. -/
  | stops
  | bug
  /-- There were not enough rounds. -/
  | unfinished

/-- The value, or the state of the stack at the failure. -/
def User.attempt {α : Type} (u : User) : Option α → Except User α
  | some a => .ok a
  | none => .error u

/-- The pushes of `deliver_signal` in the subsystem ECE391. -/
def enterEce391 (u : User) (handler : Addr) (signum : Nat) : Except User User := do
  let u₁ ← u.attempt (u.push sigretStub)
  let returnaddr := u₁.regs.esp
  let u₂ ← u₁.attempt (u₁.push (block (UserContext.save u.regs).words))
  let number ← u₂.attempt (ece391Signum signum)
  let u₃ ← u₂.attempt (u₂.push (block [number]))
  let u₄ ← u₃.attempt (u₃.push (block [returnaddr]))
  .ok { u₄ with regs := { u₄.regs with eip := handler } }

namespace Receiver

/-- What the frames are made of. -/
def user (r : Receiver) : User where
  regs := r.regs
  mem := r.mem
  addrIsSafe := r.addrIsSafe
  blockedMask := r.current.sigpending.blockedMask

/-- The task with another stack. -/
def resume (r : Receiver) (u : User) : Receiver where
  current := { r.current with
    sigpending := { r.current.sigpending with blockedMask := u.blockedMask } }
  regs := u.regs
  mem := u.mem
  addrIsSafe := u.addrIsSafe
  sigactions := r.sigactions

/-- The task without a signal. -/
def clear (r : Receiver) (signum : Nat) : Receiver :=
  { r with current := { r.current with sigpending := r.current.sigpending.clear signum } }

/-- `send_sig` to the running task. -/
def sendSig (r : Receiver) (signum : Nat) : Receiver :=
  if r.current.sigpending.pendingMask &&& maskval signum ≠ 0 then r
  else if (r.sigactions signum).sigaction = SIG_IGN then r
  else if signum = SIGCONT then { r with current := { r.current with stopped := false } }
  else
    { r with current := { r.current with sigpending := { r.current.sigpending with
      pendingMask := r.current.sigpending.pendingMask ||| maskval signum } } }

/-- `force_sig` of the running task. -/
def forceSig (r : Receiver) (signum : Nat) : Receiver :=
  let r := r.sendSig signum
  { r with current := { r.current with sigpending := { r.current.sigpending with
    forcedMask := r.current.sigpending.forcedMask ||| maskval signum } } }

/-- The pushes of `deliver_signal`. -/
def enterHandler (r : Receiver) (signum : Nat) : Except User User :=
  match r.current.subsystem with
  | .linux => r.user.attempt (deliverLinux r.user (r.sigactions signum) signum)
  | .ece391 => enterEce391 r.user (r.sigactions signum).sigaction signum

/-- `deliver_signal`, with a bound on how often it calls itself. -/
def deliverRounds : Nat → Receiver → Delivered
  | 0, _ => .unfinished
  | rounds + 1, r =>
      let signum := signalPendingOne r.current
      if signum = 0 then .returns r
      else
        let isFatal := signalIsFatal r.current signum
        let r := r.clear signum
        let sigaction := (r.sigactions signum).sigaction
        if isFatal ∨ sigaction = SIG_DFL then
          match defaultSigAction signum with
          | .ignore => .returns r
          | .kill => .exits signum (killCode r.current.subsystem signum)
          | .stop => .stops
          | .cont => .bug
        else if sigaction = SIG_IGN then .returns r
        else
          match r.enterHandler signum with
          | .ok u => .returns (r.resume u)
          | .error u => deliverRounds rounds ((r.resume u).forceSig SIGSEGV)

/-- `deliver_signal`.  Every round takes a signal out of the pending mask, so that the mask
bounds the rounds. -/
def deliverSignal (r : Receiver) : Delivered :=
  deliverRounds (r.current.sigpending.pendingMask.toNat + 1) r

/-- A signal is pending. -/
def Pending (r : Receiver) (signum : Nat) : Prop :=
  r.current.sigpending.pendingMask.getLsbD signum = true

/-- There is a handler for the signal. -/
def Handles (r : Receiver) (signum : Nat) : Prop :=
  (r.sigactions signum).sigaction ≠ SIG_DFL ∧ (r.sigactions signum).sigaction ≠ SIG_IGN

/-- The whole frame, or nothing. -/
def frame (r : Receiver) (signum : Nat) : Option User :=
  match r.current.subsystem with
  | .linux => deliverLinux r.user (r.sigactions signum) signum
  | .ece391 => deliverEce391 r.user (r.sigactions signum).sigaction signum

/-- `deliver_signal` is going to run the handler of the signal. -/
structure Pushes (r : Receiver) (signum : Nat) : Prop where
  next : signum = signalPendingOne r.current
  real : signum ≠ 0
  notFatal : signalIsFatal r.current signum = false
  handles : r.Handles signum

/-- The frame of a handled signal is on the stack, and its handler is about to run. -/
def FramePushed (r r' : Receiver) : Prop :=
  ∃ signum, r.Pending signum ∧ r.Handles signum ∧ r.frame signum = some r'.user ∧
    r'.regs.eip = (r.sigactions signum).sigaction

/-- No register has changed, and no signal that has a handler is lost. -/
def Untouched (r r' : Receiver) : Prop :=
  r'.regs = r.regs ∧ ∀ signum, r.Pending signum → r.Handles signum → r'.Pending signum

/-- What a program can expect of the delivery of its signals. -/
structure AllOrNothing (r : Receiver) : Prop where
  returned : ∀ r', r.deliverSignal = .returns r' → FramePushed r r' ∨ Untouched r r'
  /-- A delivery that breaks off ends the task. -/
  failed : ∀ signum, r.Pushes signum → r.frame signum = none →
    ∃ exitcode, r.deliverSignal = .exits SIGSEGV exitcode

/-- There is room for bytes that many bytes below the stack. -/
def Room (r : Receiver) (below size : Nat) : Prop :=
  r.user.safeBuf (r.user.regs.esp - BitVec.ofNat 32 below) size true = size

/-- The stack takes the frame of the signal. -/
def Fits (r : Receiver) (signum : Nat) : Prop :=
  match r.current.subsystem with
  | .linux => r.Room Sigframe.size Sigframe.size
  | .ece391 => r.Room 8 8 ∧ r.Room 76 UserContext.size ∧ signum ∈ ece391Signals ∧
      r.Room 80 4 ∧ r.Room 84 4

/-- When the delivery is all or nothing. -/
structure Sound (r : Receiver) : Prop where
  /-- Where a frame does not fit, `SIGSEGV` is not ignored, or is pending already. -/
  room : ∀ signum, r.Pushes signum → ¬ r.Fits signum →
    (r.sigactions SIGSEGV).sigaction ≠ SIG_IGN ∨ r.Pending SIGSEGV
  /-- A forced signal that is going to be ignored has no handler. -/
  forced : ∀ signum, signum = signalPendingOne r.current → signum ≠ 0 → r.Handles signum →
    signalIsFatal r.current signum = true → defaultSigAction signum ≠ .ignore

section Pushes

variable {α : Type} {u : User} {handler : Addr} {signum : Nat} {r : Receiver}
variable {bytes : List Byte}

theorem attempt_toOption (o : Option α) : (u.attempt o).toOption = o := by
  cases o with
  | some a => rfl
  | none => rfl

theorem attempt_bind_toOption {β : Type} (o : Option α) (f : α → Except User β) :
    (u.attempt o >>= f).toOption = o.bind fun a => (f a).toOption := by
  cases o with
  | some a => rfl
  | none => rfl

/-- Where nothing fails, the frame is complete. -/
theorem enterEce391_toOption :
    (enterEce391 u handler signum).toOption = deliverEce391 u handler signum := by
  simp only [enterEce391, deliverEce391, attempt_bind_toOption, Option.bind_eq_bind]
  rfl

theorem enterHandler_toOption : (r.enterHandler signum).toOption = r.frame signum := by
  simp only [enterHandler, frame]
  split
  next => exact attempt_toOption _
  next => exact enterEce391_toOption

theorem enterHandler_ok {u' : User} (h : r.enterHandler signum = .ok u') :
    r.frame signum = some u' := by
  rw [← enterHandler_toOption, h]
  rfl

theorem enterHandler_error {u' : User} (h : r.enterHandler signum = .error u') :
    r.frame signum = none := by
  rw [← enterHandler_toOption, h]
  rfl

/-- The frame leads to the handler. -/
theorem frame_eip {u' : User} (h : r.frame signum = some u') :
    u'.regs.eip = (r.sigactions signum).sigaction := by
  simp only [frame] at h
  split at h
  next =>
    simp only [deliverLinux, Option.bind_eq_bind, Option.bind_eq_some_iff,
      Option.some.injEq] at h
    obtain ⟨u₁, -, rfl⟩ := h
    rfl
  next =>
    obtain ⟨number, -, hregs⟩ := deliverEce391_spec h
    rw [hregs]

/-- The frame moves the stack. -/
theorem frame_esp {u' : User} (h : r.frame signum = some u') : u'.regs.esp ≠ r.regs.esp := by
  have hmoved : ∀ size : Word, size ≠ 0 → r.regs.esp - size ≠ r.regs.esp := by
    intro size hsize heq
    exact hsize (by simpa using heq)
  simp only [frame] at h
  split at h
  next =>
    rw [(deliverLinux_spec h).1]
    exact hmoved _ (by decide)
  next =>
    obtain ⟨number, -, hregs⟩ := deliverEce391_spec h
    rw [hregs]
    exact hmoved _ (by decide)

theorem push_eq_some :
    u.push bytes = some (u.pushed bytes) ↔
      u.safeBuf (u.regs.esp - BitVec.ofNat 32 bytes.length) bytes.length true =
        bytes.length := by
  simp only [User.push, User.pushUserstack]
  split
  next h => simp [h]
  next h => simpa [User.pushed] using h

/-- One push of a frame, and what is pushed behind it. -/
theorem push_bind_isSome (f : User → Option User) :
    ((u.push bytes).bind f).isSome ↔
      u.safeBuf (u.regs.esp - BitVec.ofNat 32 bytes.length) bytes.length true = bytes.length ∧
        (f (u.pushed bytes)).isSome := by
  constructor
  · intro h
    cases hpush : u.push bytes with
    | none =>
        rw [hpush] at h
        cases h
    | some u' =>
        rw [push_cases hpush] at hpush
        rw [hpush] at h
        exact ⟨push_eq_some.mp hpush, h⟩
  · rintro ⟨hroom, hrest⟩
    rw [push_eq_some.mpr hroom]
    exact hrest

theorem pushed_esp :
    (u.pushed bytes).regs.esp = u.regs.esp - BitVec.ofNat 32 bytes.length := rfl

theorem pushed_safeBuf (a : Addr) (n : Nat) (write : Bool) :
    (u.pushed bytes).safeBuf a n write = u.safeBuf a n write := rfl

theorem ece391Signum_isSome : (ece391Signum signum).isSome ↔ signum ∈ ece391Signals := by
  simp only [ece391Signum, ece391Signals, List.mem_cons, List.not_mem_nil, or_false]
  split_ifs <;> simp_all

/-- A frame is complete exactly when there is room for all of it. -/
theorem frame_isSome_iff : (r.frame signum).isSome ↔ r.Fits signum := by
  simp only [frame, Fits]
  split
  next =>
    simp only [deliverLinux, User.pushUserstack, Option.bind_eq_bind, Room]
    split
    next h => simpa using h
    next h => simpa using h
  next =>
    have hsave : (block (UserContext.save r.user.regs).words).length = UserContext.size := by
      rw [length_block]
      rfl
    have hword : ∀ w : Word, (block [w]).length = 4 := fun w => length_block
    have hstub : sigretStub.length = 8 := rfl
    have hsub : ∀ a b : Nat, r.user.regs.esp - BitVec.ofNat 32 a - BitVec.ofNat 32 b =
        r.user.regs.esp - BitVec.ofNat 32 (a + b) := by
      intro a b
      rw [BitVec.sub_sub, BitVec.ofNat_add]
    simp only [deliverEce391, Option.bind_eq_bind, push_bind_isSome, pushed_safeBuf, pushed_esp,
      hsave, hstub, hsub, Room, ← ece391Signum_isSome]
    cases ece391Signum signum with
    | none => simp
    | some number =>
        simp only [Option.bind_some, push_bind_isSome, pushed_safeBuf, pushed_esp, hsave, hword,
          hstub, hsub, Option.isSome_some, and_true, true_and]
        rfl

end Pushes

section Masks

variable {r : Receiver} {signum i : Nat} {u : User}

/-- What `signal_pending_one` names is pending. -/
theorem pending_next (h : signalPendingOne r.current ≠ 0) :
    r.Pending (signalPendingOne r.current) :=
  Task.signalPendingOne_bit fun hzero => h (Task.signalPendingOne_eq_zero hzero)

/-- The signal that is delivered is fatal if any is. -/
theorem fatal_eq_zero (h : signalIsFatal r.current (signalPendingOne r.current) = false) :
    fatalSignalPending r.current = 0 := by
  by_contra hfatal
  have hnext : signalPendingOne r.current = (fatalSignalPending r.current).toNat.log2 := by
    rw [signalPendingOne, if_pos hfatal]
  have hbit := Task.getLsbD_log2 hfatal
  rw [← hnext, fatalSignalPending, BitVec.getLsbD_and, Bool.and_eq_true] at hbit
  have hmask := (and_maskval_ne_zero (Task.signalPendingOne_lt r.current)).mpr hbit.2
  rw [BitVec.and_comm] at hmask
  simp only [signalIsFatal, decide_eq_false_iff_not] at h
  exact h hmask

theorem clear_pending (hs : signum < nsig) :
    (r.clear signum).Pending i ↔ r.Pending i ∧ i ≠ signum := by
  simp only [Pending, clear, Sigpending.clear, BitVec.getLsbD_and, BitVec.getLsbD_not,
    getLsbD_maskval hs, Bool.and_eq_true, Bool.not_eq_true', decide_eq_false_iff_not,
    decide_eq_true_eq]
  constructor
  · rintro ⟨hi, -, hne⟩
    exact ⟨hi, hne⟩
  · rintro ⟨hi, hne⟩
    exact ⟨hi, BitVec.lt_of_getLsbD hi, hne⟩

/-- Every round makes the pending mask smaller. -/
theorem clear_lt (hs : signum < nsig) (h : r.Pending signum) :
    (r.clear signum).current.sigpending.pendingMask.toNat <
      r.current.sigpending.pendingMask.toNat := by
  refine Nat.lt_of_le_of_ne ?_ fun heq => ?_
  · simp only [clear, Sigpending.clear, BitVec.toNat_and]
    exact Nat.and_le_left
  · have hsame : (r.clear signum).Pending signum := by
      rw [Pending, BitVec.eq_of_toNat_eq heq]
      exact h
    exact ((clear_pending hs).mp hsame).2 rfl

theorem fatal_clear (h : fatalSignalPending r.current = 0) :
    fatalSignalPending (r.clear signum).current = 0 := by
  have hsub : fatalSignalPending (r.clear signum).current &&&
      fatalSignalPending r.current = fatalSignalPending (r.clear signum).current := by
    simp only [fatalSignalPending, clear, Sigpending.clear]
    refine BitVec.eq_of_getLsbD_eq fun i _ => ?_
    simp only [BitVec.getLsbD_and, BitVec.getLsbD_or, BitVec.getLsbD_not]
    cases r.current.sigpending.pendingMask.getLsbD i <;>
      cases r.current.sigpending.forcedMask.getLsbD i <;>
      cases sigUnmaskable.getLsbD i <;> simp
  rw [← hsub, h]
  simp

/-- `send_sig` records the signal, unless it is ignored. -/
theorem forceSig_pending
    (hsent : (r.sigactions SIGSEGV).sigaction ≠ SIG_IGN ∨ r.Pending SIGSEGV) :
    (r.forceSig SIGSEGV).current.sigpending.pendingMask =
      r.current.sigpending.pendingMask ||| maskval SIGSEGV := by
  simp only [forceSig, sendSig]
  split
  next hbit =>
    refine BitVec.eq_of_getLsbD_eq fun i _ => ?_
    rw [BitVec.getLsbD_or, getLsbD_maskval (by decide)]
    by_cases hi : i = SIGSEGV
    · simpa [hi] using (and_maskval_ne_zero (by decide)).mp hbit
    · simp [hi]
  next hbit =>
    have hclear : ¬ r.Pending SIGSEGV := fun h =>
      hbit ((and_maskval_ne_zero (by decide)).mpr h)
    rw [if_neg (hsent.resolve_right hclear), if_neg (by decide)]

/-- The forced signal is the only fatal one. -/
theorem fatal_forceSig
    (h : fatalSignalPending r.current = 0)
    (hsent : (r.sigactions SIGSEGV).sigaction ≠ SIG_IGN ∨ r.Pending SIGSEGV) :
    fatalSignalPending (r.forceSig SIGSEGV).current = maskval SIGSEGV := by
  have hmask : (r.forceSig SIGSEGV).current.sigpending.forcedMask =
      r.current.sigpending.forcedMask ||| maskval SIGSEGV := by
    simp only [forceSig, sendSig]
    split_ifs <;> rfl
  have hor : ∀ p f u m : BitVec 32, (p ||| m) &&& (f ||| m ||| u) = (p &&& (f ||| u)) ||| m := by
    intro p f u m
    refine BitVec.eq_of_getLsbD_eq fun i _ => ?_
    simp only [BitVec.getLsbD_and, BitVec.getLsbD_or]
    cases m.getLsbD i <;> simp
  rw [fatalSignalPending] at h ⊢
  rw [forceSig_pending hsent, hmask, hor, h]
  simp

/-- Nothing becomes of a forced signal that is ignored. -/
theorem forceSig_ignored
    (hign : (r.sigactions SIGSEGV).sigaction = SIG_IGN) :
    (r.forceSig SIGSEGV).current.sigpending.pendingMask =
      r.current.sigpending.pendingMask := by
  simp only [forceSig, sendSig, hign, reduceIte]
  split <;> rfl

end Masks

section Rounds

variable {r r' : Receiver} {signum rounds : Nat} {u : User}

/-- What a round of `deliver_signal` can do. -/
inductive Round (r : Receiver) (rounds : Nat) : Delivered → Prop
  | quiet : signalPendingOne r.current = 0 → Round r rounds (.returns r)
  | ignored (signum : Nat) :
      signum = signalPendingOne r.current → signum ≠ 0 →
        (defaultSigAction signum = .ignore ∧ signalIsFatal r.current signum = true ∨
          ¬ r.Handles signum) →
        Round r rounds (.returns (r.clear signum))
  | killed (signum : Nat) :
      signum = signalPendingOne r.current → signum ≠ 0 →
        Round r rounds (.exits signum (killCode r.current.subsystem signum))
  | stops : Round r rounds .stops
  | bug : Round r rounds .bug
  | pushed (signum : Nat) (u : User) :
      r.Pushes signum → r.frame signum = some u →
        Round r rounds (.returns ((r.clear signum).resume u))
  | broken (signum : Nat) (u : User) :
      r.Pushes signum → r.frame signum = none →
        Round r rounds (deliverRounds rounds (((r.clear signum).resume u).forceSig SIGSEGV))

/-- The inversion lemma of a round. -/
theorem round_spec : Round r rounds (r.deliverRounds (rounds + 1)) := by
  simp only [deliverRounds]
  split
  next hquiet => exact .quiet hquiet
  next hreal =>
    split
    next hdefault =>
      split
      next hignore =>
        refine .ignored _ rfl hreal ?_
        rcases hdefault with hfatal | hdfl
        · exact .inl ⟨hignore, hfatal⟩
        · exact .inr fun hhandles => hhandles.1 hdfl
      next => exact .killed _ rfl hreal
      next => exact .stops
      next => exact .bug
    next hdefault =>
      split
      next hign => exact .ignored _ rfl hreal (.inr fun hhandles => hhandles.2 hign)
      next hign =>
        have hpushes : r.Pushes (signalPendingOne r.current) :=
          ⟨rfl, hreal, Bool.eq_false_of_not_eq_true fun h => hdefault (.inl h),
            fun h => hdefault (.inr h), hign⟩
        split
        next u henter => exact .pushed _ u hpushes (enterHandler_ok henter)
        next u henter => exact .broken _ u hpushes (enterHandler_error henter)

/-- A forced `SIGSEGV` ends the task. -/
theorem deliverRounds_forced
    (h : fatalSignalPending r.current = maskval SIGSEGV) :
    r.deliverRounds (rounds + 1) =
      .exits SIGSEGV (killCode r.current.subsystem SIGSEGV) := by
  have hnext : signalPendingOne r.current = SIGSEGV := by
    rw [signalPendingOne, h, if_pos (by decide)]
    decide
  have hbit : (fatalSignalPending r.current).getLsbD SIGSEGV = true := by
    rw [h]
    decide
  have hfatal : signalIsFatal r.current SIGSEGV = true := by
    rw [fatalSignalPending, BitVec.getLsbD_and, Bool.and_eq_true] at hbit
    rw [signalIsFatal, BitVec.and_comm, decide_eq_true_eq]
    exact (and_maskval_ne_zero (by decide)).mpr hbit.2
  simp only [deliverRounds, hnext, hfatal, if_neg (show SIGSEGV ≠ 0 by decide), true_or,
    reduceIte]
  rfl

/-- The push that fails has found no fatal signal. -/
theorem Pushes.fatal_eq_zero (h : r.Pushes signum) : fatalSignalPending r.current = 0 := by
  refine Receiver.fatal_eq_zero ?_
  rw [← h.next]
  exact h.notFatal

theorem Pushes.pending (h : r.Pushes signum) : r.Pending signum := by
  have hreal := h.real
  rw [h.next] at hreal ⊢
  exact pending_next hreal

theorem Pushes.lt (h : r.Pushes signum) : signum < nsig := by
  rw [h.next]
  exact Task.signalPendingOne_lt _

/-- There is another round behind the one that pushes. -/
theorem Pushes.secondRound (h : r.Pushes signum) :
    ∃ rounds, r.current.sigpending.pendingMask.toNat = rounds + 1 := by
  have hlt := clear_lt h.lt h.pending
  exact Nat.exists_eq_add_one_of_ne_zero (by omega)

/-- `SIGSEGV` can be forced behind a push that fails. -/
theorem Pushes.segv
    (h : r.Pushes signum)
    (hsent : (r.sigactions SIGSEGV).sigaction ≠ SIG_IGN ∨ r.Pending SIGSEGV) :
    (r.sigactions SIGSEGV).sigaction ≠ SIG_IGN ∨ (r.clear signum).Pending SIGSEGV := by
  by_cases hsegv : SIGSEGV = signum
  · rw [hsegv]
    exact .inl h.handles.2
  · exact hsent.imp_right fun hpending => (clear_pending h.lt).mpr ⟨hpending, hsegv⟩

/-- Behind a push that fails, `SIGSEGV` ends the task if it is sent at all. -/
theorem deliverRounds_broken
    (h : r.Pushes signum)
    (hsent : (r.sigactions SIGSEGV).sigaction ≠ SIG_IGN ∨ r.Pending SIGSEGV) :
    deliverRounds (rounds + 1) (((r.clear signum).resume u).forceSig SIGSEGV) =
      .exits SIGSEGV (killCode
        (((r.clear signum).resume u).forceSig SIGSEGV).current.subsystem SIGSEGV) :=
  deliverRounds_forced (fatal_forceSig (r := (r.clear signum).resume u)
    (fatal_clear h.fatal_eq_zero) (h.segv hsent))

/-- The rounds come to an end. -/
theorem deliverRounds_finishes (h : r.current.sigpending.pendingMask.toNat < rounds) :
    r.deliverRounds rounds ≠ .unfinished := by
  induction rounds generalizing r with
  | zero => cases h
  | succ rounds ih =>
      generalize hd : r.deliverRounds (rounds + 1) = d
      have hround : Round r rounds d := hd ▸ round_spec
      cases hround with
      | broken signum u hpushes hframe =>
          have hlt := clear_lt hpushes.lt hpushes.pending
          by_cases hsent : (r.sigactions SIGSEGV).sigaction ≠ SIG_IGN ∨ r.Pending SIGSEGV
          · obtain ⟨more, rfl⟩ : ∃ more, rounds = more + 1 := ⟨rounds - 1, by omega⟩
            rw [deliverRounds_broken hpushes hsent]
            nofun
          · have hign : (((r.clear signum).resume u).sigactions SIGSEGV).sigaction = SIG_IGN :=
              not_not.mp fun hne => hsent (.inl hne)
            refine ih ?_
            rw [forceSig_ignored hign]
            change (r.clear signum).current.sigpending.pendingMask.toNat < rounds
            omega
      | _ => nofun

/-- Without `SIGSEGV`, no round ends in it. -/
theorem deliverRounds_spares
    (hign : (r.sigactions SIGSEGV).sigaction = SIG_IGN) (hnone : ¬ r.Pending SIGSEGV)
    (exitcode : Int) : r.deliverRounds rounds ≠ .exits SIGSEGV exitcode := by
  induction rounds generalizing r with
  | zero => nofun
  | succ rounds ih =>
      generalize hd : r.deliverRounds (rounds + 1) = d
      have hround : Round r rounds d := hd ▸ round_spec
      cases hround with
      | killed signum hnext hreal =>
          intro heq
          cases heq
          rw [hnext] at hreal hnone
          exact hnone (pending_next hreal)
      | broken signum u hpushes hframe =>
          refine ih ?_ fun hpending => hnone ?_
          · simp only [forceSig, sendSig]
            split_ifs <;> exact hign
          · rw [Pending, forceSig_ignored (r := (r.clear signum).resume u) hign] at hpending
            exact ((clear_pending hpushes.lt).mp hpending).1
      | _ => nofun

/-- No frame, no room. -/
theorem frame_eq_none_iff : r.frame signum = none ↔ ¬ r.Fits signum := by
  rw [← frame_isSome_iff, Option.not_isSome_iff_eq_none]

/-- A push that fails leads to a second round. -/
theorem deliverSignal_broken (h : r.Pushes signum) (hframe : r.frame signum = none) :
    ∃ rounds u, r.deliverSignal =
      deliverRounds (rounds + 1) (((r.clear signum).resume u).forceSig SIGSEGV) := by
  obtain ⟨rounds, hrounds⟩ := h.secondRound
  cases henter : (r.clear signum).enterHandler signum with
  | ok u =>
      rw [← show (r.clear signum).frame signum = r.frame signum from rfl,
        enterHandler_ok henter] at hframe
      cases hframe
  | error u =>
      refine ⟨rounds, u, ?_⟩
      have hdefault : ¬ (signalIsFatal r.current signum = true ∨
          ((r.clear signum).sigactions signum).sigaction = SIG_DFL) := by
        rw [h.notFatal]
        rintro (hfatal | hdfl)
        · cases hfatal
        · exact h.handles.1 hdfl
      have hign : ((r.clear signum).sigactions signum).sigaction ≠ SIG_IGN := h.handles.2
      rw [deliverSignal, deliverRounds, ← h.next]
      simp only [if_neg h.real, if_neg hdefault, if_neg hign, henter, hrounds]

/-- A delivery in sound circumstances is all or nothing. -/
theorem AllOrNothing.of_sound (h : Sound r) : AllOrNothing r := by
  have hround : Round r _ r.deliverSignal := round_spec
  constructor
  · intro r' hr'
    rw [hr'] at hround
    generalize hd : Delivered.returns r' = d at hround
    cases hround with
    | quiet hquiet =>
        cases hd
        exact .inr ⟨rfl, fun _ hpending _ => hpending⟩
    | ignored signum hnext hreal hwhy =>
        cases hd
        refine .inr ⟨rfl, fun i hpending hhandles => ?_⟩
        refine (clear_pending (hnext ▸ Task.signalPendingOne_lt _)).mpr ⟨hpending, ?_⟩
        rintro rfl
        rcases hwhy with ⟨hignore, hfatal⟩ | hnone
        · exact h.forced _ hnext hreal hhandles hfatal hignore
        · exact hnone hhandles
    | pushed signum u hpushes hframe =>
        cases hd
        exact .inl ⟨signum, hpushes.pending, hpushes.handles, hframe, frame_eip hframe⟩
    | broken signum u hpushes hframe =>
        obtain ⟨rounds, hrounds⟩ := hpushes.secondRound
        rw [hrounds, deliverRounds_broken hpushes
          (h.room _ hpushes (frame_eq_none_iff.mp hframe))] at hd
        cases hd
    | _ => cases hd
  · intro signum hpushes hframe
    obtain ⟨rounds, u, hrounds⟩ := deliverSignal_broken hpushes hframe
    rw [hrounds, deliverRounds_broken hpushes
      (h.room _ hpushes (frame_eq_none_iff.mp hframe))]
    exact ⟨_, rfl⟩

/-- Where there is no room and `SIGSEGV` is ignored, the task lives on. -/
theorem AllOrNothing.room
    (h : AllOrNothing r) (hpushes : r.Pushes signum) (hroom : ¬ r.Fits signum) :
    (r.sigactions SIGSEGV).sigaction ≠ SIG_IGN ∨ r.Pending SIGSEGV := by
  by_contra hspared
  obtain ⟨exitcode, hexits⟩ := h.failed signum hpushes (frame_eq_none_iff.mpr hroom)
  exact deliverRounds_spares (not_not.mp fun hne => hspared (.inl hne))
    (fun hpending => hspared (.inr hpending)) exitcode hexits

/-- A forced signal that is ignored is lost to its handler. -/
theorem AllOrNothing.forced
    (h : AllOrNothing r) (hnext : signum = signalPendingOne r.current) (hreal : signum ≠ 0)
    (hhandles : r.Handles signum) (hfatal : signalIsFatal r.current signum = true) :
    defaultSigAction signum ≠ .ignore := by
  intro hignore
  have hreturns : r.deliverSignal = .returns (r.clear signum) := by
    simp only [deliverSignal, deliverRounds, ← hnext, if_neg hreal, hfatal, true_or, if_true,
      hignore]
  rcases h.returned _ hreturns with ⟨other, -, -, hframe, -⟩ | ⟨-, hkept⟩
  · exact frame_esp hframe rfl
  · have hpending : r.Pending signum := by
      rw [hnext] at hreal ⊢
      exact pending_next hreal
    have hlt : signum < nsig := hnext ▸ Task.signalPendingOne_lt _
    exact ((clear_pending hlt).mp (hkept signum hpending hhandles)).2 rfl

end Rounds

end Receiver

open Receiver in
/-- **Signals are delivered as a whole or not at all where `SIGSEGV` can be forced.**  The
delivery always ends; it is all or nothing exactly when there is room for the frame or
`SIGSEGV` is not ignored, and no forced signal is ignored that has a handler. -/
theorem allOrNothing_iff (r : Receiver) :
    r.deliverSignal ≠ .unfinished ∧ (AllOrNothing r ↔ Sound r) :=
  ⟨deliverRounds_finishes (Nat.lt_succ_self _),
    fun h => ⟨fun _ hpushes hroom => h.room hpushes hroom,
      fun _ hnext hreal hhandles hfatal => h.forced hnext hreal hhandles hfatal⟩,
    AllOrNothing.of_sound⟩

/-- A task of the subsystem ECE391 that ignores `SIGSEGV` and has a handler for `SIGINT`, which
is pending.  There is room for eight bytes below its stack, and the page below is not
mapped. -/
def brokenOff : Receiver where
  current :=
    { pid := 2, ppid := 1, session := none, pgid := 2
      sigpending := { Sigpending.empty with pendingMask := maskval SIGINT }
      sigactions := 0, user := true, state := .running, wakeupCurrent := false, stopped := false
      subsystem := .ece391, exitcode := 0 }
  regs := { User.zero.regs with eip := 0x08048000, esp := 0x08400008 }
  mem := User.zero.mem
  addrIsSafe := fun a _ => 0x08400000 ≤ a
  sigactions := fun signum =>
    { sigaction := if signum = SIGINT then 0x08048100 else if signum = SIGSEGV then SIG_IGN
        else SIG_DFL
      mask := 0, flags := 0, restorer := 0 }

/-- The task goes on with the stub on its stack and without the signal. -/
theorem not_allOrNothing : ¬ Receiver.AllOrNothing brokenOff := by
  intro h
  have hrun : (match brokenOff.deliverSignal with
      | .returns r' => decide (r'.regs.esp = 0x08400000) && decide (r'.regs.eip = 0x08048000)
      | _ => false) = true := by
    decide +kernel
  split at hrun
  next r' hr' =>
    simp only [Bool.and_eq_true, decide_eq_true_eq] at hrun
    obtain ⟨hesp, heip⟩ := hrun
    rcases h.returned r' hr' with ⟨signum, -, -, -, hhandler⟩ | ⟨hregs, -⟩
    · have haction : (brokenOff.sigactions signum).sigaction ∈ [0x08048100, SIG_IGN, SIG_DFL] := by
        simp only [brokenOff]
        split_ifs <;> decide
      rw [← hhandler, heip] at haction
      exact absurd haction (by decide)
    · rw [hregs] at hesp
      cases hesp
  next => cases hrun

end SigFrame
end JkxyKernel
