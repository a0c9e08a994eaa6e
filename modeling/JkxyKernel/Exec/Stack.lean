import JkxyKernel.Exec.Elf
import JkxyKernel.Exec.Space
import JkxyKernel.Lib.Objects
import JkxyKernel.SigFrame.User

/-!
# The stack of a new program

`do_execve` pushes the strings of the environment and of the arguments, sixteen random words,
the auxiliary entries, and the tables of the pointers to the strings, and does not look whether
`push_userstack` succeeds.  It cannot go below the stack's page, because the page below is
never mapped.  When everything fits into the page, every push succeeds.
-/

namespace JkxyKernel
namespace Exec

open Bytes SigFrame

def AT_NULL : Word := 0
def AT_PHDR : Word := 3
def AT_PHENT : Word := 4
def AT_PHNUM : Word := 5
def AT_PAGESZ : Word := 6
def AT_BASE : Word := 7
def AT_ENTRY : Word := 9
def AT_UID : Word := 11
def AT_EUID : Word := 12
def AT_GID : Word := 13
def AT_EGID : Word := 14
def AT_HWCAP : Word := 16
def AT_RANDOM : Word := 25

/-- `stack_page` -/
def stackPage : Addr := 0x7fc00000

/-- A string of the kernel. -/
structure CString where
  chars : List Byte
  nul_notMem : 0 ∉ chars
  deriving DecidableEq

/-- The string with its `NUL`. -/
def CString.bytes (s : CString) : List Byte := s.chars ++ [0]

/-- What the processor says. -/
structure Cpu where
  rdrand : Nat → Word
  hwcap : Word

/-- The auxiliary entries, as they are pushed. -/
def auxv (cpu : Cpu) (header : ElfHeader) (fileHdraddr randPtr : Word) : List (Word × Word) :=
  [(AT_NULL, 0), (AT_UID, 0), (AT_EUID, 0), (AT_GID, 0), (AT_EGID, 0), (AT_RANDOM, randPtr),
    (AT_PHDR, fileHdraddr + header.segmentPos), (AT_PHENT, 32),
    (AT_PHNUM, header.segmentEntryNum.setWidth 32), (AT_BASE, fileHdraddr),
    (AT_ENTRY, header.entryPos), (AT_PAGESZ, 4096), (AT_HWCAP, cpu.hwcap)]

/-- `push_userstack`, whatever comes of it. -/
def tryPush (u : User) (bytes : List Byte) : User := (u.push bytes).getD u

/-- One after the other is pushed. -/
def pushAll (u : User) : List (List Byte) → User
  | [] => u
  | bytes :: rest => pushAll (tryPush u bytes) rest

/-- The strings are pushed, and the pointers to them kept. -/
def pushStrings (u : User) : List CString → User × List Addr
  | [] => (u, [])
  | s :: rest =>
      let u := tryPush u s.bytes
      let (u', pointers) := pushStrings u rest
      (u', u.regs.esp :: pointers)

/-- `esp &= ~0xf` -/
def alignStack (u : User) : User :=
  { u with regs := { u.regs with esp := u.regs.esp &&& ~~~(0xf : Word) } }

def randomWords (cpu : Cpu) : List (List Byte) :=
  (List.range 16).map fun i => leBytes (cpu.rdrand i)

/-- The setup of the stack in `do_execve`; without a table there are no strings. -/
def setupStack
    (cpu : Cpu) (header : ElfHeader) (fileHdraddr : Word) (argv envp : Option (List CString))
    (u : User) : User :=
  let (u, envpUser) := pushStrings u (envp.getD [])
  let (u, argvUser) := pushStrings u (argv.getD [])
  let u := pushAll u (randomWords cpu)
  let randPtr := u.regs.esp
  let u := alignStack u
  let u := pushAll u ((auxv cpu header fileHdraddr randPtr).map fun entry =>
    block [entry.1, entry.2])
  let u := tryPush u (block (envpUser ++ [0]))
  let u := tryPush u (block (argvUser ++ [0]))
  tryPush u (leBytes (BitVec.ofNat 32 (argv.getD []).length))

/-! ### Pushes that succeed -/

/-- What has been pushed is on the stack, and the rest of its page can be written. -/
structure OnStack (u : User) (objs : List Obj) : Prop where
  safe : ∀ x, stackPage.toNat ≤ x.toNat → x.toNat < 2 ^ 31 → u.addrIsSafe x true = true
  low : stackPage.toNat ≤ u.regs.esp.toNat
  high : u.regs.esp.toNat ≤ 2 ^ 31
  stacked : Stacked u.mem u.regs.esp.toNat (2 ^ 31) objs

section Pushes

variable {u : User} {objs objs' : List Obj} {bytes : List Byte} {x : Addr}

theorem toNat_sub_ofNat {a : Addr} {n : Nat} (h : n ≤ a.toNat) :
    (a - BitVec.ofNat 32 n).toNat = a.toNat - n := by
  have := a.isLt
  simp only [BitVec.toNat_sub, BitVec.toNat_ofNat]
  omega

theorem OnStack.perm (h : OnStack u objs) (hperm : objs.Perm objs') : OnStack u objs' :=
  ⟨h.safe, h.low, h.high, h.stacked.perm hperm⟩

theorem OnStack.tryPush_eq
    (h : OnStack u objs) (hfit : stackPage.toNat + bytes.length ≤ u.regs.esp.toNat) :
    tryPush u bytes = u.pushed bytes := by
  have hhigh := h.high
  have hsafe : u.safeBuf (u.regs.esp - BitVec.ofNat 32 bytes.length) bytes.length true =
      bytes.length := by
    refine safeBufLoop_eq (fun i hi => ?_) (Nat.le_refl _)
    have hx : (u.regs.esp - BitVec.ofNat 32 bytes.length + BitVec.ofNat 32 i).toNat =
        u.regs.esp.toNat - bytes.length + i := by
      rw [toNat_add_ofNat, toNat_sub_ofNat (by omega)]
      rw [toNat_sub_ofNat (by omega)]
      omega
    exact h.safe _ (by omega) (by omega)
  simp only [tryPush, User.push, User.pushUserstack, hsafe]
  rw [if_neg fun hne => hne rfl]
  rfl

/-- A push that fits. -/
theorem OnStack.push
    (h : OnStack u objs) (bytes : List Byte) (hfit : stackPage.toNat + bytes.length ≤ u.regs.esp.toNat) :
    OnStack (tryPush u bytes) (((tryPush u bytes).regs.esp, bytes) :: objs) ∧
      (tryPush u bytes).regs.esp.toNat + bytes.length = u.regs.esp.toNat := by
  have hhigh := h.high
  rw [h.tryPush_eq hfit]
  have hesp : (u.pushed bytes).regs.esp.toNat = u.regs.esp.toNat - bytes.length :=
    toNat_sub_ofNat (by omega)
  have hsum : (u.pushed bytes).regs.esp.toNat + bytes.length = u.regs.esp.toNat := by omega
  exact ⟨⟨h.safe, by omega, by omega, h.stacked.push hsum hhigh (by decide)⟩, hsum⟩

/-- By induction on what is pushed: it becomes one object with what lies right above it. -/
theorem OnStack.pushAll_onto {rest : List (List Byte)} {above : List Byte}
    (h : OnStack u ((u.regs.esp, above) :: objs))
    (hfit : stackPage.toNat + rest.flatten.length ≤ u.regs.esp.toNat) :
    OnStack (pushAll u rest) (((pushAll u rest).regs.esp, rest.reverse.flatten ++ above) :: objs) ∧
      (pushAll u rest).regs.esp.toNat + rest.flatten.length = u.regs.esp.toNat := by
  induction rest generalizing u above with
  | nil => exact ⟨h, rfl⟩
  | cons bytes rest ih =>
      rw [List.flatten_cons, List.length_append] at hfit
      obtain ⟨hpush, hesp⟩ := h.push bytes (by omega)
      have hmerged : OnStack (tryPush u bytes)
          (((tryPush u bytes).regs.esp, bytes ++ above) :: objs) :=
        ⟨hpush.safe, hpush.low, hpush.high, hpush.stacked.merge hesp⟩
      obtain ⟨hrest, hsum⟩ := ih hmerged (by omega)
      have hbytes : (bytes :: rest).reverse.flatten ++ above =
          rest.reverse.flatten ++ (bytes ++ above) := by
        rw [List.reverse_cons, List.flatten_append, List.flatten_singleton, List.append_assoc]
      rw [hbytes, List.flatten_cons, List.length_append]
      exact ⟨hrest, by simp only [pushAll]; omega⟩

theorem OnStack.pushAll
    (h : OnStack u objs) (rest : List (List Byte))
    (hfit : stackPage.toNat + rest.flatten.length ≤ u.regs.esp.toNat) :
    OnStack (pushAll u rest) (((pushAll u rest).regs.esp, rest.reverse.flatten) :: objs) ∧
      (pushAll u rest).regs.esp.toNat + rest.flatten.length = u.regs.esp.toNat := by
  have hempty : OnStack u ((u.regs.esp, []) :: objs) :=
    ⟨h.safe, h.low, h.high, h.stacked.empty rfl h.high⟩
  have hall := hempty.pushAll_onto hfit
  rw [List.append_nil] at hall
  exact hall

/-- The bytes of the strings. -/
def stringBytes (strings : List CString) : List (List Byte) := strings.map CString.bytes

/-- By induction on the strings: each is an object of its own. -/
theorem OnStack.pushStrings
    (h : OnStack u objs) (strings : List CString)
    (hfit : stackPage.toNat + (stringBytes strings).flatten.length ≤ u.regs.esp.toNat) :
    OnStack (pushStrings u strings).1
        ((pushStrings u strings).2.zip (stringBytes strings) ++ objs) ∧
      (pushStrings u strings).1.regs.esp.toNat + (stringBytes strings).flatten.length =
        u.regs.esp.toNat ∧
      (Exec.pushStrings u strings).2.length = strings.length := by
  induction strings generalizing u objs with
  | nil => exact ⟨h, rfl, rfl⟩
  | cons s strings ih =>
      simp only [stringBytes, List.map_cons, List.flatten_cons, List.length_append] at hfit ih ⊢
      obtain ⟨hpush, hesp⟩ := h.push s.bytes (by omega)
      obtain ⟨hrest, hsum, hlength⟩ := ih hpush (by omega)
      refine ⟨?_, by simp only [Exec.pushStrings]; omega, congrArg (· + 1) hlength⟩
      exact hrest.perm List.perm_middle

/-- The four lowest bits are cleared. -/
theorem toNat_align (w : Word) : (w &&& ~~~(0xf : Word)).toNat = w.toNat / 16 * 16 := by
  have hbits : w &&& ~~~(0xf : Word) = w >>> 4 <<< 4 := by
    refine BitVec.eq_of_getLsbD_eq fun i hi => ?_
    have hmask : ∀ i < 32, (~~~(0xf : Word)).getLsbD i = decide (4 ≤ i) := by decide
    rw [BitVec.getLsbD_and, hmask i hi, BitVec.getLsbD_shiftLeft, BitVec.getLsbD_ushiftRight]
    by_cases hlow : i < 4
    · simp [hlow]
    · simp [hlow, hi, Nat.le_of_not_lt hlow]
  have hw := w.isLt
  rw [hbits, BitVec.toNat_shiftLeft, BitVec.toNat_ushiftRight, Nat.shiftLeft_eq,
    Nat.shiftRight_eq_div_pow]
  omega

theorem OnStack.alignStack (h : OnStack u objs) :
    OnStack (alignStack u) objs ∧
      (Exec.alignStack u).regs.esp.toNat = u.regs.esp.toNat / 16 * 16 := by
  have hesp : (Exec.alignStack u).regs.esp.toNat = u.regs.esp.toNat / 16 * 16 := toNat_align _
  have hlow := h.low
  have hhigh := h.high
  have hpage : stackPage.toNat = 2143289344 := rfl
  refine ⟨⟨h.safe, by omega, by omega, h.stacked.lower (by omega)⟩, hesp⟩

end Pushes

/-! ### Pushes that may fail -/

/-- The stack pointer is in the stack's page, and nothing outside of it has changed. -/
structure Confined (u₀ u : User) : Prop where
  safe_eq : u.addrIsSafe = u₀.addrIsSafe
  low : stackPage.toNat ≤ u.regs.esp.toNat
  high : u.regs.esp.toNat ≤ 2 ^ 31
  mem_eq : ∀ x : Addr, x.toNat < stackPage.toNat ∨ 2 ^ 31 ≤ x.toNat → u.mem x = u₀.mem x

/-- The page below the stack is not there. -/
structure Guarded (u₀ : User) : Prop where
  by_page : ∀ a b : Addr, a.toNat / 4096 = b.toNat / 4096 →
    u₀.addrIsSafe a true = u₀.addrIsSafe b true
  below : u₀.addrIsSafe (stackPage - 1) true = false

section Confinement

variable {u₀ u : User} {bytes : List Byte}

/-- A push that succeeds stays in the stack's page: what goes further down needs the page below. -/
theorem Confined.room
    (hguard : Guarded u₀) (h : Confined u₀ u)
    (hsafe : u.safeBuf (u.regs.esp - BitVec.ofNat 32 bytes.length) bytes.length true =
      bytes.length) : stackPage.toNat + bytes.length ≤ u.regs.esp.toNat := by
  have hlow := h.low
  have hpage : stackPage.toNat = 2143289344 := rfl
  by_contra hover
  have hsplit : bytes.length = (u.regs.esp.toNat - stackPage.toNat + 1) +
      (bytes.length - (u.regs.esp.toNat - stackPage.toNat + 1)) := by omega
  generalize hi : bytes.length - (u.regs.esp.toNat - stackPage.toNat + 1) = i at hsplit
  have hbelow : u.regs.esp - BitVec.ofNat 32 bytes.length + BitVec.ofNat 32 i = stackPage - 1 := by
    rw [hsplit, BitVec.ofNat_add, ← BitVec.sub_sub, BitVec.sub_add_cancel]
    refine BitVec.eq_of_toNat_eq ?_
    rw [toNat_sub_ofNat (by omega)]
    change _ = 2143289343
    omega
  rw [User.safeBuf, h.safe_eq] at hsafe
  have hin := (safe_of_lt_safeBufLoop hguard.by_page (hsafe.ge.trans_lt' (by omega : i < _))).2
  rw [hbelow, hguard.below] at hin
  exact Bool.false_ne_true hin

theorem Confined.tryPush (hguard : Guarded u₀) (h : Confined u₀ u) :
    Confined u₀ (tryPush u bytes) := by
  have hlow := h.low
  have hhigh := h.high
  simp only [Exec.tryPush, User.push, User.pushUserstack]
  split
  next => exact h
  next hsafe =>
    have hroom := h.room hguard (not_not.mp hsafe)
    have hesp : (u.regs.esp - BitVec.ofNat 32 bytes.length).toNat =
        u.regs.esp.toNat - bytes.length := toNat_sub_ofNat (by omega)
    refine ⟨h.safe_eq, ?_, ?_, fun x hx => ?_⟩
    · change stackPage.toNat ≤ (u.regs.esp - BitVec.ofNat 32 bytes.length).toNat
      omega
    · change (u.regs.esp - BitVec.ofNat 32 bytes.length).toNat ≤ 2 ^ 31
      omega
    · rw [← h.mem_eq x hx]
      have hout : bytes.length ≤ (x - (u.regs.esp - BitVec.ofNat 32 bytes.length)).toNat := by
        have := x.isLt
        rw [BitVec.toNat_sub, hesp]
        omega
      simp only [Option.getD_some, store, List.getElem?_eq_none hout, Option.getD_none]

theorem Confined.pushAll {rest : List (List Byte)} (hguard : Guarded u₀) (h : Confined u₀ u) :
    Confined u₀ (pushAll u rest) := by
  induction rest generalizing u with
  | nil => exact h
  | cons bytes rest ih => exact ih (h.tryPush hguard)

theorem Confined.pushStrings {strings : List CString} (hguard : Guarded u₀) (h : Confined u₀ u) :
    Confined u₀ (pushStrings u strings).1 := by
  induction strings generalizing u with
  | nil => exact h
  | cons s strings ih => exact ih (h.tryPush hguard)

theorem Confined.alignStack (h : Confined u₀ u) : Confined u₀ (alignStack u) := by
  have hesp : (Exec.alignStack u).regs.esp.toNat = u.regs.esp.toNat / 16 * 16 := toNat_align _
  have hlow := h.low
  have hhigh := h.high
  have hpage : stackPage.toNat = 2143289344 := rfl
  exact ⟨h.safe_eq, by omega, by omega, h.mem_eq⟩

theorem Confined.setupStack
    {cpu : Cpu} {header : ElfHeader} {fileHdraddr : Word} {argv envp : Option (List CString)}
    (hguard : Guarded u₀) (h : Confined u₀ u) :
    Confined u₀ (setupStack cpu header fileHdraddr argv envp u) := by
  simp only [Exec.setupStack]
  exact (((((((h.pushStrings hguard).pushStrings hguard).pushAll hguard).alignStack).pushAll
    hguard).tryPush hguard).tryPush hguard).tryPush hguard

end Confinement

/-! ### What the program finds -/

/-- What lies on the stack. -/
structure Layout where
  argv : List Addr
  envp : List Addr
  auxv : List (Word × Word)
  /-- Where the random bytes are, and what they are. -/
  random : Obj

namespace Layout

variable (l : Layout)

def auxWords : List Word := l.auxv.flatMap fun entry => [entry.1, entry.2]

/-- The words from `esp` on. -/
def words : List Word :=
  [BitVec.ofNat 32 l.argv.length] ++ (l.argv ++ [0]) ++ (l.envp ++ [0]) ++ l.auxWords

/-- The objects on the stack, with the bytes that are theirs. -/
def objects (esp : Addr) (argv envp : List CString) : List Obj :=
  (esp, leBytes (BitVec.ofNat 32 l.argv.length)) ::
    (esp + 4, block (l.argv ++ [0])) ::
    (esp + BitVec.ofNat 32 (4 * (l.argv.length + 2)), block (l.envp ++ [0])) ::
    (esp + BitVec.ofNat 32 (4 * (l.argv.length + l.envp.length + 3)), block l.auxWords) ::
    l.random :: (l.argv.zip (stringBytes argv) ++ l.envp.zip (stringBytes envp))

end Layout

/-- A pointer to a copy of the string. -/
def PointsTo (m : Mem) (a : Addr) (s : CString) : Prop := a ≠ 0 ∧ Holds m a s.bytes

/-- Memory from `esp` upwards decodes to the arguments and the environment. -/
structure Decodes (m : Mem) (esp : Addr) (l : Layout) (argv envp : List CString) : Prop where
  words : ∀ i w, l.words[i]? = some w → wordAt m esp i = w
  arguments : List.Forall₂ (PointsTo m) l.argv argv
  environment : List.Forall₂ (PointsTo m) l.envp envp
  /-- `AT_NULL` is the last of the entries, and of no other's type. -/
  auxiliary : ∃ entries, l.auxv = entries ++ [(AT_NULL, 0)] ∧ AT_NULL ∉ entries.map Prod.fst
  /-- The sixteen random words, and the entry that leads to them. -/
  random : Holds m l.random.1 l.random.2 ∧ l.random.2.length = 64 ∧
    (AT_RANDOM, l.random.1) ∈ l.auxv
  apart : (l.objects esp argv envp).Pairwise Apart

/-- The bytes of the strings and of the random words. -/
def stringsSize (argv envp : List CString) : Nat :=
  (stringBytes envp).flatten.length + (stringBytes argv).flatten.length + 64

/-- The room that the strings and the tables take, with what is lost by aligning. -/
def stackSize (argv envp : List CString) : Nat :=
  (stringsSize argv envp + 15) / 16 * 16 + 104 + 4 * (envp.length + 1) + 4 * (argv.length + 1) + 4

section Decoding

variable {u : User}

theorem pointsTo_of_onStack {objs : List Obj} {pointers : List Addr} {strings : List CString}
    (h : OnStack u objs) (hlength : pointers.length = strings.length)
    (hsub : ∀ o ∈ pointers.zip (stringBytes strings), o ∈ objs) :
    List.Forall₂ (PointsTo u.mem) pointers strings := by
  rw [List.forall₂_iff_zip]
  refine ⟨hlength, fun {a s} hmem => ?_⟩
  have hobj : (a, s.bytes) ∈ objs := by
    refine hsub _ ?_
    rw [stringBytes, List.zip_map_right]
    exact List.mem_map_of_mem hmem
  refine ⟨?_, h.stacked.holds _ hobj⟩
  rintro rfl
  have hinside := (h.stacked.inside _ hobj).1
  have hlow := h.low
  have hpage : stackPage.toNat = 2143289344 := rfl
  have hzero : (0 : Addr).toNat = 0 := rfl
  simp only at hinside
  omega

theorem auxBytes (entries : List (Word × Word)) :
    (entries.map fun entry => block [entry.1, entry.2]).reverse.flatten =
      block (entries.reverse.flatMap fun entry => [entry.1, entry.2]) := by
  rw [← List.map_reverse, ← List.flatMap_def, block, List.flatMap_assoc]
  rfl

/-- `AT_NULL` is pushed first, so it is the last that is found. -/
theorem auxv_reverse (cpu : Cpu) (header : ElfHeader) (fileHdraddr randPtr : Word) :
    ∃ entries, (auxv cpu header fileHdraddr randPtr).reverse = entries ++ [(AT_NULL, 0)] ∧
      AT_NULL ∉ entries.map Prod.fst := by
  refine ⟨(auxv cpu header fileHdraddr randPtr).tail.reverse, rfl, ?_⟩
  have hkeys : (auxv cpu header fileHdraddr randPtr).tail.reverse.map Prod.fst =
      [AT_HWCAP, AT_PAGESZ, AT_ENTRY, AT_BASE, AT_PHNUM, AT_PHENT, AT_PHDR, AT_RANDOM, AT_EGID,
        AT_GID, AT_EUID, AT_UID] := rfl
  rw [hkeys]
  decide

/-- The tables are pushed below the auxiliary entries. -/
theorem OnStack.tables {objs : List Obj} {aux : List Word}
    (h : OnStack u ((u.regs.esp, block aux) :: objs)) (envpUser argvUser : List Addr) (argc : Word)
    (hfit : stackPage.toNat + (4 * (envpUser.length + 1) + 4 * (argvUser.length + 1) + 4) ≤
      u.regs.esp.toNat) :
    ∃ u', tryPush (tryPush (tryPush u (block (envpUser ++ [0]))) (block (argvUser ++ [0])))
        (leBytes argc) = u' ∧
      OnStack u' ((u'.regs.esp, leBytes argc) :: (u'.regs.esp + 4, block (argvUser ++ [0])) ::
        (u'.regs.esp + BitVec.ofNat 32 (4 * (argvUser.length + 2)), block (envpUser ++ [0])) ::
        (u'.regs.esp + BitVec.ofNat 32 (4 * (argvUser.length + envpUser.length + 3)), block aux) ::
        objs) := by
  have henvp : (block (envpUser ++ [0])).length = 4 * (envpUser.length + 1) := by
    rw [length_block, List.length_append, List.length_singleton]
  have hargv : (block (argvUser ++ [0])).length = 4 * (argvUser.length + 1) := by
    rw [length_block, List.length_append, List.length_singleton]
  obtain ⟨h₁, hesp₁⟩ := h.push (block (envpUser ++ [0])) (by omega)
  generalize tryPush u _ = u₁ at h₁ hesp₁ ⊢
  obtain ⟨h₂, hesp₂⟩ := h₁.push (block (argvUser ++ [0])) (by omega)
  generalize tryPush u₁ _ = u₂ at h₂ hesp₂ ⊢
  obtain ⟨h₃, hesp₃⟩ := h₂.push (leBytes argc) (by rw [length_leBytes]; omega)
  rw [length_leBytes] at hesp₃
  refine ⟨_, rfl, ?_⟩
  generalize tryPush u₂ _ = u₃ at h₃ hesp₃ ⊢
  have hargs : u₂.regs.esp = u₃.regs.esp + 4 := eq_add_ofNat hesp₃
  have hvars : u₁.regs.esp = u₃.regs.esp + BitVec.ofNat 32 (4 * (argvUser.length + 2)) :=
    eq_add_ofNat (by omega)
  have haux : u.regs.esp =
      u₃.regs.esp + BitVec.ofNat 32 (4 * (argvUser.length + envpUser.length + 3)) :=
    eq_add_ofNat (by omega)
  rw [hargs, hvars, haux] at h₃
  exact h₃

/-- The four tables are one block of words. -/
theorem OnStack.words {l : Layout} {objs : List Obj}
    (h : OnStack u ((u.regs.esp, leBytes (BitVec.ofNat 32 l.argv.length)) ::
      (u.regs.esp + 4, block (l.argv ++ [0])) ::
      (u.regs.esp + BitVec.ofNat 32 (4 * (l.argv.length + 2)), block (l.envp ++ [0])) ::
      (u.regs.esp + BitVec.ofNat 32 (4 * (l.argv.length + l.envp.length + 3)),
        block l.auxWords) :: objs)) :
    Holds u.mem u.regs.esp (block l.words) := by
  have hat := h.stacked.holds
  simp only [List.forall_mem_cons] at hat
  obtain ⟨hargc, hargv, henvp, haux, -⟩ := hat
  rw [Layout.words, block_append, block_append, block_append]
  refine ((Holds.append hargc hargv).append ?_).append ?_
  · refine cast (congrArg (fun n => Holds u.mem (u.regs.esp + BitVec.ofNat 32 n) _) ?_) henvp
    simp only [List.length_append, length_block, length_leBytes, List.length_singleton]
    omega
  · refine cast (congrArg (fun n => Holds u.mem (u.regs.esp + BitVec.ofNat 32 n) _) ?_) haux
    simp only [List.length_append, length_block, length_leBytes, List.length_singleton]
    omega

/-- Everything that is pushed fits, so every push succeeds. -/
theorem setupStack_decodes
    (cpu : Cpu) (header : ElfHeader) (fileHdraddr : Word) {argv envp : Option (List CString)}
    (h : OnStack u []) (htop : u.regs.esp.toNat = 2 ^ 31)
    (hfit : stackSize (argv.getD []) (envp.getD []) ≤ 2 ^ 22) :
    ∃ u' l, setupStack cpu header fileHdraddr argv envp u = u' ∧
      stackPage.toNat ≤ u'.regs.esp.toNat ∧
      Decodes u'.mem u'.regs.esp l (argv.getD []) (envp.getD []) := by
  generalize hargs : argv.getD [] = args at hfit ⊢
  generalize hvars : envp.getD [] = vars at hfit ⊢
  have hpage : stackPage.toNat = 2143289344 := rfl
  simp only [stackSize, stringsSize] at hfit
  simp only [setupStack, hargs, hvars]
  -- The strings of the environment, and those of the arguments.
  obtain ⟨h₁, hesp₁, hlen₁⟩ := h.pushStrings vars (by omega)
  rcases hu₁ : pushStrings u vars with ⟨u₁, envpUser⟩
  simp only [hu₁] at h₁ hesp₁ hlen₁ ⊢
  obtain ⟨h₂, hesp₂, hlen₂⟩ := h₁.pushStrings args (by omega)
  rcases hu₂ : pushStrings u₁ args with ⟨u₂, argvUser⟩
  simp only [hu₂] at h₂ hesp₂ hlen₂ ⊢
  -- The random words, and the alignment.
  have hrandom : (randomWords cpu).flatten.length = 64 := rfl
  obtain ⟨h₃, hesp₃⟩ := h₂.pushAll (randomWords cpu) (by omega)
  generalize pushAll u₂ (randomWords cpu) = u₃ at h₃ hesp₃ ⊢
  obtain ⟨h₄, hesp₄⟩ := h₃.alignStack
  generalize alignStack u₃ = u₄ at h₄ hesp₄ ⊢
  -- The auxiliary entries, and the tables.
  generalize hentries : auxv cpu header fileHdraddr u₃.regs.esp = entries
  have haux : (entries.map fun entry => block [entry.1, entry.2]).flatten.length = 104 := by
    rw [← hentries]
    rfl
  obtain ⟨h₅, hesp₅⟩ := h₄.pushAll (entries.map fun entry => block [entry.1, entry.2])
    (by omega)
  generalize pushAll u₄ _ = u₅ at h₅ hesp₅ ⊢
  rw [auxBytes] at h₅
  obtain ⟨u₆, hu₆, h₆⟩ := h₅.tables envpUser argvUser (BitVec.ofNat 32 args.length) (by omega)
  rw [hu₆]
  rw [List.append_nil, ← hlen₂] at h₆
  let l : Layout := ⟨argvUser, envpUser, entries.reverse,
    (u₃.regs.esp, (randomWords cpu).reverse.flatten)⟩
  have hauxv : l.auxv = (auxv cpu header fileHdraddr u₃.regs.esp).reverse := by
    rw [hentries]
  have hobjs : OnStack u₆ (l.objects u₆.regs.esp args vars) := h₆
  refine ⟨u₆, l, rfl, h₆.low, fun i w hw => (OnStack.words (l := l) h₆).wordAt hw, ?_, ?_, ?_, ?_,
    hobjs.stacked.apart⟩
  · exact pointsTo_of_onStack hobjs hlen₂ fun o ho => by simp [Layout.objects, l, ho]
  · exact pointsTo_of_onStack hobjs hlen₁ fun o ho => by simp [Layout.objects, l, ho]
  · rw [hauxv]
    exact auxv_reverse cpu header fileHdraddr _
  · refine ⟨hobjs.stacked.holds l.random (by simp [Layout.objects]), rfl, ?_⟩
    rw [hauxv, List.mem_reverse]
    simp [l, auxv]

end Decoding

end Exec
end JkxyKernel
