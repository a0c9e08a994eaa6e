import JkxyKernel.Exec.Execve

/-!
# The arguments of a new program

Whatever the segments of a program are, when it has been started its stack is a page of its
own, and what the program reads there from `esp` upwards is what the caller of `do_execve` has
given: the arguments, the environment, and the auxiliary entries.
-/

namespace JkxyKernel
namespace Exec

open Bytes SigFrame

section Arguments

variable {env : Env} {argv envp : Option (List CString)} {k k' : Kernel} {exe : Exe}
  {headers : List Word}

theorem stackPage_range {x : Addr} :
    pageDirIdx x = pageDirIdx stackPage ↔ stackPage.toNat ≤ x.toNat ∧ x.toNat < 2 ^ 31 := by
  have hpage : stackPage.toNat = 2143289344 := rfl
  simp only [pageDirIdx]
  omega

theorem startLinux_decodes
    {header : ElfHeader} {file : Opened} {program : Started}
    (h : startLinux env exe header file argv envp = .ok program)
    (hfit : stackSize (argv.getD []) (envp.getD []) ≤ 2 ^ 22) :
    ∃ l, Decodes program.mm.space.mem program.regs.esp l (argv.getD []) (envp.getD []) ∧
      ∀ x : Addr, program.regs.esp.toNat ≤ x.toNat → x.toNat < 2 ^ 31 →
        program.mm.space.mapped x = true := by
  obtain ⟨st, space, u, -, hrequest, rfl, rfl⟩ := startLinux_cases h
  obtain ⟨-, -, rfl⟩ := Space.requestLarge_cases hrequest
  have hstack : OnStack (emptyStack header (st.space.mapLarge stackPage 1 true)) [] := by
    refine ⟨fun x hle hlt => ?_, ?_, ?_, Stacked.nil⟩
    · have hin := stackPage_range.mpr ⟨hle, hlt⟩
      rw [emptyStack_addrIsSafe, Space.addrIsSafe_mapLarge, if_pos hin]
      rfl
    · rw [emptyStack_esp]
      decide
    · rw [emptyStack_esp]
      decide
  obtain ⟨u', l, hsetup, hlow, hdecodes⟩ :=
    setupStack_decodes env.cpu header st.fileHdraddr hstack rfl hfit
  rw [hsetup]
  refine ⟨l, hdecodes, fun x hle hlt => ?_⟩
  rw [Space.mapped_setMem, Space.mapped_mapLarge, if_pos (stackPage_range.mpr ⟨hlow.trans hle, hlt⟩)]

/-- **The initial stack.**  For every executable, every `argv` and every `envp` (either may be
`NULL`) whose strings and tables fit in the page of the stack: when `do_execve` has loaded a
program of the Linux subsystem, the words from `esp` upwards are the number of arguments, the
pointers to them, `NULL`, the pointers to the environment, `NULL`, and the auxiliary entries, of
which `AT_NULL` is the last.  Each pointer leads to a copy of its string with a `NUL`, and no
two objects on the stack overlap. -/
theorem initial_stack_decodes
    (h : doExecve env argv envp k = .returned 0 k' headers)
    (hlinux : k'.task.subsystem = .linux)
    (hfit : stackSize (argv.getD []) (envp.getD []) ≤ 2 ^ 22) :
    ∃ mm l, k'.task.mm = some mm ∧
      Decodes mm.space.mem k'.task.regs.esp l (argv.getD []) (envp.getD []) ∧
      ∀ x : Addr, k'.task.regs.esp.toNat ≤ x.toNat → x.toNat < 2 ^ 31 →
        mm.space.mapped x = true := by
  obtain ⟨exe, header, file, program, -, -, hstart, hregs, hmm, -⟩ := doExecve_linux h hlinux
  obtain ⟨l, hdecodes, hmapped⟩ := startLinux_decodes hstart hfit
  rw [hregs]
  exact ⟨program.mm, l, hmm, hdecodes, hmapped⟩

end Arguments

/-- An executable with the given program headers, right behind its own. -/
def elfBytes (segments : List (List Word)) : List Byte :=
  elfMagic ++ [1, 1, 1, 0] ++ List.replicate 8 0 ++ [2, 0, 3, 0] ++ block [1, 0, 52, 0, 0] ++
    [52, 0, 32, 0, BitVec.ofNat 8 segments.length, 0] ++ List.replicate 6 0 ++
    segments.flatMap block

/-- A system in which everything can be had. -/
def smallEnv (exe : Exe) : Env where
  openExe := .ok exe
  name := [105, 110, 105, 116]
  junk := []
  others := []
  openRoot := .ok ()
  mem := fun _ => 0
  frames := fun _ => true
  cpu := { rdrand := fun _ => 0, hwcap := 0 }

/-- An executable without segments. -/
def smallExe : Exe := Exe.inMemory (elfBytes []) (by decide)

/-- A task that has nothing yet. -/
def smallKernel : Kernel where
  task :=
    { comm := List.replicate 16 0
      mm := none
      files := none
      cwd := .null
      exe := none
      sigactions := fun _ => JkxyKernel.Task.Sigaction.default
      ldt := []
      gdtTls := []
      fxsaveData := none
      regs := initialRegs
      subsystem := .linux }
  refcount := fun _ => 0
  next := 0

theorem initial_stack_decodes_small :
    ∃ k' mm l, doExecve (smallEnv smallExe) (some [⟨[97], by decide⟩]) none smallKernel =
        .returned 0 k' [] ∧ k'.task.mm = some mm ∧
      Decodes mm.space.mem k'.task.regs.esp l [⟨[97], by decide⟩] [] := by
  obtain ⟨k', h, hlinux⟩ : ∃ k', doExecve (smallEnv smallExe) (some [⟨[97], by decide⟩]) none
      smallKernel = .returned 0 k' [] ∧ k'.task.subsystem = .linux := ⟨_, rfl, rfl⟩
  obtain ⟨mm, l, hmm, hdecodes, -⟩ := initial_stack_decodes h hlinux (by decide)
  exact ⟨k', mm, l, h, hmm, hdecodes⟩

end Exec
end JkxyKernel
