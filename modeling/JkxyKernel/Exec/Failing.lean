import JkxyKernel.Exec.Arguments

/-!
# Executables that are refused

When `do_execve` returns an error the task is what it was, and the executable is closed again.
There is one exception.  A task without a working directory is given one, and what `filp_open`
returns is put into the task before anybody looks whether it is an error.  The error is
returned, and it stays: as the working directory that `do_exit` will close.
-/

namespace JkxyKernel
namespace Exec

open Bytes

/-- A valid open file. -/
def Kernel.IsOpen (k : Kernel) (id : Nat) : Prop := 0 < k.refcount id

/-- The task is as it was, but that it may have got a working directory, and the executable is
closed. -/
structure Unchanged (env : Env) (k k' : Kernel) : Prop where
  task : k'.task = { k.task with cwd := k'.task.cwd }
  cwd : k'.task.cwd = k.task.cwd ∨
    k.task.cwd = .null ∧ ∃ id, k'.task.cwd = .file id ∧ k'.IsOpen id
  closed : ∀ exe, env.openExe = .ok exe → ¬ k'.IsOpen k.next
  others : ∀ id < k.next, k'.refcount id = k.refcount id

/-- The executable passes the checks, and the root cannot be opened for a task that needs it. -/
def CwdLost (env : Env) (k : Kernel) : Prop :=
  ∃ exe found e, env.openExe = .ok exe ∧ check env exe = .ok found ∧ k.task.cwd = .null ∧
    env.openRoot = .error e

section Failing

variable {env : Env} {argv envp : Option (List CString)} {k k' : Kernel} {exe : Exe} {ret : Int}
  {headers : List Word}

/-- The executable is opened and closed. -/
theorem unchanged_closed : Unchanged env k (k.opened.filpClose k.next) := by
  refine ⟨rfl, .inl rfl, fun _ _ => ?_, fun id hid => ?_⟩
  · simp only [Kernel.IsOpen, Kernel.filpClose, Kernel.opened, Function.update_self]
    decide
  · have hne : id ≠ k.next := Nat.ne_of_lt hid
    simp only [Kernel.filpClose, Kernel.opened, Function.update_of_ne hne]

theorem openCwd_of_ne (h : k.task.cwd ≠ .null) : openCwd env k = k := if_pos h

theorem openCwd_of_error {e : Errno} (h : k.task.cwd = .null) (he : env.openRoot = .error e) :
    openCwd env k = k.setTask fun task => { task with cwd := .err e } := by
  simp only [openCwd, he, if_neg (not_not.mpr h)]

theorem openCwd_of_ok (h : k.task.cwd = .null) (hroot : env.openRoot = .ok ()) :
    openCwd env k = k.opened.setTask fun task => { task with cwd := .file k.next } := by
  simp only [openCwd, hroot, if_neg (not_not.mpr h)]

/-- The inversion lemma of `do_execve` where it returns an error. -/
theorem doExecve_failed
    (h : doExecve env argv envp k = .returned ret k' headers) (hneg : ret < 0) :
    (k' = k ∧ ∀ exe, env.openExe ≠ .ok exe) ∨ k' = k.opened.filpClose k.next ∨
      ∃ exe found e, env.openExe = .ok exe ∧ check env exe = .ok found ∧
        (openCwd env k.opened).task.cwd = .err e ∧
        k' = (openCwd env k.opened).filpClose k.next := by
  simp only [doExecve] at h
  split at h
  next e he =>
    obtain ⟨-, rfl, -⟩ := Outcome.returned.inj h
    exact .inl ⟨rfl, fun exe hexe => absurd (hexe.symm.trans he) Machine.ok_ne_error⟩
  next exe hexe =>
    split at h
    next =>
      obtain ⟨-, rfl, -⟩ := Outcome.returned.inj h
      exact .inr (.inl rfl)
    next hcheck =>
      split at h
      next e hcwd =>
        obtain ⟨-, rfl, -⟩ := Outcome.returned.inj h
        exact .inr (.inr ⟨exe, _, e, hexe, hcheck, hcwd, rfl⟩)
      next =>
        split at h
        next => cases h
        next => cases h
        next =>
          obtain ⟨rfl, -⟩ := Outcome.returned.inj h
          exact absurd hneg (Int.lt_irrefl 0)

theorem unchanged_of_not_lost
    (hlost : ¬ CwdLost env k) (h : doExecve env argv envp k = .returned ret k' headers)
    (hneg : ret < 0) : Unchanged env k k' := by
  rcases doExecve_failed h hneg with ⟨rfl, hexe⟩ | rfl | ⟨exe, found, e, hexe, hcheck, hcwd, rfl⟩
  · exact ⟨rfl, .inl rfl, fun exe hok => absurd hok (hexe exe), fun _ _ => rfl⟩
  · exact unchanged_closed
  · by_cases hnull : k.task.cwd = .null
    · cases hroot : env.openRoot with
      | error e => exact absurd ⟨exe, found, e, hexe, hcheck, hnull, hroot⟩ hlost
      | ok =>
          rw [openCwd_of_ok (k := k.opened) hnull hroot] at hcwd
          cases hcwd
    · rw [openCwd_of_ne (k := k.opened) hnull]
      exact unchanged_closed

theorem returned_of_lost (argv envp : Option (List CString)) (hlost : CwdLost env k) :
    ∃ ret k' e, doExecve env argv envp k = .returned ret k' [] ∧ ret < 0 ∧
      k'.task.cwd = .err e ∧ k.task.cwd = .null := by
  obtain ⟨exe, ⟨header, subsystem, file⟩, e, hexe, hcheck, hnull, hroot⟩ := hlost
  have hcwd := openCwd_of_error (k := k.opened) hnull hroot
  refine ⟨e, (openCwd env k.opened).filpClose k.next, e, ?_, e.2.2, ?_, hnull⟩
  · simp only [doExecve, hexe, hcheck, hcwd, Kernel.setTask]
  · rw [hcwd]
    rfl

/-- **A refused executable.**  For every file, every argument list and every state of the task:
whenever `do_execve` returns an error the task is what it was before, but that it may have got
a working directory, and the executable has been closed, if and only if it is not the case that
the executable passes the checks, the task has no working directory, and the root cannot be
opened. -/
theorem failed_exec_unchanged_iff :
    (∀ ret k' headers, doExecve env argv envp k = .returned ret k' headers → ret < 0 →
      Unchanged env k k') ↔ ¬ CwdLost env k := by
  constructor
  · intro hall hlost
    obtain ⟨ret, k', e, h, hneg, herr, hnull⟩ := returned_of_lost argv envp hlost
    rcases (hall ret k' [] h hneg).cwd with hsame | ⟨-, id, hid, -⟩
    · rw [herr, hnull] at hsame
      cases hsame
    · rw [herr] at hid
      cases hid
  · exact fun hlost ret k' headers h hneg => unchanged_of_not_lost hlost h hneg

end Failing

/-- The root cannot be opened for want of memory. -/
def rootlessEnv : Env := { smallEnv smallExe with openRoot := .error ⟨-12, by decide⟩ }

/-- The error is the working directory then. -/
theorem error_kept_as_cwd :
    ¬ ∀ ret k' headers, doExecve rootlessEnv none none smallKernel = .returned ret k' headers →
      ret < 0 → Unchanged rootlessEnv smallKernel k' := by
  intro hall
  rcases (hall (-12) _ [] rfl (by decide)).cwd with hsame | ⟨-, id, hid, -⟩
  · cases hsame
  · cases hid

end Exec
end JkxyKernel
