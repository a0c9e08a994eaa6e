import JkxyKernel.UserBuffers.Syscalls

/-!
# What stays inside the validated prefixes

`getdents64` hands the validated length on, and stays inside.  `read` and `write` validate
the buffer and then pass the length that was asked for; the vector calls read the whole
vector; `getcwd` validates nothing, and `readlink` does not validate the path.
-/

namespace JkxyKernel
namespace UserBuffers

open Bytes

section Logs

variable {done done' log log' : List Event} {e : Event}

end Logs

section Calls

variable {σ φ ι : Type} {sys : System σ φ ι} {s : σ}

/-- The operation of the file touches no more than was validated. -/
def Fits (sys : System σ φ ι) (mode : Mode) (op : σ → φ → (nbytes : Nat) → Transfer σ nbytes)
    (s : σ) (fd : Word) (buf : Addr) (nbytes : Word) : Prop :=
  ∀ file, sys.file s fd = some file →
    sys.safeBuf s buf nbytes.toNat mode = 0 ∧ nbytes ≠ 0 ∨
      (op s file nbytes.toNat).copied ≤ sys.safeBuf s buf nbytes.toNat mode

variable {mode : Mode} {op : σ → φ → (nbytes : Nat) → Transfer σ nbytes}

end Calls

end UserBuffers
end JkxyKernel
