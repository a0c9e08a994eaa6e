import JkxyKernel.Vfs.Path
import Mathlib.Data.List.Induction
import Mathlib.Logic.Function.Iterate

/-!
# Parsing and joining paths

`path_join` adds the components of its second path to those of the first, and
`path_fromstr` does the same with the pieces of a string.  A relative string is
normalised once on its own and once more when it is joined.

A relative path keeps one `..` in front, but a second one takes it away again, since
`path_add_component` pops whatever component is last.  So of a run of climbs above its
start a relative string keeps one or none, by parity.  Joining it to a prefix is the same
as parsing the whole string only where the climbs that were dropped would not have shown:
there is at most one, or the prefix has too few names for them.
-/

namespace JkxyKernel
namespace Vfs

namespace Path

section Walks

variable {path base : Path} {names : List (List Char)}

end Walks

/-- The empty path a string is parsed into. -/
def start (pathstr : List Char) : Path :=
  if pathstr.head? = some '/' then root else empty

section Strings

variable {x : Path} {s t : List Char}

theorem start_components : (start s).components = [] := by
  simp only [start]
  split <;> rfl

end Strings

end Path
end Vfs
end JkxyKernel
