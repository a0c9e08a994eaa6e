import JkxyKernel.UserBuffers.Confinement

/-!
# Counts of array elements

`poll`, `readv` and `writev` are given an array of the process and the number of its elements.
`poll` multiplies that number with the size of an element to validate the array, and `kcalloc`
multiplies it with the size of a `struct poll_entry`, both in 32 bits; the loops then go by the
number itself.  The vector calls go on when only a part of the array could be validated.

What is written down here is which elements are accessed, of the array and of `poll_table`.
-/

namespace JkxyKernel
namespace UserBuffers

open Bytes

def EINTR : Int := 4
def ENOMEM : Int := 12

def POLLIN : BitVec 16 := 0x0001
def POLLOUT : BitVec 16 := 0x0004
def POLLNVAL : BitVec 16 := 0x0020

/-- `sizeof(struct pollfd)` -/
def sizeofPollfd : Nat := 8

/-- `sizeof(struct poll_entry)`: two pointers, two `uint16_t`, and two nodes of a list. -/
def sizeofPollEntry : Nat := 36

/-- `struct poll_entry`, without the task and the callbacks. -/
structure PollEntry (φ : Type) where
  file : Option φ
  events : BitVec 16
  revents : BitVec 16

/-- The operations of a file that `poll` looks at. -/
inductive PollOp (φ : Type)
  /-- `file->op->poll`, in each round of the loop. -/
  | poll (op : Nat → PollEntry φ → BitVec 16)
  /-- There is no `poll`; are there `read` and `write`? -/
  | plain (read write : Bool)

/-- What a round of the loop of `poll` finds out. -/
structure Round where
  signalPending : Bool
  hashit : Bool

/-- An element that is accessed. -/
inductive Access
  /-- `fds[i]` -/
  | fds (i : Nat)
  /-- `poll_table[i]` -/
  | table (i : Nat)
  deriving DecidableEq

/-- How a call of `poll` ends. -/
inductive PollEnd
  | returned (res : Int)
  /-- After all these rounds the task still sleeps. -/
  | asleep
  /-- `kcalloc` clears memory at `NULL`. -/
  | nullPointer
  deriving DecidableEq

/-- A call of `poll`: the sizes of what was validated and allocated, and the elements that were
accessed. -/
structure PollRun where
  outcome : PollEnd
  validated : Nat
  allocated : Nat
  accesses : List Access

section Poll

variable {σ φ ι : Type} (sys : System σ φ ι)

/-- The first loop of `poll`: an entry for each element. -/
def System.pollEntry (s : σ) (fds : Addr) (i : Nat) : PollEntry φ :=
  let file := sys.file s (wordAt (sys.mem s) fds (2 * i))
  { file := file
    events := (wordAt (sys.mem s) fds (2 * i + 1)).setWidth 16
    revents := if file.isSome then 0 else POLLNVAL }

/-- A round goes to the file of an entry. -/
def visit (ops : φ → PollOp φ) (round : Nat) (entry : PollEntry φ) : PollEntry φ :=
  match entry.file with
  | none => entry
  | some file =>
      match ops file with
      | .poll op => { entry with revents := op round entry }
      | .plain read write =>
          let revents := entry.revents ||| if read && entry.events &&& POLLIN != 0 then POLLIN else 0
          { entry with
            revents := revents ||| if write && entry.events &&& POLLOUT != 0 then POLLOUT else 0 }

/-- The accesses of a loop over the entries. -/
def overTable (nfds : Nat) : List Access := (List.range nfds).map .table

/-- The accesses of a loop over both. -/
def overBoth (nfds : Nat) : List Access := (List.range nfds).flatMap fun i => [.table i, .fds i]

/-- The loop in which `poll` waits; `timer` is whether there is a `sleep_spec`. -/
def pollLoop (ops : φ → PollOp φ) (nfds : Nat) (timeout : Int) (timer : Bool) :
    Nat → List Round → List (PollEntry φ) → Option Int × List Access
  | _, [], _ => (none, [])
  | round, r :: rounds, table =>
      if r.signalPending then (some (-EINTR), [])
      else
        let table := table.map (visit ops round)
        let accesses := overTable nfds ++ overTable nfds
        let res := table.countP (·.revents != 0)
        if res ≠ 0 ∨ timeout = 0 then (some res, accesses)
        else if timer && r.hashit then (some 0, accesses)
        else
          let (res, rest) := pollLoop ops nfds timeout timer (round + 1) rounds table
          (res, accesses ++ rest)

/-- `poll`; `found` is whether there is memory for the table, `spec` for the `sleep_spec`. -/
def poll (ops : φ → PollOp φ) (s : σ) (fds : Addr) (nfds : Word) (timeout : Int)
    (found spec : Bool) (rounds : List Round) : PollRun :=
  let size := nfds.toNat * sizeofPollfd % 2 ^ 32
  let validated := sys.safeBuf s fds size .write
  if validated ≠ size then ⟨.returned (-EFAULT), validated, 0, []⟩
  else
    let realSize := nfds.toNat * sizeofPollEntry % 2 ^ 32
    if !found then
      ⟨if realSize = 0 then .returned (-ENOMEM) else .nullPointer, validated, 0, []⟩
    else
      let setup := overBoth nfds.toNat
      if 0 < timeout ∧ spec = false then
        ⟨.returned (-ENOMEM), validated, realSize, setup⟩
      else
        let table := (List.range nfds.toNat).map (sys.pollEntry s fds)
        match pollLoop ops nfds.toNat timeout (0 < timeout) 0 rounds table with
        | (none, accesses) => ⟨.asleep, validated, realSize, setup ++ accesses⟩
        | (some res, accesses) =>
            ⟨.returned res, validated, realSize, setup ++ accesses ++ overBoth nfds.toNat⟩

end Poll

/-- The element lies in what was validated, or allocated. -/
def PollRun.Covers (r : PollRun) : Access → Prop
  | .fds i => sizeofPollfd * (i + 1) ≤ r.validated
  | .table i => sizeofPollEntry * (i + 1) ≤ r.allocated

section Inside

variable {σ φ ι : Type} {sys : System σ φ ι} {ops : φ → PollOp φ} {nfds : Nat} {a : Access}

end Inside

/-! ### Vectors -/

section Vectors

variable {σ φ ι : Type} {sys : System σ φ ι} {mode : Mode}
  {op : σ → φ → (nbytes : Nat) → Transfer σ nbytes} {s : σ} {fd : Word} {iov : Addr}

end Vectors

end UserBuffers
end JkxyKernel
