import JkxyKernel.Sessions.Defs
import JkxyKernel.Tty.Drawing

/-!
# Switching terminals

`tty_get`, `tty_put` and `tty_switch_foreground` of `char/tty.c`, over one memory in which
the screens lie.  The terminal in the foreground draws into the VGA memory, the others
into a page of their own each; a switch saves the VGA memory to a new page, copies the
page of the new terminal to the VGA memory, and frees it.  The foreground holds a
reference, which the switch drops, and with it perhaps the terminal.

Each call runs with interrupts disabled.  A page that is allocated comes with the call.
User programs and the mouse also write to screens; here only `raw_tty_write` does.
-/

namespace JkxyKernel
namespace Tty

/-- What goes wrong with a terminal. -/
inductive TtyFault
  /-- A write that uses `NULL`. -/
  | null
  /-- A terminal is used after its `kfree`. -/
  | freed
  deriving DecidableEq, Repr

/-- `VIDEO`, the address of the memory that is shown. -/
def vgaMem : Nat := 0xB8000

/-- `LEN_4K` -/
def pageSize : Nat := 4096

/-- A pointer to a terminal; `none` is `&early_console`. -/
abbrev TtyPtr := Option Nat

/-- `struct tty`, what was written to it, and how many references others hold. -/
structure Terminal where
  refcount : Int
  deviceNum : Nat
  videoMem : Nat
  output : Output
  written : List (Chr × Bool)
  held : Nat

/-- The terminals and the memory. -/
structure Terminals where
  mem : Nat → BitVec 8
  /-- Which pages are allocated. -/
  pages : Nat → Bool
  tty : TtyPtr → Option Terminal
  /-- The list `ttys`. -/
  ttys : List Nat
  foreground : TtyPtr
  /-- What the memory was at boot. -/
  bootMem : Nat → BitVec 8

/-- What `tty_get` is given by the allocator: a page, and perhaps memory for the terminal,
for its node in `ttys`, and for `strndup`. -/
structure TtyAlloc where
  page : Nat
  record : Option Nat
  node : Bool
  copy : Bool

/-- The fields of a terminal as `tty_get` makes it. -/
def freshOutput : Output where
  termios :=
    { oflag := 0o1
      lflag := 0o10 ||| 0o20 ||| 0o1000 ||| 0o2 ||| 0o1
      cc := fun i => if i.val = 0 then ascii 'C' - 0x40 else if i.val = 2 then backspace else 0 }
  ansiDec := { bufferEnd := 0, buffer := fun _ => 0 }
  cursorX := 0
  cursorY := 0
  color := whiteOnBlack
  mouseCursorShown := false
  mouseCursorX := 0
  mouseCursorY := 0

/-- The fields of the early console, all zero. -/
def earlyOutput : Output where
  termios := { oflag := 0, lflag := 0, cc := fun _ => 0 }
  ansiDec := { bufferEnd := 0, buffer := fun _ => 0 }
  cursorX := 0
  cursorY := 0
  color := 0
  mouseCursorShown := false
  mouseCursorX := 0
  mouseCursorY := 0

namespace Terminals

/-- A terminal is changed. -/
def modTty (s : Terminals) (r : TtyPtr) (f : Terminal → Terminal) : Terminals :=
  { s with tty := Function.update s.tty r ((s.tty r).map f) }

/-- `memcpy` of a page. -/
def copyPage (s : Terminals) (dst src : Nat) : Terminals :=
  { s with
    mem := fun a =>
      if dst ≤ a ∧ a < dst + pageSize then s.mem (src + (a - dst)) else s.mem a }

/-- `alloc_pages`, where it finds this page. -/
def allocPage (s : Terminals) (p : Nat) : Terminals :=
  { s with pages := Function.update s.pages p true }

/-- `free_pages` -/
def freePage (s : Terminals) (p : Nat) : Terminals :=
  { s with pages := Function.update s.pages p false }

/-- May `alloc_pages` find this page? -/
def canAlloc (s : Terminals) (p : Nat) : Bool :=
  p % pageSize == 0 && p != vgaMem && !s.pages p

/-- `raw_tty_write` -/
def write (s : Terminals) (r : TtyPtr) (buf : List (Chr × Bool)) : Except TtyFault Terminals :=
  match s.tty r with
  | none => .error .freed
  | some t =>
      match t.output.rawTtyWrite ⟨t.videoMem, s.mem, []⟩ buf with
      | .error .null => .error .null
      | .ok (output, v) =>
          .ok ({ s with mem := v.mem }.modTty r fun t =>
            { t with output := output, written := t.written ++ buf })

/-- `atomic_inc(&tty->refcount)` -/
def hold (s : Terminals) (n : Nat) : Except TtyFault Terminals :=
  match s.tty (some n) with
  | none => .error .freed
  | some _ => .ok (s.modTty (some n) fun t => { t with refcount := t.refcount + 1 })

/-- The text `"\33[2J"`, with memory for the copy of its sequence or not. -/
def clearBytes (copy : Bool) : List (Chr × Bool) :=
  [(esc, true), (ascii '[', true), (ascii '2', true), (ascii 'J', copy)]

/-- The part of `tty_get` that makes a terminal. -/
def make (s : Terminals) (deviceNum n : Nat) (a : TtyAlloc) : Terminals :=
  let s := s.allocPage a.page
  { s with
    tty := Function.update s.tty (some n) (some
      { refcount := 1, deviceNum := deviceNum, videoMem := a.page, output := freshOutput
        written := [], held := 0 })
    ttys := if a.node then s.ttys ++ [n] else s.ttys }

/-- `tty_get`; `session` is the terminal of the session of the running task.  The result
is `none` for an error. -/
def ttyGet (s : Terminals) (deviceNum : Nat) (session : Option Nat) (a : TtyAlloc) :
    Except TtyFault (Option Nat × Terminals) :=
  if deviceNum = Sessions.TTY_CURRENT then
    match session with
    | none => .ok (none, s)
    | some n => do return (some n, ← s.hold n)
  else
    let deviceNum :=
      if deviceNum = Sessions.TTY_CONSOLE then Sessions.mkdev Sessions.TTY_MAJOR 0
      else deviceNum
    match s.ttys.find? fun n => (s.tty (some n)).any fun t => t.deviceNum = deviceNum with
    | some n => do return (some n, ← s.hold n)
    | none =>
        match a.record with
        | none => .ok (none, (s.allocPage a.page).freePage a.page)
        | some n => do
            return (some n, ← (s.make deviceNum n a).write (some n) (clearBytes a.copy))

/-- `tty_put` -/
def ttyPut (s : Terminals) (n : Nat) : Except TtyFault Terminals :=
  match s.tty (some n) with
  | none => .error .freed
  | some t =>
      if t.refcount - 1 ≠ 0 then
        .ok (s.modTty (some n) fun t => { t with refcount := t.refcount - 1 })
      else
        .ok { s.freePage t.videoMem with
          ttys := s.ttys.filter (· ≠ n)
          tty := Function.update s.tty (some n) none }

/-- The first half of a switch: the screen of the terminal in the foreground is saved, and
the foreground gives back its reference. -/
def saveForeground (s : Terminals) (save : Nat) : Except TtyFault Terminals :=
  match s.foreground with
  | none => .ok s
  | some n =>
      let s := (s.allocPage save).copyPage save vgaMem
      (s.modTty (some n) fun t => { t with videoMem := save }).ttyPut n

/-- The second half: a terminal comes to the foreground. -/
def showForeground (s : Terminals) (n : Nat) : Except TtyFault Terminals :=
  let s := { s with foreground := some n }
  match s.tty (some n) with
  | none => .error .freed
  | some t =>
      let s := (s.copyPage vgaMem t.videoMem).freePage t.videoMem
      .ok (s.modTty (some n) fun t => { t with videoMem := vgaMem })

/-- `tty_switch_foreground`; `save` is the page for the screen that goes. -/
def switchForeground (s : Terminals) (deviceNum : Nat) (session : Option Nat) (a : TtyAlloc)
    (save : Nat) : Except TtyFault Terminals := do
  let (got, s) ← s.ttyGet deviceNum session a
  match got with
  | none => return s
  | some n =>
      if s.foreground = some n then s.ttyPut n
      else do
        let s ← s.saveForeground save
        s.showForeground n

/-- Does somebody hold the terminal? -/
def isHeld (s : Terminals) (n : Nat) : Bool :=
  (s.tty (some n)).any fun t => 0 < t.held

/-- Is the terminal in use?  The early console is until the first switch. -/
def isLive (s : Terminals) (r : TtyPtr) : Bool :=
  (s.tty r).isSome && (r.isSome || s.foreground.isNone)

end Terminals

/-- The calls on terminals. -/
inductive TerminalOp
  | switchForeground (deviceNum : Nat) (session : Option Nat) (a : TtyAlloc) (save : Nat)
  /-- `tty_get` by somebody who keeps the reference. -/
  | get (deviceNum : Nat) (session : Option Nat) (a : TtyAlloc)
  /-- `atomic_inc` by somebody who holds the terminal. -/
  | hold (n : Nat)
  /-- `tty_put` by somebody who holds the terminal. -/
  | put (n : Nat)
  /-- `raw_tty_write` of the next byte. -/
  | write (r : TtyPtr) (c : Chr) (found : Bool)

/-- May `tty_get` be called so? -/
def TtyAlloc.ready (a : TtyAlloc) (s : Terminals) (session : Option Nat) : Bool :=
  session.all s.isHeld && s.canAlloc a.page && a.record.all fun n => (s.tty (some n)).isNone

/-- Any calls, in any order. -/
def terminalMachine : Machine Terminals TerminalOp TtyFault where
  enabled op s :=
    match op with
    | .switchForeground _ session a save =>
        a.ready s session && s.canAlloc save && save != a.page
    | .get _ session a => a.ready s session
    | .hold n => s.isHeld n
    | .put n => s.isHeld n
    | .write r _ _ => s.isLive r
  exec op s :=
    match op with
    | .switchForeground deviceNum session a save => s.switchForeground deviceNum session a save
    | .get deviceNum session a => do
        let (got, s) ← s.ttyGet deviceNum session a
        match got with
        | none => return s
        | some n => return s.modTty (some n) fun t => { t with held := t.held + 1 }
    | .hold n => do
        let s ← s.hold n
        return s.modTty (some n) fun t => { t with held := t.held + 1 }
    | .put n => (s.modTty (some n) fun t => { t with held := t.held - 1 }).ttyPut n
    | .write r c found => s.write r [(c, found)]

/-- The early console, and no other terminal. -/
def Boot (s : Terminals) : Prop :=
  s.tty = (fun r => if r = none then some
    { refcount := 0, deviceNum := 0, videoMem := vgaMem, output := earlyOutput
      written := [], held := 0 } else none) ∧
  s.ttys = [] ∧ s.foreground = none ∧ s.bootMem = s.mem

end Tty
end JkxyKernel
