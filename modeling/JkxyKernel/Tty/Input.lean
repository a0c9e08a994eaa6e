import JkxyKernel.Lib.Machine
import JkxyKernel.Structure.Array
import Mathlib.Data.List.DropRight

/-!
# Terminal input

The input side of `char/tty.c`: the keyboard interrupt stores characters in
`tty->buffer`, and `tty_read` takes them out again.  `buffer_end` is where the next
character goes, `buffer_start` is where the next read begins; the buffer is not
compacted, it is given back as a whole when the two meet.

The machine of this module is one terminal, the tasks that read and poll it and change
its `termios`, and the keyboard.  A system call is not preempted by another task unless
it sleeps, but it runs with interrupts enabled, so `tty_read` is taken statement by
statement from the end of its wait on, and the keyboard may come between any two of
them.

What the keyboard writes to the screen and whom it signals or wakes are the effects
that `keyboard` returns; none of them touches the buffer.
-/

namespace JkxyKernel
namespace Tty

/-- `char`: eight bits, signed where C compares it with a number. -/
abbrev Chr := BitVec 8

abbrev TaskId := Nat

/-- The part of `struct termios` that the terminal looks at. -/
structure Termios where
  oflag : BitVec 32
  lflag : BitVec 32
  cc : Fin 19 → BitVec 8

namespace Termios

/-- `OPOST` of `oflag`. -/
def opost (termios : Termios) : Bool := termios.oflag &&& 0o1#32 != 0

/-- `ISIG` of `lflag`. -/
def isig (termios : Termios) : Bool := termios.lflag &&& 0o1#32 != 0

/-- `ICANON` of `lflag`. -/
def icanon (termios : Termios) : Bool := termios.lflag &&& 0o2#32 != 0

/-- `ECHO` of `lflag`. -/
def echo (termios : Termios) : Bool := termios.lflag &&& 0o10#32 != 0

/-- `ECHOE` of `lflag`. -/
def echoe (termios : Termios) : Bool := termios.lflag &&& 0o20#32 != 0

/-- `ECHOCTL` of `lflag`. -/
def echoctl (termios : Termios) : Bool := termios.lflag &&& 0o1000#32 != 0

/-- `cc[VINTR]` -/
def vintr (termios : Termios) : BitVec 8 := termios.cc 0

/-- `cc[VERASE]` -/
def verase (termios : Termios) : BitVec 8 := termios.cc 2

end Termios

/-- `TTY_BUFFER_SIZE` -/
def bufferSize : Nat := 128

/-- `WAKEUP_CHAR`, the newline. -/
def wakeupChar : Chr := 10

/-- `'\b'` -/
def backspace : Chr := 8

/-- `CONTROL_OFFSET` -/
def controlOffset : Chr := 0x40

/-- The text `"\33[2J"`. -/
def clearScreen : List Chr := [27, 91, 50, 74]

/-- The fields of `struct tty` that input goes through. -/
structure Input where
  /-- The task that is reading or polling. -/
  task : Option TaskId
  termios : Termios
  bufferStart : Nat
  bufferEnd : Nat
  buffer : Nat → Chr

namespace Input

/-- `tty_should_read` -/
def shouldRead (tty : Input) : Bool :=
  if tty.termios.icanon then
    tty.bufferEnd != 0 && tty.buffer (tty.bufferEnd - 1) == wakeupChar
  else tty.bufferEnd != 0

/-- `buffer_end - buffer_start` where it is compared with and stored in a `uint32_t`. -/
def available (tty : Input) : Nat :=
  (tty.bufferEnd + 2 ^ 32 - tty.bufferStart) % 2 ^ 32

/-- The characters stored, read or not. -/
def stored (tty : Input) : List Chr :=
  (List.range tty.bufferEnd).map tty.buffer

/-- The characters stored and not yet read. -/
def unread (tty : Input) : List Chr :=
  tty.stored.drop tty.bufferStart

/-- What a key does to the terminal. -/
inductive Action
  | ignored
  /-- Control and L clear the screen of a canonical terminal. -/
  | clear
  | interrupt (chr : Chr)
  /-- A backspace takes the last character back. -/
  | erase
  | accept (chr : Chr)
  deriving DecidableEq

/-- Control takes a letter to its control character, unless Alt is down too. -/
def control (chr : Chr) (hasCtrl hasAlt : Bool) : Chr × Bool :=
  if hasCtrl && !hasAlt && controlOffset.toInt ≤ chr.toInt then
    (chr &&& ~~~(controlOffset ||| 0x20), false)
  else (chr, hasCtrl)

/-- The branch `tty_foreground_keyboard` takes. -/
def action (tty : Input) (key : Chr) (hasCtrl hasAlt : Bool) : Action :=
  let chr := (control key hasCtrl hasAlt).1
  if (control key hasCtrl hasAlt).2 || hasAlt then .ignored
  else if tty.termios.icanon && chr == 76 - controlOffset then .clear
  else if tty.termios.isig && chr != 0 && chr.toInt == tty.termios.vintr.toNat then
    .interrupt chr
  -- the line is committed
  else if tty.termios.icanon && tty.shouldRead then .ignored
  else if tty.termios.icanon && chr == backspace then
    if tty.bufferEnd ≠ 0 then .erase else .ignored
  else if tty.bufferEnd < bufferSize then .accept chr
  else .ignored

/-- What the keyboard does besides changing the buffer. -/
inductive Effect
  /-- `tty_foreground_puts` of a string. -/
  | puts (s : List Chr)
  /-- `tty_foreground_signal(SIGINT)` -/
  | interrupt
  | wakeUpProcess (t : TaskId)
  deriving DecidableEq

/-- The echo of one character; a zero ends the string at once. -/
def echo (tty : Input) (chr : Chr) : List Effect :=
  if tty.termios.echo then [.puts ([chr].takeWhile (· != 0))] else []

/-- `tty->buffer[tty->buffer_end++] = chr` -/
def push (tty : Input) (chr : Chr) : Input :=
  { tty with
    buffer := Function.update tty.buffer tty.bufferEnd chr
    bufferEnd := tty.bufferEnd + 1 }

/-- `tty->buffer_end--` -/
def pop (tty : Input) : Input :=
  { tty with bufferEnd := tty.bufferEnd - 1 }

/-- `tty_foreground_keyboard`, on the terminal in the foreground. -/
def keyboard (tty : Input) (key : Chr) (hasCtrl hasAlt : Bool) : Input × List Effect :=
  match tty.action key hasCtrl hasAlt with
  | .ignored => (tty, [])
  | .clear => (tty, [.puts clearScreen])
  | .interrupt chr =>
      (tty, (if tty.termios.echoctl then
        [.puts ([94, chr + controlOffset].takeWhile (· != 0))] else []) ++ [.interrupt])
  | .erase => (tty.pop, tty.echo backspace)
  | .accept chr =>
      (tty.push chr,
        tty.echo chr ++
          match tty.task with
          | some t =>
              if !tty.termios.icanon || chr == wakeupChar then [.wakeUpProcess t] else []
          | none => [])

end Input

/-- The statements of `tty_read` after its wait, each with the locals still needed. -/
inductive Statement
  /-- The second `signal_pending`, with the answer of the first. -/
  | signalPending (nbytes : Nat) (interrupted : Bool)
  /-- `nbytes > tty->buffer_end - tty->buffer_start` -/
  | compare (nbytes : Nat)
  /-- `nbytes = tty->buffer_end - tty->buffer_start` -/
  | clamp
  | memcpy (nbytes : Nat)
  /-- `tty->buffer_start += nbytes` -/
  | advance (nbytes : Nat) (bytes : List Chr)
  /-- `tty->buffer_start == tty->buffer_end` -/
  | test (bytes : List Chr)
  /-- `tty->buffer_start = tty->buffer_end = 0` -/
  | reset (bytes : List Chr)
  deriving DecidableEq

/-- How a read ends. -/
inductive Result
  /-- `-EBUSY` -/
  | busy
  /-- `-EINTR` -/
  | interrupted
  | returned (bytes : List Chr)
  deriving DecidableEq

/-- The bytes that a result hands to the reader. -/
def Result.data : Result → List Chr
  | .returned bytes => bytes
  | _ => []

/-- What was done to the line being typed. -/
inductive Edit
  | typed (chr : Chr)
  | erased
  deriving DecidableEq

/-- The edit a key makes, if any. -/
def Input.Action.edit : Input.Action → List Edit
  | .accept chr => [.typed chr]
  | .erase => [.erased]
  | _ => []

/-- The terminal, its readers, and a record of what was typed and what was read. -/
structure State where
  tty : Input
  foreground : Bool
  /-- The reads in the wait loop, each with its `nbytes`. -/
  waiting : TaskId → Option Nat
  /-- The read past its wait, and its next statement. -/
  reading : Option (TaskId × Statement)
  edits : List Edit
  results : List (TaskId × Result)

/-- What can happen to the terminal. -/
inductive Op
  | key (chr : Chr) (hasCtrl hasAlt : Bool)
  /-- The terminal comes to or leaves the foreground. -/
  | switchForeground (foreground : Bool)
  | read (t : TaskId) (nbytes : Nat)
  /-- A waiting reader looks again. -/
  | resume (t : TaskId) (signalPending : Bool)
  /-- The read past its wait takes its next statement. -/
  | next (signalPending : Bool)
  /-- `tty_poll` for input. -/
  | poll (t : TaskId)
  /-- `tty_poll_cb` -/
  | pollCb (t : TaskId)
  /-- `tty_ioctl` with `TCSETS`, `TCSETSW` or `TCSETSF`. -/
  | tcsets (termios : Termios)

namespace State

/-- The read past its wait returns. -/
def finish (s : State) (t : TaskId) (result : Result) : State :=
  { s with reading := none, results := s.results ++ [(t, result)] }

/-- A key on the terminal in the foreground. -/
def key (s : State) (chr : Chr) (hasCtrl hasAlt : Bool) : State :=
  if s.foreground then
    { s with
      tty := (s.tty.keyboard chr hasCtrl hasAlt).1
      edits := s.edits ++ (s.tty.action chr hasCtrl hasAlt).edit }
  else s

/-- `tty_read` up to its wait. -/
def read (s : State) (t : TaskId) (nbytes : Nat) : State :=
  if s.tty.task.isSome then { s with results := s.results ++ [(t, .busy)] }
  else
    { s with
      tty := { s.tty with task := some t }
      waiting := Function.update s.waiting t (some nbytes) }

/-- One more round of the wait loop, or the end of it. -/
def resume (s : State) (t : TaskId) (nbytes : Nat) (signalPending : Bool) : State :=
  if !s.tty.shouldRead && !signalPending then s
  else
    { s with
      tty := { s.tty with task := none }
      waiting := Function.update s.waiting t none
      reading := some (t, .signalPending nbytes signalPending) }

/-- One statement of `tty_read`. -/
def next (s : State) (t : TaskId) (signalPending : Bool) : Statement → Except Fault State
  | .signalPending nbytes interrupted =>
      .ok <| if interrupted || signalPending then s.finish t .interrupted
        else { s with reading := some (t, .compare nbytes) }
  | .compare nbytes =>
      .ok <| if s.tty.available < nbytes then { s with reading := some (t, .clamp) }
        else { s with reading := some (t, .memcpy nbytes) }
  | .clamp => .ok { s with reading := some (t, .memcpy s.tty.available) }
  | .memcpy nbytes =>
      if bufferSize < s.tty.bufferStart + nbytes then .error .outOfBounds
      else .ok { s with
        reading := some (t, .advance nbytes
          ((List.range nbytes).map fun i => s.tty.buffer (s.tty.bufferStart + i))) }
  | .advance nbytes bytes =>
      .ok { s with
        tty := { s.tty with bufferStart := (s.tty.bufferStart + nbytes) % 2 ^ 8 }
        reading := some (t, .test bytes) }
  | .test bytes =>
      .ok <| if s.tty.bufferStart = s.tty.bufferEnd then
          { s with reading := some (t, .reset bytes) }
        else s.finish t (.returned bytes)
  | .reset bytes =>
      .ok <| { s with
        tty := { s.tty with bufferStart := 0, bufferEnd := 0 } }.finish t (.returned bytes)

/-- `tty_poll` for input; the rest of it writes to the `poll_entry`. -/
def poll (s : State) (t : TaskId) : State :=
  { s with tty := { s.tty with task := some (s.tty.task.getD t) } }

/-- `tty_poll_cb` -/
def pollCb (s : State) (t : TaskId) : State :=
  if s.tty.task = some t then { s with tty := { s.tty with task := none } } else s

end State

/-- The terminal under any interleaving of the keyboard and the tasks. -/
def inputMachine : Machine State Op Fault where
  enabled
    | .key _ _ _, _ => true
    | .switchForeground _, _ => true
    | .read t nbytes, s => s.reading.isNone && (s.waiting t).isNone && nbytes < 2 ^ 32
    | .resume t _, s => s.reading.isNone && (s.waiting t).isSome
    | .next _, s => s.reading.isSome
    | .poll t, s => s.reading.isNone && (s.waiting t).isNone
    | .pollCb t, s => s.reading.isNone && (s.waiting t).isNone
    | .tcsets _, s => s.reading.isNone
  exec
    | .key chr hasCtrl hasAlt, s => .ok (s.key chr hasCtrl hasAlt)
    | .switchForeground foreground, s => .ok { s with foreground := foreground }
    | .read t nbytes, s => .ok (s.read t nbytes)
    | .resume t signalPending, s =>
        match s.waiting t with
        | some nbytes => .ok (s.resume t nbytes signalPending)
        | none => .ok s
    | .next signalPending, s =>
        match s.reading with
        | some (t, statement) => s.next t signalPending statement
        | none => .ok s
    | .poll t, s => .ok (s.poll t)
    | .pollCb t, s => .ok (s.pollCb t)
    | .tcsets termios, s => .ok { s with tty := { s.tty with termios := termios } }

/-- A terminal as `tty_get` makes it, up to its settings; nobody reads it yet. -/
def Fresh (s : State) : Prop :=
  s.tty.task = none ∧ s.tty.bufferStart = 0 ∧ s.tty.bufferEnd = 0 ∧
    (∀ t, s.waiting t = none) ∧ s.reading = none ∧ s.edits = [] ∧ s.results = []

/-! ### What a key can do -/

section Keys

variable {tty : Input} {key chr : Chr} {hasCtrl hasAlt : Bool}

theorem shouldRead_raw (hraw : tty.termios.icanon = false) :
    tty.shouldRead = true ↔ tty.bufferEnd ≠ 0 := by
  simp [Input.shouldRead, hraw]

/-- The keys that change nothing are those that neither type nor erase. -/
theorem keyboard_of_edit_nil (h : (tty.action key hasCtrl hasAlt).edit = []) :
    (tty.keyboard key hasCtrl hasAlt).1 = tty := by
  simp only [Input.keyboard]
  split
  next => rfl
  next => rfl
  next => rfl
  next ha => simp [ha, Input.Action.edit] at h
  next ha => simp [ha, Input.Action.edit] at h

/-- A character is taken back on a canonical terminal only, from a line that is not
committed. -/
theorem action_erase (h : tty.action key hasCtrl hasAlt = .erase) :
    tty.termios.icanon = true ∧ tty.shouldRead = false ∧ tty.bufferEnd ≠ 0 := by
  simp only [Input.action] at h
  split_ifs at h with h1 h2 h3 h4 h5 h6
  simp only [Bool.and_eq_true, not_and, Bool.not_eq_true] at h4 h5
  exact ⟨h5.1, h4 h5.1, h6⟩

/-- A character is stored where there is room, and never on a committed line. -/
theorem action_accept (h : tty.action key hasCtrl hasAlt = .accept chr) :
    tty.bufferEnd < bufferSize ∧ (tty.termios.icanon = true → tty.shouldRead = false) := by
  simp only [Input.action] at h
  split_ifs at h with h1 h2 h3 h4 h5 h6 h7
  simp only [Bool.and_eq_true, not_and, Bool.not_eq_true] at h4
  exact ⟨h7, h4⟩

/-- The three things a key does to the buffer. -/
theorem keyboard_cases (tty : Input) (key : Chr) (hasCtrl hasAlt : Bool) :
    ((tty.action key hasCtrl hasAlt).edit = [] ∧
      (tty.keyboard key hasCtrl hasAlt).1 = tty) ∨
    (tty.action key hasCtrl hasAlt = .erase ∧ tty.termios.icanon = true ∧
      tty.shouldRead = false ∧ tty.bufferEnd ≠ 0 ∧
      (tty.keyboard key hasCtrl hasAlt).1 = tty.pop) ∨
    ∃ chr, tty.action key hasCtrl hasAlt = .accept chr ∧ tty.bufferEnd < bufferSize ∧
      (tty.termios.icanon = true → tty.shouldRead = false) ∧
      (tty.keyboard key hasCtrl hasAlt).1 = tty.push chr := by
  cases ha : tty.action key hasCtrl hasAlt with
  | erase =>
      obtain ⟨hcanon, hshould, hend⟩ := action_erase ha
      exact .inr (.inl ⟨rfl, hcanon, hshould, hend, by simp only [Input.keyboard, ha]⟩)
  | accept chr =>
      obtain ⟨hroom, hline⟩ := action_accept ha
      exact .inr (.inr ⟨chr, rfl, hroom, hline, by simp only [Input.keyboard, ha]⟩)
  | ignored | clear | interrupt =>
      refine .inl ⟨rfl, keyboard_of_edit_nil ?_⟩
      rw [ha]
      rfl

/-- While there is something to read, no key takes anything back. -/
theorem keyboard_shouldRead (h : tty.shouldRead = true) :
    (tty.keyboard key hasCtrl hasAlt).1 = tty ∨
      tty.termios.icanon = false ∧ ∃ chr,
        tty.action key hasCtrl hasAlt = .accept chr ∧ tty.bufferEnd < bufferSize ∧
        (tty.keyboard key hasCtrl hasAlt).1 = tty.push chr := by
  rcases keyboard_cases tty key hasCtrl hasAlt with
    ⟨-, hsame⟩ | ⟨-, -, hnot, -⟩ | ⟨chr, hacc, hroom, hline, hkey⟩
  · exact .inl hsame
  · rw [h] at hnot
    cases hnot
  · refine .inr ⟨?_, chr, hacc, hroom, hkey⟩
    cases hcanon : tty.termios.icanon with
    | false => rfl
    | true =>
        rw [h] at hline
        cases hline hcanon

end Keys

end Tty
end JkxyKernel
