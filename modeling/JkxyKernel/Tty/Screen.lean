import JkxyKernel.Tty.Input

/-!
# Terminal output

The output side of `char/tty.c`: `raw_tty_write` with its escape sequences, and
`tty_fixscroll`, over a memory of bytes in which `video_mem` is an address.  Nothing
checks an index into `video_mem`, so the memory does not end where the screen does; the
indices that are used are written down.

The cursor is two `uint16_t`, which the escape sequences set to anything, and which are
brought back to the screen only before a character is put there.  `raw_tty_write` runs
with interrupts disabled, one round of its loop for each byte.
-/

namespace JkxyKernel
namespace Tty

/-- The code of a character constant. -/
def ascii (c : Char) : Chr := BitVec.ofNat 8 c.toNat

/-- `'\33'` -/
def esc : Chr := 27

/-- `NUM_COLS` -/
def numCols : Nat := 80

/-- `NUM_ROWS` -/
def numRows : Nat := 25

/-- `VGA_CHARS` -/
def vgaChars : Nat := numRows * numCols

/-- `VGA_BUF_SIZE` -/
def vgaBufSize : Nat := vgaChars * 2

/-- `WHITE_ON_BLACK` -/
def whiteOnBlack : BitVec 8 := 0x07

/-- `BLACK_IN_WHITE` -/
def blackInWhite : BitVec 8 := 0x70

/-- `SLOW_FACTOR_X` -/
def slowFactorX : Int := 16

/-- `SLOW_FACTOR_Y` -/
def slowFactorY : Int := 32

/-- `COLOR_SWAP` -/
def colorSwap (val : BitVec 8) : BitVec 8 :=
  ((val &&& 0xF0) >>> 4) ||| ((val &&& 0x0F) <<< 4)

/-- `ANSI_TO_VGA` -/
def ansiToVga (val : BitVec 8) : BitVec 8 :=
  if val = 0 then 0
  else if val = 1 then 4
  else if val = 2 then 2
  else if val = 3 then 6
  else if val = 4 then 1
  else if val = 5 then 5
  else if val = 6 then 3
  else if val = 7 then 7
  else 0

/-- The memory behind `video_mem`, and the indices into it that were used. -/
structure Video where
  /-- The address `video_mem`. -/
  base : Nat
  mem : Nat → BitVec 8
  used : List Nat

namespace Video

/-- `video_mem[i] = val` -/
def store (v : Video) (i : Nat) (val : BitVec 8) : Video :=
  { v with mem := Function.update v.mem (v.base + i) val, used := i :: v.used }

/-- `video_mem[i]` -/
def load (v : Video) (i : Nat) : BitVec 8 × Video :=
  (v.mem (v.base + i), { v with used := i :: v.used })

end Video

/-- The kernel uses an address that is `NULL`, or `NULL` and a few bytes. -/
inductive NullFault
  | null
  deriving DecidableEq, Repr

/-- `struct ansi_decode` -/
structure AnsiDecode where
  bufferEnd : Nat
  buffer : Nat → Chr

/-- Is it `'0'` to `'9'`? -/
def isDigit (c : Chr) : Bool :=
  decide ((ascii '0').toInt ≤ c.toInt ∧ c.toInt ≤ (ascii '9').toInt)

/-- The loop of `atoi`: the number, and the text from the first character on that is no
digit. -/
def atoiLoop (ret : BitVec 32) : List Chr → BitVec 32 × List Chr
  | [] => (ret, [])
  | c :: rest =>
      if isDigit c then atoiLoop (ret * 10 + (c - ascii '0').setWidth 32) rest
      else (ret, c :: rest)

/-- `atoi` -/
def atoi (nptr : List Chr) : BitVec 32 × List Chr := atoiLoop 0 nptr

namespace AnsiDecode

/-- `buffer[buffer_end++] = c` -/
def push (dec : AnsiDecode) (c : Chr) : AnsiDecode :=
  { buffer := Function.update dec.buffer dec.bufferEnd c, bufferEnd := dec.bufferEnd + 1 }

/-- `decode_ansi_type`; it looks at the third character even where that is an old one. -/
def type (dec : AnsiDecode) : Chr :=
  let c := dec.buffer 1
  if dec.bufferEnd = 1 then 0
  else if c = ascii '[' ∧ dec.buffer 2 = ascii '?' then ascii '?'
  else if c = ascii '[' ∨ c = ascii '(' ∨ c = ascii ')' ∨ c = ascii '#' then c
  else 0

/-- The string that `strndup` copies. -/
def text (dec : AnsiDecode) : List Chr :=
  ((List.range dec.bufferEnd).map dec.buffer).takeWhile (· != 0)

/-- How many characters `decode_ansi` skips. -/
def skipped (dec : AnsiDecode) : Nat :=
  if dec.type = ascii '[' ∨ dec.type = ascii '(' ∨ dec.type = ascii ')' ∨
      dec.type = ascii '#' then 2
  else if dec.type = ascii '?' then 3
  else 0

/-- `decode_ansi`: what is stored through `arg1`, which is never `NULL` here, and through
`arg2`.  The string is copied to memory that is `found`, or not. -/
def decode (dec : AnsiDecode) (hasArg2 found : Bool) :
    Except NullFault (Option (BitVec 8) × Option (BitVec 8)) :=
  if !found then .error .null
  else
    let buf := dec.text.drop dec.skipped
    let (arg, after) := atoi buf
    if after.length = buf.length then .ok (none, none)
    else
      match after with
      | c :: buf' =>
          if c = ascii ';' then
            let (arg', after') := atoi buf'
            if after'.length = buf'.length then .ok (some (arg.setWidth 8), none)
            else if hasArg2 then .ok (some (arg.setWidth 8), some (arg'.setWidth 8))
            else .error .null
          else .ok (some (arg.setWidth 8), none)
      | [] => .ok (some (arg.setWidth 8), none)

end AnsiDecode

/-- The fields of `struct tty` that output goes through, apart from `video_mem`. -/
structure Output where
  termios : Termios
  ansiDec : AnsiDecode
  cursorX : BitVec 16
  cursorY : BitVec 16
  color : BitVec 8
  mouseCursorShown : Bool
  mouseCursorX : BitVec 16
  mouseCursorY : BitVec 16

namespace Output

/-- `IS_MOUSE_POS` -/
def isMousePos (tty : Output) (x y : Nat) : Bool :=
  tty.mouseCursorShown &&
    ((x : Int) == tty.mouseCursorX.toInt.tdiv slowFactorX) &&
    ((y : Int) == tty.mouseCursorY.toInt.tdiv slowFactorY)

/-- `WHITE_ON_BLACK_M` -/
def whiteOnBlackM (tty : Output) (x y : Nat) : BitVec 8 :=
  if tty.isMousePos x y then blackInWhite else whiteOnBlack

/-- `NUM_COLS * tty->cursor_y + tty->cursor_x` -/
def curpos (tty : Output) : Nat :=
  numCols * tty.cursorY.toNat + tty.cursorX.toNat

/-- A character on the screen is made a space. -/
def blankCell (tty : Output) (v : Video) (i : Nat) : Video :=
  (v.store (i * 2) (ascii ' ')).store (i * 2 + 1)
    (tty.whiteOnBlackM (i % numCols) (i / numCols))

/-- The loops that make the characters from `start` to `stop` spaces. -/
def blank (tty : Output) (v : Video) (start stop : Nat) : Video :=
  (List.range' start (stop - start)).foldl tty.blankCell v

/-- A character is replaced by the one below it. -/
def scrollCell (tty : Output) (v : Video) (i : Nat) : Video :=
  let (c, v) := v.load ((i + numCols) * 2)
  let v := v.store (i * 2) c
  let (attrib, v) := v.load ((i + numCols) * 2 + 1)
  v.store (i * 2 + 1)
    (if tty.isMousePos (i % numCols) (i / numCols) ||
        tty.isMousePos (i % numCols) (i / numCols + 1) then colorSwap attrib
    else attrib)

/-- The screen goes up by one line. -/
def scrollUp (tty : Output) (v : Video) : Video :=
  tty.blank ((List.range ((numRows - 1) * numCols)).foldl tty.scrollCell v)
    ((numRows - 1) * numCols) (numRows * numCols)

/-- The first loop of `tty_fixscroll`, on the cursor. -/
def wrapColumns : Nat → BitVec 16 → BitVec 16 → BitVec 16 × BitVec 16
  | 0, x, y => (x, y)
  | rounds + 1, x, y =>
      if numCols ≤ x.toNat then wrapColumns rounds (x - 80) (y + 1) else (x, y)

/-- The second loop of `tty_fixscroll`. -/
def scrollRows : Nat → Output → Video → Output × Video
  | 0, tty, v => (tty, v)
  | rounds + 1, tty, v =>
      if numRows ≤ tty.cursorY.toNat then
        scrollRows rounds { tty with cursorY := tty.cursorY - 1 } (tty.scrollUp v)
      else (tty, v)

/-- `tty_fixscroll` -/
def fixscroll (tty : Output) (v : Video) : Output × Video :=
  let (x, y) := wrapColumns tty.cursorX.toNat tty.cursorX tty.cursorY
  scrollRows y.toNat { tty with cursorX := x, cursorY := y } v

/-- What an argument of the sequence `m` does to the color. -/
def recolor (color arg : BitVec 8) : BitVec 8 :=
  if 30 ≤ arg ∧ arg ≤ 37 then (color &&& 0xF8) ||| ansiToVga (arg - 30)
  else if 40 ≤ arg ∧ arg ≤ 47 then (color &&& 0x8F) ||| (ansiToVga (arg - 40) <<< 4)
  else if arg = 0 then whiteOnBlack
  else if arg = 1 then color ||| 0x08
  else color

/-- The sequence `J`: the display is erased from the cursor on, up to the cursor, or as a
whole. -/
def eraseDisplay (tty : Output) (v : Video) (arg : BitVec 8) : Output × Video :=
  if arg = 0 then (tty, tty.blank v tty.curpos vgaChars)
  else if arg = 1 then (tty, tty.blank v 0 tty.curpos)
  else if arg = 2 then
    let tty := { tty with cursorX := 0, cursorY := 0 }
    (tty, tty.blank v 0 vgaChars)
  else (tty, v)

/-- The letter that ends an escape sequence; only sequences of type `[` do something. -/
def command (tty : Output) (v : Video) (c : Chr) (found : Bool) :
    Except NullFault (Output × Video) :=
  if tty.ansiDec.type ≠ ascii '[' then .ok (tty, v)
  else if c = ascii 'H' ∨ c = ascii 'f' then do
    let (arg1, arg2) ← tty.ansiDec.decode true found
    return ({ tty with cursorY := (arg1.getD 0).setWidth 16,
                       cursorX := (arg2.getD 0).setWidth 16 }, v)
  else if c = ascii 'F' then do
    let (arg1, arg2) ← tty.ansiDec.decode true found
    return ({ tty with cursorY := (arg1.getD 24).setWidth 16,
                       cursorX := (arg2.getD 79).setWidth 16 }, v)
  else if c = ascii 'A' then do
    let (arg1, _) ← tty.ansiDec.decode false found
    return ({ tty with cursorY := tty.cursorY - (arg1.getD 1).setWidth 16 }, v)
  else if c = ascii 'B' then do
    let (arg1, _) ← tty.ansiDec.decode false found
    return ({ tty with cursorY := tty.cursorY + (arg1.getD 1).setWidth 16 }, v)
  else if c = ascii 'C' then do
    let (arg1, _) ← tty.ansiDec.decode false found
    return ({ tty with cursorX := tty.cursorX + (arg1.getD 1).setWidth 16 }, v)
  else if c = ascii 'D' then do
    let (arg1, _) ← tty.ansiDec.decode false found
    return ({ tty with cursorX := tty.cursorX - (arg1.getD 1).setWidth 16 }, v)
  else if c = ascii 'J' then do
    let (arg1, _) ← tty.ansiDec.decode false found
    return tty.eraseDisplay v (arg1.getD 0)
  else if c = ascii 'm' then do
    let (arg1, arg2) ← tty.ansiDec.decode true found
    return ({ tty with color := recolor (recolor tty.color (arg1.getD 0)) (arg2.getD 255) }, v)
  else .ok (tty, v)

/-- Does the character go on with an escape sequence? -/
def continues (c : Chr) : Bool :=
  c == ascii '[' || c == ascii '?' || c == ascii '(' || c == ascii ')' || c == ascii ';' ||
    c == ascii '#' || isDigit c

/-- A byte inside an escape sequence. -/
def escaped (tty : Output) (v : Video) (c : Chr) (found : Bool) :
    Except NullFault (Output × Video) :=
  if c = esc then
    .ok ({ tty with ansiDec := AnsiDecode.push { tty.ansiDec with bufferEnd := 0 } c }, v)
  else if continues c then
    -- the last of the 16 characters stays zero
    if tty.ansiDec.bufferEnd < 15 then .ok ({ tty with ansiDec := tty.ansiDec.push c }, v)
    else .ok (tty, v)
  else do
    let (tty, v) ← tty.command v c found
    return ({ tty with ansiDec := { tty.ansiDec with bufferEnd := 0 } }, v)

/-- The cursor goes back by one character, but not above the screen. -/
def moveBack (tty : Output) : Output :=
  if tty.cursorX = 0 then
    if tty.cursorY ≠ 0 then { tty with cursorY := tty.cursorY - 1, cursorX := 79 } else tty
  else { tty with cursorX := tty.cursorX - 1 }

/-- The character `cc[VERASE]`. -/
def eraseBack (tty : Output) (v : Video) : Output × Video :=
  let (tty, v) := tty.fixscroll v
  let tty := tty.moveBack
  if tty.termios.echoe && tty.termios.icanon then
    (tty, (v.store (tty.curpos * 2) (ascii ' ')).store (tty.curpos * 2 + 1)
      (tty.whiteOnBlackM tty.cursorX.toNat tty.cursorY.toNat))
  else (tty, v)

/-- A character is put on the screen. -/
def print (tty : Output) (v : Video) (c : Chr) : Output × Video :=
  let (tty, v) := tty.fixscroll v
  ({ tty with cursorX := tty.cursorX + 1 },
    (v.store (tty.curpos * 2) c).store (tty.curpos * 2 + 1) tty.color)

/-- A call of `raw_tty_write` with one byte. -/
abbrev Write := Output → Video → Chr → Bool → Except NullFault (Output × Video)

/-- A byte outside an escape sequence; `nested` is the call of `raw_tty_write`. -/
def plain (nested : Write) : Write := fun tty v c found =>
  if c = 13 then .ok ({ tty with cursorX := 0 }, v)
  else if c = 10 then do
    let (tty, v) ← if tty.termios.opost then nested tty v 13 found else .ok (tty, v)
    return { tty with cursorY := tty.cursorY + 1 }.fixscroll v
  else if c.toInt = tty.termios.verase.toNat then .ok (tty.eraseBack v)
  else if c = 9 then nested tty v (ascii ' ') found
  else if c = 7 then .ok (tty, v)
  else if c = esc then .ok ({ tty with ansiDec := tty.ansiDec.push c }, v)
  else .ok (tty.print v c)

/-- One round of the loop of `raw_tty_write`. -/
def round (nested : Write) : Write := fun tty v c found =>
  if tty.ansiDec.bufferEnd ≠ 0 then tty.escaped v c found else plain nested tty v c found

/-- `raw_tty_write` of one byte.  The bytes of its nested calls, a carriage return and a
space, lead to no further call. -/
def writeByte : Write := round (round fun tty v _ _ => .ok (tty, v))

/-- `raw_tty_write`; each byte comes with whether `kmalloc` finds memory for it. -/
def rawTtyWrite (tty : Output) (v : Video) :
    List (Chr × Bool) → Except NullFault (Output × Video)
  | [] => .ok (tty, v)
  | (c, found) :: rest => do
      let (tty, v) ← tty.writeByte v c found
      rawTtyWrite tty v rest

/-- `tty_foreground_mouse` inverts the colors under the mouse cursor. -/
def swapMouseCell (tty : Output) (v : Video) : Video :=
  let i := ((numCols * tty.mouseCursorY.toInt.tdiv slowFactorY +
    tty.mouseCursorX.toInt.tdiv slowFactorX) * 2 + 1).toNat
  let (attrib, v) := v.load i
  v.store i (colorSwap attrib)

/-- A coordinate of the mouse is kept between zero and a bound. -/
def clamp (x : BitVec 16) (bound : Int) : BitVec 16 :=
  let x := if x.toInt < 0 then 0 else x
  if bound < x.toInt then BitVec.ofInt 16 bound else x

/-- The new place of the mouse. -/
def moveMouse (tty : Output) (dx dy : BitVec 16) : Output :=
  { tty with
    mouseCursorShown := true
    mouseCursorX := clamp (tty.mouseCursorX + dx) (numCols * slowFactorX - 1)
    mouseCursorY := clamp (tty.mouseCursorY - dy) (numRows * slowFactorY - 1) }

/-- `tty_foreground_mouse`, on the terminal in the foreground. -/
def mouse (tty : Output) (v : Video) (dx dy : BitVec 16) : Output × Video :=
  let v := if tty.mouseCursorShown then tty.swapMouseCell v else v
  let tty := tty.moveMouse dx dy
  (tty, tty.swapMouseCell v)

end Output
end Tty
end JkxyKernel
