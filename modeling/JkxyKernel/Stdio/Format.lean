import Mathlib.Data.Nat.Digits.Defs
import Mathlib.Data.List.Basic

/-!
# Format strings

How `do_printf` reads a format string, and the text that it stands for.  A directive begins with
`%` and has flags, a width, a precision, a length and a conversion specifier, each of which may be
missing; numbers and paddings are computed with 32 bits.

The text is a function of the format string and of the arguments alone.  It says nothing about
where it is printed to.
-/

namespace JkxyKernel
namespace Stdio

def nul : Char := Char.ofNat 0

/-- A string in memory, up to the `NUL` behind it. -/
structure CString where
  chars : List Char
  nul_notMem : nul ∉ chars

/-- The arguments: the words of a `va_list`, and the strings that words point to. -/
structure Args where
  word : Nat → BitVec 32
  string : BitVec 32 → CString

/-! ### Directives -/

structure Flags where
  alternate : Bool := false
  zeroPad : Bool := false
  leftAdjust : Bool := false
  space : Bool := false
  alwaysSign : Bool := false
  deriving DecidableEq, Repr

/-- The flags, and the rest of the format.  What stands behind the loop is skipped by the `goto`
in it, and is only come to at the end of the format. -/
def parseFlags : Flags → List Char → Flags × List Char
  | flags, [] =>
      ({ flags with
          zeroPad := flags.zeroPad && !flags.leftAdjust
          space := flags.space && !flags.alwaysSign }, [])
  | flags, c :: rest =>
      if c = '#' then parseFlags { flags with alternate := true } rest
      else if c = '0' then parseFlags { flags with zeroPad := true } rest
      else if c = '-' then parseFlags { flags with leftAdjust := true } rest
      else if c = ' ' then parseFlags { flags with space := true } rest
      else if c = '+' then parseFlags { flags with alwaysSign := true } rest
      else (flags, c :: rest)

/-- The loop of `atoi`, from the digits before. -/
def atoi : BitVec 32 → List Char → BitVec 32 × List Char
  | ret, [] => (ret, [])
  | ret, c :: rest =>
      if c < '0' ∨ '9' < c then (ret, c :: rest)
      else atoi (ret * 10 + BitVec.ofNat 32 (c.toNat - '0'.toNat)) rest

/-- The sizes of an argument. -/
inductive Size
  /-- `hh` -/
  | char
  /-- `h` -/
  | short
  | int
  deriving DecidableEq, Repr

/-- The length modifiers; those but `h` are skipped. -/
def parseLength : List Char → Size × List Char
  | [] => (.int, [])
  | c :: rest =>
      if c = 'h' ∧ rest.head? = some 'h' then (.char, rest.tail)
      else if c = 'h' then (.short, rest)
      else if c = 'l' ∨ c = 'j' ∨ c = 'z' ∨ c = 't' then (.int, rest)
      else (.int, c :: rest)

/-- What stands between `%` and the conversion specifier. -/
structure Directive where
  alternate : Bool
  leftAdjust : Bool
  space : Bool
  alwaysSign : Bool
  width : BitVec 32
  precisionGiven : Bool
  precision : BitVec 32
  size : Size
  deriving DecidableEq, Repr

/-- The precision, if there is one: its digits, and the rest of the format. -/
def parsePrecision : List Char → Option (BitVec 32 × List Char)
  | [] => none
  | c :: rest => if c = '.' then some (atoi 0 rest) else none

/-- A directive behind its `%`, and the rest of the format, which begins with the conversion
specifier. -/
def parseDirective (format : List Char) : Directive × List Char :=
  let (flags, format) := parseFlags {} format
  let (width, format) := atoi 0 format
  let d : Directive :=
    { alternate := flags.alternate, leftAdjust := flags.leftAdjust, space := flags.space,
      alwaysSign := flags.alwaysSign, width := width, precisionGiven := false, precision := 0,
      size := .int }
  let (d, format) :=
    match parsePrecision format with
    | some (precision, format) =>
        ({ d with precisionGiven := true, precision := precision }, format)
    | none =>
        if flags.zeroPad then
          ({ d with width := 0, precisionGiven := true, precision := width }, format)
        else (d, format)
  let (size, format) := parseLength format
  ({ d with size := size }, format)

theorem length_parseFlags_le (flags : Flags) (format : List Char) :
    (parseFlags flags format).2.length ≤ format.length := by
  induction format generalizing flags with
  | nil => exact Nat.le_refl 0
  | cons c rest ih =>
      rw [parseFlags]
      split_ifs
      · exact Nat.le_succ_of_le (ih _)
      · exact Nat.le_succ_of_le (ih _)
      · exact Nat.le_succ_of_le (ih _)
      · exact Nat.le_succ_of_le (ih _)
      · exact Nat.le_succ_of_le (ih _)
      · exact Nat.le_refl _

theorem length_atoi_le (ret : BitVec 32) (format : List Char) :
    (atoi ret format).2.length ≤ format.length := by
  induction format generalizing ret with
  | nil => exact Nat.le_refl 0
  | cons c rest ih =>
      rw [atoi]
      split
      next => exact Nat.le_refl _
      next => exact Nat.le_succ_of_le (ih _)

theorem length_parseLength_le (format : List Char) :
    (parseLength format).2.length ≤ format.length := by
  cases format with
  | nil => exact Nat.le_refl 0
  | cons c rest =>
      rw [parseLength]
      split_ifs
      · rw [List.length_tail, List.length_cons]
        omega
      · exact Nat.le_succ _
      · exact Nat.le_succ _
      · exact Nat.le_refl _

theorem length_parsePrecision_le {format rest : List Char} {precision : BitVec 32}
    (h : parsePrecision format = some (precision, rest)) : rest.length ≤ format.length := by
  cases format with
  | nil => cases h
  | cons c tail =>
      rw [parsePrecision] at h
      split at h
      next =>
        have hlength := length_atoi_le 0 tail
        rw [Option.some.inj h] at hlength
        exact Nat.le_succ_of_le hlength
      next => cases h

/-- A directive is read from the front of the format. -/
theorem length_parseDirective_le (format : List Char) :
    (parseDirective format).2.length ≤ format.length := by
  have hflags := length_parseFlags_le {} format
  have hwidth := length_atoi_le 0 (parseFlags {} format).2
  simp only [parseDirective]
  split
  next hprecision =>
    have hrest := length_parsePrecision_le hprecision
    exact (length_parseLength_le _).trans (hrest.trans (hwidth.trans hflags))
  next =>
    split_ifs
    · exact (length_parseLength_le _).trans (hwidth.trans hflags)
    · exact (length_parseLength_le _).trans (hwidth.trans hflags)

/-! ### Numbers -/

/-- `lookup` of `itoa` -/
def lookup (i : Nat) : Char := "0123456789ABCDEFGHIJKLMNOPQRSTUVWXYZ".toList.getD i nul

/-- `itoa` -/
def itoa (value : BitVec 32) (radix : Nat) : List Char :=
  if value = 0 then ['0'] else ((Nat.digits radix value.toNat).map lookup).reverse

/-- The loop for `x` and `p` over the digits. -/
def toLower (c : Char) : Char :=
  if 'A' ≤ c ∧ c ≤ 'F' then Char.ofNat (c.toNat - 'A'.toNat + 'a'.toNat) else c

/-- A padding, an `int32_t`, which is none where it is negative. -/
def padding (n : BitVec 32) : Nat := if n.toInt < 0 then 0 else n.toNat

/-- `va_arg` of a signed number. -/
def signedArg (size : Size) (word : BitVec 32) : BitVec 32 :=
  match size with
  | .char => (word.setWidth 8).signExtend 32
  | .short => (word.setWidth 16).signExtend 32
  | .int => word

/-- `va_arg` of an unsigned number. -/
def unsignedArg (size : Size) (word : BitVec 32) : BitVec 32 :=
  match size with
  | .char => (word.setWidth 8).setWidth 32
  | .short => (word.setWidth 16).setWidth 32
  | .int => word

/-- The parts of a number as it is printed. -/
structure Number where
  leftAdjust : Bool
  spacePad : Nat
  /-- The sign, or `prefix`. -/
  sign : List Char
  precisionPad : Nat
  convBuf : List Char
  deriving DecidableEq, Repr

namespace Directive

variable (d : Directive)

/-- The paddings of a number. -/
def layout (precision value : BitVec 32) (sign convBuf : List Char) : Number :=
  let convBuf := if value = 0 ∧ precision = 0 then [] else convBuf
  let numLen := BitVec.ofNat 32 convBuf.length
  let precisionPad := padding (precision - numLen)
  let spacePad := padding
    (d.width - numLen - BitVec.ofNat 32 precisionPad - BitVec.ofNat 32 sign.length)
  ⟨d.leftAdjust, spacePad, sign, precisionPad, convBuf⟩

/-- The specifiers `d` and `i`. -/
def signed (word : BitVec 32) : Number :=
  let value := signedArg d.size word
  let valueAbs := if value.toInt < 0 then -value else value
  let sign :=
    if value.toInt < 0 then ['-']
    else if d.alwaysSign then ['+']
    else if d.space then [' ']
    else []
  d.layout (if d.precisionGiven then d.precision else 1) value sign (itoa valueAbs 10)

/-- The specifiers `o`, `u`, `p`, `x` and `X`. -/
def unsigned (spec : Char) (word : BitVec 32) : Number :=
  let alternate := d.alternate || spec = 'p'
  let value := unsignedArg (if spec = 'p' then .int else d.size) word
  let sign := if alternate ∧ spec = 'o' then ['0'] else []
  let precision :=
    if alternate ∧ (spec = 'p' ∨ spec = 'x' ∨ spec = 'X') then 8
    else if d.precisionGiven then d.precision
    else 1
  let convBuf := itoa value (if spec = 'o' then 8 else if spec = 'u' then 10 else 16)
  d.layout precision value sign
    (if spec = 'x' ∨ spec = 'p' then convBuf.map toLower else convBuf)

end Directive

/-! ### Conversions -/

/-- What a conversion prints. -/
inductive Conversion
  | number (n : Number)
  | char (c : Char)
  /-- A whole string. -/
  | string (leftAdjust : Bool) (spacePad : Nat) (value : List Char)
  /-- The front of a string, which is printed character by character. -/
  | front (leftAdjust : Bool) (spacePad : Nat) (value : List Char)
  | percent
  /-- Of a specifier that is not known. -/
  | nothing
  deriving DecidableEq, Repr

/-- The specifier `s`. -/
def Directive.string (d : Directive) (value : List Char) : Conversion :=
  let len := BitVec.ofNat 32 value.length
  let numLen := if d.precision < len ∧ d.precisionGiven then d.precision else len
  let spacePad := padding (d.width - numLen)
  if !d.precisionGiven ∨ len ≤ d.precision then .string d.leftAdjust spacePad value
  else .front d.leftAdjust spacePad (value.take d.precision.toNat)

/-- The conversion, and the argument behind it. -/
def Directive.convert (d : Directive) (args : Args) (spec : Char) (sp : Nat) : Conversion × Nat :=
  if spec = 'd' ∨ spec = 'i' then (.number (d.signed (args.word sp)), sp + 1)
  else if spec = 'o' ∨ spec = 'u' ∨ spec = 'p' ∨ spec = 'x' ∨ spec = 'X' then
    (.number (d.unsigned spec (args.word sp)), sp + 1)
  else if spec = 'c' then (.char (Char.ofNat ((args.word sp).toNat % 256)), sp + 1)
  else if spec = 's' then (d.string (args.string (args.word sp)).chars, sp + 1)
  else if spec = '%' then (.percent, sp)
  else (.nothing, sp)

/-! ### The text -/

/-- A text with its padding. -/
def padded (leftAdjust : Bool) (spacePad : Nat) (text : List Char) : List Char :=
  (if leftAdjust then [] else List.replicate spacePad ' ') ++ text ++
    if leftAdjust then List.replicate spacePad ' ' else []

/-- A character is the string that it is the beginning of: `NUL` is the empty one. -/
def charText (c : Char) : List Char := if c = nul then [] else [c]

def Number.text (n : Number) : List Char :=
  padded n.leftAdjust n.spacePad (n.sign ++ List.replicate n.precisionPad '0' ++ n.convBuf)

/-- The text that a conversion stands for. -/
def Conversion.text : Conversion → List Char
  | .number n => n.text
  | .char c => charText c
  | .string leftAdjust spacePad value => padded leftAdjust spacePad value
  | .front leftAdjust spacePad value => padded leftAdjust spacePad value
  | .percent => ['%']
  | .nothing => []

/-- What a format string consists of. -/
inductive Item
  | char (c : Char)
  | directive (d : Directive) (spec : Char)
  deriving DecidableEq, Repr

/-- The items of a format string, and whether it ends with one: not with a directive that has no
conversion specifier. -/
def items : List Char → List Item × Bool
  | [] => ([], true)
  | c :: rest =>
      if c ≠ '%' then
        let (is, complete) := items rest
        (.char c :: is, complete)
      else
        match _h : parseDirective rest with
        | (_, []) => ([], false)
        | (d, spec :: tail) =>
            let (is, complete) := items tail
            (.directive d spec :: is, complete)
termination_by format => format.length
decreasing_by
  · exact Nat.lt_succ_self _
  · have hle := length_parseDirective_le rest
    rw [_h, List.length_cons] at hle
    rw [List.length_cons]
    omega

/-- The text of items, which take their arguments from `sp` on. -/
def textFrom (args : Args) : Nat → List Item → List Char
  | _, [] => []
  | sp, .char c :: is => c :: textFrom args sp is
  | sp, .directive d spec :: is =>
      (d.convert args spec sp).1.text ++ textFrom args (d.convert args spec sp).2 is

/-- The full expansion of a format string. -/
def expansion (args : Args) (format : CString) : List Char :=
  textFrom args 0 (items format.chars).1

/-- The format string does not end in an incomplete conversion. -/
def Complete (format : CString) : Prop := (items format.chars).2 = true

end Stdio
end JkxyKernel
