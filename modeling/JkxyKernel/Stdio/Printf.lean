import JkxyKernel.Lib.Machine
import JkxyKernel.Stdio.Format

/-!
# Printing to a buffer

`vsnprintf` prints to a buffer that is not the null pointer.  `do_printf` goes through the format
string and hands out the text piece by piece to `printf_emit`, which writes as long as there is
room in the buffer, and counts what it has printed.

Where there is no room left, the loop of `printf_emit` does not go on to the next character, and
never ends.  And behind a conversion that is not complete, `do_printf` goes on behind the `NUL` of
the format string.  With these two exceptions, and a length that does not fit a return value, the
buffer gets the text.
-/

namespace JkxyKernel
namespace Stdio

inductive Fault
  /-- A loop that does not end. -/
  | hang
  /-- A byte is read behind the end of the format string. -/
  | behindEnd
  deriving DecidableEq, Repr

/-- `struct printf_target`, for a buffer. -/
structure PrintfTarget where
  lenPrinted : BitVec 32
  /-- What is written in the buffer; `buf` points behind it. -/
  buf : List Char
  bufsize : BitVec 32

/-- The loop of `printf_emit`, which has not ended in so many rounds if it is `none`. -/
def emitLoop : Nat → List Char → PrintfTarget → Option PrintfTarget
  | 0, _, _ => none
  | _ + 1, [], t => some t
  | rounds + 1, c :: string, t =>
      if t.bufsize ≠ 0 then
        emitLoop rounds string
          { lenPrinted := t.lenPrinted + 1, buf := t.buf ++ [c], bufsize := t.bufsize - 1 }
      else emitLoop rounds (c :: string) { t with lenPrinted := t.lenPrinted + 1 }

/-- `printf_emit`.  A loop that has not ended in a round for each character and one more never
does. -/
def printfEmit (string : List Char) (t : PrintfTarget) : Except Fault PrintfTarget :=
  match emitLoop (string.length + 1) string t with
  | none => .error .hang
  | some t => .ok t

/-- A loop that emits a character so many times. -/
def emitTimes (c : Char) : Nat → PrintfTarget → Except Fault PrintfTarget
  | 0, t => .ok t
  | n + 1, t => do
      let t ← printfEmit [c] t
      emitTimes c n t

/-- The loop that emits the front of a string. -/
def emitChars : List Char → PrintfTarget → Except Fault PrintfTarget
  | [], t => .ok t
  | c :: rest, t => do
      let t ← printfEmit [c] t
      emitChars rest t

/-- The spaces in front of a text, the text, and the spaces behind it. -/
def emitPadded (leftAdjust : Bool) (spacePad : Nat)
    (body : PrintfTarget → Except Fault PrintfTarget) (t : PrintfTarget) :
    Except Fault PrintfTarget := do
  let t ← if !leftAdjust then emitTimes ' ' spacePad t else .ok t
  let t ← body t
  if leftAdjust then emitTimes ' ' spacePad t else .ok t

/-- The text of a number. -/
def emitNumber (n : Number) (t : PrintfTarget) : Except Fault PrintfTarget := do
  let t ← printfEmit n.sign t
  let t ← emitTimes '0' n.precisionPad t
  printfEmit n.convBuf t

/-- The cases of `do_printf`. -/
def emitConversion : Conversion → PrintfTarget → Except Fault PrintfTarget
  | .number n, t => emitPadded n.leftAdjust n.spacePad (emitNumber n) t
  | .char c, t => printfEmit (charText c) t
  | .string leftAdjust spacePad value, t => emitPadded leftAdjust spacePad (printfEmit value) t
  | .front leftAdjust spacePad value, t => emitPadded leftAdjust spacePad (emitChars value) t
  | .percent, t => printfEmit ['%'] t
  | .nothing, t => .ok t

/-- `do_printf`, from an argument on. -/
def doPrintf (args : Args) : List Char → Nat → PrintfTarget → Except Fault PrintfTarget
  | [], _, t => .ok t
  | c :: rest, sp, t =>
      if c ≠ '%' then do
        let t ← printfEmit [c] t
        doPrintf args rest sp t
      else
        match _h : parseDirective rest with
        -- The default case, and the loop goes on behind the `NUL`.
        | (_, []) => .error .behindEnd
        | (d, spec :: tail) => do
            let (conversion, sp) := d.convert args spec sp
            let t ← emitConversion conversion t
            doPrintf args tail sp t
termination_by format => format.length
decreasing_by
  · exact Nat.lt_succ_self _
  · have hle := length_parseDirective_le rest
    rw [_h, List.length_cons] at hle
    rw [List.length_cons]
    omega

/-- `vsnprintf`: the return value, and what is written at each offset of the buffer. -/
def vsnprintf (size : BitVec 32) (format : CString) (args : Args) :
    Except Fault (BitVec 32 × (Nat → Option Char)) := do
  let t ← doPrintf args format.chars 0 { lenPrinted := 0, buf := [], bufsize := size }
  let res := t.lenPrinted
  let str : Nat → Option Char := fun i => t.buf[i]?
  .ok (res, if res < size then Function.update str res.toNat (some nul) else str)

variable {args : Args} {format : CString} {size : BitVec 32} {t : PrintfTarget}
  {string a b rest tail : List Char} {c spec : Char} {sp rounds : Nat} {d : Directive}

/-! ### One piece -/

/-- The target behind a piece for which there is room. -/
def PrintfTarget.put (t : PrintfTarget) (string : List Char) : PrintfTarget where
  lenPrinted := t.lenPrinted + BitVec.ofNat 32 string.length
  buf := t.buf ++ string
  bufsize := t.bufsize - BitVec.ofNat 32 string.length

theorem put_nil : t.put [] = t := by
  rw [PrintfTarget.put, List.append_nil, List.length_nil, BitVec.add_zero, BitVec.sub_zero]

/-- The target of an empty buffer, behind a piece. -/
theorem put_start : PrintfTarget.put ⟨0, [], size⟩ string =
    ⟨BitVec.ofNat 32 string.length, string, size - BitVec.ofNat 32 string.length⟩ := by
  simp only [PrintfTarget.put, BitVec.ofNat_eq_ofNat, BitVec.zero_add, List.nil_append]

theorem put_append : t.put (a ++ b) = (t.put a).put b := by
  simp only [PrintfTarget.put, List.length_append, List.append_assoc, BitVec.ofNat_add,
    BitVec.add_assoc, BitVec.sub_eq_add_neg, BitVec.neg_add]

theorem toNat_bufsize_put (h : string.length ≤ t.bufsize.toNat) :
    (t.put string).bufsize.toNat = t.bufsize.toNat - string.length := by
  have hlt := t.bufsize.isLt
  have hlength : (BitVec.ofNat 32 string.length).toNat = string.length :=
    (BitVec.toNat_ofNat _ _).trans (Nat.mod_eq_of_lt (Nat.lt_of_le_of_lt h hlt))
  have hle : BitVec.ofNat 32 string.length ≤ t.bufsize := BitVec.le_def.mpr (by rw [hlength]; exact h)
  rw [PrintfTarget.put, BitVec.toNat_sub_of_le hle, hlength]

/-- What there is room for is written. -/
theorem emitLoop_eq_some (hroom : string.length ≤ t.bufsize.toNat)
    (hrounds : string.length < rounds) : emitLoop rounds string t = some (t.put string) := by
  induction string generalizing t rounds with
  | nil =>
      obtain ⟨rounds, rfl⟩ := Nat.exists_eq_succ_of_ne_zero (Nat.ne_of_gt hrounds)
      rw [emitLoop, put_nil]
  | cons c string ih =>
      obtain ⟨rounds, rfl⟩ := Nat.exists_eq_succ_of_ne_zero (Nat.ne_zero_of_lt hrounds)
      rw [List.length_cons] at hroom hrounds
      have hne : t.bufsize ≠ 0 := by
        intro hzero
        rw [hzero] at hroom
        exact Nat.not_succ_le_zero _ hroom
      have hone : [c].length ≤ t.bufsize.toNat := Nat.le_trans (Nat.succ_le_succ (Nat.zero_le _)) hroom
      have hleft := toNat_bufsize_put hone
      rw [emitLoop, if_pos hne]
      change emitLoop rounds string (t.put [c]) = some (t.put ([c] ++ string))
      rw [put_append]
      refine ih ?_ (Nat.lt_of_succ_lt_succ hrounds)
      rw [hleft, List.length_singleton]
      exact Nat.le_sub_one_of_lt hroom

/-- Where there is not room for all characters, the loop never ends. -/
theorem emitLoop_eq_none (hroom : t.bufsize.toNat < string.length) (rounds : Nat) :
    emitLoop rounds string t = none := by
  induction rounds generalizing string t with
  | zero => rw [emitLoop]
  | succ rounds ih =>
      cases string with
      | nil => cases hroom
      | cons c string =>
          rw [emitLoop]
          split
          next hne =>
            have hpos : 0 < t.bufsize.toNat := Nat.pos_of_ne_zero fun hzero =>
              hne (BitVec.eq_of_toNat_eq hzero)
            have hleft := @toNat_bufsize_put t [c] hpos
            refine @ih (t.put [c]) string ?_
            rw [hleft, List.length_singleton]
            rw [List.length_cons] at hroom
            omega
          next => exact ih hroom

theorem printfEmit_eq :
    printfEmit string t =
      if string.length ≤ t.bufsize.toNat then .ok (t.put string) else .error .hang := by
  rw [printfEmit]
  split_ifs with hroom
  · rw [emitLoop_eq_some hroom (Nat.lt_succ_self _)]
  · rw [emitLoop_eq_none (Nat.not_le.mp hroom)]

theorem printfEmit_nil : printfEmit [] t = .ok t := by
  rw [printfEmit_eq, List.length_nil, if_pos (Nat.zero_le _), put_nil]

/-- Two pieces come out as one. -/
theorem printfEmit_append : printfEmit (a ++ b) t = printfEmit a t >>= printfEmit b := by
  simp only [printfEmit_eq, List.length_append]
  by_cases ha : a.length ≤ t.bufsize.toNat
  · rw [if_pos ha]
    change _ = printfEmit b (t.put a)
    rw [printfEmit_eq, toNat_bufsize_put ha, put_append]
    exact if_congr (by omega) rfl rfl
  · rw [if_neg ha, if_neg fun hsum => ha (Nat.le_trans (Nat.le_add_right _ _) hsum)]
    rfl

/-! ### The pieces of a conversion -/

theorem emitTimes_eq {n : Nat} :
    emitTimes c n t = printfEmit (List.replicate n c) t := by
  induction n generalizing t with
  | zero => exact printfEmit_nil.symm
  | succ n ih =>
      rw [List.replicate_succ, ← List.singleton_append, printfEmit_append, emitTimes]
      exact bind_congr fun _ => ih

theorem emitChars_eq : emitChars string t = printfEmit string t := by
  induction string generalizing t with
  | nil => exact printfEmit_nil.symm
  | cons c rest ih =>
      rw [← List.singleton_append, printfEmit_append, List.singleton_append, emitChars]
      exact bind_congr fun _ => ih

theorem emitPadded_eq {leftAdjust : Bool} {spacePad : Nat}
    {body : PrintfTarget → Except Fault PrintfTarget}
    (hbody : ∀ t, body t = printfEmit string t) :
    emitPadded leftAdjust spacePad body t =
      printfEmit (padded leftAdjust spacePad string) t := by
  have hbody' : body = printfEmit string := funext hbody
  rw [emitPadded, padded, printfEmit_append, printfEmit_append, hbody']
  cases leftAdjust with
  | true =>
      simp only [Bool.not_true, Bool.false_eq_true, if_false, if_true, printfEmit_nil, emitTimes_eq]
      rfl
  | false =>
      simp only [Bool.not_false, Bool.false_eq_true, if_false, if_true, emitTimes_eq]
      cases printfEmit (List.replicate spacePad ' ') t with
      | error e => rfl
      | ok t => exact bind_congr fun _ => printfEmit_nil.symm

theorem emitNumber_eq {n : Number} :
    emitNumber n t =
      printfEmit (n.sign ++ List.replicate n.precisionPad '0' ++ n.convBuf) t := by
  rw [List.append_assoc, printfEmit_append, emitNumber]
  refine bind_congr fun t => ?_
  rw [printfEmit_append, emitTimes_eq]

/-- A conversion emits its text. -/
theorem emitConversion_eq (conversion : Conversion) :
    emitConversion conversion t = printfEmit conversion.text t := by
  cases conversion with
  | number n => exact emitPadded_eq fun _ => emitNumber_eq
  | char c => rfl
  | string leftAdjust spacePad value => exact emitPadded_eq fun _ => rfl
  | front leftAdjust spacePad value => exact emitPadded_eq fun _ => emitChars_eq
  | percent => rfl
  | nothing => exact printfEmit_nil.symm

/-! ### The format string -/

theorem items_char (hc : c ≠ '%') :
    items (c :: rest) = (.char c :: (items rest).1, (items rest).2) := by
  rw [items, if_pos hc]

theorem items_incomplete (h : parseDirective rest = (d, [])) : items ('%' :: rest) = ([], false) := by
  rw [items, if_neg (not_not.mpr rfl)]
  split
  next => rfl
  next heq => cases h.symm.trans heq

theorem items_directive (h : parseDirective rest = (d, spec :: tail)) :
    items ('%' :: rest) = (.directive d spec :: (items tail).1, (items tail).2) := by
  rw [items, if_neg (not_not.mpr rfl)]
  split
  next heq => cases h.symm.trans heq
  next heq =>
    cases h.symm.trans heq
    rfl

theorem doPrintf_char (hc : c ≠ '%') :
    doPrintf args (c :: rest) sp t = printfEmit [c] t >>= doPrintf args rest sp := by
  rw [doPrintf, if_pos hc]

theorem doPrintf_incomplete (h : parseDirective rest = (d, [])) :
    doPrintf args ('%' :: rest) sp t = .error .behindEnd := by
  rw [doPrintf, if_neg (not_not.mpr rfl)]
  split
  next => rfl
  next heq => cases h.symm.trans heq

theorem doPrintf_directive (h : parseDirective rest = (d, spec :: tail)) :
    doPrintf args ('%' :: rest) sp t =
      emitConversion (d.convert args spec sp).1 t >>=
        doPrintf args tail (d.convert args spec sp).2 := by
  rw [doPrintf, if_neg (not_not.mpr rfl)]
  split
  next heq => cases h.symm.trans heq
  next heq =>
    cases h.symm.trans heq
    rfl

/-- What follows the text of the items. -/
def finish (complete : Bool) (t : PrintfTarget) : Except Fault PrintfTarget :=
  if complete then .ok t else .error .behindEnd

theorem bind_finish {complete : Bool} {f : PrintfTarget → Except Fault PrintfTarget}
    (h : ∀ t, f t = printfEmit b t >>= finish complete) :
    printfEmit a t >>= f = printfEmit (a ++ b) t >>= finish complete := by
  rw [printfEmit_append, funext h]
  cases printfEmit a t with
  | error e => rfl
  | ok t => rfl

/-- `do_printf` emits the text of the items one after the other, and then goes on behind the end
if there is more than the items; by induction on the items. -/
theorem doPrintf_eq (format : List Char) :
    doPrintf args format sp t =
      printfEmit (textFrom args sp (items format).1) t >>= finish (items format).2 := by
  induction format using items.induct generalizing sp t with
  | case1 =>
      rw [doPrintf, items, textFrom, printfEmit_nil]
      rfl
  | case2 c rest hc is complete hitems ih =>
      rw [doPrintf_char hc, items_char hc]
      exact bind_finish fun _ => ih
  | case3 c rest hc d h =>
      rw [not_not.mp hc, doPrintf_incomplete h, items_incomplete h, textFrom, printfEmit_nil]
      rfl
  | case4 c rest hc d spec tail h is complete hitems ih =>
      rw [not_not.mp hc, doPrintf_directive h, items_directive h, emitConversion_eq]
      exact bind_finish fun _ => ih

/-! ### The buffer -/

/-- What a buffer of so many bytes gets: no more than its size, and of the text a front, or all of
it and a `NUL` where that fits. -/
def Bounded (text : List Char) (size : Nat) (str : Nat → Option Char) : Prop :=
  ∃ bytes : List Char, (∀ i, str i = bytes[i]?) ∧ bytes.length ≤ size ∧
    (text.length < size → bytes = text ++ [nul]) ∧ (size ≤ text.length → bytes <+: text)

/-- `vsnprintf` ends without reading behind the format string, writes what the buffer is to get, and
returns the length of the full expansion. -/
def VsnprintfRight (size : BitVec 32) (format : CString) (args : Args) : Prop :=
  ∃ res str, vsnprintf size format args = .ok (res, str) ∧
    res.toInt = (expansion args format).length ∧ Bounded (expansion args format) size.toNat str

/-- What is written, with or without the `NUL`. -/
theorem bounded_written {text : List Char} (hlength : text.length ≤ size.toNat) {res : BitVec 32}
    (hres : res.toNat = text.length) :
    Bounded text size.toNat
      (if res < size then Function.update (fun i => text[i]?) res.toNat (some nul)
        else fun i => text[i]?) := by
  split
  next hlt =>
    rw [BitVec.lt_def, hres] at hlt
    refine ⟨text ++ [nul], fun i => ?_, ?_, fun _ => rfl, fun hle => absurd hlt (Nat.not_lt.mpr hle)⟩
    · rw [hres, Function.update_apply]
      split
      next hi => rw [hi, List.getElem?_concat_length]
      next hi =>
        rcases Nat.lt_or_gt_of_ne hi with hin | hout
        · rw [List.getElem?_append_left hin]
        · rw [List.getElem?_eq_none (Nat.le_of_lt hout), List.getElem?_eq_none]
          rw [List.length_append, List.length_singleton]
          exact hout
    · rw [List.length_append, List.length_singleton]
      exact hlt
  next hnot =>
    rw [BitVec.lt_def, hres] at hnot
    exact ⟨text, fun _ => rfl, hlength, fun hlt => absurd hlt hnot, fun _ => List.prefix_refl text⟩

/-- `vsnprintf` of a text for which there is room. -/
theorem vsnprintf_eq (hcomplete : Complete format)
    (hlength : (expansion args format).length ≤ size.toNat) :
    ∃ res : BitVec 32, res.toNat = (expansion args format).length ∧ vsnprintf size format args =
      .ok (res, if res < size then
        Function.update (fun i => (expansion args format)[i]?) res.toNat (some nul)
        else fun i => (expansion args format)[i]?) := by
  have hcomplete : (items format.chars).2 = true := hcomplete
  refine ⟨BitVec.ofNat 32 (expansion args format).length, ?_, ?_⟩
  · rw [BitVec.toNat_ofNat]
    exact Nat.mod_eq_of_lt (Nat.lt_of_le_of_lt hlength size.isLt)
  · rw [vsnprintf, doPrintf_eq, hcomplete]
    change (printfEmit (expansion args format) _ >>= finish true) >>= _ = _
    rw [printfEmit_eq, if_pos hlength, put_start]
    rfl

/-- `vsnprintf` only ends well where the format string is complete and there is room. -/
theorem of_vsnprintf_eq_ok {r : BitVec 32 × (Nat → Option Char)}
    (h : vsnprintf size format args = .ok r) :
    Complete format ∧ (expansion args format).length ≤ size.toNat := by
  rw [vsnprintf, doPrintf_eq] at h
  obtain ⟨t, ht, -⟩ := Machine.bind_eq_ok_iff.mp h
  obtain ⟨t', hemit, hfinish⟩ := Machine.bind_eq_ok_iff.mp ht
  constructor
  · rw [Complete]
    cases hcomplete : (items format.chars).2 with
    | true => rfl
    | false =>
        rw [hcomplete] at hfinish
        cases hfinish
  · rw [printfEmit_eq] at hemit
    split at hemit
    next hroom => exact hroom
    next => cases hemit

/-- **Bounded printing.**  `vsnprintf` ends, writes no more than there is room for, returns the
length of the full expansion and reads nothing behind the format string, if and only if the
format string does not end in an incomplete conversion, the full expansion is no longer than the
buffer, and its length is an `int32_t`. -/
theorem vsnprintf_right_iff (size : BitVec 32) (format : CString) (args : Args) :
    VsnprintfRight size format args ↔ Complete format ∧
      (expansion args format).length ≤ size.toNat ∧ (expansion args format).length < 2 ^ 31 := by
  constructor
  · rintro ⟨res, str, hok, hres, -⟩
    obtain ⟨hcomplete, hlength⟩ := of_vsnprintf_eq_ok hok
    refine ⟨hcomplete, hlength, ?_⟩
    have hlt := BitVec.two_mul_toInt_lt (x := res)
    rw [hres] at hlt
    omega
  · rintro ⟨hcomplete, hlength, hint⟩
    obtain ⟨res, hres, hok⟩ := vsnprintf_eq hcomplete hlength
    refine ⟨res, _, hok, ?_, bounded_written hlength hres⟩
    rw [BitVec.toInt_eq_toNat_of_lt (by omega), hres]

/-- Arguments of which none are read. -/
def noArgs : Args where
  word _ := 0
  string _ := ⟨[], List.not_mem_nil⟩

/-- A text that is longer than the buffer, and a directive that consists of a `%`. -/
theorem vsnprintf_wrong :
    ¬ VsnprintfRight 1 ⟨['a', 'b'], by decide⟩ noArgs ∧
      ¬ VsnprintfRight 16 ⟨['%'], by decide⟩ noArgs := by
  constructor
  · rintro ⟨res, str, hok, -⟩
    have hitems : (items ['a', 'b']).1 = [.char 'a', .char 'b'] := by
      rw [items_char (by decide), items_char (by decide), items]
    have hlength := (of_vsnprintf_eq_ok hok).2
    rw [expansion, hitems] at hlength
    exact absurd hlength (by decide)
  · rintro ⟨res, str, hok, -⟩
    have hcomplete := (of_vsnprintf_eq_ok hok).1
    rw [Complete, @items_incomplete [] (parseDirective []).1 rfl] at hcomplete
    cases hcomplete

end Stdio
end JkxyKernel
