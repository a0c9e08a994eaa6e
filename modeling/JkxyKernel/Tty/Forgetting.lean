import JkxyKernel.Tty.Decoding

/-!
# What escape sequences remember

The bytes of an earlier sequence stay in `ansi_dec.buffer`, and the next sequence is written
over them.  `decode_ansi_type` looks at the third one even where the new sequence has only two,
to see whether it is a `?`; nothing else of an earlier sequence is ever looked at.

So two terminals that differ in these bytes show the same for every output if and only if the
third byte is a `?` on both or on neither.  There is one exception: with the escape character
for `cc[VERASE]` no sequence ever begins.
-/

namespace JkxyKernel
namespace Tty

namespace AnsiDecode

/-- What was collected is the same, and so is the answer to whether the third byte is a `?`,
collected or not; the answer does not matter where no sequence begins. -/
structure Similar (quiet : Prop) (dec dec' : AnsiDecode) : Prop where
  end_eq : dec'.bufferEnd = dec.bufferEnd
  collected : ∀ i < dec.bufferEnd, dec'.buffer i = dec.buffer i
  third : quiet ∧ dec.bufferEnd = 0 ∨ (dec'.buffer 2 = ascii '?' ↔ dec.buffer 2 = ascii '?')

section Similar

variable {quiet : Prop} {dec dec' : AnsiDecode} {c : Chr}

theorem Similar.third_iff (h : Similar quiet dec dec') (hnot : ¬ (quiet ∧ dec.bufferEnd = 0)) :
    dec'.buffer 2 = ascii '?' ↔ dec.buffer 2 = ascii '?' :=
  h.third.resolve_left hnot

theorem Similar.emptied (hthird : dec'.buffer 2 = ascii '?' ↔ dec.buffer 2 = ascii '?') :
    Similar quiet { dec with bufferEnd := 0 } { dec' with bufferEnd := 0 } :=
  ⟨rfl, fun _ hi => absurd hi (Nat.not_lt_zero _), .inr hthird⟩

theorem Similar.push (h : Similar quiet dec dec')
    (hthird : dec'.buffer 2 = ascii '?' ↔ dec.buffer 2 = ascii '?') (c : Chr) :
    Similar quiet (dec.push c) (dec'.push c) := by
  have hupdate : ∀ i, i = dec.bufferEnd ∨ dec'.buffer i = dec.buffer i →
      Function.update dec'.buffer dec'.bufferEnd c i =
        Function.update dec.buffer dec.bufferEnd c i := by
    intro i hi
    rw [h.end_eq, Function.update_apply, Function.update_apply]
    split
    next => rfl
    next hne => exact hi.resolve_left hne
  refine ⟨congrArg (· + 1) h.end_eq, fun i hi => hupdate i ?_, .inr ?_⟩
  · simp only [AnsiDecode.push] at hi
    rcases Nat.lt_or_eq_of_le (Nat.le_of_lt_succ hi) with hlt | heq
    · exact .inr (h.collected i hlt)
    · exact .inl heq
  · simp only [AnsiDecode.push, h.end_eq, Function.update_apply]
    split
    next => exact Iff.rfl
    next => exact hthird

/-- A sequence that has begun has the same type. -/
theorem Similar.type_eq (h : Similar quiet dec dec') (hne : dec.bufferEnd ≠ 0) :
    dec'.type = dec.type := by
  by_cases hone : dec.bufferEnd = 1
  · simp only [type, h.end_eq, if_pos hone]
  · have hsecond : dec'.buffer 1 = dec.buffer 1 := h.collected 1 (by omega)
    have hthird := h.third_iff fun hq => hne hq.2
    simp only [type, h.end_eq, hsecond, hthird]

theorem Similar.text_eq (h : Similar quiet dec dec') : dec'.text = dec.text := by
  rw [text, text, h.end_eq]
  congr 1
  exact List.map_congr_left fun i hi => h.collected i (List.mem_range.mp hi)

/-- It has the same arguments. -/
theorem Similar.decode_eq (h : Similar quiet dec dec') (hne : dec.bufferEnd ≠ 0)
    (hasArg2 found : Bool) :
    dec'.decode hasArg2 found = dec.decode hasArg2 found := by
  have hskipped : dec'.skipped = dec.skipped := by
    rw [skipped, skipped, h.type_eq hne]
  rw [decode, decode, h.text_eq, hskipped]

end Similar
end AnsiDecode

namespace Output

open AnsiDecode (Similar)

/-- The terminal and another one in the middle of a similar sequence. -/
def Alike (tty : Output) (dec : AnsiDecode) : Prop :=
  Similar (tty.termios.verase = esc) tty.ansiDec dec

/-- Two outputs end alike: with the same fault, or with terminals and screens that differ in
the bytes of earlier sequences only. -/
def EndAlike : Except NullFault (Output × Video) → Except NullFault (Output × Video) → Prop
  | .error e, .error e' => e' = e
  | .ok r, .ok r' => r.1.Alike r'.1.ansiDec ∧ r' = (r.1.withDec r'.1.ansiDec, r.2)
  | _, _ => False

section Steps

variable {tty : Output} {v : Video} {c : Chr} {found : Bool} {dec : AnsiDecode}

/-- Output that has nothing to do with the sequence. -/
theorem Apart.endAlike
    {x : Output → Video → Output × Video} (hx : Apart x)
    (hsettings : ∀ tty v, SameSettings tty (x tty v).1) (h : tty.Alike dec) :
    EndAlike (.ok (x tty v)) (.ok (x (tty.withDec dec) v)) := by
  rw [hx tty v dec]
  refine ⟨?_, rfl⟩
  rw [Alike, hx.ansiDec, (hsettings tty v).termios]
  exact h

/-- The next output after two that ended alike. -/
theorem EndAlike.bind
    {x x' : Except NullFault (Output × Video)}
    {f : Output × Video → Except NullFault (Output × Video)} (h : EndAlike x x')
    (hf : ∀ tty v dec, Alike tty dec → EndAlike (f (tty, v)) (f (tty.withDec dec, v))) :
    EndAlike (x >>= f) (x' >>= f) := by
  cases x with
  | error e =>
      cases x' with
      | error e' => exact h
      | ok r' => exact absurd h id
  | ok r =>
      cases x' with
      | error e' => exact absurd h id
      | ok r' =>
          obtain ⟨hsimilar, hr'⟩ := h
          have halike := hf r.1 r.2 r'.1.ansiDec hsimilar
          rw [← hr'] at halike
          exact halike

theorem escaped_endAlike (h : tty.Alike dec) (hinside : tty.ansiDec.bufferEnd ≠ 0) :
    EndAlike (tty.escaped v c found) ((tty.withDec dec).escaped v c found) := by
  have hthird := Similar.third_iff h fun hq => hinside hq.2
  simp only [escaped, h.end_eq]
  split_ifs
  · exact ⟨(Similar.emptied hthird).push hthird c, rfl⟩
  · exact ⟨Similar.push h hthird c, rfl⟩
  · exact ⟨h, rfl⟩
  · have hcommand : (tty.withDec dec).command v c found =
        (tty.command v c found).map fun r => (r.1.withDec dec, r.2) :=
      command_withDec (Similar.type_eq h hinside) fun hasArg2 =>
        Similar.decode_eq h hinside hasArg2 found
    rw [hcommand]
    cases hresult : tty.command v c found with
    | error e => rfl
    | ok r =>
        have hdec : r.1.ansiDec = tty.ansiDec := command_ansiDec hresult
        refine ⟨?_, rfl⟩
        simp only [Alike, hdec]
        exact Similar.emptied hthird

theorem plain_endAlike
    {nested : Write} (hnested : ∀ tty v c found dec, Alike tty dec →
      EndAlike (nested tty v c found) (nested (tty.withDec dec) v c found))
    (h : tty.Alike dec) :
    EndAlike (plain nested tty v c found) (plain nested (tty.withDec dec) v c found) := by
  have hdown : Apart fun tty v => { tty with cursorY := tty.cursorY + 1 }.fixscroll v :=
    fun tty v dec => apart_fixscroll { tty with cursorY := tty.cursorY + 1 } v dec
  have hdownSettings : ∀ (tty : Output) v,
      SameSettings tty ({ tty with cursorY := tty.cursorY + 1 }.fixscroll v).1 := fun tty v =>
    (SameSettings.moved tty tty.cursorX (tty.cursorY + 1)).trans (.fixscroll _ _)
  simp only [plain]
  split_ifs with hcr hnl hopost hverase htab hbell hesc
  · exact ⟨h, rfl⟩
  · exact (hnested tty v 13 found dec h).bind fun _ _ _ halike =>
      hdown.endAlike hdownSettings halike
  · exact hdown.endAlike hdownSettings h
  · exact apart_eraseBack.endAlike SameSettings.eraseBack h
  · exact hnested tty v (ascii ' ') found dec h
  · exact ⟨h, rfl⟩
  · refine ⟨Similar.push h (Similar.third_iff h fun hq => hverase ?_) c, rfl⟩
    -- the escape character is not `cc[VERASE]`
    rw [hesc, hq.1]
    rfl
  · exact (apart_print c).endAlike
      (fun tty v => (SameSettings.fixscroll tty v).trans ⟨rfl, rfl, rfl, rfl⟩) h

theorem round_endAlike
    {nested : Write} (hnested : ∀ tty v c found dec, Alike tty dec →
      EndAlike (nested tty v c found) (nested (tty.withDec dec) v c found))
    (h : tty.Alike dec) :
    EndAlike (round nested tty v c found) (round nested (tty.withDec dec) v c found) := by
  simp only [round, h.end_eq]
  split_ifs with hinside
  · exact escaped_endAlike h hinside
  · exact plain_endAlike hnested h

theorem writeByte_endAlike (h : tty.Alike dec) :
    EndAlike (tty.writeByte v c found) ((tty.withDec dec).writeByte v c found) :=
  round_endAlike (fun _ _ _ _ _ h₁ => round_endAlike (fun _ _ _ _ _ h₀ => ⟨h₀, rfl⟩) h₁) h

/-- Terminals that are alike go on alike. -/
theorem rawTtyWrite_endAlike (h : tty.Alike dec) (buf : List (Chr × Bool)) :
    EndAlike (tty.rawTtyWrite v buf) ((tty.withDec dec).rawTtyWrite v buf) := by
  induction buf generalizing tty v dec with
  | nil => exact ⟨h, rfl⟩
  | cons b rest ih => exact (writeByte_endAlike h).bind fun _ _ _ halike => ih halike

end Steps

/-- What is left of an output: the cursor, the color and the memory of the screen, or the
fault. -/
def shown (x : Except NullFault (Output × Video)) :
    Except NullFault (BitVec 16 × BitVec 16 × BitVec 8 × (Nat → BitVec 8)) :=
  x.map fun r => (r.1.cursorX, r.1.cursorY, r.1.color, r.2.mem)

theorem EndAlike.shown_eq {x x' : Except NullFault (Output × Video)} (h : EndAlike x x') :
    shown x' = shown x := by
  cases x with
  | error e =>
      cases x' with
      | error e' => exact congrArg Except.error h
      | ok r' => exact absurd h id
  | ok r =>
      cases x' with
      | error e' => exact absurd h id
      | ok r' =>
          rw [h.2]
          rfl

/-! ### A sequence without arguments -/

/-- `"\33[C"`, the cursor goes to the right. -/
def cursorForward : List (Chr × Bool) :=
  [(esc, true), (ascii '[', true), (ascii 'C', true)]

section Forward

variable {tty : Output} {v : Video} {dec : AnsiDecode}

/-- The first two characters are collected. -/
def begun (dec : AnsiDecode) : AnsiDecode := (dec.push esc).push (ascii '[')

theorem begun_type (hempty : dec.bufferEnd = 0) :
    (begun dec).type = if dec.buffer 2 = ascii '?' then ascii '?' else ascii '[' := by
  have hend : (begun dec).bufferEnd = 2 := by simp only [begun, AnsiDecode.push, hempty]
  have hsecond : (begun dec).buffer 1 = ascii '[' := by
    simp only [begun, AnsiDecode.push, hempty, Nat.zero_add, Function.update_self]
  have hthird : (begun dec).buffer 2 = dec.buffer 2 := by
    simp only [begun, AnsiDecode.push, hempty]
    rfl
  simp only [AnsiDecode.type, hend, hsecond, hthird, true_and, true_or, if_true]
  rfl

theorem begun_decode (hempty : dec.bufferEnd = 0) (htype : (begun dec).type = ascii '[') :
    (begun dec).decode false true = .ok (none, none) := by
  have htext : (begun dec).text = [esc, ascii '['] := by
    simp only [begun, AnsiDecode.text, AnsiDecode.push, hempty]
    rfl
  simp only [AnsiDecode.decode, AnsiDecode.skipped, htext, htype, true_or, if_true]
  rfl

theorem writeByte_esc (hempty : tty.ansiDec.bufferEnd = 0) (hverase : tty.termios.verase ≠ esc) :
    tty.writeByte v esc true = .ok (tty.withDec (tty.ansiDec.push esc), v) := by
  have hnot : ¬ esc.toInt = (tty.termios.verase.toNat : Int) := by
    have hint : esc.toInt = 27 := rfl
    have hnat : esc.toNat = 27 := rfl
    rw [Ne, ← BitVec.toNat_inj, hnat] at hverase
    omega
  rw [writeByte, round, if_neg (not_not.mpr hempty), plain, if_neg (by decide),
    if_neg (by decide), if_neg hnot]
  rfl

theorem writeByte_bracket (hempty : dec.bufferEnd = 0) :
    (tty.withDec (dec.push esc)).writeByte v (ascii '[') true =
      .ok (tty.withDec (begun dec), v) := by
  have hinside : (tty.withDec (dec.push esc)).ansiDec.bufferEnd ≠ 0 := Nat.succ_ne_zero _
  have hroom : (tty.withDec (dec.push esc)).ansiDec.bufferEnd < 15 := by
    simp only [AnsiDecode.push, hempty]
    decide
  rw [writeByte, round, if_pos hinside, escaped, if_neg (by decide), if_pos (by decide),
    if_pos hroom]
  rfl

theorem writeByte_forward (hempty : dec.bufferEnd = 0) :
    (tty.withDec (begun dec)).writeByte v (ascii 'C') true =
      .ok ({ tty with
        ansiDec := { begun dec with bufferEnd := 0 }
        cursorX := if dec.buffer 2 = ascii '?' then tty.cursorX else tty.cursorX + 1 }, v) := by
  have hinside : (tty.withDec (begun dec)).ansiDec.bufferEnd ≠ 0 := Nat.succ_ne_zero _
  have htype := begun_type hempty
  rw [writeByte, round, if_pos hinside, escaped, if_neg (by decide), if_neg (by decide)]
  by_cases hthird : dec.buffer 2 = ascii '?'
  · rw [if_pos hthird] at htype ⊢
    have hnothing : (tty.withDec (begun dec)).command v (ascii 'C') true =
        .ok (tty.withDec (begun dec), v) := by
      refine command_of_not_takesArguments fun h => ?_
      rw [htype] at h
      exact absurd h.1 (by decide)
    rw [hnothing]
    rfl
  · rw [if_neg hthird] at htype ⊢
    have hmoves : (tty.withDec (begun dec)).command v (ascii 'C') true =
        .ok ({ tty.withDec (begun dec) with cursorX := tty.cursorX + 1 }, v) := by
      rw [command, if_neg (not_not.mpr htype), if_neg (by decide), if_neg (by decide),
        if_neg (by decide), if_neg (by decide), if_pos rfl, begun_decode hempty htype]
      rfl
    rw [hmoves]
    rfl

/-- It does nothing after a sequence with a `?`. -/
theorem cursorForward_eq (hempty : tty.ansiDec.bufferEnd = 0)
    (hverase : tty.termios.verase ≠ esc) :
    tty.rawTtyWrite v cursorForward =
      .ok ({ tty with
        ansiDec := { begun tty.ansiDec with bufferEnd := 0 }
        cursorX := if tty.ansiDec.buffer 2 = ascii '?' then tty.cursorX else tty.cursorX + 1 },
        v) := by
  simp only [cursorForward, rawTtyWrite, writeByte_esc hempty hverase, writeByte_bracket hempty,
    writeByte_forward hempty, bind, Except.bind]

end Forward
end Output

open Output (shown)

/-- **What escape sequences remember.**  Of two terminals that differ in the bytes of earlier
sequences only, with no sequence begun, every output leaves the same cursor, color and screen
if and only if the third of these bytes is a `?` on both or on neither, or `cc[VERASE]` is the
escape character. -/
theorem sequences_forget_iff
    (tty : Output) (v : Video) (dec : AnsiDecode) (hempty : tty.ansiDec.bufferEnd = 0)
    (hempty' : dec.bufferEnd = 0) :
    (∀ buf, shown ((tty.withDec dec).rawTtyWrite v buf) = shown (tty.rawTtyWrite v buf)) ↔
      (tty.termios.verase = esc ∨
        (dec.buffer 2 = ascii '?' ↔ tty.ansiDec.buffer 2 = ascii '?')) := by
  constructor
  · intro hsame
    by_cases hverase : tty.termios.verase = esc
    · exact .inl hverase
    · have hforward := hsame Output.cursorForward
      rw [Output.cursorForward_eq hempty hverase,
        @Output.cursorForward_eq (tty.withDec dec) v hempty' hverase] at hforward
      have hcursor := congrArg Prod.fst (Except.ok.inj hforward)
      dsimp only at hcursor
      have hmoved : tty.cursorX + 1 ≠ tty.cursorX := by bv_omega
      refine .inr ⟨fun hthird => ?_, fun hthird => ?_⟩
      · rw [if_pos hthird] at hcursor
        by_contra hother
        rw [if_neg hother] at hcursor
        exact hmoved hcursor.symm
      · rw [if_pos hthird] at hcursor
        by_contra hother
        rw [if_neg hother] at hcursor
        exact hmoved hcursor
  · intro hthird buf
    refine (Output.rawTtyWrite_endAlike ⟨?_, fun i hi => ?_, ?_⟩ buf).shown_eq
    · rw [hempty, hempty']
    · omega
    · exact hthird.imp (fun hverase => ⟨hverase, hempty⟩) id

/-- `"\33[?25h"` -/
def showCursor : List (Chr × Bool) :=
  [(esc, true), (ascii '[', true), (ascii '?', true), (ascii '2', true), (ascii '5', true),
    (ascii 'h', true)]

/-- What it leaves in the buffer. -/
def afterShowCursor : AnsiDecode :=
  let dec := blankTerminal.tty.ansiDec.push esc
  { (((dec.push (ascii '[')).push (ascii '?')).push (ascii '2')).push (ascii '5') with
    bufferEnd := 0 }

theorem sequences_forget_iff_showCursor :
    (∀ buf, shown ((blankTerminal.tty.withDec afterShowCursor).rawTtyWrite blankTerminal.video
        buf) = shown (blankTerminal.tty.rawTtyWrite blankTerminal.video buf)) ↔
      (blankTerminal.tty.termios.verase = esc ∨ (afterShowCursor.buffer 2 = ascii '?' ↔
        blankTerminal.tty.ansiDec.buffer 2 = ascii '?')) :=
  sequences_forget_iff _ _ _ rfl rfl

/-- Nothing is to be seen of that sequence, but the cursor does not go to the right after
it. -/
theorem question_mark_remembered :
    ∃ dec, blankTerminal.tty.rawTtyWrite blankTerminal.video showCursor =
        .ok (blankTerminal.tty.withDec dec, blankTerminal.video) ∧ dec.bufferEnd = 0 ∧
      ¬ ∀ buf, shown ((blankTerminal.tty.withDec dec).rawTtyWrite blankTerminal.video buf) =
        shown (blankTerminal.tty.rawTtyWrite blankTerminal.video buf) := by
  refine ⟨afterShowCursor, rfl, rfl, fun hsame => ?_⟩
  have hforward := hsame Output.cursorForward
  have hverase : blankTerminal.tty.termios.verase ≠ esc := by decide
  rw [@Output.cursorForward_eq (blankTerminal.tty.withDec afterShowCursor) _ rfl hverase,
    Output.cursorForward_eq rfl hverase] at hforward
  exact absurd (congrArg Prod.fst (Except.ok.inj hforward)) (by decide)

end Tty
end JkxyKernel
