import JkxyKernel.Tty.ScreenBounds

/-!
# Decoding escape sequences

What `raw_tty_write` and `decode_ansi` read of `ansi_dec.buffer`, and what they write through
the pointers they are given.  The buffer is an array that is used as a string: `strndup` looks
for its end with `strlen`, which knows nothing of `buffer_end`, and `decode_ansi_type` looks
at the third character after a `[` whether or not there is one.

A second argument is stored wherever there is one in the sequence, also by the commands that
ask for a single argument and give no pointer for another.
-/

namespace JkxyKernel
namespace Tty

namespace AnsiDecode

/-- The size of `buffer`. -/
def size : Nat := 16

/-- `strlen` of the buffer from an index on: the length, and the indices it looks at. -/
def strlenFrom (dec : AnsiDecode) : Nat → Nat → Nat × List Nat
  | 0, len => (len, [])
  | rounds + 1, len =>
      if dec.buffer len = 0 then (len, [len])
      else
        let (n, seen) := dec.strlenFrom rounds (len + 1)
        (n, len :: seen)

/-- `strndup` of the buffer: the copy, and the indices that it looks at.  `strncpy` looks at
the character after the last one that it copies. -/
def strndup (dec : AnsiDecode) : List Chr × List Nat :=
  let (n, seen) := dec.strlenFrom size 0
  let len := min n dec.bufferEnd
  ((List.range len).map dec.buffer, seen ++ List.range (len + 1))

/-- `decode_ansi_type`: the type, and the indices it looks at. -/
def decodeType (dec : AnsiDecode) : Chr × List Nat :=
  if dec.bufferEnd - 1 = 0 then (0, [])
  else
    let c := dec.buffer 1
    if c = ascii '[' then
      (if dec.buffer 2 = ascii '?' then ascii '?' else c, [1, 2])
    else (if c = ascii '(' ∨ c = ascii ')' ∨ c = ascii '#' then c else 0, [1])

/-- Does `raw_tty_write` call `decode_ansi` for this character, in a sequence of type `[`? -/
def takesArguments (c : Chr) : Bool :=
  c == ascii 'H' || c == ascii 'f' || c == ascii 'F' || c == ascii 'A' || c == ascii 'B' ||
    c == ascii 'C' || c == ascii 'D' || c == ascii 'J' || c == ascii 'm'

/-- Does it give a pointer for a second argument? -/
def takesTwo (c : Chr) : Bool :=
  c == ascii 'H' || c == ascii 'f' || c == ascii 'F' || c == ascii 'm'

/-- Does the character end the sequence? -/
def ends (dec : AnsiDecode) (c : Chr) : Bool :=
  dec.bufferEnd != 0 && c != esc && !Output.continues c

/-- Does the character have `decode_ansi` called? -/
def decodes (dec : AnsiDecode) (c : Chr) : Bool :=
  dec.ends c && dec.type == ascii '[' && takesArguments c

/-- The indices into `buffer` that are looked at for a character. -/
def reads (dec : AnsiDecode) (c : Chr) : List Nat :=
  if dec.ends c then
    dec.decodeType.2 ++
      if dec.decodeType.1 = ascii '[' ∧ takesArguments c then
        dec.strndup.2 ++ dec.decodeType.2
      else []
  else []

/-- The sequence ends right after the `[`. -/
def isBare (dec : AnsiDecode) (c : Chr) : Bool :=
  dec.ends c && dec.bufferEnd == 2 && dec.buffer 1 == ascii '['

/-- There is a second argument in the sequence. -/
def hasSecond (dec : AnsiDecode) : Bool :=
  match dec.decode true true with
  | .ok (_, some _) => true
  | _ => false

/-- What is in the buffer is a string, and there is room for its end. -/
structure Collected (dec : AnsiDecode) : Prop where
  end_le : dec.bufferEnd ≤ 15
  nonzero : ∀ i < dec.bufferEnd, dec.buffer i ≠ 0

section Reads

variable {dec : AnsiDecode} {c : Chr} {i n : Nat}

theorem Collected.of_empty (h : dec.bufferEnd = 0) : dec.Collected :=
  ⟨by omega, fun i hi => by omega⟩

theorem Collected.push (h : dec.Collected) (hc : c ≠ 0) (hroom : dec.bufferEnd < 15) :
    (dec.push c).Collected := by
  refine ⟨hroom, fun i hi => ?_⟩
  simp only [AnsiDecode.push] at hi ⊢
  by_cases hlast : i = dec.bufferEnd
  · rw [hlast, Function.update_self]
    exact hc
  · rw [Function.update_of_ne hlast]
    exact h.nonzero i (by omega)

theorem decodeType_fst (h : dec.bufferEnd ≠ 0) : dec.decodeType.1 = dec.type := by
  have hone : dec.bufferEnd - 1 = 0 ↔ dec.bufferEnd = 1 := by omega
  simp only [decodeType, type, hone]
  split_ifs <;> simp_all

theorem le_strlenFrom (rounds len : Nat) : len ≤ (dec.strlenFrom rounds len).1 := by
  induction rounds generalizing len with
  | zero => exact Nat.le_refl len
  | succ rounds ih =>
      rw [strlenFrom]
      split
      next => exact Nat.le_refl len
      next => exact Nat.le_of_succ_le (ih (len + 1))

/-- `strlen` goes over characters that are not zero, and looks at the one after them. -/
theorem strlenFrom_nonzero
    {rounds len : Nat} (hrounds : n < rounds)
    (h : ∀ i, len ≤ i → i < len + n → dec.buffer i ≠ 0) :
    len + n ≤ (dec.strlenFrom rounds len).1 ∧ len + n ∈ (dec.strlenFrom rounds len).2 := by
  induction rounds generalizing len n with
  | zero => exact absurd hrounds (Nat.not_lt_zero _)
  | succ rounds ih =>
      rw [strlenFrom]
      cases n with
      | zero =>
          split
          next => exact ⟨Nat.le_refl _, List.mem_singleton_self _⟩
          next => exact ⟨Nat.le_of_succ_le (le_strlenFrom rounds (len + 1)), List.mem_cons_self⟩
      | succ n =>
          rw [if_neg (h len (Nat.le_refl _) (by omega))]
          have hrest : ∀ i, len + 1 ≤ i → i < len + 1 + n → dec.buffer i ≠ 0 :=
            fun i hi hlt => h i (by omega) (by omega)
          obtain ⟨hle, hmem⟩ := ih (Nat.lt_of_succ_lt_succ hrounds) hrest
          rw [Nat.add_right_comm] at hle hmem
          exact ⟨hle, List.mem_cons_of_mem _ hmem⟩

theorem Collected.strlen (h : dec.Collected) :
    dec.bufferEnd ≤ (dec.strlenFrom size 0).1 ∧ dec.bufferEnd ∈ (dec.strlenFrom size 0).2 := by
  have hend := h.end_le
  have hstop : 0 + dec.bufferEnd ≤ (dec.strlenFrom size 0).1 ∧
      0 + dec.bufferEnd ∈ (dec.strlenFrom size 0).2 :=
    strlenFrom_nonzero (by rw [size]; omega) fun i _ hi => h.nonzero i (by omega)
  rwa [Nat.zero_add] at hstop

/-- What is looked at lies within the sequence, if it does not end right after the `[` and
has no arguments decoded. -/
theorem Collected.reads_iff (h : dec.Collected) :
    (∀ i ∈ dec.reads c, i < dec.bufferEnd) ↔ dec.isBare c = false ∧ dec.decodes c = false := by
  simp only [reads, isBare, decodes]
  cases hends : dec.ends c with
  | false => simp
  | true =>
      have hne : dec.bufferEnd ≠ 0 := by
        simp only [ends, Bool.and_eq_true, bne_iff_ne] at hends
        exact hends.1.1
      rw [decodeType_fst hne]
      by_cases hdecodes : dec.type = ascii '[' ∧ takesArguments c = true
      · refine iff_of_false (fun hall => ?_) (by simp [hdecodes])
        -- `strlen` comes to the end of the sequence
        have hmem : dec.bufferEnd ∈ dec.strndup.2 := List.mem_append_left _ h.strlen.2
        refine Nat.lt_irrefl _ (hall dec.bufferEnd ?_)
        rw [if_pos rfl, if_pos hdecodes]
        exact List.mem_append_right _ (List.mem_append_left _ hmem)
      · rw [if_pos rfl, if_neg hdecodes, List.append_nil]
        have hnot : (true && dec.type == ascii '[' && takesArguments c) = false := by
          simpa using hdecodes
        rw [hnot, and_iff_left rfl]
        by_cases hone : dec.bufferEnd - 1 = 0
        · have htwo : dec.bufferEnd ≠ 2 := by omega
          simp [decodeType, hone, htwo]
        · by_cases hfirst : dec.buffer 1 = ascii '['
          · simp [decodeType, hone, hfirst]
            omega
          · simp [decodeType, hone, hfirst]
            omega

end Reads

section Arguments

variable {dec : AnsiDecode} {hasArg2 : Bool}

/-- With memory for the copy, decoding goes wrong if and only if there is a second argument
and no pointer for it. -/
theorem decode_ok_iff :
    (∃ args, dec.decode hasArg2 true = .ok args) ↔ hasArg2 = true ∨ dec.hasSecond = false := by
  simp only [hasSecond, decode, Bool.not_true, Bool.false_eq_true, if_false]
  split
  next => simp
  next =>
    split
    next c rest hafter =>
      by_cases hc : c = ascii ';'
      · simp only [hc, if_true]
        split
        next => simp
        next => cases hasArg2 <;> simp
      · simp [hc]
    next => simp

end Arguments
end AnsiDecode

namespace Output

open AnsiDecode (takesArguments takesTwo Collected)

variable {tty tty' : Output} {v v' : Video} {c : Chr} {found : Bool}

/-! ### What output does to the sequence -/

/-- The terminal in the middle of another sequence. -/
abbrev withDec (tty : Output) (dec : AnsiDecode) : Output := { tty with ansiDec := dec }

section Fields

variable (tty) (dec : AnsiDecode)

theorem withDec_curpos : (tty.withDec dec).curpos = tty.curpos := rfl

theorem withDec_blank : (tty.withDec dec).blank = tty.blank := rfl

theorem withDec_scrollUp : (tty.withDec dec).scrollUp = tty.scrollUp := rfl

end Fields

/-- Output that has nothing to do with the sequence. -/
def Apart (x : Output → Video → Output × Video) : Prop :=
  ∀ tty v dec, x (tty.withDec dec) v = ((x tty v).1.withDec dec, (x tty v).2)

theorem Apart.ansiDec {x : Output → Video → Output × Video} (h : Apart x) :
    (x tty v).1.ansiDec = tty.ansiDec := by
  have hsame : x tty v = ((x tty v).1.withDec tty.ansiDec, (x tty v).2) := h tty v tty.ansiDec
  rw [hsame]

theorem apart_scrollRows (rounds : Nat) : Apart (scrollRows rounds) := by
  intro tty v dec
  induction rounds generalizing tty v with
  | zero => rfl
  | succ rounds ih =>
      simp only [scrollRows]
      split_ifs
      · rw [withDec_scrollUp]
        exact ih { tty with cursorY := tty.cursorY - 1 } (tty.scrollUp v)
      · rfl

theorem apart_fixscroll : Apart fixscroll := fun tty v dec =>
  apart_scrollRows _ { tty with
    cursorX := (wrapColumns tty.cursorX.toNat tty.cursorX tty.cursorY).1
    cursorY := (wrapColumns tty.cursorX.toNat tty.cursorX tty.cursorY).2 } v dec

theorem apart_eraseDisplay (arg : BitVec 8) : Apart fun tty v => tty.eraseDisplay v arg := by
  intro tty v dec
  simp only [eraseDisplay]
  split_ifs
  · rw [withDec_blank, withDec_curpos]
  · rw [withDec_blank, withDec_curpos]
  · have hblank := withDec_blank { tty with cursorX := 0, cursorY := 0 } dec
    dsimp only at hblank ⊢
    rw [hblank]
  · rfl

theorem moveBack_withDec (tty : Output) (dec : AnsiDecode) :
    (tty.withDec dec).moveBack = tty.moveBack.withDec dec := by
  simp only [moveBack]
  split_ifs
  · rfl
  · rfl
  · rfl

theorem apart_eraseBack : Apart eraseBack := by
  intro tty v dec
  simp only [eraseBack, apart_fixscroll tty v dec, moveBack_withDec]
  split_ifs
  · rfl
  · rfl

theorem apart_print (c : Chr) : Apart fun tty v => tty.print v c := by
  intro tty v dec
  simp only [print, apart_fixscroll tty v dec]
  rfl

/-! ### The letter at the end -/

/-- What a command makes of arguments has nothing to do with where they came from. -/
theorem map_of_args
    {x x' : Except NullFault (Option (BitVec 8) × Option (BitVec 8))} {dec : AnsiDecode}
    {f g : Option (BitVec 8) × Option (BitVec 8) → Output × Video} (hx : x' = x)
    (h : ∀ a, g a = ((f a).1.withDec dec, (f a).2)) :
    (x' >>= fun a => pure (g a)) =
      (x >>= fun a => pure (f a)).map fun r => (r.1.withDec dec, r.2) := by
  subst hx
  cases x' with
  | error e => rfl
  | ok a => exact congrArg Except.ok (h a)

theorem ite_eq_map
    {α : Type} {p : Prop} [Decidable p] {f : α → α} {x y x' y' : Except NullFault α}
    (hx : x' = x.map f) (hy : y' = y.map f) :
    (if p then x' else y') = (if p then x else y).map f := by
  split
  next => exact hx
  next => exact hy

/-- A command depends on the sequence through its type and its arguments. -/
theorem command_withDec
    {dec : AnsiDecode} (htype : dec.type = tty.ansiDec.type)
    (hdecode : ∀ hasArg2, dec.decode hasArg2 found = tty.ansiDec.decode hasArg2 found) :
    (tty.withDec dec).command v c found =
      (tty.command v c found).map fun r => (r.1.withDec dec, r.2) := by
  rw [command, command, htype]
  refine ite_eq_map rfl ?_
  refine ite_eq_map (map_of_args (hdecode true) fun _ => rfl) ?_
  refine ite_eq_map (map_of_args (hdecode true) fun _ => rfl) ?_
  refine ite_eq_map (map_of_args (hdecode false) fun _ => rfl) ?_
  refine ite_eq_map (map_of_args (hdecode false) fun _ => rfl) ?_
  refine ite_eq_map (map_of_args (hdecode false) fun _ => rfl) ?_
  refine ite_eq_map (map_of_args (hdecode false) fun _ => rfl) ?_
  refine ite_eq_map (map_of_args (hdecode false) fun a => ?_) ?_
  · exact apart_eraseDisplay (a.1.getD 0) tty v dec
  · exact ite_eq_map (map_of_args (hdecode true) fun _ => rfl) rfl

theorem command_ansiDec (h : tty.command v c found = .ok (tty', v')) :
    tty'.ansiDec = tty.ansiDec := by
  have hsame : tty.command v c found =
      (tty.command v c found).map fun r => (r.1.withDec tty.ansiDec, r.2) :=
    command_withDec rfl fun _ => rfl
  rw [h] at hsame
  have hresult := congrArg Prod.fst (Except.ok.inj hsame)
  dsimp only at hresult
  rw [hresult]

/-- Other letters do nothing. -/
theorem command_of_not_takesArguments
    (h : ¬ (tty.ansiDec.type = ascii '[' ∧ takesArguments c = true)) :
    tty.command v c found = .ok (tty, v) := by
  by_cases htype : tty.ansiDec.type = ascii '['
  · have hother : takesArguments c ≠ true := fun hc => h ⟨htype, hc⟩
    simp only [takesArguments, Bool.or_eq_true, beq_iff_eq, not_or, ne_eq] at hother
    obtain ⟨⟨⟨⟨⟨⟨⟨⟨hH, hf⟩, hF⟩, hA⟩, hB⟩, hC⟩, hD⟩, hJ⟩, hm⟩ := hother
    rw [command, if_neg (not_not.mpr htype), if_neg (not_or.mpr ⟨hH, hf⟩), if_neg hF, if_neg hA,
      if_neg hB, if_neg hC, if_neg hD, if_neg hJ, if_neg hm]
  · rw [command, if_pos htype]

theorem returns_iff
    {α β : Type} {x : Except NullFault α} {f : α → β} :
    (∃ r, (x >>= fun a => pure (f a)) = .ok r) ↔ ∃ a, x = .ok a := by
  cases x with
  | error e => exact iff_of_false nofun nofun
  | ok a => exact iff_of_true ⟨_, rfl⟩ ⟨a, rfl⟩

/-- The others return if their arguments can be decoded. -/
theorem command_returns_iff
    (htype : tty.ansiDec.type = ascii '[') (hc : takesArguments c = true) :
    (∃ r, tty.command v c found = .ok r) ↔
      ∃ args, tty.ansiDec.decode (takesTwo c) found = .ok args := by
  simp only [takesArguments, Bool.or_eq_true, beq_iff_eq] at hc
  rw [command, if_neg (not_not.mpr htype)]
  rcases hc with (((((((hc | hc) | hc) | hc) | hc) | hc) | hc) | hc) | hc
  all_goals
    subst hc
    exact returns_iff

/-! ### Bytes -/

theorem escaped_collected (h : tty.ansiDec.Collected)
    (hstep : tty.escaped v c found = .ok (tty', v')) : tty'.ansiDec.Collected := by
  simp only [escaped] at hstep
  split_ifs at hstep with hesc hcontinues hroom
  · cases hstep
    subst hesc
    exact .push (.of_empty rfl) (by decide) (Nat.zero_lt_succ _)
  · cases hstep
    refine h.push ?_ hroom
    rintro rfl
    exact absurd hcontinues (by decide)
  · cases hstep
    exact h
  · obtain ⟨⟨tty₁, v₁⟩, -, hret⟩ := Machine.bind_eq_ok_iff.mp hstep
    cases hret
    exact .of_empty rfl

theorem plain_collected
    {nested : Write} (hnested : ∀ tty v c found tty' v', nested tty v c found = .ok (tty', v') →
      tty.ansiDec.Collected → tty'.ansiDec.Collected)
    (h : tty.ansiDec.Collected) (hempty : tty.ansiDec.bufferEnd = 0)
    (hstep : plain nested tty v c found = .ok (tty', v')) : tty'.ansiDec.Collected := by
  have hscroll : ∀ (tty : Output) v, (tty.fixscroll v).1.ansiDec = tty.ansiDec := fun _ _ =>
    apart_fixscroll.ansiDec
  simp only [plain] at hstep
  split_ifs at hstep with hcr hnl hopost hverase htab hbell hesc
  · cases hstep
    exact h
  · obtain ⟨⟨tty₁, v₁⟩, h₁, hret⟩ := Machine.bind_eq_ok_iff.mp hstep
    have htty : _ = tty' := congrArg Prod.fst (Except.ok.inj hret)
    have hcollected : tty₁.ansiDec.Collected := hnested _ _ _ _ _ _ h₁ h
    rw [← htty, hscroll]
    exact hcollected
  · have htty : _ = tty' := congrArg Prod.fst (Except.ok.inj hstep)
    rw [← htty, hscroll]
    exact h
  · have htty : _ = tty' := congrArg Prod.fst (Except.ok.inj hstep)
    rw [← htty, apart_eraseBack.ansiDec]
    exact h
  · exact hnested _ _ _ _ _ _ hstep h
  · cases hstep
    exact h
  · cases hstep
    subst hesc
    exact h.push (by decide) (by omega)
  · have htty : _ = tty' := congrArg Prod.fst (Except.ok.inj hstep)
    rw [← htty, (apart_print c).ansiDec]
    exact h

theorem round_collected
    {nested : Write} (hnested : ∀ tty v c found tty' v', nested tty v c found = .ok (tty', v') →
      tty.ansiDec.Collected → tty'.ansiDec.Collected)
    (h : tty.ansiDec.Collected) (hstep : round nested tty v c found = .ok (tty', v')) :
    tty'.ansiDec.Collected := by
  simp only [round] at hstep
  split_ifs at hstep with hinside
  · exact escaped_collected h hstep
  · exact plain_collected hnested h (not_not.mp hinside) hstep

theorem writeByte_collected (h : tty.ansiDec.Collected)
    (hstep : tty.writeByte v c found = .ok (tty', v')) : tty'.ansiDec.Collected :=
  round_collected (fun _ _ _ _ _ _ h₁ hc => round_collected
    (fun _ _ _ _ _ _ h₀ hc₀ => by cases h₀; exact hc₀) hc h₁) h hstep

theorem plain_returns
    {nested : Write} (hnested : ∀ tty v c found, tty.ansiDec.bufferEnd = 0 →
      ∃ r, nested tty v c found = .ok r)
    (hempty : tty.ansiDec.bufferEnd = 0) : ∃ r, plain nested tty v c found = .ok r := by
  simp only [plain]
  split_ifs
  · exact ⟨_, rfl⟩
  · exact returns_iff.mpr (hnested tty v 13 found hempty)
  · exact ⟨_, rfl⟩
  · exact ⟨_, rfl⟩
  · exact hnested tty v (ascii ' ') found hempty
  · exact ⟨_, rfl⟩
  · exact ⟨_, rfl⟩
  · exact ⟨_, rfl⟩

theorem escaped_returns_iff (hinside : tty.ansiDec.bufferEnd ≠ 0) :
    (∃ r, tty.escaped v c found = .ok r) ↔
      (tty.ansiDec.decodes c = true →
        ∃ args, tty.ansiDec.decode (takesTwo c) found = .ok args) := by
  simp only [escaped]
  split_ifs with hesc hcontinues hroom
  · exact iff_of_true ⟨_, rfl⟩ fun hd => by simp [AnsiDecode.decodes, AnsiDecode.ends, hesc] at hd
  · exact iff_of_true ⟨_, rfl⟩ fun hd => by
      simp [AnsiDecode.decodes, AnsiDecode.ends, hcontinues] at hd
  · exact iff_of_true ⟨_, rfl⟩ fun hd => by
      simp [AnsiDecode.decodes, AnsiDecode.ends, hcontinues] at hd
  · have hdecodes : tty.ansiDec.decodes c = true ↔
        tty.ansiDec.type = ascii '[' ∧ takesArguments c = true := by
      simp [AnsiDecode.decodes, AnsiDecode.ends, hinside, hesc, hcontinues]
    rw [hdecodes]
    refine (returns_iff (f := fun r : Output × Video => (
      { r.1 with ansiDec := { r.1.ansiDec with bufferEnd := 0 } }, r.2))).trans ?_
    by_cases hc : tty.ansiDec.type = ascii '[' ∧ takesArguments c = true
    · rw [command_returns_iff hc.1 hc.2]
      exact ⟨fun h _ => h, fun h => h hc⟩
    · exact iff_of_true ⟨_, command_of_not_takesArguments hc⟩ fun h => absurd h hc

/-- A byte is written, unless it has arguments decoded and that goes wrong. -/
theorem writeByte_returns_iff :
    (∃ r, tty.writeByte v c found = .ok r) ↔
      (tty.ansiDec.decodes c = true →
        ∃ args, tty.ansiDec.decode (takesTwo c) found = .ok args) := by
  rw [writeByte, round]
  split_ifs with hinside
  · exact escaped_returns_iff hinside
  · have hempty := not_not.mp hinside
    refine iff_of_true (plain_returns (fun tty v c found hempty => ?_) hempty) fun hd => by
      simp [AnsiDecode.decodes, AnsiDecode.ends, hempty] at hd
    rw [round, if_neg (not_not.mpr hempty)]
    exact plain_returns (fun _ _ _ _ _ => ⟨_, rfl⟩) hempty

end Output

/-! ### Runs -/

/-- A byte is decoded safely: nothing is stored through `NULL` or read from there, and
nothing is read of the buffer but what was collected. -/
def ScreenState.DecodesSafely (s : ScreenState) (c : Chr) (found : Bool) : Prop :=
  (∃ r, s.tty.writeByte s.video c found = .ok r) ∧
    ∀ i ∈ s.tty.ansiDec.reads c, i < s.tty.ansiDec.bufferEnd

section Runs

variable {s s' : ScreenState} {op : ScreenOp}

theorem collected_step (h : s.tty.ansiDec.Collected) (hs : screenMachine.Step s op s') :
    s'.tty.ansiDec.Collected := by
  obtain ⟨-, hex⟩ := hs
  cases op with
  | write c found =>
      obtain ⟨⟨tty', v'⟩, hwrite, hret⟩ := Machine.bind_eq_ok_iff.mp hex
      cases hret
      exact Output.writeByte_collected h hwrite
  | mouse dx dy =>
      cases hex
      exact h
  | tcsets termios =>
      cases hex
      exact h

end Runs

/-- **Decoding escape sequences.**  On every terminal that output has gone to, `buffer_end`
is at most 15.  The next byte is decoded safely if and only if it does not end a sequence
right after the `[` and has no arguments decoded; and with memory for the copy, nothing is
stored through `NULL` if and only if it does not have a second argument decoded without a
pointer for it. -/
theorem escapes_decoded_safely_iff
    {s : ScreenState} (h : screenMachine.Reach FreshScreen (fun _ _ => True) s) :
    s.tty.ansiDec.bufferEnd ≤ 15 ∧
      (∀ c found, s.DecodesSafely c found ↔
        s.tty.ansiDec.isBare c = false ∧ s.tty.ansiDec.decodes c = false) ∧
      ∀ c, (∃ r, s.tty.writeByte s.video c true = .ok r) ↔
        ¬ (s.tty.ansiDec.decodes c = true ∧ AnsiDecode.takesTwo c = false ∧
          s.tty.ansiDec.hasSecond = true) := by
  have hcollected : s.tty.ansiDec.Collected :=
    h.invariant (P := fun s => s.tty.ansiDec.Collected) (fun s hfresh => .of_empty hfresh.1)
      fun _ _ _ hP _ hs => collected_step hP hs
  refine ⟨hcollected.end_le, fun c found => ?_, fun c => ?_⟩
  · rw [ScreenState.DecodesSafely, hcollected.reads_iff, Output.writeByte_returns_iff]
    refine and_iff_right_of_imp fun ⟨_, hnot⟩ hdecodes => ?_
    rw [hnot] at hdecodes
    cases hdecodes
  · rw [Output.writeByte_returns_iff, AnsiDecode.decode_ok_iff]
    cases s.tty.ansiDec.decodes c with
    | false => simp
    | true => cases AnsiDecode.takesTwo c <;> simp

/-- `"\33[1;2"`: a sequence with two arguments. -/
def twoArguments : List ScreenOp :=
  (bytes "\x1b[1;2").map fun b => .write b.1 b.2

theorem escapes_decoded_safely_twoArguments :
    ∃ s, (screenMachine.Reach FreshScreen (fun _ _ => True) s ∧ s.tty.ansiDec.bufferEnd = 5) ∧
      s.tty.ansiDec.bufferEnd ≤ 15 ∧
      (∀ c found, s.DecodesSafely c found ↔
        s.tty.ansiDec.isBare c = false ∧ s.tty.ansiDec.decodes c = false) ∧
      ∀ c, (∃ r, s.tty.writeByte s.video c true = .ok r) ↔
        ¬ (s.tty.ansiDec.decodes c = true ∧ AnsiDecode.takesTwo c = false ∧
          s.tty.ansiDec.hasSecond = true) := by
  have hrun : (screenMachine.runLabels twoArguments blankTerminal).any
      (fun s => s.tty.ansiDec.bufferEnd == 5) = true := by
    decide +kernel
  obtain ⟨s, hreach, hend⟩ := Machine.exists_reach_of_run blankTerminal_fresh hrun
  exact ⟨s, ⟨hreach, beq_iff_eq.mp hend⟩, escapes_decoded_safely_iff hreach⟩

/-- With an `A` after it the second one is stored through `NULL`, and the end of the string
is looked for beyond the sequence. -/
theorem second_argument_stored_through_null :
    ∃ s, screenMachine.Reach FreshScreen (fun _ _ => True) s ∧
      (screenMachine.exec (.write (ascii 'A') true) s).isOk = false ∧
      s.tty.ansiDec.bufferEnd ∈ s.tty.ansiDec.reads (ascii 'A') ∧
      ¬ s.DecodesSafely (ascii 'A') true := by
  have hrun : (screenMachine.runLabels twoArguments blankTerminal).any (fun s =>
      !(screenMachine.exec (.write (ascii 'A') true) s).isOk &&
        decide (s.tty.ansiDec.bufferEnd ∈ s.tty.ansiDec.reads (ascii 'A'))) = true := by
    decide +kernel
  obtain ⟨s, hreach, hs⟩ := Machine.exists_reach_of_run blankTerminal_fresh hrun
  rw [Bool.and_eq_true, Bool.not_eq_true', decide_eq_true_eq] at hs
  refine ⟨s, hreach, hs.1, hs.2, fun hsafe => ?_⟩
  exact Nat.lt_irrefl _ (hsafe.2 _ hs.2)

end Tty
end JkxyKernel
