import JkxyKernel.Tty.InputBounds

/-!
# Terminal input as a stream

What was typed is a text: a typed character is appended, an erasure takes the last
character back unless it ends a line.  While the settings stay as they are, what the
reads return is that text from its beginning, and what is still to be read is in the
buffer.

The invariant splits the text at the last reset of the buffer.  On a canonical terminal
the part before it is a sequence of whole lines, and the buffer holds at most one line,
of which nothing is read before its newline is there.

A raw terminal loses a character when a key comes between the test of the two indices
in `tty_read` and the reset.  A canonical one ignores keys at that point, because its
line is committed.
-/

namespace JkxyKernel
namespace Tty

/-- The text after one more edit. -/
def Edit.apply (text : List Chr) : Edit → List Chr
  | .typed chr => text ++ [chr]
  | .erased => if text.getLast? = some wakeupChar then text else text.dropLast

/-- The text that was typed, without what was erased before its line was committed. -/
def text (edits : List Edit) : List Chr :=
  edits.foldl Edit.apply []

/-- The lines of a text that are committed. -/
def committed (typed : List Chr) : List Chr :=
  typed.rdropWhile (· != wakeupChar)

/-- The bytes handed to the readers so far. -/
def State.returned (s : State) : List Chr :=
  s.results.flatMap fun result => result.2.data

/-- The bytes a read has copied and not yet returned. -/
def Statement.held : Statement → List Chr
  | .advance _ bytes | .test bytes | .reset bytes => bytes
  | _ => []

/-- How far a read has copied beyond `buffer_start`. -/
def Statement.copied : Statement → Nat
  | .advance nbytes _ => nbytes
  | _ => 0

/-- The bytes in the hands of the read in progress. -/
def State.held (s : State) : List Chr :=
  (s.reading.map fun r => r.2.held).getD []

/-- The characters of the buffer that were copied to some reader. -/
def State.copied (s : State) : Nat :=
  s.tty.bufferStart + (s.reading.map fun r => r.2.copied).getD 0

/-- The settings are left alone, and no key is accepted by a raw terminal between the
test of the indices in `tty_read` and their reset. -/
def KeepsReset (s : State) : Op → Bool
  | .key chr hasCtrl hasAlt =>
      match s.reading with
      | some (_, .reset _) =>
          s.tty.termios.icanon || !s.foreground ||
            (s.tty.action chr hasCtrl hasAlt).edit == []
      | _ => true
  | .tcsets _ => false
  | _ => true

/-- A text of whole lines. -/
def Closed (typed : List Chr) : Prop :=
  ∀ chr, typed.getLast? = some chr → chr = wakeupChar

/-- The text, `past` of which left the buffer with its resets. -/
structure Streamed (s : State) (past : List Chr) : Prop where
  bounded : Bounded s
  text_eq : text s.edits = past ++ s.tty.stored
  returned_eq : s.returned ++ s.held = past ++ s.tty.stored.take s.copied
  closed : s.tty.termios.icanon = true → Closed past
  line : s.tty.termios.icanon = true → wakeupChar ∉ s.tty.stored.dropLast
  copied_shouldRead :
    s.tty.termios.icanon = true → s.copied ≠ 0 → s.tty.shouldRead = true
  reset_eq : ∀ t bytes, s.reading = some (t, .reset bytes) →
    s.tty.bufferStart = s.tty.bufferEnd

section Buffer

variable {tty : Input} {chr : Chr}

@[simp]
theorem length_stored : tty.stored.length = tty.bufferEnd := by
  simp [Input.stored]

theorem stored_push : (tty.push chr).stored = tty.stored ++ [chr] := by
  have hsame : (List.range tty.bufferEnd).map (Function.update tty.buffer tty.bufferEnd chr) =
      (List.range tty.bufferEnd).map tty.buffer := by
    refine List.map_congr_left fun i hi => ?_
    exact Function.update_of_ne (Nat.ne_of_lt (List.mem_range.mp hi)) _ _
  simp [Input.stored, Input.push, List.range_succ, hsame]

theorem stored_pop : tty.pop.stored = tty.stored.dropLast := by
  cases hend : tty.bufferEnd with
  | zero => simp [Input.stored, Input.pop, hend]
  | succ n => simp [Input.stored, Input.pop, hend, List.range_succ]

theorem getLast?_stored (hpos : tty.bufferEnd ≠ 0) :
    tty.stored.getLast? = some (tty.buffer (tty.bufferEnd - 1)) := by
  cases hend : tty.bufferEnd with
  | zero => exact absurd hend hpos
  | succ n => simp [Input.stored, hend, List.range_succ]

/-- A canonical terminal has something to read when its line ends in a newline. -/
theorem shouldRead_canonical (hcanon : tty.termios.icanon = true) :
    tty.shouldRead = true ↔ tty.stored.getLast? = some wakeupChar := by
  by_cases hpos : tty.bufferEnd = 0
  · simp [Input.shouldRead, Input.stored, hcanon, hpos]
  · simp [Input.shouldRead, hcanon, hpos, getLast?_stored hpos]

/-- What `memcpy` copies is a stretch of the characters stored. -/
theorem copy_eq {nbytes : Nat} (hle : tty.bufferStart + nbytes ≤ tty.bufferEnd) :
    (List.range nbytes).map (fun i => tty.buffer (tty.bufferStart + i)) =
      (tty.stored.drop tty.bufferStart).take nbytes := by
  refine List.ext_getElem ?_ fun i h1 h2 => ?_
  · simp
    omega
  · simp [Input.stored]

end Buffer

section Texts

variable {edits : List Edit} {chr : Chr} {past line : List Chr}

theorem text_typed : text (edits ++ [.typed chr]) = text edits ++ [chr] := by
  simp [text, Edit.apply]

theorem text_erased (h : (text edits).getLast? ≠ some wakeupChar) :
    text (edits ++ [.erased]) = (text edits).dropLast := by
  simp only [text] at h
  simp [text, Edit.apply, h]

/-- Whole lines stay committed whatever is typed after them. -/
theorem Closed.prefix_committed (h : Closed past) (typed : List Chr) :
    past <+: committed (past ++ typed) := by
  induction typed using List.reverseRecOn with
  | nil =>
      rcases List.eq_nil_or_concat past with rfl | ⟨init, chr, rfl⟩
      · exact List.nil_prefix
      · have hchr : chr = wakeupChar := h chr (by simp)
        subst hchr
        have hkept : committed (init ++ [wakeupChar] ++ []) = init ++ [wakeupChar] := by
          rw [committed, List.append_nil, List.rdropWhile_concat_neg _ _ _ (by simp)]
        rw [List.concat_eq_append]
        exact ⟨[], (List.append_nil _).trans hkept.symm⟩
  | append_singleton typed chr ih =>
      rw [committed, ← List.append_assoc]
      by_cases hchr : chr = wakeupChar
      · subst hchr
        rw [List.rdropWhile_concat_neg _ _ _ (by simp), List.append_assoc]
        exact List.prefix_append _ _
      · rw [List.rdropWhile_concat_pos _ _ _ (by simpa using hchr)]
        exact ih

end Texts

section Steps

variable {s s' : State} {past : List Chr} {t : TaskId} {op : Op}

@[simp]
theorem returned_snoc (result : Result) :
    (s.results ++ [(t, result)]).flatMap (fun r => r.2.data) = s.returned ++ result.data := by
  simp [State.returned]

/-- Nothing is copied beyond what is stored. -/
theorem Bounded.copied_le (h : Bounded s) : s.copied ≤ s.tty.bufferEnd := by
  have hstart := h.start_le
  cases hr : s.reading with
  | none => simpa [State.copied, hr] using hstart
  | some r =>
      obtain ⟨t, statement⟩ := r
      have hready := h.ready t statement hr
      cases statement with
      | advance nbytes bytes => simpa [State.copied, hr, Statement.copied] using hready.2
      | _ => simpa [State.copied, hr, Statement.copied] using hstart

/-- Nothing of a line that is not committed was read. -/
theorem Streamed.copied_eq_zero
    (h : Streamed s past) (hcanon : s.tty.termios.icanon = true)
    (hnot : s.tty.shouldRead = false) : s.copied = 0 := by
  by_contra hne
  rw [h.copied_shouldRead hcanon hne] at hnot
  cases hnot

/-- So no backspace reaches a character that was read. -/
theorem Streamed.erasesUnread
    {chr : Chr} {hasCtrl hasAlt : Bool} (h : Streamed s past) :
    ErasesUnread s (.key chr hasCtrl hasAlt) = true := by
  by_contra hno
  simp only [ErasesUnread, Bool.not_eq_true, Bool.not_eq_false', Bool.and_eq_true,
    beq_iff_eq] at hno
  obtain ⟨⟨-, herase⟩, heq⟩ := hno
  obtain ⟨hcanon, hnot, hpos⟩ := action_erase herase
  have hzero := h.copied_eq_zero hcanon hnot
  simp only [State.copied] at hzero
  omega

/-- A character is taken back from a line nothing of which was read. -/
theorem Streamed.pop
    (h : Streamed s past) (hb : Bounded { s with tty := s.tty.pop })
    (hcanon : s.tty.termios.icanon = true) (hnot : s.tty.shouldRead = false)
    (hpos : s.tty.bufferEnd ≠ 0) :
    Streamed { s with tty := s.tty.pop, edits := s.edits ++ [.erased] } past := by
  have hzero : s.copied = 0 := h.copied_eq_zero hcanon hnot
  have hlast : s.tty.stored.getLast? ≠ some wakeupChar := by
    intro heq
    rw [(shouldRead_canonical hcanon).mpr heq] at hnot
    cases hnot
  have hstored : s.tty.stored ≠ [] := by
    intro hnil
    have hlen : s.tty.stored.length = 0 := by rw [hnil]; rfl
    exact hpos (length_stored ▸ hlen)
  have htext : (text s.edits).getLast? ≠ some wakeupChar := by
    rw [h.text_eq, List.getLast?_append_of_ne_nil _ hstored]
    exact hlast
  refine ⟨⟨hb.start_le, hb.end_le, hb.ready⟩, ?_, ?_, h.closed, fun _ => ?_, ?_, ?_⟩
  · rw [text_erased htext, h.text_eq, List.dropLast_append_of_ne_nil hstored]
    simp only [stored_pop]
  · have hreturned := h.returned_eq
    rw [hzero] at hreturned
    change s.returned ++ s.held = past ++ s.tty.pop.stored.take s.copied
    rw [hzero, hreturned]
    rfl
  · rw [stored_pop]
    exact fun hmem => h.line hcanon (List.dropLast_subset _ hmem)
  · intro _ hne
    exact absurd hzero hne
  · intro u bytes hr
    have hready := h.bounded.ready u _ hr
    rw [show s.tty.shouldRead = true from hready] at hnot
    cases hnot

/-- A character is stored behind what the reads have copied. -/
theorem Streamed.push
    {chr : Chr} (h : Streamed s past) (hb : Bounded { s with tty := s.tty.push chr })
    (hline : s.tty.termios.icanon = true → s.tty.shouldRead = false)
    (hreset : ∀ t bytes, s.reading = some (t, .reset bytes) → s.tty.termios.icanon = true) :
    Streamed { s with tty := s.tty.push chr, edits := s.edits ++ [.typed chr] } past := by
  have hzero : s.tty.termios.icanon = true → s.copied = 0 :=
    fun hcanon => h.copied_eq_zero hcanon (hline hcanon)
  refine ⟨⟨hb.start_le, hb.end_le, hb.ready⟩, ?_, ?_, h.closed, fun hcanon => ?_, ?_, ?_⟩
  · rw [text_typed, h.text_eq]
    simp only [stored_push, List.append_assoc]
  · change s.returned ++ s.held = past ++ (s.tty.push chr).stored.take s.copied
    rw [stored_push, List.take_append_of_le_length (by simpa using h.bounded.copied_le)]
    exact h.returned_eq
  · -- the line so far has no newline, neither before its last character nor there
    simp only [stored_push, List.dropLast_concat]
    intro hmem
    rcases List.eq_nil_or_concat s.tty.stored with hnil | ⟨init, last, hinit⟩
    · simp [hnil] at hmem
    · rw [List.concat_eq_append] at hinit
      have hnotin : wakeupChar ∉ init := by
        have := h.line hcanon
        rwa [hinit, List.dropLast_concat] at this
      rw [hinit, List.mem_append, List.mem_singleton] at hmem
      have hlast : wakeupChar = last := hmem.resolve_left hnotin
      have hshould : s.tty.shouldRead = true := by
        have hsettings : s.tty.termios.icanon = true := hcanon
        rw [shouldRead_canonical hsettings, hinit, hlast]
        simp
      rw [hline hcanon] at hshould
      cases hshould
  · intro hcanon hne
    exact absurd (hzero hcanon) hne
  · intro u bytes hr
    have hcanon := hreset u bytes hr
    have hready : s.tty.shouldRead = true := h.bounded.ready u _ hr
    rw [hline hcanon] at hready
    cases hready

/-- A key keeps the stream, unless it is accepted between test and reset. -/
theorem Streamed.key
    {chr : Chr} {hasCtrl hasAlt : Bool} (h : Streamed s past)
    (hok : KeepsReset s (.key chr hasCtrl hasAlt) = true) :
    Streamed (s.key chr hasCtrl hasAlt) past := by
  have hb : Bounded (s.key chr hasCtrl hasAlt) := h.bounded.key h.erasesUnread
  simp only [State.key] at hb ⊢
  split at hb
  next hforeground =>
    rw [if_pos hforeground]
    rcases keyboard_cases s.tty chr hasCtrl hasAlt with
      ⟨hedit, hsame⟩ | ⟨herase, hcanon, hnot, hpos, hkey⟩ | ⟨c, haccept, -, hline, hkey⟩
    · rw [hsame, hedit, List.append_nil]
      exact h
    · rw [hkey] at hb ⊢
      rw [herase]
      exact h.pop ⟨hb.start_le, hb.end_le, hb.ready⟩ hcanon hnot hpos
    · rw [hkey] at hb ⊢
      rw [haccept]
      refine h.push ⟨hb.start_le, hb.end_le, hb.ready⟩ hline ?_
      intro u bytes hr
      simpa [KeepsReset, hr, hforeground, haccept, Input.Action.edit] using hok
  next hforeground =>
    rw [if_neg hforeground]
    exact h

/-- The next statement of a read, where the bytes copied stay the same. -/
theorem Streamed.goto
    {statement statement' : Statement} (h : Streamed s past)
    (hr : s.reading = some (t, statement))
    (hb : Bounded { s with reading := some (t, statement') })
    (hheld : statement'.held = statement.held)
    (hcopied : statement'.copied = statement.copied)
    (hreset : ∀ bytes, statement' = .reset bytes → s.tty.bufferStart = s.tty.bufferEnd) :
    Streamed { s with reading := some (t, statement') } past := by
  have hheld' : State.held { s with reading := some (t, statement') } = s.held := by
    simp [State.held, hr, hheld]
  have hcopied' : State.copied { s with reading := some (t, statement') } = s.copied := by
    simp [State.copied, hr, hcopied]
  refine ⟨hb, h.text_eq, ?_, h.closed, h.line, ?_, ?_⟩
  · rw [hheld', hcopied']
    exact h.returned_eq
  · rw [hcopied']
    exact h.copied_shouldRead
  · intro u bytes hr'
    simp only [Option.some.injEq, Prod.mk.injEq] at hr'
    exact hreset bytes hr'.2

/-- A read returns what it holds. -/
theorem Streamed.finish
    {statement : Statement} {result : Result} (h : Streamed s past)
    (hr : s.reading = some (t, statement)) (hheld : statement.held = result.data)
    (hcopied : statement.copied = 0) :
    Streamed (s.finish t result) past := by
  have hreturned : (s.finish t result).returned = s.returned ++ s.held := by
    simp [State.finish, State.returned, State.held, hr, hheld]
  have hcopied' : (s.finish t result).copied = s.copied := by
    simp [State.finish, State.copied, hr, hcopied]
  refine ⟨h.bounded.of_idle rfl rfl rfl, h.text_eq, ?_, h.closed, h.line, ?_, ?_⟩
  · rw [hreturned, hcopied']
    simpa [State.finish, State.held] using h.returned_eq
  · rw [hcopied']
    exact h.copied_shouldRead
  · intro u bytes hr'
    cases hr'

/-- One statement of a read keeps the stream; a reset closes the part before it. -/
theorem Streamed.next
    {signalPending : Bool} {statement : Statement} (h : Streamed s past)
    (hr : s.reading = some (t, statement))
    (hex : s.next t signalPending statement = .ok s') :
    ∃ past', Streamed s' past' := by
  obtain ⟨s₁, hs₁, hb⟩ := h.bounded.next signalPending hr
  rw [hex] at hs₁
  cases hs₁
  have hready := h.bounded.ready t statement hr
  cases statement with
  | signalPending nbytes interrupted =>
      simp only [State.next, Except.ok.injEq] at hex
      split at hex
      next =>
        subst hex
        exact ⟨past, h.finish hr rfl rfl⟩
      next =>
        subst hex
        exact ⟨past, h.goto hr hb rfl rfl (by simp)⟩
  | compare nbytes =>
      simp only [State.next, Except.ok.injEq] at hex
      split at hex
      next =>
        subst hex
        exact ⟨past, h.goto hr hb rfl rfl (by simp)⟩
      next =>
        subst hex
        exact ⟨past, h.goto hr hb rfl rfl (by simp)⟩
  | clamp =>
      cases hex
      exact ⟨past, h.goto hr hb rfl rfl (by simp)⟩
  | memcpy nbytes =>
      simp only [State.next] at hex
      split at hex
      next => cases hex
      next =>
        cases hex
        obtain ⟨hshould, hle⟩ := hready
        have hreturned : s.returned = past ++ s.tty.stored.take s.tty.bufferStart := by
          simpa [State.held, State.copied, hr, Statement.held, Statement.copied]
            using h.returned_eq
        refine ⟨past, hb, h.text_eq, ?_, h.closed, h.line, fun _ _ => hshould, ?_⟩
        · change s.returned ++ (List.range nbytes).map
            (fun i => s.tty.buffer (s.tty.bufferStart + i)) =
              past ++ s.tty.stored.take (s.tty.bufferStart + nbytes)
          rw [copy_eq hle, hreturned, List.append_assoc, List.take_add]
        · intro u bytes hr'
          cases hr'
  | advance nbytes bytes =>
      cases hex
      have hend := h.bounded.end_le
      have hwrap : (s.tty.bufferStart + nbytes) % 2 ^ 8 = s.tty.bufferStart + nbytes := by
        have := hready.2
        simp only [bufferSize] at hend
        omega
      have hcopied : s.copied = s.tty.bufferStart + nbytes := by
        simp [State.copied, hr, Statement.copied]
      have hreturned := h.returned_eq
      have hshould := h.copied_shouldRead
      rw [hcopied] at hreturned hshould
      simp only [hwrap] at hb ⊢
      refine ⟨past, hb, h.text_eq, ?_, h.closed, h.line, ?_, ?_⟩
      · simpa [State.held, hr, Statement.held, State.copied, Statement.copied,
          Input.stored, State.returned] using hreturned
      · simpa [State.copied, Statement.copied, Input.shouldRead] using hshould
      · intro u bytes' hr'
        cases hr'
  | test bytes =>
      simp only [State.next, Except.ok.injEq] at hex
      split at hex
      next heq =>
        subst hex
        exact ⟨past, h.goto hr hb rfl rfl fun _ _ => heq⟩
      next =>
        subst hex
        exact ⟨past, h.finish hr rfl rfl⟩
  | reset bytes =>
      cases hex
      have hall : s.tty.stored.take s.copied = s.tty.stored := by
        refine List.take_of_length_le ?_
        rw [length_stored, State.copied, h.reset_eq t bytes hr]
        exact Nat.le_add_right _ _
      have hreturned : s.returned ++ bytes = past ++ s.tty.stored := by
        have := h.returned_eq
        rw [hall] at this
        simpa [State.held, hr, Statement.held] using this
      have hclosed : s.tty.termios.icanon = true → Closed (past ++ s.tty.stored) := by
        intro hcanon chr hlast
        have hlastStored := (shouldRead_canonical hcanon).mp hready
        have hne : s.tty.stored ≠ [] := by
          intro hnil
          rw [hnil] at hlastStored
          cases hlastStored
        rw [List.getLast?_append_of_ne_nil _ hne, hlastStored] at hlast
        exact (Option.some.inj hlast).symm
      refine ⟨past ++ s.tty.stored, hb, ?_, ?_, ?_, ?_, ?_, ?_⟩
      · simpa [State.finish, Input.stored] using h.text_eq
      · simpa [State.finish, State.returned, State.held, State.copied, Input.stored,
          Result.data] using hreturned
      · exact hclosed
      · intro _ hmem
        simp [State.finish, Input.stored] at hmem
      · intro _ hne
        simp [State.finish, State.copied] at hne
      · intro u bytes' hr'
        cases hr'

/-- What leaves the buffer, the settings and the records alone keeps the stream. -/
theorem Streamed.of_idle
    (h : Streamed s past) (hidle : s.reading = none) (hidle' : s'.reading = none)
    (hsettings : s'.tty.termios = s.tty.termios) (hstart : s'.tty.bufferStart = s.tty.bufferStart)
    (hend : s'.tty.bufferEnd = s.tty.bufferEnd) (hbuffer : s'.tty.buffer = s.tty.buffer)
    (hedits : s'.edits = s.edits) (hresults : s'.returned = s.returned) :
    Streamed s' past := by
  have hstored : s'.tty.stored = s.tty.stored := by
    simp only [Input.stored, hend, hbuffer]
  have hcopied : s'.copied = s.copied := by
    simp [State.copied, hidle, hidle', hstart]
  have hheld : s'.held = s.held := by
    simp [State.held, hidle, hidle']
  have hshould : s'.tty.shouldRead = s.tty.shouldRead := by
    simp only [Input.shouldRead, hsettings, hend, hbuffer]
  refine ⟨h.bounded.of_idle hidle' hstart hend, ?_, ?_, ?_, ?_, ?_, ?_⟩
  · rw [hedits, hstored, h.text_eq]
  · rw [hresults, hheld, hstored, hcopied, h.returned_eq]
  · rw [hsettings]
    exact h.closed
  · rw [hsettings, hstored]
    exact h.line
  · rw [hsettings, hcopied, hshould]
    exact h.copied_shouldRead
  · intro u bytes hr
    rw [hidle'] at hr
    cases hr

/-- Every step that leaves the settings alone keeps the stream, unless a key is accepted
between test and reset. -/
theorem Streamed.step
    (h : Streamed s past) (hok : KeepsReset s op = true) (hs : inputMachine.Step s op s') :
    ∃ past', Streamed s' past' := by
  obtain ⟨hen, hex⟩ := hs
  cases op with
  | key chr hasCtrl hasAlt =>
      cases hex
      exact ⟨past, h.key hok⟩
  | switchForeground foreground =>
      cases hex
      obtain ⟨hstart, hend, hready⟩ := h.bounded
      exact ⟨past, ⟨hstart, hend, hready⟩, h.text_eq, h.returned_eq, h.closed, h.line,
        h.copied_shouldRead, h.reset_eq⟩
  | read u nbytes =>
      cases hex
      simp only [inputMachine, Bool.and_eq_true, Option.isNone_iff_eq_none] at hen
      refine ⟨past, ?_⟩
      simp only [State.read]
      split
      next =>
        exact h.of_idle hen.1.1 hen.1.1 rfl rfl rfl rfl rfl
          (by simp [State.returned, Result.data])
      next => exact h.of_idle hen.1.1 hen.1.1 rfl rfl rfl rfl rfl rfl
  | resume u signalPending =>
      simp only [inputMachine, Bool.and_eq_true, Option.isNone_iff_eq_none] at hen
      simp only [inputMachine] at hex
      split at hex
      next nbytes _ =>
        cases hex
        have hb : Bounded (s.resume u nbytes signalPending) := h.bounded.resume
        refine ⟨past, ?_⟩
        simp only [State.resume] at hb ⊢
        split at hb
        next hwait =>
          rw [if_pos hwait]
          exact h
        next hwait =>
          rw [if_neg hwait]
          refine ⟨hb, h.text_eq, ?_, h.closed, h.line, ?_, ?_⟩
          · simpa [State.returned, State.held, State.copied, hen.1, Statement.held,
              Statement.copied, Input.stored] using h.returned_eq
          · simpa [State.copied, hen.1, Statement.copied, Input.shouldRead]
              using h.copied_shouldRead
          · intro v bytes hr
            cases hr
      next =>
        cases hex
        exact ⟨past, h⟩
  | next signalPending =>
      simp only [inputMachine] at hex
      split at hex
      next u statement hr => exact h.next hr hex
      next =>
        cases hex
        exact ⟨past, h⟩
  | poll u =>
      cases hex
      simp only [inputMachine, Bool.and_eq_true, Option.isNone_iff_eq_none] at hen
      exact ⟨past, h.of_idle hen.1 hen.1 rfl rfl rfl rfl rfl rfl⟩
  | pollCb u =>
      cases hex
      simp only [inputMachine, Bool.and_eq_true, Option.isNone_iff_eq_none] at hen
      refine ⟨past, ?_⟩
      simp only [State.pollCb]
      split
      next => exact h.of_idle hen.1 hen.1 rfl rfl rfl rfl rfl rfl
      next => exact h
  | tcsets termios => cases hok

theorem Fresh.streamed (h : Fresh s) : Streamed s [] := by
  have hb := h.bounded
  obtain ⟨-, hstart, hend, -, hidle, hedits, hresults⟩ := h
  refine ⟨hb, ?_, ?_, ?_, ?_, ?_, ?_⟩
  · simp [hedits, text, Input.stored, hend]
  · simp [State.returned, State.held, hresults, hidle, Input.stored, hend]
  · intro _ chr hlast
    cases hlast
  · simp [Input.stored, hend]
  · intro _ hne
    simp [State.copied, hidle, hstart] at hne
  · intro u bytes hr
    rw [hidle] at hr
    cases hr

/-- Between reads, what is unread follows what was returned. -/
theorem Streamed.text_returned (h : Streamed s past) (hidle : s.reading = none) :
    text s.edits = s.returned ++ s.tty.unread := by
  have hreturned : s.returned = past ++ s.tty.stored.take s.tty.bufferStart := by
    simpa [State.held, State.copied, hidle] using h.returned_eq
  rw [h.text_eq, hreturned, Input.unread, List.append_assoc, List.take_append_drop]

/-- A canonical terminal returns bytes of committed lines only. -/
theorem Streamed.returned_committed
    (h : Streamed s past) (hcanon : s.tty.termios.icanon = true) :
    s.returned <+: committed (text s.edits) := by
  have hstarts : s.returned <+: past ++ s.tty.stored.take s.copied := by
    rw [← h.returned_eq]
    exact List.prefix_append _ _
  refine hstarts.trans ?_
  rw [h.text_eq]
  by_cases hzero : s.copied = 0
  · rw [hzero, List.take_zero, List.append_nil]
    exact (h.closed hcanon).prefix_committed _
  · have hlast := (shouldRead_canonical hcanon).mp (h.copied_shouldRead hcanon hzero)
    have hwhole : Closed (past ++ s.tty.stored) := by
      intro chr hchr
      have hne : s.tty.stored ≠ [] := by
        intro hnil
        rw [hnil] at hlast
        cases hlast
      rw [List.getLast?_append_of_ne_nil _ hne, hlast] at hchr
      exact (Option.some.inj hchr).symm
    have hall := hwhole.prefix_committed []
    rw [List.append_nil] at hall
    exact ((List.prefix_append_right_inj _).mpr (List.take_prefix _ _)).trans hall

/-- The step that interrupts a read leaves the terminal and the records alone. -/
theorem interrupted_step
    {signalPending : Bool} (hs : inputMachine.Step s (.next signalPending) s')
    (hres : s'.results = s.results ++ [(t, .interrupted)]) :
    s'.tty = s.tty ∧ s'.edits = s.edits ∧ s'.returned = s.returned := by
  obtain ⟨-, hex⟩ := hs
  have hreturned : s'.returned = s.returned := by
    simp [State.returned, hres, Result.data]
  simp only [inputMachine] at hex
  split at hex
  next u statement hr =>
    cases statement with
    | signalPending nbytes interrupted =>
        simp only [State.next, Except.ok.injEq] at hex
        subst hex
        refine ⟨?_, ?_, hreturned⟩
        · split <;> rfl
        · split <;> rfl
    | memcpy nbytes =>
        simp only [State.next] at hex
        split at hex
        next => cases hex
        next =>
          cases hex
          simp at hres
    | compare nbytes =>
        simp only [State.next, Except.ok.injEq] at hex
        subst hex
        split at hres <;> simp at hres
    | test bytes =>
        simp only [State.next, Except.ok.injEq] at hex
        subst hex
        split at hres <;> simp [State.finish] at hres
    | clamp | advance | reset =>
        cases hex
        simp [State.finish] at hres
  next =>
    cases hex
    exact ⟨rfl, rfl, rfl⟩

end Steps

/-- **Terminal input is a stream.**  In every run under fixed settings in which a raw
terminal accepts no key between the test of the indices and their reset, what the reads
return is the typed text from its beginning and the unread rest is in the buffer; a
canonical terminal returns bytes of committed lines only; and an interrupted read
consumes nothing. -/
theorem input_stream
    {s : State} (h : inputMachine.Reach Fresh (fun s op => KeepsReset s op = true) s) :
    (s.reading = none → text s.edits = s.returned ++ s.tty.unread) ∧
    (s.tty.termios.icanon = true → s.returned <+: committed (text s.edits)) ∧
    ∀ signalPending t s', inputMachine.Step s (.next signalPending) s' →
      s'.results = s.results ++ [(t, .interrupted)] →
        s'.tty = s.tty ∧ s'.edits = s.edits ∧ s'.returned = s.returned := by
  obtain ⟨past, hstream⟩ : ∃ past, Streamed s past :=
    h.invariant (P := fun s => ∃ past, Streamed s past) (fun _ h0 => ⟨[], h0.streamed⟩)
      fun _ _ _ ⟨_, hp⟩ hok hs => hp.step hok hs
  exact ⟨hstream.text_returned, hstream.returned_committed,
    fun _ _ _ hs hres => interrupted_step hs hres⟩

/-- A key, and a read of it up to the test of the indices. -/
def typeAndRead : List Op :=
  [.key 97 false false, .read 1 1, .resume 1 false, .next false, .next false, .next false,
    .next false]

theorem input_stream_typeAndRead :
    ∃ s, (inputMachine.Reach Fresh (fun s op => KeepsReset s op = true) s ∧
        s.returned = [97] ∧ s.tty.unread = [98]) ∧
      (s.reading = none → text s.edits = s.returned ++ s.tty.unread) ∧
      (s.tty.termios.icanon = true → s.returned <+: committed (text s.edits)) ∧
      ∀ signalPending t s', inputMachine.Step s (.next signalPending) s' →
        s'.results = s.results ++ [(t, .interrupted)] →
          s'.tty = s.tty ∧ s'.edits = s.edits ∧ s'.returned = s.returned := by
  have hrun : ((inputMachine.guard KeepsReset).runLabels
        (typeAndRead ++ [.key 98 false false, .next false]) rawTerminal).any
      (fun s => s.returned == [97] && s.tty.unread == [98]) = true := by
    decide +kernel
  obtain ⟨s, hreach, hs⟩ := Machine.exists_reach_of_run
    (show Fresh rawTerminal from ⟨rfl, rfl, rfl, fun _ => rfl, rfl, rfl, rfl⟩) hrun
  simp only [Bool.and_eq_true, beq_iff_eq] at hs
  have hreach' := Machine.Reach.of_guard hreach
  exact ⟨s, ⟨hreach', hs⟩, input_stream hreach'⟩

/-- Does the step leave the settings alone? -/
def Op.keepsSettings : Op → Bool
  | .tcsets _ => false
  | _ => true

/-- The same second key, one statement later, is lost: it was typed, and is neither
returned nor in the buffer. -/
theorem key_lost :
    ∃ s, inputMachine.Reach Fresh (fun _ op => op.keepsSettings = true) s ∧
      s.reading = none ∧ text s.edits = [97, 98] ∧ s.returned = [97] ∧
      s.tty.unread = [] := by
  have hrun : ((inputMachine.guard fun _ op => op.keepsSettings).runLabels
        (typeAndRead ++ [.next false, .key 98 false false, .next false]) rawTerminal).any
      (fun s => s.reading.isNone && text s.edits == [97, 98] && s.returned == [97] &&
        s.tty.unread == []) = true := by
    decide +kernel
  obtain ⟨s, hreach, hs⟩ := Machine.exists_reach_of_run
    (show Fresh rawTerminal from ⟨rfl, rfl, rfl, fun _ => rfl, rfl, rfl, rfl⟩) hrun
  simp only [Bool.and_eq_true, beq_iff_eq, Option.isNone_iff_eq_none] at hs
  exact ⟨s, Machine.Reach.of_guard hreach, hs.1.1.1, hs.1.1.2, hs.1.2, hs.2⟩

end Tty
end JkxyKernel
