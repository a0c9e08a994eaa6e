import JkxyKernel.Tty.Input

/-!
# The bounds of the input buffer

Each mode keeps `buffer_start` at or below `buffer_end` by itself.  A raw terminal only
appends; a canonical one takes characters back, but only while its line is not
committed, when nothing of it can have been read.

A change of mode breaks this.  What a raw read left behind is an uncommitted line to a
canonical terminal, and backspace takes `buffer_end` back over the characters that were
read.  The next read then finds a negative number of characters, compares it as an
unsigned one, and copies whatever it is asked for.
-/

namespace JkxyKernel
namespace Tty

/-- What a read has established before its next statement. -/
def Statement.Ready (tty : Input) : Statement → Prop
  | .signalPending _ interrupted => interrupted = false → tty.shouldRead = true
  | .compare _ | .clamp | .test _ | .reset _ => tty.shouldRead = true
  | .memcpy nbytes | .advance nbytes _ =>
      tty.shouldRead = true ∧ tty.bufferStart + nbytes ≤ tty.bufferEnd

/-- The indices are in order, and the read in progress has what it relies on. -/
structure Bounded (s : State) : Prop where
  start_le : s.tty.bufferStart ≤ s.tty.bufferEnd
  end_le : s.tty.bufferEnd ≤ bufferSize
  ready : ∀ t statement, s.reading = some (t, statement) → statement.Ready s.tty

/-- A backspace that shortens the line finds a character that was not read. -/
def ErasesUnread (s : State) : Op → Bool
  | .key chr hasCtrl hasAlt =>
      !(s.foreground && s.tty.action chr hasCtrl hasAlt == .erase &&
        s.tty.bufferStart == s.tty.bufferEnd)
  | _ => true

section Steps

variable {tty : Input} {s s' : State} {t : TaskId} {op : Op}

theorem available_eq (hle : tty.bufferStart ≤ tty.bufferEnd) (hend : tty.bufferEnd ≤ bufferSize) :
    tty.available = tty.bufferEnd - tty.bufferStart := by
  simp only [Input.available, bufferSize] at *
  omega

/-- Statements that rely on nothing but something to read. -/
theorem Statement.Ready.of_not_shouldRead
    {tty' : Input} {statement : Statement}
    (h : statement.Ready tty) (hnot : tty.shouldRead = false) : statement.Ready tty' := by
  have hfalse : tty.shouldRead ≠ true := by simp [hnot]
  cases statement with
  | signalPending nbytes interrupted => exact fun hi => absurd (h hi) hfalse
  | compare nbytes => exact absurd h hfalse
  | clamp => exact absurd h hfalse
  | memcpy nbytes => exact absurd h.1 hfalse
  | advance nbytes bytes => exact absurd h.1 hfalse
  | test bytes => exact absurd h hfalse
  | reset bytes => exact absurd h hfalse

/-- A raw terminal with one more character is still ready for the read in progress. -/
theorem Statement.Ready.push
    {statement : Statement} {chr : Chr}
    (hraw : tty.termios.icanon = false) (h : statement.Ready tty) :
    statement.Ready (tty.push chr) := by
  have hshould : (tty.push chr).shouldRead = true := by
    refine (shouldRead_raw ?_).mpr (Nat.succ_ne_zero _)
    exact hraw
  cases statement with
  | signalPending nbytes interrupted => exact fun _ => hshould
  | compare nbytes => exact hshould
  | clamp => exact hshould
  | memcpy nbytes => exact ⟨hshould, Nat.le_succ_of_le h.2⟩
  | advance nbytes bytes => exact ⟨hshould, Nat.le_succ_of_le h.2⟩
  | test bytes => exact hshould
  | reset bytes => exact hshould

/-- No key disturbs the read in progress. -/
theorem Statement.Ready.keyboard
    {statement : Statement} (h : statement.Ready tty) (chr : Chr) (hasCtrl hasAlt : Bool) :
    statement.Ready (tty.keyboard chr hasCtrl hasAlt).1 := by
  cases hshould : tty.shouldRead with
  | false => exact h.of_not_shouldRead hshould
  | true =>
      rcases keyboard_shouldRead hshould with hsame | ⟨hraw, c, -, -, hkey⟩
      · rw [hsame]
        exact h
      · rw [hkey]
        exact h.push hraw

/-- A key keeps the indices in order if it takes back no character that was read. -/
theorem Bounded.key
    {chr : Chr} {hasCtrl hasAlt : Bool}
    (h : Bounded s) (hok : ErasesUnread s (.key chr hasCtrl hasAlt) = true) :
    Bounded (s.key chr hasCtrl hasAlt) := by
  simp only [State.key]
  split
  next hforeground =>
    have hready := fun t statement hr => (h.ready t statement hr).keyboard chr hasCtrl hasAlt
    have hstart := h.start_le
    have hend := h.end_le
    rcases keyboard_cases s.tty chr hasCtrl hasAlt with
      ⟨-, hsame⟩ | ⟨herase, -, -, hpos, hkey⟩ | ⟨c, -, hroom, -, hkey⟩
    · exact ⟨by rw [hsame]; exact hstart, by rw [hsame]; exact hend, hready⟩
    · have hne : s.tty.bufferStart ≠ s.tty.bufferEnd := by
        intro heq
        simp [ErasesUnread, hforeground, herase, heq] at hok
      refine ⟨?_, ?_, hready⟩
      · simp only [hkey, Input.pop]
        omega
      · simp only [hkey, Input.pop]
        omega
    · refine ⟨?_, ?_, hready⟩
      · simp only [hkey, Input.push]
        omega
      · simp only [hkey, Input.push]
        omega
  next => exact h

/-- A state without a read in progress has nothing to be ready for. -/
theorem Bounded.of_idle
    {s' : State} (h : Bounded s) (hidle : s'.reading = none)
    (hstart : s'.tty.bufferStart = s.tty.bufferStart)
    (hend : s'.tty.bufferEnd = s.tty.bufferEnd) : Bounded s' := by
  refine ⟨?_, ?_, ?_⟩
  · rw [hstart, hend]
    exact h.start_le
  · rw [hend]
    exact h.end_le
  · intro t statement hr
    rw [hidle] at hr
    cases hr

/-- The end of the wait leaves something to read, or an interrupted read. -/
theorem Bounded.resume
    {nbytes : Nat} {signalPending : Bool} (h : Bounded s) :
    Bounded (s.resume t nbytes signalPending) := by
  simp only [State.resume]
  split
  next => exact h
  next hwait =>
    refine ⟨h.start_le, h.end_le, ?_⟩
    intro u statement hr
    cases hr
    rintro rfl
    cases hshould : s.tty.shouldRead with
    | false => simp [hshould] at hwait
    | true => exact hshould

/-- One statement of a read goes well, and readies the next one. -/
theorem Bounded.next
    {statement : Statement} (h : Bounded s) (signalPending : Bool)
    (hr : s.reading = some (t, statement)) :
    ∃ s', s.next t signalPending statement = .ok s' ∧ Bounded s' := by
  have hready := h.ready t statement hr
  have hstart := h.start_le
  have hend := h.end_le
  have havail := available_eq hstart hend
  -- what becomes of the invariant when only the next statement changes
  have hgoto : ∀ statement' : Statement, statement'.Ready s.tty →
      Bounded { s with reading := some (t, statement') } := by
    intro statement' hready'
    refine ⟨hstart, hend, ?_⟩
    intro u statement'' hr'
    cases hr'
    exact hready'
  cases statement with
  | signalPending nbytes interrupted =>
      refine ⟨_, rfl, ?_⟩
      split
      next => exact h.of_idle rfl rfl rfl
      next hno =>
        simp only [Bool.or_eq_true, not_or, Bool.not_eq_true] at hno
        exact hgoto _ (hready hno.1)
  | compare nbytes =>
      refine ⟨_, rfl, ?_⟩
      split
      next => exact hgoto _ hready
      next hle => exact hgoto _ ⟨hready, by omega⟩
  | clamp => exact ⟨_, rfl, hgoto _ ⟨hready, by omega⟩⟩
  | memcpy nbytes =>
      have hin : ¬ bufferSize < s.tty.bufferStart + nbytes := by
        have := hready.2
        omega
      refine ⟨_, if_neg hin, ?_⟩
      exact hgoto (.advance nbytes _) hready
  | advance nbytes bytes =>
      have hle := hready.2
      have hwrap : (s.tty.bufferStart + nbytes) % 2 ^ 8 = s.tty.bufferStart + nbytes := by
        simp only [bufferSize] at hend
        omega
      refine ⟨_, rfl, ⟨?_, hend, ?_⟩⟩
      · simp only [hwrap]
        exact hle
      · intro u statement' hr'
        cases hr'
        exact hready.1
  | test bytes =>
      refine ⟨_, rfl, ?_⟩
      split
      next => exact hgoto _ hready
      next => exact h.of_idle rfl rfl rfl
  | reset bytes =>
      refine ⟨_, rfl, ⟨Nat.le_refl 0, Nat.zero_le _, ?_⟩⟩
      intro u statement' hr'
      cases hr'

/-- Every step that takes back no character that was read keeps the bounds. -/
theorem Bounded.step
    (h : Bounded s) (hok : ErasesUnread s op = true) (hs : inputMachine.Step s op s') :
    Bounded s' := by
  obtain ⟨hen, hex⟩ := hs
  cases op with
  | key chr hasCtrl hasAlt =>
      cases hex
      exact h.key hok
  | switchForeground foreground =>
      cases hex
      exact ⟨h.start_le, h.end_le, h.ready⟩
  | read u nbytes =>
      cases hex
      simp only [inputMachine, Bool.and_eq_true, Option.isNone_iff_eq_none] at hen
      simp only [State.read]
      split
      next => exact ⟨h.start_le, h.end_le, h.ready⟩
      next => exact h.of_idle hen.1.1 rfl rfl
  | resume u signalPending =>
      simp only [inputMachine] at hex
      split at hex
      next =>
        cases hex
        exact h.resume
      next =>
        cases hex
        exact h
  | next signalPending =>
      simp only [inputMachine] at hex
      split at hex
      next u statement hr =>
        obtain ⟨s₁, hs₁, hb⟩ := h.next signalPending hr
        rw [hs₁] at hex
        cases hex
        exact hb
      next =>
        cases hex
        exact h
  | poll u =>
      cases hex
      simp only [inputMachine, Bool.and_eq_true, Option.isNone_iff_eq_none] at hen
      exact h.of_idle hen.1 rfl rfl
  | pollCb u =>
      cases hex
      simp only [inputMachine, Bool.and_eq_true, Option.isNone_iff_eq_none] at hen
      simp only [State.pollCb]
      split
      next => exact h.of_idle hen.1 rfl rfl
      next => exact h
  | tcsets termios =>
      cases hex
      simp only [inputMachine, Option.isNone_iff_eq_none] at hen
      exact h.of_idle hen rfl rfl

/-- No step faults while the bounds hold. -/
theorem Bounded.not_faults {e : Fault} (h : Bounded s) : ¬ inputMachine.Faults s op e := by
  rintro ⟨-, hex⟩
  cases op with
  | next signalPending =>
      simp only [inputMachine] at hex
      split at hex
      next u statement hr =>
        obtain ⟨s₁, hs₁, -⟩ := h.next signalPending hr
        rw [hs₁] at hex
        cases hex
      next => cases hex
  | resume u signalPending =>
      simp only [inputMachine] at hex
      split at hex <;> cases hex
  | key | switchForeground | read | poll | pollCb | tcsets => cases hex

theorem Fresh.bounded (h : Fresh s) : Bounded s := by
  obtain ⟨-, hstart, hend, -, hidle, -, -⟩ := h
  refine ⟨by omega, by omega, ?_⟩
  intro t statement hr
  rw [hidle] at hr
  cases hr

end Steps

/-- **The bounds of the input buffer.**  In every run in which no backspace takes back a
character that was read already, the indices stay in order and inside the buffer, and no
read copies anything beyond it. -/
theorem input_bounds
    {s : State} (h : inputMachine.Reach Fresh (fun s op => ErasesUnread s op = true) s) :
    s.tty.bufferStart ≤ s.tty.bufferEnd ∧ s.tty.bufferEnd ≤ bufferSize ∧
      ∀ op e, ¬ inputMachine.Faults s op e := by
  have hb : Bounded s :=
    h.invariant (fun _ h0 => h0.bounded) fun _ _ _ hb hok hs => hb.step hok hs
  exact ⟨hb.start_le, hb.end_le, fun _ _ => hb.not_faults⟩

/-- Settings in which every key is a character, in raw mode. -/
def rawTermios : Termios where
  oflag := 0
  lflag := 0
  cc _ := 0

/-- The same in canonical mode. -/
def canonicalTermios : Termios :=
  { rawTermios with lflag := 0o2 }

/-- A fresh terminal in raw mode, in the foreground. -/
def rawTerminal : State where
  tty :=
    { task := none, termios := rawTermios, bufferStart := 0, bufferEnd := 0
      buffer := fun _ => 0 }
  foreground := true
  waiting _ := none
  reading := none
  edits := []
  results := []

/-- The statements of a read that clamps, or does not, and leaves something unread. -/
def readRun (t : TaskId) (nbytes : Nat) : List Op :=
  [.read t nbytes, .resume t false, .next false, .next false, .next false]

/-- Three characters are typed in raw mode and two of them read; in canonical mode the
line is then erased. -/
def eraseRun : List Op :=
  [.key 97 false false, .key 98 false false, .key 99 false false] ++
    readRun 1 2 ++ [.next false, .next false, .tcsets canonicalTermios,
      .key backspace false false]

theorem input_bounds_eraseRun :
    ∃ s, (inputMachine.Reach Fresh (fun s op => ErasesUnread s op = true) s ∧
      s.tty.bufferStart = 2) ∧
      (s.tty.bufferStart ≤ s.tty.bufferEnd ∧ s.tty.bufferEnd ≤ bufferSize ∧
        ∀ op e, ¬ inputMachine.Faults s op e) := by
  have hrun : ((inputMachine.guard ErasesUnread).runLabels eraseRun rawTerminal).any
      (fun s => s.tty.bufferStart == 2) = true := by
    decide +kernel
  obtain ⟨s, hreach, hstart⟩ := Machine.exists_reach_of_run
    (show Fresh rawTerminal from ⟨rfl, rfl, rfl, fun _ => rfl, rfl, rfl, rfl⟩) hrun
  have hreach' := Machine.Reach.of_guard hreach
  exact ⟨s, ⟨hreach', beq_iff_eq.mp hstart⟩, input_bounds hreach'⟩

/-- One more backspace leaves the start beyond the end, and a raw read of 200 bytes then
copies beyond the buffer. -/
theorem bufferStart_beyond_bufferEnd :
    ∃ s, inputMachine.Reach Fresh (fun _ _ => True) s ∧
      s.tty.bufferEnd < s.tty.bufferStart ∧
      inputMachine.Faults s (.next false) .outOfBounds := by
  have hrun : (inputMachine.runLabels (eraseRun ++
        [.key backspace false false, .tcsets rawTermios, .read 1 200, .resume 1 false,
          .next false, .next false]) rawTerminal).any
      (fun s => decide (s.tty.bufferEnd < s.tty.bufferStart) &&
        inputMachine.faultsWith (.next false) .outOfBounds s) = true := by
    decide +kernel
  obtain ⟨s, hreach, hs⟩ := Machine.exists_reach_of_run
    (show Fresh rawTerminal from ⟨rfl, rfl, rfl, fun _ => rfl, rfl, rfl, rfl⟩) hrun
  rw [Bool.and_eq_true, decide_eq_true_eq] at hs
  exact ⟨s, hreach, hs.1, Machine.faults_of_faultsWith hs.2⟩

end Tty
end JkxyKernel
