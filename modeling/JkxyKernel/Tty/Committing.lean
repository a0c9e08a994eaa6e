import JkxyKernel.Tty.InputBounds

/-!
# Committing a line

Enter commits the line of a canonical terminal and wakes the task that waits in `tty_read`;
`tty->task` is that task for as long as it waits.

The newline is stored like any other character, where there is room for it.  When the line
fills the buffer Enter is ignored as the other keys are, and what was typed is out of reach
of the reader until some of it is taken back.
-/

namespace JkxyKernel
namespace Tty

/-- Enter, as the keyboard reports it. -/
def enter : Chr := 10

/-- After Enter there is a line to be read, and whoever waits for it is woken. -/
def State.Commits (s : State) : Prop :=
  (s.key enter false false).tty.shouldRead = true ∧
    ∀ t, (s.waiting t).isSome →
      .wakeUpProcess t ∈ (s.tty.keyboard enter false false).2

/-- The newline is the interrupt character of the terminal. -/
def Termios.interruptsEnter (termios : Termios) : Bool :=
  termios.isig && termios.vintr == wakeupChar

/-- The task of the terminal is the one that waits. -/
def Awaited (s : State) : Prop :=
  ∀ t, (s.waiting t).isSome → s.tty.task = some t

section Steps

variable {tty : Input} {s s' : State} {op : Op}

theorem keyboard_task (key : Chr) (hasCtrl hasAlt : Bool) :
    (tty.keyboard key hasCtrl hasAlt).1.task = tty.task := by
  rcases keyboard_cases tty key hasCtrl hasAlt with
    ⟨-, hsame⟩ | ⟨-, -, -, -, hpop⟩ | ⟨chr, -, -, -, hpush⟩
  · rw [hsame]
  · rw [hpop]
    rfl
  · rw [hpush]
    rfl

/-- A step that changes neither the task nor who waits. -/
theorem Awaited.of_same (h : Awaited s) (htask : s'.tty.task = s.tty.task)
    (hwaiting : s'.waiting = s.waiting) : Awaited s' := by
  intro t ht
  rw [htask]
  exact h t (hwaiting ▸ ht)

theorem Awaited.next
    {t : TaskId} {signalPending : Bool} {statement : Statement} (h : Awaited s)
    (hs : s.next t signalPending statement = .ok s') : Awaited s' := by
  cases statement with
  | signalPending nbytes interrupted =>
      cases hs
      split
      next => exact h.of_same rfl rfl
      next => exact h.of_same rfl rfl
  | compare nbytes =>
      cases hs
      split
      next => exact h.of_same rfl rfl
      next => exact h.of_same rfl rfl
  | memcpy nbytes =>
      simp only [State.next] at hs
      split at hs
      next => cases hs
      next =>
        cases hs
        exact h.of_same rfl rfl
  | test bytes =>
      cases hs
      split
      next => exact h.of_same rfl rfl
      next => exact h.of_same rfl rfl
  | clamp | advance nbytes bytes | reset bytes =>
      cases hs
      exact h.of_same rfl rfl

theorem Awaited.step (h : Awaited s) (hs : inputMachine.Step s op s') : Awaited s' := by
  obtain ⟨hen, hex⟩ := hs
  cases op with
  | key chr hasCtrl hasAlt =>
      cases hex
      simp only [State.key]
      split
      next => exact h.of_same (keyboard_task chr hasCtrl hasAlt) rfl
      next => exact h
  | switchForeground foreground =>
      cases hex
      exact h.of_same rfl rfl
  | read u nbytes =>
      cases hex
      simp only [State.read]
      split
      next => exact h.of_same rfl rfl
      next hfree =>
        intro t ht
        by_cases htu : t = u
        · rw [htu]
        · -- nobody else waits: the terminal had no task
          have hwaits : (s.waiting t).isSome := by
            simpa only [Function.update_of_ne htu] using ht
          rw [h t hwaits] at hfree
          exact absurd rfl hfree
  | resume u signalPending =>
      simp only [inputMachine] at hex
      split at hex
      next nbytes hu =>
        cases hex
        simp only [State.resume]
        split
        next => exact h
        next =>
          intro t ht
          have hut : some u = some t := by
            rw [← h u (by rw [hu]; rfl)]
            by_cases htu : t = u
            · rw [htu]
              exact h u (by rw [hu]; rfl)
            · exact h t (by simpa only [Function.update_of_ne htu] using ht)
          cases hut
          simp at ht
      next =>
        cases hex
        exact h
  | next signalPending =>
      simp only [inputMachine] at hex
      split at hex
      next => exact h.next hex
      next =>
        cases hex
        exact h
  | poll u =>
      cases hex
      intro t ht
      simp only [State.poll, h t ht, Option.getD_some]
  | pollCb u =>
      cases hex
      simp only [inputMachine, Bool.and_eq_true, Option.isNone_iff_eq_none] at hen
      simp only [State.pollCb]
      split
      next htask =>
        intro t ht
        have htu : u = t := Option.some.inj (htask.symm.trans (h t ht))
        rw [← htu, hen.2] at ht
        cases ht
      next => exact h
  | tcsets termios =>
      cases hex
      exact h.of_same rfl rfl

theorem Fresh.awaited (h : Fresh s) : Awaited s := by
  obtain ⟨-, -, -, hwaiting, -⟩ := h
  intro t ht
  rw [hwaiting] at ht
  cases ht

end Steps

section Enter

variable {tty : Input}

theorem enter_toInt_beq_vintr :
    (enter.toInt == (tty.termios.vintr.toNat : Int)) = (tty.termios.vintr == wakeupChar) := by
  rw [Bool.eq_iff_iff, beq_iff_eq, beq_iff_eq, ← BitVec.toNat_inj]
  have hint : enter.toInt = 10 := rfl
  have hnat : wakeupChar.toNat = 10 := rfl
  omega

/-- What Enter does to a line that is not committed. -/
theorem action_enter (hcanon : tty.termios.icanon = true) (hline : tty.shouldRead = false) :
    tty.action enter false false =
      if tty.termios.interruptsEnter then .interrupt enter
      else if tty.bufferEnd < bufferSize then .accept enter else .ignored := by
  have hcontrol : Input.control enter false false = (enter, false) := rfl
  have hnotL : (enter == 76 - controlOffset) = false := rfl
  have hnonzero : (enter != 0) = true := rfl
  have hnotBackspace : (enter == backspace) = false := rfl
  rw [Input.action, hcontrol]
  simp only [hcanon, hline, hnotL, hnonzero, hnotBackspace, enter_toInt_beq_vintr,
    Termios.interruptsEnter, Bool.or_false, Bool.and_true, Bool.and_false, Bool.false_eq_true,
    if_false]
  rfl

theorem shouldRead_push_enter (hcanon : tty.termios.icanon = true) :
    (tty.push enter).shouldRead = true := by
  have hlast : (tty.push enter).buffer ((tty.push enter).bufferEnd - 1) = wakeupChar :=
    Function.update_self ..
  have hcanon' : (tty.push enter).termios.icanon = true := hcanon
  rw [Input.shouldRead, if_pos hcanon', hlast]
  rfl

/-- A key that stores nothing leaves the line as it is. -/
theorem keyboard_enter_of_not_accept
    (h : tty.action enter false false = .ignored ∨
      tty.action enter false false = .interrupt enter) :
    (tty.keyboard enter false false).1 = tty := by
  refine keyboard_of_edit_nil ?_
  rcases h with h | h
  · rw [h]
    rfl
  · rw [h]
    rfl

end Enter

/-- **Enter commits the line where there is room for it.**  However an uncommitted line of a
canonical terminal in the foreground came about, Enter makes it readable and wakes whoever
waits for it exactly if the buffer is not full, and the newline is not the interrupt
character. -/
theorem enter_commits_iff
    {s : State} (h : inputMachine.Reach Fresh (fun _ _ => True) s)
    (hforeground : s.foreground = true) (hcanon : s.tty.termios.icanon = true)
    (hline : s.tty.shouldRead = false) :
    s.Commits ↔ s.tty.bufferEnd < bufferSize ∧ s.tty.termios.interruptsEnter = false := by
  have hawaited : Awaited s :=
    h.invariant (fun _ h0 => h0.awaited) fun _ _ _ hP _ hs => hP.step hs
  have haction := action_enter hcanon hline
  have hkey : (s.key enter false false).tty = (s.tty.keyboard enter false false).1 := by
    rw [State.key, if_pos hforeground]
  rw [State.Commits, hkey]
  cases hinterrupts : s.tty.termios.interruptsEnter with
  | true =>
      rw [hinterrupts, if_pos rfl] at haction
      refine iff_of_false (fun hcommits => ?_) fun hboth => absurd hboth.2.symm Bool.false_ne_true
      rw [keyboard_enter_of_not_accept (.inr haction), hline] at hcommits
      cases hcommits.1
  | false =>
      rw [hinterrupts, if_neg Bool.false_ne_true] at haction
      by_cases hroom : s.tty.bufferEnd < bufferSize
      · rw [if_pos hroom] at haction
        refine iff_of_true ⟨?_, fun t ht => ?_⟩ ⟨hroom, rfl⟩
        · simp only [Input.keyboard, haction, shouldRead_push_enter hcanon]
        · have hwakes : (!s.tty.termios.icanon || enter == wakeupChar) = true := by
            rw [hcanon]
            rfl
          simp only [Input.keyboard, haction, hawaited t ht]
          rw [if_pos hwakes]
          exact List.mem_append_right _ (List.mem_singleton_self _)
      · rw [if_neg hroom] at haction
        refine iff_of_false (fun hcommits => ?_) fun hboth => hroom hboth.1
        rw [keyboard_enter_of_not_accept (.inl haction), hline] at hcommits
        cases hcommits.1

/-- The terminal in canonical mode, with a task in `tty_read`. -/
def canonicalTerminal : State :=
  { rawTerminal with tty := { rawTerminal.tty with termios := canonicalTermios } }

theorem canonicalTerminal_fresh : Fresh canonicalTerminal :=
  ⟨rfl, rfl, rfl, fun _ => rfl, rfl, rfl, rfl⟩

/-- A reader waits, and so many characters are typed. -/
def typingRun (n : Nat) : List Op :=
  .read 1 80 :: List.replicate n (.key 97 false false)

theorem enter_commits_short :
    ∃ s, (inputMachine.Reach Fresh (fun _ _ => True) s ∧ s.foreground = true ∧
        s.tty.termios.icanon = true ∧ s.tty.shouldRead = false ∧ s.waiting 1 = some 80) ∧
      (s.Commits ↔ s.tty.bufferEnd < bufferSize ∧ s.tty.termios.interruptsEnter = false) := by
  have hrun : (inputMachine.runLabels (typingRun 2) canonicalTerminal).any
      (fun s => s.foreground && s.tty.termios.icanon && !s.tty.shouldRead &&
        s.waiting 1 == some 80) = true := by
    decide +kernel
  obtain ⟨s, hreach, hs⟩ := Machine.exists_reach_of_run canonicalTerminal_fresh hrun
  simp only [Bool.and_eq_true, Bool.not_eq_true', beq_iff_eq] at hs
  obtain ⟨⟨⟨hforeground, hcanon⟩, hline⟩, hwaiting⟩ := hs
  exact ⟨s, ⟨hreach, hforeground, hcanon, hline, hwaiting⟩,
    enter_commits_iff hreach hforeground hcanon hline⟩

/-- After 128 characters Enter is ignored: there is nothing to read, and nobody is woken. -/
theorem enter_ignored :
    ∃ s, inputMachine.Reach Fresh (fun _ _ => True) s ∧ s.foreground = true ∧
      s.tty.termios.icanon = true ∧ s.tty.shouldRead = false ∧ s.waiting 1 = some 80 ∧
      (s.key enter false false).tty.shouldRead = false ∧
      (s.tty.keyboard enter false false).2 = [] ∧ ¬ s.Commits := by
  have hrun : (inputMachine.runLabels (typingRun 128) canonicalTerminal).any
      (fun s => s.foreground && s.tty.termios.icanon && !s.tty.shouldRead &&
        s.waiting 1 == some 80 && !(s.key enter false false).tty.shouldRead &&
        (s.tty.keyboard enter false false).2 == []) = true := by
    decide +kernel
  obtain ⟨s, hreach, hs⟩ := Machine.exists_reach_of_run canonicalTerminal_fresh hrun
  simp only [Bool.and_eq_true, Bool.not_eq_true', beq_iff_eq] at hs
  obtain ⟨⟨⟨⟨⟨hforeground, hcanon⟩, hline⟩, hwaiting⟩, hafter⟩, hnobody⟩ := hs
  refine ⟨s, hreach, hforeground, hcanon, hline, hwaiting, hafter, hnobody, fun hcommits => ?_⟩
  rw [hcommits.1] at hafter
  cases hafter

end Tty
end JkxyKernel
