import JkxyKernel.Fp.Defs

/-!
# Isolation of the floating-point registers

Whoever has no saved copy owns the registers: a task with an address space and without a
copy is the running one, and the registers are what it is due (`TaskInv.owner`,
`TaskInv.resting`).  A copy, where there is one, is what its task is due
(`TaskInv.saved`).  The lazy save keeps this because it saves exactly when the owner
leaves the processor, the lazy load because it makes the returning task the owner.
-/

namespace JkxyKernel
namespace Fp

open JkxyKernel.Task (TaskId TaskState)

variable {ρ : Type}

/-- The invariant of one task. -/
structure TaskInv (s : State ρ) (t : TaskId) : Prop where
  undead : (s.pc t).alive = true → (s.task t).state ≠ .zombie ∧ (s.task t).state ≠ .dead
  saved : ∀ r, (s.pc t).alive = true → (s.task t).fxsaveData = .data r → s.due t = some r
  allocated : (s.pc t).alive = true → (s.task t).fxsaveData ≠ .freed
  unfreed : s.pc t = .exiting → (s.task t).fxsaveData ≠ .freed
  owner : t = s.current → (s.pc t).alive = true → s.pc t ≠ .user → (s.task t).mm = true →
    (s.task t).fxsaveData = .null → s.due t = some s.registers
  resting : t ≠ s.current → (s.pc t).alive = true → (s.task t).mm = true →
    (s.task t).fxsaveData ≠ .null
  user : s.pc t = .user → t = s.current ∧ (s.task t).mm = true ∧
    (s.task t).fxsaveData = .null ∧ (s.task t).userFrame = true
  entering : s.pc t = .execFrame → (s.task t).userFrame = true
  framed : s.pc t = .kernel → (s.task t).userFrame = true → (s.task t).mm = true
  loaded : s.pc t = .execLoad → (s.task t).mm = true ∧ (s.task t).userFrame = true

section Frames

variable {s s' : State ρ} {t : TaskId}

/-- A task that the step does not touch; if it runs, the registers are left alone, or are
its own business. -/
theorem TaskInv.congr
    (h : TaskInv s t) (hcur : s'.current = s.current) (htask : s'.task t = s.task t)
    (hpc : s'.pc t = s.pc t) (hdue : s'.due t = s.due t)
    (hown : t = s.current → s'.registers = s.registers ∨ s.pc t = .user) : TaskInv s' t := by
  constructor
  all_goals simp only [hcur, htask, hpc, hdue]
  · exact h.undead
  · exact h.saved
  · exact h.allocated
  · exact h.unfreed
  · intro heq halive hne hmm hnull
    rcases hown heq with hregs | huser
    · rw [hregs]
      exact h.owner heq halive hne hmm hnull
    · exact absurd huser hne
  · exact h.resting
  · exact h.user
  · exact h.entering
  · exact h.framed
  · exact h.loaded

/-- A task that the step does not touch, and that does not run. -/
theorem TaskInv.other
    (h : TaskInv s t) (hne : t ≠ s.current) (hcur : s'.current = s.current)
    (htask : s'.task t = s.task t) (hpc : s'.pc t = s.pc t) (hdue : s'.due t = s.due t) :
    TaskInv s' t :=
  h.congr hcur htask hpc hdue fun heq => absurd heq hne

theorem setPc_same {pc : Pc} : (s.setPc pc).pc s.current = pc := by
  simp [State.setPc]

theorem setPc_other {pc : Pc} (h : t ≠ s.current) : (s.setPc pc).pc t = s.pc t := by
  simp [State.setPc, h]

@[simp] theorem modTask_same {f : TaskStruct ρ → TaskStruct ρ} :
    (s.modTask t f).task t = f (s.task t) := by
  simp [State.modTask]

theorem modTask_other {u : TaskId} {f : TaskStruct ρ → TaskStruct ρ} (h : t ≠ u) :
    (s.modTask u f).task t = s.task t := by
  simp [State.modTask, h]

end Frames

section Steps

variable {s s' : State ρ} {t u : TaskId} {mem : Bool}

/-- The inversion lemma of `sched_fxsave`: only the copy of the caller changes, and a live
task with an address space has one afterwards. -/
theorem schedFxsave_cases (hex : s.schedFxsave mem = .ok s') :
    s' = s ∧ ((s.task s.current).fxsaveData.isNull = false ∨ (s.task s.current).mm = false ∨
        (s.task s.current).state = .zombie ∨ (s.task s.current).state = .dead) ∨
      s' = s.modTask s.current (fun r => { r with fxsaveData := .data s.registers }) ∧
        (s.task s.current).fxsaveData = .null ∧ (s.task s.current).mm = true := by
  simp only [State.schedFxsave] at hex
  split at hex
  next hskip =>
    cases hex
    exact .inl ⟨rfl, hskip⟩
  next hsave =>
    split at hex
    next => cases hex
    next =>
      cases hex
      simp only [not_or, Bool.not_eq_false] at hsave
      refine .inr ⟨rfl, ?_, hsave.2.1⟩
      cases hcopy : (s.task s.current).fxsaveData with
      | null => rfl
      | data r => simp [hcopy, Copy.isNull] at hsave
      | freed => simp [hcopy, Copy.isNull] at hsave

/-- The task that leaves the processor takes its registers along. -/
theorem TaskInv.schedFxsave
    (h : TaskInv s t) (hpc : s.pc s.current ≠ .user) (hex : s.schedFxsave mem = .ok s') :
    TaskInv { s' with current := u } t := by
  have hkernel : s.pc t ≠ .user := by
    intro huser
    have hcur := (h.user huser).1
    exact hpc (hcur ▸ huser)
  by_cases hcur : t = s.current
  · subst hcur
    rcases schedFxsave_cases hex with ⟨rfl, hskip⟩ | ⟨rfl, hnull, hmm⟩
    · have hsaved : (s'.pc s'.current).alive = true → (s'.task s'.current).mm = true →
          (s'.task s'.current).fxsaveData ≠ .null := by
        intro halive hmm hnull
        obtain ⟨hzombie, hdead⟩ := h.undead halive
        simp [hnull, hmm, hzombie, hdead, Copy.isNull] at hskip
      exact ⟨h.undead, h.saved, h.allocated, h.unfreed,
        fun _ halive _ hmm hnull => absurd hnull (hsaved halive hmm),
        fun _ halive hmm => hsaved halive hmm, fun huser => absurd huser hkernel,
        h.entering, h.framed, h.loaded⟩
    · constructor
      all_goals simp only [modTask_same]
      · exact h.undead
      · intro r halive heq
        cases heq
        exact h.owner rfl halive hkernel hmm hnull
      · exact fun _ heq => by cases heq
      · exact fun _ heq => by cases heq
      · exact fun _ _ _ _ heq => by cases heq
      · exact fun _ _ _ heq => by cases heq
      · exact fun huser => absurd huser hkernel
      · exact h.entering
      · exact h.framed
      · exact h.loaded
  · have hsame : s'.task t = s.task t ∧ s'.pc = s.pc ∧ s'.due = s.due := by
      rcases schedFxsave_cases hex with ⟨rfl, -⟩ | ⟨rfl, -, -⟩
      · exact ⟨rfl, rfl, rfl⟩
      · exact ⟨modTask_other hcur, rfl, rfl⟩
    obtain ⟨htask, hpcs, hdues⟩ := hsame
    constructor
    all_goals simp only [htask, hpcs, hdues]
    · exact h.undead
    · exact h.saved
    · exact h.allocated
    · exact h.unfreed
    · exact fun _ halive _ hmm hnull => absurd hnull (h.resting hcur halive hmm)
    · exact fun _ => h.resting hcur
    · exact fun huser => absurd huser hkernel
    · exact h.entering
    · exact h.framed
    · exact h.loaded

theorem TaskInv.switchTo
    (h : TaskInv s t) (hpc : s.pc s.current ≠ .user) (hex : s.switchTo u mem = .ok s') :
    TaskInv s' t := by
  simp only [State.switchTo] at hex
  split at hex
  next =>
    cases hex
    exact h
  next =>
    split at hex
    next => cases hex
    next s₁ hsave =>
      cases hex
      exact h.schedFxsave hpc hsave

/-- The returning task becomes the owner of the registers, and finds in them what it is
due. -/
theorem returnToUserspace_spec
    (h : TaskInv s s.current) (hpc : s.pc s.current = .kernel)
    (hframe : (s.task s.current).userFrame = true) :
    ∃ s', s.returnToUserspace = .ok s' ∧ s.due s.current = some s'.registers ∧
      s'.current = s.current ∧ s'.due = s.due ∧ s'.pc = Function.update s.pc s.current .user ∧
      (∀ t, t ≠ s.current → s'.task t = s.task t) ∧
      s'.task s.current = { s.task s.current with fxsaveData := .null } := by
  have halive : (s.pc s.current).alive = true := by simp [hpc, Pc.alive]
  have hmm : (s.task s.current).mm = true := h.framed hpc hframe
  cases hcopy : (s.task s.current).fxsaveData with
  | null =>
      refine ⟨s.setPc .user, ?_, h.owner rfl halive (by simp [hpc]) hmm hcopy, rfl, rfl, rfl,
        fun _ _ => rfl, ?_⟩
      · simp [State.returnToUserspace, State.retuserFxrstor, hcopy]
      · change s.task s.current = _
        rw [← hcopy]
  | data r =>
      refine ⟨({ s with registers := r }.modTask s.current fun x =>
        { x with fxsaveData := .null }).setPc .user, ?_, h.saved r halive hcopy, rfl, rfl, rfl,
        fun t ht => ?_, ?_⟩
      · simp [State.returnToUserspace, State.retuserFxrstor, hcopy]
      · simp [State.setPc, State.modTask, ht]
      · simp [State.setPc, State.modTask]
  | freed => exact absurd hcopy (h.allocated halive)

theorem TaskInv.returnToUserspace
    (h : TaskInv s t) (hself : TaskInv s s.current) (hpc : s.pc s.current = .kernel)
    (hframe : (s.task s.current).userFrame = true) (hex : s.returnToUserspace = .ok s') :
    TaskInv s' t := by
  obtain ⟨s₁, hok, -, hcurrent, hdue, hpcs, hrest, htask⟩ :=
    returnToUserspace_spec hself hpc hframe
  rw [hok] at hex
  cases hex
  by_cases hcur : t = s.current
  · subst hcur
    have halive : (s.pc s.current).alive = true := by simp [hpc, Pc.alive]
    constructor
    all_goals simp only [htask, hpcs, Function.update_self]
    · exact fun _ => h.undead halive
    · exact fun _ _ heq => by cases heq
    · exact fun _ heq => by cases heq
    · exact fun heq => by cases heq
    · exact fun _ _ heq => absurd rfl heq
    · exact fun hne => absurd hcurrent.symm hne
    · exact fun _ => ⟨hcurrent.symm, h.framed hpc hframe, trivial, hframe⟩
    · exact fun heq => by cases heq
    · exact fun heq => by cases heq
    · exact fun heq => by cases heq
  · refine h.other hcur hcurrent (hrest t hcur) ?_ (by rw [hdue])
    rw [hpcs, Function.update_of_ne hcur]

theorem TaskInv.enterKernel (h : TaskInv s t) (hpc : s.pc s.current = .user) :
    TaskInv s.enterKernel t := by
  by_cases hcur : t = s.current
  · subst hcur
    obtain ⟨-, hmm, hnull, hframe⟩ := h.user hpc
    have halive : (s.pc s.current).alive = true := by simp [hpc, Pc.alive]
    constructor
    all_goals
      simp only [State.enterKernel, State.setPc, Function.update_self, hnull]
    · exact fun _ => h.undead halive
    · exact fun _ _ heq => by cases heq
    · exact fun _ heq => by cases heq
    · exact fun heq => by cases heq
    · exact fun _ _ _ _ _ => trivial
    · exact fun heq => absurd rfl heq
    · exact fun heq => by cases heq
    · exact fun heq => by cases heq
    · exact fun _ _ => hmm
    · exact fun heq => by cases heq
  · refine h.other hcur rfl rfl ?_ ?_
    · exact setPc_other (s := { s with due := _ }) hcur
    · simp [State.enterKernel, State.setPc, hcur]

/-- The copy for the child is what the parent is due. -/
theorem cloneCopy_spec
    {copy : Copy ρ} (h : TaskInv s s.current) (hpc : s.pc s.current = .kernel)
    (hex : s.cloneCopy mem = .ok copy) :
    (s.task s.current).mm = false ∧ copy = .null ∨
      ∃ r, (s.task s.current).mm = true ∧ copy = .data r ∧ s.due s.current = some r := by
  have halive : (s.pc s.current).alive = true := by simp [hpc, Pc.alive]
  simp only [State.cloneCopy] at hex
  split at hex
  next hmm =>
    cases hex
    exact .inl ⟨by simpa using hmm, rfl⟩
  next hmm =>
    have hset : (s.task s.current).mm = true := by simpa using hmm
    split at hex
    next => cases hex
    next =>
      split at hex
      next hnull =>
        cases hex
        exact .inr ⟨_, hset, rfl, h.owner rfl halive (by simp [hpc]) hset hnull⟩
      next => cases hex
      next r hdata =>
        cases hex
        exact .inr ⟨r, hset, rfl, h.saved r halive hdata⟩

theorem TaskInv.doClone
    {child : TaskId} {userFrame : Bool}
    (h : TaskInv s t) (hself : TaskInv s s.current) (hpc : s.pc s.current = .kernel)
    (hchild : s.pc child = .free)
    (hframe : userFrame = true → (s.task s.current).userFrame = true)
    (hex : s.doClone child userFrame mem = .ok s') : TaskInv s' t := by
  have hne : child ≠ s.current := by
    rintro rfl
    simp [hpc] at hchild
  simp only [State.doClone] at hex
  split at hex
  next => cases hex
  next copy hcopy =>
    cases hex
    by_cases ht : t = child
    · subst ht
      constructor
      all_goals simp only [Function.update_self]
      · exact fun _ => ⟨by simp, by simp⟩
      · rintro r - rfl
        rcases cloneCopy_spec hself hpc hcopy with ⟨-, heq⟩ | ⟨r', -, heq, hdue⟩
        · cases heq
        · cases heq
          exact hdue
      · rintro - rfl
        rcases cloneCopy_spec hself hpc hcopy with ⟨-, heq⟩ | ⟨r', -, heq, -⟩
        · cases heq
        · cases heq
      · exact fun heq => by cases heq
      · exact fun heq => absurd heq hne
      · rintro - - hmm rfl
        rcases cloneCopy_spec hself hpc hcopy with ⟨hnone, -⟩ | ⟨r', -, heq, -⟩
        · simp [hmm] at hnone
        · cases heq
      · exact fun heq => by cases heq
      · exact fun heq => by cases heq
      · exact fun _ huser => hself.framed hpc (hframe huser)
      · exact fun heq => by cases heq
    · exact h.congr rfl (Function.update_of_ne ht _ _) (Function.update_of_ne ht _ _)
        (Function.update_of_ne ht _ _) fun _ => .inl rfl

theorem TaskInv.execFrame (h : TaskInv s t) (hpc : s.pc s.current = .kernel) :
    TaskInv s.execFrame t := by
  by_cases hcur : t = s.current
  · subst hcur
    have halive : (s.pc s.current).alive = true := by simp [hpc, Pc.alive]
    constructor
    all_goals simp only [State.execFrame, State.setPc, State.modTask, Function.update_self]
    · exact fun _ => h.undead halive
    · exact fun r _ => h.saved r halive
    · exact fun _ => h.allocated halive
    · exact fun heq => by cases heq
    · exact fun _ _ _ => h.owner rfl halive (by simp [hpc])
    · exact fun heq => absurd rfl heq
    · exact fun heq => by cases heq
    · exact fun _ => trivial
    · exact fun heq => by cases heq
    · exact fun heq => by cases heq
  · refine h.other hcur rfl ?_ ?_ rfl
    · simp [State.execFrame, State.setPc, State.modTask, hcur]
    · simp [State.execFrame, State.setPc, State.modTask, hcur]

theorem TaskInv.execReset
    {finit : ρ} (h : TaskInv s t) (hpc : s.pc s.current = .execFrame)
    (hex : s.execReset finit = .ok s') : TaskInv s' t := by
  have hs' : s' = ({ s.modTask s.current (fun r => { r with mm := true, fxsaveData := .null }) with
      registers := finit
      due := Function.update s.due s.current (some finit) } : State ρ).setPc .execLoad := by
    simp only [State.execReset] at hex
    split at hex
    next => cases hex
    next =>
      cases hex
      rfl
    next =>
      cases hex
      rfl
  subst hs'
  by_cases hcur : t = s.current
  · subst hcur
    have halive : (s.pc s.current).alive = true := by simp [hpc, Pc.alive]
    constructor
    all_goals simp only [State.setPc, State.modTask, Function.update_self]
    · exact fun _ => h.undead halive
    · exact fun _ _ heq => by cases heq
    · exact fun _ heq => by cases heq
    · exact fun heq => by cases heq
    · exact fun _ _ _ _ _ => trivial
    · exact fun heq => absurd rfl heq
    · exact fun heq => by cases heq
    · exact fun heq => by cases heq
    · exact fun heq => by cases heq
    · exact fun _ => ⟨trivial, h.entering hpc⟩
  · refine h.other hcur rfl ?_ ?_ ?_
    · simp [State.setPc, State.modTask, hcur]
    · simp [State.setPc, State.modTask, hcur]
    · simp [State.setPc, State.modTask, hcur]

theorem TaskInv.execDone (h : TaskInv s t) (hpc : s.pc s.current = .execLoad) :
    TaskInv (s.setPc .kernel) t := by
  by_cases hcur : t = s.current
  · subst hcur
    have halive : (s.pc s.current).alive = true := by simp [hpc, Pc.alive]
    obtain ⟨hmm, -⟩ := h.loaded hpc
    constructor
    all_goals simp only [State.setPc, Function.update_self]
    · exact fun _ => h.undead halive
    · exact fun r _ => h.saved r halive
    · exact fun _ => h.allocated halive
    · exact fun heq => by cases heq
    · exact fun _ _ _ => h.owner rfl halive (by simp [hpc])
    · exact fun heq => absurd rfl heq
    · exact fun heq => by cases heq
    · exact fun heq => by cases heq
    · exact fun _ _ => hmm
    · exact fun heq => by cases heq
  · exact h.other hcur rfl rfl (setPc_other hcur) rfl

theorem TaskInv.exitMark (h : TaskInv s t) (hpc : s.pc s.current = .kernel) :
    TaskInv s.exitMark t := by
  by_cases hcur : t = s.current
  · subst hcur
    have halive : (s.pc s.current).alive = true := by simp [hpc, Pc.alive]
    constructor
    all_goals
      simp only [State.exitMark, State.setPc, State.modTask, Function.update_self, Pc.alive]
    · exact fun heq => by cases heq
    · exact fun _ heq => by cases heq
    · exact fun heq => by cases heq
    · exact fun _ => h.allocated halive
    · exact fun _ heq => by cases heq
    · exact fun heq => absurd rfl heq
    · exact fun heq => by cases heq
    · exact fun heq => by cases heq
    · exact fun heq => by cases heq
    · exact fun heq => by cases heq
  · refine h.other hcur rfl ?_ ?_ rfl
    · simp [State.exitMark, State.setPc, State.modTask, hcur]
    · simp [State.exitMark, State.setPc, State.modTask, hcur]

/-- Nothing is asked of a task that is past its exit, or not there. -/
theorem TaskInv.gone (hpc : s.pc t = .exited ∨ s.pc t = .free) : TaskInv s t := by
  constructor
  all_goals rcases hpc with hpc | hpc <;> simp [hpc, Pc.alive]

theorem TaskInv.exitFree (h : TaskInv s t) (hex : s.exitFree = .ok s') : TaskInv s' t := by
  simp only [State.exitFree] at hex
  split at hex
  next =>
    cases hex
    by_cases hcur : t = s.current
    · exact .gone (.inl (by rw [hcur]; exact setPc_same))
    · exact h.other hcur rfl rfl (setPc_other hcur) rfl
  next => cases hex
  next =>
    cases hex
    by_cases hcur : t = s.current
    · refine .gone (.inl ?_)
      simp [State.setPc, State.modTask, hcur]
    · refine h.other hcur rfl ?_ ?_ rfl
      · simp [State.setPc, State.modTask, hcur]
      · simp [State.setPc, State.modTask, hcur]

/-- Writing the state of a task, as long as no live task becomes a zombie. -/
theorem TaskInv.modState
    {state : TaskState} (h : TaskInv s t)
    (hstate : (s.pc u).alive = true → state ≠ .zombie ∧ state ≠ .dead) :
    TaskInv (s.modTask u fun r => { r with state := state }) t := by
  by_cases ht : t = u
  · subst ht
    constructor
    all_goals simp only [modTask_same]
    · exact hstate
    · exact h.saved
    · exact h.allocated
    · exact h.unfreed
    · exact h.owner
    · exact h.resting
    · exact h.user
    · exact h.entering
    · exact h.framed
    · exact h.loaded
  · exact h.congr rfl (modTask_other ht) rfl rfl fun _ => .inl rfl

/-- Only a zombie is waited for, and a live task is none. -/
theorem TaskInv.reap
    (h : TaskInv s t) (hself : TaskInv s u) (hzombie : (s.task u).state = .zombie) :
    TaskInv (s.modTask u fun r => { r with state := .dead }) t :=
  h.modState fun halive => absurd hzombie (hself.undead halive).1

/-- Every step keeps the invariant of every task. -/
theorem TaskInv.step
    {finit : ρ} {l : Label ρ} (h : ∀ t, TaskInv s t) (hs : (machine finit).Step s l s') (t : TaskId) :
    TaskInv s' t := by
  obtain ⟨hen, hex⟩ := hs
  cases l with
  | compute r =>
      have hpc : s.pc s.current = .user := by simpa [machine] using hen
      cases hex
      exact (h t).congr rfl rfl rfl rfl fun heq => .inr (heq ▸ hpc)
  | enterKernel =>
      cases hex
      exact (h t).enterKernel (by simpa [machine] using hen)
  | returnToUserspace =>
      simp only [machine, decide_eq_true_eq] at hen
      exact (h t).returnToUserspace (h s.current) hen.1 hen.2 hex
  | switchTo u mem =>
      simp only [machine, decide_eq_true_eq] at hen
      exact (h t).switchTo hen.1 hex
  | setState state =>
      simp only [machine, decide_eq_true_eq] at hen
      cases hex
      exact (h t).modState fun _ => hen.2
  | clone child userFrame mem =>
      simp only [machine, decide_eq_true_eq] at hen
      exact (h t).doClone (h s.current) hen.1 hen.2.1 hen.2.2 hex
  | execFrame =>
      cases hex
      exact (h t).execFrame (by simpa [machine] using hen)
  | execReset => exact (h t).execReset (by simpa [machine] using hen) hex
  | execDone =>
      cases hex
      exact (h t).execDone (by simpa [machine] using hen)
  | exitMark =>
      cases hex
      exact (h t).exitMark (by simpa [machine] using hen)
  | exitFree => exact (h t).exitFree hex
  | reap u =>
      cases hex
      exact (h t).reap (h u) (by simpa [machine] using hen)
  | freeTask u =>
      simp only [machine, decide_eq_true_eq] at hen
      cases hex
      by_cases ht : t = u
      · exact .gone (.inr (by simp [ht]))
      · exact (h t).congr rfl rfl (Function.update_of_ne ht _ _) rfl fun _ => .inl rfl

theorem TaskInv.start (h : Init s) (t : TaskId) : TaskInv s t := by
  obtain ⟨hpc, hfree, htask⟩ := h
  by_cases hcur : t = s.current
  · subst hcur
    constructor
    all_goals simp [hpc, htask]
  · exact .gone (.inr (hfree t hcur))

theorem TaskInv.reach {finit : ρ} {ok : State ρ → Label ρ → Prop}
    (h : (machine finit).Reach Init ok s) (t : TaskId) : TaskInv s t := by
  have hall : ∀ t, TaskInv s t :=
    h.invariant (P := fun s => ∀ t, TaskInv s t) (fun _ h₀ => .start h₀)
      fun _ _ _ h₁ _ hs => .step h₁ hs
  exact hall t

end Steps

/-- **Isolation of the floating-point registers.**  In every run of any tasks, a task that
returns to user mode finds in the registers what it is due: what it left there at its last
exit to the kernel, what its parent was due when it was cloned, or the reset state after
`do_execve`.  The return never faults. -/
theorem fp_isolation
    {finit : ρ} {s : State ρ} (h : (machine finit).Reach Init (fun _ _ => True) s) :
    (∀ s', (machine finit).Step s .returnToUserspace s' →
      s.due s.current = some s'.registers) ∧
    ∀ e, ¬ (machine finit).Faults s .returnToUserspace e := by
  have hself := TaskInv.reach h s.current
  constructor
  · rintro s' ⟨hen, hex⟩
    simp only [machine, decide_eq_true_eq] at hen
    obtain ⟨s₁, hok, hdue, -⟩ := returnToUserspace_spec hself hen.1 hen.2
    have hsame : s₁ = s' := Except.ok.inj (hok.symm.trans hex)
    rw [← hsame]
    exact hdue
  · rintro e ⟨hen, hfault⟩
    simp only [machine, decide_eq_true_eq] at hen
    obtain ⟨s₁, hok, -⟩ := returnToUserspace_spec hself hen.1 hen.2
    have hboth := hok.symm.trans hfault
    cases hboth

/-- The swapper, with any registers. -/
def boot : State Nat where
  current := 0
  task _ := { mm := false, state := .running, fxsaveData := .null, userFrame := false }
  pc t := if t = 0 then .kernel else .free
  registers := 99
  due _ := none

/-- A kernel thread executes a program and computes; it clones a child, which computes
something else; the parent runs again and is about to return. -/
def interleavedRun : List (Label Nat) :=
  [.clone 1 false true, .switchTo 1 true, .execFrame, .execReset, .switchTo 0 true,
    .switchTo 1 true, .execDone, .returnToUserspace, .compute 5, .enterKernel,
    .clone 2 true true, .switchTo 2 true, .returnToUserspace, .compute 7, .enterKernel,
    .switchTo 1 true]

theorem interleavedRun_isolated :
    ∃ s, (machine 0).Reach Init (fun _ _ => True) s ∧ s.registers = 7 ∧
      s.due s.current = some 5 ∧
      ∀ s', (machine 0).Step s .returnToUserspace s' → s.due s.current = some s'.registers := by
  have hrun : ((machine 0).runLabels interleavedRun boot).any (fun s =>
      s.registers = 7 ∧ s.due s.current = some 5) = true := by
    decide +kernel
  have hinit : Init boot := by
    refine ⟨rfl, fun t ht => ?_, rfl⟩
    simp only [boot, ite_eq_right_iff]
    exact fun heq => absurd heq ht
  obtain ⟨s, hreach, hs⟩ := Machine.exists_reach_of_run hinit hrun
  simp only [decide_eq_true_eq] at hs
  exact ⟨s, hreach, hs.1, hs.2, (fp_isolation hreach).1⟩

end Fp
end JkxyKernel
