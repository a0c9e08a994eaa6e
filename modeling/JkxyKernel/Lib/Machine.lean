import Mathlib.Logic.Function.Basic

/-!
# Fallible machines and their runs

A machine is an executable step function on states.  A step is taken with a
label, may be disabled, and may end in a fault instead of a state.  The labels
say which party moves and how it resolves its choices, so a list of labels is
one interleaving.

`Reach init ok` are the states met by runs from `init` in which every step is
allowed by `ok`, a condition on the state before the step and its label.  With
`ok` always true these are the reachable states; a nontrivial `ok` describes the
runs that stay inside a contract.
-/

namespace JkxyKernel

universe u v w

/-- Executable transition systems whose steps may fault. -/
structure Machine (σ : Type u) (ι : Type v) (ε : Type w) where
  /-- May a step with this label be taken here? -/
  enabled : ι → σ → Bool
  /-- The effect of the step. -/
  exec : ι → σ → Except ε σ

namespace Machine

variable {σ : Type u} {ι : Type v} {ε : Type w} (M : Machine σ ι ε)

/-! ### Fallible computations -/

section Fallible

variable {α β : Type u} {x : Except ε α} {f : α → Except ε β}

/-- A sequence that ends well is taken apart. -/
theorem bind_eq_ok_iff {b : β} : (x >>= f) = .ok b ↔ ∃ a, x = .ok a ∧ f a = .ok b := by
  cases x <;> simp [bind, Except.bind]

theorem ok_ne_error {a : α} {e : ε} : (.ok a : Except ε α) ≠ .error e := nofun

end Fallible

/-- One step that ends in a state. -/
def Step (s : σ) (l : ι) (s' : σ) : Prop :=
  M.enabled l s = true ∧ M.exec l s = .ok s'

/-- One step that ends in a fault. -/
def Faults (s : σ) (l : ι) (e : ε) : Prop :=
  M.enabled l s = true ∧ M.exec l s = .error e

/-- States met by runs from `init` whose steps are all allowed by `ok`. -/
inductive Reach (init : σ → Prop) (ok : σ → ι → Prop) : σ → Prop
  | start {s : σ} : init s → Reach init ok s
  | step {s s' : σ} {l : ι} :
      Reach init ok s → ok s l → M.Step s l s' → Reach init ok s'

variable {M} {init : σ → Prop} {ok ok' : σ → ι → Prop}

/-- The invariant rule: what holds initially and is kept by every allowed step
holds in every state met. -/
theorem Reach.invariant
    {P : σ → Prop}
    (hinit : ∀ s, init s → P s)
    (hstep : ∀ s l s', P s → ok s l → M.Step s l s' → P s')
    {s : σ} (h : M.Reach init ok s) :
    P s := by
  induction h with
  | start h0 => exact hinit _ h0
  | step _ hok hs ih => exact hstep _ _ _ ih hok hs

/-- A weaker condition on the steps meets more states. -/
theorem Reach.mono
    (hsub : ∀ s l, ok s l → ok' s l)
    {s : σ} (h : M.Reach init ok s) :
    M.Reach init ok' s := by
  induction h with
  | start h0 => exact .start h0
  | step _ hok hs ih => exact .step ih (hsub _ _ hok) hs

variable (M) in
/-- Run a list of labels; a disabled label or a fault ends the run with `none`. -/
def runLabels : List ι → σ → Option σ
  | [], s => some s
  | l :: ls, s =>
      if M.enabled l s then
        match M.exec l s with
        | .ok s' => runLabels ls s'
        | .error _ => none
      else none

/-- What an executed list of labels meets is reachable. -/
theorem Reach.runLabels
    {s s' : σ} (h : M.Reach init (fun _ _ => True) s) :
    ∀ {ls : List ι}, M.runLabels ls s = some s' →
      M.Reach init (fun _ _ => True) s' := by
  intro ls
  induction ls generalizing s with
  | nil =>
      intro hr
      simp only [Machine.runLabels, Option.some.injEq] at hr
      exact hr ▸ h
  | cons l ls ih =>
      intro hr
      simp only [Machine.runLabels] at hr
      split at hr
      next hen =>
        split at hr
        next s₁ hex => exact ih (.step h trivial ⟨hen, hex⟩) hr
        next => cases hr
      next => cases hr

/-- A run checked by evaluation meets a reachable state. -/
theorem exists_reach_of_run
    {s : σ} {ls : List ι} {p : σ → Bool}
    (h0 : init s) (h : (M.runLabels ls s).any p = true) :
    ∃ s', M.Reach init (fun _ _ => True) s' ∧ p s' = true := by
  cases hs' : M.runLabels ls s with
  | none => simp [hs'] at h
  | some s' => exact ⟨s', Reach.runLabels (.start h0) hs', by simpa [hs'] using h⟩

/-- The machine that takes only steps with a given property. -/
def guard (M : Machine σ ι ε) (p : σ → ι → Bool) : Machine σ ι ε where
  enabled l s := M.enabled l s && p s l
  exec := M.exec

/-- The guarded machine meets the states of the runs that keep to the guard. -/
theorem Reach.of_guard
    {p : σ → ι → Bool} {s : σ}
    (h : (M.guard p).Reach init (fun _ _ => True) s) :
    M.Reach init (fun s l => p s l = true) s := by
  induction h with
  | start h0 => exact .start h0
  | step _ _ hs ih =>
      obtain ⟨hen, hex⟩ := hs
      have hboth := Bool.and_eq_true_iff.mp hen
      exact .step ih hboth.2 ⟨hboth.1, hex⟩

variable (M) in
/-- Does the step end in this fault?  Decides `Faults`. -/
def faultsWith [DecidableEq ε] (l : ι) (e : ε) (s : σ) : Bool :=
  M.enabled l s &&
    match M.exec l s with
    | .ok _ => false
    | .error e' => e' = e

theorem faults_of_faultsWith [DecidableEq ε] {l : ι} {e : ε} {s : σ}
    (h : M.faultsWith l e s = true) : M.Faults s l e := by
  unfold faultsWith at h
  rw [Bool.and_eq_true] at h
  refine ⟨h.1, ?_⟩
  cases hex : M.exec l s with
  | ok s' => simp [hex] at h
  | error e' =>
      have he : e' = e := by simpa [hex] using h.2
      rw [he]

end Machine
end JkxyKernel
