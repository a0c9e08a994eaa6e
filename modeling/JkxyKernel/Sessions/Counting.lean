import JkxyKernel.Sessions.Members

/-!
# The counts of the sessions

While `do_setsid` is called by tasks without a session only, every session counts the
tasks in it, terminal and session point at each other or not at all, and a session that
the last task leaves is freed and forgotten by its terminal.

A task that has a session and calls `do_setsid` breaks the count of the session it
leaves: the pointer is overwritten and the reference is not given back.
-/

namespace JkxyKernel
namespace Sessions

open RefCount (Counted holders holders_update_of_eq)

/-- The reference count of a session is the number of tasks in it. -/
def Counts (s : State) : Prop :=
  ∀ x, s.Live x → (s.session x).refcount = ((holders s.membership x).ncard : Int)

/-- A terminal points to a session that points to it, and the other way round. -/
def Tied (s : State) : Prop :=
  ∀ x v, s.Live x → ((s.tty v).session = some x ↔ (s.session x).tty = some v)

/-- A session without tasks is freed, and no terminal is kept for it. -/
def Reclaimed (s : State) : Prop :=
  ∀ x < s.nextSession, (∀ t, s.membership t ≠ some x) →
    (s.session x).freed = true ∧ ∀ v, (s.tty v).session ≠ some x

section Steps

variable {s s' : State} {l : Label}

theorem Inv.start (h : Init s) : Inv s := by
  obtain ⟨htask, hnext, hcount, hnextTty, httys, htty, hfile, hforeground⟩ := h
  have hdead : ∀ x, ¬ s.Live x := by
    rintro x ⟨hx, -⟩
    rw [hnext] at hx
    exact Nat.not_lt_zero x hx
  have hrefs : ∀ k, refs s none k = none := by
    intro k
    cases k with
    | session x => simp [refs, hdead]
    | file f => exact hfile f
    | foreground => exact hforeground
    | code => rfl
  refine ⟨⟨⟨fun x => ?_, fun x => ?_⟩, fun t x ht => ?_, fun x hx => absurd hx (hdead x),
    fun t _ => htask t⟩, ⟨fun x v hx => absurd hx (hdead x), fun v x hv => ?_⟩,
    ⟨⟨fun v => ?_, fun v => ?_⟩, fun k v hk => ?_, fun v hv => ?_, fun v _ => (htty v).2⟩⟩
  · simp [holders, State.membership, htask]
  · simp [holders, State.membership, htask, hcount]
  · simp [State.membership, htask] at ht
  · simp [(htty v).2] at hv
  · simp [holders, hrefs]
  · simp [holders, hrefs, (htty v).1]
  · simp [hrefs] at hk
  · simp [httys] at hv

/-- Every step but one keeps the invariant. -/
theorem Inv.step (h : Inv s) (hok : Unattached s l) (hs : machine.Step s l s') : Inv s' := by
  obtain ⟨hen, hex⟩ := hs
  cases l with
  | setsid mem =>
      cases hex
      exact h.doSetsid (by simpa [machine] using hen) hok
  | setpgid pid pgid =>
      cases hex
      exact h.doSetpgid
  | clone child pid =>
      simp only [machine, decide_eq_true_eq] at hen
      cases hex
      exact h.doClone hen.2.1
  | ttyOpen f deviceNum noctty mem =>
      simp only [machine, decide_eq_true_eq] at hen
      cases hex
      exact h.ttyOpen hen.2
  | ttyRelease f =>
      cases hex
      exact h.ttyRelease
  | ttySwitchForeground deviceNum mem =>
      cases hex
      exact h.ttySwitchForeground
  | putSession =>
      cases hex
      exact h.putSession
  | exit =>
      cases hex
      exact h.doExit
  | reap t =>
      cases hex
      exact h.apart ⟨rfl, fun _ ht => ht, rfl, rfl, fun _ => rfl⟩ (h.ttys.congr rfl rfl rfl)
        (fun _ => rfl) (fun _ => rfl) rfl rfl
  | freeTask t =>
      have hlife : s.life t = .exited := by
        simp only [machine, decide_eq_true_eq] at hen
        exact hen.1
      cases hex
      refine h.apart ⟨rfl, fun u hu => ?_, rfl, rfl, fun _ => rfl⟩ (h.ttys.congr rfl rfl rfl)
        (fun _ => rfl) (fun _ => rfl) rfl rfl
      by_cases hut : u = t
      · simp [hut, hlife]
      · simpa [hut] using hu
  | switchTo t =>
      cases hex
      exact h.apart ⟨rfl, fun _ ht => ht, rfl, rfl, fun _ => rfl⟩ (h.ttys.congr rfl rfl rfl)
        (fun _ => rfl) (fun _ => rfl) rfl rfl

theorem Inv.reach (h : machine.Reach Init Unattached s) : Inv s :=
  h.invariant (P := Inv) (fun _ h₀ => .start h₀) fun _ _ _ h₁ hok hs => h₁.step hok hs

theorem Inv.reclaimed (h : Inv s) : Reclaimed s := by
  intro x hx hnone
  have hdead : ¬ s.Live x := by
    intro hlive
    obtain ⟨t, ht⟩ := h.sessions.counted.pos_iff.mp (h.sessions.live_pos x hlive)
    exact hnone t ht
  refine ⟨?_, fun v hv => hdead (h.linked.back_live v x hv)⟩
  by_contra hfreed
  exact hdead ⟨hx, by simpa using hfreed⟩

/-- A task that leaves its session by `do_setsid` is still counted there. -/
theorem not_counts_of_attached
    (h : Inv s) (hno : ¬ Unattached s l) (hs : machine.Step s l s') : ¬ Counts s' := by
  obtain ⟨-, hex⟩ := hs
  cases l with
  | setsid mem =>
      simp only [Unattached, Classical.not_imp] at hno
      obtain ⟨hleads, rfl, hsome⟩ := hno
      obtain ⟨x, hcur⟩ := Option.ne_none_iff_exists'.mp hsome
      have hs' : s' = s.startSession := by
        simp only [machine, State.doSetsid, hleads] at hex
        cases hex
        rfl
      subst hs'
      have hmember : s.membership s.current = some x := hcur
      have hx : s.Live x := h.sessions.member_live _ x hmember
      have hne : x ≠ s.nextSession := Nat.ne_of_lt hx.1
      intro hcounts
      have hcount := hcounts x (startSession_live.mpr (.inl hx))
      have hleft := (h.sessions.counted.detach hmember).count x
      rw [startSession_membership, startSession_other hne,
        holders_update_of_eq hmember (by simpa using Ne.symm hne)] at hcount
      rw [holders_update_of_eq hmember (by simp), Function.update_self] at hleft
      omega
  | _ => exact absurd trivial hno

end Steps

/-- **Sessions and their terminals.**  While every `do_setsid` that succeeds is by a task
without a session, sessions count their tasks, terminals and sessions point at each
other, and a session without tasks is freed and forgotten.  The first `do_setsid` by a
task that has a session leaves a wrong count behind. -/
theorem sessions_counted (s : State) :
    (machine.Reach Init Unattached s → Counts s ∧ Tied s ∧ Reclaimed s) ∧
    ∀ l s', machine.Reach Init Unattached s → ¬ Unattached s l → machine.Step s l s' →
      ¬ Counts s' := by
  constructor
  · intro h
    have hinv := Inv.reach h
    exact ⟨fun x _ => hinv.sessions.counted.count x, hinv.linked.tied, hinv.reclaimed⟩
  · intro l s' h hno hs
    exact not_counts_of_attached (Inv.reach h) hno hs

instance (s : State) (l : Label) : Decidable (Unattached s l) :=
  match l with
  | .setsid mem =>
      inferInstanceAs (Decidable (s.leadsGroup = false → mem = true → s.currentSession = none))
  | .setpgid .. | .clone .. | .ttyOpen .. | .ttyRelease .. | .ttySwitchForeground .. =>
      .isTrue trivial
  | .putSession | .exit | .reap _ | .freeTask _ | .switchTo _ => .isTrue trivial

/-- Task 1 runs, with the number 1; nothing else is there. -/
def boot : State where
  current := 1
  task _ := { pid := 1, session := none, pgid := 0 }
  life t := if t = 1 then .alive else .free
  tasks := [1]
  session _ := { refcount := 0, sid := 0, tty := none, foregroundPgid := 0, freed := false }
  nextSession := 0
  tty _ := { refcount := 0, deviceNum := 0, session := none, freed := false }
  nextTty := 0
  ttys := []
  file _ := none
  foreground := none

/-- Task 1 makes a session and clones task 2 into it. -/
def inheritedRun : List Label :=
  [.setsid true, .clone 2 2, .switchTo 2]

/-- Task 2 makes a session of its own, and the one it came from still counts it. -/
theorem attachedSetsid_leaks :
    ∃ s, machine.Reach Init (fun _ _ => True) s ∧ ¬ Counts s := by
  have hrun : ((machine.guard fun s l => Unattached s l).runLabels inheritedRun boot).any
      (fun s => ¬ Unattached s (.setsid true) ∧ s.life s.current = .alive) = true := by
    decide +kernel
  have hinit : Init boot :=
    ⟨fun _ => rfl, rfl, fun _ => rfl, rfl, rfl, fun _ => ⟨rfl, rfl⟩, fun _ => rfl, rfl⟩
  obtain ⟨s, hreach, hs⟩ := Machine.exists_reach_of_run hinit hrun
  simp only [decide_eq_true_eq] at hs
  have hkept : machine.Reach Init Unattached s :=
    hreach.of_guard.mono fun _ _ hok => by simpa using hok
  have hstep : machine.Step s (.setsid true) (s.doSetsid true).2 :=
    ⟨by simpa [machine] using hs.2, rfl⟩
  refine ⟨(s.doSetsid true).2, .step (hkept.mono fun _ _ _ => trivial) trivial hstep, ?_⟩
  exact not_counts_of_attached (Inv.reach hkept) hs.1 hstep

end Sessions
end JkxyKernel
