import JkxyKernel.Sessions.Terminals

/-!
# Sessions, terminals, and the links between them

The invariant of the subsystem has three parts: a session counts the tasks in it and
lives as long as there are any (`SessionInv`), a live session and a terminal point at
each other or not at all (`Linked`), and the books of the terminals are right.

This module shows that opening, releasing and switching terminals keep it.
-/

namespace JkxyKernel
namespace Sessions

open RefCount (Counted holders)

/-- The books of the sessions. -/
structure SessionInv (s : State) : Prop where
  counted : Counted s.membership fun x => (s.session x).refcount
  member_live : ∀ t x, s.membership t = some x → s.Live x
  live_pos : ∀ x, s.Live x → 0 < (s.session x).refcount
  absent : ∀ t, s.life t ≠ .alive → s.membership t = none

/-- Sessions and terminals point at each other. -/
structure Linked (s : State) : Prop where
  tied : ∀ x v, s.Live x → ((s.tty v).session = some x ↔ (s.session x).tty = some v)
  back_live : ∀ v x, (s.tty v).session = some x → s.Live x

structure Inv (s : State) : Prop where
  sessions : SessionInv s
  linked : Linked s
  ttys : TtyInv s (refs s none)

section Frames

variable {s s' : State} {m : Slot → Option TtyId}

theorem Apart.live (hf : Apart s s') (x : SessionId) : s'.Live x ↔ s.Live x := by
  rw [State.Live, State.Live, hf.session, hf.nextSession]

theorem SessionInv.congr
    (h : SessionInv s) (hmem : s'.membership = s.membership)
    (hlife : ∀ t, s'.life t ≠ .alive → s.life t ≠ .alive)
    (hcount : ∀ x, (s'.session x).refcount = (s.session x).refcount)
    (hlive : ∀ x, s'.Live x ↔ s.Live x) : SessionInv s' := by
  constructor
  · rw [hmem]
    simp only [hcount]
    exact h.counted
  · intro t x ht
    rw [hmem] at ht
    exact (hlive x).mpr (h.member_live t x ht)
  · intro x hx
    rw [hcount]
    exact h.live_pos x ((hlive x).mp hx)
  · intro t ht
    rw [hmem]
    exact h.absent t (hlife t ht)

theorem Apart.sessions (hf : Apart s s') (h : SessionInv s) : SessionInv s' :=
  h.congr hf.membership hf.life (fun x => by rw [hf.session]) hf.live

theorem Apart.linked (hf : Apart s s') (h : Linked s) : Linked s' := by
  constructor
  · intro x v hx
    rw [hf.back, hf.session]
    exact h.tied x v ((hf.live x).mp hx)
  · intro v x hv
    rw [hf.back] at hv
    exact (hf.live x).mpr (h.back_live v x hv)

/-- The books of the sessions stand, those of the terminals are kept over `m`. -/
theorem Inv.apart
    (h : Inv s) (hf : Apart s s') (ht : TtyInv s' m)
    (hsession : ∀ x, m (.session x) = refs s none (.session x))
    (hfile : ∀ f, m (.file f) = s'.file f) (hforeground : m .foreground = s'.foreground)
    (hcode : m .code = none) : Inv s' := by
  refine ⟨hf.sessions h.sessions, hf.linked h.linked, ?_⟩
  have hrefs : refs s' none = m := by
    funext k
    cases k with
    | session x =>
        rw [hsession]
        simp only [refs, hf.live, hf.session]
    | file f => rw [hfile]; rfl
    | foreground => rw [hforeground]; rfl
    | code => rw [hcode]; rfl
  rw [hrefs]
  exact ht

/-- The inversion lemma of `tty_get`: the running code holds a reference. -/
theorem TtyInv.get
    {deviceNum : Nat} {mem : TtyMemory} {v : TtyId}
    (h : Inv s) (hget : s.ttyGet deviceNum mem = .ok (v, s')) :
    TtyInv s' (Function.update (refs s none) .code (some v)) ∧ Frame s s' := by
  have hcode : refs s none .code = none := rfl
  simp only [State.ttyGet] at hget
  split at hget
  next =>
    split at hget
    next w hw =>
      cases hget
      obtain ⟨x, hx, htty⟩ := Option.bind_eq_some_iff.mp hw
      have hlive : s.Live x := h.sessions.member_live _ x hx
      have hslot : refs s none (.session x) = some v := by
        simp only [refs, if_pos hlive]
        exact htty
      exact ⟨h.ttys.hold hcode (h.ttys.live _ v hslot), .hold⟩
    next => cases hget
  next =>
    split at hget
    next w hw =>
      cases hget
      exact ⟨h.ttys.hold hcode (h.ttys.listed v (List.mem_of_find?_eq_some hw)), .hold⟩
    next => exact h.ttys.make hcode hget

end Frames

section Terminals

variable {s s' : State} {v : TtyId} {f : FileId}

theorem Inv.ttyRelease (h : Inv s) : Inv (s.ttyRelease f) := by
  simp only [State.ttyRelease]
  split
  next => exact h
  next v hfile =>
    have hput := h.ttys.put (k := .file f) hfile
    have hapart : Apart s { s.ttyPut v with file := Function.update s.file f none } :=
      ⟨Frame.put.membership, Frame.put.life, Frame.put.session, Frame.put.nextSession, Frame.put.back⟩
    refine h.apart hapart (hput.congr rfl rfl rfl)
      (fun x => by simp) (fun g => ?_) ?_ (by simp [refs])
    · by_cases hg : g = f <;> simp [refs, hg]
    · simpa [refs] using Frame.put.foreground.symm

theorem Inv.ttySwitchForeground {deviceNum : Nat} {mem : TtyMemory} (h : Inv s) :
    Inv (s.ttySwitchForeground deviceNum mem) := by
  simp only [State.ttySwitchForeground]
  split
  next => exact h
  next v s₁ hget =>
    obtain ⟨hheld, hframe⟩ := TtyInv.get h hget
    split
    next =>
      have hboth := hframe.trans (Frame.put (v := v))
      refine h.apart hboth.toApart (hheld.put (k := .code) (by simp)) (fun x => by simp)
        (fun g => ?_) ?_ (by simp)
      · simp [refs, hboth.file]
      · simp [refs, hboth.foreground]
    next =>
      have hfg : s₁.foreground = s.foreground := hframe.foreground
      split
      next hnone =>
        have hmove := hheld.move (v := v) (show Slot.code ≠ .foreground by simp) (by simp)
          (by simp [refs, ← hfg, hnone])
        have hapart : Apart s { s₁ with foreground := some v } :=
          ⟨hframe.membership, hframe.life, hframe.session, hframe.nextSession, hframe.back⟩
        refine h.apart hapart (hmove.congr rfl rfl rfl)
          (fun x => by simp) (fun g => ?_) (by simp) (by simp)
        simp [refs, hframe.file]
      next w hsome =>
        have hboth := hframe.trans (Frame.put (v := w))
        have hput := hheld.put (k := .foreground) (v := w) (by simp [refs, ← hfg, hsome])
        have hmove := hput.move (v := v) (show Slot.code ≠ .foreground by simp) (by simp)
          (by simp)
        have hapart : Apart s { s₁.ttyPut w with foreground := some v } :=
          ⟨hboth.membership, hboth.life, hboth.session, hboth.nextSession, hboth.back⟩
        refine h.apart hapart (hmove.congr rfl rfl rfl)
          (fun x => by simp) (fun g => ?_) (by simp) (by simp)
        simp [refs, hboth.file]

/-- A live session and a live terminal that are both free are tied to each other. -/
theorem Inv.link
    {x : SessionId} (h : Inv s) (hx : s.Live x) (hv : s.TtyLive v)
    (hfree : (s.session x).tty = none) (hback : (s.tty v).session = none) :
    Inv (s.link x v) := by
  have hsession : ∀ y, (s.link x v).session y =
      if y = x then { s.session x with tty := some v } else s.session y := by
    intro y
    by_cases hy : y = x
    · simp [State.link, State.ttyHold, State.modTty, State.modSession, hy]
    · simp [State.link, State.ttyHold, State.modTty, State.modSession, hy]
  have htie : ∀ u, ((s.link x v).tty u).session = if u = v then some x else (s.tty u).session := by
    intro u
    by_cases hu : u = v
    · simp [State.link, State.ttyHold, State.modTty, State.modSession, hu]
    · simp [State.link, State.ttyHold, State.modTty, State.modSession, hu]
  have hlive : ∀ y, (s.link x v).Live y ↔ s.Live y := by
    intro y
    by_cases hy : y = x
    · simp only [State.Live, hsession, hy, if_true]
      rfl
    · simp only [State.Live, hsession, hy, if_false]
      rfl
  have hslot : refs s none (.session x) = none := by
    simp only [refs, if_pos hx, hfree]
  have hhold := h.ttys.hold hslot hv
  refine ⟨h.sessions.congr rfl (fun _ ht => ht) (fun y => ?_) hlive, ⟨fun y u hy => ?_,
    fun u y hu => ?_⟩, ?_⟩
  · rw [hsession]
    split
    next heq => rw [heq]
    next => rfl
  · have htied := h.linked.tied y u ((hlive y).mp hy)
    rw [htie, hsession]
    by_cases hy' : y = x
    · subst hy'
      rw [hfree] at htied
      by_cases hu : u = v
      · simp [hu]
      · simp only [if_neg hu, if_true, Option.some.injEq]
        refine htied.trans ⟨fun heq => by simp at heq, fun heq => absurd heq.symm hu⟩
    · by_cases hu : u = v
      · subst hu
        rw [hback] at htied
        rw [if_pos rfl, if_neg hy']
        exact ⟨fun heq => absurd (Option.some.inj heq).symm hy', fun heq => by
          simpa using htied.mpr heq⟩
      · rw [if_neg hu, if_neg hy']
        exact htied
  · rw [htie] at hu
    rw [hlive]
    split at hu
    next => exact Option.some.inj hu ▸ hx
    next => exact h.linked.back_live u y hu
  · have hretie := TtyInv.retie (some x) hhold (v := v) ⟨hv.1, by
      simpa [State.ttyHold] using hv.2⟩
    have hrefs : refs (s.link x v) none = Function.update (refs s none) (.session x) (some v) := by
      funext k
      cases k with
      | session y =>
          by_cases hy : y = x
          · subst hy
            simp only [refs, hlive, if_pos hx, hsession, if_true, Function.update_self]
          · simp [refs, hlive, hsession, hy]
      | file g => rfl
      | foreground => rfl
      | code => rfl
    rw [hrefs]
    exact (hretie.congr rfl rfl rfl)

theorem Inv.ttyOpen
    {deviceNum : Nat} {noctty : Bool} {mem : TtyMemory} (h : Inv s) (hnew : s.file f = none) :
    Inv (s.ttyOpen f deviceNum noctty mem).2 := by
  simp only [State.ttyOpen]
  split
  next => exact h
  next v s₁ hget =>
    obtain ⟨hheld, hframe⟩ := TtyInv.get h hget
    have hmove := hheld.move (v := v) (show Slot.code ≠ .file f by simp) (by simp)
      (by simpa [refs] using hnew)
    have hopen : Inv { s₁ with file := Function.update s₁.file f (some v) } := by
      have hapart : Apart s { s₁ with file := Function.update s₁.file f (some v) } :=
        ⟨hframe.membership, hframe.life, hframe.session, hframe.nextSession, hframe.back⟩
      refine h.apart hapart (hmove.congr rfl rfl rfl)
        (fun x => by simp) (fun g => ?_) ?_ (by simp)
      · by_cases hg : g = f <;> simp [refs, hg, hframe.file]
      · simp [refs, hframe.foreground]
    split
    next => exact hopen
    next x hclaim =>
      simp only [State.claimant] at hclaim
      split at hclaim
      next => cases hclaim
      next y hy =>
        split at hclaim
        next hboth =>
          cases hclaim
          refine hopen.link (hopen.sessions.member_live _ _ hy) ?_ hboth.1 hboth.2.1
          exact hopen.ttys.live (.file f) v (by simp [refs])
        next => cases hclaim

end Terminals

end Sessions
end JkxyKernel
