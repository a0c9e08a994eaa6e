import JkxyKernel.Sessions.Linking

/-!
# Tasks that make, join and leave sessions

`do_setsid` by a task without a session makes one with the count one, `do_clone` adds the
child, `put_session` and `do_exit` take the task out and, with the last one, free the
session.  Each keeps the invariant.  The freed session gives its terminal back, and the
terminal forgets it.
-/

namespace JkxyKernel
namespace Sessions

open RefCount (Counted)

/-- The caller of a `do_setsid` that succeeds has no session to leave. -/
def Unattached (s : State) : Label → Prop
  | .setsid mem => s.leadsGroup = false → mem = true → s.currentSession = none
  | _ => True

section Members

variable {s s' : State} {x : SessionId} {t : TaskId}

@[simp] theorem modSession_same {f : Session → Session} :
    (s.modSession x f).session x = f (s.session x) := by
  simp [State.modSession]

theorem modSession_other {f : Session → Session} {y : SessionId} (h : y ≠ x) :
    (s.modSession x f).session y = s.session y := by
  simp [State.modSession, h]

/-- Changes of a task record that leave its session alone. -/
theorem membership_modTask {f : TaskStruct → TaskStruct}
    (h : (f (s.task t)).session = (s.task t).session) :
    (s.modTask t f).membership = s.membership := by
  funext u
  by_cases hu : u = t
  · subst hu
    simpa [State.membership, State.modTask] using h
  · simp [State.membership, State.modTask, hu]

/-- No session is behind a number that is not allocated yet. -/
theorem SessionInv.next_fresh (h : SessionInv s) :
    (∀ t, s.membership t ≠ some s.nextSession) ∧ (s.session s.nextSession).refcount = 0 := by
  have hnone : ∀ t, s.membership t ≠ some s.nextSession := fun t ht =>
    Nat.lt_irrefl _ (h.member_live t _ ht).1
  exact ⟨hnone, h.counted.eq_zero_iff.mpr hnone⟩

theorem startSession_membership :
    s.startSession.membership =
      Function.update s.membership s.current (some s.nextSession) := by
  funext u
  by_cases hu : u = s.current
  · simp [State.startSession, State.membership, State.modTask, hu]
  · simp [State.startSession, State.membership, State.modTask, State.modSession, hu]

theorem startSession_made :
    (s.startSession.session s.nextSession).refcount = 1 ∧
      (s.startSession.session s.nextSession).tty = none ∧
      (s.startSession.session s.nextSession).freed = false := by
  simp [State.startSession, State.modTask, State.modSession]

theorem startSession_other (h : x ≠ s.nextSession) :
    s.startSession.session x = s.session x := by
  simp [State.startSession, State.modTask, State.modSession, h]

theorem startSession_live : s.startSession.Live x ↔ s.Live x ∨ x = s.nextSession := by
  have hnext : s.startSession.nextSession = s.nextSession + 1 := rfl
  by_cases hx : x = s.nextSession
  · subst hx
    simp [State.Live, hnext, startSession_made]
  · simp only [State.Live, hnext, startSession_other hx, hx, or_false]
    refine and_congr_left fun _ => ⟨fun hlt => ?_, Nat.lt_succ_of_lt⟩
    exact Nat.lt_of_le_of_ne (Nat.lt_succ_iff.mp hlt) hx

theorem SessionInv.startSession
    (h : SessionInv s) (halive : s.life s.current = .alive)
    (hnone : s.membership s.current = none) : SessionInv s.startSession := by
  constructor
  · have hattach := h.counted.attach (o := s.nextSession) hnone
    simp only [h.next_fresh.2] at hattach
    rw [startSession_membership]
    convert hattach using 1
    funext y
    by_cases hy : y = s.nextSession
    · simp [hy, startSession_made]
    · simp [startSession_other hy, hy]
  · intro t y ht
    rw [startSession_membership] at ht
    rw [startSession_live]
    by_cases hcur : t = s.current
    · rw [hcur, Function.update_self, Option.some.injEq] at ht
      exact .inr ht.symm
    · rw [Function.update_of_ne hcur] at ht
      exact .inl (h.member_live t y ht)
  · intro y hy
    rcases startSession_live.mp hy with hold | rfl
    · rw [startSession_other (Nat.ne_of_lt hold.1)]
      exact h.live_pos y hold
    · rw [startSession_made.1]
      exact Int.one_pos
  · intro t ht
    have hne : t ≠ s.current := by
      rintro rfl
      exact ht halive
    rw [startSession_membership, Function.update_of_ne hne]
    exact h.absent t ht

theorem Linked.startSession (h : Linked s) : Linked s.startSession := by
  have htty : s.startSession.tty = s.tty := rfl
  constructor
  · intro y v hy
    rw [htty]
    rcases startSession_live.mp hy with hold | rfl
    · rw [startSession_other (Nat.ne_of_lt hold.1)]
      exact h.tied y v hold
    · rw [startSession_made.2.1]
      refine ⟨fun heq => ?_, fun heq => by cases heq⟩
      exact absurd (h.back_live v _ heq).1 (Nat.lt_irrefl _)
  · intro v y hv
    rw [htty] at hv
    exact startSession_live.mpr (.inl (h.back_live v y hv))

theorem refs_startSession : refs s.startSession none = refs s none := by
  funext k
  cases k with
  | session y =>
      by_cases hy : y = s.nextSession
      · subst hy
        have hdead : ¬ s.Live s.nextSession := fun hl => Nat.lt_irrefl _ hl.1
        simp [refs, startSession_made, hdead]
      · simp [refs, startSession_live, startSession_other hy, hy]
  | file f => rfl
  | foreground => rfl
  | code => rfl

/-- A session made by a task that has none. -/
theorem Inv.doSetsid
    {mem : Bool} (h : Inv s) (halive : s.life s.current = .alive)
    (hok : Unattached s (.setsid mem)) : Inv (s.doSetsid mem).2 := by
  simp only [State.doSetsid]
  split
  next => exact h
  next hleads =>
    split
    next => exact h
    next hmem =>
      have hnone : s.membership s.current = none :=
        hok (by simpa using hleads) (by simpa using hmem)
      refine ⟨h.sessions.startSession halive hnone, h.linked.startSession, ?_⟩
      rw [refs_startSession]
      exact h.ttys.congr rfl rfl rfl

theorem Inv.doSetpgid {pid pgid : Nat} (h : Inv s) : Inv (s.doSetpgid pid pgid).2 := by
  have hmod : ∀ t n, Inv (s.modTask t fun r => { r with pgid := n }) := by
    intro t n
    have hmember : (s.modTask t fun r => { r with pgid := n }).membership = s.membership :=
      membership_modTask rfl
    refine h.apart ⟨hmember, fun _ ht => ht, rfl, rfl, fun _ => rfl⟩ (h.ttys.congr rfl rfl rfl)
      (fun _ => rfl) (fun _ => rfl) rfl rfl
  simp only [State.doSetpgid]
  split
  next => exact h
  next => exact h
  next =>
    split
    next =>
      split
      next => exact h
      next =>
        split
        next => exact h
        next => exact hmod _ _
    next => exact h

section Clone

variable {child : TaskId} {pid : Nat}

theorem doClone_membership :
    (s.doClone child pid).membership = Function.update s.membership child s.currentSession := by
  funext t
  by_cases ht : t = child
  · simp [State.doClone, State.membership, ht]
  · simp only [State.doClone, State.membership, ne_eq, ht, not_false_eq_true,
      Function.update_of_ne]

theorem doClone_session (y : SessionId) :
    (s.doClone child pid).session y =
      if s.currentSession = some y then
        { s.session y with refcount := (s.session y).refcount + 1 }
      else s.session y := by
  cases hcur : s.currentSession with
  | none => simp [State.doClone, hcur]
  | some x =>
      by_cases hy : x = y
      · simp [State.doClone, hcur, State.modSession, hy]
      · simp [State.doClone, hcur, State.modSession, hy, Ne.symm hy]

/-- Nothing but the child and the count of its session changes. -/
theorem doClone_rest :
    (s.doClone child pid).life = Function.update s.life child .alive ∧
      (s.doClone child pid).nextSession = s.nextSession ∧
      (s.doClone child pid).tty = s.tty ∧ (s.doClone child pid).nextTty = s.nextTty ∧
      (s.doClone child pid).ttys = s.ttys ∧ (s.doClone child pid).file = s.file ∧
      (s.doClone child pid).foreground = s.foreground := by
  simp only [State.doClone]
  cases s.currentSession <;> simp [State.modSession]

theorem doClone_live {y : SessionId} : (s.doClone child pid).Live y ↔ s.Live y := by
  rw [State.Live, State.Live, doClone_rest.2.1, doClone_session]
  split <;> rfl

theorem SessionInv.doClone (h : SessionInv s) (hfree : s.life child = .free) :
    SessionInv (s.doClone child pid) := by
  have hnone : s.membership child = none := h.absent child (by simp [hfree])
  constructor
  · rw [doClone_membership]
    cases hcur : s.currentSession with
    | none =>
        rw [← hnone, Function.update_eq_self]
        simpa [doClone_session, hcur] using h.counted
    | some x =>
        convert h.counted.attach (o := x) hnone using 1
        funext y
        by_cases hy : x = y
        · simp [doClone_session, hcur, hy]
        · simp [doClone_session, hcur, hy, Ne.symm hy]
  · intro t y ht
    rw [doClone_live]
    rw [doClone_membership] at ht
    by_cases hchild : t = child
    · rw [hchild, Function.update_self] at ht
      exact h.member_live _ y ht
    · rw [Function.update_of_ne hchild] at ht
      exact h.member_live t y ht
  · intro y hy
    have hpos := h.live_pos y (doClone_live.mp hy)
    rw [doClone_session]
    split
    · change 0 < (s.session y).refcount + 1
      omega
    · exact hpos
  · intro t ht
    rw [doClone_rest.1] at ht
    have hne : t ≠ child := by
      rintro rfl
      simp at ht
    rw [doClone_membership, Function.update_of_ne hne]
    exact h.absent t (by simpa [hne] using ht)

/-- A child joins the session of its parent. -/
theorem Inv.doClone (h : Inv s) (hfree : s.life child = .free) : Inv (s.doClone child pid) := by
  obtain ⟨-, -, htty, hnext, httys, hfile, hforeground⟩ :=
    @doClone_rest s child pid
  have hsame : ∀ y, ((s.doClone child pid).session y).tty = (s.session y).tty := by
    intro y
    rw [doClone_session]
    split <;> rfl
  refine ⟨h.sessions.doClone hfree, ⟨fun y v hy => ?_, fun v y hv => ?_⟩, ?_⟩
  · rw [htty, hsame]
    exact h.linked.tied y v (doClone_live.mp hy)
  · rw [htty] at hv
    exact doClone_live.mpr (h.linked.back_live v y hv)
  · have hrefs : refs (s.doClone child pid) none = refs s none := by
      funext k
      cases k with
      | session y => simp only [refs, doClone_live, hsame]
      | file f => simp only [refs, hfile]
      | foreground => simp only [refs, hforeground]
      | code => rfl
    rw [hrefs]
    exact h.ttys.congr htty hnext httys

end Clone

section Leave

/-- A terminal that a session controls is forgotten and given back. -/
theorem freeSession_cases (s : State) (x : SessionId) :
    (s.session x).tty = none ∧
        s.freeSession x = s.modSession x (fun y => { y with freed := true }) ∨
      ∃ v, (s.session x).tty = some v ∧
        s.freeSession x =
          ((s.unlink x v).ttyPut v).modSession x fun y => { y with freed := true } := by
  simp only [State.freeSession]
  cases htty : (s.session x).tty with
  | none => exact .inl ⟨rfl, rfl⟩
  | some v => exact .inr ⟨v, rfl, rfl⟩

theorem unlink_apart {v : TtyId} :
    (s.unlink x v).membership = s.membership ∧ (s.unlink x v).life = s.life ∧
      (s.unlink x v).session = s.session ∧ (s.unlink x v).nextSession = s.nextSession ∧
      (s.unlink x v).file = s.file ∧ (s.unlink x v).foreground = s.foreground := by
  simp only [State.unlink]
  split <;> exact ⟨rfl, rfl, rfl, rfl, rfl, rfl⟩

theorem unlink_back {u v : TtyId} :
    ((s.unlink x v).tty u).session =
      if u = v ∧ (s.tty v).session = some x then none else (s.tty u).session := by
  simp only [State.unlink]
  by_cases hback : (s.tty v).session = some x
  · by_cases hu : u = v
    · simp [hback, hu]
    · simp [hback, hu, modTty_other hu]
  · simp [hback]

theorem TtyInv.unlink {m : Slot → Option TtyId} {v : TtyId}
    (h : TtyInv s m) (hv : s.TtyLive v) : TtyInv (s.unlink x v) m := by
  simp only [State.unlink]
  split
  · exact h.retie _ hv
  · exact h

/-- What becomes of the tasks and the counts when a session is freed. -/
theorem freeSession_tasks :
    (s.freeSession x).membership = s.membership ∧
      (∀ t, (s.freeSession x).life t = s.life t) ∧
      (s.freeSession x).nextSession = s.nextSession ∧
      ∀ y, (s.freeSession x).session y =
        if y = x then { s.session x with freed := true } else s.session y := by
  have hsplit : ∀ d : State, d.session = s.session → ∀ y,
      (d.modSession x fun y => { y with freed := true }).session y =
        if y = x then { s.session x with freed := true } else s.session y := by
    intro d hd y
    by_cases hy : y = x
    · simp [hy, hd]
    · simp [modSession_other hy, hy, hd]
  rcases freeSession_cases s x with ⟨-, heq⟩ | ⟨v, -, heq⟩
  · rw [heq]
    exact ⟨rfl, fun _ => rfl, rfl, hsplit s rfl⟩
  · obtain ⟨hmem, hlife, hsession, hnext, -, -⟩ := unlink_apart (s := s) (x := x) (v := v)
    have hput := Frame.put (s := s.unlink x v) (v := v)
    rw [heq]
    refine ⟨hput.membership.trans hmem, fun t => ?_, hput.nextSession.trans hnext,
      hsplit _ (hput.session.trans hsession)⟩
    rcases ttyPut_cases (s.unlink x v) v with ⟨-, hcase⟩ | ⟨-, hcase⟩
    · simp [hcase, State.modSession, State.modTty, hlife]
    · simp [hcase, State.modSession, State.modTty, hlife]

theorem freeSession_live {y : SessionId} : (s.freeSession x).Live y ↔ s.Live y ∧ y ≠ x := by
  obtain ⟨-, -, hnext, hsession⟩ := freeSession_tasks (s := s) (x := x)
  rw [State.Live, State.Live, hnext, hsession]
  by_cases hy : y = x
  · simp [hy]
  · simp [hy]

/-- The way back to a freed session is gone. -/
theorem Linked.freeSession (h : Linked s) (hx : s.Live x) : Linked (s.freeSession x) := by
  have hback : ∀ v, ((s.freeSession x).tty v).session =
      if (s.tty v).session = some x then none else (s.tty v).session := by
    intro v
    rcases freeSession_cases s x with ⟨htty, heq⟩ | ⟨w, htty, heq⟩
    · have hne : (s.tty v).session ≠ some x := by
        intro hv
        have := (h.tied x v hx).mp hv
        simp [htty] at this
      rw [heq, if_neg hne]
      rfl
    · have hw : (s.tty w).session = some x := (h.tied x w hx).mpr htty
      rw [heq]
      change (((s.unlink x w).ttyPut w).tty v).session = _
      rw [Frame.put.back, unlink_back]
      by_cases hv : v = w
      · simp [hv, hw]
      · have hne : (s.tty v).session ≠ some x := by
          intro hv'
          have hboth := (h.tied x v hx).mp hv'
          rw [htty] at hboth
          exact hv (Option.some.inj hboth).symm
        simp [hv, hne]
  constructor
  · intro y v hy
    obtain ⟨hlive, hne⟩ := freeSession_live.mp hy
    rw [hback, freeSession_tasks.2.2.2, if_neg hne, ← h.tied y v hlive]
    split
    next hx' => simp [hx', Ne.symm hne]
    next => rfl
  · intro v y hv
    rw [hback] at hv
    split at hv
    next => cases hv
    next hne =>
      refine freeSession_live.mpr ⟨h.back_live v y hv, ?_⟩
      rintro rfl
      exact hne hv

/-- The freed session's reference to its terminal is given back. -/
theorem TtyInv.freeSession (h : TtyInv s (refs s none)) (hx : s.Live x) :
    TtyInv (s.freeSession x) (refs (s.freeSession x) none) := by
  obtain ⟨-, -, -, hsession⟩ := freeSession_tasks (s := s) (x := x)
  have hslot : refs s none (.session x) = (s.session x).tty := by
    simp only [refs, if_pos hx]
  have hrefs : (s.freeSession x).file = s.file →
      (s.freeSession x).foreground = s.foreground →
      refs (s.freeSession x) none = Function.update (refs s none) (.session x) none := by
    intro hfile hforeground
    funext k
    cases k with
    | session y =>
        by_cases hy : y = x
        · simp [refs, freeSession_live, hy]
        · simp [refs, freeSession_live, hsession, hy]
    | file f => simp [refs, hfile]
    | foreground => simp [refs, hforeground]
    | code => simp [refs]
  rcases freeSession_cases s x with ⟨htty, heq⟩ | ⟨v, htty, heq⟩
  · have hsame : Function.update (refs s none) (.session x) none = refs s none :=
      Function.update_eq_iff.mpr ⟨(hslot.trans htty).symm, fun _ _ => rfl⟩
    rw [hrefs, hsame, heq]
    · exact h.congr rfl rfl rfl
    · rw [heq]
      rfl
    · rw [heq]
      rfl
  · obtain ⟨-, -, -, -, hfile, hforeground⟩ := unlink_apart (s := s) (x := x) (v := v)
    have hput := Frame.put (s := s.unlink x v) (v := v)
    have hv : s.TtyLive v := h.live (.session x) v (hslot.trans htty)
    rw [hrefs, heq]
    · exact ((h.unlink hv).put (hslot.trans htty)).congr rfl rfl rfl
    · rw [heq]
      exact hput.file.trans hfile
    · rw [heq]
      exact hput.foreground.trans hforeground

theorem putSession_eq (hcur : s.currentSession = some x) :
    s.putSession =
      if (s.session x).refcount - 1 = 0 then (s.leave x).freeSession x else s.leave x := by
  have hcount : ((s.leave x).session x).refcount = (s.session x).refcount - 1 := by
    simp [State.leave, State.modTask]
  simp only [State.putSession, hcur]
  rw [hcount]
  by_cases hzero : (s.session x).refcount - 1 = 0
  · simp [hzero]
  · simp [hzero]

theorem leave_membership :
    (s.leave x).membership = Function.update s.membership s.current none := by
  funext t
  by_cases ht : t = s.current
  · simp [State.leave, State.membership, State.modTask, State.modSession, ht]
  · simp [State.leave, State.membership, State.modTask, State.modSession, ht]

theorem leave_session (y : SessionId) :
    (s.leave x).session y =
      if y = x then { s.session x with refcount := (s.session x).refcount - 1 }
      else s.session y := by
  by_cases hy : y = x
  · simp [State.leave, State.modTask, State.modSession, hy]
  · simp [State.leave, State.modTask, State.modSession, hy]

theorem leave_live {y : SessionId} : (s.leave x).Live y ↔ s.Live y := by
  rw [State.Live, State.Live, leave_session]
  by_cases hy : y = x
  · simp [hy, State.leave, State.modTask, State.modSession]
  · simp [hy, State.leave, State.modTask, State.modSession]

theorem leave_counted
    (h : SessionInv s) (hcur : s.currentSession = some x) :
    Counted (s.leave x).membership fun y => ((s.leave x).session y).refcount := by
  rw [leave_membership]
  convert h.counted.detach hcur using 1
  funext y
  by_cases hy : y = x
  · simp [leave_session, hy]
  · simp [leave_session, hy]

theorem Linked.leave (h : Linked s) : Linked (s.leave x) := by
  have htty : (s.leave x).tty = s.tty := rfl
  constructor
  · intro y v hy
    have htied := h.tied y v (leave_live.mp hy)
    rw [htty, leave_session]
    by_cases hyx : y = x
    · subst hyx
      simpa using htied
    · simpa [hyx] using htied
  · intro v y hv
    exact leave_live.mpr (h.back_live v y hv)

theorem refs_leave : refs (s.leave x) none = refs s none := by
  funext k
  cases k with
  | session y =>
      by_cases hy : y = x
      · simp [refs, leave_live, leave_session, hy]
      · simp [refs, leave_live, leave_session, hy]
  | file f => rfl
  | foreground => rfl
  | code => rfl

/-- The last task frees the session, any other only leaves it. -/
theorem Inv.putSession (h : Inv s) : Inv s.putSession := by
  cases hcur : s.currentSession with
  | none =>
      have hsame : s.putSession.membership = s.membership := by
        simp only [State.putSession, hcur]
        exact membership_modTask hcur.symm
      refine h.apart ⟨hsame, ?_, ?_, ?_, ?_⟩ (h.ttys.congr ?_ ?_ ?_) (fun _ => rfl) ?_ ?_ rfl
      all_goals simp [State.putSession, hcur, State.modTask, refs]
  | some x =>
      have hx : s.Live x := h.sessions.member_live _ x hcur
      have hcounted := leave_counted h.sessions hcur
      have hlinked : Linked (s.leave x) := h.linked.leave
      have httys : TtyInv (s.leave x) (refs (s.leave x) none) := by
        rw [refs_leave]
        exact h.ttys.congr rfl rfl rfl
      have hmember : ∀ t y, (s.leave x).membership t = some y → s.membership t = some y := by
        intro t y ht
        rw [leave_membership] at ht
        by_cases htc : t = s.current
        · simp [htc] at ht
        · simpa [htc] using ht
      have habsent : ∀ t, s.life t ≠ .alive → (s.leave x).membership t = none := by
        intro t ht
        rw [leave_membership]
        by_cases htc : t = s.current
        · simp [htc]
        · simpa [htc] using h.sessions.absent t ht
      have hcount : ((s.leave x).session x).refcount = (s.session x).refcount - 1 := by
        simp [leave_session]
      rw [putSession_eq hcur]
      split
      next hzero =>
        obtain ⟨hmem, hlife, -, hsession⟩ := freeSession_tasks (s := s.leave x) (x := x)
        have hsame : ∀ y, (((s.leave x).freeSession x).session y).refcount =
            ((s.leave x).session y).refcount := by
          intro y
          rw [hsession]
          split
          next heq => rw [heq]
          next => rfl
        refine ⟨⟨?_, fun t y ht => ?_, fun y hy => ?_, fun t ht => ?_⟩,
          hlinked.freeSession (leave_live.mpr hx), httys.freeSession (leave_live.mpr hx)⟩
        · rw [hmem]
          simp only [hsame]
          exact hcounted
        · rw [hmem] at ht
          refine freeSession_live.mpr ⟨leave_live.mpr (h.sessions.member_live t y (hmember t y ht)), ?_⟩
          rintro rfl
          have hpos := hcounted.pos ht
          omega
        · obtain ⟨hy, hne⟩ := freeSession_live.mp hy
          rw [hsame, leave_session, if_neg hne]
          exact h.sessions.live_pos y (leave_live.mp hy)
        · rw [hmem]
          rw [hlife] at ht
          exact habsent t ht
      next hrest =>
        refine ⟨⟨hcounted, fun t y ht => ?_, fun y hy => ?_, habsent⟩, hlinked, httys⟩
        · exact leave_live.mpr (h.sessions.member_live t y (hmember t y ht))
        · have hpos := h.sessions.live_pos y (leave_live.mp hy)
          rw [leave_session]
          by_cases hyx : y = x
          · subst hyx
            simp only [if_true]
            omega
          · simpa [hyx] using hpos

theorem putSession_leaves : s.putSession.membership s.current = none ∧
    s.putSession.current = s.current ∧ s.putSession.life = s.life := by
  cases hcur : s.currentSession with
  | none => simp [State.putSession, hcur, State.membership, State.modTask]
  | some x =>
      obtain ⟨hmem, hlife, -, -⟩ := freeSession_tasks (s := s.leave x) (x := x)
      have hcurrent : ((s.leave x).freeSession x).current = s.current := by
        rcases freeSession_cases (s.leave x) x with ⟨-, heq⟩ | ⟨v, -, heq⟩
        · rw [heq]
          rfl
        · have hput := Frame.put (s := (s.leave x).unlink x v) (v := v)
          rw [heq]
          refine hput.current.trans ?_
          simp only [State.unlink]
          split <;> rfl
      rw [putSession_eq hcur]
      split
      · refine ⟨?_, hcurrent, funext hlife⟩
        rw [hmem, leave_membership]
        simp
      · refine ⟨?_, rfl, rfl⟩
        rw [leave_membership]
        simp

theorem Inv.doExit (h : Inv s) : Inv s.doExit := by
  have hleft : Inv (if s.currentSession = none then s else s.putSession) ∧
      (if s.currentSession = none then s else s.putSession).membership s.current = none ∧
      (if s.currentSession = none then s else s.putSession).life = s.life := by
    split
    next hnone => exact ⟨h, hnone, rfl⟩
    next => exact ⟨h.putSession, putSession_leaves.1, putSession_leaves.2.2⟩
  simp only [State.doExit]
  generalize (if s.currentSession = none then s else s.putSession) = left at hleft
  obtain ⟨hinv, hmember, hlife⟩ := hleft
  refine ⟨⟨hinv.sessions.counted, hinv.sessions.member_live, hinv.sessions.live_pos, ?_⟩,
    ⟨hinv.linked.tied, hinv.linked.back_live⟩, ?_⟩
  · intro t ht
    by_cases hcur : t = s.current
    · rw [hcur]
      exact hmember
    · refine hinv.sessions.absent t ?_
      rw [hlife]
      simpa [hcur] using ht
  · exact hinv.ttys.congr rfl rfl rfl

end Leave

end Members

end Sessions
end JkxyKernel
