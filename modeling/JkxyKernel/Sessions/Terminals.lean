import JkxyKernel.Lib.RefCount
import JkxyKernel.Sessions.Defs

/-!
# The counts of the terminals

Every reference to a terminal sits in a slot: a live session, an open file, the
foreground, or the hands of the running code.  The invariant `TtyInv` says that a
terminal counts the slots that refer to it, and that these refer to terminals that are
not freed.  It is stated over any assignment of slots, so that each elementary operation
of the source is one update of the assignment.

None of these operations touches a task, a session, or the way back from a terminal to
its session (`Frame`).
-/

namespace JkxyKernel
namespace Sessions

open RefCount (Counted)

/-- Where a counted reference to a terminal may sit. -/
inductive Slot
  | session (x : SessionId)
  | file (f : FileId)
  | foreground
  /-- The running code, between `tty_get` and the end of the call. -/
  | code
  deriving DecidableEq

/-- The session is allocated and not freed. -/
def State.Live (s : State) (x : SessionId) : Prop :=
  x < s.nextSession ∧ (s.session x).freed = false

instance (s : State) (x : SessionId) : Decidable (s.Live x) :=
  inferInstanceAs (Decidable (_ ∧ _))

/-- The terminal is allocated and not freed. -/
def State.TtyLive (s : State) (v : TtyId) : Prop :=
  v < s.nextTty ∧ (s.tty v).freed = false

/-- The references of a state, with one in the hands of the running code. -/
def refs (s : State) (held : Option TtyId) : Slot → Option TtyId
  | .session x => if s.Live x then (s.session x).tty else none
  | .file f => s.file f
  | .foreground => s.foreground
  | .code => held

/-- The books of the terminals. -/
structure TtyInv (s : State) (m : Slot → Option TtyId) : Prop where
  counted : Counted m fun v => (s.tty v).refcount
  live : ∀ k v, m k = some v → s.TtyLive v
  listed : ∀ v ∈ s.ttys, s.TtyLive v
  unborn : ∀ v, s.nextTty ≤ v → (s.tty v).session = none

/-- The session of each task. -/
def State.membership (s : State) : TaskId → Option SessionId :=
  fun t => (s.task t).session

/-- No membership, no session and no way back to a session changes. -/
structure Apart (s s' : State) : Prop where
  membership : s'.membership = s.membership
  life : ∀ t, s'.life t ≠ .alive → s.life t ≠ .alive
  session : s'.session = s.session
  nextSession : s'.nextSession = s.nextSession
  back : ∀ v, (s'.tty v).session = (s.tty v).session

/-- Nothing but counts and lifetimes of terminals changes. -/
structure Frame (s s' : State) : Prop extends Apart s s' where
  current : s'.current = s.current
  file : s'.file = s.file
  foreground : s'.foreground = s.foreground

section Fields

variable {s : State} {v w : TtyId} {f : Tty → Tty}

@[simp] theorem modTty_same : (s.modTty v f).tty v = f (s.tty v) := by
  simp [State.modTty]

theorem modTty_other (h : w ≠ v) : (s.modTty v f).tty w = s.tty w := by
  simp [State.modTty, h]

theorem ttyHold_refcount :
    (fun w => ((s.ttyHold v).tty w).refcount) =
      Function.update (fun w => (s.tty w).refcount) v ((s.tty v).refcount + 1) := by
  funext w
  by_cases hw : w = v
  · simp [State.ttyHold, hw]
  · simp [State.ttyHold, modTty_other hw, hw]

/-- The inversion lemma of `tty_put`. -/
theorem ttyPut_cases (s : State) (v : TtyId) :
    (s.tty v).refcount - 1 ≠ 0 ∧
        s.ttyPut v = s.modTty v (fun y => { y with refcount := y.refcount - 1 }) ∨
      (s.tty v).refcount - 1 = 0 ∧
        s.ttyPut v =
          { s.modTty v (fun y => { y with refcount := y.refcount - 1, freed := true }) with
            ttys := s.ttys.filter (· ≠ v) } := by
  simp only [State.ttyPut, modTty_same]
  split
  next h => exact .inl ⟨h, rfl⟩
  next h =>
    refine .inr ⟨not_not.mp h, ?_⟩
    simp [State.modTty]

theorem ttyPut_refcount :
    (fun w => ((s.ttyPut v).tty w).refcount) =
      Function.update (fun w => (s.tty w).refcount) v ((s.tty v).refcount - 1) := by
  funext w
  by_cases hw : w = v
  · subst hw
    rcases ttyPut_cases s w with ⟨-, h⟩ | ⟨-, h⟩
    · simp [h]
    · simp [h, State.modTty]
  · rcases ttyPut_cases s v with ⟨-, h⟩ | ⟨-, h⟩
    · simp [h, modTty_other hw, hw]
    · simp [h, State.modTty, hw]

theorem ttyPut_live (h : s.TtyLive w) (hkept : w ≠ v ∨ (s.tty v).refcount - 1 ≠ 0) :
    (s.ttyPut v).TtyLive w := by
  rcases ttyPut_cases s v with ⟨-, heq⟩ | ⟨hzero, heq⟩
  · rw [heq]
    refine ⟨h.1, ?_⟩
    by_cases hw : w = v
    · subst hw
      simpa using h.2
    · rw [modTty_other hw]
      exact h.2
  · have hw : w ≠ v := by
      rcases hkept with hw | hne
      · exact hw
      · exact absurd hzero hne
    rw [heq]
    refine ⟨h.1, ?_⟩
    simpa [State.modTty, hw] using h.2

end Fields

namespace Frame

variable {s s' s'' : State} {v : TtyId}

theorem trans (h : Frame s s') (h' : Frame s' s'') : Frame s s'' where
  membership := h'.membership.trans h.membership
  life t ht := h.life t (h'.life t ht)
  session := h'.session.trans h.session
  nextSession := h'.nextSession.trans h.nextSession
  back v := (h'.back v).trans (h.back v)
  current := h'.current.trans h.current
  file := h'.file.trans h.file
  foreground := h'.foreground.trans h.foreground

theorem modTty {f : Tty → Tty} (hback : (f (s.tty v)).session = (s.tty v).session) :
    Frame s (s.modTty v f) := by
  refine ⟨⟨rfl, fun _ ht => ht, rfl, rfl, fun w => ?_⟩, rfl, rfl, rfl⟩
  by_cases hw : w = v
  · subst hw
    simpa using hback
  · rw [modTty_other hw]

theorem hold : Frame s (s.ttyHold v) :=
  modTty rfl

theorem put : Frame s (s.ttyPut v) := by
  rcases ttyPut_cases s v with ⟨-, h⟩ | ⟨-, h⟩
  · rw [h]
    exact modTty rfl
  · rw [h]
    have hmod : Frame s (s.modTty v fun y => { y with refcount := y.refcount - 1, freed := true }) :=
      modTty rfl
    exact ⟨⟨rfl, fun _ ht => ht, rfl, rfl, hmod.back⟩, rfl, rfl, rfl⟩

end Frame

namespace TtyInv

variable {s s' : State} {m : Slot → Option TtyId} {k k' : Slot} {v : TtyId}

theorem congr
    (h : TtyInv s m) (htty : s'.tty = s.tty) (hnext : s'.nextTty = s.nextTty)
    (httys : s'.ttys = s.ttys) : TtyInv s' m := by
  have hlive : ∀ w, s.TtyLive w → s'.TtyLive w := by
    intro w hw
    rw [State.TtyLive, htty, hnext]
    exact hw
  constructor
  · rw [htty]
    exact h.counted
  · exact fun j w hj => hlive w (h.live j w hj)
  · rw [httys]
    exact fun w hw => hlive w (h.listed w hw)
  · rw [htty, hnext]
    exact h.unborn

/-- A further reference to a live terminal. -/
theorem hold (h : TtyInv s m) (hk : m k = none) (hv : s.TtyLive v) :
    TtyInv (s.ttyHold v) (Function.update m k (some v)) := by
  have hlive : ∀ w, s.TtyLive w → (s.ttyHold v).TtyLive w := by
    intro w hw
    refine ⟨hw.1, ?_⟩
    by_cases heq : w = v
    · subst heq
      simpa [State.ttyHold] using hw.2
    · rw [State.ttyHold, modTty_other heq]
      exact hw.2
  constructor
  · rw [ttyHold_refcount]
    exact h.counted.attach hk
  · intro j w hj
    by_cases hjk : j = k
    · subst hjk
      rw [Function.update_self, Option.some.injEq] at hj
      exact hlive w (hj ▸ hv)
    · rw [Function.update_of_ne hjk] at hj
      exact hlive w (h.live j w hj)
  · exact fun w hw => hlive w (h.listed w hw)
  · intro w hw
    rw [Frame.hold.back]
    exact h.unborn w hw

/-- A reference is given back. -/
theorem put (h : TtyInv s m) (hk : m k = some v) :
    TtyInv (s.ttyPut v) (Function.update m k none) := by
  have hcounted := h.counted.detach hk
  rw [← ttyPut_refcount] at hcounted
  constructor
  · exact hcounted
  · intro j w hj
    refine ttyPut_live ?_ ?_
    · by_cases hjk : j = k
      · simp [hjk] at hj
      · exact h.live j w (by simpa [hjk] using hj)
    · by_cases hw : w = v
      · subst hw
        have hpos := hcounted.pos hj
        have hval := congrFun (ttyPut_refcount (s := s) (v := w)) w
        rw [Function.update_self] at hval
        exact .inr (by omega)
      · exact .inl hw
  · intro w hw
    rcases ttyPut_cases s v with ⟨hne, heq⟩ | ⟨-, heq⟩
    · rw [heq] at hw
      exact ttyPut_live (h.listed w hw) (.inr hne)
    · rw [heq] at hw
      obtain ⟨hmem, hne⟩ := List.mem_filter.mp hw
      exact ttyPut_live (h.listed w hmem) (.inl (by simpa using hne))
  · intro w hw
    rw [Frame.put.back]
    refine h.unborn w ?_
    rcases ttyPut_cases s v with ⟨-, heq⟩ | ⟨-, heq⟩
    · rw [heq] at hw
      exact hw
    · rw [heq] at hw
      exact hw

/-- A reference changes hands. -/
theorem move (h : TtyInv s m) (hne : k ≠ k') (hk : m k = some v) (hk' : m k' = none) :
    TtyInv s (Function.update (Function.update m k none) k' (some v)) := by
  refine ⟨h.counted.move hne hk hk', fun j w hj => ?_, h.listed, h.unborn⟩
  by_cases hjk' : j = k'
  · subst hjk'
    rw [Function.update_self, Option.some.injEq] at hj
    exact h.live k w (hj ▸ hk)
  · rw [Function.update_of_ne hjk'] at hj
    by_cases hjk : j = k
    · simp [hjk] at hj
    · exact h.live j w (by simpa [hjk] using hj)

/-- The inversion lemma of the part of `tty_get` that makes a terminal. -/
theorem make
    {deviceNum : Nat} {mem : TtyMemory} (h : TtyInv s m) (hk : m k = none)
    (hget : s.ttyMake deviceNum mem = .ok (v, s')) :
    TtyInv s' (Function.update m k (some v)) ∧ Frame s s' := by
  simp only [State.ttyMake] at hget
  split at hget
  next => cases hget
  next =>
    split at hget
    next => cases hget
    next =>
      cases hget
      have hnone : ∀ j, m j ≠ some s.nextTty := fun j hj =>
        Nat.lt_irrefl _ (h.live j _ hj).1
      have hzero : (s.tty s.nextTty).refcount = 0 := h.counted.eq_zero_iff.mpr hnone
      have hlive : ∀ w, s.TtyLive w → w ≠ s.nextTty := by
        rintro w hw rfl
        exact Nat.lt_irrefl _ hw.1
      refine ⟨⟨?_, fun j w hj => ?_, fun w hw => ?_, fun w hw => ?_⟩, ?_⟩
      · have hattach := h.counted.attach (o := s.nextTty) hk
        rw [hzero] at hattach
        convert hattach using 1
        funext w
        by_cases hw : w = s.nextTty
        · simp [State.modTty, hw]
        · simp [State.modTty, hw]
      · by_cases hjk : j = k
        · subst hjk
          rw [Function.update_self, Option.some.injEq] at hj
          subst hj
          exact ⟨Nat.lt_succ_self _, by simp [State.modTty]⟩
        · rw [Function.update_of_ne hjk] at hj
          have hw := h.live j w hj
          refine ⟨Nat.lt_succ_of_lt hw.1, ?_⟩
          simpa [State.modTty, hlive w hw] using hw.2
      · have hcase : s.TtyLive w ∨ w = s.nextTty := by
          by_cases hnode : mem.node = true
          · simp only [hnode, if_true, List.mem_append, List.mem_singleton] at hw
            exact hw.imp_left (h.listed w)
          · simp only [hnode] at hw
            exact .inl (h.listed w hw)
        rcases hcase with hw | rfl
        · refine ⟨Nat.lt_succ_of_lt hw.1, ?_⟩
          simpa [State.modTty, hlive w hw] using hw.2
        · exact ⟨Nat.lt_succ_self _, by simp [State.modTty]⟩
      · have hlt : s.nextTty + 1 ≤ w := hw
        have hne : w ≠ s.nextTty := Nat.ne_of_gt hlt
        simpa [State.modTty, hne] using h.unborn w (Nat.le_of_succ_le hlt)
      · refine ⟨⟨rfl, fun _ ht => ht, rfl, rfl, fun w => ?_⟩, rfl, rfl, rfl⟩
        by_cases hw : w = s.nextTty
        · simp [State.modTty, hw, h.unborn s.nextTty (Nat.le_refl _)]
        · simp [State.modTty, hw]

/-- The way back to a session is no part of the books. -/
theorem retie (back : Option SessionId) (h : TtyInv s m) (hv : s.TtyLive v) :
    TtyInv (s.modTty v fun y => { y with session := back }) m := by
  have hsame : ∀ w, ((s.modTty v fun y => { y with session := back }).tty w).refcount =
      (s.tty w).refcount ∧
      ((s.modTty v fun y => { y with session := back }).tty w).freed = (s.tty w).freed := by
    intro w
    by_cases hw : w = v
    · simp [hw]
    · simp [modTty_other hw]
  constructor
  · simp only [hsame]
    exact h.counted
  · intro j w hj
    exact ⟨(h.live j w hj).1, (hsame w).2.trans (h.live j w hj).2⟩
  · intro w hw
    exact ⟨(h.listed w hw).1, (hsame w).2.trans (h.listed w hw).2⟩
  · intro w hw
    have hne : w ≠ v := by
      rintro rfl
      exact Nat.not_lt.mpr hw hv.1
    rw [modTty_other hne]
    exact h.unborn w hw

end TtyInv

end Sessions
end JkxyKernel
