import JkxyKernel.Time.Uptime
import Mathlib.Data.List.Chain

/-!
# The seconds of the real-time clock

`rtc_handler` counts the interrupts between two changes of the second, and takes the last count for
the number of ticks of a second.  The state machine waits for the first change, which falls through
to the second state and is counted there as well.

The counters have 32 bits.  The uptime goes back when the seconds wrap around, and when the second
does not change for 2^32 interrupts.  Otherwise it never decreases.
-/

namespace JkxyKernel
namespace Time

/-- The variable `state` of `rtc_handler`. -/
inductive RtcState
  /-- State 0, `last_second` undefined. -/
  | initial
  /-- State 1, waiting for seconds align. -/
  | align
  /-- State 2, normal mode. -/
  | normal
  deriving DecidableEq

/-- All variables of `uptime.c`. -/
structure Rtc where
  uptime : Uptime
  lastSecond : BitVec 16
  state : RtcState

/-- `rtc_rate_to_freq(RTC_HW_RATE)` -/
def rtcHwFreq : BitVec 32 := 32768 >>> 5

def Rtc.init : Rtc where
  uptime :=
    { lastCalibration := rtcHwFreq, rtcCounter := 0, seconds := 0, calibrated := by decide }
  lastSecond := -1
  state := .initial

/-- A second is over. -/
def Uptime.turn (u : Uptime) : Uptime where
  lastCalibration := if u.rtcCounter = 0 then 1 else u.rtcCounter
  rtcCounter := 0
  seconds := u.seconds + 1
  calibrated := by
    split
    next => decide
    next h => exact h

/-- `case 2` of `rtc_handler`. -/
def Rtc.normalCase (r : Rtc) (changed : Bool) : Rtc :=
  if changed then { r with uptime := r.uptime.turn } else r

/-- `rtc_handler` -/
def Rtc.rtcHandler (r : Rtc) (second : BitVec 8) : Rtc :=
  let changed := second.setWidth 16 != r.lastSecond
  let r :=
    match r.state with
    | .initial => { r with state := .align }
    | .align =>
        let r := if changed then
          { r with state := .normal, uptime := { r.uptime with rtcCounter := 0 } } else r
        r.normalCase changed
    | .normal => r.normalCase changed
  { r with
    lastSecond := second.setWidth 16
    uptime := { r.uptime with rtcCounter := r.uptime.rtcCounter + 1 } }

/-- The variables after a history of readings, the last one first. -/
def Rtc.run : List (BitVec 8) → Rtc
  | [] => .init
  | second :: before => (Rtc.run before).rtcHandler second

/-- The uptime after a history of readings. -/
def uptimeAfter (readings : List (BitVec 8)) : Timespec := getUptime (Rtc.run readings).uptime

/-! ### Histories -/

/-- The order of seconds and nanoseconds. -/
def Timespec.Le (x y : Timespec) : Prop :=
  x.sec.toNat < y.sec.toNat ∨ x.sec = y.sec ∧ x.nsec.toNat ≤ y.nsec.toNat

/-- How many readings the last stretch without a change has. -/
def stretch : List (BitVec 8) → Nat
  | [] => 0
  | [_] => 1
  | a :: b :: before => if a = b then stretch (b :: before) + 1 else 1

/-- How many readings differ from the one before. -/
def changes : List (BitVec 8) → Nat
  | [] => 0
  | [_] => 0
  | a :: b :: before => if a = b then changes (b :: before) else changes (b :: before) + 1

/-- There are at most 4294 interrupts between two changes: the reading changes from `z` to `x`, is
the same for `n` more interrupts, and changes to `y`. -/
def FewBetween (readings : List (BitVec 8)) : Prop :=
  ∀ later y x n z before, readings = later ++ y :: (List.replicate (n + 1) x ++ z :: before) →
    y ≠ x → x ≠ z → n ≤ 4294

/-- No reading is the same for 2^32 interrupts. -/
def ShortStretches (readings : List (BitVec 8)) : Prop :=
  ∀ later x n before, readings = later ++ (List.replicate n x ++ before) → n < 2 ^ 32

/-- The seconds do not wrap around. -/
def FewChanges (readings : List (BitVec 8)) : Prop := changes readings < 2 ^ 32

section Histories

variable {a b : BitVec 8} {readings later before : List (BitVec 8)}

theorem FewBetween.of_append (h : FewBetween (later ++ before)) : FewBetween before := by
  intro later' y x n z before' heq
  exact h (later ++ later') y x n z before' (by rw [heq, List.append_assoc])

theorem ShortStretches.of_append (h : ShortStretches (later ++ before)) :
    ShortStretches before := by
  intro later' x n before' heq
  exact h (later ++ later') x n before' (by rw [heq, List.append_assoc])

theorem changes_le_cons : changes before ≤ changes (a :: before) := by
  cases before with
  | nil => exact Nat.le_refl _
  | cons b before =>
      rw [changes]
      split
      next => exact Nat.le_refl _
      next => exact Nat.le_succ _

theorem stretch_pos : 0 < stretch (a :: before) := by
  cases before with
  | nil => exact Nat.one_pos
  | cons b before =>
      rw [stretch]
      split
      next => exact Nat.succ_pos _
      next => exact Nat.one_pos

/-- The last stretch. -/
theorem exists_stretch (b : BitVec 8) (before : List (BitVec 8)) :
    ∃ rest, b :: before = List.replicate (stretch (b :: before)) b ++ rest ∧
      (changes (b :: before) ≠ 0 → ∃ z rest', rest = z :: rest' ∧ b ≠ z) := by
  induction before generalizing b with
  | nil => exact ⟨[], rfl, fun h => absurd rfl h⟩
  | cons c before ih =>
      rw [stretch, changes]
      split
      next heq =>
        subst heq
        obtain ⟨rest, hrest, hz⟩ := ih b
        refine ⟨rest, ?_, hz⟩
        rw [List.replicate_succ, List.cons_append, ← hrest]
      next hne => exact ⟨c :: before, rfl, fun _ => ⟨c, before, rfl, hne⟩⟩

theorem stretch_lt (h : ShortStretches readings) : stretch readings < 2 ^ 32 := by
  cases readings with
  | nil => exact Nat.two_pow_pos 32
  | cons b before =>
      obtain ⟨rest, hrest, -⟩ := exists_stretch b before
      exact h [] b _ rest hrest

/-- At a change the stretch before has been short, unless it was the first one. -/
theorem stretch_le (h : FewBetween (a :: b :: before)) (hab : a ≠ b)
    (hchanges : changes (b :: before) ≠ 0) : stretch (b :: before) ≤ 4295 := by
  obtain ⟨rest, hrest, hz⟩ := exists_stretch b before
  obtain ⟨z, rest', rfl, hne⟩ := hz hchanges
  have hpos := @stretch_pos b before
  have hsucc : stretch (b :: before) - 1 + 1 = stretch (b :: before) := Nat.sub_add_cancel hpos
  have hle := h [] a b (stretch (b :: before) - 1) z rest' (by rw [hsucc, ← hrest]; rfl) hab hne
  omega

end Histories

section Handler

variable {a b : BitVec 8} {readings before : List (BitVec 8)} {r : Rtc}

theorem setWidth_inj : a.setWidth 16 = b.setWidth 16 ↔ a = b := by
  refine ⟨fun h => BitVec.eq_of_toNat_eq ?_, fun h => by rw [h]⟩
  have hnat := congrArg BitVec.toNat h
  rwa [BitVec.toNat_setWidth_of_le (by decide), BitVec.toNat_setWidth_of_le (by decide)] at hnat

/-- One more interrupt in the same second. -/
def Uptime.tick (u : Uptime) : Uptime := { u with rtcCounter := u.rtcCounter + 1 }

/-- Without a change the interrupt is counted. -/
theorem rtcHandler_same (hlast : r.lastSecond = a.setWidth 16) (hstate : r.state ≠ .initial) :
    r.rtcHandler a = { r with uptime := r.uptime.tick } := by
  obtain ⟨uptime, lastSecond, state⟩ := r
  simp only at hlast
  subst hlast
  cases state with
  | initial => exact absurd rfl hstate
  | align => simp only [Rtc.rtcHandler, Rtc.normalCase, bne_self_eq_false]; rfl
  | normal => simp only [Rtc.rtcHandler, Rtc.normalCase, bne_self_eq_false]; rfl

/-- A change starts a second. -/
structure Starts (r r' : Rtc) : Prop where
  seconds : r'.uptime.seconds = r.uptime.seconds + 1
  rtcCounter : r'.uptime.rtcCounter = 1
  lastCalibration : r'.uptime.lastCalibration =
    if r.state = .align ∨ r.uptime.rtcCounter = 0 then 1 else r.uptime.rtcCounter
  state : r'.state = .normal

theorem rtcHandler_changed (hlast : r.lastSecond ≠ a.setWidth 16) (hstate : r.state ≠ .initial) :
    Starts r (r.rtcHandler a) := by
  obtain ⟨uptime, lastSecond, state⟩ := r
  have hchanged : (a.setWidth 16 != lastSecond) = true := bne_iff_ne.mpr (Ne.symm hlast)
  cases state with
  | initial => exact absurd rfl hstate
  | align =>
      simp only [Rtc.rtcHandler, Rtc.normalCase, hchanged, if_true]
      exact ⟨rfl, rfl, rfl, rfl⟩
  | normal =>
      simp only [Rtc.rtcHandler, Rtc.normalCase, hchanged, if_true]
      refine ⟨rfl, rfl, ?_, rfl⟩
      simp only [Uptime.turn, reduceCtorEq, false_or]

theorem rtcHandler_lastSecond : (r.rtcHandler a).lastSecond = a.setWidth 16 := rfl

theorem run_lastSecond : (Rtc.run (a :: before)).lastSecond = a.setWidth 16 :=
  rtcHandler_lastSecond

/-- Where the machine is after a history. -/
theorem run_state : (Rtc.run (a :: before)).state =
    if changes (a :: before) = 0 then .align else .normal := by
  induction before generalizing a with
  | nil => rfl
  | cons b before ih =>
      have hstate : (Rtc.run (b :: before)).state ≠ .initial := by
        rw [ih]
        split <;> exact RtcState.noConfusion
      rw [Rtc.run, changes]
      split
      next heq =>
        subst heq
        rw [rtcHandler_same run_lastSecond hstate]
        exact ih
      next hne =>
        rw [if_neg (Nat.succ_ne_zero _)]
        refine (rtcHandler_changed ?_ hstate).state
        rw [run_lastSecond]
        exact fun h => hne (setWidth_inj.mp h).symm

theorem run_ne_initial : (Rtc.run (a :: before)).state ≠ .initial := by
  rw [run_state]
  split <;> exact RtcState.noConfusion

/-- The same reading again. -/
theorem run_same : (Rtc.run (b :: b :: before)).uptime = (Rtc.run (b :: before)).uptime.tick := by
  rw [Rtc.run, rtcHandler_same run_lastSecond run_ne_initial]

/-- Another reading. -/
theorem run_changed (hab : a ≠ b) :
    Starts (Rtc.run (b :: before)) (Rtc.run (a :: b :: before)) := by
  refine rtcHandler_changed ?_ run_ne_initial
  rw [run_lastSecond]
  exact fun h => hab (setWidth_inj.mp h).symm

/-- The seconds are the changes, with 32 bits. -/
theorem run_seconds : (Rtc.run readings).uptime.seconds = BitVec.ofNat 32 (changes readings) := by
  induction readings with
  | nil => rfl
  | cons a before ih =>
      cases before with
      | nil => rfl
      | cons b before =>
          rw [changes]
          split
          next heq =>
            rw [← heq, run_same]
            rw [← heq] at ih
            exact ih
          next hne =>
            rw [(run_changed hne).seconds, ih, BitVec.ofNat_add]
            rfl

/-- The counter has the length of the last stretch, with 32 bits. -/
theorem run_rtcCounter :
    (Rtc.run readings).uptime.rtcCounter = BitVec.ofNat 32 (stretch readings) := by
  induction readings with
  | nil => rfl
  | cons a before ih =>
      cases before with
      | nil => rfl
      | cons b before =>
          rw [stretch]
          split
          next heq =>
            rw [← heq] at ih ⊢
            rw [run_same, BitVec.ofNat_add, ← ih]
            rfl
          next hne => exact (run_changed hne).rtcCounter

/-- Until the first change a second is what the hardware says. -/
theorem run_lastCalibration_of_none (h : changes readings = 0) :
    (Rtc.run readings).uptime.lastCalibration = 1024 := by
  induction readings with
  | nil => rfl
  | cons a before ih =>
      cases before with
      | nil => rfl
      | cons b before =>
          rw [changes] at h
          split at h
          next heq =>
            rw [← heq] at ih h ⊢
            rw [run_same]
            exact ih h
          next => cases h

/-- The number of ticks of a second is never too large for the first product. -/
theorem run_lastCalibration_le (h : FewBetween readings) :
    (Rtc.run readings).uptime.lastCalibration.toNat ≤ 4295 := by
  induction readings with
  | nil => decide
  | cons a before ih =>
      cases before with
      | nil => exact (show (1024 : BitVec 32).toNat ≤ 4295 by decide)
      | cons b before =>
          have hle := ih (@FewBetween.of_append [a] _ h)
          by_cases hab : a = b
          · subst hab
            rw [run_same]
            exact hle
          · rw [(run_changed hab).lastCalibration]
            split
            next => decide
            next hnot =>
              have hchanges : changes (b :: before) ≠ 0 := fun hzero =>
                hnot (Or.inl (by rw [run_state, if_pos hzero]))
              rw [run_rtcCounter, BitVec.toNat_ofNat]
              exact Nat.le_trans (Nat.mod_le _ _) (stretch_le h hab hchanges)

end Handler

section Uptimes

variable {u : Uptime} {x y z : Timespec} {a : BitVec 8} {later before : List (BitVec 8)}

theorem Timespec.Le.refl (x : Timespec) : x.Le x := Or.inr ⟨rfl, Nat.le_refl _⟩

theorem Timespec.Le.trans (hxy : x.Le y) (hyz : y.Le z) : x.Le z := by
  rcases hxy with hxy | ⟨hsec, hxy⟩
  · rcases hyz with hyz | ⟨hsec', -⟩
    · exact Or.inl (Nat.lt_trans hxy hyz)
    · exact Or.inl (hsec' ▸ hxy)
  · rcases hyz with hyz | ⟨hsec', hyz⟩
    · exact Or.inl (hsec ▸ hyz)
    · exact Or.inr ⟨hsec.trans hsec', Nat.le_trans hxy hyz⟩

/-- The nanoseconds, where the product does not wrap around. -/
theorem getUptime_nsec (hle : u.lastCalibration.toNat ≤ 4295) :
    (getUptime u).nsec.toNat = min u.rtcCounter.toNat (u.lastCalibration.toNat - 1) * 1000000 /
      u.lastCalibration.toNat * 1000 := by
  have hpos : 0 < u.lastCalibration.toNat :=
    Nat.pos_of_ne_zero fun h => u.calibrated (BitVec.eq_of_toNat_eq h)
  have hone : (1 : BitVec 32).toNat = 1 := rfl
  obtain ⟨counter, hcounter, hmin⟩ : ∃ counter : BitVec 32,
      getUptime u = ⟨u.seconds, counter * 1000000 / u.lastCalibration * 1000⟩ ∧
        counter.toNat = min u.rtcCounter.toNat (u.lastCalibration.toNat - 1) := by
    refine ⟨_, rfl, ?_⟩
    split
    next h =>
      rw [BitVec.le_def] at h
      rw [BitVec.toNat_sub_of_le (by rw [BitVec.le_def, hone]; exact hpos), hone]
      omega
    next h =>
      rw [BitVec.le_def] at h
      omega
  have hmillion : (1000000 : BitVec 32).toNat = 1000000 := rfl
  have hthousand : (1000 : BitVec 32).toNat = 1000 := rfl
  have hscaled := @scaled_lt counter.toNat u.lastCalibration.toNat (by omega)
  have hfits : counter.toNat * 1000000 < 2 ^ 32 := by omega
  rw [Nat.mod_eq_of_lt hfits] at hscaled
  have hnanos : counter.toNat * 1000000 / u.lastCalibration.toNat * 1000 < 2 ^ 32 :=
    Nat.lt_trans (Nat.mul_lt_mul_of_pos_right hscaled (by decide)) (by decide)
  rw [hcounter, BitVec.toNat_mul, BitVec.toNat_udiv, BitVec.toNat_mul, hmillion, hthousand,
    Nat.mod_eq_of_lt hfits, Nat.mod_eq_of_lt hnanos, hmin]

/-- An interrupt in the same second. -/
theorem getUptime_tick (hle : u.lastCalibration.toNat ≤ 4295)
    (hcounter : u.rtcCounter.toNat + 1 < 2 ^ 32) : (getUptime u).Le (getUptime u.tick) := by
  have hone : (1 : BitVec 32).toNat = 1 := rfl
  have hnext : u.tick.rtcCounter.toNat = u.rtcCounter.toNat + 1 := by
    rw [Uptime.tick, BitVec.toNat_add, hone, Nat.mod_eq_of_lt hcounter]
  have hcalibration : u.tick.lastCalibration = u.lastCalibration := rfl
  refine Or.inr ⟨rfl, ?_⟩
  rw [getUptime_nsec hle, @getUptime_nsec u.tick hle, hnext, hcalibration]
  refine Nat.mul_le_mul_right _ (Nat.div_le_div_right (Nat.mul_le_mul_right _ ?_))
  omega

/-- One interrupt more. -/
theorem uptimeAfter_le_cons (hbetween : FewBetween (a :: before))
    (hstretches : ShortStretches (a :: before)) (hchanges : FewChanges (a :: before)) :
    (uptimeAfter before).Le (uptimeAfter (a :: before)) := by
  have hle := run_lastCalibration_le (@FewBetween.of_append [a] _ hbetween)
  have hshort := stretch_lt hstretches
  cases before with
  | nil =>
      have hzero : (Rtc.run []).uptime.rtcCounter.toNat = 0 := rfl
      refine getUptime_tick hle ?_
      rw [hzero]
      exact Nat.one_lt_two_pow (by decide)
  | cons b before =>
      by_cases hab : a = b
      · subst hab
        rw [stretch, if_pos rfl] at hshort
        rw [uptimeAfter, uptimeAfter, run_same]
        refine getUptime_tick hle ?_
        rw [run_rtcCounter, BitVec.toNat_ofNat]
        exact Nat.lt_of_le_of_lt (Nat.succ_le_succ (Nat.mod_le _ _)) hshort
      · -- the seconds go on
        refine Or.inl ?_
        have hsec : ∀ readings, (uptimeAfter readings).sec = BitVec.ofNat 32 (changes readings) :=
          fun readings => run_seconds
        rw [FewChanges] at hchanges
        rw [hsec, hsec, BitVec.toNat_ofNat, BitVec.toNat_ofNat, Nat.mod_eq_of_lt hchanges]
        rw [changes, if_neg hab] at hchanges ⊢
        exact Nat.lt_succ_of_le (Nat.mod_le _ _)

end Uptimes

/-- **The uptime never decreases.**  With at most 4294 interrupts between two changes of the second,
less than 2^32 in every stretch without a change, and less than 2^32 changes, a later uptime is not
less; and every uptime has less nanoseconds than a second, and is not divided by 0. -/
theorem uptimeAfter_mono {later before : List (BitVec 8)} (hbetween : FewBetween (later ++ before))
    (hstretches : ShortStretches (later ++ before)) (hchanges : FewChanges (later ++ before)) :
    (uptimeAfter before).Le (uptimeAfter (later ++ before)) ∧
      (uptimeAfter (later ++ before)).Valid ∧
      (Rtc.run (later ++ before)).uptime.lastCalibration ≠ 0 := by
  refine ⟨?_, getUptime_valid _, Uptime.calibrated _⟩
  induction later with
  | nil => exact Timespec.Le.refl _
  | cons a later ih =>
      refine (ih (@FewBetween.of_append [a] _ hbetween)
        (@ShortStretches.of_append [a] _ hstretches) ?_).trans
        (uptimeAfter_le_cons hbetween hstretches hchanges)
      exact Nat.lt_of_le_of_lt changes_le_cons hchanges

/-- In a short history there is little of everything. -/
theorem short_history {readings : List (BitVec 8)} (h : readings.length ≤ 4297) :
    FewBetween readings ∧ ShortStretches readings := by
  constructor
  · intro later y x n z before heq _ _
    have hlength := congrArg List.length heq
    simp only [List.length_append, List.length_cons, List.length_replicate] at hlength
    omega
  · intro later x n before heq
    have hlength := congrArg List.length heq
    simp only [List.length_append, List.length_replicate] at hlength
    omega

/-- Two ticks and a change. -/
theorem uptimeAfter_mono_change :
    (uptimeAfter [58, 58]).Le (uptimeAfter ([59] ++ [58, 58])) ∧
      (uptimeAfter ([59] ++ [58, 58])).Valid ∧
      (Rtc.run ([59] ++ [58, 58])).uptime.lastCalibration ≠ 0 :=
  uptimeAfter_mono (short_history (by decide)).1 (short_history (by decide)).2
    (show 1 < 2 ^ 32 from Nat.one_lt_two_pow (by decide))

/-! ### Going back -/

section GoingBack

variable {n : Nat}

theorem stretch_replicate (a : BitVec 8) (n : Nat) : stretch (List.replicate n a) = n := by
  induction n with
  | zero => rfl
  | succ n ih =>
      cases n with
      | zero => rfl
      | succ n =>
          rw [List.replicate_succ, List.replicate_succ, stretch, if_pos rfl, ← List.replicate_succ, ih]

theorem changes_replicate (a : BitVec 8) (n : Nat) : changes (List.replicate n a) = 0 := by
  induction n with
  | zero => rfl
  | succ n ih =>
      cases n with
      | zero => rfl
      | succ n =>
          rw [List.replicate_succ, List.replicate_succ, changes, if_pos rfl, ← List.replicate_succ, ih]

/-- A clock that stands still. -/
theorem fewBetween_replicate (a : BitVec 8) (n : Nat) : FewBetween (List.replicate n a) := by
  intro later y x m z before heq hyx _
  have hmem : ∀ b ∈ later ++ y :: (List.replicate (m + 1) x ++ z :: before), b = a := by
    intro b hb
    rw [← heq] at hb
    exact List.eq_of_mem_replicate hb
  have hy : y = a := hmem y (List.mem_append_right _ List.mem_cons_self)
  have hx : x = a := hmem x (List.mem_append_right _ (List.mem_cons_of_mem _
    (List.mem_append_left _ List.mem_cons_self)))
  exact absurd (hy.trans hx.symm) hyx

theorem uptimeAfter_replicate_nsec (hn : n < 2 ^ 32) :
    (uptimeAfter (List.replicate n 0)).nsec.toNat = min n 1023 * 1000000 / 1024 * 1000 := by
  have hcalibration := run_lastCalibration_of_none (changes_replicate 0 n)
  have hcalibration' : (Rtc.run (List.replicate n 0)).uptime.lastCalibration.toNat = 1024 := by
    rw [hcalibration]
    rfl
  have hcounter : (Rtc.run (List.replicate n 0)).uptime.rtcCounter.toNat = n := by
    rw [run_rtcCounter, stretch_replicate, BitVec.toNat_ofNat, Nat.mod_eq_of_lt hn]
  rw [uptimeAfter, getUptime_nsec (by omega), hcalibration', hcounter]

/-- The counter of the interrupts wraps around. -/
theorem uptimeAfter_replicate_wraps (hn : n + 1 = 2 ^ 32) :
    ¬ (uptimeAfter (List.replicate n 0)).Le (uptimeAfter (List.replicate (n + 1) 0)) := by
  have hbefore := @uptimeAfter_replicate_nsec n (by omega)
  have hsec : ∀ m, (uptimeAfter (List.replicate m 0)).sec = 0 := by
    intro m
    change (Rtc.run (List.replicate m 0)).uptime.seconds = 0
    rw [run_seconds, changes_replicate]
    rfl
  have hcounter : (Rtc.run (List.replicate (n + 1) 0)).uptime.rtcCounter = 0 := by
    rw [run_rtcCounter, stretch_replicate, hn]
    rfl
  have hcalibration := run_lastCalibration_of_none (changes_replicate 0 (n + 1))
  have hafter : (uptimeAfter (List.replicate (n + 1) 0)).nsec.toNat = 0 := by
    rw [uptimeAfter, getUptime_nsec (by rw [hcalibration]; decide), hcounter, hcalibration]
    rfl
  rintro (hlt | ⟨-, hle⟩)
  · rw [hsec, hsec] at hlt
    exact Nat.lt_irrefl _ hlt
  · rw [hbefore, hafter] at hle
    omega

/-- A clock that changes at every interrupt. -/
def alternate : Nat → List (BitVec 8)
  | 0 => [0]
  | n + 1 => BitVec.ofNat 8 ((n + 1) % 2) :: alternate n

theorem alternate_eq (n : Nat) : ∃ before, alternate n = BitVec.ofNat 8 (n % 2) :: before := by
  cases n with
  | zero => exact ⟨[], rfl⟩
  | succ n => exact ⟨alternate n, rfl⟩

theorem alternate_ne (n : Nat) : BitVec.ofNat 8 ((n + 1) % 2) ≠ BitVec.ofNat 8 (n % 2) := by
  rcases Nat.mod_two_eq_zero_or_one n with h | h
  · rw [h, show (n + 1) % 2 = 1 by omega]
    decide
  · rw [h, show (n + 1) % 2 = 0 by omega]
    decide

theorem changes_alternate (n : Nat) : changes (alternate n) = n := by
  induction n with
  | zero => rfl
  | succ n ih =>
      obtain ⟨before, hbefore⟩ := alternate_eq n
      rw [alternate, hbefore, changes, if_neg (alternate_ne n), ← hbefore, ih]

/-- No reading comes twice. -/
theorem isChain_alternate (n : Nat) : List.IsChain (· ≠ ·) (alternate n) := by
  induction n with
  | zero => exact List.isChain_singleton _
  | succ n ih =>
      obtain ⟨before, hbefore⟩ := alternate_eq n
      rw [alternate, hbefore]
      rw [hbefore] at ih
      exact List.isChain_cons_cons.mpr ⟨alternate_ne n, ih⟩

theorem alternate_stretch {later rest : List (BitVec 8)} {x : BitVec 8} {m : Nat}
    (h : alternate n = later ++ (List.replicate m x ++ rest)) : m ≤ 1 := by
  have hchain := isChain_alternate n
  rw [h] at hchain
  match m with
  | 0 => exact Nat.zero_le 1
  | 1 => exact Nat.le_refl 1
  | m + 2 =>
      have hright : List.IsChain (· ≠ ·) (List.replicate (m + 2) x ++ rest) :=
        hchain.right_of_append
      exact absurd rfl (List.isChain_cons_cons.mp hright).1

theorem fewBetween_alternate (n : Nat) : FewBetween (alternate n) := by
  intro later y x m z before heq _ _
  have hle := @alternate_stretch n (later ++ [y]) (z :: before) x (m + 1) (by
    rw [heq, List.append_assoc]
    rfl)
  omega

theorem shortStretches_alternate (n : Nat) : ShortStretches (alternate n) := by
  intro later x m before heq
  exact Nat.lt_of_le_of_lt (alternate_stretch heq) (Nat.one_lt_two_pow (by decide))

/-- The seconds wrap around. -/
theorem uptimeAfter_alternate_wraps (hn : n + 1 = 2 ^ 32) :
    ¬ (uptimeAfter (alternate n)).Le (uptimeAfter (alternate (n + 1))) := by
  have hsec : ∀ m, (uptimeAfter (alternate m)).sec = BitVec.ofNat 32 m := by
    intro m
    change (Rtc.run (alternate m)).uptime.seconds = _
    rw [run_seconds, changes_alternate]
  have hbefore : (uptimeAfter (alternate n)).sec.toNat = n := by
    rw [hsec, BitVec.toNat_ofNat, Nat.mod_eq_of_lt (by omega)]
  have hafter : (uptimeAfter (alternate (n + 1))).sec.toNat = 0 := by
    rw [hsec, hn]
    rfl
  rintro (hlt | ⟨heq, -⟩)
  · omega
  · have hnat := congrArg BitVec.toNat heq
    omega

end GoingBack

/-- After 2^32 interrupts without a change, and after 2^32 changes, the uptime goes back. -/
theorem uptimeAfter_goes_back :
    (∃ later before, FewBetween (later ++ before) ∧ FewChanges (later ++ before) ∧
        ¬ (uptimeAfter before).Le (uptimeAfter (later ++ before))) ∧
      ∃ later before, FewBetween (later ++ before) ∧ ShortStretches (later ++ before) ∧
        ¬ (uptimeAfter before).Le (uptimeAfter (later ++ before)) := by
  obtain ⟨n, hn⟩ : ∃ n, n + 1 = 2 ^ 32 := ⟨2 ^ 32 - 1, Nat.sub_add_cancel Nat.one_le_two_pow⟩
  refine ⟨⟨[0], List.replicate n 0, ?_⟩, [BitVec.ofNat 8 ((n + 1) % 2)], alternate n, ?_⟩
  · rw [List.singleton_append, ← List.replicate_succ]
    refine ⟨fewBetween_replicate _ _, ?_, uptimeAfter_replicate_wraps hn⟩
    rw [FewChanges, changes_replicate]
    exact Nat.two_pow_pos 32
  · exact ⟨fewBetween_alternate (n + 1), shortStretches_alternate (n + 1),
      uptimeAfter_alternate_wraps hn⟩

end Time
end JkxyKernel
