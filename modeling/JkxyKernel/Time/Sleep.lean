import JkxyKernel.Time.Uptime

/-!
# Sleeping

`nanosleep` adds the request to the uptime and waits until `timespec_cmp` says that this
deadline is reached.  The comparison takes the difference of the seconds as a signed number:
a deadline that is more than 2^31 seconds away seems to have passed.

When a signal ends the sleep, the remainder is computed from a second reading of the clock.
If the deadline passes between the two readings, the remainder wraps around.
-/

namespace JkxyKernel
namespace Time

def EINTR : Int := 4
def ENOMEM : Int := 12
def EFAULT : Int := 14
def EINVAL : Int := 22

/-- `timespec_cmp` -/
def timespecCmp (x y : Timespec) : Int :=
  if x.sec = y.sec then (x.nsec - y.nsec).toInt else (x.sec - y.sec).toInt

/-- `timespec_add` -/
def timespecAdd (x y : Timespec) : Timespec :=
  let sec := x.sec + y.sec
  let nsec := x.nsec + y.nsec
  if nsecPerSec ≤ nsec.toNat then ⟨sec + 1, nsec - 1000000000⟩ else ⟨sec, nsec⟩

/-- `timespec_sub` -/
def timespecSub (x y : Timespec) : Timespec :=
  let x := if x.nsec < y.nsec then ⟨x.sec - 1, x.nsec + 1000000000⟩ else x
  ⟨x.sec - y.sec, x.nsec - y.nsec⟩

/-- `sleep_hashit` -/
def sleepHashit (endtime now : Timespec) : Bool := decide (0 ≤ timespecCmp now endtime)

/-- What `nanosleep` meets with: the readings of the clock, first the one in `sleep_add`, then
two for each round of the loop, of which the second is for the remainder; the signals; and
whether the buffers are safe and there is memory. -/
structure Course where
  clock : Nat → Timespec
  valid : ∀ n, (clock n).Valid
  mono : Monotone fun n => (clock n).nanos
  pending : Nat → Bool
  reqSafe : Bool
  remSafe : Bool
  remSafeThen : Nat → Bool
  allocated : Bool

/-- What it returns, with what was written to `rem` last, and the round in which it did. -/
structure Returned where
  res : Int
  rem : Option Timespec
  round : Nat
  deriving DecidableEq, Repr

namespace Course

variable (c : Course) (req : Timespec)

/-- `sleep_add` -/
def endtime : Timespec := timespecAdd (c.clock 0) req

/-- The loop of `nanosleep`, for so many rounds. -/
def sleepLoop : Nat → Nat → Option Timespec → Option Returned
  | 0, _, _ => none
  | rounds + 1, i, rem =>
      if sleepHashit (c.endtime req) (c.clock (2 * i + 1)) then some ⟨0, rem, i⟩
      else if c.pending i then
        some ⟨-EINTR, if c.remSafeThen i then
          some (timespecSub (c.endtime req) (c.clock (2 * i + 2))) else rem, i⟩
      else sleepLoop rounds (i + 1) rem

/-- `nanosleep` -/
def nanosleep (rounds : Nat) : Option Returned :=
  if !c.reqSafe then some ⟨-EFAULT, none, 0⟩
  else if nsecPerSec ≤ req.nsec.toNat then some ⟨-EINVAL, none, 0⟩
  else if !c.allocated then some ⟨-ENOMEM, none, 0⟩
  else c.sleepLoop req rounds 0 (if c.remSafe then some ⟨0, 0⟩ else none)

/-- The deadline as an exact number. -/
def deadline : Nat := (c.clock 0).nanos + req.nanos

/-- A signal ends the sleep in this round. -/
structure EndsBySignal (i : Nat) : Prop where
  pending : c.pending i = true
  first : ∀ j < i, c.pending j = false
  early : ∀ j ≤ i, sleepHashit (c.endtime req) (c.clock (2 * j + 1)) = false

/-- It is not over before the deadline, and if it is interrupted, the remainder is what is left
until then. -/
def Right : Prop :=
  ∀ rounds r, c.nanosleep req rounds = some r →
    (r.res = 0 → c.deadline req ≤ (c.clock (2 * r.round + 1)).nanos) ∧
    (r.res = -EINTR → c.remSafeThen r.round = true →
      ∃ rem, r.rem = some rem ∧ rem.Valid ∧
        rem.nanos + (c.clock (2 * r.round + 2)).nanos = c.deadline req)

end Course

/-! ### Times -/

section Times

variable {x y start req now : Timespec} {d : Nat}

theorem Timespec.sec_eq (hx : x.Valid) : x.sec.toNat = x.nanos / nsecPerSec := by
  rw [Timespec.Valid] at hx
  rw [Timespec.nanos, nsecPerSec] at *
  omega

/-- A time that is known up to the range of its seconds. -/
structure Timespec.Wraps (x : Timespec) (d : Nat) : Prop where
  sec : x.sec.toNat = d / nsecPerSec % 2 ^ 32
  nsec : x.nsec.toNat = d % nsecPerSec

theorem timespecAdd_wraps (hx : x.Valid) (hy : y.Valid) :
    (timespecAdd x y).Wraps (x.nanos + y.nanos) := by
  rw [Timespec.Valid, nsecPerSec] at hx hy
  have hsum : (x.nsec + y.nsec).toNat = x.nsec.toNat + y.nsec.toNat := by
    rw [BitVec.toNat_add]
    omega
  have hbillion : (1000000000 : BitVec 32).toNat = 1000000000 := rfl
  have hone : (1 : BitVec 32).toNat = 1 := rfl
  simp only [timespecAdd, hsum, nsecPerSec]
  split
  next hcarry =>
    constructor
    · rw [BitVec.toNat_add, BitVec.toNat_add, hone, Timespec.nanos, Timespec.nanos, nsecPerSec]
      omega
    · rw [BitVec.toNat_sub, hsum, hbillion, Timespec.nanos, Timespec.nanos, nsecPerSec]
      omega
  next hfits =>
    constructor
    · rw [BitVec.toNat_add, Timespec.nanos, Timespec.nanos, nsecPerSec]
      omega
    · rw [hsum, Timespec.nanos, Timespec.nanos, nsecPerSec]
      omega

/-- A difference of 32-bit numbers, the first of which is known up to its range. -/
theorem toNat_sub_of_wraps {a b : BitVec 32} {n : Nat} (ha : a.toNat = n % 2 ^ 32)
    (hle : b.toNat ≤ n) (hnear : n - b.toNat < 2 ^ 32) : (a - b).toNat = n - b.toNat := by
  have hb := b.isLt
  rw [BitVec.toNat_sub, ha]
  omega

/-- The remainder is right as long as the deadline is ahead, and not too far. -/
theorem timespecSub_right (hx : x.Wraps d) (hnow : now.Valid) (hle : now.nanos ≤ d)
    (hnear : d - now.nanos < 2 ^ 32 * nsecPerSec) :
    (timespecSub x now).Valid ∧ (timespecSub x now).nanos + now.nanos = d := by
  obtain ⟨hsec, hnsec⟩ := hx
  have hd : d / nsecPerSec * nsecPerSec + d % nsecPerSec = d := Nat.div_add_mod' d nsecPerSec
  have hr : d % nsecPerSec < nsecPerSec := Nat.mod_lt _ (by decide)
  generalize d / nsecPerSec = q at hsec hd
  generalize d % nsecPerSec = r at hnsec hd hr
  have hbillion : (1000000000 : BitVec 32).toNat = 1000000000 := rfl
  rw [Timespec.Valid, nsecPerSec] at hnow
  simp only [Timespec.nanos, nsecPerSec] at hle hnear hd hr
  simp only [Timespec.Valid, Timespec.nanos, timespecSub, nsecPerSec]
  split
  next hborrow =>
    rw [BitVec.lt_def, hnsec] at hborrow
    have hpred : (x.sec - 1).toNat = (q - 1) % 2 ^ 32 := by
      have hone : (1 : BitVec 32).toNat = 1 := rfl
      rw [BitVec.toNat_sub, hsec, hone]
      omega
    have hresult : (x.sec - 1 - now.sec).toNat = q - 1 - now.sec.toNat :=
      toNat_sub_of_wraps hpred (by omega) (by omega)
    have hcarry : (x.nsec + 1000000000).toNat = r + 1000000000 := by
      rw [BitVec.toNat_add, hnsec, hbillion]
      omega
    have hnanos : (x.nsec + 1000000000 - now.nsec).toNat = r + 1000000000 - now.nsec.toNat := by
      rw [BitVec.toNat_sub_of_le (by rw [BitVec.le_def, hcarry]; omega), hcarry]
    rw [hresult, hnanos]
    omega
  next hfits =>
    rw [BitVec.lt_def, hnsec, Nat.not_lt] at hfits
    have hresult : (x.sec - now.sec).toNat = q - now.sec.toNat :=
      toNat_sub_of_wraps hsec (by omega) (by omega)
    have hnanos : (x.nsec - now.nsec).toNat = r - now.nsec.toNat := by
      rw [BitVec.toNat_sub_of_le (by rw [BitVec.le_def, hnsec]; exact hfits), hnsec]
    rw [hresult, hnanos]
    omega

/-- `timespec_cmp` looks at the seconds up to their range, with the upper half negative. -/
theorem sleepHashit_iff (hx : x.Wraps d) (hnow : now.Valid) :
    sleepHashit x now = true ↔
      if now.sec.toNat = d / nsecPerSec % 2 ^ 32 then d % nsecPerSec ≤ now.nsec.toNat
      else (2 ^ 32 - d / nsecPerSec % 2 ^ 32 + now.sec.toNat) % 2 ^ 32 < 2 ^ 31 := by
  rw [sleepHashit, decide_eq_true_iff, timespecCmp]
  by_cases hsec : now.sec = x.sec
  · have hsame : now.sec.toNat = d / nsecPerSec % 2 ^ 32 := by rw [hsec, hx.sec]
    rw [if_pos hsec, if_pos hsame, ← hx.nsec]
    have hnsec := hx.nsec
    rw [Timespec.Valid, nsecPerSec] at hnow
    rw [nsecPerSec] at hnsec
    rw [BitVec.toInt_eq_toNat_cond, BitVec.toNat_sub]
    split <;> omega
  · have hother : now.sec.toNat ≠ d / nsecPerSec % 2 ^ 32 := by
      rw [← hx.sec]
      exact fun h => hsec (BitVec.eq_of_toNat_eq h)
    rw [if_neg hsec, if_neg hother, ← hx.sec, BitVec.toInt_eq_toNat_cond, BitVec.toNat_sub]
    split <;> omega

section Deadline

variable (hx : x.Wraps d) (hnow : now.Valid) (hahead : d < now.nanos + 2 ^ 32 * nsecPerSec)

include hx hnow hahead

/-- A deadline that is at most 2^31 seconds away does not seem to have passed before. -/
theorem reached_of_sleepHashit (hnear : d / nsecPerSec ≤ now.sec.toNat + 2 ^ 31)
    (h : sleepHashit x now = true) : d ≤ now.nanos := by
  rw [sleepHashit_iff hx hnow] at h
  have hlt := now.sec.isLt
  rw [Timespec.Valid] at hnow
  rw [Timespec.nanos] at hahead ⊢
  rw [nsecPerSec] at *
  split at h <;> omega

/-- One that is further away does. -/
theorem sleepHashit_of_far (hfar : now.sec.toNat + 2 ^ 31 < d / nsecPerSec) :
    sleepHashit x now = true := by
  rw [sleepHashit_iff hx hnow]
  have hlt := now.sec.isLt
  rw [Timespec.Valid] at hnow
  rw [Timespec.nanos] at hahead
  rw [nsecPerSec] at *
  split <;> omega

end Deadline
end Times

/-! ### The loop -/

namespace Course

variable {c : Course} {req : Timespec} {rounds i : Nat} {rem : Option Timespec} {r : Returned}

/-- How the loop is left, by induction on the rounds. -/
theorem sleepLoop_cases (h : c.sleepLoop req rounds i rem = some r) :
    (sleepHashit (c.endtime req) (c.clock (2 * r.round + 1)) = true ∧ r.res = 0) ∨
      (r.res = -EINTR ∧ c.pending r.round = true ∧
        (∀ j, i ≤ j → j < r.round → c.pending j = false) ∧
        (∀ j, i ≤ j → j ≤ r.round →
          sleepHashit (c.endtime req) (c.clock (2 * j + 1)) = false) ∧
        (c.remSafeThen r.round = true →
          r.rem = some (timespecSub (c.endtime req) (c.clock (2 * r.round + 2))))) := by
  induction rounds generalizing i with
  | zero => cases h
  | succ rounds ih =>
      rw [sleepLoop] at h
      split at h
      next hashit =>
        cases h
        exact .inl ⟨hashit, rfl⟩
      next hashit =>
        rw [Bool.not_eq_true] at hashit
        split at h
        next hpending =>
          cases h
          refine .inr ⟨rfl, hpending, fun j hle hlt => absurd hlt (Nat.not_lt.mpr hle),
            fun j hle hge => ?_, fun hsafe => if_pos hsafe⟩
          rw [Nat.le_antisymm hge hle]
          exact hashit
        next hpending =>
          rw [Bool.not_eq_true] at hpending
          rcases ih h with hover | ⟨hres, hend, hfirst, hearly, hrem⟩
          · exact .inl hover
          · refine .inr ⟨hres, hend, fun j hle hlt => ?_, fun j hle hge => ?_, hrem⟩
            · rcases Nat.eq_or_lt_of_le hle with rfl | hlt'
              · exact hpending
              · exact hfirst j hlt' hlt
            · rcases Nat.eq_or_lt_of_le hle with rfl | hlt'
              · exact hashit
              · exact hearly j hlt' hge

/-- A signal that ends the sleep does so in its round. -/
theorem sleepLoop_of_endsBySignal {k : Nat} (h : c.EndsBySignal req (i + k))
    (hsafe : c.remSafeThen (i + k) = true) :
    c.sleepLoop req (k + 1) i rem = some ⟨-EINTR,
      some (timespecSub (c.endtime req) (c.clock (2 * (i + k) + 2))), i + k⟩ := by
  induction k generalizing i with
  | zero =>
      rw [sleepLoop, h.early i (Nat.le_refl _), if_neg Bool.false_ne_true]
      rw [Nat.add_zero] at h hsafe
      rw [h.pending, if_pos rfl, if_pos hsafe]
      rfl
  | succ k ih =>
      have hlt : i < i + (k + 1) := Nat.lt_add_of_pos_right (Nat.succ_pos k)
      rw [sleepLoop, h.early i (Nat.le_of_lt hlt), if_neg Bool.false_ne_true, h.first i hlt,
        if_neg Bool.false_ne_true]
      have hshift : i + (k + 1) = i + 1 + k := by omega
      rw [hshift] at h hsafe ⊢
      exact ih h hsafe

/-- A deadline that is near at the first look stays so. -/
theorem near_of_first (hnear : c.deadline req / nsecPerSec ≤ (c.clock 1).sec.toNat + 2 ^ 31)
    {n : Nat} (hn : 1 ≤ n) :
    c.deadline req / nsecPerSec ≤ (c.clock n).sec.toNat + 2 ^ 31 := by
  have hmono : (c.clock 1).sec.toNat ≤ (c.clock n).sec.toNat := by
    rw [Timespec.sec_eq (c.valid 1), Timespec.sec_eq (c.valid n)]
    exact Nat.div_le_div_right (c.mono hn)
  omega

section Deadlines

variable (hreq : req.Valid)

include hreq

theorem endtime_wraps : (c.endtime req).Wraps (c.deadline req) :=
  timespecAdd_wraps (c.valid 0) hreq

/-- The deadline is never further away than the request. -/
theorem deadline_lt (n : Nat) :
    c.deadline req < (c.clock n).nanos + 2 ^ 32 * nsecPerSec := by
  have hstart : (c.clock 0).nanos ≤ (c.clock n).nanos := c.mono (Nat.zero_le n)
  have hsec := req.sec.isLt
  rw [Timespec.Valid, nsecPerSec] at hreq
  rw [deadline, Timespec.nanos.eq_def req, nsecPerSec]
  omega

theorem nanosleep_eq (hsafe : c.reqSafe = true) (hallocated : c.allocated = true) :
    c.nanosleep req rounds =
      c.sleepLoop req rounds 0 (if c.remSafe then some ⟨0, 0⟩ else none) := by
  rw [nanosleep, hsafe, hallocated, if_neg (by decide), if_neg (Nat.not_le.mpr hreq),
    if_neg (by decide)]

/-- **Sleeping long enough.**  `nanosleep` returns 0 only at the deadline, and with `-EINTR` it
stores what is left until then, if and only if the deadline is not more than 2^31 seconds
away at the first look at the clock, and has not passed at the second reading of the clock in
the round in which a signal ends the sleep. -/
theorem nanosleep_right_iff :
    c.Right req ↔ (c.reqSafe = true → c.allocated = true →
      c.deadline req / nsecPerSec ≤ (c.clock 1).sec.toNat + 2 ^ 31 ∧
        ∀ i, c.EndsBySignal req i → c.remSafeThen i = true →
          (c.clock (2 * i + 2)).nanos ≤ c.deadline req) := by
  have hend : (c.endtime req).Wraps (c.deadline req) := endtime_wraps hreq
  constructor
  · intro hright hsafe hallocated
    constructor
    · by_contra hfar
      rw [Nat.not_le] at hfar
      have hashit := sleepHashit_of_far hend (c.valid 1) (deadline_lt hreq 1) hfar
      have hreturned : c.nanosleep req 1 = some ⟨0, if c.remSafe then some ⟨0, 0⟩ else none, 0⟩ := by
        rw [nanosleep_eq hreq hsafe hallocated, sleepLoop, hashit, if_pos rfl]
      have hover : c.deadline req ≤ (c.clock 1).nanos := (hright 1 _ hreturned).1 rfl
      have hsec : c.deadline req / nsecPerSec ≤ (c.clock 1).nanos / nsecPerSec :=
        Nat.div_le_div_right hover
      rw [← Timespec.sec_eq (c.valid 1)] at hsec
      omega
    · intro i hi hrem
      rw [← Nat.zero_add i] at hi hrem
      have hreturned := @sleepLoop_of_endsBySignal c req 0
        (if c.remSafe then some ⟨0, 0⟩ else none) i hi hrem
      rw [← nanosleep_eq hreq hsafe hallocated, Nat.zero_add] at hreturned
      rw [Nat.zero_add] at hrem
      obtain ⟨rem, -, -, hsum⟩ := (hright _ _ hreturned).2 rfl hrem
      exact Nat.le.intro ((Nat.add_comm _ _).trans hsum)
  · intro hcond rounds r hr
    rw [nanosleep] at hr
    split at hr
    next => cases hr; exact ⟨nofun, nofun⟩
    next hsafe =>
      rw [if_neg (Nat.not_le.mpr hreq)] at hr
      split at hr
      next => cases hr; exact ⟨nofun, nofun⟩
      next hallocated =>
        rw [Bool.not_eq_true, Bool.not_eq_false'] at hsafe hallocated
        obtain ⟨hnear, hsignal⟩ := hcond hsafe hallocated
        rcases sleepLoop_cases hr with ⟨hashit, hres⟩ | ⟨hres, hpending, hfirst, hearly, hrem⟩
        · refine ⟨fun _ => ?_, fun hintr => ?_⟩
          · exact reached_of_sleepHashit hend (c.valid _) (deadline_lt hreq _)
              (near_of_first hnear (Nat.le_add_left 1 _)) hashit
          · rw [hres] at hintr
            cases hintr
        · refine ⟨fun hzero => ?_, fun _ hremsafe => ⟨_, hrem hremsafe, ?_⟩⟩
          · rw [hres] at hzero
            cases hzero
          · have hle := hsignal r.round ⟨hpending, fun j => hfirst j (Nat.zero_le j),
              fun j => hearly j (Nat.zero_le j)⟩ hremsafe
            have hahead : c.deadline req < _ := deadline_lt hreq (2 * r.round + 2)
            exact timespecSub_right hend (c.valid _) hle (by omega)

end Deadlines

/-! ### Two nights -/

/-- The first two readings of the clock are 0, and all others are 2 seconds later. -/
def twoSeconds (n : Nat) : Timespec := if n < 2 then ⟨0, 0⟩ else ⟨2, 0⟩

theorem twoSeconds_mono : Monotone fun n => (twoSeconds n).nanos := by
  intro a b hab
  change (twoSeconds a).nanos ≤ (twoSeconds b).nanos
  by_cases hb : b < 2
  · rw [twoSeconds, twoSeconds, if_pos hb, if_pos (Nat.lt_of_le_of_lt hab hb)]
  · rw [twoSeconds.eq_def b, if_neg hb, twoSeconds]
    split <;> decide

/-- A sleep with a signal from its first round on. -/
def disturbed : Course where
  clock := twoSeconds
  valid n := by
    rw [twoSeconds]
    split <;> decide
  mono := twoSeconds_mono
  pending _ := true
  reqSafe := true
  remSafe := true
  remSafeThen _ := true
  allocated := true

/-- A request of 3 seconds leaves 1 second. -/
theorem disturbed_right : disturbed.Right ⟨3, 0⟩ := by
  refine (nanosleep_right_iff (by decide)).mpr fun _ _ => ⟨by decide, fun i _ _ => ?_⟩
  have hlate : ¬ 2 * i + 2 < 2 := by omega
  have hlast : twoSeconds (2 * i + 2) = ⟨2, 0⟩ := by rw [twoSeconds, if_neg hlate]
  change (twoSeconds (2 * i + 2)).nanos ≤ _
  rw [hlast]
  decide

/-- One of 1 second leaves 2^32 - 1, and one of more than 2^31 seconds is over at once. -/
theorem disturbed_wrong : ¬ disturbed.Right ⟨1, 0⟩ ∧ ¬ disturbed.Right ⟨0x80000001, 0⟩ := by
  constructor
  · intro h
    have hreturned : disturbed.nanosleep ⟨1, 0⟩ 1 =
        some ⟨-EINTR, some ⟨0xffffffff, 0⟩, 0⟩ := by decide
    obtain ⟨rem, -, -, hsum⟩ := (h 1 _ hreturned).2 rfl rfl
    have hlate : (disturbed.clock 2).nanos ≤ disturbed.deadline ⟨1, 0⟩ :=
      Nat.le.intro ((Nat.add_comm _ _).trans hsum)
    exact absurd hlate (by decide)
  · intro h
    have hreturned : disturbed.nanosleep ⟨0x80000001, 0⟩ 1 = some ⟨0, some ⟨0, 0⟩, 0⟩ := by decide
    exact absurd ((h 1 _ hreturned).1 rfl) (by decide)

end Course
end Time
end JkxyKernel
