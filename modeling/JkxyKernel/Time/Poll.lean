import JkxyKernel.Time.Sleep

/-!
# Polling with a timeout

`poll` splits its timeout into seconds and milliseconds and gives it to `sleep_add`.  The
milliseconds are multiplied by 1000, which makes microseconds of them, and stored as nanoseconds.

A round asks every descriptor, and only if none is ready it looks at the clock.
-/

namespace JkxyKernel
namespace Time

def POLLIN : BitVec 16 := 0x0001
def POLLOUT : BitVec 16 := 0x0004
def POLLNVAL : BitVec 16 := 0x0020

/-- The operations of a file that `poll` looks at.  The one for polling gets the round, the events
and what is in `revents`. -/
structure PollFile where
  poll : Option (Nat → BitVec 16 → BitVec 16 → BitVec 16)
  read : Bool
  write : Bool

/-- `struct poll_entry` -/
structure PollEntry where
  file : Option PollFile
  events : BitVec 16
  revents : BitVec 16

/-- The entry for a descriptor. -/
def PollEntry.ofFd (file : Option PollFile) (events : BitVec 16) : PollEntry where
  file := file
  events := events
  revents := if file.isSome then 0 else POLLNVAL

/-- What the loop does with an entry. -/
def PollEntry.ask (round : Nat) (e : PollEntry) : PollEntry :=
  match e.file with
  | none => e
  | some file =>
      match file.poll with
      | some poll => { e with revents := poll round e.events e.revents }
      | none =>
          let e := if file.read ∧ e.events &&& POLLIN ≠ 0 then
            { e with revents := e.revents ||| POLLIN } else e
          if file.write ∧ e.events &&& POLLOUT ≠ 0 then
            { e with revents := e.revents ||| POLLOUT } else e

/-- How many descriptors are ready. -/
def ready (table : List PollEntry) : Nat := table.countP fun e => e.revents ≠ 0

/-- What `poll` meets with: the readings of the clock, first the one in `sleep_add`, then one for
each round; the signals; and whether the buffer is safe and there is memory. -/
structure PollCourse where
  clock : Nat → Timespec
  valid : ∀ n, (clock n).Valid
  mono : Monotone fun n => (clock n).nanos
  pending : Nat → Bool
  fdsSafe : Bool
  tableAllocated : Bool
  specAllocated : Bool

/-- What it returns, with what was written to the descriptors, and the round in which it did. -/
structure Polled where
  res : Int
  revents : List (BitVec 16)
  round : Nat

namespace PollCourse

variable (c : PollCourse)

/-- The time that a timeout is taken for. -/
def timespecOf (timeout : BitVec 32) : Timespec where
  sec := BitVec.ofInt 32 (timeout.toInt.tdiv 1000)
  nsec := BitVec.ofInt 32 (timeout.toInt.tmod 1000 * 1000)

/-- The deadline that is registered. -/
def sleepSpec (timeout : BitVec 32) : Option Timespec :=
  if c.fdsSafe ∧ c.tableAllocated ∧ 0 < timeout.toInt ∧ c.specAllocated then
    some (timespecAdd (c.clock 0) (timespecOf timeout))
  else none

/-- The loop of `poll`, for so many rounds. -/
def pollLoop (timeout : BitVec 32) : Nat → Nat → List PollEntry → Option Polled
  | 0, _, _ => none
  | rounds + 1, i, table =>
      if c.pending i then some ⟨-EINTR, table.map PollEntry.revents, i⟩
      else
        let table := table.map (PollEntry.ask i)
        let res := ready table
        if res ≠ 0 ∨ timeout = 0 then some ⟨res, table.map PollEntry.revents, i⟩
        else if (c.sleepSpec timeout).any fun endtime => sleepHashit endtime (c.clock (i + 1)) then
          some ⟨res, table.map PollEntry.revents, i⟩
        else pollLoop timeout rounds (i + 1) table

/-- `poll` -/
def poll (fds : List (Option PollFile × BitVec 16)) (timeout : BitVec 32) (rounds : Nat) :
    Option Polled :=
  if !c.fdsSafe then some ⟨-EFAULT, [], 0⟩
  else if !c.tableAllocated then some ⟨-ENOMEM, [], 0⟩
  else if 0 < timeout.toInt ∧ !c.specAllocated then some ⟨-ENOMEM, [], 0⟩
  else c.pollLoop timeout rounds 0 (fds.map fun fd => .ofFd fd.1 fd.2)

/-- The exact deadline. -/
def pollDeadline (timeout : BitVec 32) : Nat := (c.clock 0).nanos + timeout.toNat * 1000000

/-- The deadline that is registered is the exact one, and 0 is not returned before. -/
structure Right (fds : List (Option PollFile × BitVec 16)) (timeout : BitVec 32) : Prop where
  registered : ∀ endtime, c.sleepSpec timeout = some endtime →
    endtime.Valid ∧ endtime.nanos = c.pollDeadline timeout
  late : ∀ rounds r, c.poll fds timeout rounds = some r → r.res = 0 →
    c.pollDeadline timeout ≤ (c.clock (r.round + 1)).nanos

end PollCourse

section Polling

variable {c : PollCourse} {fds : List (Option PollFile × BitVec 16)} {timeout : BitVec 32}
variable {rounds i : Nat} {table : List PollEntry} {r : Polled}

/-- Without a signal and a descriptor the loop is left at the deadline, by induction on the
rounds. -/
theorem pollLoop_zero (htimeout : timeout ≠ 0) (h : c.pollLoop timeout rounds i table = some r)
    (hres : r.res = 0) :
    ∃ endtime, c.sleepSpec timeout = some endtime ∧
      sleepHashit endtime (c.clock (r.round + 1)) = true := by
  induction rounds generalizing i table with
  | zero => cases h
  | succ rounds ih =>
      rw [PollCourse.pollLoop] at h
      split at h
      next =>
        cases h
        cases hres
      next =>
        simp only at h
        split at h
        next hready =>
          cases h
          rcases hready with hready | hzero
          · exact absurd (Int.ofNat_eq_zero.mp hres) hready
          · exact absurd hzero htimeout
        next =>
          split at h
          next hashit =>
            cases h
            exact (Option.any_eq_true_iff_get _ _).mp hashit |>.elim fun hsome heq =>
              ⟨_, (Option.some_get hsome).symm, heq⟩
          next => exact ih h

theorem pos_toNat (htimeout : 0 < timeout.toInt) :
    0 < timeout.toNat ∧ timeout.toNat < 2 ^ 31 ∧ timeout.toInt = timeout.toNat := by
  have hlt := timeout.isLt
  have hint := timeout.toInt_eq_toNat_cond
  split at hint <;> omega

theorem timespecOf_sec (htimeout : 0 < timeout.toInt) :
    (PollCourse.timespecOf timeout).sec.toNat = timeout.toNat / 1000 := by
  obtain ⟨hpos, hlt, hint⟩ := pos_toNat htimeout
  rw [PollCourse.timespecOf, hint, BitVec.toNat_ofInt, Int.natCast_tdiv_eq_ediv]
  omega

theorem timespecOf_nsec (htimeout : 0 < timeout.toInt) :
    (PollCourse.timespecOf timeout).nsec.toNat = timeout.toNat % 1000 * 1000 := by
  obtain ⟨hpos, hlt, hint⟩ := pos_toNat htimeout
  rw [PollCourse.timespecOf, hint, BitVec.toNat_ofInt, Int.tmod_eq_emod_of_nonneg (by omega)]
  omega

theorem timespecOf_valid (htimeout : 0 < timeout.toInt) : (PollCourse.timespecOf timeout).Valid := by
  rw [Timespec.Valid, timespecOf_nsec htimeout, nsecPerSec]
  omega

/-- The registered deadline, up to the range of its seconds. -/
theorem sleepSpec_wraps (htimeout : 0 < timeout.toInt) :
    (timespecAdd (c.clock 0) (PollCourse.timespecOf timeout)).Wraps
      ((c.clock 0).nanos + (timeout.toNat / 1000 * nsecPerSec + timeout.toNat % 1000 * 1000)) := by
  have hwraps := timespecAdd_wraps (c.valid 0) (timespecOf_valid htimeout)
  rw [Timespec.nanos.eq_def (PollCourse.timespecOf timeout), timespecOf_sec htimeout,
    timespecOf_nsec htimeout] at hwraps
  exact hwraps

/-- A time with microseconds where it should have milliseconds. -/
theorem wrapped_eq_iff {sec nsec q r : Nat} (hnsec : nsec < nsecPerSec) (hr : r < 1000) :
    (sec * nsecPerSec + nsec + (q * nsecPerSec + r * 1000)) / nsecPerSec % 2 ^ 32 * nsecPerSec +
        (sec * nsecPerSec + nsec + (q * nsecPerSec + r * 1000)) % nsecPerSec =
      sec * nsecPerSec + nsec + (q * nsecPerSec + r * 1000000) ↔ r = 0 ∧ sec + q < 2 ^ 32 := by
  rw [nsecPerSec] at *
  have hsplit : sec * 1000000000 + nsec + (q * 1000000000 + r * 1000) =
      nsec + r * 1000 + (sec + q) * 1000000000 := by omega
  have hwrap := Nat.div_add_mod (sec + q) (2 ^ 32)
  rw [hsplit, Nat.add_mul_div_right _ _ (by decide), Nat.add_mul_mod_self_right]
  rcases Nat.lt_or_ge (nsec + r * 1000) 1000000000 with hfits | hcarry
  · rw [Nat.div_eq_of_lt hfits, Nat.mod_eq_of_lt hfits, Nat.zero_add]
    omega
  · -- a carry makes the seconds wrap even earlier, but then the product is wrong anyway
    have hone : (nsec + r * 1000) / 1000000000 = 1 := by omega
    have hle := Nat.mod_le (1 + (sec + q)) (2 ^ 32)
    rw [hone]
    omega

/-- When the deadline is the exact one. -/
theorem exact_iff (htimeout : 0 < timeout.toInt) :
    (timespecAdd (c.clock 0) (PollCourse.timespecOf timeout)).nanos = c.pollDeadline timeout ↔
      timeout.toNat % 1000 = 0 ∧ (c.clock 0).sec.toNat + timeout.toNat / 1000 < 2 ^ 32 := by
  obtain ⟨hsec, hnsec⟩ := @sleepSpec_wraps c timeout htimeout
  have hmillis : timeout.toNat * 1000000 =
      timeout.toNat / 1000 * nsecPerSec + timeout.toNat % 1000 * 1000000 := by
    rw [nsecPerSec]
    omega
  rw [Timespec.nanos, hsec, hnsec, PollCourse.pollDeadline, hmillis, Timespec.nanos]
  exact wrapped_eq_iff (c.valid 0) (Nat.mod_lt _ (by decide))

theorem sleepSpec_eq (htimeout : 0 < timeout.toInt) (hfds : c.fdsSafe = true)
    (htable : c.tableAllocated = true) (hspec : c.specAllocated = true) :
    c.sleepSpec timeout = some (timespecAdd (c.clock 0) (PollCourse.timespecOf timeout)) := by
  rw [PollCourse.sleepSpec, if_pos ⟨hfds, htable, htimeout, hspec⟩]

theorem sleepSpec_eq_some {endtime : Timespec} (h : c.sleepSpec timeout = some endtime) :
    (c.fdsSafe = true ∧ c.tableAllocated = true ∧ c.specAllocated = true) ∧
      endtime = timespecAdd (c.clock 0) (PollCourse.timespecOf timeout) := by
  rw [PollCourse.sleepSpec] at h
  split at h
  next hall =>
    cases h
    exact ⟨⟨hall.1, hall.2.1, hall.2.2.2⟩, rfl⟩
  next => cases h

/-- When 0 is returned, the clock has reached the deadline. -/
theorem poll_zero (htimeout : timeout ≠ 0) (h : c.poll fds timeout rounds = some r)
    (hres : r.res = 0) :
    ∃ endtime, c.sleepSpec timeout = some endtime ∧
      sleepHashit endtime (c.clock (r.round + 1)) = true := by
  rw [PollCourse.poll] at h
  split at h
  next =>
    cases h
    cases hres
  next =>
    split at h
    next =>
      cases h
      cases hres
    next =>
      split at h
      next =>
        cases h
        cases hres
      next => exact pollLoop_zero htimeout h hres

/-- A timeout is never far away. -/
theorem pollDeadline_near (htimeout : 0 < timeout.toInt) (n : Nat) :
    c.pollDeadline timeout < (c.clock n).nanos + 2 ^ 32 * nsecPerSec ∧
      c.pollDeadline timeout / nsecPerSec ≤ (c.clock n).sec.toNat + 2 ^ 31 := by
  obtain ⟨hpos, hlt, hint⟩ := pos_toNat htimeout
  have hstart : (c.clock 0).nanos ≤ (c.clock n).nanos := c.mono (Nat.zero_le n)
  rw [Timespec.sec_eq (c.valid n), PollCourse.pollDeadline, nsecPerSec]
  omega

end Polling

/-- **When timeouts are honoured.**  The deadline is registered exactly and 0 is not returned before
it, if and only if the timeout is a number of full seconds, and the seconds of the deadline do not
wrap around. -/
theorem poll_right_iff (c : PollCourse) (fds : List (Option PollFile × BitVec 16))
    (timeout : BitVec 32) (htimeout : 0 < timeout.toInt) :
    c.Right fds timeout ↔
      (c.fdsSafe = true → c.tableAllocated = true → c.specAllocated = true →
        timeout.toNat % 1000 = 0 ∧ (c.clock 0).sec.toNat + timeout.toNat / 1000 < 2 ^ 32) := by
  constructor
  · intro h hfds htable hspec
    have hregistered := h.registered _ (sleepSpec_eq htimeout hfds htable hspec)
    exact (exact_iff htimeout).mp hregistered.2
  · intro hcond
    have hexact : ∀ endtime, c.sleepSpec timeout = some endtime →
        endtime.Wraps (c.pollDeadline timeout) ∧ endtime.nanos = c.pollDeadline timeout := by
      intro endtime hspec
      obtain ⟨⟨hfds, htable, hallocated⟩, rfl⟩ := sleepSpec_eq_some hspec
      have heq := (exact_iff htimeout).mpr (hcond hfds htable hallocated)
      have hwraps := @sleepSpec_wraps c timeout htimeout
      have hseconds : timeout.toNat / 1000 * nsecPerSec + timeout.toNat % 1000 * 1000 =
          timeout.toNat * 1000000 := by
        have hfull := (hcond hfds htable hallocated).1
        rw [nsecPerSec]
        omega
      rw [hseconds] at hwraps
      exact ⟨hwraps, heq⟩
    refine ⟨fun endtime hspec => ?_, fun rounds r hr hres => ?_⟩
    · obtain ⟨hwraps, heq⟩ := hexact endtime hspec
      refine ⟨?_, heq⟩
      rw [Timespec.Valid, hwraps.nsec]
      exact Nat.mod_lt _ (by decide)
    · obtain ⟨hpos, -, -⟩ := pos_toNat htimeout
      obtain ⟨endtime, hspec, hashit⟩ := poll_zero (fun hzero => by
        rw [hzero] at hpos
        exact absurd hpos (by decide)) hr hres
      obtain ⟨hahead, hnear⟩ := @pollDeadline_near c timeout htimeout (r.round + 1)
      exact reached_of_sleepHashit (hexact endtime hspec).1 (c.valid _) hahead hnear hashit

/-- The clock starts at 0, and in every round it is a second and half a millisecond later. -/
def idle : PollCourse where
  clock n := if n = 0 then ⟨0, 0⟩ else ⟨1, 500000⟩
  valid n := by
    split <;> decide
  mono := by
    intro a b hab
    change Timespec.nanos (if a = 0 then _ else _) ≤ Timespec.nanos (if b = 0 then _ else _)
    split
    next ha => exact Nat.zero_le _
    next ha => rw [if_neg (by omega)]
  pending _ := false
  fdsSafe := true
  tableAllocated := true
  specAllocated := true

/-- A timeout of a second. -/
theorem idle_right : idle.Right [] 1000 :=
  (poll_right_iff idle [] 1000 (by decide)).mpr fun _ _ _ => by decide

/-- After one of a second and a half 0 is returned half a millisecond after the second. -/
theorem idle_wrong :
    ¬ idle.Right [] 1500 ∧ idle.poll [] 1500 1 = some ⟨0, [], 0⟩ ∧
      (idle.clock 1).nanos < idle.pollDeadline 1500 := by
  have hreturned : idle.poll [] 1500 1 = some ⟨0, [], 0⟩ := rfl
  have hearly : (idle.clock 1).nanos < idle.pollDeadline 1500 := by decide
  exact ⟨fun h => absurd (h.late 1 _ hreturned rfl) (Nat.not_le.mpr hearly), hreturned, hearly⟩

end Time
end JkxyKernel
