import JkxyKernel.Task.Pids

/-!
# Processes and process groups as arguments

`kill` and `waitpid` read their argument as a pid, or as a process group when it is
negative, and `send_sig_info_pg` takes a group.  On the way the argument becomes a
`uint16_t`, and the group `0` means everybody to `kill` and `do_waitpg`.  So an argument
beyond 16 bits names another process or group, and a caller in group `0` that asks for
its own group asks for everybody.

`send_sig_info_pg` looks up a leader first: the process that has the group's number for
its pid.  When that process is gone nobody gets the signal, and when it has moved to
another group nobody but itself.
-/

namespace JkxyKernel
namespace Task

open Kernel

/-- `ESRCH` -/
def ESRCH : Int := 3

namespace Kernel

/-! ### What the code selects -/

/-- The tasks that `kill` sends to. -/
def killed (k : Kernel) (pid : Int) : List TaskId :=
  if pid < 1 then k.killTargets pid else (k.getTaskFromPid pid.toNat).toList

/-- What `kill` returns for a signal that exists. -/
def killReturns (k : Kernel) (pid : Int) : Int :=
  if pid < 1 then (if k.killTargets pid = [] then -ESRCH else 0)
  else
    match k.getTaskFromPid pid.toNat with
    | none => -ESRCH
    | some _ => 0

/-- Is the task a child of the running one? -/
def isChild (k : Kernel) (t : TaskId) : Bool :=
  (k.task t).ppid = k.cur.pid

/-- The children that `waitpid` waits for. -/
def awaited (k : Kernel) (pid : Int) : List TaskId :=
  if pid < 1 then k.children (k.waitPgid pid)
  else ((k.getTaskFromPid pid.toNat).toList).filter k.isChild

/-- The tasks that `send_sig_info_pg` sends to. -/
def pgTargets (k : Kernel) (pgid : Nat) : List TaskId :=
  match k.getTaskFromPid pgid with
  | none => []
  | some leader =>
      if (k.task leader).pgid ≠ pgid % 2 ^ 16 then [leader]
      else k.tasks.filter fun t => (k.task t).pgid = pgid % 2 ^ 16

/-! ### What the argument says -/

/-- Does a pid argument name this task? -/
def names (k : Kernel) (pid : Int) (t : TaskId) : Bool :=
  if 0 < pid then ((k.task t).pid : Int) = pid
  else if pid = -1 then 1 < (k.task t).pid
  else if pid = 0 then (k.task t).pgid = k.cur.pgid
  else ((k.task t).pgid : Int) = -pid

/-- The members of a process group. -/
def members (k : Kernel) (pgid : Nat) : List TaskId :=
  k.tasks.filter fun t => (k.task t).pgid = pgid

end Kernel

/-- A kernel whose listed tasks have pids in range, each its own. -/
structure ListedKernel extends Kernel where
  range : ∀ t ∈ tasks, InRange (task t).pid
  distinct : (tasks.map fun t => (task t).pid).Nodup

/-- Every kernel with a history is one. -/
def PidHistory.listed {k : Kernel} {history : List Nat} (h : PidHistory k history) :
    ListedKernel :=
  { k with range := h.inv.range, distinct := h.inv.distinct }

/-! ### The selections are what the calls act on -/

section Calls

variable {k k' : Kernel}

theorem sendSigInfoAll_singleton (info : Siginfo) (t : TaskId) :
    k.sendSigInfoAll info [t] = k.sendSigInfo t info := by
  simp only [Kernel.sendSigInfoAll]
  cases k.sendSigInfo t info <;> rfl

theorem kill_eq (pid : Int) (signum : Nat) :
    k.kill pid signum =
      if nsig < signum ∨ signum = 0 then .ok k
      else k.sendSigInfoAll
        { signo := signum, code := .siUser, pid := k.cur.pid, status := 0 } (k.killed pid) := by
  simp only [Kernel.kill, Kernel.killed]
  by_cases hsig : nsig < signum
  · simp [hsig]
  · by_cases hzero : signum = 0
    · simp only [hzero, if_true, or_true]
      split
      next => rfl
      next =>
        split
        next => rfl
        next => cases k.getTaskFromPid pid.toNat <;> rfl
    · simp only [hsig, hzero, if_false, or_false]
      split
      next => rfl
      next =>
        cases k.getTaskFromPid pid.toNat with
        | none => rfl
        | some t => exact (sendSigInfoAll_singleton _ t).symm

theorem killReturns_eq (pid : Int) :
    k.killReturns pid = if k.killed pid = [] then -ESRCH else 0 := by
  simp only [Kernel.killReturns, Kernel.killed]
  split
  next => rfl
  next => cases k.getTaskFromPid pid.toNat <;> rfl

theorem sendSigInfoPg_eq (pgid : Nat) (info : Siginfo) :
    k.sendSigInfoPg pgid info = k.sendSigInfoAll info (k.pgTargets pgid) := by
  simp only [Kernel.sendSigInfoPg, Kernel.pgTargets]
  cases k.getTaskFromPid pgid with
  | none => rfl
  | some leader =>
      simp only
      split
      next => exact (sendSigInfoAll_singleton info leader).symm
      next => rfl

/-- `waitpid` returns, reaps a child it waits for, or goes to sleep for one. -/
theorem doSysWaitpid_cases {pid : Int} {wnohang : Bool}
    (h : k.doSysWaitpid pid wnohang = .ok k') :
    k' = k.leave ∨
      ∃ t ∈ k.awaited pid, k' = (k.doWaitTask t (k.task t).pid).leave ∨
        k.waitSleep (fun oldaction => .doWait t oldaction .sched) = .ok k' ∨
        k.waitSleep (fun oldaction => .doWaitpg (k.waitPgid pid) oldaction .sched) = .ok k' := by
  simp only [Kernel.doSysWaitpid] at h
  simp only [Kernel.awaited]
  split at h
  next hneg =>
    simp only [hneg, if_true]
    simp only [Kernel.doWaitpg] at h
    split at h
    next t hfind =>
      cases h
      exact .inr ⟨t, List.mem_of_find?_eq_some hfind, .inl rfl⟩
    next =>
      split at h
      next =>
        cases h
        exact .inl rfl
      next hsome =>
        obtain ⟨t, ht⟩ := List.exists_mem_of_ne_nil _ hsome
        split at h
        next =>
          cases h
          exact .inl rfl
        next => exact .inr ⟨t, ht, .inr (.inr h)⟩
  next hpos =>
    simp only [hpos, if_false]
    split at h
    next =>
      cases h
      exact .inl rfl
    next t hget =>
      have hmem : k.isChild t = true → t ∈ (k.getTaskFromPid pid.toNat).toList.filter k.isChild :=
        fun hchild => by simp [hget, hchild]
      split at h
      next =>
        cases h
        exact .inl rfl
      next =>
        simp only [Kernel.doWait] at h
        split at h
        next => cases h
        next =>
          split at h
          next =>
            cases h
            exact .inl rfl
          next hppid =>
            have hchild : k.isChild t = true := by
              simpa [Kernel.isChild] using not_not.mp hppid
            split at h
            next =>
              cases h
              exact .inr ⟨t, hmem hchild, .inl rfl⟩
            next => exact .inr ⟨t, hmem hchild, .inr (.inl h)⟩

end Calls

/-! ### Lookups -/

section Lookups

variable {k : ListedKernel} {pid : Nat}

theorem filter_eq_filter_iff {α : Type} {l : List α} {p q : α → Bool} :
    l.filter p = l.filter q ↔ ∀ x ∈ l, (p x = true ↔ q x = true) := by
  constructor
  · intro h x hx
    have := congrArg (x ∈ ·) h
    simpa [hx] using this
  · intro h
    exact List.filter_congr fun x hx => Bool.eq_iff_iff.mpr (h x hx)

end Lookups

/-! ### Arguments -/

namespace Kernel

/-- The process group that an argument means which is neither a pid nor `-1`. -/
def groupOf (k : Kernel) (pid : Int) : Nat :=
  if pid = 0 then k.cur.pgid else (-pid).toNat

/-- The number of a group says which tasks are meant: it is that of a group and fits 16
bits.  Another one does no harm only when the tasks happen to be grouped accordingly. -/
def GroupTold (k : Kernel) (pgid : Nat) : Prop :=
  if pgid = 0 then
    ∀ t ∈ k.tasks, 1 < (k.task t).pid ∨ k.isChild t → (k.task t).pgid = 0
  else if pgid < 2 ^ 16 then True
  else if pgid % 2 ^ 16 = 0 then
    ∀ t ∈ k.tasks, (k.task t).pgid ≠ 0 ∧ ((k.task t).pgid = pgid ↔ 1 < (k.task t).pid) ∧
      (k.isChild t → (k.task t).pgid = pgid)
  else ∀ t ∈ k.tasks, (k.task t).pgid ≠ pgid ∧ (k.task t).pgid ≠ pgid % 2 ^ 16

end Kernel

/-- What a pid argument should do. -/
structure ArgumentObeyed (k : ListedKernel) (pid : Int) : Prop where
  kill : k.killed pid = k.tasks.filter (k.names pid)
  returns : k.killReturns pid = if k.tasks.filter (k.names pid) = [] then -ESRCH else 0
  wait : k.awaited pid = k.tasks.filter fun t => k.isChild t && k.names pid t

section Arguments

variable {k : ListedKernel} {pid : Int}

/-- The return value follows the selection. -/
theorem argumentObeyed_iff :
    ArgumentObeyed k pid ↔ k.killed pid = k.tasks.filter (k.names pid) ∧
      k.awaited pid = k.tasks.filter fun t => k.isChild t && k.names pid t := by
  constructor
  · exact fun h => ⟨h.kill, h.wait⟩
  · rintro ⟨hkill, hwait⟩
    exact ⟨hkill, by rw [killReturns_eq, hkill], hwait⟩

/-- What the two calls do with a group, task by task. -/
theorem argumentObeyed_group (hneg : pid < 1) :
    ArgumentObeyed k pid ↔
      ∀ t ∈ k.tasks,
        ((k.waitPgid pid = 0 ∧ 1 < (k.task t).pid ∨ (k.task t).pgid = k.waitPgid pid) ↔
            k.names pid t) ∧
          (k.isChild t →
            ((k.waitPgid pid = 0 ∨ (k.task t).pgid = k.waitPgid pid) ↔ k.names pid t)) := by
  have hkilled : k.killed pid = k.tasks.filter fun t =>
      (k.waitPgid pid = 0 ∧ 1 < (k.task t).pid) ∨ (k.task t).pgid = k.waitPgid pid := by
    simp only [Kernel.killed, hneg, if_true]
    rfl
  have hawaited : k.awaited pid = k.tasks.filter fun t =>
      (k.task t).ppid = k.cur.pid ∧
        (k.waitPgid pid = 0 ∨ (k.task t).pgid = k.waitPgid pid) := by
    simp only [Kernel.awaited, hneg, if_true]
    rfl
  rw [argumentObeyed_iff, hkilled, hawaited, filter_eq_filter_iff, filter_eq_filter_iff,
    ← forall₂_and]
  refine forall₂_congr fun t _ => ?_
  simp only [decide_eq_true_eq, Bool.and_eq_true, Kernel.isChild, and_congr_right_iff]

theorem waitPgid_eq (hneg : pid < 1) (hne : pid ≠ -1) :
    k.waitPgid pid = k.groupOf pid % 2 ^ 16 := by
  simp only [Kernel.waitPgid, Kernel.groupOf, hne, if_false]
  by_cases hzero : pid = 0
  · simp [hzero]
  · rw [if_pos (by omega), if_neg hzero]
    omega

theorem names_eq (hneg : pid < 1) (hne : pid ≠ -1) (t : TaskId) :
    k.names pid t = decide ((k.task t).pgid = k.groupOf pid) := by
  have hpos : ¬ 0 < pid := by omega
  simp only [Kernel.names, Kernel.groupOf, hpos, hne, if_false]
  by_cases hzero : pid = 0
  · simp [hzero]
  · simp only [hzero, if_false, decide_eq_decide]
    omega

/-- A group is told by its number as long as that fits, and is not `0`. -/
theorem argumentObeyed_groupOf (hneg : pid < 1) (hne : pid ≠ -1) :
    ArgumentObeyed k pid ↔ k.GroupTold (k.groupOf pid) := by
  rw [argumentObeyed_group hneg]
  simp only [waitPgid_eq hneg hne, names_eq hneg hne, decide_eq_true_eq, Kernel.GroupTold]
  generalize k.groupOf pid = pgid
  by_cases hzero : pgid = 0
  · rw [if_pos hzero, hzero]
    refine forall₂_congr fun t _ => ?_
    simp only [Nat.zero_mod]
    grind
  · rw [if_neg hzero]
    by_cases hfits : pgid < 2 ^ 16
    · have hmod : pgid % 2 ^ 16 = pgid := Nat.mod_eq_of_lt hfits
      simp only [hfits, if_true, hmod, hzero, false_and, false_or, implies_true, and_self]
    · rw [if_neg hfits]
      by_cases hmod : pgid % 2 ^ 16 = 0
      · rw [if_pos hmod]
        refine forall₂_congr fun t _ => ?_
        rw [hmod]
        by_cases hgroup : (k.task t).pgid = pgid
        · have hnone : (k.task t).pgid ≠ 0 := by omega
          simp only [hgroup, hzero]
          grind
        · simp only [hgroup]
          grind
      · rw [if_neg hmod]
        refine forall₂_congr fun t _ => ?_
        have hother : pgid % 2 ^ 16 ≠ pgid := by omega
        by_cases hgroup : (k.task t).pgid = pgid
        · simp only [hgroup, hmod, Ne.symm hother]
          grind
        · simp only [hgroup, hmod]
          grind

end Arguments

/-- What sending a signal to a process group should do, in both ways. -/
structure GroupReached (k : ListedKernel) (pgid : Nat) : Prop where
  send : k.pgTargets pgid = k.members pgid
  kill : k.killed (-pgid) = k.members pgid

/-- The process with the group's number for its pid is in the group, or there is neither
that process nor a member. -/
def Kernel.Led (k : Kernel) (pgid : Nat) : Prop :=
  match k.getTaskFromPid pgid with
  | none => k.members pgid = []
  | some leader => (k.task leader).pgid = pgid

section Groups

variable {k : ListedKernel} {pgid : Nat}

/-- The terminal reaches a group that is led. -/
theorem pgTargets_eq_members_iff (hfits : pgid < 2 ^ 16) :
    k.pgTargets pgid = k.members pgid ↔ k.Led pgid := by
  simp only [Kernel.pgTargets, Kernel.Led, Nat.mod_eq_of_lt hfits]
  cases k.getTaskFromPid pgid with
  | none => exact eq_comm
  | some leader =>
      simp only
      by_cases hgroup : (k.task leader).pgid = pgid
      · simp only [hgroup, ne_eq, not_true, if_false, iff_true]
        rfl
      · simp only [hgroup, ne_eq, not_false_iff, if_true, iff_false]
        intro hmembers
        have hmem : leader ∈ k.members pgid := hmembers ▸ List.mem_singleton_self leader
        have := (List.mem_filter.mp hmem).2
        exact hgroup (by simpa using this)

/-- `kill` reaches any group but group `1`. -/
theorem killed_neg (hone : 1 < pgid) (hfits : pgid < 2 ^ 16) :
    k.killed (-pgid) = k.members pgid := by
  have hgroup : k.groupOf (-pgid) = pgid := by
    simp only [Kernel.groupOf]
    rw [if_neg (by omega)]
    omega
  have hneg : (-pgid : Int) < 1 := by omega
  have hne : (-pgid : Int) ≠ -1 := by omega
  have htold : k.GroupTold (k.groupOf (-pgid)) := by
    rw [hgroup, Kernel.GroupTold, if_neg (by omega), if_pos hfits]
    trivial
  have hkill := ((argumentObeyed_groupOf hneg hne).mpr htold).kill
  rw [hkill, Kernel.members]
  refine List.filter_congr fun t _ => ?_
  rw [names_eq hneg hne, hgroup]

/-- Group `1` is led by the first process, which `kill(-1, ..)` spares. -/
theorem groupReached_one : GroupReached k 1 ↔ k.tasks = [] := by
  constructor
  · intro h
    by_contra hne
    obtain ⟨t, ht⟩ := List.exists_mem_of_ne_nil _ hne
    have hled := (pgTargets_eq_members_iff (by decide)).mp h.send
    have hall : ∀ u ∈ k.tasks, (1 < (k.task u).pid ∨ (k.task u).pgid = 0) ↔
        (k.task u).pgid = 1 := by
      have hkill := h.kill
      have hkilled : k.killed (-(1 : Nat)) = k.tasks.filter fun u =>
          (0 = 0 ∧ 1 < (k.task u).pid) ∨ (k.task u).pgid = 0 := rfl
      rw [hkilled, Kernel.members, filter_eq_filter_iff] at hkill
      intro u hu
      simpa using hkill u hu
    have hpid := (k.range t ht).1
    simp only [Kernel.Led] at hled
    split at hled
    next hnone =>
      -- without the first process the first task of the list is in group 1
      have hnobody : ∀ u ∈ k.tasks, (k.task u).pgid ≠ 1 := by
        intro u hu hgroup
        have hmem : u ∈ k.members 1 := List.mem_filter.mpr ⟨hu, by simpa using hgroup⟩
        rw [hled] at hmem
        cases hmem
      have hfirst : (k.task t).pid = 1 := by
        have := (hall t ht).mp
        have := hnobody t ht
        omega
      have hfree := (@pidFree_iff k.toKernel 1 (by decide)).mp
        (by simp [Kernel.pidFree, hnone])
      exact hfree t ht hfirst
    next leader hsome =>
      have hmem := (getTaskFromPid_mem hsome).1
      have hleader : (k.task leader).pid = 1 := (getTaskFromPid_mem hsome).2
      have := (hall leader hmem).mpr hled
      omega
  · intro hnil
    have hmembers : k.members 1 = [] := by simp [Kernel.members, hnil]
    refine ⟨?_, ?_⟩
    · rw [hmembers]
      simp [Kernel.pgTargets, Kernel.getTaskFromPid, hnil]
    · rw [hmembers]
      simp [Kernel.killed, Kernel.killTargets, hnil]

/-- **Process groups.**  The terminal and `kill` reach the members of a group exactly when
the group is led, and is not group `1`. -/
theorem groupReached_iff (hpos : 0 < pgid) (hfits : pgid < 2 ^ 16) :
    GroupReached k pgid ↔ pgid ≠ 1 ∧ k.Led pgid ∨ k.tasks = [] := by
  by_cases hone : pgid = 1
  · subst hone
    rw [groupReached_one]
    simp
  · have hled : k.tasks = [] → k.Led pgid := by
      intro hnil
      simp [Kernel.Led, Kernel.getTaskFromPid, Kernel.members, hnil]
    constructor
    · exact fun h => .inl ⟨hone, (pgTargets_eq_members_iff hfits).mp h.send⟩
    · intro h
      have hl : k.Led pgid := h.elim And.right hled
      exact ⟨(pgTargets_eq_members_iff hfits).mpr hl, killed_neg (by omega) hfits⟩

end Groups

/-- A process makes a group of its own, creates a child in it and exits; the first
process, which has begun a session, reaps it. -/
def leaderlessRun : List Label :=
  userRun ++ [.call .setsid, .go false, .go false, .call (.clone 0), .irqPit, .go false,
    .go false,
    -- the leader
    .go false, .go false, .go false, .call (.setpgid 0 0), .go false, .go false,
    .call (.clone 0), .go false, .go false, .call (.exit 0), .go false, .go false, .go false,
    .go false, .go false, .go false,
    -- the first process
    .call (.waitpid 2 false)]

/-- Nobody gets a signal that the terminal sends to the group that is left behind. -/
theorem leaderless_group :
    ∃ (k : ListedKernel) (history : List Nat), PidHistory k.toKernel history ∧
      k.members 2 = [3] ∧ k.killed (-2) = [3] ∧ k.pgTargets 2 = [] := by
  have hrun : (machine.runLabels leaderlessRun boot).any (fun k =>
      k.members 2 = [3] ∧ k.killed (-2) = [3] ∧ k.pgTargets 2 = []) = true := by
    decide +kernel
  obtain ⟨k, hreach, hk⟩ := Machine.exists_reach_of_run (show Init boot from rfl) hrun
  obtain ⟨history, hhistory⟩ := exists_pidHistory hreach
  simp only [decide_eq_true_eq] at hk
  exact ⟨hhistory.listed, history, hhistory, hk⟩

/-- The theorem at this group. -/
theorem groupReached_iff_leaderless :
    ∃ (k : ListedKernel) (history : List Nat), PidHistory k.toKernel history ∧
      k.members 2 = [3] ∧ (GroupReached k 2 ↔ 2 ≠ 1 ∧ k.Led 2 ∨ k.tasks = []) := by
  obtain ⟨k, history, hhistory, hmembers, -, -⟩ := leaderless_group
  exact ⟨k, history, hhistory, hmembers, groupReached_iff (by decide) (by decide)⟩

/-- The two ways of sending do not agree on every group. -/
theorem not_groupReached :
    ¬ ∀ (k : ListedKernel) (pgid : Nat), 0 < pgid → pgid < 2 ^ 16 → GroupReached k pgid := by
  intro h
  obtain ⟨k, history, -, hmembers, -, htargets⟩ := leaderless_group
  have hsend := (h k 2 (by decide) (by decide)).send
  rw [hmembers, htargets] at hsend
  cases hsend

end Task
end JkxyKernel
