import JkxyKernel.Locking.Exclusion

/-!
# The hand-over

The front of a mutex queue should hold the mutex or be able to run: otherwise nobody will
ever take the mutex.  `mutex_unlock` sees to it by waking the next in the queue.

A waiter that leaves from the front with `-EINTR` does not.  A signal that lands between
the hand-over and the moment the woken waiter looks is enough: the waiter gives up, and
the next one becomes the front asleep.  The other way to lose the hand-over is a
`wake_up_process` without memory for the node.  There is no third (`mutex_handOver`).
-/

namespace JkxyKernel
namespace Locking

open JkxyKernel.Task (TaskId TaskState)
open JkxyKernel.Sched (Cpu)

/-- The task runs, is queued to run, or has a wake-up recorded. -/
def AbleToRun (c : Cpu) (t : TaskId) : Prop :=
  t = c.current ∨ t ∈ c.scheduleQueue ∨ c.wakeupCurrent t = true

instance (c : Cpu) (t : TaskId) : Decidable (AbleToRun c t) :=
  inferInstanceAs (Decidable (_ ∨ _ ∨ _))

/-- The front of the queue holds the mutex or is able to run. -/
def HandedOver (s : State) (m : MutexId) : Prop :=
  ∀ t, (s.mutex m).queue.head? = some t → (s.mutex m).holds t = true ∨ AbleToRun s.cpu t

/-- Whoever leaves the front of a queue leaves behind a task that is able to run, or is
`mutex_unlock` with memory for a wake-up. -/
def PassesOn (s : State) : Label → Prop
  | .unlock m mem => ∀ u rest, (s.mutex m).queue = s.cpu.current :: u :: rest →
      mem = true ∨ AbleToRun s.cpu u
  | .go _ => ∀ m kind, s.pc s.cpu.current = .lock m kind .giveUp →
      ∀ u rest, (s.mutex m).queue = s.cpu.current :: u :: rest → AbleToRun s.cpu u
  | _ => True

/-- What the hand-over rests on: a task off the processor is back at the condition of its
loop, and whoever is about to sleep is not the front. -/
structure HandOverInv (s : State) : Prop where
  handed : ∀ m, HandedOver s m
  asleep : ∀ t m kind stage, s.pc t = .lock m kind stage → t ≠ s.cpu.current →
    stage = .check
  behind : ∀ t m kind, s.pc t = .lock m kind .sched → (s.mutex m).queue.head? ≠ some t

section Frames

variable {s s' : State} {c : Cpu} {m : MutexId} {t u : TaskId} {mem : Bool}

theorem AbleToRun.wakeUpProcess (h : AbleToRun c t) : AbleToRun (c.wakeUpProcess mem u) t := by
  rcases h with hcur | hqueue | hwakeup
  · exact .inl (by rw [Cpu.wakeUpProcess_current]; exact hcur)
  · exact .inr (.inl (Cpu.mem_wakeUpProcess.mpr (.inl hqueue)))
  · exact .inr (.inr (Cpu.wakeUpProcess_wakeup hwakeup))

theorem ableToRun_woken : AbleToRun (c.wakeUpProcess true t) t := by
  by_cases hcur : t = c.current
  · exact .inl (by rw [Cpu.wakeUpProcess_current]; exact hcur)
  · exact .inr (.inl (Cpu.mem_wakeUpProcess.mpr (.inr ⟨rfl, hcur, rfl⟩)))

theorem ableToRun_of_woken (h : AbleToRun (c.wakeUpProcess false u) t) (hne : t ≠ c.current) :
    AbleToRun c t := by
  rcases h with hcur | hqueue | hwakeup
  · rw [Cpu.wakeUpProcess_current] at hcur
    exact .inl hcur
  · rcases Cpu.mem_wakeUpProcess.mp hqueue with hqueue | ⟨-, -, hmem⟩
    · exact .inr (.inl hqueue)
    · cases hmem
  · unfold Cpu.wakeUpProcess at hwakeup
    split at hwakeup
    next hu =>
      rw [hu] at hwakeup
      exact .inr (.inr (by simpa [hne] using hwakeup))
    next =>
      split at hwakeup <;> exact .inr (.inr hwakeup)

/-- Only the running task can fall asleep. -/
theorem AbleToRun.schedule (h : AbleToRun c t) (hne : t ≠ c.current) :
    AbleToRun (c.schedule mem) t := by
  rcases h with hcur | hqueue | hwakeup
  · exact absurd hcur hne
  · have hkept : t ∈ c.requeued mem := Cpu.mem_requeued.mpr (.inl hqueue)
    rcases Cpu.schedule_keeps hkept with hq | hcur
    · exact .inr (.inl hq)
    · exact .inl hcur.symm
  · exact .inr (.inr (by rw [Cpu.schedule_wakeup hne]; exact hwakeup))

theorem HandOverInv.waiting
    (h : HandOverInv s) {kind : Kind} {stage : Stage}
    (hpc : s.pc t = .lock m kind stage) (hstage : stage ≠ .check) : t = s.cpu.current := by
  by_contra hne
  exact hstage (h.asleep t m kind stage hpc hne)

/-- A step that moves no program counter, touches no mutex, and does not switch. -/
theorem HandOverInv.still
    (h : HandOverInv s) (hmutex : s'.mutex = s.mutex) (hpc : s'.pc = s.pc)
    (hcur : s'.cpu.current = s.cpu.current)
    (hable : ∀ t, AbleToRun s.cpu t → AbleToRun s'.cpu t) : HandOverInv s' := by
  constructor
  · intro m t ht
    rw [hmutex] at ht ⊢
    rcases h.handed m t ht with hholds | hrun
    · exact .inl hholds
    · exact .inr (hable t hrun)
  · rw [hpc, hcur]
    exact h.asleep
  · rw [hpc, hmutex]
    exact h.behind

/-- The running task moves on; a mutex may change, as long as it is handed over. -/
theorem HandOverInv.change
    (h : HandOverInv s) {pc : Pc} {f : Mutex → Mutex}
    (hsched : ∀ m' kind, pc ≠ .lock m' kind .sched)
    (hhanded : ∀ t, (f (s.mutex m)).queue.head? = some t →
      (f (s.mutex m)).holds t = true ∨ AbleToRun s.cpu t) :
    HandOverInv ((s.modMutex m f).setPc pc) := by
  constructor
  · intro m' t ht
    rw [setPc_mutex] at ht ⊢
    by_cases hm : m' = m
    · subst hm
      rw [modMutex_same] at ht ⊢
      exact hhanded t ht
    · rw [modMutex_other hm] at ht ⊢
      exact h.handed m' t ht
  · intro t m' kind stage ht hne
    have hother : t ≠ s.cpu.current := hne
    rw [modMutex_setPc_other hother] at ht
    exact h.asleep t m' kind stage ht hother
  · intro t m' kind ht
    by_cases hcur : t = s.cpu.current
    · subst hcur
      rw [modMutex_setPc_current] at ht
      exact absurd ht (hsched m' kind)
    · rw [modMutex_setPc_other hcur] at ht
      exact absurd (h.waiting ht (by simp)) hcur

/-- The running task moves on inside a lock function. -/
theorem HandOverInv.move
    (h : HandOverInv s) {pc : Pc}
    (hsched : ∀ m kind, pc = .lock m kind .sched →
      (s.mutex m).queue.head? ≠ some s.cpu.current) : HandOverInv (s.setPc pc) := by
  constructor
  · exact h.handed
  · intro t m kind stage ht hne
    have hother : t ≠ s.cpu.current := hne
    rw [setPc_other hother] at ht
    exact h.asleep t m kind stage ht hother
  · intro t m kind ht
    by_cases hcur : t = s.cpu.current
    · subst hcur
      rw [setPc_current] at ht
      exact hsched m kind ht
    · rw [setPc_other hcur] at ht
      exact absurd (h.waiting ht (by simp)) hcur

/-- A switch from a task that is at the front of no queue, or holds the mutex. -/
theorem HandOverInv.schedule
    (h : HandOverInv s)
    (hstage : ∀ m kind stage, s.pc s.cpu.current = .lock m kind stage → stage = .check)
    (hfront : ∀ m, (s.mutex m).queue.head? = some s.cpu.current →
      (s.mutex m).holds s.cpu.current = true) : HandOverInv (s.schedule mem) := by
  have hcheck : ∀ t m kind stage, s.pc t = .lock m kind stage → stage = .check := by
    intro t m kind stage ht
    by_cases hcur : t = s.cpu.current
    · subst hcur
      exact hstage m kind stage ht
    · exact h.asleep t m kind stage ht hcur
  constructor
  · intro m t ht
    by_cases hcur : t = s.cpu.current
    · subst hcur
      exact .inl (hfront m ht)
    · rcases h.handed m t ht with hholds | hrun
      · exact .inl hholds
      · exact .inr (hrun.schedule hcur)
  · intro t m kind stage ht _
    exact hcheck t m kind stage ht
  · intro t m kind ht
    cases hcheck t m kind _ ht

end Frames

section Steps

variable {s s' : State} {m : MutexId} {t : TaskId} {kind : Kind} {mem : Bool} {l : Label}

theorem HandOverInv.mutexLock
    (h : HandOverInv s) (hex : s.mutexLock kind m mem = .ok s') : HandOverInv s' := by
  obtain ⟨-, rfl | rfl⟩ := mutexLock_cases hex
  · exact h
  · refine h.change (fun _ _ => by simp) fun t ht => ?_
    cases hq : (s.mutex m).queue with
    | nil =>
        have hcur : s.cpu.current = t := by simpa [Mutex.queued, hq] using ht
        exact .inr (.inl hcur.symm)
    | cons u queue => exact h.handed m t (by simpa [Mutex.queued, hq] using ht)

/-- The front that `mutex_unlock` leaves behind is woken, or needs no waking. -/
theorem HandOverInv.mutexUnlock
    (h : HandOverInv s) (hpc : s.pc s.cpu.current = .body)
    (hok : PassesOn s (.unlock m mem)) (hex : s.mutexUnlock m mem = .ok s') :
    HandOverInv s' := by
  have hself : ∀ x : State, x.pc x.cpu.current = .body → x.setPc .body = x := by
    intro x hx
    simp only [State.setPc, ← hx, Function.update_eq_self]
  obtain ⟨queue, hq, ⟨rfl, rfl⟩ | ⟨u, rest, rfl, rfl⟩⟩ := mutexUnlock_cases hex
  · rw [← hself (s.modMutex m _) hpc]
    refine h.change (fun _ _ => by simp) fun t ht => ?_
    simp [Mutex.release] at ht
  · have hwoken : HandOverInv (s.wakeUpProcess mem u) :=
      h.still rfl rfl Cpu.wakeUpProcess_current fun _ hrun => hrun.wakeUpProcess
    have hchange : HandOverInv (((s.wakeUpProcess mem u).modMutex m fun x =>
        x.release s.cpu.current (u :: rest)).setPc .body) :=
      hwoken.change (fun _ _ => by simp) fun t ht => by
        have hu : u = t := by simpa [Mutex.release] using ht
        subst hu
        rcases hok u rest hq with rfl | hrun
        · exact .inr ableToRun_woken
        · exact .inr hrun.wakeUpProcess
    rw [hself] at hchange
    · exact hchange
    · simpa using hpc

theorem HandOverInv.lockStep
    (h : HandOverInv s) (hinv : ∀ m, MutexInv s m) {stage : Stage}
    (hpc : s.pc s.cpu.current = .lock m kind stage) (hok : PassesOn s (.go mem)) :
    HandOverInv (s.lockStep m kind mem stage) := by
  cases stage with
  | entered =>
      have hstate : HandOverInv (s.setState kind.sleepState) :=
        h.still rfl rfl rfl fun _ hrun => hrun
      exact hstate.move fun _ _ heq => by simp at heq
  | check =>
      simp only [State.lockStep]
      split
      next hstay =>
        refine h.move fun m' kind' heq => ?_
        cases heq
        exact hstay.1
      next => exact h.move fun _ _ heq => by simp at heq
  | sched =>
      have hmove : HandOverInv (s.setPc (.lock m kind .check)) :=
        h.move fun _ _ heq => by simp at heq
      refine hmove.schedule (fun m' kind' stage' heq => ?_) fun m' hfront => ?_
      · rw [setPc_cpu, setPc_current] at heq
        cases heq
        rfl
      · -- the caller is in one queue only, and not at its front
        have hmem : s.cpu.current ∈ (s.mutex m').queue := List.mem_of_mem_head? hfront
        rcases ((hinv m').exclusive.mem_queue _).mp hmem with hholds | ⟨kind', stage', hwaits⟩
        · exact hholds
        · rw [hpc] at hwaits
          cases hwaits
          exact absurd hfront (h.behind _ _ _ hpc)
  | out =>
      have hstate : HandOverInv (s.setState .running) := h.still rfl rfl rfl fun _ hrun => hrun
      exact hstate.move fun _ _ heq => by simp at heq
  | test =>
      simp only [State.lockStep]
      split
      next => exact h.move fun _ _ heq => by simp at heq
      next =>
        refine h.change (fun _ _ => by simp) fun t ht => ?_
        rcases h.handed m t ht with hholds | hrun
        · refine .inl ?_
          by_cases hcur : t = s.cpu.current
          · simp [Mutex.acquire, hcur]
          · simpa [Mutex.acquire, hcur] using hholds
        · exact .inr hrun
  | giveUp =>
      refine h.change (fun _ _ => by simp) fun t ht => ?_
      have hnodup := (hinv m).exclusive.nodup
      cases hq : (s.mutex m).queue with
      | nil => simp [Mutex.giveUp, hq] at ht
      | cons v rest =>
          by_cases hv : v = s.cpu.current
          · subst hv
            rw [hq] at hnodup
            have hout : s.cpu.current ∉ rest := (List.nodup_cons.mp hnodup).1
            have hrest : rest.filter (· ≠ s.cpu.current) = rest := by
              refine List.filter_eq_self.mpr fun u hu => ?_
              have hne : u ≠ s.cpu.current := by
                rintro rfl
                exact hout hu
              simpa using hne
            cases rest with
            | nil => simp [Mutex.giveUp, hq] at ht
            | cons u rest =>
                have hu : u = t := by
                  have hhead : ((u :: rest).filter (· ≠ s.cpu.current)).head? = some t := by
                    simpa [Mutex.giveUp, hq] using ht
                  rw [hrest] at hhead
                  simpa using hhead
                subst hu
                exact .inr (hok m kind hpc u rest hq)
          · exact h.handed m t (by simpa [Mutex.giveUp, hq, hv] using ht)

/-- Every step that passes the mutex on keeps the invariant. -/
theorem HandOverInv.step
    (h : HandOverInv s) (hinv : ∀ m, MutexInv s m) (hok : PassesOn s l)
    (hs : machine.Step s l s') : HandOverInv s' := by
  obtain ⟨hen, hex⟩ := hs
  cases l with
  | lockInterruptable m mem => exact h.mutexLock hex
  | lockUninterruptable m mem => exact h.mutexLock hex
  | unlock m mem => exact h.mutexUnlock (by simpa [machine, Label.inBody] using hen) hok hex
  | go mem =>
      simp only [machine] at hex
      split at hex
      next =>
        cases hex
        exact h
      next m kind stage hpc =>
        cases hex
        exact h.lockStep hinv hpc hok
  | schedule mem =>
      have hpc : s.pc s.cpu.current = .body := by simpa [machine, Label.inBody] using hen
      cases hex
      refine h.schedule (fun m kind stage heq => ?_) fun m hfront => ?_
      · rw [hpc] at heq
        cases heq
      · have hmem : s.cpu.current ∈ (s.mutex m).queue := List.mem_of_mem_head? hfront
        rcases ((hinv m).exclusive.mem_queue _).mp hmem with hholds | hwaits
        · exact hholds
        · exact absurd hwaits (not_waits_body hpc)
  | setState state =>
      cases hex
      exact h.still rfl rfl rfl fun _ hrun => hrun
  | setPending pending =>
      cases hex
      exact h.still rfl rfl rfl fun _ hrun => hrun
  | sendSig t mem =>
      cases hex
      refine h.still sendSig_mutex sendSig_pc ?_ fun u hrun => ?_
      · simp only [State.sendSig]
        split
        · exact Cpu.wakeUpProcess_current
        · rfl
      · simp only [State.sendSig]
        split
        · exact hrun.wakeUpProcess
        · exact hrun
  | wakeUpProcess t mem =>
      cases hex
      exact h.still rfl rfl Cpu.wakeUpProcess_current fun _ hrun => hrun.wakeUpProcess
  | setStopped t stopped =>
      cases hex
      exact h.still rfl rfl rfl fun _ hrun => hrun

theorem HandOverInv.start (h : Init s) : HandOverInv s := by
  constructor
  · intro m t ht
    simp [h.1 m, Mutex.init] at ht
  · intro t m kind stage ht
    rw [h.2 t] at ht
    cases ht
  · intro t m kind ht
    rw [h.2 t] at ht
    cases ht

theorem HandOverInv.reach (h : machine.Reach Init PassesOn s) : HandOverInv s := by
  have hboth : (∀ m, MutexInv s m) ∧ HandOverInv s := by
    refine h.invariant (P := fun s => (∀ m, MutexInv s m) ∧ HandOverInv s) ?_ ?_
    · exact fun _ h₀ => ⟨fun _ => .start h₀, .start h₀⟩
    · exact fun _ _ _ h₁ hok hs => ⟨fun m => (h₁.1 m).step hs, h₁.2.step h₁.1 hok hs⟩
  exact hboth.2

/-- A step that does not pass the mutex on loses the hand-over. -/
theorem lost_of_not_passesOn
    (hinv : ∀ m, MutexInv s m) (hno : ¬ PassesOn s l) (hs : machine.Step s l s') :
    ∃ m, ¬ HandedOver s' m := by
  have hrival : ∀ m u rest, (s.mutex m).queue = s.cpu.current :: u :: rest →
      u ≠ s.cpu.current ∧ (s.mutex m).holds u ≠ true := by
    intro m u rest hq
    have hnodup := (hinv m).exclusive.nodup
    rw [hq] at hnodup
    have hne : u ≠ s.cpu.current := by
      rintro rfl
      simp at hnodup
    refine ⟨hne, fun hholds => ?_⟩
    have hfront := (hinv m).exclusive.front u hholds
    rw [hq] at hfront
    exact hne (by simpa using hfront.symm)
  obtain ⟨-, hex⟩ := hs
  cases l with
  | unlock m mem =>
      simp only [PassesOn, not_forall, not_or, Bool.not_eq_true] at hno
      obtain ⟨u, rest, hq, rfl, hunable⟩ := hno
      obtain ⟨hne, hidle⟩ := hrival m u rest hq
      refine ⟨m, fun hhanded => ?_⟩
      obtain ⟨queue, hq', ⟨rfl, -⟩ | ⟨v, rest', rfl, rfl⟩⟩ := mutexUnlock_cases hex
      · rw [hq] at hq'
        cases hq'
      · rw [hq] at hq'
        cases hq'
        rcases hhanded u (by simp [Mutex.release]) with hholds | hrun
        · exact hidle (by simpa [Mutex.release, hne] using hholds)
        · exact hunable (ableToRun_of_woken hrun hne)
  | go mem =>
      simp only [PassesOn, not_forall] at hno
      obtain ⟨m, kind, hpc, u, rest, hq, hunable⟩ := hno
      obtain ⟨hne, hidle⟩ := hrival m u rest hq
      have hs' : s' = (s.modMutex m fun x => x.giveUp s.cpu.current).setPc .body := by
        simp only [machine, hpc, State.lockStep] at hex
        cases hex
        rfl
      subst hs'
      refine ⟨m, fun hhanded => ?_⟩
      rcases hhanded u (by simp [Mutex.giveUp, hq, hne]) with hholds | hrun
      · exact hidle (by simpa [Mutex.giveUp] using hholds)
      · exact hunable hrun
  | _ => exact absurd trivial hno

end Steps

/-- **The hand-over.**  While every task that leaves the front of a queue passes the mutex
on, the front of every queue holds its mutex or is able to run; the first one that does
not leaves a front that neither holds nor is able to run. -/
theorem mutex_handOver (s : State) :
    (machine.Reach Init PassesOn s → ∀ m, HandedOver s m) ∧
    ∀ l s', machine.Reach Init (fun _ _ => True) s → ¬ PassesOn s l → machine.Step s l s' →
      ∃ m, ¬ HandedOver s' m := by
  constructor
  · intro h
    exact (HandOverInv.reach h).handed
  · intro l s' h hno hs
    exact lost_of_not_passesOn (fun _ => MutexInv.reach h) hno hs

/-- Task 1 holds the mutex, tasks 3 and 2 sleep behind it.  Task 1 unlocks, which wakes
task 3, a signal for task 3 follows, and task 3 gives up. -/
def interruptedRun : List Label :=
  [.wakeUpProcess 1 true, .schedule true, .lockInterruptable 0 true] ++
    List.replicate 4 (.go true) ++
    [.wakeUpProcess 3 true, .schedule true, .lockInterruptable 0 true] ++
    List.replicate 3 (.go true) ++
    [.wakeUpProcess 2 true, .schedule true, .lockUninterruptable 0 true] ++
    List.replicate 3 (.go true) ++
    [.unlock 0 true, .sendSig 3 true, .schedule true] ++ List.replicate 4 (.go true)

/-- The mutex is free, task 2 is at the front, and nothing will wake it. -/
theorem handOver_lost :
    ∃ s, machine.Reach Init (fun _ _ => True) s ∧ ¬ HandedOver s 0 := by
  have hrun : (machine.runLabels interruptedRun boot).any (fun s =>
      (s.mutex 0).queue = [2] ∧ (s.mutex 0).holds 2 = false ∧ ¬ AbleToRun s.cpu 2) = true := by
    decide +kernel
  obtain ⟨s, hreach, hs⟩ := Machine.exists_reach_of_run
    (show Init boot from ⟨fun _ => rfl, fun _ => rfl⟩) hrun
  simp only [decide_eq_true_eq] at hs
  obtain ⟨hq, hidle, hunable⟩ := hs
  refine ⟨s, hreach, fun hhanded => ?_⟩
  rcases hhanded 2 (by simp [hq]) with hholds | hrun
  · simp [hidle] at hholds
  · exact hunable hrun

end Locking
end JkxyKernel
