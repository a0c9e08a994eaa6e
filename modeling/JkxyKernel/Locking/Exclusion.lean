import JkxyKernel.Locking.Defs

/-!
# Exclusion and order

The queue of a mutex consists of the task that holds it and the tasks inside the lock
functions, and the holder stands at the front (`Exclusive`).  A waiter behind its loop
either is at the front, or has a signal pending that will make it give up: other code can
make a signal pending, only the task itself can take it.

Tasks queue at the back, so the queue is sorted by tickets (`InOrder`); a ticket that
gets the mutex is below every ticket still waiting.
-/

namespace JkxyKernel
namespace Locking

open JkxyKernel.Task (TaskId TaskState)
open JkxyKernel.Sched (Cpu)

/-- The task is inside one of the lock functions. -/
def State.Waits (s : State) (m : MutexId) (t : TaskId) : Prop :=
  ∃ kind stage, s.pc t = .lock m kind stage

/-- Whoever is behind the loop has the mutex, or a reason to give up. -/
def State.Ready (s : State) (m : MutexId) : Prop :=
  ∀ t kind stage, s.pc t = .lock m kind stage → stage = .out ∨ stage = .test →
    (s.mutex m).queue.head? = some t ∨ kind.cutShort (s.pending t) = true

/-- The queue is made of the holder, in front, and the tasks inside the lock functions. -/
structure Exclusive (s : State) (m : MutexId) : Prop where
  nodup : (s.mutex m).queue.Nodup
  mem_queue : ∀ t, t ∈ (s.mutex m).queue ↔ (s.mutex m).holds t = true ∨ s.Waits m t
  front : ∀ t, (s.mutex m).holds t = true → (s.mutex m).queue.head? = some t
  idle : ∀ t, (s.mutex m).holds t = true → ¬ s.Waits m t
  ready : s.Ready m

/-- Tickets are drawn, wait and get the mutex in increasing order. -/
structure InOrder (s : State) (m : MutexId) : Prop where
  increasing :
    (s.mutex m).queue.Pairwise fun t u => (s.mutex m).ticket t < (s.mutex m).ticket u
  drawn : ∀ t ∈ (s.mutex m).queue, (s.mutex m).ticket t < (s.mutex m).nextTicket
  descending : (s.mutex m).acquired.Pairwise (· > ·)
  issued : ∀ i ∈ (s.mutex m).acquired, i < (s.mutex m).nextTicket
  before : ∀ i ∈ (s.mutex m).acquired, ∀ t, s.Waits m t → i < (s.mutex m).ticket t
  accounted : ∀ i < (s.mutex m).nextTicket,
    i ∈ (s.mutex m).acquired ∨ i ∈ (s.mutex m).interrupted ∨
      ∃ t, s.Waits m t ∧ (s.mutex m).ticket t = i

/-- The invariant of a mutex. -/
structure MutexInv (s : State) (m : MutexId) : Prop where
  exclusive : Exclusive s m
  inOrder : InOrder s m

section Frames

variable {s s' : State} {m m' : MutexId} {t : TaskId} {kind : Kind} {stage stage' : Stage}

theorem not_waits_body (h : s.pc t = .body) : ¬ s.Waits m t := by
  rintro ⟨kind, stage, hpc⟩
  rw [h] at hpc
  cases hpc

theorem waits_setPc_lock :
    (s.setPc (.lock m' kind stage)).Waits m t ↔
      t = s.cpu.current ∧ m' = m ∨ t ≠ s.cpu.current ∧ s.Waits m t := by
  by_cases ht : t = s.cpu.current
  · subst ht
    simp [State.Waits, setPc_current]
  · simp [State.Waits, setPc_other ht, ht]

theorem waits_setPc_body :
    (s.setPc .body).Waits m t ↔ t ≠ s.cpu.current ∧ s.Waits m t := by
  by_cases ht : t = s.cpu.current
  · subst ht
    simp [State.Waits, setPc_current]
  · simp [State.Waits, setPc_other ht, ht]

theorem MutexInv.congr
    (h : MutexInv s m) (hmutex : s'.mutex m = s.mutex m)
    (hwaits : ∀ t, s'.Waits m t ↔ s.Waits m t) (hready : s'.Ready m) :
    MutexInv s' m := by
  obtain ⟨hex, hord⟩ := h
  constructor
  · constructor
    · rw [hmutex]
      exact hex.nodup
    · intro t
      rw [hmutex, hwaits]
      exact hex.mem_queue t
    · rw [hmutex]
      exact hex.front
    · intro t
      rw [hmutex, hwaits]
      exact hex.idle t
    · exact hready
  · constructor
    · rw [hmutex]
      exact hord.increasing
    · rw [hmutex]
      exact hord.drawn
    · rw [hmutex]
      exact hord.descending
    · rw [hmutex]
      exact hord.issued
    · intro i hi t ht
      rw [hmutex] at hi ⊢
      exact hord.before i hi t ((hwaits t).mp ht)
    · intro i hi
      simp only [hmutex, hwaits] at hi ⊢
      exact hord.accounted i hi

/-- A step that moves no program counter and touches no mutex. -/
theorem MutexInv.still
    (h : MutexInv s m) (hmutex : s'.mutex = s.mutex) (hpc : s'.pc = s.pc)
    (hpending : ∀ t, s.pc t ≠ .body → s.pending t = true → s'.pending t = true) :
    MutexInv s' m := by
  refine h.congr (by rw [hmutex]) (fun t => by simp only [State.Waits, hpc]) ?_
  intro t kind stage ht hstage
  rw [hpc] at ht
  rw [hmutex]
  rcases h.exclusive.ready t kind stage ht hstage with hfront | hcut
  · exact .inl hfront
  · rw [cutShort_eq_true] at hcut ⊢
    exact .inr ⟨hcut.1, hpending t (by simp [ht]) hcut.2⟩

/-- A step of the running task inside a lock function. -/
theorem MutexInv.move
    (h : MutexInv s m) (hpc : s.pc s.cpu.current = .lock m' kind stage)
    (hready : m' = m → stage' = .out ∨ stage' = .test →
      (s.mutex m).queue.head? = some s.cpu.current ∨
        kind.cutShort (s.pending s.cpu.current) = true) :
    MutexInv (s.setPc (.lock m' kind stage')) m := by
  refine h.congr rfl (fun t => ?_) fun t kind' stage'' ht hstage => ?_
  · rw [waits_setPc_lock]
    constructor
    · rintro (⟨rfl, rfl⟩ | ⟨-, hwaits⟩)
      · exact ⟨kind, stage, hpc⟩
      · exact hwaits
    · intro hwaits
      by_cases hcur : t = s.cpu.current
      · obtain ⟨kind', stage'', ht⟩ := hwaits
        rw [hcur, hpc] at ht
        cases ht
        exact .inl ⟨hcur, rfl⟩
      · exact .inr ⟨hcur, hwaits⟩
  · by_cases hcur : t = s.cpu.current
    · subst hcur
      rw [setPc_current] at ht
      cases ht
      exact hready rfl hstage
    · rw [setPc_other hcur] at ht
      exact h.exclusive.ready t kind' stage'' ht hstage

/-- The running task enters or leaves the queue of another mutex. -/
theorem MutexInv.elsewhere
    (h : MutexInv s m) {pc : Pc} {f : Mutex → Mutex} (hne : m ≠ m')
    (hold : ∀ kind stage, s.pc s.cpu.current ≠ .lock m kind stage)
    (hnew : ∀ kind stage, pc ≠ .lock m kind stage) :
    MutexInv ((s.modMutex m' f).setPc pc) m := by
  have hpcs : ∀ t kind stage, ((s.modMutex m' f).setPc pc).pc t = .lock m kind stage ↔
      s.pc t = .lock m kind stage := by
    intro t kind stage
    by_cases hcur : t = s.cpu.current
    · subst hcur
      rw [modMutex_setPc_current]
      exact ⟨fun heq => absurd heq (hnew kind stage), fun heq => absurd heq (hold kind stage)⟩
    · rw [modMutex_setPc_other hcur]
  refine h.congr (modMutex_other hne) (fun t => ?_) fun t kind stage ht hstage => ?_
  · simp only [State.Waits, hpcs]
  · rw [hpcs] at ht
    rw [show ((s.modMutex m' f).setPc pc).mutex m = s.mutex m from modMutex_other hne]
    exact h.exclusive.ready t kind stage ht hstage

end Frames

section Changes

variable {s : State} {m : MutexId} {kind : Kind} {stage : Stage}

/-- The running task queues. -/
theorem Exclusive.queued
    (h : Exclusive s m) (hnew : s.cpu.current ∉ (s.mutex m).queue) :
    Exclusive ((s.modMutex m fun x =>
      x.queued s.cpu.current ((s.mutex m).queue ++ [s.cpu.current])).setPc
        (.lock m kind .entered)) m := by
  have hhead : ∀ t, (s.mutex m).queue.head? = some t →
      ((s.mutex m).queue ++ [s.cpu.current]).head? = some t := by
    intro t ht
    rw [List.head?_append, ht]
    rfl
  constructor
  · simpa [Mutex.queued] using Cpu.nodup_snoc h.nodup hnew
  · intro t
    rw [waits_setPc_lock, setPc_mutex, modMutex_same]
    simp only [Mutex.queued, List.mem_append, List.mem_singleton, modMutex_cpu, and_true]
    by_cases hcur : t = s.cpu.current
    · simp [hcur]
    · simp only [hcur, or_false, false_or, ne_eq, not_false_eq_true, true_and]
      exact h.mem_queue t
  · intro t ht
    rw [setPc_mutex, modMutex_same] at ht ⊢
    exact hhead t (h.front t ht)
  · intro t ht hwaits
    rw [setPc_mutex, modMutex_same] at ht
    rw [waits_setPc_lock] at hwaits
    rcases hwaits with ⟨rfl, -⟩ | ⟨-, hwaits⟩
    · exact hnew ((h.mem_queue _).mpr (.inl ht))
    · exact h.idle t ht hwaits
  · intro t kind' stage' ht hstage
    by_cases hcur : t = s.cpu.current
    · subst hcur
      rw [modMutex_setPc_current] at ht
      cases ht
      simp at hstage
    · rw [modMutex_setPc_other hcur] at ht
      rw [setPc_mutex, modMutex_same]
      rcases h.ready t kind' stage' ht hstage with hfront | hcut
      · exact .inl (hhead t hfront)
      · exact .inr hcut

theorem InOrder.queued
    (h : InOrder s m) (hpc : s.pc s.cpu.current = .body)
    (hnew : s.cpu.current ∉ (s.mutex m).queue) :
    InOrder ((s.modMutex m fun x =>
      x.queued s.cpu.current ((s.mutex m).queue ++ [s.cpu.current])).setPc
        (.lock m kind .entered)) m := by
  have hticket : ∀ t, t ≠ s.cpu.current →
      Function.update (s.mutex m).ticket s.cpu.current (s.mutex m).nextTicket t =
        (s.mutex m).ticket t := fun t ht => by simp [ht]
  have hold : ∀ t ∈ (s.mutex m).queue, t ≠ s.cpu.current := by
    rintro t ht rfl
    exact hnew ht
  constructor
  all_goals simp only [setPc_mutex, modMutex_same, Mutex.queued]
  · refine List.pairwise_append.mpr ⟨?_, by simp, ?_⟩
    · refine h.increasing.imp_of_mem fun {t u} ht hu htu => ?_
      rw [hticket t (hold t ht), hticket u (hold u hu)]
      exact htu
    · intro t ht u hu
      rw [List.mem_singleton.mp hu, hticket t (hold t ht), Function.update_self]
      exact h.drawn t ht
  · intro t ht
    rcases List.mem_append.mp ht with ht | ht
    · rw [hticket t (hold t ht)]
      have := h.drawn t ht
      omega
    · rw [List.mem_singleton.mp ht, Function.update_self]
      omega
  · exact h.descending
  · intro i hi
    have := h.issued i hi
    omega
  · intro i hi t ht
    rw [waits_setPc_lock] at ht
    rcases ht with ⟨rfl, -⟩ | ⟨hne, hwaits⟩
    · rw [modMutex_cpu, Function.update_self]
      exact h.issued i hi
    · rw [hticket t hne]
      exact h.before i hi t hwaits
  · intro i hi
    by_cases hlast : i = (s.mutex m).nextTicket
    · refine .inr (.inr ⟨s.cpu.current, ?_, ?_⟩)
      · exact waits_setPc_lock.mpr (.inl ⟨rfl, rfl⟩)
      · rw [Function.update_self, hlast]
    · rcases h.accounted i (by omega) with hacq | hint | ⟨t, hwaits, ht⟩
      · exact .inl hacq
      · exact .inr (.inl hint)
      · have hne : t ≠ s.cpu.current := by
          rintro rfl
          exact not_waits_body hpc hwaits
        refine .inr (.inr ⟨t, waits_setPc_lock.mpr (.inr ⟨hne, hwaits⟩), ?_⟩)
        rw [hticket t hne]
        exact ht

/-- The running task returns from the lock function at the front of the queue. -/
theorem Exclusive.acquire
    (h : Exclusive s m) (hfront : (s.mutex m).queue.head? = some s.cpu.current) :
    Exclusive ((s.modMutex m fun x => x.acquire s.cpu.current).setPc .body) m := by
  constructor
  · rw [setPc_mutex, modMutex_same]
    exact h.nodup
  · intro t
    rw [waits_setPc_body, setPc_mutex, modMutex_same]
    simp only [Mutex.acquire, modMutex_cpu]
    by_cases hcur : t = s.cpu.current
    · subst hcur
      simpa using List.mem_of_mem_head? hfront
    · simp only [Function.update_of_ne hcur, ne_eq, hcur, not_false_eq_true, true_and]
      exact h.mem_queue t
  · intro t ht
    rw [setPc_mutex, modMutex_same] at ht ⊢
    by_cases hcur : t = s.cpu.current
    · rw [hcur]
      exact hfront
    · refine h.front t ?_
      simpa [Mutex.acquire, hcur] using ht
  · intro t ht hwaits
    rw [setPc_mutex, modMutex_same] at ht
    obtain ⟨hcur, hwaits⟩ := waits_setPc_body.mp hwaits
    refine h.idle t ?_ hwaits
    simpa [Mutex.acquire, show t ≠ s.cpu.current from hcur] using ht
  · intro t kind' stage' ht hstage
    have hcur : t ≠ s.cpu.current := by
      rintro rfl
      rw [modMutex_setPc_current] at ht
      cases ht
    rw [modMutex_setPc_other hcur] at ht
    rw [setPc_mutex, modMutex_same]
    exact h.ready t kind' stage' ht hstage

theorem InOrder.acquire
    (h : InOrder s m) (hex : Exclusive s m) (hpc : s.pc s.cpu.current = .lock m kind stage)
    (hfront : (s.mutex m).queue.head? = some s.cpu.current) :
    InOrder ((s.modMutex m fun x => x.acquire s.cpu.current).setPc .body) m := by
  have hwait : s.Waits m s.cpu.current := ⟨kind, stage, hpc⟩
  obtain ⟨queue, hq⟩ : ∃ queue, (s.mutex m).queue = s.cpu.current :: queue := by
    cases hcase : (s.mutex m).queue with
    | nil => simp [hcase] at hfront
    | cons t queue =>
        rw [hcase] at hfront
        exact ⟨queue, by simpa using hfront⟩
  constructor
  all_goals simp only [setPc_mutex, modMutex_same, Mutex.acquire]
  · exact h.increasing
  · exact h.drawn
  · exact List.pairwise_cons.mpr ⟨fun i hi => h.before i hi _ hwait, h.descending⟩
  · intro i hi
    rcases List.mem_cons.mp hi with rfl | hi
    · exact h.drawn _ (by simp [hq])
    · exact h.issued i hi
  · intro i hi t ht
    obtain ⟨hne, hwaits⟩ := waits_setPc_body.mp ht
    rcases List.mem_cons.mp hi with rfl | hi
    · have hmem := (hex.mem_queue t).mpr (.inr hwaits)
      have hsorted := h.increasing
      rw [hq] at hmem hsorted
      rcases List.mem_cons.mp hmem with heq | hmem
      · exact absurd heq hne
      · exact (List.pairwise_cons.mp hsorted).1 t hmem
    · exact h.before i hi t hwaits
  · intro i hi
    rcases h.accounted i hi with hacq | hint | ⟨t, hwaits, ht⟩
    · exact .inl (List.mem_cons_of_mem _ hacq)
    · exact .inr (.inl hint)
    · by_cases hcur : t = s.cpu.current
      · subst hcur
        exact .inl (ht ▸ List.mem_cons_self)
      · exact .inr (.inr ⟨t, waits_setPc_body.mpr ⟨hcur, hwaits⟩, ht⟩)

/-- Removing another task leaves the front alone. -/
theorem head_filter {queue : List TaskId} {t u : TaskId}
    (h : queue.head? = some u) (hne : u ≠ t) :
    (queue.filter (· ≠ t)).head? = some u := by
  cases queue with
  | nil => cases h
  | cons v rest =>
      have hv : v = u := by simpa using h
      subst hv
      simp [hne]

/-- The running task gives up. -/
theorem Exclusive.giveUp
    (h : Exclusive s m) (hpc : s.pc s.cpu.current = .lock m kind stage) :
    Exclusive ((s.modMutex m fun x => x.giveUp s.cpu.current).setPc .body) m := by
  have hidle : (s.mutex m).holds s.cpu.current ≠ true := fun hholds =>
    h.idle _ hholds ⟨kind, stage, hpc⟩
  constructor
  · rw [setPc_mutex, modMutex_same]
    exact h.nodup.filter _
  · intro t
    rw [waits_setPc_body, setPc_mutex, modMutex_same]
    simp only [Mutex.giveUp, modMutex_cpu, List.mem_filter, decide_eq_true_eq]
    constructor
    · rintro ⟨hmem, hne⟩
      rcases (h.mem_queue t).mp hmem with hholds | hwaits
      · exact .inl hholds
      · exact .inr ⟨hne, hwaits⟩
    · rintro (hholds | ⟨hne, hwaits⟩)
      · refine ⟨(h.mem_queue t).mpr (.inl hholds), ?_⟩
        rintro rfl
        exact hidle hholds
      · exact ⟨(h.mem_queue t).mpr (.inr hwaits), hne⟩
  · intro t ht
    rw [setPc_mutex, modMutex_same] at ht ⊢
    refine head_filter (h.front t ht) ?_
    rintro rfl
    exact hidle ht
  · intro t ht hwaits
    rw [setPc_mutex, modMutex_same] at ht
    exact h.idle t ht (waits_setPc_body.mp hwaits).2
  · intro t kind' stage' ht hstage
    have hcur : t ≠ s.cpu.current := by
      rintro rfl
      rw [modMutex_setPc_current] at ht
      cases ht
    rw [modMutex_setPc_other hcur] at ht
    rw [setPc_mutex, modMutex_same]
    rcases h.ready t kind' stage' ht hstage with hfront | hcut
    · exact .inl (head_filter hfront hcur)
    · exact .inr hcut

theorem InOrder.giveUp (h : InOrder s m) :
    InOrder ((s.modMutex m fun x => x.giveUp s.cpu.current).setPc .body) m := by
  constructor
  all_goals simp only [setPc_mutex, modMutex_same, Mutex.giveUp]
  · exact h.increasing.filter _
  · intro t ht
    exact h.drawn t (List.mem_filter.mp ht).1
  · exact h.descending
  · exact h.issued
  · intro i hi t ht
    exact h.before i hi t (waits_setPc_body.mp ht).2
  · intro i hi
    rcases h.accounted i hi with hacq | hint | ⟨t, hwaits, ht⟩
    · exact .inl hacq
    · exact .inr (.inl (List.mem_cons_of_mem _ hint))
    · by_cases hcur : t = s.cpu.current
      · subst hcur
        exact .inr (.inl (ht ▸ List.mem_cons_self))
      · exact .inr (.inr ⟨t, waits_setPc_body.mpr ⟨hcur, hwaits⟩, ht⟩)

/-- The running task, at the front and outside the lock functions, unlocks. -/
theorem Exclusive.release
    (h : Exclusive s m) (hpc : s.pc s.cpu.current = .body) {queue : List TaskId}
    (hq : (s.mutex m).queue = s.cpu.current :: queue) :
    Exclusive (s.modMutex m fun x => x.release s.cpu.current queue) m := by
  have hnodup := h.nodup
  rw [hq] at hnodup
  obtain ⟨hout, hrest⟩ := List.nodup_cons.mp hnodup
  -- the holder is the front, so nobody else holds the mutex
  have hnone : ∀ t, Function.update (s.mutex m).holds s.cpu.current false t ≠ true := by
    intro t ht
    by_cases hcur : t = s.cpu.current
    · simp [hcur] at ht
    · have hfront := h.front t (by simpa [hcur] using ht)
      rw [hq] at hfront
      exact hcur (by simpa using hfront.symm)
  constructor
  · rw [modMutex_same]
    exact hrest
  · intro t
    rw [modMutex_same]
    simp only [Mutex.release]
    constructor
    · intro hmem
      have hne : t ≠ s.cpu.current := by
        rintro rfl
        exact hout hmem
      rcases (h.mem_queue t).mp (by simp [hq, hmem]) with hholds | hwaits
      · exact .inl (by simpa [hne] using hholds)
      · exact .inr hwaits
    · rintro (hholds | hwaits)
      · exact absurd hholds (hnone t)
      · have hmem := (h.mem_queue t).mpr (.inr hwaits)
        rw [hq] at hmem
        rcases List.mem_cons.mp hmem with rfl | hmem
        · exact absurd hwaits (not_waits_body hpc)
        · exact hmem
  · intro t ht
    rw [modMutex_same] at ht
    exact absurd ht (hnone t)
  · intro t ht
    rw [modMutex_same] at ht
    exact absurd ht (hnone t)
  · intro t kind stage ht hstage
    rcases h.ready t kind stage ht hstage with hfront | hcut
    · rw [hq] at hfront
      have hcur : s.cpu.current = t := by simpa using hfront
      subst hcur
      rw [modMutex_pc, hpc] at ht
      cases ht
    · exact .inr hcut

theorem InOrder.release
    (h : InOrder s m) {queue : List TaskId}
    (hq : (s.mutex m).queue = s.cpu.current :: queue) :
    InOrder (s.modMutex m fun x => x.release s.cpu.current queue) m := by
  constructor
  all_goals simp only [modMutex_same, Mutex.release]
  · have hsorted := h.increasing
    rw [hq] at hsorted
    exact (List.pairwise_cons.mp hsorted).2
  · intro t ht
    exact h.drawn t (by simp [hq, ht])
  · exact h.descending
  · exact h.issued
  · exact h.before
  · exact h.accounted

end Changes

section Steps

variable {s s' : State} {m m' : MutexId} {kind : Kind} {mem : Bool} {l : Label}

theorem MutexInv.mutexLock
    (h : MutexInv s m) (hpc : s.pc s.cpu.current = .body)
    (hex : s.mutexLock kind m' mem = .ok s') : MutexInv s' m := by
  obtain ⟨hnew, rfl | rfl⟩ := mutexLock_cases hex
  · exact h
  · by_cases hm : m = m'
    · subst hm
      exact ⟨h.exclusive.queued hnew, h.inOrder.queued hpc hnew⟩
    · refine h.elsewhere hm (fun kind stage => ?_) fun kind stage => ?_
      · simp [hpc]
      · simp [Ne.symm hm]

theorem MutexInv.mutexUnlock
    (h : MutexInv s m) (hpc : s.pc s.cpu.current = .body)
    (hex : s.mutexUnlock m' mem = .ok s') : MutexInv s' m := by
  obtain ⟨queue, hq, hs'⟩ := mutexUnlock_cases hex
  have hrelease :
      MutexInv (s.modMutex m' fun x => x.release s.cpu.current queue) m := by
    by_cases hm : m = m'
    · subst hm
      exact ⟨h.exclusive.release hpc hq, h.inOrder.release hq⟩
    · refine h.congr (modMutex_other hm) (fun _ => Iff.rfl) ?_
      intro t kind stage ht hstage
      rw [modMutex_other hm]
      exact h.exclusive.ready t kind stage ht hstage
  rcases hs' with ⟨-, rfl⟩ | ⟨u, rest, -, rfl⟩
  · exact hrelease
  · exact hrelease.still rfl rfl fun _ _ ht => ht

/-- One case for each stage of a lock function. -/
theorem MutexInv.lockStep
    (h : MutexInv s m) {stage : Stage} (hpc : s.pc s.cpu.current = .lock m' kind stage) :
    MutexInv (s.lockStep m' kind mem stage) m := by
  cases stage with
  | entered =>
      have hstate : MutexInv (s.setState kind.sleepState) m := h.still rfl rfl fun _ _ ht => ht
      exact hstate.move hpc fun _ hstage => by simp at hstage
  | check =>
      simp only [State.lockStep]
      split
      next => exact h.move hpc fun _ hstage => by simp at hstage
      next hleave =>
        refine h.move hpc fun hm _ => ?_
        subst hm
        by_cases hfront : (s.mutex m').queue.head? = some s.cpu.current
        · exact .inl hfront
        · refine .inr ?_
          simpa [hfront] using hleave
  | sched =>
      have hmove : MutexInv (s.setPc (.lock m' kind .check)) m :=
        h.move hpc fun _ hstage => by simp at hstage
      exact hmove.still rfl rfl fun _ _ ht => ht
  | out =>
      have hstate : MutexInv (s.setState .running) m := h.still rfl rfl fun _ _ ht => ht
      refine hstate.move hpc fun hm _ => ?_
      subst hm
      exact h.exclusive.ready _ _ _ hpc (.inl rfl)
  | test =>
      simp only [State.lockStep]
      split
      next => exact h.move hpc fun _ hstage => by simp at hstage
      next hcut =>
        by_cases hm : m = m'
        · subst hm
          have hfront : (s.mutex m).queue.head? = some s.cpu.current := by
            rcases h.exclusive.ready _ _ _ hpc (.inr rfl) with hfront | hpending
            · exact hfront
            · exact absurd hpending hcut
          exact ⟨h.exclusive.acquire hfront, h.inOrder.acquire h.exclusive hpc hfront⟩
        · refine h.elsewhere hm (fun kind' stage' => ?_) fun kind' stage' => by simp
          simp [hpc, Ne.symm hm]
  | giveUp =>
      by_cases hm : m = m'
      · subst hm
        exact ⟨h.exclusive.giveUp hpc, h.inOrder.giveUp⟩
      · refine h.elsewhere hm (fun kind' stage' => ?_) fun kind' stage' => by simp
        simp [hpc, Ne.symm hm]

/-- Every step keeps the invariant of every mutex. -/
theorem MutexInv.step (h : MutexInv s m) (hs : machine.Step s l s') : MutexInv s' m := by
  obtain ⟨hen, hex⟩ := hs
  cases l with
  | lockInterruptable m' mem => exact h.mutexLock (by simpa [machine, Label.inBody] using hen) hex
  | lockUninterruptable m' mem => exact h.mutexLock (by simpa [machine, Label.inBody] using hen) hex
  | unlock m' mem => exact h.mutexUnlock (by simpa [machine, Label.inBody] using hen) hex
  | go mem =>
      simp only [machine] at hex
      split at hex
      next =>
        cases hex
        exact h
      next m' kind stage hpc =>
        cases hex
        exact h.lockStep hpc
  | schedule mem =>
      cases hex
      exact h.still rfl rfl fun _ _ ht => ht
  | setState state =>
      cases hex
      exact h.still rfl rfl fun _ _ ht => ht
  | setPending pending =>
      have hpc : s.pc s.cpu.current = .body := by simpa [machine, Label.inBody] using hen
      cases hex
      refine h.still rfl rfl fun t hwait ht => ?_
      have hne : t ≠ s.cpu.current := by
        rintro rfl
        exact hwait hpc
      simpa [hne] using ht
  | sendSig t mem =>
      cases hex
      exact h.still sendSig_mutex sendSig_pc fun _ _ hu => sendSig_pending hu
  | wakeUpProcess t mem =>
      cases hex
      exact h.still rfl rfl fun _ _ ht => ht
  | setStopped t stopped =>
      cases hex
      exact h.still rfl rfl fun _ _ ht => ht

theorem MutexInv.start (h : Init s) : MutexInv s m := by
  have hout : ∀ t, ¬ s.Waits m t := fun t => not_waits_body (h.2 t)
  constructor
  · constructor
    · simp [h.1 m, Mutex.init]
    · simpa [h.1 m, Mutex.init] using hout
    · simp [h.1 m, Mutex.init]
    · simp [h.1 m, Mutex.init]
    · intro t kind stage ht _
      exact absurd ⟨kind, stage, ht⟩ (hout t)
  · constructor <;> simp [h.1 m, Mutex.init]

/-- The invariant holds in every state of every run. -/
theorem MutexInv.reach {ok : State → Label → Prop} (h : machine.Reach Init ok s) :
    MutexInv s m :=
  h.invariant (P := fun s => MutexInv s m) (fun _ h₀ => .start h₀)
    fun _ _ _ h₁ _ hs => h₁.step hs

theorem Exclusive.at_most_one
    {t u : TaskId} (h : Exclusive s m)
    (ht : (s.mutex m).holds t = true) (hu : (s.mutex m).holds u = true) : t = u := by
  have hboth := (h.front t ht).symm.trans (h.front u hu)
  simpa using hboth

/-- A ticket below one that got the mutex got it too, or was interrupted. -/
theorem InOrder.overtaken
    {i j : Nat} (h : InOrder s m) (hj : j ∈ (s.mutex m).acquired) (hlt : i < j) :
    i ∈ (s.mutex m).acquired ∨ i ∈ (s.mutex m).interrupted := by
  have hissued := h.issued j hj
  rcases h.accounted i (by omega) with hacq | hint | ⟨t, hwaits, ht⟩
  · exact .inl hacq
  · exact .inr hint
  · have hbefore := h.before j hj t hwaits
    omega

end Steps

/-- **Exclusion and order.**  In every run at most one task holds a mutex, and it is the
front of the queue; the tickets that got the mutex got it in the order they were drawn,
and only interrupted tasks were passed over; the holder unlocks without reaching
`BUG()`. -/
theorem mutex_exclusion
    {s : State} (h : machine.Reach Init (fun _ _ => True) s) (m : MutexId) :
    (∀ t u, (s.mutex m).holds t = true → (s.mutex m).holds u = true → t = u) ∧
    (∀ t, (s.mutex m).holds t = true → (s.mutex m).queue.head? = some t) ∧
    (s.mutex m).acquired.Pairwise (· > ·) ∧
    (∀ j ∈ (s.mutex m).acquired, ∀ i < j,
      i ∈ (s.mutex m).acquired ∨ i ∈ (s.mutex m).interrupted) ∧
    ∀ mem e, (s.mutex m).holds s.cpu.current = true → ¬ machine.Faults s (.unlock m mem) e := by
  obtain ⟨hex, hord⟩ := MutexInv.reach (m := m) h
  refine ⟨fun t u => hex.at_most_one, hex.front, hord.descending,
    fun j hj i hlt => hord.overtaken hj hlt, ?_⟩
  rintro mem e hholds ⟨-, hbug⟩
  exact mutexUnlock_no_bug (hex.front _ hholds) hbug

/-- The swapper runs and all mutexes are fresh. -/
def boot : State where
  cpu :=
    { current := Task.swapperTask, scheduleQueue := [], state := fun _ => .running
      wakeupCurrent := fun _ => false, stopped := fun _ => false }
  pending _ := false
  pc _ := .body
  mutex _ := Mutex.init

/-- Task 1 locks, task 2 queues behind it, a signal sends task 3 away, task 1 unlocks and
task 2 gets the mutex. -/
def contendedRun : List Label :=
  [.wakeUpProcess 1 true, .schedule true, .lockInterruptable 0 true] ++
    List.replicate 4 (.go true) ++
    [.wakeUpProcess 3 true, .schedule true, .lockInterruptable 0 true] ++
    List.replicate 3 (.go true) ++
    [.wakeUpProcess 2 true, .schedule true, .lockUninterruptable 0 true] ++
    List.replicate 3 (.go true) ++
    [.sendSig 3 true, .schedule true] ++ List.replicate 4 (.go true) ++
    [.schedule true, .unlock 0 true, .schedule true, .schedule true] ++
    List.replicate 3 (.go true)

theorem contendedRun_exclusion :
    ∃ s, machine.Reach Init (fun _ _ => True) s ∧ (s.mutex 0).holds 2 = true ∧
      (s.mutex 0).acquired = [2, 0] ∧ (s.mutex 0).interrupted = [1] ∧
      (∀ t, (s.mutex 0).holds t = true → (s.mutex 0).queue.head? = some t) ∧
      ∀ mem e, (s.mutex 0).holds s.cpu.current = true →
        ¬ machine.Faults s (.unlock 0 mem) e := by
  have hrun : (machine.runLabels contendedRun boot).any (fun s =>
      (s.mutex 0).holds 2 = true ∧ (s.mutex 0).acquired = [2, 0] ∧
        (s.mutex 0).interrupted = [1]) = true := by
    decide +kernel
  obtain ⟨s, hreach, hs⟩ := Machine.exists_reach_of_run
    (show Init boot from ⟨fun _ => rfl, fun _ => rfl⟩) hrun
  simp only [decide_eq_true_eq] at hs
  obtain ⟨-, hfront, -, -, hbug⟩ := mutex_exclusion hreach 0
  exact ⟨s, hreach, hs.1, hs.2.1, hs.2.2, hfront, hbug⟩

end Locking
end JkxyKernel
