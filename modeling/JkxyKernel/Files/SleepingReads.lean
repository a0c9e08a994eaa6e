import JkxyKernel.Files.Counting

/-!
# Reads that sleep

A read that sleeps looks at its file again when it wakes up, without having counted it: all that
keeps the file is the descriptor, which another task may close if it shares the table.  As long as
no clone shares its table, each table has one task, which makes no calls while it sleeps, and every
read that wakes up finds its file and its terminal.
-/

namespace JkxyKernel
namespace Files

open Objects (Answer Opening Mounting)

/-- Is this a clone that shares its table? -/
def Call.shares : Call → Bool
  | .clone shares _ => shares
  | _ => false

namespace Kernel

/-- No two tasks have one table, and a task that sleeps in a read has a descriptor for its file. -/
structure Private (k : Kernel) : Prop where
  alone : ∀ t t' task task' tid, k.tasks t = some task → k.tasks t' = some task' →
    task.files = some tid → task'.files = some tid → t = t'
  held : ∀ t task f, k.tasks t = some task → task.reading = some f → ∃ tid table fd,
    task.files = some tid ∧ k.tables tid = some table ∧ table.files.lookup fd = some (.file f)

section Sleeping

variable {k : Kernel} {t : TaskId} {task task' : TaskFiles} {tid : TableId} {table : Table}
  {exec : Exec}

namespace Private

theorem withObjects (h : k.Private) (objects : Objects) :
    Private { k with objects := objects } := ⟨h.alone, h.held⟩

/-- A table is changed by its own task, which does not sleep. -/
theorem retable {tables : TableId → Option Table} (h : k.Private) (ht : k.tasks t = some task)
    (hreading : task.reading = none)
    (hsame : ∀ tid, task.files ≠ some tid → tables tid = k.tables tid) :
    Private { k with tables := tables } := by
  refine ⟨h.alone, fun t' task' f ht' hf => ?_⟩
  obtain ⟨tid, table, fd, hfiles, htable, hentry⟩ := h.held t' task' f ht' hf
  refine ⟨tid, table, fd, hfiles, (hsame tid fun hmine => ?_).trans htable, hentry⟩
  cases h.alone t t' task task' tid ht ht' hmine hfiles
  cases ht.symm.trans ht'
  rw [hreading] at hf
  cases hf

theorem setTable (h : k.Private) (ht : k.tasks t = some task) (hreading : task.reading = none)
    (hfiles : task.files = some tid) : (k.setTable tid table).Private := by
  refine h.retable ht hreading fun tid' hne => Function.update_of_ne ?_ _ _
  rintro rfl
  exact hne hfiles

/-- A task may begin a read with a descriptor that it has. -/
theorem setTask (h : k.Private) (ht : k.tasks t = some task) (hfiles : task'.files = task.files)
    (hheld : ∀ f, task'.reading = some f → ∃ tid table fd, task.files = some tid ∧
      k.tables tid = some table ∧ table.files.lookup fd = some (.file f)) :
    (k.setTask t task').Private := by
  have hold : ∀ t₁ task₁, (k.setTask t task').tasks t₁ = some task₁ →
      ∃ task₀, k.tasks t₁ = some task₀ ∧ task₁.files = task₀.files := by
    intro t₁ task₁ ht₁
    simp only [Kernel.setTask, Function.update_apply] at ht₁
    split at ht₁
    next heq =>
      cases ht₁
      exact ⟨task, by rw [heq, ht], hfiles⟩
    next => exact ⟨task₁, ht₁, rfl⟩
  refine ⟨fun t₁ t₂ task₁ task₂ tid ht₁ ht₂ h₁ h₂ => ?_, fun t₁ task₁ f ht₁ hf => ?_⟩
  · obtain ⟨task₁', ht₁', heq₁⟩ := hold t₁ task₁ ht₁
    obtain ⟨task₂', ht₂', heq₂⟩ := hold t₂ task₂ ht₂
    exact h.alone t₁ t₂ task₁' task₂' tid ht₁' ht₂' (heq₁ ▸ h₁) (heq₂ ▸ h₂)
  · simp only [Kernel.setTask, Function.update_apply] at ht₁
    split at ht₁
    next =>
      cases ht₁
      rw [hfiles]
      exact hheld f hf
    next => exact h.held t₁ task₁ f ht₁ hf

/-- A task gets a table that no task has. -/
theorem link {nextTable : TableId} (h : k.Private) (hfree : ∀ t task, k.tasks t = some task →
    task.files ≠ some tid) (hreading : task.reading = none) :
    (k.link t task tid table nextTable).Private := by
  refine ⟨fun t₁ t₂ task₁ task₂ tid' ht₁ ht₂ h₁ h₂ => ?_, fun t₁ task₁ f ht₁ hf => ?_⟩
  · simp only [Kernel.link, Kernel.setTask, Function.update_apply] at ht₁ ht₂
    split at ht₁
    next heq₁ =>
      cases ht₁
      split at ht₂
      next heq₂ => rw [heq₁, heq₂]
      next => exact absurd (h₂.trans h₁.symm) (hfree t₂ task₂ ht₂)
    next =>
      split at ht₂
      next =>
        cases ht₂
        exact absurd (h₁.trans h₂.symm) (hfree t₁ task₁ ht₁)
      next => exact h.alone t₁ t₂ task₁ task₂ tid' ht₁ ht₂ h₁ h₂
  · simp only [Kernel.link, Kernel.setTask, Function.update_apply] at ht₁
    split at ht₁
    next =>
      cases ht₁
      rw [hreading] at hf
      cases hf
    next =>
      obtain ⟨tid', table', fd, hfiles, htable, hentry⟩ := h.held t₁ task₁ f ht₁ hf
      have hne : tid' ≠ tid := fun heq => hfree t₁ task₁ ht₁ (heq ▸ hfiles)
      exact ⟨tid', table', fd, hfiles, (Function.update_of_ne hne _ _).trans htable, hentry⟩

/-- A task that has no table. -/
theorem spawn (h : k.Private) (hfiles : task.files = none) (hreading : task.reading = none) :
    (k.spawn task).Private := by
  refine ⟨fun t₁ t₂ task₁ task₂ tid ht₁ ht₂ h₁ h₂ => ?_, fun t₁ task₁ f ht₁ hf => ?_⟩
  · simp only [Kernel.spawn, Kernel.setTask, Function.update_apply] at ht₁ ht₂
    split at ht₁
    next =>
      cases ht₁
      rw [hfiles] at h₁
      cases h₁
    next =>
      split at ht₂
      next =>
        cases ht₂
        rw [hfiles] at h₂
        cases h₂
      next => exact h.alone t₁ t₂ task₁ task₂ tid ht₁ ht₂ h₁ h₂
  · simp only [Kernel.spawn, Kernel.setTask, Function.update_apply] at ht₁
    split at ht₁
    next =>
      cases ht₁
      rw [hreading] at hf
      cases hf
    next => exact h.held t₁ task₁ f ht₁ hf

theorem retire (h : k.Private) : (k.retire t k.tables).Private := by
  have hold : ∀ t₁ task₁, (k.retire t k.tables).tasks t₁ = some task₁ →
      k.tasks t₁ = some task₁ := by
    intro t₁ task₁ ht₁
    simp only [Kernel.retire, Function.update_apply] at ht₁
    split at ht₁
    next => cases ht₁
    next => exact ht₁
  exact ⟨fun t₁ t₂ task₁ task₂ tid ht₁ ht₂ =>
      h.alone t₁ t₂ task₁ task₂ tid (hold _ _ ht₁) (hold _ _ ht₂),
    fun t₁ task₁ f ht₁ => h.held t₁ task₁ f (hold _ _ ht₁)⟩

end Private

/-! ### One call -/

/-- No task has the table that is made next. -/
theorem Tabled.unused (h : k.Tabled) (ht : k.tasks t = some task) :
    task.files ≠ some k.nextTable := by
  intro hfiles
  obtain ⟨table, htable, -⟩ := Books.tableOf h ht hfiles
  rw [h.freshTable _ (Nat.le_refl _)] at htable
  cases htable

section Calls

end Calls

/-- Nobody sleeps at first. -/
theorem Boot.idle (h : Boot k) : k.Private := by
  refine ⟨fun t t' task task' tid ht _ hfiles => ?_, fun t task f ht hf => ?_⟩
  · rw [h.task_eq ht] at hfiles
    cases hfiles
  · rw [h.task_eq ht] at hf
    cases hf

end Sleeping
end Kernel
end Files
end JkxyKernel
