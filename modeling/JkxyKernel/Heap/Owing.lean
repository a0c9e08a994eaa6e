import JkxyKernel.Heap.Growing

/-!
# What the allocator owes to the kernel

Outside the blocks, the pages and frames of the kernel are what they were before the allocator got
its first block; those of the blocks were free then.  So the kernel gets back what it gave, with
the last block.
-/

namespace JkxyKernel
namespace Kmalloc
namespace Heap

open Packing
open Paging (Memory PHYS_DIR_UNUSED)

variable {h h' : Heap} {m₀ mem : Memory} {maj : Major} {size : BitVec 32} {first : Nat}
  {pre post : List Major}

/-- The pages of the blocks. -/
def runs (h : Heap) : List (Nat × Nat) := h.majors.map fun maj => (maj.page, maj.pages.toNat)

/-- One of so many numbers. -/
def InRun (first num n : Nat) : Prop := first ≤ n ∧ n < first + num

/-- The kernel's memory is the old one, but for runs of pages and their frames, which were free. -/
structure Owed (m₀ mem : Memory) (runs : List (Nat × Nat)) : Prop where
  tables : ∀ q, (∀ r ∈ runs, ¬ InRun r.1 r.2 q) → mem.heapTables q = m₀.heapTables q ∨
    (mem.heapTables q).present = false ∧ (m₀.heapTables q).present = false
  vacant : ∀ r ∈ runs, ∀ q, InRun r.1 r.2 q → (m₀.heapTables q).present = false
  phys : ∀ f, (∀ r ∈ runs, ¬ InRun (mem.heapTables r.1).addr r.2 f) →
    mem.physDir f = m₀.physDir f
  unused : ∀ r ∈ runs, ∀ f, InRun (mem.heapTables r.1).addr r.2 f →
    m₀.physDir f = PHYS_DIR_UNUSED
  rest : mem.entries = m₀.entries ∧ mem.data = m₀.data ∧ mem.cr3 = m₀.cr3

/-- What the allocator got is in its blocks. -/
def Owes (h : Heap) (m₀ : Memory) : Prop := Owed m₀ h.mem h.runs

theorem Owes.congr (ho : h.Owes m₀) (hmem : h'.mem = h.mem) (hruns : h'.runs = h.runs) :
    h'.Owes m₀ := by
  rw [Owes, hmem, hruns]
  exact ho

/-- The pages and frames that the kernel supplies were free before. -/
theorem Owes.grown (ho : h.Owes m₀) (hg : h.Good) (hf : h.Fresh size maj first) :
    (h.grown maj first).Owes m₀ := by
  have hruns : (h.grown maj first).runs = h.runs ++ [(maj.page, maj.pages.toNat)] :=
    List.map_append
  have hkept := hg.kept_supply hf
  have hfirst : ((h.grown maj first).mem.heapTables maj.page).addr = first :=
    congrArg Paging.Entry.addr (Fresh.heapTables h.mem maj.page first maj.pages.toNat hf.sound.pos)
  have hframe : ∀ r ∈ h.runs, (h.grown maj first).mem.heapTables r.1 = h.mem.heapTables r.1 := by
    intro r hr
    obtain ⟨m, hm, rfl⟩ := List.mem_map.mp hr
    exact (hkept m hm 0 (hg.sound m hm).pos).1
  have hvacant : ∀ q, InRun maj.page maj.pages.toNat q → (h.mem.heapTables q).present = false := by
    intro q hq
    have habsent := hf.vacant (q - maj.page) (by have := hq.2; have := hq.1; omega)
    rw [Nat.add_sub_cancel' hq.1] at habsent
    exact habsent
  have hunused : ∀ f, InRun first maj.pages.toNat f → h.mem.physDir f = PHYS_DIR_UNUSED :=
    fun f hf' => (hf.unused.frames f hf'.1 hf'.2).2
  have houtside : ∀ r ∈ h.runs, ∀ q, InRun maj.page maj.pages.toNat q → ¬ InRun r.1 r.2 q := by
    intro r hr q hq hin
    obtain ⟨m, hm, rfl⟩ := List.mem_map.mp hr
    have hboth : m.page ≤ q ∧ q < m.page + m.pages.toNat := hin
    rw [InRun] at hq
    rcases (hg.fresh_apart hf m hm).1 with hle | hle <;> omega
  have houtside' : ∀ r ∈ h.runs, ∀ f, InRun first maj.pages.toNat f →
      ¬ InRun (h.mem.heapTables r.1).addr r.2 f := by
    intro r hr f hf' hin
    obtain ⟨m, hm, rfl⟩ := List.mem_map.mp hr
    have hboth : h.frame m ≤ f ∧ f < h.frame m + m.pages.toNat := hin
    rw [InRun] at hf'
    rcases (hg.fresh_apart hf m hm).2 with hle | hle <;> omega
  rw [Owes, hruns]
  constructor
  case tables =>
    intro q hq
    have hnot : ¬ InRun maj.page maj.pages.toNat q := hq (_, _) (by simp)
    have hsame : (h.grown maj first).mem.heapTables q = h.mem.heapTables q := if_neg hnot
    rw [hsame]
    exact ho.tables q fun r hr => hq r (List.mem_append_left _ hr)
  case vacant =>
    intro r hr q hq
    rcases List.mem_append.mp hr with hr | hr
    · exact ho.vacant r hr q hq
    · obtain rfl := List.mem_singleton.mp hr
      rcases ho.tables q fun r hr => houtside r hr q hq with heq | ⟨-, habsent⟩
      · rw [← heq]
        exact hvacant q hq
      · exact habsent
  case phys =>
    intro f hf'
    have hnot : ¬ InRun first maj.pages.toNat f := hfirst ▸ hf' (_, _) (by simp)
    have hsame : (h.grown maj first).mem.physDir f = h.mem.physDir f := if_neg hnot
    rw [hsame]
    refine ho.phys f fun r hr => ?_
    rw [← hframe r hr]
    exact hf' r (List.mem_append_left _ hr)
  case unused =>
    intro r hr f hf'
    rcases List.mem_append.mp hr with hr | hr
    · rw [hframe r hr] at hf'
      exact ho.unused r hr f hf'
    · obtain rfl := List.mem_singleton.mp hr
      rw [hfirst] at hf'
      rw [← ho.phys f fun r hr => houtside' r hr f hf']
      exact hunused f hf'
  case rest => exact ho.rest

/-- The pages and frames that the kernel gets back are free again. -/
theorem Owes.withdraw (ho : h.Owes m₀) (hg : h.Good) (hsplit : h.majors = pre ++ maj :: post)
    (hmem : h'.mem = h.mem.withdraw maj.page (h.frame maj) maj.pages.toNat)
    (hmajors : h'.majors = pre ++ post) : h'.Owes m₀ := by
  have hruns : h.runs = pre.map (fun m => (m.page, m.pages.toNat)) ++
      (maj.page, maj.pages.toNat) :: post.map fun m => (m.page, m.pages.toNat) := by
    rw [runs, hsplit, List.map_append, List.map_cons]
  have hruns' : h'.runs = pre.map (fun m => (m.page, m.pages.toNat)) ++
      post.map fun m => (m.page, m.pages.toNat) := by
    rw [runs, hmajors, List.map_append]
  have hmaj : (maj.page, maj.pages.toNat) ∈ h.runs := by
    rw [hruns]
    simp
  have hsub : ∀ r ∈ h'.runs, r ∈ h.runs := by
    rw [hruns, hruns']
    intro r hr
    simp only [List.mem_append, List.mem_cons] at hr ⊢
    tauto
  have hcases : ∀ {P : Nat × Nat → Prop}, P (maj.page, maj.pages.toNat) → (∀ r ∈ h'.runs, P r) →
      ∀ r ∈ h.runs, P r := by
    intro P hP hall r hr
    rw [hruns] at hr
    rw [hruns'] at hall
    simp only [List.mem_append, List.mem_cons] at hr hall
    rcases hr with hpre | rfl | hpost
    · exact hall r (.inl hpre)
    · exact hP
    · exact hall r (.inr hpost)
  have hframe : ∀ r ∈ h'.runs, h'.mem.heapTables r.1 = h.mem.heapTables r.1 := by
    intro r hr
    obtain ⟨m, hm, rfl⟩ := List.mem_map.mp hr
    rw [hmajors] at hm
    have hpos : 0 < m.pages.toNat := by
      refine (hg.sound m ?_).pos
      rw [hsplit]
      simp only [List.mem_append, List.mem_cons] at hm ⊢
      tauto
    rw [hmem]
    exact (@Good.kept_withdraw h maj pre post hg hsplit none 0 0 m hm 0 hpos).1
  rw [Owes]
  constructor
  case tables =>
    intro q hq
    by_cases hin : InRun maj.page maj.pages.toNat q
    · refine .inr ⟨?_, ho.vacant _ hmaj q hin⟩
      rw [hmem]
      exact congrArg Paging.Entry.present (if_pos hin)
    · have hsame : h'.mem.heapTables q = h.mem.heapTables q := by
        rw [hmem]
        exact if_neg hin
      rw [hsame]
      exact ho.tables q (hcases hin hq)
  case vacant => exact fun r hr => ho.vacant r (hsub r hr)
  case phys =>
    intro f hf
    by_cases hin : InRun (h.frame maj) maj.pages.toNat f
    · rw [ho.unused _ hmaj f hin, hmem]
      exact if_pos hin
    · have hsame : h'.mem.physDir f = h.mem.physDir f := by
        rw [hmem]
        exact if_neg hin
      rw [hsame]
      refine ho.phys f (hcases hin fun r hr => ?_)
      rw [← hframe r hr]
      exact hf r hr
  case unused =>
    intro r hr f hf
    rw [hframe r hr] at hf
    exact ho.unused r (hsub r hr) f hf
  case rest =>
    rw [hmem]
    exact ho.rest

end Heap
end Kmalloc
end JkxyKernel
