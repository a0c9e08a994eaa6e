import JkxyKernel.Paging.Supply
import JkxyKernel.Paging.Tables

/-!
# Pages that are mapped and undone

Large pages, small pages and pages of the kernel heap are mapped by the same loop, and given
back by the same loop.  They differ in where their entries lie: in a directory, in a page table,
or in `heap_tables`.

A `Target` says where the entries of a request lie.  What is mapped there can be read back, and
what is mapped and given back again leaves nothing behind.
-/

namespace JkxyKernel
namespace Paging

/-- An entry: of the directory or page table in a frame, or of `heap_tables`. -/
inductive Cell
  | entry (frame i : Nat)
  | heap (page : Nat)
  deriving DecidableEq, Repr

namespace Memory

variable {s s' t : Memory} {c c' : Cell} {e : Entry} {idx i : Nat} {n : Int}

def getCell (s : Memory) : Cell → Entry
  | .entry frame i => s.entries frame i
  | .heap page => s.heapTables page

def setCell (s : Memory) : Cell → Entry → Memory
  | .entry frame i, e => s.setFrame frame i e
  | .heap page, e => s.setHeap page e

theorem getCell_setCell : (s.setCell c e).getCell c' = if c' = c then e else s.getCell c' := by
  cases c with
  | entry frame i =>
      cases c' with
      | entry frame' i' =>
          simp only [setCell, getCell, setFrame, Cell.entry.injEq, Function.update_apply]
          by_cases hframe : frame' = frame
          · simp only [hframe, true_and, if_true, Function.update_apply]
          · simp only [hframe, false_and, if_false]
      | heap page' => rw [if_neg nofun]; rfl
  | heap page =>
      cases c' with
      | entry frame' i' => rw [if_neg nofun]; rfl
      | heap page' =>
          simp only [setCell, getCell, setHeap, Cell.heap.injEq, Function.update_apply]

@[simp] theorem getCell_setCell_self : (s.setCell c e).getCell c = e := by
  rw [getCell_setCell, if_pos rfl]

theorem getCell_setCell_of_ne (h : c' ≠ c) : (s.setCell c e).getCell c' = s.getCell c' := by
  rw [getCell_setCell, if_neg h]

@[simp] theorem physDir_setCell : (s.setCell c e).physDir = s.physDir := by cases c <;> rfl

@[simp] theorem cr3_setCell : (s.setCell c e).cr3 = s.cr3 := by cases c <;> rfl

@[simp] theorem data_setCell : (s.setCell c e).data = s.data := by cases c <;> rfl

@[simp] theorem getCell_setPhysDir : (s.setPhysDir idx n).getCell c = s.getCell c := by
  cases c <;> rfl

/-! ### Taking and giving back a page -/

section Pages

variable {gfp : Gfp}

theorem Gfp.pages_pos (gfp : Gfp) : 0 < gfp.pages := by
  rw [Gfp.pages]
  split <;> decide

theorem Gfp.taken_ne_unused (gfp : Gfp) : gfp.taken ≠ PHYS_DIR_UNUSED := by
  rw [Gfp.taken]
  split <;> decide

theorem unused_of_setPhysDir (hn : n ≠ PHYS_DIR_UNUSED)
    (h : (s.setPhysDir idx n).physDir i = PHYS_DIR_UNUSED) :
    i ≠ idx ∧ s.physDir i = PHYS_DIR_UNUSED := by
  have hne : i ≠ idx := by
    rintro rfl
    rw [setPhysDir_self] at h
    exact hn h
  rw [setPhysDir_of_ne s hne] at h
  exact ⟨hne, h⟩

theorem Free.congr (h : s.Free gfp idx) (hphys : t.physDir = s.physDir) : t.Free gfp idx where
  scale := h.scale
  unused := by rw [hphys]; exact h.unused
  frames := by rw [hphys]; exact h.frames
  around := by rw [hphys]; exact h.around

/-- What is free after a page is taken was free before, and is another one. -/
theorem Free.of_setPhysDir (hn : n ≠ PHYS_DIR_UNUSED) (h : (s.setPhysDir idx n).Free gfp i) :
    i ≠ idx ∧ s.Free gfp i := by
  obtain ⟨hne, hunused⟩ := unused_of_setPhysDir hn h.unused
  exact ⟨hne, h.scale, hunused, fun hlarge f hf => (unused_of_setPhysDir hn (h.frames hlarge f hf)).2,
    fun hsmall => (unused_of_setPhysDir hn (h.around hsmall)).2⟩

theorem freePhysMem_taken (h : s.physDir idx = gfp.taken) :
    s.freePhysMem (idx * gfp.pages) gfp = .ok (s.setPhysDir idx PHYS_DIR_UNUSED) := by
  rw [freePhysMem, Nat.mul_div_cancel _ (Gfp.pages_pos gfp), h, Gfp.taken]
  cases gfp.user <;> rfl

end Pages

/-! ### Lists of pages -/

section Lists

variable (cell : Nat → Cell) (gfp : Gfp)

/-- Pages taken and mapped one after the other, from an offset on. -/
def mapAll : Nat → List Nat → Memory → Memory
  | _, [], s => s
  | offset, idx :: rest, s =>
      mapAll (offset + 1) rest
        ((s.setPhysDir idx gfp.taken).setCell (cell offset) (newEntry gfp (idx * gfp.pages)))

/-- Pages given back one after the other. -/
def clearAll : Nat → List Nat → Memory → Memory
  | _, [], s => s
  | offset, idx :: rest, s =>
      clearAll (offset + 1) rest ((s.setCell (cell offset) .zero).setPhysDir idx PHYS_DIR_UNUSED)

variable {cell gfp} {idxs : List Nat} {offset : Nat}

theorem cr3_mapAll : (mapAll cell gfp offset idxs s).cr3 = s.cr3 := by
  induction idxs generalizing offset s with
  | nil => rfl
  | cons idx rest ih => exact ih.trans cr3_setCell

theorem data_mapAll : (mapAll cell gfp offset idxs s).data = s.data := by
  induction idxs generalizing offset s with
  | nil => rfl
  | cons idx rest ih => exact ih.trans data_setCell

theorem physDir_mapAll :
    (mapAll cell gfp offset idxs s).physDir i = if i ∈ idxs then gfp.taken else s.physDir i := by
  induction idxs generalizing offset s with
  | nil => rfl
  | cons idx rest ih =>
      rw [mapAll, ih, physDir_setCell]
      by_cases hmem : i ∈ rest
      · rw [if_pos hmem, if_pos (List.mem_cons_of_mem _ hmem)]
      · rw [if_neg hmem]
        by_cases hi : i = idx
        · rw [if_pos (hi ▸ List.mem_cons_self), hi, setPhysDir_self]
        · rw [if_neg fun h => (List.mem_cons.mp h).elim hi hmem, setPhysDir_of_ne s hi]

/-- Other entries are left as they are. -/
theorem getCell_mapAll_of_ne (h : ∀ k < idxs.length, c ≠ cell (offset + k)) :
    (mapAll cell gfp offset idxs s).getCell c = s.getCell c := by
  induction idxs generalizing offset s with
  | nil => rfl
  | cons idx rest ih =>
      have hfirst : c ≠ cell offset := h 0 (Nat.succ_pos _)
      rw [mapAll, ih, getCell_setCell_of_ne hfirst, getCell_setPhysDir]
      intro k hk
      rw [Nat.add_assoc, Nat.add_comm 1 k]
      exact h (k + 1) (Nat.succ_lt_succ hk)

/-- What was mapped is read back. -/
theorem getCell_mapAll {num k : Nat} (hinj : ∀ a < num, ∀ b < num, cell a = cell b → a = b)
    (hnum : offset + idxs.length ≤ num) (hk : idxs[k]? = some idx) :
    (mapAll cell gfp offset idxs s).getCell (cell (offset + k)) =
      newEntry gfp (idx * gfp.pages) := by
  induction idxs generalizing offset s k with
  | nil => cases hk
  | cons first rest ih =>
      rw [List.length_cons] at hnum
      cases k with
      | zero =>
          cases hk
          rw [mapAll, getCell_mapAll_of_ne, Nat.add_zero, getCell_setCell_self]
          intro k hk heq
          have hlt := hinj _ (by omega) _ (by omega) heq
          omega
      | succ k =>
          have hshift : offset + (k + 1) = offset + 1 + k := by omega
          rw [mapAll, hshift]
          exact ih (by omega) hk

theorem cr3_clearAll : (clearAll cell offset idxs s).cr3 = s.cr3 := by
  induction idxs generalizing offset s with
  | nil => rfl
  | cons idx rest ih => exact ih.trans cr3_setCell

theorem data_clearAll : (clearAll cell offset idxs s).data = s.data := by
  induction idxs generalizing offset s with
  | nil => rfl
  | cons idx rest ih => exact ih.trans data_setCell

theorem physDir_clearAll :
    (clearAll cell offset idxs s).physDir i =
      if i ∈ idxs then PHYS_DIR_UNUSED else s.physDir i := by
  induction idxs generalizing offset s with
  | nil => rfl
  | cons idx rest ih =>
      rw [clearAll, ih]
      by_cases hmem : i ∈ rest
      · rw [if_pos hmem, if_pos (List.mem_cons_of_mem _ hmem)]
      · rw [if_neg hmem]
        by_cases hi : i = idx
        · rw [if_pos (hi ▸ List.mem_cons_self), hi, setPhysDir_self]
        · rw [if_neg fun h => (List.mem_cons.mp h).elim hi hmem, setPhysDir_of_ne _ hi,
            physDir_setCell]

theorem getCell_clearAll_of_ne (h : ∀ k < idxs.length, c ≠ cell (offset + k)) :
    (clearAll cell offset idxs s).getCell c = s.getCell c := by
  induction idxs generalizing offset s with
  | nil => rfl
  | cons idx rest ih =>
      have hfirst : c ≠ cell offset := h 0 (Nat.succ_pos _)
      rw [clearAll, ih, getCell_setPhysDir, getCell_setCell_of_ne hfirst]
      intro k hk
      rw [Nat.add_assoc, Nat.add_comm 1 k]
      exact h (k + 1) (Nat.succ_lt_succ hk)

/-- A given entry is zero, if it is not an entry of another page. -/
theorem getCell_clearAll {num k : Nat} (hinj : ∀ a < num, ∀ b < num, cell a = cell b → a = b)
    (hnum : offset + idxs.length ≤ num) (hk : k < idxs.length) :
    (clearAll cell offset idxs s).getCell (cell (offset + k)) = .zero := by
  induction idxs generalizing offset s k with
  | nil => cases hk
  | cons first rest ih =>
      rw [List.length_cons] at hnum
      cases k with
      | zero =>
          rw [clearAll, getCell_clearAll_of_ne, Nat.add_zero, getCell_setPhysDir,
            getCell_setCell_self]
          intro k hk heq
          have hlt := hinj _ (by omega) _ (by omega) heq
          omega
      | succ k =>
          have hshift : offset + (k + 1) = offset + 1 + k := by omega
          rw [clearAll, hshift]
          exact ih (by omega) (Nat.lt_of_succ_lt_succ hk)

end Lists

/-! ### Where the entries of a request lie -/

/-- The entries of the pages of a request are in these cells, as long as a condition holds that
writing to them keeps. -/
structure Target (put : Memory → Nat → Entry → Except Fault Memory) (page num : Nat) (gfp : Gfp)
    (cell : Nat → Cell) (I : Memory → Prop) : Prop where
  inj : ∀ a < num, ∀ b < num, cell a = cell b → a = b
  put : ∀ t offset e, I t → offset < num → put t offset e = .ok (t.setCell (cell offset) e)
  write : ∀ t offset e, I t → offset < num → I (t.setCell (cell offset) e)
  count : ∀ t idx n, I t → I (t.setPhysDir idx n)
  space : page + num * gfp.pages ≤ physDirSmallNum
  unmap : ∀ t offset frame, I t → offset < num → t.getCell (cell offset) = newEntry gfp frame →
    t.unmapPage (page + offset * gfp.pages) gfp = .ok (t.setCell (cell offset) .zero, frame)
  absent : ∀ t offset, I t → offset < num → (t.getCell (cell offset)).present = false →
    t.unmapPage (page + offset * gfp.pages) gfp = .ok (t, 0)

/-- Nothing is different but entries that map nothing. -/
structure Restored (s s' : Memory) : Prop where
  physDir : s'.physDir = s.physDir
  cr3 : s'.cr3 = s.cr3
  data : s'.data = s.data
  cells : ∀ c, s'.getCell c = s.getCell c ∨
    (s.getCell c).present = false ∧ (s'.getCell c).present = false

theorem Restored.refl (s : Memory) : Restored s s := ⟨rfl, rfl, rfl, fun _ => .inl rfl⟩

namespace Target

variable {put : Memory → Nat → Entry → Except Fault Memory} {page num : Nat} {gfp : Gfp}
  {cell : Nat → Cell} {I : Memory → Prop} {idxs : List Nat} {offset left : Nat}

/-- The loop maps pages that were free, all of them or as many as there are; by induction on the
pages that are left. -/
theorem mapPages (h : Target put page num gfp cell I) (hI : I s)
    (hzero : s.physDir 0 ≠ PHYS_DIR_UNUSED) (hnum : offset + left = num) :
    ∃ idxs out, Memory.mapPages put gfp left offset s = .ok (mapAll cell gfp offset idxs s, out) ∧
      idxs.Nodup ∧ (∀ idx ∈ idxs, s.Free gfp idx ∧ idx ≠ 0) ∧
      (out = .done ∧ idxs.length = left ∨
        out = .failed (offset + idxs.length) ∧ idxs.length < left ∧
          (mapAll cell gfp offset idxs s).allocPhysMem gfp =
            .ok (mapAll cell gfp offset idxs s, 0)) := by
  induction left generalizing offset s with
  | zero => exact ⟨[], .done, rfl, .nil, nofun, .inl ⟨rfl, rfl⟩⟩
  | succ left ih =>
      rcases @allocPhysMem_total s gfp hzero with ⟨hnone, -⟩ | ⟨idx, hfree, hidx, halloc⟩
      · refine ⟨[], .failed offset, ?_, .nil, nofun, .inr ⟨rfl, Nat.succ_pos _, hnone⟩⟩
        rw [Memory.mapPages, hnone]
        rfl
      · have hlt : offset < num := by omega
        have hI' := h.count s idx gfp.taken hI
        have hframe : idx * gfp.pages ≠ 0 :=
          Nat.mul_ne_zero hidx (Nat.ne_of_gt (Gfp.pages_pos gfp))
        have hzero' : ((s.setPhysDir idx gfp.taken).setCell (cell offset)
            (newEntry gfp (idx * gfp.pages))).physDir 0 ≠ PHYS_DIR_UNUSED := by
          rw [physDir_setCell, setPhysDir_of_ne s (Ne.symm hidx)]
          exact hzero
        obtain ⟨idxs, out, hrest, hnodup, hall, hout⟩ := @ih _ (offset + 1)
          (h.write _ offset (newEntry gfp (idx * gfp.pages)) hI' hlt) hzero' (by omega)
        have hbefore : ∀ idx' ∈ idxs, idx' ≠ idx ∧ s.Free gfp idx' := fun idx' hidx' =>
          ((hall idx' hidx').1.congr physDir_setCell.symm).of_setPhysDir (Gfp.taken_ne_unused gfp)
        refine ⟨idx :: idxs, out, ?_, List.nodup_cons.mpr ⟨fun hmem => (hbefore idx hmem).1 rfl,
          hnodup⟩, ?_, ?_⟩
        · rw [Memory.mapPages, halloc]
          refine Machine.bind_eq_ok_iff.mpr ⟨_, rfl, ?_⟩
          refine (if_neg hframe).trans ?_
          exact Machine.bind_eq_ok_iff.mpr ⟨_, h.put _ offset _ hI' hlt, hrest⟩
        · intro idx' hidx'
          rcases List.mem_cons.mp hidx' with rfl | hidx'
          · exact ⟨hfree, hidx⟩
          · exact ⟨(hbefore idx' hidx').2, (hall idx' hidx').2⟩
        · rcases hout with ⟨hout, hlength⟩ | ⟨hout, hlength, hnone⟩
          · exact .inl ⟨hout, by rw [List.length_cons, hlength]⟩
          · refine .inr ⟨?_, Nat.succ_lt_succ hlength, hnone⟩
            rw [hout, List.length_cons]
            congr 1
            omega

/-- The condition is kept by the loop. -/
theorem keep (h : Target put page num gfp cell I) (hI : I s) (hnum : offset + idxs.length ≤ num) :
    I (mapAll cell gfp offset idxs s) := by
  induction idxs generalizing offset s with
  | nil => exact hI
  | cons idx rest ih =>
      rw [List.length_cons] at hnum
      exact ih (h.write _ _ _ (h.count _ _ _ hI) (by omega)) (by omega)

/-- A page that was mapped is given back. -/
theorem freeOnePage (h : Target put page num gfp cell I) (hI : I t) (hlt : offset < num)
    (hcell : t.getCell (cell offset) = newEntry gfp (idx * gfp.pages)) (hidx : idx ≠ 0)
    (hphys : t.physDir idx = gfp.taken) :
    t.freeOnePage (page + offset * gfp.pages) gfp =
      .ok ((t.setCell (cell offset) .zero).setPhysDir idx PHYS_DIR_UNUSED) := by
  rw [Memory.freeOnePage, h.unmap t offset _ hI hlt hcell]
  refine Machine.bind_eq_ok_iff.mpr ⟨_, rfl, ?_⟩
  refine (if_neg (Nat.mul_ne_zero hidx (Nat.ne_of_gt (Gfp.pages_pos gfp)))).trans ?_
  exact freePhysMem_taken (by rw [physDir_setCell]; exact hphys)

theorem next (h : Target put page num gfp cell I) (hlt : offset + 1 < num) :
    (page + offset * gfp.pages + gfp.pages) % physDirSmallNum =
      page + (offset + 1) * gfp.pages := by
  have hpos := Gfp.pages_pos gfp
  have hstep : (offset + 1) * gfp.pages = offset * gfp.pages + gfp.pages := Nat.succ_mul _ _
  have hstep' : (offset + 1 + 1) * gfp.pages = (offset + 1) * gfp.pages + gfp.pages :=
    Nat.succ_mul _ _
  have hle : (offset + 1 + 1) * gfp.pages ≤ num * gfp.pages := Nat.mul_le_mul_right _ hlt
  have hspace := h.space
  rw [Nat.mod_eq_of_lt (by omega)]
  omega

/-- `free_pages` of pages that were mapped gives them all back, by induction on them. -/
theorem freePages (h : Target put page num gfp cell I) (hI : I t)
    (hnum : offset + idxs.length ≤ num)
    (hcells : ∀ k idx, idxs[k]? = some idx →
      t.getCell (cell (offset + k)) = newEntry gfp (idx * gfp.pages))
    (hphys : ∀ idx ∈ idxs, idx ≠ 0 ∧ t.physDir idx = gfp.taken) (hnodup : idxs.Nodup) :
    Memory.freePages (page + offset * gfp.pages) idxs.length gfp t =
      .ok (clearAll cell offset idxs t) := by
  induction idxs generalizing offset t with
  | nil => rfl
  | cons idx rest ih =>
      rw [List.length_cons] at hnum
      obtain ⟨hidx, hcount⟩ := hphys idx List.mem_cons_self
      have hlt : offset < num := by omega
      have hfirst := h.freeOnePage hI hlt (hcells 0 idx rfl) hidx hcount
      rw [List.length_cons, Memory.freePages]
      refine Machine.bind_eq_ok_iff.mpr ⟨_, hfirst, ?_⟩
      cases rest with
      | nil => rfl
      | cons second rest =>
          rw [List.length_cons] at hnum
          rw [h.next (by omega)]
          refine ih (h.count _ _ _ (h.write _ _ _ hI hlt)) ?_ (fun k idx' hk => ?_)
            (fun idx' hidx' => ?_) (List.nodup_cons.mp hnodup).2
          · rw [List.length_cons]
            omega
          · have hk' : offset + 1 + k < num := by
              have hlength := (List.getElem?_eq_some_iff.mp hk).1
              rw [List.length_cons] at hlength
              omega
            rw [getCell_setPhysDir, getCell_setCell_of_ne fun heq => by
              have hsame := h.inj _ hk' _ hlt heq
              omega]
            have hcell := hcells (k + 1) idx' hk
            rw [Nat.add_assoc, Nat.add_comm 1 k]
            exact hcell
          · have hne : idx' ≠ idx := by
              rintro rfl
              exact (List.nodup_cons.mp hnodup).1 hidx'
            obtain ⟨hpos, hcount'⟩ := hphys idx' (List.mem_cons_of_mem _ hidx')
            exact ⟨hpos, by rw [setPhysDir_of_ne _ hne, physDir_setCell]; exact hcount'⟩

/-- `free_pages` of pages that are not mapped does nothing. -/
theorem freePages_absent (h : Target put page num gfp cell I) (hI : I t)
    (hnum : offset + left ≤ num)
    (habsent : ∀ k < num, (t.getCell (cell k)).present = false) :
    Memory.freePages (page + offset * gfp.pages) left gfp t = .ok t := by
  induction left generalizing offset with
  | zero => rfl
  | succ left ih =>
      have hlt : offset < num := by omega
      have hfirst : t.freeOnePage (page + offset * gfp.pages) gfp = .ok t := by
        rw [Memory.freeOnePage, h.absent t offset hI hlt (habsent offset hlt)]
        rfl
      rw [Memory.freePages]
      refine Machine.bind_eq_ok_iff.mpr ⟨_, hfirst, ?_⟩
      cases left with
      | zero => rfl
      | succ left =>
          rw [h.next (by omega)]
          exact ih (by omega)

/-- What the loop has mapped is undone. -/
theorem undo (h : Target put page num gfp cell I) (hI : I s)
    (habsent : ∀ k < num, (s.getCell (cell k)).present = false) (hnum : idxs.length ≤ num)
    (hnodup : idxs.Nodup) (hall : ∀ idx ∈ idxs, s.Free gfp idx ∧ idx ≠ 0) :
    ∃ s', Memory.freePages page idxs.length gfp (mapAll cell gfp 0 idxs s) = .ok s' ∧
      Restored s s' := by
  have hnum' : 0 + idxs.length ≤ num := by omega
  have hfree := h.freePages (h.keep hI hnum') hnum' (fun k idx hk => getCell_mapAll h.inj hnum' hk)
    (fun idx hidx => ⟨(hall idx hidx).2, by rw [physDir_mapAll, if_pos hidx]⟩) hnodup
  rw [Nat.zero_mul, Nat.add_zero] at hfree
  refine ⟨_, hfree, ?_, ?_, ?_, fun c => ?_⟩
  · funext i
    rw [physDir_clearAll, physDir_mapAll]
    split
    next hmem => exact (hall i hmem).1.unused.symm
    next => rfl
  · rw [cr3_clearAll, cr3_mapAll]
  · rw [data_clearAll, data_mapAll]
  · by_cases hc : ∃ k < idxs.length, c = cell (0 + k)
    · obtain ⟨k, hk, rfl⟩ := hc
      refine .inr ⟨?_, ?_⟩
      · rw [Nat.zero_add]
        exact habsent k (Nat.lt_of_lt_of_le hk hnum)
      · rw [getCell_clearAll h.inj (by omega) hk]
        rfl
    · have hother : ∀ k < idxs.length, c ≠ cell (0 + k) := fun k hk heq => hc ⟨k, hk, heq⟩
      exact .inl (by rw [getCell_clearAll_of_ne hother, getCell_mapAll_of_ne hother])

end Target
end Memory
end Paging
end JkxyKernel
