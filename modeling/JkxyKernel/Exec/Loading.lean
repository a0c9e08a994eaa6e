import JkxyKernel.Exec.Arguments

/-!
# What is loaded of an executable

One round of the loop reads the header at `pos`, and there are three things that can go wrong
without anybody noticing.  An empty `LOAD` segment keeps `pos` where it is, so the headers
behind it are never read.  A size that wraps around asks for too few pages.  And where the
position is the code of the error with which seeking fails, the file is read wherever it is.

With none of the three in an executable, the round numbered `i` reads header `i`.  Each
segment then lies on pages that were not mapped before, so that the later ones leave it alone.
-/

namespace JkxyKernel
namespace Exec

open Bytes SigFrame

/-! ### One round -/

section Rounds

variable {exe : Exe} {found : Bool} {segment : Segment} {st st' : Load}

/-- The inversion lemma of a `LOAD` segment. -/
theorem loadData_cases (h : loadData exe found segment st = .ok st') :
    ∃ space data file,
      st.space.requestSmall found segment.mapaddr segment.numpages segment.writable =
        .ok (some space) ∧
      (exe.filpSeek st.file segment.fileOffset).1 = segment.fileOffset ∧
      exe.filpRead (exe.filpSeek st.file segment.fileOffset).2 segment.size =
        (segment.size, data, file) ∧
      (∀ j < data.length, space.mapped (segment.virtAddr + BitVec.ofNat 32 j) = true) ∧
      st'.space = { space with mem := store space.mem segment.virtAddr data } ∧
      st'.headers = st.headers ∧ st'.pos = st.pos := by
  simp only [loadData] at h
  obtain ⟨answer, hrequest, hrest⟩ := Machine.bind_eq_ok_iff.mp h
  cases answer with
  | none => cases hrest
  | some space =>
      simp only at hrest
      split at hrest
      next => cases hrest
      next hseek =>
        obtain ⟨space', hwrite, hend⟩ := Machine.bind_eq_ok_iff.mp hrest
        rcases hread : exe.filpRead (exe.filpSeek st.file segment.fileOffset).2 segment.size with
          ⟨res, data, file⟩
        rw [hread] at hwrite hend
        simp only at hwrite hend
        split at hend
        next => cases hend
        next hres =>
          cases hend
          simp only [Space.write] at hwrite
          split at hwrite
          next hmapped =>
            cases hwrite
            rw [not_not.mp hres]
            refine ⟨space, data, file, hrequest, not_not.mp hseek, rfl, fun j hj => ?_, rfl, rfl, rfl⟩
            exact List.all_eq_true.mp hmapped j (List.mem_range.mpr hj)
          next => cases hwrite

/-- Where the file is read: at the position that is asked for, or, when seeking fails unnoticed,
behind the header. -/
def Segment.source (segment : Segment) (behind : Word) : Word :=
  if segment.fileOffset = seekError then behind else segment.fileOffset

/-- The pages of a segment are added, and filled from the file. -/
structure Filled (exe : Exe) (segment : Segment) (behind : Word) (s s' : Space) : Prop where
  filled : ∃ found space file file' data,
    s.requestSmall found segment.mapaddr segment.numpages segment.writable = .ok (some space) ∧
    file.pos = segment.source behind ∧
    exe.filpRead file segment.size = (segment.size, data, file') ∧
    (∀ j < data.length, space.mapped (segment.virtAddr + BitVec.ofNat 32 j) = true) ∧
    s' = { space with mem := store space.mem segment.virtAddr data }

/-- What a round of the loop does with the header that it has read. -/
inductive Treated (exe : Exe) (segment : Segment) (behind : Word) (st st' : Load) : Prop
  | empty (htype : segment.type = 1) (hsize : segment.memSize = 0) (hspace : st'.space = st.space)
      (hpos : st'.pos = st.pos)
  | other (htype : segment.type ≠ 1) (hspace : st'.space = st.space) (hpos : st'.pos = st.pos + 32)
  | loaded (htype : segment.type = 1) (hsize : segment.memSize ≠ 0)
      (hspace : Filled exe segment behind st.space st'.space) (hpos : st'.pos = st.pos + 32)

theorem filled_of_loadData (h : loadData exe found segment st = .ok st') :
    Filled exe segment st.file.pos st.space st'.space := by
  obtain ⟨space, data, file, hrequest, hseek, hread, hmapped, hspace, -, -⟩ := loadData_cases h
  refine ⟨found, space, _, file, data, hrequest, ?_, hread, hmapped, hspace⟩
  rcases exe.filpSeek_cases st.file segment.fileOffset with
    ⟨-, hsmall, hok⟩ | herr
  · have hne : segment.fileOffset ≠ seekError := by
      intro heq
      rw [heq] at hsmall
      exact absurd hsmall (by decide)
    rw [hok, Segment.source, if_neg hne]
  · rw [herr] at hseek ⊢
    rw [Segment.source, if_pos hseek.symm]

theorem treated_of_loadSegment (h : loadSegment exe 32 found segment st = .ok st') :
    st'.headers = st.headers ∧ Treated exe segment st.file.pos st st' := by
  simp only [loadSegment] at h
  split at h
  next htype =>
    split at h
    next hsize =>
      cases h
      exact ⟨rfl, .empty htype hsize rfl rfl⟩
    next hsize =>
      obtain ⟨st₁, hdata, hend⟩ := Machine.bind_eq_ok_iff.mp h
      cases hend
      obtain ⟨-, -, -, -, -, -, -, -, hheaders, hpos⟩ := loadData_cases hdata
      have hfilled := filled_of_loadData hdata
      exact ⟨hheaders, .loaded htype hsize hfilled (congrArg (· + 32) hpos)⟩
  next htype =>
    split at h
    next => cases h
    next =>
      cases h
      exact ⟨rfl, .other htype rfl rfl⟩

/-- What one round can do. -/
theorem loadHeader_cases (h : loadHeader exe 32 found st = .ok st') :
    ∃ p, p.toNat + 32 ≤ exe.bytes.length ∧ (p = st.pos ∨ st.pos = seekError) ∧
      st'.headers = p :: st.headers ∧ Treated exe (exe.segmentAt p) (p + 32) st st' := by
  simp only [loadHeader] at h
  split at h
  next => cases h
  next hseek =>
    have hseek := not_not.mp hseek
    generalize hfile : (exe.filpSeek st.file st.pos).2 = file at h
    split at h
    next => cases h
    next hread =>
      obtain ⟨hle, hfull⟩ := Exe.filpRead_full (not_not.mp hread) (by decide)
      rw [hfull] at h
      obtain ⟨hheaders, htreated⟩ := treated_of_loadSegment h
      have hthirtytwo : (32 : Word).toNat = 32 := rfl
      refine ⟨file.pos, by omega, ?_, hheaders, ?_⟩
      · rcases exe.filpSeek_cases st.file st.pos with
          ⟨-, -, hok⟩ | herr
        · rw [hok] at hfile
          exact .inl (congrArg Opened.pos hfile).symm
        · rw [herr] at hseek
          exact .inr hseek.symm
      · cases htreated with
        | empty htype hsize hspace hpos => exact .empty htype hsize hspace hpos
        | other htype hspace hpos => exact .other htype hspace hpos
        | loaded htype hsize hspace hpos => exact .loaded htype hsize hspace hpos

end Rounds

/-! ### One segment -/

/-- The end of the segment is not beyond what fits into a number, counted from its first page. -/
def Segment.NoWrap (segment : Segment) : Prop :=
  segment.virtAddr.toNat % 4096 + segment.memSize.toNat ≤ 2 ^ 32

/-- The segment is in memory, as it was read. -/
structure Present (exe : Exe) (segment : Segment) (behind : Word) (s : Space) : Prop where
  complete : segment.size.toNat ≤ exe.bytes.length - (segment.source behind).toNat
  mapped : ∀ j < segment.memSize.toNat, s.mapped (segment.virtAddr + BitVec.ofNat 32 j) = true
  bytes : ∀ j < segment.memSize.toNat, s.mem (segment.virtAddr + BitVec.ofNat 32 j) =
    if j < segment.size.toNat then (exe.bytes[(segment.source behind).toNat + j]?).getD 0 else 0

/-- What was mapped is still there. -/
def Space.Keeps (s s' : Space) : Prop :=
  ∀ x, s.mapped x = true → s'.mapped x = true ∧ s'.mem x = s.mem x

section Filling

variable {exe : Exe} {segment : Segment} {behind : Word} {s s' : Space}

theorem size_le_memSize (segment : Segment) : segment.size.toNat ≤ segment.memSize.toNat := by
  simp only [Segment.size]
  split
  next => exact Nat.le_refl _
  next hge =>
    rw [BitVec.lt_def] at hge
    omega

theorem toNat_mapaddr :
    segment.mapaddr.toNat = segment.virtAddr.toNat / 4096 * 4096 := by
  have hlt := segment.virtAddr.isLt
  rw [Segment.mapaddr, BitVec.toNat_shiftLeft, BitVec.toNat_ushiftRight, Nat.shiftLeft_eq,
    Nat.shiftRight_eq_div_pow]
  omega

theorem toNat_numpages (hsize : segment.memSize ≠ 0) (hwrap : segment.NoWrap) :
    segment.numpages.toNat =
      (segment.virtAddr.toNat % 4096 + segment.memSize.toNat - 1) / 4096 + 1 := by
  have hvirt := segment.virtAddr.isLt
  have hmem := segment.memSize.isLt
  have hpos : segment.memSize.toNat ≠ 0 := fun h => hsize (BitVec.eq_of_toNat_eq h)
  have hone : (1 : Word).toNat = 1 := rfl
  simp only [Segment.NoWrap] at hwrap
  rw [Segment.numpages, BitVec.toNat_add, BitVec.toNat_ushiftRight, Nat.shiftRight_eq_div_pow,
    BitVec.toNat_sub, BitVec.toNat_sub, BitVec.toNat_add, toNat_mapaddr, hone]
  omega

/-- Where the bytes of a segment are in its pages. -/
theorem offset_in_pages {j : Nat} (h : segment.virtAddr.toNat % 4096 + j < 2 ^ 32) :
    (segment.virtAddr + BitVec.ofNat 32 j - segment.mapaddr).toNat =
      segment.virtAddr.toNat % 4096 + j := by
  have hvirt := segment.virtAddr.isLt
  rw [BitVec.toNat_sub, BitVec.toNat_add, BitVec.toNat_ofNat, toNat_mapaddr]
  omega

/-- The pages that are asked for are those of the segment, and they are few. -/
theorem pages_of_segment
    {found : Bool} {space : Space}
    (hrequest : s.requestSmall found segment.mapaddr segment.numpages segment.writable =
      .ok (some space)) (hsize : segment.memSize ≠ 0) (hwrap : segment.NoWrap) :
    segment.memSize.toNat < 2 ^ 22 ∧ ∀ j < segment.memSize.toNat,
      (segment.virtAddr + BitVec.ofNat 32 j - segment.mapaddr).toNat <
        segment.numpages.toNat * 4096 := by
  obtain ⟨-, hfit, -⟩ := Space.requestSmall_cases hrequest
  have hpages := toNat_numpages hsize hwrap
  have hsmall : segment.memSize.toNat < 2 ^ 22 := by omega
  refine ⟨hsmall, fun j hj => ?_⟩
  rw [offset_in_pages (by omega)]
  omega

theorem Filled.loading (h : Filled exe segment behind s s') (hs : s.Loading) : s'.Loading := by
  obtain ⟨found, space, file, file', data, hrequest, -, -, -, rfl⟩ := h.filled
  have hspace := hs.requestSmall hrequest
  exact ⟨hspace.kernel_iff, hspace.not_large, hspace.last⟩

/-- What the read returns is what was asked for, so it has been read. -/
theorem read_of_pages
    {found : Bool} {space : Space} {file file' : Opened} {data : List Byte}
    (hrequest : s.requestSmall found segment.mapaddr segment.numpages segment.writable =
      .ok (some space))
    (hread : exe.filpRead file segment.size = (segment.size, data, file'))
    (hsize : segment.memSize ≠ 0) (hwrap : segment.NoWrap) :
    segment.size.toNat ≤ exe.bytes.length - file.pos.toNat ∧
      data = exe.data file.pos segment.size.toNat ∧ data.length = segment.size.toNat := by
  have hsmall := (pages_of_segment hrequest hsize hwrap).1
  have hle := size_le_memSize segment
  have hres : (exe.filpRead file segment.size).1 = segment.size := congrArg Prod.fst hread
  obtain ⟨hcomplete, hfull⟩ := Exe.filpRead_full hres (by omega)
  rw [hread] at hfull
  have hdata : data = exe.data file.pos segment.size.toNat := congrArg (fun r => r.2.1) hfull
  refine ⟨hcomplete, hdata, ?_⟩
  rw [hdata, Exe.length_data]
  omega

/-- The pages are new, so nothing else changes. -/
theorem Filled.keeps
    (h : Filled exe segment behind s s') (hsize : segment.memSize ≠ 0) (hwrap : segment.NoWrap) :
    s.Keeps s' := by
  obtain ⟨found, space, file, file', data, hrequest, -, hread, -, rfl⟩ := h.filled
  have hadded := Space.added_requestSmall hrequest
  obtain ⟨-, hpages⟩ := pages_of_segment hrequest hsize hwrap
  obtain ⟨-, -, hlength⟩ := read_of_pages hrequest hread hsize hwrap
  have hle := size_le_memSize segment
  intro x hx
  refine ⟨(hadded.mapped_iff x).mpr (.inl hx), ?_⟩
  have hold : ¬ (x - segment.mapaddr).toNat < segment.numpages.toNat * 4096 := fun hin =>
    Bool.false_ne_true ((hadded.fresh x hin).symm.trans hx)
  have hout : data.length ≤ (x - segment.virtAddr).toNat := by
    by_contra hin
    have hpage := hpages (x - segment.virtAddr).toNat (by omega)
    rw [BitVec.ofNat_toNat, BitVec.setWidth_eq, BitVec.add_comm, BitVec.sub_add_cancel] at hpage
    exact hold hpage
  simp only [store, List.getElem?_eq_none hout, Option.getD_none]
  rw [hadded.mem_eq]
  exact if_neg hold

theorem Filled.present
    (h : Filled exe segment behind s s') (hsize : segment.memSize ≠ 0) (hwrap : segment.NoWrap) :
    Present exe segment behind s' := by
  obtain ⟨found, space, file, file', data, hrequest, hsource, hread, -, rfl⟩ := h.filled
  have hadded := Space.added_requestSmall hrequest
  obtain ⟨hsmall, hpages⟩ := pages_of_segment hrequest hsize hwrap
  obtain ⟨hcomplete, hdata, hlength⟩ := read_of_pages hrequest hread hsize hwrap
  rw [hsource] at hcomplete hdata
  refine ⟨hcomplete, fun j hj => (hadded.mapped_iff _).mpr (.inr (hpages j hj)), fun j hj => ?_⟩
  simp only [store]
  rw [sub_toNat_of_lt (by omega)]
  split
  next hin =>
    rw [hdata, Exe.getElem?_data hin]
    rw [List.getElem?_eq_getElem (by omega)]
    rfl
  next hout =>
    rw [List.getElem?_eq_none (by omega), Option.getD_none, hadded.mem_eq]
    exact if_pos (hpages j hj)

theorem Present.keeps (h : Present exe segment behind s) (hkeep : s.Keeps s') :
    Present exe segment behind s' :=
  ⟨h.complete, fun j hj => (hkeep _ (h.mapped j hj)).1, fun j hj => by
    rw [(hkeep _ (h.mapped j hj)).2, h.bytes j hj]⟩

end Filling

end Exec
end JkxyKernel
