import JkxyKernel.Exec.Loading

/-!
# The segments of a program that was started

The invariants of the loop, and what is there of the segments at the end.  The stack has its
own page and cannot grow out of it, so setting it up leaves the segments alone.
-/

namespace JkxyKernel
namespace Exec

open Bytes SigFrame

/-- Where the program header is. -/
def ElfHeader.headerPos (header : ElfHeader) (i : Nat) : Word :=
  header.segmentPos + BitVec.ofNat 32 i * header.segmentEntrySize.setWidth 32

/-- `segment_entry_num` -/
def ElfHeader.num (header : ElfHeader) : Nat := header.segmentEntryNum.toNat

/-- The program header with the index. -/
def Exe.segment (exe : Exe) (header : ElfHeader) (i : Nat) : Segment :=
  exe.segmentAt (header.headerPos i)

/-- A `LOAD` segment that is not empty. -/
def Segment.Loads (segment : Segment) : Prop := segment.type = 1 ∧ segment.memSize ≠ 0

/-- What should be at an offset in the segment: what is in the file there, or zero. -/
def Segment.content (segment : Segment) (exe : Exe) (j : Nat) : Option Byte :=
  if j < segment.size.toNat then exe.bytes[segment.fileOffset.toNat + j]? else some 0

/-- Every header has been read, and every segment is in memory. -/
structure SegmentsLoaded (exe : Exe) (header : ElfHeader) (headers : List Word) (s : Space) :
    Prop where
  processed : ∀ i < header.num, header.headerPos i ∈ headers
  loaded : ∀ i < header.num, (exe.segment header i).Loads →
    ∀ j < (exe.segment header i).memSize.toNat, ∃ b,
      (exe.segment header i).content exe j = some b ∧
      s.byte? ((exe.segment header i).virtAddr + BitVec.ofNat 32 j) = some b

/-- The rounds of the loop keep step with the headers, and no size wraps around. -/
structure Regular (exe : Exe) (header : ElfHeader) : Prop where
  nonempty : ∀ i, i + 1 < header.num → (exe.segment header i).type = 1 →
    (exe.segment header i).memSize ≠ 0
  noWrap : ∀ i < header.num, (exe.segment header i).Loads → (exe.segment header i).NoWrap
  seeks : ∀ i < header.num, header.headerPos i ≠ seekError

/-- The loop does what it is meant to do with the executable: no `LOAD` segment but the last
is empty, no size wraps around, and no header and no data lies where the code of the error is
the position, unless the file has the same bytes behind the header. -/
structure Loadable (exe : Exe) (header : ElfHeader) : Prop extends Regular exe header where
  sources : ∀ i < header.num, (exe.segment header i).Loads →
    ∀ j < (exe.segment header i).size.toNat,
      exe.bytes[((exe.segment header i).source (header.headerPos i + 32)).toNat + j]? =
        exe.bytes[(exe.segment header i).fileOffset.toNat + j]?

section Runs

variable {exe : Exe} {header : ElfHeader} {frames : Nat → Bool} {start st st' : Load} {i j n : Nat}
  {found : Bool}

theorem headerPos_zero : header.headerPos 0 = header.segmentPos := by
  simp [ElfHeader.headerPos]

theorem headerPos_succ (hsize : header.segmentEntrySize.setWidth 32 = (32 : Word)) :
    header.headerPos (i + 1) = header.headerPos i + 32 := by
  simp only [ElfHeader.headerPos, hsize, BitVec.ofNat_add]
  rw [BitVec.add_mul, BitVec.one_mul, BitVec.add_assoc]

theorem headerPos_inj
    (hsize : header.segmentEntrySize.setWidth 32 = (32 : Word)) (hi : i < 2 ^ 16) (hj : j < 2 ^ 16)
    (h : header.headerPos i = header.headerPos j) : i = j := by
  have hthirtytwo : (32 : Word).toNat = 32 := rfl
  simp only [ElfHeader.headerPos, hsize] at h
  have hnat := congrArg BitVec.toNat ((BitVec.add_right_inj _).mp h)
  rw [BitVec.toNat_mul, BitVec.toNat_mul, BitVec.toNat_ofNat, BitVec.toNat_ofNat,
    hthirtytwo] at hnat
  omega

/-- What every round preserves holds after the loop. -/
theorem loadHeaders_rule {P : Nat → Load → Prop}
    (hstart : P 0 start)
    (hstep : ∀ i st st', i < n → P i st → loadHeader exe 32 (frames i) st = .ok st' → P (i + 1) st')
    (hi : i ≤ n) (h : loadHeaders exe frames 32 start i = .ok st) : P i st := by
  induction i generalizing st with
  | zero =>
      cases h
      exact hstart
  | succ i ih =>
      obtain ⟨st₀, hst₀, hround⟩ := Machine.bind_eq_ok_iff.mp h
      exact hstep i st₀ st hi (ih (Nat.le_of_succ_le hi) hst₀) hround

/-! ### What holds of every executable -/

/-- The directory is that of a program that is loaded, and the headers were in the file. -/
structure Underway (exe : Exe) (st : Load) : Prop where
  loading : st.space.Loading
  fits : ∀ p ∈ st.headers, p.toNat + 32 ≤ exe.bytes.length

theorem Underway.round
    (hst : Underway exe st) (h : loadHeader exe 32 found st = .ok st') : Underway exe st' := by
  obtain ⟨p, hfits, -, hheaders, htreated⟩ := loadHeader_cases h
  refine ⟨?_, fun q hq => ?_⟩
  · cases htreated with
    | empty _ _ hspace _ => exact hspace ▸ hst.loading
    | other _ hspace _ => exact hspace ▸ hst.loading
    | loaded _ _ hfilled _ => exact hfilled.loading hst.loading
  · rw [hheaders] at hq
    rcases List.mem_cons.mp hq with rfl | hq
    · exact hfits
    · exact hst.fits q hq

/-! ### Executables that keep step -/

/-- After `i` rounds the first `i` headers have been treated. -/
structure Synced (exe : Exe) (header : ElfHeader) (i : Nat) (st : Load) : Prop where
  pos : i < header.num → st.pos = header.headerPos i
  headers : ∀ j < i, header.headerPos j ∈ st.headers
  segments : ∀ j < i, (exe.segment header j).Loads →
    Present exe (exe.segment header j) (header.headerPos j + 32) st.space

theorem Synced.round
    (hregular : Regular exe header) (hsize : header.segmentEntrySize.setWidth 32 = (32 : Word))
    (hi : i < header.num) (hst : Synced exe header i st)
    (h : loadHeader exe 32 found st = .ok st') : Synced exe header (i + 1) st' := by
  obtain ⟨p, -, hp, hheaders, htreated⟩ := loadHeader_cases h
  have hpos := hst.pos hi
  obtain rfl : p = header.headerPos i := by
    rcases hp with hp | herr
    · exact hp.trans hpos
    · exact absurd (hpos.symm.trans herr) (hregular.seeks i hi)
  have hread : ∀ j < i + 1, header.headerPos j ∈ st'.headers := by
    intro j hj
    rw [hheaders]
    rcases Nat.lt_succ_iff_lt_or_eq.mp hj with hj | rfl
    · exact List.mem_cons_of_mem _ (hst.headers j hj)
    · exact List.mem_cons_self
  -- The segments that were there before, and the one of this round.
  have hsegments : st.space.Keeps st'.space →
      ((exe.segment header i).Loads →
        Present exe (exe.segment header i) (header.headerPos i + 32) st'.space) →
      ∀ j < i + 1, (exe.segment header j).Loads →
        Present exe (exe.segment header j) (header.headerPos j + 32) st'.space := by
    intro hkeep hlast j hj hloads
    rcases Nat.lt_succ_iff_lt_or_eq.mp hj with hj | rfl
    · exact (hst.segments j hj hloads).keeps hkeep
    · exact hlast hloads
  cases htreated with
  | empty htype hzero hspace _ =>
      refine ⟨fun hlt => absurd hzero (hregular.nonempty i hlt htype), hread, hsegments ?_ ?_⟩
      · rw [hspace]
        exact fun x hx => ⟨hx, rfl⟩
      · exact fun hloads => absurd hzero hloads.2
  | other htype hspace hnext =>
      refine ⟨fun _ => ?_, hread, hsegments ?_ ?_⟩
      · rw [hnext, hpos, headerPos_succ hsize]
      · rw [hspace]
        exact fun x hx => ⟨hx, rfl⟩
      · exact fun hloads => absurd hloads.1 htype
  | loaded htype hne hfilled hnext =>
      have hwrap := hregular.noWrap i hi ⟨htype, hne⟩
      refine ⟨fun _ => ?_, hread, hsegments (hfilled.keeps hne hwrap) fun _ => ?_⟩
      · rw [hnext, hpos, headerPos_succ hsize]
      · exact hfilled.present hne hwrap

/-! ### Executables that do not -/

/-- The loop does not get past the header of an empty segment. -/
structure Stuck (header : ElfHeader) (last : Nat) (st : Load) : Prop where
  pos : ∃ j ≤ last, st.pos = header.headerPos j
  headers : ∀ p ∈ st.headers, ∃ j ≤ last, p = header.headerPos j

theorem Stuck.round {last : Nat}
    (hseeks : ∀ i < header.num, header.headerPos i ≠ seekError)
    (hsize : header.segmentEntrySize.setWidth 32 = (32 : Word)) (hlast : last < header.num)
    (htype : (exe.segment header last).type = 1) (hzero : (exe.segment header last).memSize = 0)
    (hst : Stuck header last st) (h : loadHeader exe 32 found st = .ok st') :
    Stuck header last st' := by
  obtain ⟨p, -, hp, hheaders, htreated⟩ := loadHeader_cases h
  obtain ⟨j, hj, hpos⟩ := hst.pos
  obtain rfl : p = header.headerPos j := by
    rcases hp with hp | herr
    · exact hp.trans hpos
    · exact absurd (hpos.symm.trans herr) (hseeks j (by omega))
  have hread : ∀ p ∈ st'.headers, ∃ j ≤ last, p = header.headerPos j := by
    intro q hq
    rw [hheaders] at hq
    rcases List.mem_cons.mp hq with rfl | hq
    · exact ⟨j, hj, rfl⟩
    · exact hst.headers q hq
  have hmoves : st'.pos = st.pos + 32 → j ≠ last → ∃ j ≤ last, st'.pos = header.headerPos j := by
    intro hnext hne
    exact ⟨j + 1, by omega, by rw [hnext, hpos, headerPos_succ hsize]⟩
  cases htreated with
  | empty _ _ _ hsame => exact ⟨⟨j, hj, hsame.trans hpos⟩, hread⟩
  | other hother _ hnext =>
      refine ⟨hmoves hnext ?_, hread⟩
      rintro rfl
      exact hother htype
  | loaded _ hne _ hnext =>
      refine ⟨hmoves hnext ?_, hread⟩
      rintro rfl
      exact hne hzero

end Runs

/-! ### The end -/

section Starting

variable {env : Env} {argv envp : Option (List CString)} {k k' : Kernel} {exe : Exe}
  {header : ElfHeader} {file : Opened} {program : Started} {headers : List Word}

theorem entrySize_of_check {subsystem : JkxyKernel.Task.Subsystem}
    (h : check env exe = .ok (header, subsystem, file)) :
    header.segmentEntrySize.setWidth 32 = (32 : Word) := by
  obtain ⟨file₀, file₁, hdecode⟩ := decodeElf_of_check h
  have haccepts := accepts_of_decodeElf hdecode
  rw [Exe.accepts, Bool.and_eq_true, beq_iff_eq] at haccepts
  rw [haccepts.2]
  rfl

/-- The stack's page is a new one, and the page below it is not mapped. -/
theorem guarded_stack {s : Space} (hs : s.Loading) (u : User)
    (hu : u.addrIsSafe = (s.mapLarge stackPage 1 true).addrIsSafe) : Guarded u := by
  refine ⟨fun a b hab => ?_, ?_⟩
  · rw [hu, Space.addrIsSafe_by_page hab]
  · have hdir : pageDirIdx (stackPage - 1) ≠ pageDirIdx stackPage := by decide
    rw [hu, Space.addrIsSafe_mapLarge, if_neg hdir, ← Bool.not_eq_true]
    intro hsafe
    have hmapped := Space.mapped_of_safe hsafe
    rw [hs.mapped_last (by decide)] at hmapped
    exact Bool.false_ne_true hmapped

/-- What the loop has loaded is still there when the stack has been set up. -/
theorem startLinux_keeps
    (hsize : header.segmentEntrySize.setWidth 32 = (32 : Word))
    (h : startLinux env exe header file argv envp = .ok program) :
    ∃ st, loadHeaders exe env.frames 32
        { space := newDirectory env.mem, file := file, pos := header.segmentPos, brk := 0
          fileHdraddr := 0, headers := [] } header.num = .ok st ∧
      program.headers = st.headers ∧ Underway exe st ∧ st.space.Keeps program.mm.space ∧
      ∀ x, pageDirIdx x < 2 → program.mm.space.mapped x = false := by
  obtain ⟨st, space, u, hst, hrequest, hu, rfl⟩ := startLinux_cases h
  obtain ⟨haligned, habsent, rfl⟩ := Space.requestLarge_cases hrequest
  rw [hsize] at hst
  have hunderway : Underway exe st := by
    refine loadHeaders_rule (n := header.num) (P := fun _ => Underway exe)
      ⟨Space.loading_newDirectory _, fun p hp => absurd hp List.not_mem_nil⟩
      (fun i st st' _ hi hround => hi.round hround) (Nat.le_refl _) hst
  have hguard := guarded_stack hunderway.loading
    (emptyStack header (st.space.mapLarge stackPage 1 true)) rfl
  have hconfined : Confined (emptyStack header (st.space.mapLarge stackPage 1 true)) u := by
    rw [hu]
    refine Confined.setupStack hguard ⟨rfl, ?_, ?_, fun _ _ => rfl⟩
    · rw [emptyStack_esp]
      decide
    · rw [emptyStack_esp]
      decide
  refine ⟨st, hst, rfl, hunderway, fun x hx => ?_, fun x hx => ?_⟩
  · have hne : pageDirIdx x ≠ pageDirIdx stackPage := by
      intro heq
      simp only [Space.mapped, heq, habsent] at hx
      cases hx
    have hout : x.toNat < stackPage.toNat ∨ 2 ^ 31 ≤ x.toNat := by
      by_contra hin
      rw [not_or, Nat.not_lt, Nat.not_le] at hin
      exact hne (stackPage_range.mpr hin)
    refine ⟨?_, ?_⟩
    · rw [Space.mapped_setMem, Space.mapped_mapLarge, if_neg hne, hx]
    · have hkept : u.mem x = st.space.mem x := by
        rw [hconfined.mem_eq x hout, emptyStack_mem, Space.mem_mapLarge_of_ne haligned hne]
      exact hkept
  · have hne : pageDirIdx x ≠ pageDirIdx stackPage := by
      have hstack : pageDirIdx stackPage = 511 := rfl
      omega
    rw [Space.mapped_setMem, Space.mapped_mapLarge, if_neg hne, hunderway.loading.mapped_kernel hx]

variable {st : Load}

theorem synced_of_regular
    (hregular : Regular exe header) (hsize : header.segmentEntrySize.setWidth 32 = (32 : Word))
    (hst : loadHeaders exe env.frames 32 { space := newDirectory env.mem, file := file
                                           pos := header.segmentPos, brk := 0, fileHdraddr := 0
                                           headers := [] } header.num = .ok st) :
    Synced exe header header.num st := by
  refine loadHeaders_rule (n := header.num) ⟨fun _ => headerPos_zero.symm, ?_, ?_⟩
    (fun i st st' hi hsynced hround => hsynced.round hregular hsize hi hround) (Nat.le_refl _) hst
  · exact fun j hj => absurd hj (Nat.not_lt_zero j)
  · exact fun j hj => absurd hj (Nat.not_lt_zero j)

theorem stuck_of_empty {last : Nat}
    (hseeks : ∀ i < header.num, header.headerPos i ≠ seekError)
    (hsize : header.segmentEntrySize.setWidth 32 = (32 : Word)) (hlast : last < header.num)
    (htype : (exe.segment header last).type = 1) (hzero : (exe.segment header last).memSize = 0)
    (hst : loadHeaders exe env.frames 32 { space := newDirectory env.mem, file := file
                                           pos := header.segmentPos, brk := 0, fileHdraddr := 0
                                           headers := [] } header.num = .ok st) :
    Stuck header last st := by
  refine loadHeaders_rule (n := header.num) (P := fun _ => Stuck header last)
    ⟨⟨0, Nat.zero_le _, headerPos_zero.symm⟩, fun p hp => absurd hp List.not_mem_nil⟩
    (fun i st st' _ hstuck hround => hstuck.round hseeks hsize hlast htype hzero hround)
    (Nat.le_refl _) hst

/-- A header cannot have been read so far behind in the file. -/
theorem seeks_of_processed
    (hfits : ∀ p ∈ headers, p.toNat + 32 ≤ exe.bytes.length)
    (hprocessed : ∀ i < header.num, header.headerPos i ∈ headers) :
    ∀ i < header.num, header.headerPos i ≠ seekError := by
  intro i hi heq
  have hfit := hfits _ (hprocessed i hi)
  have herror : seekError.toNat = 4294967274 := rfl
  have hlt := exe.size_lt
  rw [heq] at hfit
  omega

/-- A segment that wraps around goes over the kernel. -/
theorem noWrap_of_mapped {segment : Segment} {s : Space}
    (hkernel : ∀ x, pageDirIdx x < 2 → s.mapped x = false)
    (hmapped : ∀ j < segment.memSize.toNat,
      s.mapped (segment.virtAddr + BitVec.ofNat 32 j) = true) : segment.NoWrap := by
  by_contra hwrap
  rw [Segment.NoWrap, Nat.not_le] at hwrap
  have hvirt := segment.virtAddr.isLt
  -- One of two kernel addresses is in the segment.
  have hreach : ∀ {a : Addr}, pageDirIdx a < 2 →
      ¬ (a - segment.virtAddr).toNat < segment.memSize.toNat := by
    intro a ha hin
    have hthere := hmapped _ hin
    rw [BitVec.ofNat_toNat, BitVec.setWidth_eq, BitVec.add_comm, BitVec.sub_add_cancel,
      hkernel a ha] at hthere
    exact Bool.false_ne_true hthere
  have hfirst := hreach (a := 0) (by decide)
  have hsecond := hreach (a := 0x400000) (by decide)
  rw [BitVec.toNat_sub] at hfirst hsecond
  have hzero : (0 : Addr).toNat = 0 := rfl
  have hlow : (0x400000 : Addr).toNat = 4194304 := rfl
  omega

theorem byte?_eq_some {s : Space} {x : Addr} {b : Byte} :
    s.byte? x = some b ↔ s.mapped x = true ∧ s.mem x = b := by
  simp only [Space.byte?]
  split
  next h => simp only [h, true_and, Option.some_inj]
  next h => exact iff_of_false nofun fun hb => h hb.1

/-- A segment that is present holds what it should if it was read from the right place. -/
theorem loaded_iff_of_present {segment : Segment} {behind : Word} {s : Space}
    (h : Present exe segment behind s) :
    (∀ j < segment.memSize.toNat, ∃ b, segment.content exe j = some b ∧
      s.byte? (segment.virtAddr + BitVec.ofNat 32 j) = some b) ↔
    ∀ j < segment.size.toNat, exe.bytes[(segment.source behind).toNat + j]? =
      exe.bytes[segment.fileOffset.toNat + j]? := by
  have hcomplete := h.complete
  have hread : ∀ j < segment.size.toNat, ∃ c,
      exe.bytes[(segment.source behind).toNat + j]? = some c ∧
      s.byte? (segment.virtAddr + BitVec.ofNat 32 j) = some c := by
    intro j hj
    have hmem := hj.trans_le (size_le_memSize _)
    have hbyte := h.bytes j hmem
    have hin : (segment.source behind).toNat + j < exe.bytes.length := by omega
    rw [if_pos hj, List.getElem?_eq_getElem hin] at hbyte
    exact ⟨_, List.getElem?_eq_getElem hin, byte?_eq_some.mpr ⟨h.mapped j hmem, hbyte⟩⟩
  constructor
  · intro hloaded j hj
    obtain ⟨c, hc, hthere⟩ := hread j hj
    obtain ⟨b, hb, hbyte⟩ := hloaded j (hj.trans_le (size_le_memSize _))
    rw [Segment.content, if_pos hj] at hb
    rw [hthere] at hbyte
    rw [hc, hb, hbyte]
  · intro hsource j hj
    simp only [Segment.content]
    split
    next hin =>
      obtain ⟨c, hc, hthere⟩ := hread j hin
      exact ⟨c, (hsource j hin).symm.trans hc, hthere⟩
    next hout =>
      have hbyte := h.bytes j hj
      rw [if_neg hout] at hbyte
      exact ⟨0, rfl, byte?_eq_some.mpr ⟨h.mapped j hj, hbyte⟩⟩

theorem segmentsLoaded_iff
    (hsize : header.segmentEntrySize.setWidth 32 = (32 : Word))
    (h : startLinux env exe header file argv envp = .ok program) :
    SegmentsLoaded exe header program.headers program.mm.space ↔ Loadable exe header := by
  obtain ⟨st, hst, hheaders, hunderway, hkeep, hkernel⟩ := startLinux_keeps hsize h
  rw [hheaders]
  have hpresent : Regular exe header → ∀ i < header.num, (exe.segment header i).Loads →
      Present exe (exe.segment header i) (header.headerPos i + 32) program.mm.space :=
    fun hregular i hi hloads =>
      ((synced_of_regular hregular hsize hst).segments i hi hloads).keeps hkeep
  constructor
  · intro hloaded
    have hseeks := seeks_of_processed hunderway.fits hloaded.processed
    have hregular : Regular exe header := by
      refine ⟨fun i hi htype hzero => ?_, fun i hi hloads => ?_, hseeks⟩
      · have hstuck := stuck_of_empty hseeks hsize (by omega) htype hzero hst
        obtain ⟨j, hj, hsame⟩ := hstuck.headers _ (hloaded.processed (header.num - 1) (by omega))
        have hnum : header.num < 2 ^ 16 := header.segmentEntryNum.isLt
        have heq := headerPos_inj hsize (by omega) (by omega) hsame
        omega
      · refine noWrap_of_mapped hkernel fun j hj => ?_
        obtain ⟨b, -, hb⟩ := hloaded.loaded i hi hloads j hj
        exact (byte?_eq_some.mp hb).1
    refine ⟨hregular, fun i hi hloads => ?_⟩
    exact (loaded_iff_of_present (hpresent hregular i hi hloads)).mp (hloaded.loaded i hi hloads)
  · intro hloadable
    refine ⟨(synced_of_regular hloadable.toRegular hsize hst).headers, fun i hi hloads => ?_⟩
    exact (loaded_iff_of_present (hpresent hloadable.toRegular i hi hloads)).mpr
      (hloadable.sources i hi hloads)

/-- **Loaded segments.**  For every executable that `do_execve` accepts for the Linux subsystem
and starts without `SIGSEGV`: every program header has been read, and every `LOAD` segment that
is not empty holds its part of the file, and zeros behind it, if and only if the executable is
one that the loop is right about. -/
theorem segments_loaded_iff
    (h : doExecve env argv envp k = .returned 0 k' headers)
    (hlinux : k'.task.subsystem = .linux) :
    ∃ exe header file mm, env.openExe = .ok exe ∧
      check env exe = .ok (header, .linux, file) ∧ k'.task.mm = some mm ∧
      (SegmentsLoaded exe header headers mm.space ↔ Loadable exe header) := by
  obtain ⟨exe, header, file, program, hexe, hcheck, hstart, -, hmm, rfl⟩ := doExecve_linux h hlinux
  exact ⟨exe, header, file, program.mm, hexe, hcheck, hmm,
    segmentsLoaded_iff (entrySize_of_check hcheck) hstart⟩

end Starting

/-- An executable whose one segment is the file, with zeros behind it. -/
def oneSegmentExe : Exe :=
  Exe.inMemory (elfBytes [[1, 0, 0x08048000, 0, 84, 100, 7, 4096]]) (by decide)

theorem loadable_oneSegment :
    Loadable oneSegmentExe (ElfHeader.ofBytes oneSegmentExe.bytes) := by
  have hone : ∀ i < (ElfHeader.ofBytes oneSegmentExe.bytes).num, i = 0 := by decide
  refine ⟨⟨fun i hi => ?_, fun i hi _ => ?_, fun i hi => ?_⟩, fun i hi _ j _ => ?_⟩
  · exact absurd (hone (i + 1) hi) (Nat.succ_ne_zero i)
  · rw [hone i hi, Segment.NoWrap]
    decide
  · rw [hone i hi]
    decide
  · rw [hone i hi]
    rfl

theorem segments_loaded_iff_oneSegment :
    ∃ k' mm, doExecve (smallEnv oneSegmentExe) none none smallKernel = .returned 0 k' [52] ∧
      k'.task.mm = some mm ∧
      SegmentsLoaded oneSegmentExe (ElfHeader.ofBytes oneSegmentExe.bytes) [52] mm.space := by
  obtain ⟨k', h, hlinux⟩ : ∃ k', doExecve (smallEnv oneSegmentExe) none none smallKernel =
      .returned 0 k' [52] ∧ k'.task.subsystem = .linux := ⟨_, rfl, rfl⟩
  have hchecked : check (smallEnv oneSegmentExe) oneSegmentExe =
      .ok (ElfHeader.ofBytes oneSegmentExe.bytes, .linux, ⟨0, 2⟩) := by decide
  obtain ⟨exe, header, file, mm, hexe, hcheck, hmm, hiff⟩ := segments_loaded_iff h hlinux
  obtain rfl : oneSegmentExe = exe := Except.ok.inj hexe
  rw [hchecked] at hcheck
  cases hcheck
  exact ⟨k', mm, h, hmm, hiff.mpr loadable_oneSegment⟩

/-- Behind an empty `LOAD` segment there is another. -/
def emptySegmentExe : Exe :=
  Exe.inMemory (elfBytes [[1, 0, 0, 0, 0, 0, 7, 4096], [1, 0, 0x08048000, 0, 10, 10, 7, 4096]])
    (by decide)

set_option maxRecDepth 2000 in
/-- The header of the empty segment is read twice, and the other's never. -/
theorem empty_segment_read_twice :
    ∃ k' mm, doExecve (smallEnv emptySegmentExe) none none smallKernel =
        .returned 0 k' [52, 52] ∧ k'.task.subsystem = .linux ∧ k'.task.mm = some mm ∧
      ¬ SegmentsLoaded emptySegmentExe (ElfHeader.ofBytes emptySegmentExe.bytes) [52, 52]
        mm.space := by
  obtain ⟨k', h, hlinux⟩ : ∃ k', doExecve (smallEnv emptySegmentExe) none none smallKernel =
      .returned 0 k' [52, 52] ∧ k'.task.subsystem = .linux := ⟨_, rfl, rfl⟩
  obtain ⟨-, -, -, program, -, -, -, -, hmm, -⟩ := doExecve_linux h hlinux
  exact ⟨k', program.mm, h, hlinux, hmm, fun hloaded =>
    absurd (hloaded.processed 1 (by decide)) (by decide)⟩

end Exec
end JkxyKernel
