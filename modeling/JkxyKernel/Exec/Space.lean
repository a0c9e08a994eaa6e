import JkxyKernel.Lib.Bytes
import Mathlib.Logic.Function.Basic

/-!
# The address space of a new program

`do_execve` starts with a page directory that maps the kernel only, and `request_pages` adds
the pages of the process to it.  Memory is looked at under its virtual addresses: a page that
is handed out is not mapped before, and its frame belongs to nobody else.  Of `alloc_phys_mem`
remains whether it finds the frames.

`request_pages` refuses small pages when the page behind them lies in another page table.  So
the last page of a page table is never mapped, and no access goes over the edge.
-/

namespace JkxyKernel
namespace Exec

open Bytes

/-- What keeps `do_execve` from coming to its end. -/
inductive Stop
  | sigsegv
  /-- The kernel touches memory that is not mapped, or not meant. -/
  | fault
  deriving DecidableEq, Repr

/-- `PAGE_DIR_IDX` -/
def pageDirIdx (addr : Addr) : Nat := addr.toNat / 2 ^ 22

/-- `PAGE_TABLE_IDX` -/
def pageTableIdx (addr : Addr) : Nat := addr.toNat / 4096 % 1024

/-- An entry of the page directory. -/
inductive DirEntry
  | absent
  | kernel
  /-- A page table.  Its entries say whether the page is present, and whether it is `rw`. -/
  | table (entries : Nat → Option Bool)
  | large (rw : Bool)

def DirEntry.present : DirEntry → Bool
  | .absent => false
  | _ => true

structure Space where
  directory : Nat → DirEntry
  mem : Mem

/-- What `new_directory` copies from `init_page_directory`, over whatever memory holds. -/
def newDirectory (mem : Mem) : Space where
  directory d := if d < 2 ∨ 768 ≤ d then .kernel else .absent
  mem := mem

namespace Space

variable (s : Space)

/-- The process has a page there. -/
def mapped (addr : Addr) : Bool :=
  match s.directory (pageDirIdx addr) with
  | .absent | .kernel => false
  | .table entries => (entries (pageTableIdx addr)).isSome
  | .large _ => true

/-- `addr_is_safe`.  It asks whether the page table can be written, which holds of all of them. -/
def addrIsSafe (addr : Addr) (write : Bool) : Bool :=
  match s.directory (pageDirIdx addr) with
  | .absent | .kernel => false
  | .table entries => (entries (pageTableIdx addr)).isSome
  | .large rw => !write || rw

/-- What the process finds at an address. -/
def byte? (addr : Addr) : Option Byte := if s.mapped addr then some (s.mem addr) else none

/-- Zeros in a range of memory. -/
def cleared (page : Addr) (n : Nat) : Mem := fun x => if (x - page).toNat < n then 0 else s.mem x

/-- The small pages are entered in a page table, and cleared. -/
def mapSmall (entries : Nat → Option Bool) (page num : Word) (rw : Bool) : Space where
  directory := Function.update s.directory (pageDirIdx page) (.table fun i =>
    if pageTableIdx page ≤ i ∧ i < pageTableIdx page + num.toNat then some rw else entries i)
  mem := s.cleared page (num.toNat * 4096)

/-- The large pages are entered in the directory, and cleared. -/
def mapLarge (page num : Word) (rw : Bool) : Space where
  directory d :=
    if pageDirIdx page ≤ d ∧ d < pageDirIdx page + num.toNat then .large rw else s.directory d
  mem := s.cleared page (num.toNat * 2 ^ 22)

/-- `request_pages(page, num, GFP_USER)`; `none` is `NULL`. -/
def requestSmall (frames : Bool) (page num : Word) (rw : Bool) : Except Stop (Option Space) :=
  if page.toNat % 4096 ≠ 0 then .ok none
  else if pageDirIdx page ≠ pageDirIdx (page + num * 4096) then .ok none
  else
    match s.directory (pageDirIdx page) with
    | .kernel => .ok none
    | .large _ => .error .fault
    | .table entries =>
        if (List.range num.toNat).any fun offset =>
            pageTableIdx page + offset < 1024 && (entries (pageTableIdx page + offset)).isSome then
          .ok none
        else if 1024 < pageTableIdx page + num.toNat then .error .fault
        else if !frames then .ok none
        else .ok (some (s.mapSmall entries page num rw))
    | .absent =>
        if !frames then .ok none
        else if 1024 < pageTableIdx page + num.toNat then .error .fault
        else .ok (some (s.mapSmall (fun _ => none) page num rw))

/-- `request_pages(page, num, GFP_USER | GFP_LARGE)` -/
def requestLarge (frames : Bool) (page num : Word) (rw : Bool) : Except Stop (Option Space) :=
  if page.toNat % 2 ^ 22 ≠ 0 then .ok none
  else if 1024 < num.toNat then .ok none
  else if (List.range num.toNat).any fun offset =>
      pageDirIdx page + offset < 1024 && (s.directory (pageDirIdx page + offset)).present then
    .ok none
  else if 1024 < pageDirIdx page + num.toNat then .error .fault
  else if !frames then .ok none
  else .ok (some (s.mapLarge page num rw))

/-! ### What a request leaves -/

/-- Some pages have been added, none of which was there, and they are zero. -/
structure Added (s s' : Space) (page : Addr) (n : Nat) : Prop where
  fresh : ∀ x, (x - page).toNat < n → s.mapped x = false
  mapped_iff : ∀ x, s'.mapped x = true ↔ s.mapped x = true ∨ (x - page).toNat < n
  mem_eq : s'.mem = s.cleared page n

/-- The directory while segments are loaded: the kernel's entries are where they were, and the
others are page tables, without their last page. -/
structure Loading (s : Space) : Prop where
  kernel_iff : ∀ d, s.directory d = .kernel ↔ d < 2 ∨ 768 ≤ d
  not_large : ∀ d rw, s.directory d ≠ .large rw
  last : ∀ d entries, s.directory d = .table entries → entries 1023 = none

section Requests

variable {s s' : Space} {frames rw : Bool} {page num : Word} {x : Addr}

/-- What is mapped does not depend on what is there. -/
theorem mapped_setMem (m : Mem) : mapped { s with mem := m } x = s.mapped x := rfl

theorem loading_newDirectory (mem : Mem) : Loading (newDirectory mem) where
  kernel_iff d := by
    simp only [newDirectory]
    split
    next h => exact iff_of_true rfl h
    next h => exact iff_of_false nofun h
  not_large d rw := by
    simp only [newDirectory]
    split <;> exact nofun
  last d entries h := by
    simp only [newDirectory] at h
    split at h <;> cases h

theorem pages_range {n : Nat} (hpage : page.toNat % 4096 = 0)
    (hfit : pageTableIdx page + n ≤ 1024) :
    (x - page).toNat < n * 4096 ↔ pageDirIdx x = pageDirIdx page ∧
      pageTableIdx page ≤ pageTableIdx x ∧ pageTableIdx x < pageTableIdx page + n := by
  have hx := x.isLt
  have hp := page.isLt
  simp only [pageDirIdx, pageTableIdx, BitVec.toNat_sub] at hfit ⊢
  omega

/-- The page behind the last one is in the same page table. -/
theorem pages_fit
    (hpage : page.toNat % 4096 = 0) (hedge : pageDirIdx page = pageDirIdx (page + num * 4096))
    (hfit : pageTableIdx page + num.toNat ≤ 1024) : pageTableIdx page + num.toNat < 1024 := by
  have hp := page.isLt
  have hbytes : (num * 4096).toNat = num.toNat * 4096 % 2 ^ 32 := BitVec.toNat_mul _ _
  simp only [pageDirIdx, pageTableIdx, BitVec.toNat_add, hbytes] at hedge hfit ⊢
  omega

/-- The inversion lemma of `request_pages` for small pages. -/
theorem requestSmall_cases (h : s.requestSmall frames page num rw = .ok (some s')) :
    page.toNat % 4096 = 0 ∧ pageTableIdx page + num.toNat < 1024 ∧
      ∃ entries, s' = s.mapSmall entries page num rw ∧
        (∀ i, pageTableIdx page ≤ i → i < pageTableIdx page + num.toNat → entries i = none) ∧
        (s.directory (pageDirIdx page) = .table entries ∨
          s.directory (pageDirIdx page) = .absent ∧ entries = fun _ => none) := by
  simp only [requestSmall] at h
  split at h
  next => cases h
  next haligned =>
    have haligned : page.toNat % 4096 = 0 := not_not.mp haligned
    split at h
    next => cases h
    next hedge =>
      have hedge := not_not.mp hedge
      split at h
      next => cases h
      next => cases h
      next entries htable =>
        split at h
        next => cases h
        next hfree =>
          split at h
          next => cases h
          next hfit =>
            split at h
            next => cases h
            next =>
              cases h
              refine ⟨haligned, pages_fit haligned hedge (Nat.le_of_not_lt hfit), entries, rfl, ?_,
                .inl htable⟩
              intro i hle hlt
              rw [Bool.not_eq_true, List.any_eq_false] at hfree
              have hnone := hfree (i - pageTableIdx page) (List.mem_range.mpr (by omega))
              rw [Nat.add_sub_cancel' hle, Bool.and_eq_true, not_and, Bool.not_eq_true,
                Option.isSome_eq_false_iff, Option.isNone_iff_eq_none] at hnone
              exact hnone (decide_eq_true (by omega))
      next habsent =>
        split at h
        next => cases h
        next =>
          split at h
          next => cases h
          next hfit =>
            cases h
            exact ⟨haligned, pages_fit haligned hedge (Nat.le_of_not_lt hfit), _, rfl,
              fun _ _ _ => rfl, .inr ⟨habsent, rfl⟩⟩

theorem mapped_mapSmall {entries : Nat → Option Bool}
    (hpage : page.toNat % 4096 = 0) (hfit : pageTableIdx page + num.toNat < 1024)
    (hentries : s.directory (pageDirIdx page) = .table entries ∨
      s.directory (pageDirIdx page) = .absent ∧ entries = fun _ => none) :
    (s.mapSmall entries page num rw).mapped x = true ↔
      s.mapped x = true ∨ (x - page).toNat < num.toNat * 4096 := by
  rw [pages_range hpage hfit.le]
  by_cases hdir : pageDirIdx x = pageDirIdx page
  · have hold : s.mapped x = (entries (pageTableIdx x)).isSome := by
      simp only [mapped, hdir]
      rcases hentries with htable | ⟨habsent, rfl⟩
      · rw [htable]
      · rw [habsent]
        rfl
    rw [hold]
    simp only [mapped, mapSmall, hdir, Function.update_self, true_and]
    split
    next hin => exact iff_of_true rfl (.inr hin)
    next hout => exact ⟨.inl, fun h => h.resolve_right hout⟩
  · have hold : (s.mapSmall entries page num rw).mapped x = s.mapped x := by
      simp only [mapped, mapSmall, Function.update_of_ne hdir]
    rw [hold]
    exact ⟨.inl, fun h => h.resolve_right fun hin => hdir hin.1⟩

theorem added_requestSmall (h : s.requestSmall frames page num rw = .ok (some s')) :
    Added s s' page (num.toNat * 4096) := by
  obtain ⟨hpage, hfit, entries, rfl, hfree, hentries⟩ := requestSmall_cases h
  refine ⟨fun x hx => ?_, fun x => mapped_mapSmall hpage hfit hentries, rfl⟩
  obtain ⟨hdir, hle, hlt⟩ := (pages_range hpage hfit.le).mp hx
  simp only [mapped, hdir]
  rcases hentries with htable | ⟨habsent, -⟩
  · simp only [htable, hfree _ hle hlt, Option.isSome_none]
  · simp only [habsent]

theorem Loading.requestSmall
    (hs : Loading s) (h : s.requestSmall frames page num rw = .ok (some s')) : Loading s' := by
  obtain ⟨hpage, hfit, entries, rfl, hfree, hentries⟩ := requestSmall_cases h
  have hother : ∀ {d}, d ≠ pageDirIdx page →
      (s.mapSmall entries page num rw).directory d = s.directory d := fun hd =>
    Function.update_of_ne hd _ _
  have hsame : (s.mapSmall entries page num rw).directory (pageDirIdx page) = .table fun i =>
      if pageTableIdx page ≤ i ∧ i < pageTableIdx page + num.toNat then some rw else entries i :=
    Function.update_self _ _ _
  refine ⟨fun d => ?_, fun d rw' => ?_, fun d entries' hd' => ?_⟩
  · by_cases hd : d = pageDirIdx page
    · subst hd
      have hold : ¬ s.directory (pageDirIdx page) = .kernel := by
        rcases hentries with htable | ⟨habsent, -⟩
        · rw [htable]
          exact nofun
        · rw [habsent]
          exact nofun
      rw [hsame]
      exact iff_of_false nofun fun hk => hold ((hs.kernel_iff _).mpr hk)
    · rw [hother hd]
      exact hs.kernel_iff d
  · by_cases hd : d = pageDirIdx page
    · subst hd
      rw [hsame]
      exact nofun
    · rw [hother hd]
      exact hs.not_large d rw'
  · by_cases hd : d = pageDirIdx page
    · subst hd
      rw [hsame] at hd'
      cases hd'
      beta_reduce
      rw [if_neg (by omega)]
      rcases hentries with htable | ⟨-, rfl⟩
      · exact hs.last _ _ htable
      · rfl
    · rw [hother hd] at hd'
      exact hs.last d entries' hd'

/-- No access goes over the edge of a page table. -/
theorem Loading.mapped_last (hs : Loading s) (hx : pageTableIdx x = 1023) : s.mapped x = false := by
  simp only [mapped, hx]
  split
  next => rfl
  next => rfl
  next entries htable => rw [hs.last _ _ htable, Option.isSome_none]
  next rw hlarge => exact absurd hlarge (hs.not_large _ _)

theorem Loading.mapped_kernel (hs : Loading s) (hx : pageDirIdx x < 2) : s.mapped x = false := by
  simp only [mapped, (hs.kernel_iff _).mpr (.inl hx)]

/-- The inversion lemma of `request_pages` for one large page. -/
theorem requestLarge_cases (h : s.requestLarge frames page 1 rw = .ok (some s')) :
    page.toNat % 2 ^ 22 = 0 ∧ s.directory (pageDirIdx page) = .absent ∧
      s' = s.mapLarge page 1 rw := by
  have hdir : pageDirIdx page < 1024 := by
    have := page.isLt
    simp only [pageDirIdx]
    omega
  simp only [requestLarge] at h
  split at h
  next => cases h
  next haligned =>
    split at h
    next => cases h
    next =>
      split at h
      next => cases h
      next hfree =>
        split at h
        next => cases h
        next =>
          split at h
          next => cases h
          next =>
            cases h
            refine ⟨not_not.mp haligned, ?_, rfl⟩
            rw [Bool.not_eq_true, List.any_eq_false] at hfree
            have hnone := hfree 0 (List.mem_range.mpr (by decide))
            rw [Nat.add_zero, Bool.and_eq_true, not_and] at hnone
            have habsent := hnone (decide_eq_true hdir)
            cases hentry : s.directory (pageDirIdx page) with
            | absent => rfl
            | kernel => exact absurd (congrArg DirEntry.present hentry) habsent
            | table entries => exact absurd (congrArg DirEntry.present hentry) habsent
            | large rw => exact absurd (congrArg DirEntry.present hentry) habsent

theorem large_range (hpage : page.toNat % 2 ^ 22 = 0) :
    (x - page).toNat < 2 ^ 22 ↔ pageDirIdx x = pageDirIdx page := by
  have hx := x.isLt
  have hp := page.isLt
  simp only [pageDirIdx, BitVec.toNat_sub]
  omega

theorem directory_mapLarge (d : Nat) :
    (s.mapLarge page 1 rw).directory d =
      if d = pageDirIdx page then .large rw else s.directory d := by
  have hone : (1 : Word).toNat = 1 := rfl
  simp only [mapLarge, hone]
  by_cases hd : d = pageDirIdx page
  · rw [if_pos hd, if_pos (by omega)]
  · rw [if_neg hd, if_neg (by omega)]

/-- A large page can be used at once, and nothing else has changed. -/
theorem addrIsSafe_mapLarge (write : Bool) :
    (s.mapLarge page 1 rw).addrIsSafe x write =
      if pageDirIdx x = pageDirIdx page then !write || rw else s.addrIsSafe x write := by
  simp only [addrIsSafe, directory_mapLarge]
  by_cases hd : pageDirIdx x = pageDirIdx page
  · rw [if_pos hd, if_pos hd]
  · rw [if_neg hd, if_neg hd]

theorem mapped_mapLarge :
    (s.mapLarge page 1 rw).mapped x =
      if pageDirIdx x = pageDirIdx page then true else s.mapped x := by
  simp only [mapped, directory_mapLarge]
  by_cases hd : pageDirIdx x = pageDirIdx page
  · rw [if_pos hd, if_pos hd]
  · rw [if_neg hd, if_neg hd]

theorem mem_mapLarge_of_ne
    (hpage : page.toNat % 2 ^ 22 = 0) (hne : pageDirIdx x ≠ pageDirIdx page) :
    (s.mapLarge page 1 rw).mem x = s.mem x := by
  have hone : (1 : Word).toNat * 2 ^ 22 = 2 ^ 22 := rfl
  simp only [mapLarge, cleared, hone]
  exact if_neg fun hin => hne ((large_range hpage).mp hin)

theorem mapped_of_safe {write : Bool} (h : s.addrIsSafe x write = true) : s.mapped x = true := by
  simp only [addrIsSafe, mapped] at h ⊢
  split at h
  next => cases h
  next => cases h
  next entries htable => exact h
  next rw hlarge => rfl

/-- `addr_is_safe` goes by pages. -/
theorem addrIsSafe_by_page {a b : Addr} {write : Bool} (h : a.toNat / 4096 = b.toNat / 4096) :
    s.addrIsSafe a write = s.addrIsSafe b write := by
  have hdir : pageDirIdx a = pageDirIdx b := by
    simp only [pageDirIdx]
    omega
  have htable : pageTableIdx a = pageTableIdx b := by
    simp only [pageTableIdx]
    omega
  simp only [addrIsSafe, hdir, htable]

end Requests

end Space

end Exec
end JkxyKernel
