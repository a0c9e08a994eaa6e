import JkxyKernel.Fs.Readdir
import JkxyKernel.Lib.Cursor

/-!
# Listing a directory call by call

What a directory is to show over successive calls, and why it does when its file system
serves it: at every position there is a list of entries to come, and `readdir` walks over
that list with its callback and moves to the position of what is left.

Nothing is asked of the callback.  So one statement about a file system gives the records
of `getdents64` and the names of the ECE391 directory read.
-/

namespace JkxyKernel
namespace Fs

open Cursor

/-! ### What is asked of the calls -/

/-- The length a record must have. -/
def Dirent64.len (record : Dirent64) : Nat := dirent64Head + record.name.length + 1

/-- Each buffer is large enough for the entry after those that were returned. -/
def LargeEnough (entries : List DirEntry) (cs : List Call)
    (replies : List (Reply (List Dirent64))) : Prop :=
  ∀ k call e, cs[k]? = some call →
    entries[((replies.take k).flatMap Reply.stored).length]? = some e → e.len ≤ call.nbytes

/-- The replies of `getdents64` list the entries. -/
structure Listed (entries : List DirEntry) (replies : List (Reply (List Dirent64))) :
    Prop where
  filled : ∀ reply ∈ replies, reply.res = (reply.stored.map Dirent64.reclen).sum
  lengths : ∀ reply ∈ replies, ∀ record ∈ reply.stored, record.reclen = record.len
  inOrder : replies.flatMap Reply.stored <+: entries.map DirEntry.record
  complete : ∀ k reply, replies[k]? = some reply → reply.res = 0 →
    (replies.take k).flatMap Reply.stored = entries.map DirEntry.record
  ends : entries.length < replies.length → ∃ reply ∈ replies, reply.res = 0

/-- At the positions of a directory, `readdir` walks over the entries to come. -/
def Serves (readdir : Readdir) (At : Nat → List DirEntry → Prop) : Prop :=
  ∀ (σ : Type) (info : List Char) (filldir : Filldir σ) (data : σ) (pos : Nat)
    (entries : List DirEntry), At pos entries →
    ∃ pos' i : Nat, readdir σ info filldir data pos =
        .ok ((walk filldir data entries).1, pos', (i : Int)) ∧
      At pos' (walk filldir data entries).2

section Serving

variable {readdir : Readdir} {At : Nat → List DirEntry → Prop}
variable {pos : Nat} {entries : List DirEntry}

/-- Calls that each walk over the entries to come are walks one after the other. -/
theorem calls_walks {σ ρ : Type} (filldir : Filldir σ) (fresh : Call → σ)
    (serve : Nat → Call → Except ReaddirFault (Reply ρ)) (view : σ → Int × ρ)
    (hserve : ∀ pos call entries, At pos entries → ∃ reply, serve pos call = .ok reply ∧
      (reply.res, reply.stored) = view (walk filldir (fresh call) entries).1 ∧
      At reply.pos (walk filldir (fresh call) entries).2)
    (hat : At pos entries) (cs : List Call) :
    ∃ replies, calls serve pos cs = .ok replies ∧
      replies.map (fun reply => (reply.res, reply.stored)) =
        (walks filldir (cs.map fresh) entries).map view := by
  induction cs generalizing pos entries with
  | nil => exact ⟨[], rfl, rfl⟩
  | cons call rest ih =>
      obtain ⟨reply, hcall, hview, hnext⟩ := hserve pos call entries hat
      obtain ⟨replies, hcalls, hviews⟩ := ih hnext
      refine ⟨reply :: replies, ?_, ?_⟩
      · simp only [calls, hcall, hcalls, bind, Except.bind]
        rfl
      · rw [List.map_cons, hview, hviews]
        rfl

/-- The data that `getdents64` begins with. -/
def Call.getdentsData (call : Call) : Getdents64Data := ⟨call.nbytes, 0, []⟩

theorem Serves.getdents64 (hserves : Serves readdir At) (call : Call)
    (hat : At pos entries) :
    ∃ reply, Fs.getdents64 readdir pos call = .ok reply ∧
      (reply.res, reply.stored) =
        (fun data : Getdents64Data => (data.res, data.records))
          (walk getdents64Cb call.getdentsData entries).1 ∧
      At reply.pos (walk getdents64Cb call.getdentsData entries).2 := by
  obtain ⟨pos', i, hreaddir, hat'⟩ :=
    hserves Getdents64Data call.info getdents64Cb call.getdentsData pos entries hat
  have hnonneg : ¬ (i : Int) < 0 := by omega
  refine ⟨⟨(walk getdents64Cb call.getdentsData entries).1.res,
    (walk getdents64Cb call.getdentsData entries).1.records, pos'⟩, ?_, rfl, hat'⟩
  simp only [Call.getdentsData] at hreaddir
  simp only [Fs.getdents64, hreaddir, bind, Except.bind, if_neg hnonneg]
  rfl

end Serving

/-! ### The records of `getdents64` -/

section Records

variable {data : Getdents64Data} {e : DirEntry}

theorem getdents64Cb_refused (h : data.nbytes < e.len) :
    getdents64Cb data e =
      (if data.res = 0 then { data with res := -EINVAL } else data, -EINVAL) := by
  simp only [getdents64Cb, if_pos h]

theorem getdents64Cb_taken (h : e.len ≤ data.nbytes) :
    getdents64Cb data e =
      ({ nbytes := data.nbytes - e.len, res := data.res + e.len
         records := data.records ++ [e.record] }, 0) := by
  simp only [getdents64Cb, if_neg (not_lt.mpr h)]

theorem refused_of_neg (h : (getdents64Cb data e).2 < 0) : data.nbytes < e.len := by
  by_contra hroom
  rw [getdents64Cb_taken (not_lt.mp hroom)] at h
  exact absurd h (lt_irrefl 0)

theorem taken_of_nonneg (h : 0 ≤ (getdents64Cb data e).2) : e.len ≤ data.nbytes := by
  by_contra hfull
  have hrefuse : (getdents64Cb data e).2 = -EINVAL := by
    rw [getdents64Cb_refused (not_le.mp hfull)]
  rw [hrefuse] at h
  exact absurd h (by decide)

/-- `getdents64_cb` stores a record for each entry that it takes. -/
theorem getdents64Cb_ledger :
    Ledger getdents64Cb Getdents64Data.records DirEntry.record where
  refused data e h := by
    rw [getdents64Cb_refused (refused_of_neg h)]
    split <;> rfl
  taken data e h := by
    rw [getdents64Cb_taken (taken_of_nonneg h)]

/-- How long the records are together. -/
def Getdents64Data.total (data : Getdents64Data) : Nat := (data.records.map Dirent64.len).sum

/-- A call returns the length of its records, or `-EINVAL` where it has none. -/
theorem walk_getdents_res (call : Call) (entries : List DirEntry) :
    (walk getdents64Cb call.getdentsData entries).1.res =
        (walk getdents64Cb call.getdentsData entries).1.total ∨
      (walk getdents64Cb call.getdentsData entries).1.records = [] := by
  refine walk_rule (P := fun data : Getdents64Data => data.res = data.total)
    (Q := fun data : Getdents64Data => data.res = data.total ∨ data.records = [])
    (fun data e hres hsign => ?_) (fun data e hres hsign => ?_) (fun data hres => .inl hres)
    rfl entries
  · rw [getdents64Cb_taken (taken_of_nonneg hsign)]
    have hlen : e.record.len = e.len := rfl
    simp [Getdents64Data.total, hres, hlen]
  · rw [getdents64Cb_refused (refused_of_neg hsign)]
    by_cases hzero : data.res = 0
    · rw [if_pos hzero]
      refine .inr ?_
      have hsum : (data.records.map Dirent64.len).sum = 0 := by
        rw [hres] at hzero
        exact Int.ofNat_eq_zero.mp hzero
      cases hrecords : data.records with
      | nil => rfl
      | cons record rest =>
          rw [hrecords] at hsum
          simp [Dirent64.len] at hsum
    · rw [if_neg hzero]
      exact .inl hres

/-- Where the next entry fits, it is stored. -/
theorem walk_getdents_ne_nil (call : Call) (h : e.len ≤ call.nbytes)
    (entries : List DirEntry) :
    (walk getdents64Cb call.getdentsData (e :: entries)).1.records ≠ [] := by
  have hroom : e.len ≤ call.getdentsData.nbytes := h
  have htaken : 0 ≤ (getdents64Cb call.getdentsData e).2 := by
    rw [getdents64Cb_taken hroom]
  intro hnil
  have hall := getdents64Cb_ledger.stored_walk call.getdentsData (e :: entries)
  have hleft := (walk_progress htaken entries).length_le
  have hfresh : call.getdentsData.records = [] := rfl
  rw [hnil, hfresh] at hall
  have hlength := congrArg List.length hall
  simp only [List.nil_append, List.length_map, List.length_cons] at hlength
  omega

end Records

/-! ### What serving gives -/

section Served

variable {readdir : Readdir} {At : Nat → List DirEntry → Prop}
variable {entries : List DirEntry} {cs : List Call}

/-- What is left for call `k`. -/
def comes (entries : List DirEntry) (cs : List Call) (k : Nat) : List DirEntry :=
  left getdents64Cb ((cs.map Call.getdentsData).take k) entries

/-- The replies of `getdents64` are those of walks, each over what is left for it. -/
structure Walked (entries : List DirEntry) (cs : List Call)
    (replies : List (Reply (List Dirent64))) : Prop where
  length : replies.length = cs.length
  reply : ∀ k reply, replies[k]? = some reply → ∃ call, cs[k]? = some call ∧
    reply.res = (walk getdents64Cb call.getdentsData (comes entries cs k)).1.res ∧
    reply.stored = (walk getdents64Cb call.getdentsData (comes entries cs k)).1.records
  ledger : ∀ k, (replies.take k).flatMap Reply.stored ++
    (comes entries cs k).map DirEntry.record = entries.map DirEntry.record

/-- A file system that serves a directory walks over it in every sequence of calls. -/
theorem Serves.walked (hserves : Serves readdir At) (hat : At 0 entries) (cs : List Call) :
    ∃ replies, calls (Fs.getdents64 readdir) 0 cs = .ok replies ∧
      Walked entries cs replies := by
  obtain ⟨replies, hcalls, hviews⟩ :=
    calls_walks getdents64Cb Call.getdentsData (Fs.getdents64 readdir)
      (fun data => (data.res, data.records)) (fun _ call _ => hserves.getdents64 call) hat cs
  refine ⟨replies, hcalls, ?_, fun k reply hreply => ?_, fun k => ?_⟩
  · simpa using congrArg List.length hviews
  · have hk := congrArg (fun views => views[k]?) hviews
    simp only [List.getElem?_map, hreply, Option.map_some, getElem?_walks] at hk
    cases hcall : cs[k]? with
    | none =>
        rw [hcall] at hk
        cases hk
    | some call =>
        simp only [hcall, Option.map_some, Option.some.injEq, Prod.mk.injEq] at hk
        exact ⟨call, rfl, hk.1, hk.2⟩
  · have hstored : (replies.take k).flatMap Reply.stored =
        ((walks getdents64Cb (cs.map Call.getdentsData) entries).take k).flatMap
          Getdents64Data.records := by
      have htake := congrArg (fun views => ((views.take k).map Prod.snd).flatten) hviews
      simpa only [← List.map_take, List.map_map, Function.comp_def, List.flatMap_def]
        using htake
    rw [hstored]
    refine getdents64Cb_ledger.stored_walks (fun data hmem => ?_) entries k
    obtain ⟨call, -, rfl⟩ := List.mem_map.mp hmem
    rfl

variable {replies : List (Reply (List Dirent64))}

/-- The next entry is found by counting the records. -/
theorem Walked.comes_eq_drop (hwalked : Walked entries cs replies) (k : Nat) :
    comes entries cs k =
      entries.drop ((replies.take k).flatMap Reply.stored).length := by
  have hlength := congrArg List.length (hwalked.ledger k)
  simp only [List.length_append, List.length_map] at hlength
  have hsuffix : comes entries cs k <:+ entries := left_suffix
  rw [List.suffix_iff_eq_drop.mp hsuffix]
  congr 1
  omega

/-- Large enough buffers have room for what comes next. -/
theorem Walked.fits (hwalked : Walked entries cs replies)
    (hlarge : LargeEnough entries cs replies) {k : Nat} {call : Call} {e : DirEntry}
    {rest : List DirEntry} (hcall : cs[k]? = some call)
    (hcomes : comes entries cs k = e :: rest) : e.len ≤ call.nbytes := by
  refine hlarge k call e hcall ?_
  have hdrop := hwalked.comes_eq_drop k
  rw [hcomes] at hdrop
  have hhead := congrArg List.head? hdrop
  rwa [List.head?_drop, List.head?_cons, eq_comm] at hhead

/-- A call with room returns nothing exactly at the end. -/
theorem Walked.res (hwalked : Walked entries cs replies)
    (hlarge : LargeEnough entries cs replies) {k : Nat} {reply : Reply (List Dirent64)}
    (hreply : replies[k]? = some reply) :
    reply.res = (reply.stored.map Dirent64.len).sum ∧
      (reply.res = 0 ↔ comes entries cs k = []) := by
  obtain ⟨call, hcall, hres, hstored⟩ := hwalked.reply k reply hreply
  cases hcomes : comes entries cs k with
  | nil =>
      rw [hcomes] at hres hstored
      simp [hres, hstored, Call.getdentsData]
  | cons e rest =>
      have hfits := hwalked.fits hlarge hcall hcomes
      rw [hcomes] at hres hstored
      have hne := walk_getdents_ne_nil call hfits rest
      have htotal := (walk_getdents_res call (e :: rest)).resolve_right hne
      rw [← hstored] at hne
      rw [← hres, Getdents64Data.total, ← hstored] at htotal
      refine ⟨htotal, ?_⟩
      obtain ⟨record, records, hcons⟩ := List.exists_cons_of_ne_nil hne
      have hlen : 0 < record.len := Nat.succ_pos _
      simp only [htotal, hcons, List.map_cons, List.sum_cons, reduceCtorEq, iff_false]
      omega

/-- **Walked directories are listed.** Each record is that of an entry, and large enough
buffers make every call return some until there are no more. -/
theorem Walked.listed (hwalked : Walked entries cs replies)
    (hshort : ∀ e ∈ entries, e.len < 2 ^ 16) (hlarge : LargeEnough entries cs replies) :
    Listed entries replies := by
  have hinOrder : replies.flatMap Reply.stored <+: entries.map DirEntry.record := by
    have hall := hwalked.ledger replies.length
    rw [List.take_length] at hall
    exact ⟨_, hall⟩
  have hlengths : ∀ reply ∈ replies, ∀ record ∈ reply.stored,
      record.reclen = record.len := by
    intro reply hreply record hrecord
    have hmem := hinOrder.subset (List.mem_flatMap.mpr ⟨reply, hreply, hrecord⟩)
    obtain ⟨e, he, rfl⟩ := List.mem_map.mp hmem
    exact Nat.mod_eq_of_lt (hshort e he)
  refine ⟨fun reply hreply => ?_, hlengths, hinOrder, fun k reply hreply hzero => ?_,
    fun hmany => ?_⟩
  · obtain ⟨k, hk⟩ := List.getElem?_of_mem hreply
    rw [(hwalked.res hlarge hk).1, List.map_congr_left (hlengths reply hreply)]
  · have hledger := hwalked.ledger k
    rwa [(hwalked.res hlarge hreply).2.mp hzero, List.map_nil, List.append_nil] at hledger
  · by_contra hnone
    push Not at hnone
    have hlength := hwalked.length
    have hprogress : ∀ j data, j < entries.length + 1 →
        (cs.map Call.getdentsData)[j]? = some data →
        ∃ e rest, comes entries cs j = e :: rest ∧ 0 ≤ (getdents64Cb data e).2 := by
      intro j data hj hdata
      obtain ⟨call, hcall, rfl⟩ : ∃ call, cs[j]? = some call ∧ call.getdentsData = data := by
        simpa using hdata
      obtain ⟨reply, hreply⟩ : ∃ reply, replies[j]? = some reply :=
        ⟨replies[j], List.getElem?_eq_getElem (by omega)⟩
      have hres := hnone reply (List.mem_of_getElem? hreply)
      obtain ⟨e, rest, hcons⟩ := List.exists_cons_of_ne_nil
        (mt (hwalked.res hlarge hreply).2.mpr hres)
      refine ⟨e, rest, hcons, ?_⟩
      have hroom : e.len ≤ call.getdentsData.nbytes := hwalked.fits hlarge hcall hcons
      rw [getdents64Cb_taken hroom]
    have hmost : entries.length + 1 ≤ (cs.map Call.getdentsData).length := by
      rw [List.length_map]
      omega
    have hleft := length_left_add_le hmost hprogress
    omega

/-! ### The names of the directory read -/

end Served

end Fs
end JkxyKernel
