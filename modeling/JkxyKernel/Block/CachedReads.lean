import Mathlib.Data.List.Range
import JkxyKernel.Block.Ata

/-!
# Cached reads are plain reads

The buffers in `disk_cache` hold the sectors of the drive, and each was read from the drive
without an error.  This holds of every cache that reads fill, so that a read cannot tell
which sectors came from it.
-/

namespace JkxyKernel
namespace Block

open Structure.Array

section Cache

variable (drive : Drive)

/-- Every buffer in the cache is a sector that the drive was read for with success. -/
structure CacheRight (diskCache : Structure.Array (Nat → Byte)) (hardware : List (Nat × Bool)) :
    Prop where
  live : diskCache.mem ≠ .freed
  holds : ∀ n buf, diskCache.lookup n = some buf →
    (n, true) ∈ hardware ∧ ∀ i < sectorSize, buf i = drive.sector n i

variable {drive} {diskCache diskCache' : Structure.Array (Nat → Byte)}
  {hardware hardware' : List (Nat × Bool)}

theorem CacheRight.fresh : CacheRight drive Structure.Array.empty hardware where
  live := nofun
  holds n buf h := by cases h

theorem CacheRight.more (h : CacheRight drive diskCache hardware) :
    CacheRight drive diskCache (hardware ++ hardware') where
  live := h.live
  holds n buf hbuf :=
    ⟨List.mem_append_left _ (h.holds n buf hbuf).1, (h.holds n buf hbuf).2⟩

/-- A sector that was read is put into the cache. -/
theorem CacheRight.set
    (h : CacheRight drive diskCache hardware) {n : Nat} (hn : n < 2 ^ 29)
    (hread : (n, true) ∈ hardware) (hset : diskCache.set n (some (drive.sector n)) = .ok diskCache') :
    CacheRight drive diskCache' hardware := by
  obtain ⟨hfreed, hothers⟩ := set_spec hset
  refine ⟨fun hmem => h.live (hfreed.mp hmem), fun i buf hbuf => ?_⟩
  by_cases hi : i = n
  · subst hi
    rw [set_lookup_self hn hset] at hbuf
    cases hbuf
    exact ⟨hread, fun _ _ => rfl⟩
  · rw [hothers i hi] at hbuf
    exact h.holds i buf hbuf

end Cache

section Loop

variable {drive : Drive} {attempt : Attempt} {attempts : Nat → Attempt} {n rounds nbytes : Nat}
  {p p' : Progress}

/-- One sector: nothing but the cache changes, and the buffer holds the sector. -/
theorem fetch_spec
    (hcache : CacheRight drive p.diskCache p.hardware) (hn : n < 2 ^ 29)
    {r : Except Int (Nat → Byte)} (h : drive.fetch attempt n p = .ok (p', r)) :
    p'.pos = p.pos ∧ p'.copied = p.copied ∧ CacheRight drive p'.diskCache p'.hardware ∧
      (∀ buf, r = .ok buf → ∀ i < sectorSize, buf i = drive.sector n i) ∧
      (∀ ret, r = .error ret → ret < 0) := by
  rw [Drive.fetch, get_live hcache.live] at h
  cases hlookup : p.diskCache.lookup n with
  | some buf =>
      simp only [hlookup, Except.ok.injEq, Prod.mk.injEq] at h
      obtain ⟨rfl, rfl⟩ := h
      refine ⟨rfl, rfl, hcache, fun buf' hbuf' => ?_, nofun⟩
      cases hbuf'
      exact (hcache.holds n buf hlookup).2
  | none =>
      simp only [hlookup] at h
      split at h
      next =>
        cases h
        refine ⟨rfl, rfl, hcache, nofun, fun ret hret => ?_⟩
        cases hret
        decide
      next =>
        cases hreading : attempt.reading with
        | failed buf =>
            simp only [hreading, Drive.ataRead28] at h
            rw [if_pos (by decide)] at h
            cases h
            refine ⟨rfl, rfl, hcache.more, nofun, fun ret hret => ?_⟩
            cases hret
            decide
        | read =>
            simp only [hreading, Drive.ataRead28, ne_eq, not_true, if_false] at h
            split at h
            next => cases h
            next code diskCache hset =>
              cases h
              refine ⟨rfl, rfl, hcache.more.set hn ?_ (set_of_setMem hn hset),
                fun buf' hbuf' => ?_, nofun⟩
              · exact List.mem_append_right _ (List.mem_singleton_self _)
              · cases hbuf'
                exact fun _ _ => rfl

/-- It returns where there is memory for the cache. -/
theorem fetch_ok
    (hcache : CacheRight drive p.diskCache p.hardware) (hn : n < 2 ^ 29)
    (hgrowth : attempt.growth = true) : ∃ r, drive.fetch attempt n p = .ok r := by
  rw [Drive.fetch, get_live hcache.live]
  cases p.diskCache.lookup n with
  | some buf => exact ⟨_, rfl⟩
  | none =>
      dsimp only
      split
      next => exact ⟨_, rfl⟩
      next =>
        split
        next => exact ⟨_, rfl⟩
        next =>
          obtain ⟨diskCache, hset⟩ := setMem_found
            (v := (drive.ataRead28 n attempt.reading).2) hcache.live hn
          rw [hgrowth, hset]
          exact ⟨_, rfl⟩

theorem slice_append (pos m n : Nat) :
    drive.slice pos m ++ drive.slice (pos + m) n = drive.slice pos (m + n) := by
  rw [Drive.slice, Drive.slice, Drive.slice, ← List.map_append, List.range'_append_1]

/-- What is copied out of a sector. -/
theorem slice_of_sector
    {buf : Nat → Byte} {pos m : Nat} (hm : pos % sectorSize + m ≤ sectorSize)
    (hbuf : ∀ i < sectorSize, buf i = drive.sector (pos / sectorSize) i) :
    (List.range m).map (fun i => buf (pos % sectorSize + i)) = drive.slice pos m := by
  rw [Drive.slice, List.range'_eq_map_range, List.map_map]
  refine List.map_congr_left fun i hi => ?_
  rw [hbuf _ (by have := List.mem_range.mp hi; omega), Drive.sector, ← Nat.add_assoc,
    Nat.div_add_mod']
  rfl

/-- The loop keeps the cache right, and if it succeeds it has copied what stands on the
drive. -/
theorem readLoop_spec
    {res : Int} (hcache : CacheRight drive p.diskCache p.hardware)
    (hfits : p.pos + nbytes ≤ drive.prtSize)
    (h : drive.readLoop attempts rounds nbytes p = .ok (p', res)) :
    CacheRight drive p'.diskCache p'.hardware ∧ p'.pos ≤ drive.prtSize ∧
      (0 ≤ res → p'.copied = p.copied ++ drive.slice p.pos nbytes ∧ res = p'.copied.length) := by
  induction rounds generalizing nbytes p with
  | zero => cases h
  | succ rounds ih =>
      rw [Drive.readLoop] at h
      split at h
      next hzero =>
        cases h
        subst hzero
        exact ⟨hcache, hfits, fun _ => ⟨(List.append_nil _).symm, rfl⟩⟩
      next hnbytes =>
        have hsector : p.pos / sectorSize < 2 ^ 29 := by
          have := drive.prtSize_lt
          rw [sectorSize]
          omega
        dsimp only at h
        split at h
        next => cases h
        next p₁ ret hfetch =>
          cases h
          obtain ⟨hpos, -, hcache', -, hneg⟩ := fetch_spec hcache hsector hfetch
          exact ⟨hcache', by omega, fun hge => absurd (hneg _ rfl) (Int.not_lt.mpr hge)⟩
        next p₁ buf hfetch =>
          obtain ⟨hpos, hcopied, hcache', hbuf, -⟩ := fetch_spec hcache hsector hfetch
          obtain ⟨hright, hle, hdone⟩ := ih (by exact hcache') (by simp only [hpos]; omega) h
          refine ⟨hright, hle, fun hge => ?_⟩
          obtain ⟨hall, hres⟩ := hdone hge
          refine ⟨?_, hres⟩
          have hoff := Nat.mod_lt p.pos (show 0 < sectorSize by decide)
          rw [hall]
          simp only [hpos, hcopied]
          rw [slice_of_sector (by omega) (hbuf buf rfl), List.append_assoc, slice_append]
          congr 2
          omega

/-- Where there is memory for the cache the loop ends. -/
theorem readLoop_ok
    (hcache : CacheRight drive p.diskCache p.hardware) (hfits : p.pos + nbytes ≤ drive.prtSize)
    (hgrowth : ∀ n, (attempts n).growth = true) (hrounds : nbytes < rounds) :
    ∃ r, drive.readLoop attempts rounds nbytes p = .ok r := by
  induction rounds generalizing nbytes p with
  | zero => exact absurd hrounds (Nat.not_lt_zero _)
  | succ rounds ih =>
      rw [Drive.readLoop]
      split
      next => exact ⟨_, rfl⟩
      next hnbytes =>
        have hsector : p.pos / sectorSize < 2 ^ 29 := by
          have := drive.prtSize_lt
          rw [sectorSize]
          omega
        obtain ⟨⟨p₁, r⟩, hfetch⟩ := fetch_ok hcache hsector (hgrowth (p.pos / sectorSize))
        dsimp only
        rw [hfetch]
        cases r with
        | error ret => exact ⟨_, rfl⟩
        | ok buf =>
            obtain ⟨hpos, -, hcache', -, -⟩ := fetch_spec hcache hsector hfetch
            have hoff := Nat.mod_lt p.pos (show 0 < sectorSize by decide)
            exact ih hcache' (by simp only [hpos]; omega) (by omega)

end Loop

section Runs

variable (drive : Drive)

/-- If the request succeeded, it got what stands on the drive from the position on. -/
def Served.IsPlain (r : Served) : Prop :=
  0 ≤ r.res → r.copied = drive.slice r.pos (min r.nbytes (drive.prtSize - r.pos)) ∧
    r.res = r.copied.length

/-- The invariant of a drive in use. -/
structure Coherent (s : State) : Prop where
  cache : CacheRight drive s.diskCache s.hardware
  within : ∀ file, s.pos file ≤ drive.prtSize
  plain : ∀ r ∈ s.served, r.IsPlain drive

variable {drive} {s s' : State} {file nbytes : Nat} {attempts : Nat → Attempt}

theorem Coherent.fresh (h : Fresh s) : Coherent drive s := by
  obtain ⟨hcache, hpos, -, hserved⟩ := h
  refine ⟨?_, fun file => ?_, fun r hr => ?_⟩
  · rw [hcache]
    exact .fresh
  · rw [hpos]
    exact Nat.zero_le _
  · rw [hserved] at hr
    cases hr

/-- A file comes to stand at another place on the drive. -/
theorem Coherent.moved (h : Coherent drive s) {pos : Nat} (hpos : pos ≤ drive.prtSize) :
    Coherent drive { s with pos := Function.update s.pos file pos } := by
  refine ⟨h.cache, fun other => ?_, h.plain⟩
  by_cases hother : other = file
  · simp only [hother, Function.update_self, hpos]
  · simp only [Function.update_of_ne hother, h.within]

/-- The bytes that `ata_read` goes for. -/
theorem Coherent.ataRead_eq (h : Coherent drive s) :
    s.ataRead drive file nbytes attempts =
      s.finishRead drive file (min nbytes (drive.prtSize - s.pos file)) nbytes attempts := by
  have hwithin := h.within file
  have hsize := drive.prtSize_lt
  have hleft : (drive.prtSize + 2 ^ 32 - s.pos file) % 2 ^ 32 = drive.prtSize - s.pos file := by
    omega
  rw [State.ataRead, hleft]
  congr 1
  split <;> omega

/-- Another request is served. -/
theorem plain_snoc {served : List Served} {r : Served} (h : ∀ r ∈ served, r.IsPlain drive)
    (hr : r.IsPlain drive) : ∀ r' ∈ served ++ [r], r'.IsPlain drive := by
  intro r' hr'
  rcases List.mem_append.mp hr' with hold | hnew
  · exact h r' hold
  · obtain rfl := List.mem_singleton.mp hnew
    exact hr

theorem Coherent.read
    (h : Coherent drive s) (hread : s.ataRead drive file nbytes attempts = .ok s') :
    Coherent drive s' := by
  rw [h.ataRead_eq, State.finishRead] at hread
  split at hread
  next hnone =>
    cases hread
    refine ⟨h.cache, h.within, plain_snoc h.plain fun _ => ?_⟩
    rw [hnone]
    exact ⟨rfl, rfl⟩
  next hsome =>
    split at hread
    next => cases hread
    next p ret hloop =>
      cases hread
      have hwithin := h.within file
      obtain ⟨hcache, hpos, hdone⟩ := readLoop_spec h.cache (by dsimp only; omega) hloop
      refine ⟨hcache, fun other => ?_, plain_snoc h.plain hdone⟩
      by_cases hother : other = file
      · simp only [hother, Function.update_self, hpos]
      · simp only [Function.update_of_ne hother, h.within]

theorem Coherent.read_ok
    (h : Coherent drive s) (hgrowth : ∀ n, (attempts n).growth = true) :
    ∃ s', s.ataRead drive file nbytes attempts = .ok s' := by
  rw [h.ataRead_eq, State.finishRead]
  split
  next => exact ⟨_, rfl⟩
  next =>
    have hwithin := h.within file
    have hloop := readLoop_ok (p := ⟨s.diskCache, s.pos file, [], s.hardware⟩) h.cache
      (show s.pos file + min nbytes (drive.prtSize - s.pos file) ≤ drive.prtSize by omega)
      hgrowth (Nat.lt_succ_self _)
    obtain ⟨⟨p, ret⟩, hloop⟩ := hloop
    rw [hloop]
    exact ⟨_, rfl⟩

theorem ataSeek_lt
    {pos newPos : Nat} {offset : Int} {whence : Whence}
    (h : drive.ataSeek pos offset whence = .ok newPos) : newPos < drive.prtSize := by
  simp only [Drive.ataSeek] at h
  rcases ite_eq_iff.mp h with ⟨-, hfailed⟩ | ⟨hvalid, hok⟩
  · cases hfailed
  · cases hok
    exact Nat.lt_of_not_le fun hle => hvalid (.inl hle)

theorem Coherent.step
    (h : Coherent drive s) {op : Op} (hs : (ataMachine drive).Step s op s') :
    Coherent drive s' := by
  obtain ⟨-, hexec⟩ := hs
  cases op with
  | openFile file =>
      cases hexec
      exact h.moved (Nat.zero_le _)
  | seek file offset whence =>
      simp only [ataMachine] at hexec
      split at hexec
      next =>
        cases hexec
        exact h
      next newPos hseek =>
        cases hexec
        exact h.moved (Nat.le_of_lt (ataSeek_lt hseek))
  | read file nbytes attempts => exact h.read hexec

end Runs

/-- **Cached reads are plain reads.**  However the files on a drive have been opened, moved
and read before, every read that succeeded got what stands on the drive from its position
on, up to its length or the end; every buffer in the cache is a sector that the drive was
read for without an error; and the next read returns, if there is memory for the cache. -/
theorem cached_reads_are_plain
    (drive : Drive) {s : State} (h : (ataMachine drive).Reach Fresh (fun _ _ => True) s) :
    (∀ r ∈ s.served, r.IsPlain drive) ∧ CacheRight drive s.diskCache s.hardware ∧
      ∀ file nbytes attempts, (∀ n, (attempts n : Attempt).growth = true) →
        ∃ s', s.ataRead drive file nbytes attempts = .ok s' := by
  have hcoherent : Coherent drive s :=
    h.invariant (fun _ h0 => .fresh h0) fun _ _ _ hP _ hs => hP.step hs
  exact ⟨hcoherent.plain, hcoherent.cache, fun _ _ _ hgrowth => hcoherent.read_ok hgrowth⟩

/-- A drive of a sector and three bytes. -/
def smallDrive : Drive where
  prtSize := 515
  disk i := BitVec.ofNat 8 i
  prtSize_lt := by decide

/-- Two files on it: the drive fails at first, and then the sectors are read once. -/
def smallRun : List Op :=
  let fails : Attempt := { buffer := true, reading := .failed fun _ => 0, growth := true }
  let reads : Attempt := { buffer := true, reading := .read, growth := true }
  [.openFile 0, .seek 0 510 .set, .read 0 100 fun n => if n = 0 then reads else fails,
    .openFile 1, .seek 1 510 .set, .read 1 100 fun _ => reads]

/-- The second file gets five bytes, two of them from the cache. -/
theorem cached_reads_are_plain_small :
    ∃ s, ((ataMachine smallDrive).Reach Fresh (fun _ _ => True) s ∧
        s.served.map (fun r => (r.res, r.copied)) = [(- EIO, [254, 255]), (5, [254, 255, 0, 1, 2])] ∧
        s.hardware = [(0, true), (1, false), (1, true)]) ∧
      (∀ r ∈ s.served, r.IsPlain smallDrive) ∧ CacheRight smallDrive s.diskCache s.hardware ∧
        ∀ file nbytes attempts, (∀ n, (attempts n : Attempt).growth = true) →
          ∃ s', s.ataRead smallDrive file nbytes attempts = .ok s' := by
  have hrun : ((ataMachine smallDrive).runLabels smallRun
      ⟨Structure.Array.empty, fun _ => 0, [], []⟩).any (fun s =>
        s.served.map (fun r => (r.res, r.copied)) ==
            [(- EIO, [254, 255]), (5, [254, 255, 0, 1, 2])] &&
          s.hardware == [(0, true), (1, false), (1, true)]) = true := by
    decide +kernel
  obtain ⟨s, hreach, hs⟩ := Machine.exists_reach_of_run
    (show Fresh ⟨Structure.Array.empty, fun _ => 0, [], []⟩ from
      ⟨rfl, fun _ => rfl, rfl, rfl⟩) hrun
  obtain ⟨hserved, hhardware⟩ := Bool.and_eq_true_iff.mp hs
  exact ⟨s, ⟨hreach, beq_iff_eq.mp hserved, beq_iff_eq.mp hhardware⟩,
    cached_reads_are_plain smallDrive hreach⟩

end Block
end JkxyKernel
