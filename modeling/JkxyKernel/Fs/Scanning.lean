import JkxyKernel.Fs.UstarLookup
import JkxyKernel.Lib.Chain

/-!
# Scans of an archive

`ustar_ino_lookup` and `ustar_readdir` go from header to header by the sizes in them, and end
at a header without a name, or where the device cannot be sought.  The sectors of a size, the
sector number and the byte that is sought are all reduced modulo 2^32, so that a size can lead
back to where the scan has been.

A scan comes back exactly if the headers it goes over take up a multiple of 4 GiB, and
otherwise it ends: there are only so many bytes to seek.
-/

namespace JkxyKernel
namespace Fs

open Vfs (Path)

/-- Where a scan is: the memory from `info->metadata` on, the sector, and how many sectors
the scan has gone over. -/
structure Scan where
  info : List Char
  sector : Nat
  gone : Nat

/-- What a scan makes of a header. -/
inductive Verdict
  /-- There is no name. -/
  | ends
  /-- The name to be compared, or listed, is `NULL`. -/
  | null
  | child (name : List Char)
  | other
  deriving DecidableEq

/-- What a scan makes of the header in memory. -/
def verdict (parent : Path) (info : List Char) : Verdict :=
  if cstring info = [] then .ends
  else
    match ustarInodePath (cstring info) (cstring (info.drop prefixOffset)) with
    | none => .null
    | some path =>
        if isDirectDecendent parent path then
          match path.components.getLast? with
          | none => .null
          | some name => .child name
        else .other

/-- Does the scan go on, if it passes children of some names? -/
def Verdict.goesOn (passes : List Char → Bool) : Verdict → Bool
  | .child name => passes name
  | .other => true
  | _ => false

/-- A callback that accepts every entry. -/
def accepting {σ : Type} (take : σ → DirEntry → σ) : Filldir σ := fun data e => (take data e, 0)

namespace Scan

section Scanning

variable (dev : Device) (parent : Path) (passes : List Char → Bool)

/-- The byte that is sought for the next header. -/
def offset (s : Scan) : Option Nat :=
  match dev.seekSet (s.sector * sectorSize) with
  | .error _ => none
  | .ok start => some start

/-- The memory once that header is read. -/
def header (s : Scan) : Option (List Char) :=
  (s.offset dev).map fun start =>
    dev.read start metadataSize ++ s.info.drop (dev.read start metadataSize).length

/-- Where the scan goes on after that header. -/
def next (s : Scan) : Option Scan :=
  match s.header dev with
  | none => none
  | some info =>
      if (verdict parent info).goesOn passes then
        some
          { info := info
            sector := (s.sector + headerSectors info) % 2 ^ 32
            gone := s.gone + headerSectors info }
      else none

/-- The scan never comes back to a byte at which it has read a header. -/
def NeverBack (s : Scan) : Prop :=
  ∀ i j a b start, chain (next dev parent passes) s i = some a →
    chain (next dev parent passes) s j = some b →
    a.offset dev = some start → b.offset dev = some start → i = j

/-- From a header to a later one that can be sought, the sectors are no multiple of 4 GiB. -/
def NoFullTurn (s : Scan) : Prop :=
  ∀ i j a b, i < j → chain (next dev parent passes) s i = some a →
    chain (next dev parent passes) s j = some b → (b.offset dev).isSome →
    (b.gone - a.gone) % 2 ^ 23 ≠ 0

/-- The scan comes to no header whose name is `NULL` where it is compared or listed. -/
def NeverNull (s : Scan) : Prop :=
  ∀ i a info, chain (next dev parent passes) s i = some a → a.header dev = some info →
    verdict parent info ≠ .null

end Scanning

variable {dev : Device} {parent : Path} {passes : List Char → Bool} {s a b : Scan} {start : Nat}

/-! ### Coming back -/

theorem offset_eq_some (h : s.offset dev = some start) :
    start = s.sector * 512 % 2 ^ 32 ∧ start < 2 ^ 31 := by
  rw [offset] at h
  split at h
  next => cases h
  next pos hseek =>
    cases h
    by_cases hfar : dev.size ≤ s.sector * 512 % 2 ^ 32 ∨ 2 ^ 31 ≤ s.sector * 512 % 2 ^ 32
    · rw [Device.seekSet, sectorSize, if_pos hfar] at hseek
      cases hseek
    · rw [Device.seekSet, sectorSize, if_neg hfar] at hseek
      cases hseek
      omega

theorem header_eq_none_iff : s.header dev = none ↔ s.offset dev = none :=
  Option.map_eq_none_iff

/-- A scan goes on from where a header can be sought. -/
theorem offset_of_next (h : (s.next dev parent passes).isSome) : (s.offset dev).isSome := by
  cases hoffset : s.offset dev with
  | none =>
      rw [next, header_eq_none_iff.mpr hoffset] at h
      cases h
  | some start => rfl

/-- The sector is that of the start and of what the scan has gone over. -/
theorem sector_chain {n : Nat} (h : chain (next dev parent passes) a n = some b) :
    a.gone ≤ b.gone ∧ b.sector % 2 ^ 23 = (a.sector + (b.gone - a.gone)) % 2 ^ 23 := by
  refine Chain.invariant
    (P := fun c => a.gone ≤ c.gone ∧
      c.sector % 2 ^ 23 = (a.sector + (c.gone - a.gone)) % 2 ^ 23)
    ⟨Nat.le_refl _, by rw [Nat.sub_self, Nat.add_zero]⟩ ?_ h
  intro c c' hc hnext
  rw [next] at hnext
  split at hnext
  next => cases hnext
  next info hheader =>
    split at hnext
    next =>
      cases hnext
      dsimp only
      omega
    next => cases hnext

/-- The same byte is sought again after a multiple of 4 GiB. -/
theorem offset_eq_iff {n : Nat} (h : chain (next dev parent passes) a n = some b)
    (ha : a.offset dev = some start) {start' : Nat} (hb : b.offset dev = some start') :
    start = start' ↔ (b.gone - a.gone) % 2 ^ 23 = 0 := by
  obtain ⟨hle, hsector⟩ := sector_chain h
  obtain ⟨hstart, -⟩ := offset_eq_some ha
  obtain ⟨hstart', -⟩ := offset_eq_some hb
  omega

theorem neverBack_iff : NeverBack dev parent passes s ↔ NoFullTurn dev parent passes s := by
  constructor
  · intro hback i j a b hij ha hb hseek hturn
    obtain ⟨start', hb'⟩ := Option.isSome_iff_exists.mp hseek
    obtain ⟨n, rfl⟩ := Nat.exists_eq_add_of_lt hij
    have hchain : chain (next dev parent passes) a (n + 1) = some b := by
      rw [← Chain.chain_add ha]
      exact hb
    have hgo : (a.next dev parent passes).isSome := by
      cases hnext : a.next dev parent passes with
      | none =>
          rw [Chain.chain_succ, hnext] at hchain
          cases hchain
      | some c => rfl
    obtain ⟨start, ha'⟩ := Option.isSome_iff_exists.mp (offset_of_next hgo)
    have hsame : start = start' := (offset_eq_iff hchain ha' hb').mpr hturn
    rw [← hsame] at hb'
    exact absurd (hback i _ a b start ha hb ha' hb') (Nat.ne_of_lt hij)
  · intro hturn i j a b start ha hb ha' hb'
    have hlt : ∀ i j a b, chain (next dev parent passes) s i = some a →
        chain (next dev parent passes) s j = some b → a.offset dev = some start →
        b.offset dev = some start → ¬ i < j := by
      intro i j a b ha hb ha' hb' hij
      obtain ⟨n, rfl⟩ := Nat.exists_eq_add_of_lt hij
      have hchain : chain (next dev parent passes) a (n + 1) = some b := by
        rw [← Chain.chain_add ha]
        exact hb
      exact hturn i _ a b hij ha hb (by rw [hb']; rfl) ((offset_eq_iff hchain ha' hb').mp rfl)
    have h₁ := hlt i j a b ha hb ha' hb'
    have h₂ := hlt j i b a hb ha hb' ha'
    omega

/-- A scan that never comes back ends: a header can be sought at 2^22 bytes at most. -/
theorem ends_of_neverBack (h : NeverBack dev parent passes s) {rounds : Nat}
    (hrounds : 2 ^ 22 < rounds) : chain (next dev parent passes) s rounds = none := by
  refine Chain.chain_none_of_le ?_ hrounds
  refine Chain.none_of_bound (g := fun c => c.sector * 512 % 2 ^ 32 / 512) ?_ ?_
  · intro i c hc hgo
    obtain ⟨start, hstart⟩ := Option.isSome_iff_exists.mp (offset_of_next hgo)
    obtain ⟨heq, hlt⟩ := offset_eq_some hstart
    omega
  · intro i j c c' hc hc' hgo hgo' hsame
    obtain ⟨start, hstart⟩ := Option.isSome_iff_exists.mp (offset_of_next hgo)
    obtain ⟨start', hstart'⟩ := Option.isSome_iff_exists.mp (offset_of_next hgo')
    obtain ⟨heq, -⟩ := offset_eq_some hstart
    obtain ⟨heq', -⟩ := offset_eq_some hstart'
    have hstarts : start' = start := by omega
    rw [hstarts] at hstart'
    exact h i j c c' start hc hc' hstart hstart'

/-! ### The loops -/

/-- A loop that goes on as the scan does returns if the scan ends within its rounds and comes
to no name that is `NULL`. -/
theorem returns_iff
    {δ : Type} {Returns : Nat → δ → Scan → Prop} (hzero : ∀ d s, ¬ Returns 0 d s)
    (hstep : ∀ rounds d s, ∃ d', Returns (rounds + 1) d s ↔
      (∀ info, s.header dev = some info → verdict parent info ≠ .null) ∧
        ∀ s', s.next dev parent passes = some s' → Returns rounds d' s')
    (rounds : Nat) (d : δ) (s : Scan) :
    Returns rounds d s ↔
      chain (next dev parent passes) s rounds = none ∧ NeverNull dev parent passes s := by
  induction rounds generalizing d s with
  | zero => exact iff_of_false (hzero d s) fun h => Option.some_ne_none _ h.1
  | succ rounds ih =>
      obtain ⟨d', hiff⟩ := hstep rounds d s
      rw [hiff, Chain.chain_succ]
      cases hnext : s.next dev parent passes with
      | none =>
          have hlater : ∀ i, chain (next dev parent passes) s (i + 1) = none := fun i => by
            rw [Chain.chain_succ, hnext]
            rfl
          constructor
          · rintro ⟨hfirst, -⟩
            refine ⟨rfl, fun i a info ha hinfo => ?_⟩
            cases i with
            | zero =>
                cases ha
                exact hfirst info hinfo
            | succ i =>
                rw [hlater i] at ha
                cases ha
          · exact fun h => ⟨fun info => h.2 0 s info rfl, nofun⟩
      | some s' =>
          have hlater : ∀ i, chain (next dev parent passes) s (i + 1) =
              chain (next dev parent passes) s' i := fun i => by
            rw [Chain.chain_succ, hnext]
            rfl
          constructor
          · rintro ⟨hfirst, hrest⟩
            obtain ⟨hend, hnull⟩ := (ih d' s').mp (hrest s' rfl)
            refine ⟨hend, fun i a info ha hinfo => ?_⟩
            cases i with
            | zero =>
                cases ha
                exact hfirst info hinfo
            | succ i =>
                rw [hlater i] at ha
                exact hnull i a info ha hinfo
          · rintro ⟨hend, hnull⟩
            refine ⟨fun info => hnull 0 s info rfl, fun t ht => ?_⟩
            cases ht
            refine (ih d' s').mpr ⟨hend, fun i a info ha => hnull (i + 1) a info ?_⟩
            rw [hlater i]
            exact ha

/-- What a round comes to where a header can be sought. -/
theorem next_eq {info : List Char} (h : s.header dev = some info) :
    s.next dev parent passes =
      if (verdict parent info).goesOn passes then
        some
          { info := info
            sector := (s.sector + headerSectors info) % 2 ^ 32
            gone := s.gone + headerSectors info }
      else none := by
  rw [next, h]

theorem map_returns_iff {α β : Type} {x : Except ReaddirFault α} {f : α → β} :
    (∃ r, x.map f = .ok r) ↔ ∃ r, x = .ok r := by
  cases x with
  | error e => exact iff_of_false (fun ⟨r, h⟩ => nomatch h) (fun ⟨r, h⟩ => nomatch h)
  | ok a => exact iff_of_true ⟨f a, rfl⟩ ⟨a, rfl⟩

/-- A round of `ustar_ino_lookup`: it passes the children with other names. -/
theorem lookup_step (name : List Char) (rounds : Nat) (s : Scan) :
    (∃ r, ustarLookupLoop dev parent name (rounds + 1) s.info s.sector = .ok r) ↔
      (∀ info, s.header dev = some info → verdict parent info ≠ .null) ∧
        ∀ s', s.next dev parent (· != name) = some s' →
          ∃ r, ustarLookupLoop dev parent name rounds s'.info s'.sector = .ok r := by
  rw [ustarLookupLoop]
  cases hseek : dev.seekSet (s.sector * sectorSize) with
  | error e =>
      have hnone : s.header dev = none := by
        rw [header_eq_none_iff, offset, hseek]
      have hnext : s.next dev parent (· != name) = none := by rw [next, hnone]
      rw [hnone, hnext]
      exact iff_of_true ⟨_, rfl⟩ ⟨fun _ hsome => absurd hsome.symm (Option.some_ne_none _),
        fun _ hsome => absurd hsome.symm (Option.some_ne_none _)⟩
  | ok start =>
      have hheader : s.header dev = some (dev.read start metadataSize ++
          s.info.drop (dev.read start metadataSize).length) := by
        rw [header, offset, hseek]
        rfl
      rw [hheader, next_eq hheader]
      dsimp only
      generalize dev.read start metadataSize ++
        s.info.drop (dev.read start metadataSize).length = info
      simp only [Option.some.injEq, forall_eq', verdict]
      by_cases hname : cstring info = []
      · simp [hname, Verdict.goesOn]
      · simp only [if_neg hname]
        cases hpath : ustarInodePath (cstring info) (cstring (info.drop prefixOffset)) with
        | none => simp
        | some path =>
            dsimp only
            by_cases hdirect : isDirectDecendent parent path = true
            · simp only [if_pos hdirect]
              cases hlast : path.components.getLast? with
              | none => simp
              | some last =>
                  by_cases hsame : last = name
                  · simp [hsame, Verdict.goesOn]
                  · simp [hsame, Verdict.goesOn, map_returns_iff]
            · simp [hdirect, Verdict.goesOn, map_returns_iff]

/-- A round of `ustar_readdir` with a callback that accepts every entry. -/
theorem readdir_step {σ : Type} (take : σ → DirEntry → σ) (rounds : Nat) (d : σ × Nat)
    (s : Scan) :
    ∃ d' : σ × Nat,
      (∃ r, ustarLoop dev parent (accepting take) (rounds + 1) s.info d.1 s.sector d.2 = .ok r) ↔
        (∀ info, s.header dev = some info → verdict parent info ≠ .null) ∧
          ∀ s', s.next dev parent (fun _ => true) = some s' →
            ∃ r, ustarLoop dev parent (accepting take) rounds s'.info d'.1 s'.sector d'.2 =
              .ok r := by
  rw [ustarLoop]
  cases hseek : dev.seekSet (s.sector * sectorSize) with
  | error e =>
      have hnone : s.header dev = none := by
        rw [header_eq_none_iff, offset, hseek]
      have hnext : s.next dev parent (fun _ => true) = none := by rw [next, hnone]
      rw [hnone, hnext]
      exact ⟨d, iff_of_true ⟨_, rfl⟩ ⟨fun _ hsome => absurd hsome.symm (Option.some_ne_none _),
        fun _ hsome => absurd hsome.symm (Option.some_ne_none _)⟩⟩
  | ok start =>
      have hheader : s.header dev = some (dev.read start metadataSize ++
          s.info.drop (dev.read start metadataSize).length) := by
        rw [header, offset, hseek]
        rfl
      rw [hheader, next_eq hheader]
      dsimp only
      generalize dev.read start metadataSize ++
        s.info.drop (dev.read start metadataSize).length = info
      simp only [Option.some.injEq, forall_eq', verdict]
      by_cases hname : cstring info = []
      · exact ⟨d, by simp [hname, Verdict.goesOn]⟩
      · simp only [if_neg hname]
        cases hpath : ustarInodePath (cstring info) (cstring (info.drop prefixOffset)) with
        | none => exact ⟨d, by simp⟩
        | some path =>
            dsimp only
            by_cases hdirect : isDirectDecendent parent path = true
            · simp only [if_pos hdirect]
              cases hlast : path.components.getLast? with
              | none => exact ⟨d, by simp⟩
              | some last =>
                  refine ⟨(take d.1 { name := last, offset := s.sector, ino := ino s.sector
                                      type := ustarType (info.getD typeOffset nul) },
                    d.2 + 1), ?_⟩
                  simp [Verdict.goesOn, accepting]
            · exact ⟨d, by simp [hdirect, Verdict.goesOn]⟩

/-- `ustar_ino_lookup` returns, and never comes back, if it makes no full turn and comes to
no name that is `NULL`. -/
theorem lookup_returns_iff (name info : List Char) :
    (∃ r, ustarInoLookup dev parent name info = .ok r) ∧
        NeverBack dev parent (· != name) ⟨info, 0, 0⟩ ↔
      NoFullTurn dev parent (· != name) ⟨info, 0, 0⟩ ∧
        NeverNull dev parent (· != name) ⟨info, 0, 0⟩ := by
  have hreturns := @returns_iff dev parent (· != name) Unit
    (fun rounds _ s => ∃ r, ustarLookupLoop dev parent name rounds s.info s.sector = .ok r)
    (fun _ _ h => by
      obtain ⟨r, hr⟩ := h
      cases hr)
    (fun rounds d s => ⟨d, lookup_step name rounds s⟩) (2 ^ 32) () ⟨info, 0, 0⟩
  rw [← neverBack_iff]
  constructor
  · exact fun ⟨hr, hback⟩ => ⟨hback, (hreturns.mp hr).2⟩
  · exact fun ⟨hback, hnull⟩ =>
      ⟨hreturns.mpr ⟨ends_of_neverBack hback (by decide), hnull⟩, hback⟩

/-- The same for `ustar_readdir`, from any position. -/
theorem readdir_returns_iff {σ : Type} (take : σ → DirEntry → σ) (info : List Char) (data : σ)
    (pos : Nat) :
    (∃ r, ustarReaddir dev parent info (accepting take) data pos = .ok r) ∧
        NeverBack dev parent (fun _ => true) ⟨info, pos, 0⟩ ↔
      NoFullTurn dev parent (fun _ => true) ⟨info, pos, 0⟩ ∧
        NeverNull dev parent (fun _ => true) ⟨info, pos, 0⟩ := by
  have hreturns := @returns_iff dev parent (fun _ => true) (σ × Nat)
    (fun rounds d s =>
      ∃ r, ustarLoop dev parent (accepting take) rounds s.info d.1 s.sector d.2 = .ok r)
    (fun _ _ h => by
      obtain ⟨r, hr⟩ := h
      cases hr)
    (readdir_step take) (2 ^ 32) (data, 0) ⟨info, pos, 0⟩
  rw [← neverBack_iff]
  constructor
  · exact fun ⟨hr, hback⟩ => ⟨hback, (hreturns.mp hr).2⟩
  · exact fun ⟨hback, hnull⟩ =>
      ⟨hreturns.mpr ⟨ends_of_neverBack hback (by decide), hnull⟩, hback⟩

end Scan

/-- **Scans of an archive.**  For every content of the device, a lookup of any name in a
directory returns and never comes back to a header, if and only if the headers on its way
never take up a multiple of 4 GiB, and none of them is taken for a child without a name; and
so does a listing from any position with a callback that accepts every entry. -/
theorem archive_scans_return_iff (dev : Device) (parent : Path) (info : List Char) :
    (∀ name : List Char,
      (∃ r, ustarInoLookup dev parent name info = .ok r) ∧
          Scan.NeverBack dev parent (· != name) ⟨info, 0, 0⟩ ↔
        Scan.NoFullTurn dev parent (· != name) ⟨info, 0, 0⟩ ∧
          Scan.NeverNull dev parent (· != name) ⟨info, 0, 0⟩) ∧
      ∀ (σ : Type) (take : σ → DirEntry → σ) (data : σ) (pos : Nat),
        (∃ r, ustarReaddir dev parent info (accepting take) data pos = .ok r) ∧
            Scan.NeverBack dev parent (fun _ => true) ⟨info, pos, 0⟩ ↔
          Scan.NoFullTurn dev parent (fun _ => true) ⟨info, pos, 0⟩ ∧
            Scan.NeverNull dev parent (fun _ => true) ⟨info, pos, 0⟩ :=
  ⟨fun name => Scan.lookup_returns_iff name info,
    fun _ take data pos => Scan.readdir_returns_iff take info data pos⟩

/-- A file whose size is given as 4 GiB less one sector. -/
def vastFile : Header where
  name := ['a']
  owner := "0000644".toList ++ List.replicate 17 nul
  sizeDigits := "37777777000".toList
  sizeEnd := [nul]
  times := List.replicate 20 nul
  type := '0'
  others := List.replicate 188 nul
  filenamePrefix := []
  path := { absolute := false, mnt := none, components := [['a']] }
  length_name := by decide
  nul_notMem_name := by decide
  length_owner := fullName.length_owner
  length_size := by decide
  sizeDigits_octal := List.all_eq_true.mp (by decide)
  sizeEnd_octal := fullName.sizeEnd_octal
  length_times := fullName.length_times
  type_known := fullName.type_known
  length_others := fullName.length_others
  length_lead := fullName.length_lead
  nul_notMem_lead := fullName.nul_notMem_lead
  path_eq := by decide +kernel
  components_ne := by decide

/-- A device of one sector, which begins with the header of that file. -/
def vastDevice : Device where
  size := 512
  bytes i := vastFile.bytes.getD i nul

theorem vastDevice_read : vastDevice.read 0 metadataSize = vastFile.bytes := by
  have hlength := vastFile.length_bytes
  refine List.ext_getElem (by simp [Device.read, hlength, metadataSize, vastDevice])
    fun i hi hi' => ?_
  simp [Device.read, vastDevice, List.getD_eq_getElem?_getD, List.getElem?_eq_getElem hi']

/-- The scan of that device goes from the header to itself. -/
theorem vastDevice_loop (rounds : Nat) {info : List Char} {sector : Nat}
    (hsector : sector % 2 ^ 23 = 0) :
    ustarLookupLoop vastDevice Path.empty ['b'] rounds info sector = .error .hang := by
  induction rounds generalizing info sector with
  | zero => rfl
  | succ rounds ih =>
      have hseek : vastDevice.seekSet (sector * sectorSize) = .ok 0 := by
        have hzero : sector * 512 % 2 ^ 32 = 0 := by omega
        rw [Device.seekSet, sectorSize, hzero]
        rfl
      have hpath : ustarInodePath (cstring (vastFile.bytes ++ info.drop metadataSize))
          (cstring ((vastFile.bytes ++ info.drop metadataSize).drop prefixOffset)) =
            some vastFile.path :=
        vastFile.pathRead_eq (by decide) (by decide) _
      have hsectors : headerSectors (vastFile.bytes ++ info.drop metadataSize) = 2 ^ 23 :=
        vastFile.headerSectors_bytes _ (by decide)
      have hdirect : isDirectDecendent Path.empty vastFile.path = true := by decide
      have hlast : vastFile.path.components.getLast? = some ['a'] := rfl
      have hnext : (sector + 2 ^ 23) % 2 ^ 32 % 2 ^ 23 = 0 := by omega
      rw [ustarLookupLoop, hseek]
      simp only [vastDevice_read, vastFile.length_bytes, if_neg (vastFile.cstring_bytes_ne_nil _),
        hpath, hsectors, if_pos hdirect, hlast, ih hnext]
      exact if_neg (by decide)

/-- A lookup in that archive goes on for ever. -/
theorem vast_file_scanned_forever :
    ustarInoLookup vastDevice Path.empty ['b'] [] = .error .hang ∧
      ¬ ((∃ r, ustarInoLookup vastDevice Path.empty ['b'] [] = .ok r) ∧
        Scan.NeverBack vastDevice Path.empty (· != ['b']) ⟨[], 0, 0⟩) := by
  have hhang : ustarInoLookup vastDevice Path.empty ['b'] [] = .error .hang :=
    vastDevice_loop _ rfl
  refine ⟨hhang, fun ⟨⟨r, hr⟩, _⟩ => ?_⟩
  rw [hhang] at hr
  cases hr

end Fs
end JkxyKernel
