import JkxyKernel.Tty.ScreenBounds
import JkxyKernel.Tty.Switching

/-!
# Screens across switches

A screen holds what was written to its terminal, whatever was in the foreground meanwhile.
Three facts carry this through a switch.  Every terminal in use has memory of its own: the
VGA memory the one that owns it, a page each of the others.  Every reference is counted,
those that the running call has in hand included, so that no terminal is freed under the
foreground.  And every screen shows what its own bytes draw.
-/

namespace JkxyKernel
namespace Tty

/-- What a terminal is before anything is written to it. -/
def firstOutput : TtyPtr → Output
  | none => earlyOutput
  | some _ => freshOutput

/-- The screen of a terminal shows what its bytes, and nothing else, draw on `v`. -/
def Terminal.Shows (t : Terminal) (r : TtyPtr) (mem : Nat → BitVec 8) (v : Video) : Prop :=
  ∃ w, (firstOutput r).rawTtyWrite v t.written = .ok (t.output, w) ∧
    (Video.mk t.videoMem mem []).Agree w

theorem Terminal.Shows.of_same {t t' : Terminal} {r : TtyPtr} {mem mem' : Nat → BitVec 8}
    {v : Video} (h : t.Shows r mem v) (houtput : t'.output = t.output)
    (hwritten : t'.written = t.written)
    (hmem : ∀ i < vgaBufSize, mem' (t'.videoMem + i) = mem (t.videoMem + i)) :
    t'.Shows r mem' v := by
  obtain ⟨w, hw, hagree⟩ := h
  exact ⟨w, by rw [hwritten, houtput]; exact hw, fun i hi => (hmem i hi).trans (hagree i hi)⟩

namespace Terminals

/-- Every terminal has its place: the owner of the VGA memory has that, any other one a
page, and no two the same. -/
structure Placed (s : Terminals) (owner : Option TtyPtr) : Prop where
  shown : ∀ r t, owner = some r → s.tty r = some t → t.videoMem = vgaMem
  page : ∀ n t, s.tty (some n) = some t → owner ≠ some (some n) →
    t.videoMem % pageSize = 0 ∧ t.videoMem ≠ vgaMem ∧ s.pages t.videoMem = true
  apart : ∀ n n' t t', s.tty (some n) = some t → s.tty (some n') = some t' →
    owner ≠ some (some n) → owner ≠ some (some n') → t.videoMem = t'.videoMem → n = n'

/-- The references are those that others hold and those in hand. -/
structure Counted (s : Terminals) (inHand : List Nat) : Prop where
  count : ∀ n t, s.tty (some n) = some t →
    t.refcount = t.held + (inHand.count n : Int) ∧ 0 < t.refcount
  inHand : ∀ n ∈ inHand, (s.tty (some n)).isSome = true
  early : (s.tty none).isSome = true

/-- The early console is in use only while it owns the VGA memory. -/
def InUse (owner : Option TtyPtr) (r : TtyPtr) : Prop := r = none → owner = some none

/-- Every screen shows what was written to its terminal: of a terminal that `tty_get` made
whatever was in the page before, of the early console on the memory at boot. -/
def Showing (s : Terminals) (owner : Option TtyPtr) : Prop :=
  ∀ r t, s.tty r = some t → InUse owner r →
    ∀ v, (r = none → v = ⟨vgaMem, s.bootMem, []⟩) → t.Shows r s.mem v

variable {s s' : Terminals} {owner : Option TtyPtr} {l : List Nat} {r r' : TtyPtr}
  {t t' : Terminal} {n : Nat}

theorem tty_modTty {f : Terminal → Terminal} :
    (s.modTty r f).tty r' = if r' = r then (s.tty r).map f else s.tty r' :=
  Function.update_apply _ _ _ _

theorem modTty_cases {f : Terminal → Terminal} (ht' : (s.modTty r f).tty r' = some t') :
    (r' = r ∧ ∃ t, s.tty r' = some t ∧ t' = f t) ∨ (r' ≠ r ∧ s.tty r' = some t') := by
  rw [tty_modTty] at ht'
  split at ht'
  next heq =>
    obtain ⟨t, ht, hf⟩ := Option.map_eq_some_iff.mp ht'
    exact .inl ⟨heq, t, by rw [heq]; exact ht, hf.symm⟩
  next hne => exact .inr ⟨hne, ht'⟩

theorem isSome_modTty {f : Terminal → Terminal} (h : (s.tty r').isSome = true) :
    ((s.modTty r f).tty r').isSome = true := by
  rw [tty_modTty]
  split
  next heq =>
    rw [heq] at h
    rw [Option.isSome_map]
    exact h
  next => exact h

/-! ### Places -/

namespace Placed

theorem aligned (h : s.Placed owner) (ht : s.tty r = some t) (huse : InUse owner r) :
    t.videoMem % pageSize = 0 := by
  by_cases hown : owner = some r
  · rw [h.shown r t hown ht]
    rfl
  · cases r with
    | none => exact absurd (huse rfl) hown
    | some n => exact (h.page n t ht hown).1

/-- Terminals in use have different places. -/
theorem distinct (h : s.Placed owner) (ht : s.tty r = some t) (ht' : s.tty r' = some t')
    (huse : InUse owner r) (huse' : InUse owner r') (hne : r ≠ r') :
    t.videoMem ≠ t'.videoMem := by
  -- one of the two is not the owner of the VGA memory
  have hside : ∀ {r r' t t'}, s.tty r = some t → s.tty r' = some t' → InUse owner r' →
      r ≠ r' → owner = some r → t.videoMem ≠ t'.videoMem := by
    intro r r' t t' ht ht' huse' hne hown
    have hother : owner ≠ some r' := by
      rw [hown]
      exact fun h => hne (Option.some.inj h)
    cases r' with
    | none => exact absurd (huse' rfl) hother
    | some n' =>
        rw [h.shown r t hown ht]
        exact (h.page n' t' ht' hother).2.1.symm
  by_cases hown : owner = some r
  · exact hside ht ht' huse' hne hown
  by_cases hown' : owner = some r'
  · exact (hside ht' ht huse hne.symm hown').symm
  cases r with
  | none => exact absurd (huse rfl) hown
  | some n =>
      cases r' with
      | none => exact absurd (huse' rfl) hown'
      | some n' =>
          intro heq
          exact hne (congrArg some (h.apart n n' t t' ht ht' hown hown' heq))

/-- No byte of one page is a byte of another one. -/
theorem disjoint (h : s.Placed owner) (ht : s.tty r = some t) (ht' : s.tty r' = some t')
    (huse : InUse owner r) (huse' : InUse owner r') (hne : r ≠ r') {i j : Nat}
    (hi : i < pageSize) (hj : j < pageSize) : t.videoMem + i ≠ t'.videoMem + j := by
  have ha := h.aligned ht huse
  have ha' := h.aligned ht' huse'
  have hdistinct := h.distinct ht ht' huse huse' hne
  simp only [pageSize] at ha ha' hi hj
  omega

end Placed

/-- Every terminal was there before, in the same place and with the same text. -/
def From (s s' : Terminals) : Prop :=
  ∀ r t', s'.tty r = some t' → ∃ t, s.tty r = some t ∧ t'.videoMem = t.videoMem ∧
    t'.output = t.output ∧ t'.written = t.written

theorem from_modTty {f : Terminal → Terminal}
    (hf : ∀ t, (f t).videoMem = t.videoMem ∧ (f t).output = t.output ∧
      (f t).written = t.written) : s.From (s.modTty r f) := by
  intro r' t' ht'
  rw [tty_modTty] at ht'
  split at ht'
  next heq =>
    obtain ⟨t, ht, rfl⟩ := Option.map_eq_some_iff.mp ht'
    exact ⟨t, by rw [heq]; exact ht, hf t⟩
  next => exact ⟨t', ht', rfl, rfl, rfl⟩

theorem From.places (h : s.From s') :
    ∀ r t', s'.tty r = some t' → ∃ t, s.tty r = some t ∧ t'.videoMem = t.videoMem := by
  intro r t' ht'
  obtain ⟨t, ht, hv, -⟩ := h r t' ht'
  exact ⟨t, ht, hv⟩

theorem Placed.of_places (h : s.Placed owner)
    (hfrom : ∀ r t', s'.tty r = some t' → ∃ t, s.tty r = some t ∧ t'.videoMem = t.videoMem)
    (hpages : ∀ n t, s'.tty (some n) = some t → owner ≠ some (some n) →
      s.pages t.videoMem = true → s'.pages t.videoMem = true) : s'.Placed owner where
  shown r t' hown ht' := by
    obtain ⟨t, ht, hv⟩ := hfrom r t' ht'
    rw [hv, h.shown r t hown ht]
  page n t' ht' hown := by
    obtain ⟨t, ht, hv⟩ := hfrom _ t' ht'
    obtain ⟨haligned, hvga, hpage⟩ := h.page n t ht hown
    have hpage' := hpages n t' ht' hown (by rw [hv]; exact hpage)
    exact ⟨by rw [hv]; exact haligned, by rw [hv]; exact hvga, hpage'⟩
  apart n n' t₁ t₂ ht₁ ht₂ hown hown' heq := by
    obtain ⟨u₁, hu₁, hv₁⟩ := hfrom _ t₁ ht₁
    obtain ⟨u₂, hu₂, hv₂⟩ := hfrom _ t₂ ht₂
    exact h.apart n n' u₁ u₂ hu₁ hu₂ hown hown' (by rw [← hv₁, ← hv₂, heq])

/-- The screens go on showing what they show while the memory is left alone. -/
theorem Showing.of_from (h : s.Showing owner) (hfrom : s.From s') (hmem : s'.mem = s.mem)
    (hboot : s'.bootMem = s.bootMem) : s'.Showing owner := by
  intro r t' ht' huse v hv
  obtain ⟨t, ht, hplace, houtput, hwritten⟩ := hfrom r t' ht'
  have hshows := h r t ht huse v fun hr => by rw [← hboot]; exact hv hr
  exact hshows.of_same houtput hwritten fun i _ => by rw [hmem, hplace]

/-! ### Writing -/

theorem write_ok {buf : List (Chr × Bool)} (h : s.write r buf = .ok s') :
    ∃ t output v, s.tty r = some t ∧
      t.output.rawTtyWrite ⟨t.videoMem, s.mem, []⟩ buf = .ok (output, v) ∧
      s' = { s with mem := v.mem }.modTty r fun t =>
        { t with output := output, written := t.written ++ buf } := by
  simp only [write] at h
  split at h
  next => cases h
  next t ht =>
    split at h
    next => cases h
    next output v hv =>
      cases h
      exact ⟨t, output, v, ht, hv, rfl⟩

/-- Only a terminal that is not there is used after its `kfree`. -/
theorem write_not_freed {buf : List (Chr × Bool)} (ht : s.tty r = some t) :
    s.write r buf ≠ .error .freed := by
  simp only [write, ht]
  split <;> exact nofun

theorem rawTtyWrite_snoc (tty : Output) (v : Video) (buf : List (Chr × Bool)) (c : Chr)
    (found : Bool) :
    tty.rawTtyWrite v (buf ++ [(c, found)]) =
      tty.rawTtyWrite v buf >>= fun r => r.1.writeByte r.2 c found := by
  induction buf generalizing tty v with
  | nil =>
      simp only [List.nil_append, Output.rawTtyWrite, bind, Except.bind]
      cases tty.writeByte v c found <;> rfl
  | cons b rest ih =>
      simp only [List.cons_append, Output.rawTtyWrite, bind, Except.bind]
      cases tty.writeByte v b.1 b.2 with
      | error e => rfl
      | ok r => exact ih r.1 r.2

/-- A terminal that is not the one written to, but in use, keeps its screen. -/
theorem frame_of_within {v : Video} {f : Video → Video} (hp : s.Placed owner)
    (ht : s.tty r = some t) (ht' : s.tty r' = some t') (huse : InUse owner r)
    (huse' : InUse owner r') (hne : r' ≠ r) (hf : Video.Drawing f)
    (hv : v = ⟨t.videoMem, s.mem, []⟩) (hwithin : (f v).Within pageSize) :
    ∀ i < vgaBufSize, (f v).mem (t'.videoMem + i) = s.mem (t'.videoMem + i) := by
  subst hv
  intro i hi
  refine hf.frame ⟨t.videoMem, s.mem, []⟩ _ fun j hj => ?_
  exact hp.disjoint ht' ht huse' huse hne (Nat.lt_of_lt_of_le hi (by decide)) (hwithin j hj)

/-- A byte changes the screen it is written to as it would alone, and no other, unless the
display is erased beyond the page. -/
theorem Showing.write {c : Chr} {found : Bool} (h : s.Showing owner) (hp : s.Placed owner)
    (huse : InUse owner r) (ht : s.tty r = some t)
    (hok : t.output.erasesToCursor c = true → t.output.curpos * 2 ≤ pageSize)
    (hw : s.write r [(c, found)] = .ok s') : s'.Showing owner := by
  obtain ⟨t₀, output, v, ht₀, hwrite, rfl⟩ := write_ok hw
  obtain rfl : t = t₀ := Option.some.inj (ht.symm.trans ht₀)
  have hbyte : t.output.writeByte ⟨t.videoMem, s.mem, []⟩ c found = .ok (output, v) := by
    have h := rawTtyWrite_snoc t.output ⟨t.videoMem, s.mem, []⟩ [] c found
    rw [List.nil_append, hwrite] at h
    exact h.symm
  rcases Output.drawn_writeByte c found with ⟨output', f, hf, hall⟩ | ⟨e, hall⟩
  · have hthis := (hall ⟨t.videoMem, s.mem, []⟩).symm.trans hbyte
    cases hthis
    have hwithin := (Output.within_writeByte (by decide) hbyte).mpr ⟨hok, fun i hi => nomatch hi⟩
    intro r' t' ht' huse' w hw
    rw [tty_modTty] at ht'
    split at ht'
    next heq =>
      subst heq
      obtain ⟨u, hu, hagree⟩ := h _ t ht huse w hw
      have ht'' : (s.tty r').map (fun t => { t with
          output := output, written := t.written ++ [(c, found)] }) = some t' := ht'
      rw [ht] at ht''
      cases ht''
      refine ⟨f u, ?_, ?_⟩
      · rw [rawTtyWrite_snoc, hu]
        exact hall u
      · have hdrawn := hf.agree _ _ hagree
        intro i hi
        have hbase := hf.base ⟨t.videoMem, s.mem, []⟩
        have := hdrawn i hi
        rwa [hbase] at this
    next hne =>
      refine (h r' t' ht' huse' w hw).of_same rfl rfl ?_
      exact frame_of_within hp ht ht' huse huse' hne hf rfl hwithin
  · cases (hall _).symm.trans hbyte

/-! ### References -/

/-- A terminal and the references in hand change together. -/
theorem Counted.modTty {f : Terminal → Terminal} {l' : List Nat} (h : s.Counted l)
    (ht : s.tty (some n) = some t)
    (hf : (f t).refcount = (f t).held + (l'.count n : Int) ∧ 0 < (f t).refcount)
    (hothers : ∀ n', n' ≠ n → l'.count n' = l.count n') :
    (s.modTty (some n) f).Counted l' where
  count n' t' ht' := by
    rw [tty_modTty] at ht'
    split at ht'
    next heq =>
      obtain rfl : n' = n := Option.some.inj heq
      rw [ht] at ht'
      cases ht'
      exact hf
    next hne =>
      rw [hothers n' fun heq => hne (congrArg some heq)]
      exact h.count n' t' ht'
  inHand n' hn' := by
    rw [tty_modTty]
    split
    next => simp [ht]
    next hne =>
      refine h.inHand n' ?_
      rw [← List.count_pos_iff, ← hothers n' fun heq => hne (congrArg some heq)]
      exact List.count_pos_iff.mpr hn'
  early := h.early

theorem count_cons_other {n' : Nat} (hne : n' ≠ n) : (n :: l).count n' = l.count n' :=
  List.count_cons_of_ne hne.symm

/-- The terminals in their places, their references, and their screens. -/
structure Sound (s : Terminals) (owner : Option TtyPtr) (inHand : List Nat) : Prop where
  placed : s.Placed owner
  counted : s.Counted inHand
  showing : s.Showing owner

namespace Sound

theorem isSome_of_mem (h : s.Sound owner l) (hn : n ∈ l) : ∃ t, s.tty (some n) = some t :=
  Option.isSome_iff_exists.mp (h.counted.inHand n hn)

/-- The counts of a terminal are changed, and nothing else of it. -/
theorem modTty {f : Terminal → Terminal} {l' : List Nat} (h : s.Sound owner l)
    (hsame : ∀ t, (f t).videoMem = t.videoMem ∧ (f t).output = t.output ∧
      (f t).written = t.written)
    (ht : s.tty (some n) = some t)
    (hf : (f t).refcount = (f t).held + (l'.count n : Int) ∧ 0 < (f t).refcount)
    (hothers : ∀ n', n' ≠ n → l'.count n' = l.count n') :
    (s.modTty (some n) f).Sound owner l' where
  placed := h.placed.of_places (from_modTty hsame).places fun _ _ _ _ hpage => hpage
  counted := h.counted.modTty ht hf hothers
  showing := h.showing.of_from (from_modTty hsame) rfl rfl

/-- `atomic_inc` puts a reference in hand. -/
theorem hold (h : s.Sound owner l) (ht : s.tty (some n) = some t) :
    ∃ s', s.hold n = .ok s' ∧ s'.Sound owner (n :: l) ∧ s'.foreground = s.foreground ∧
      s'.pages = s.pages := by
  obtain ⟨hcount, hpos⟩ := h.counted.count n t ht
  refine ⟨s.modTty (some n) fun t => { t with refcount := t.refcount + 1 },
    by simp only [Terminals.hold, ht], ?_, rfl, rfl⟩
  refine h.modTty (fun _ => ⟨rfl, rfl, rfl⟩) ht ⟨?_, ?_⟩ fun _ => count_cons_other
  · simp only [List.count_cons_self, hcount]
    omega
  · exact Int.lt_add_one_of_le (Int.le_of_lt hpos)

/-- Somebody keeps the reference in hand. -/
theorem keep (h : s.Sound owner (n :: l)) :
    (s.modTty (some n) fun t => { t with held := t.held + 1 }).Sound owner l := by
  obtain ⟨t, ht⟩ := h.isSome_of_mem List.mem_cons_self
  obtain ⟨hcount, hpos⟩ := h.counted.count n t ht
  refine h.modTty (fun _ => ⟨rfl, rfl, rfl⟩) ht ⟨?_, hpos⟩ fun _ hne => (count_cons_other hne).symm
  rw [List.count_cons_self] at hcount
  simp only [hcount]
  omega

/-- Somebody gives the reference back to the code. -/
theorem give (h : s.Sound owner l) (hheld : s.isHeld n = true) :
    (s.modTty (some n) fun t => { t with held := t.held - 1 }).Sound owner (n :: l) := by
  simp only [isHeld, Option.any_eq_true, decide_eq_true_eq] at hheld
  obtain ⟨t, ht, hpos'⟩ := hheld
  obtain ⟨hcount, hpos⟩ := h.counted.count n t ht
  refine h.modTty (fun _ => ⟨rfl, rfl, rfl⟩) ht ⟨?_, hpos⟩ fun _ => count_cons_other
  simp only [List.count_cons_self, hcount]
  omega

/-- `tty_put` drops a reference in hand, and the terminal if it was the last. -/
theorem ttyPut (h : s.Sound owner l) (hn : n ∈ l) :
    ∃ s', s.ttyPut n = .ok s' ∧ s'.Sound owner (l.erase n) ∧
      s'.foreground = s.foreground := by
  obtain ⟨t, ht⟩ := h.isSome_of_mem hn
  obtain ⟨hcount, hpos⟩ := h.counted.count n t ht
  have hin : 0 < l.count n := List.count_pos_iff.mpr hn
  have herase : (l.erase n).count n = l.count n - 1 := List.count_erase_self
  have hothers : ∀ n', n' ≠ n → (l.erase n).count n' = l.count n' :=
    fun n' hne => List.count_erase_of_ne hne
  simp only [Terminals.ttyPut, ht]
  split
  next hmore =>
    refine ⟨_, rfl, h.modTty (fun _ => ⟨rfl, rfl, rfl⟩) ht ⟨?_, ?_⟩ hothers, rfl⟩
    · simp only [hcount, herase]
      omega
    · change 0 < t.refcount - 1
      omega
  next hlast =>
    have hzero : (l.erase n).count n = 0 := by omega
    -- what is left was there before, and is not the one that is freed
    have hleft : ∀ r t', Function.update s.tty (some n) none r = some t' →
        s.tty r = some t' ∧ r ≠ some n := by
      intro r t' ht'
      rw [Function.update_apply] at ht'
      split at ht'
      next => cases ht'
      next hne => exact ⟨ht', hne⟩
    refine ⟨_, rfl, ⟨?_, ⟨?_, ?_, h.counted.early⟩, ?_⟩, rfl⟩
    · refine h.placed.of_places (fun r t' ht' => ⟨t', (hleft r t' ht').1, rfl⟩) ?_
      intro n' t' ht' hown hpage
      obtain ⟨hold, hne⟩ := hleft _ t' ht'
      have hapart : t'.videoMem ≠ t.videoMem :=
        h.placed.distinct hold ht (fun hr => nomatch hr) (fun hr => nomatch hr) hne
      change Function.update s.pages t.videoMem false t'.videoMem = true
      rw [Function.update_of_ne hapart]
      exact hpage
    · intro n' t' ht'
      obtain ⟨hold, hne⟩ := hleft _ t' ht'
      rw [hothers n' fun heq => hne (congrArg some heq)]
      exact h.counted.count n' t' hold
    · intro n' hn'
      have hne : n' ≠ n := by
        rintro rfl
        have := List.count_pos_iff.mpr hn'
        omega
      have hsome : some n' ≠ some n := fun heq => hne (Option.some.inj heq)
      change (Function.update s.tty (some n) none (some n')).isSome = true
      rw [Function.update_of_ne hsome]
      exact h.counted.inHand n' (List.mem_of_mem_erase hn')
    · exact h.showing.of_from (fun r t' ht' => ⟨t', (hleft r t' ht').1, rfl, rfl, rfl⟩) rfl rfl

end Sound

/-! ### Making a terminal -/

/-- A write changes no places. -/
theorem Placed.write {buf : List (Chr × Bool)} (h : s.Placed owner)
    (hw : s.write r buf = .ok s') : s'.Placed owner := by
  obtain ⟨t, output, v, ht, -, rfl⟩ := write_ok hw
  refine h.of_places (fun r' t' ht' => ?_) fun _ _ _ _ hpage => hpage
  rw [tty_modTty] at ht'
  split at ht'
  next heq =>
    subst heq
    obtain ⟨t₀, ht₀, rfl⟩ := Option.map_eq_some_iff.mp ht'
    exact ⟨t₀, ht₀, rfl⟩
  next => exact ⟨t', ht', rfl⟩

/-- Nor any counts. -/
theorem Counted.write {buf : List (Chr × Bool)} (h : s.Counted l)
    (hw : s.write r buf = .ok s') : s'.Counted l := by
  obtain ⟨t, output, v, ht, -, rfl⟩ := write_ok hw
  have hlive : ∀ r', (s.tty r').isSome = true → (({ s with mem := v.mem }.modTty r fun t =>
      { t with output := output, written := t.written ++ buf }).tty r').isSome = true :=
    fun _ => isSome_modTty
  refine ⟨fun n' t' ht' => ?_, fun n' hn' => hlive _ (h.inHand n' hn'), hlive _ h.early⟩
  rcases modTty_cases ht' with ⟨-, t₀, ht₀, rfl⟩ | ⟨-, ht₀⟩
  · exact h.count n' t₀ ht₀
  · exact h.count n' t' ht₀

/-- The first write to a terminal erases the display, whatever is there. -/
theorem rawTtyWrite_clear :
    ∃ output f, Video.Drawing f ∧ (∀ v, v.used = [] → (f v).Within vgaBufSize) ∧
      (∀ v w, (f v).Agree (f w)) ∧
      ∀ v, freshOutput.rawTtyWrite v (clearBytes true) = .ok (output, f v) := by
  obtain ⟨output, tty, hclear⟩ : ∃ output tty : Output, ∀ v,
      freshOutput.rawTtyWrite v (clearBytes true) = .ok (output, tty.blank v 0 vgaChars) :=
    ⟨_, _, fun _ => rfl⟩
  have hdrawing : Video.Drawing fun v => tty.blank v 0 vgaChars :=
    Output.drawing_blank 0 vgaChars
  refine ⟨output, _, hdrawing, fun v hv => ?_, fun v w i hi => ?_, hclear⟩
  · refine Output.within_blank.mpr ⟨fun _ => Nat.le_refl _, ?_⟩
    simp [Video.Within, hv]
  · rw [hdrawing.base v, hdrawing.base w]
    exact Output.blank_agree vgaChars i (by rw [Nat.mul_comm]; exact hi)

theorem rawTtyWrite_clear_null (v : Video) :
    freshOutput.rawTtyWrite v (clearBytes false) = .error .null := rfl

section Make

variable {a : TtyAlloc} {deviceNum : Nat}

/-- What `tty_get` makes, as a terminal. -/
theorem tty_make :
    (s.make deviceNum n a).tty r = if r = some n then some
      { refcount := 1, deviceNum := deviceNum, videoMem := a.page, output := freshOutput
        written := [], held := 0 } else s.tty r :=
  Function.update_apply _ _ _ _

theorem canAlloc_iff {p : Nat} :
    s.canAlloc p = true ↔ p % pageSize = 0 ∧ p ≠ vgaMem ∧ s.pages p = false := by
  simp [canAlloc, and_assoc]

/-- A new page is the place of no terminal. -/
theorem Placed.ne_of_canAlloc {p : Nat} (h : s.Placed owner) (hp : s.canAlloc p = true)
    (ht : s.tty (some n) = some t) : t.videoMem ≠ p := by
  obtain ⟨-, hvga, hfree⟩ := canAlloc_iff.mp hp
  rintro rfl
  by_cases hown : owner = some (some n)
  · exact hvga (h.shown _ t hown ht)
  · have hpage := (h.page n t ht hown).2.2
    rw [hfree] at hpage
    cases hpage

theorem Placed.make (h : s.Placed owner) (hown : owner ≠ some (some n))
    (hpage : s.canAlloc a.page = true) : (s.make deviceNum n a).Placed owner where
  shown r t hr ht := by
    rw [tty_make] at ht
    split at ht
    next heq =>
      subst heq
      exact absurd hr hown
    next => exact h.shown r t hr ht
  page n' t ht hn' := by
    rw [tty_make] at ht
    split at ht
    next heq =>
      cases ht
      obtain ⟨haligned, hvga, -⟩ := canAlloc_iff.mp hpage
      exact ⟨haligned, hvga, Function.update_self _ _ _⟩
    next hne =>
      obtain ⟨haligned, hvga, hallocated⟩ := h.page n' t ht hn'
      refine ⟨haligned, hvga, ?_⟩
      change Function.update s.pages a.page true t.videoMem = true
      rw [Function.update_of_ne (h.ne_of_canAlloc hpage ht)]
      exact hallocated
  apart n₁ n₂ t₁ t₂ ht₁ ht₂ hn₁ hn₂ heq := by
    rw [tty_make] at ht₁ ht₂
    split at ht₁ <;> split at ht₂
    next h₁ h₂ => exact Option.some.inj (h₁.trans h₂.symm)
    next h₁ h₂ =>
      cases ht₁
      exact absurd heq.symm (h.ne_of_canAlloc hpage ht₂)
    next h₁ h₂ =>
      cases ht₂
      exact absurd heq (h.ne_of_canAlloc hpage ht₁)
    next h₁ h₂ => exact h.apart n₁ n₂ t₁ t₂ ht₁ ht₂ hn₁ hn₂ heq

theorem Counted.make (h : s.Counted l) (hn : s.tty (some n) = none) :
    (s.make deviceNum n a).Counted (n :: l) where
  count n' t ht := by
    rw [tty_make] at ht
    split at ht
    next heq =>
      obtain rfl : n' = n := Option.some.inj heq
      cases ht
      have hnot : n' ∉ l := fun hin => by
        have := h.inHand n' hin
        rw [hn] at this
        cases this
      simp [List.count_eq_zero_of_not_mem hnot]
    next hne =>
      rw [count_cons_other fun heq => hne (congrArg some heq)]
      exact h.count n' t ht
  inHand n' hn' := by
    rw [tty_make]
    split
    next => rfl
    next hne =>
      rcases List.mem_cons.mp hn' with rfl | hin
      · exact absurd rfl hne
      · exact h.inHand n' hin
  early := h.early

/-- A terminal that is made and cleared shows nothing yet, and all others what they
showed. -/
theorem Showing.make (h : s.Showing owner) (hp : s.Placed owner) (hown : owner ≠ some (some n))
    (hpage : s.canAlloc a.page = true)
    (hw : (s.make deviceNum n a).write (some n) (clearBytes a.copy) = .ok s') :
    s'.Showing owner := by
  have hp' := @Placed.make _ _ _ _ deviceNum hp hown hpage
  obtain ⟨t₀, output, v, ht₀, hwrite, rfl⟩ := write_ok hw
  have hnew : (s.make deviceNum n a).tty (some n) = some t₀ := ht₀
  rw [tty_make, if_pos rfl] at ht₀
  cases ht₀
  cases hcopy : a.copy with
  | false =>
      rw [hcopy, rawTtyWrite_clear_null] at hwrite
      cases hwrite
  | true =>
      obtain ⟨output', f, hf, hwithin, hsame, hclear⟩ := rawTtyWrite_clear
      rw [hcopy, hclear] at hwrite
      cases hwrite
      intro r' t' ht' huse' w hw'
      rw [tty_modTty] at ht'
      split at ht'
      next heq =>
        subst heq
        have ht'' : Option.map _ ((s.make deviceNum n a).tty (some n)) = some t' := ht'
        rw [hnew] at ht''
        cases ht''
        refine ⟨f w, ?_, ?_⟩
        · exact hclear w
        · intro i hi
          have hbase := hf.base ⟨a.page, (s.make deviceNum n a).mem, []⟩
          have hagree := hsame ⟨a.page, (s.make deviceNum n a).mem, []⟩ w i hi
          rwa [hbase] at hagree
      next hne =>
        have hold : (s.make deviceNum n a).tty r' = some t' := ht'
        have hshown : s.tty r' = some t' := by
          rw [tty_make, if_neg hne] at hold
          exact hold
        refine (h r' t' hshown huse' w hw').of_same rfl rfl ?_
        refine frame_of_within (s := s.make deviceNum n a) hp' hnew hold
          (fun hr => nomatch hr) huse' hne hf rfl ?_
        exact fun i hi => Nat.lt_of_lt_of_le (hwithin _ rfl i hi) (by decide)

/-- A page that is freed at once. -/
theorem Sound.allocFree {p : Nat} (h : s.Sound owner l) (hp : s.canAlloc p = true) :
    ((s.allocPage p).freePage p).Sound owner l where
  placed := by
    refine h.placed.of_places (fun r t ht => ⟨t, ht, rfl⟩) fun n t ht _ hpage => ?_
    have hne := h.placed.ne_of_canAlloc hp (show s.tty (some n) = some t from ht)
    change Function.update (Function.update s.pages p true) p false t.videoMem = true
    rw [Function.update_of_ne hne, Function.update_of_ne hne]
    exact hpage
  counted := ⟨h.counted.count, h.counted.inHand, h.counted.early⟩
  showing := h.showing

/-- `tty_get` of a device that has no terminal yet. -/
theorem Sound.make (h : s.Sound owner l) (deviceNum : Nat)
    (hown : ∀ n, owner = some (some n) → n ∈ l)
    (hpage : s.canAlloc a.page = true) (hn : s.tty (some n) = none) :
    (s.make deviceNum n a).write (some n) (clearBytes a.copy) ≠ .error .freed ∧
      ∀ s', (s.make deviceNum n a).write (some n) (clearBytes a.copy) = .ok s' →
        s'.Sound owner (n :: l) ∧ s'.foreground = s.foreground ∧
          ∀ p ≠ a.page, s'.pages p = s.pages p := by
  have hother : owner ≠ some (some n) := fun heq => by
    have := h.counted.inHand n (hown n heq)
    rw [hn] at this
    cases this
  refine ⟨write_not_freed (by rw [tty_make, if_pos rfl]), fun s' hw => ⟨⟨?_, ?_, ?_⟩, ?_, ?_⟩⟩
  · exact (h.placed.make hother hpage).write hw
  · exact (h.counted.make hn).write hw
  · exact h.showing.make h.placed hother hpage hw
  · obtain ⟨t, output, v, -, -, rfl⟩ := write_ok hw
    rfl
  · obtain ⟨t, output, v, -, -, rfl⟩ := write_ok hw
    exact fun p hp => Function.update_of_ne hp _ _

end Make

/-! ### A switch -/

theorem mem_copyPage {dst src a : Nat} :
    (s.copyPage dst src).mem a =
      if dst ≤ a ∧ a < dst + pageSize then s.mem (src + (a - dst)) else s.mem a :=
  rfl

/-- The copy of a page. -/
theorem mem_copyPage_inside {dst src i : Nat} (hi : i < pageSize) :
    (s.copyPage dst src).mem (dst + i) = s.mem (src + i) := by
  rw [mem_copyPage, if_pos (by omega), Nat.add_sub_cancel_left]

/-- What is not the destination of the copy. -/
theorem mem_copyPage_outside {dst src p i : Nat} (hdst : dst % pageSize = 0)
    (hp : p % pageSize = 0) (hne : p ≠ dst) (hi : i < pageSize) :
    (s.copyPage dst src).mem (p + i) = s.mem (p + i) := by
  rw [mem_copyPage, if_neg]
  simp only [pageSize] at hdst hp hi ⊢
  omega

theorem vgaMem_aligned : vgaMem % pageSize = 0 := rfl

/-- Moving a screen changes no counts. -/
theorem Counted.moved {p : Nat} (h : s.Counted l) :
    (s.modTty r fun t => { t with videoMem := p }).Counted l where
  count n' t' ht' := by
    rcases modTty_cases ht' with ⟨-, t, ht, rfl⟩ | ⟨-, ht⟩
    · exact h.count n' t ht
    · exact h.count n' t' ht
  inHand n' hn' := isSome_modTty (h.inHand n' hn')
  early := isSome_modTty h.early

theorem some_some_ne {r : TtyPtr} (hne : r ≠ some n) : (some (some n) : Option TtyPtr) ≠ some r :=
  fun heq => hne (Option.some.inj heq).symm

/-- The screen of the owner of the VGA memory is saved to a new page; then there is no
owner. -/
theorem Sound.save {save : Nat} (h : s.Sound (some (some n)) l)
    (hsave : s.canAlloc save = true) :
    (((s.allocPage save).copyPage save vgaMem).modTty (some n) fun t =>
      { t with videoMem := save }).Sound none l := by
  obtain ⟨haligned, hvga, hfree⟩ := canAlloc_iff.mp hsave
  have hmem : ∀ i < vgaBufSize, i < pageSize := fun i hi => Nat.lt_of_lt_of_le hi (by decide)
  refine ⟨⟨nofun, fun n' t' ht' _ => ?_, fun n₁ n₂ t₁ t₂ ht₁ ht₂ _ _ heq => ?_⟩,
    ?_, fun r t' ht' huse v hv => ?_⟩
  · rcases modTty_cases ht' with ⟨-, t, -, rfl⟩ | ⟨hne, ht⟩
    · exact ⟨haligned, hvga, Function.update_self _ _ _⟩
    · obtain ⟨ha, hv, hpage⟩ := h.placed.page n' t' ht (some_some_ne hne)
      refine ⟨ha, hv, ?_⟩
      change Function.update s.pages save true t'.videoMem = true
      rw [Function.update_of_ne (h.placed.ne_of_canAlloc hsave ht)]
      exact hpage
  · rcases modTty_cases ht₁ with ⟨h₁, u₁, -, rfl⟩ | ⟨h₁, hu₁⟩ <;>
      rcases modTty_cases ht₂ with ⟨h₂, u₂, -, rfl⟩ | ⟨h₂, hu₂⟩
    · exact Option.some.inj (h₁.trans h₂.symm)
    · exact absurd heq.symm (h.placed.ne_of_canAlloc hsave hu₂)
    · exact absurd heq (h.placed.ne_of_canAlloc hsave hu₁)
    · exact h.placed.apart n₁ n₂ t₁ t₂ hu₁ hu₂ (some_some_ne h₁) (some_some_ne h₂) heq
  · have hsame : ((s.allocPage save).copyPage save vgaMem).Counted l :=
      ⟨h.counted.count, h.counted.inHand, h.counted.early⟩
    exact hsame.moved
  · have hreal : r ≠ none := fun hr => nomatch huse hr
    have huse' : InUse (some (some n)) r := fun hr => absurd hr hreal
    rcases modTty_cases ht' with ⟨rfl, t, ht, rfl⟩ | ⟨hne, ht⟩
    · refine (h.showing _ t ht huse' v hv).of_same rfl rfl fun i hi => ?_
      rw [h.placed.shown _ t rfl ht]
      exact mem_copyPage_inside (s := s.allocPage save) (hmem i hi)
    · refine (h.showing _ t' ht huse' v hv).of_same rfl rfl fun i hi => ?_
      obtain ⟨n', rfl⟩ := Option.ne_none_iff_exists'.mp hreal
      exact mem_copyPage_outside (s := s.allocPage save) haligned
        (h.placed.aligned ht huse') (h.placed.ne_of_canAlloc hsave ht) (hmem i hi)

/-- The screen of a terminal is copied to the VGA memory, which has no owner, and its page
is freed. -/
theorem Sound.show (h : s.Sound none l) (ht : s.tty (some n) = some t) :
    (((s.copyPage vgaMem t.videoMem).freePage t.videoMem).modTty (some n) fun t =>
      { t with videoMem := vgaMem }).Sound (some (some n)) l := by
  have hmem : ∀ i < vgaBufSize, i < pageSize := fun i hi => Nat.lt_of_lt_of_le hi (by decide)
  refine ⟨⟨fun r t' hr ht' => ?_, fun n' t' ht' hown => ?_,
    fun n₁ n₂ t₁ t₂ ht₁ ht₂ hown₁ hown₂ heq => ?_⟩, ?_, fun r t' ht' huse v hv => ?_⟩
  · rcases modTty_cases ht' with ⟨-, u, -, rfl⟩ | ⟨hne, -⟩
    · rfl
    · exact absurd hr (some_some_ne hne)
  · rcases modTty_cases ht' with ⟨heq, -⟩ | ⟨hne, hu⟩
    · exact absurd (congrArg some heq.symm) hown
    · obtain ⟨ha, hv, hpage⟩ := h.placed.page n' t' hu nofun
      refine ⟨ha, hv, ?_⟩
      have hdistinct := h.placed.distinct hu ht (fun hr => nomatch hr) (fun hr => nomatch hr) hne
      change Function.update s.pages t.videoMem false t'.videoMem = true
      rw [Function.update_of_ne hdistinct]
      exact hpage
  · rcases modTty_cases ht₁ with ⟨h₁, -⟩ | ⟨-, hu₁⟩
    · exact absurd (congrArg some h₁.symm) hown₁
    rcases modTty_cases ht₂ with ⟨h₂, -⟩ | ⟨-, hu₂⟩
    · exact absurd (congrArg some h₂.symm) hown₂
    exact h.placed.apart n₁ n₂ t₁ t₂ hu₁ hu₂ nofun nofun heq
  · have hsame : ((s.copyPage vgaMem t.videoMem).freePage t.videoMem).Counted l :=
      ⟨h.counted.count, h.counted.inHand, h.counted.early⟩
    exact hsame.moved
  · have hreal : r ≠ none := fun hr => nomatch huse hr
    have huse' : InUse none r := fun hr => absurd hr hreal
    rcases modTty_cases ht' with ⟨rfl, u, hu, rfl⟩ | ⟨hne, hu⟩
    · obtain rfl : t = u := Option.some.inj (ht.symm.trans hu)
      refine (h.showing _ t ht huse' v hv).of_same rfl rfl fun i hi => ?_
      exact mem_copyPage_inside (hmem i hi)
    · refine (h.showing _ t' hu huse' v hv).of_same rfl rfl fun i hi => ?_
      obtain ⟨n', rfl⟩ := Option.ne_none_iff_exists'.mp hreal
      obtain ⟨ha, hv, -⟩ := h.placed.page n' t' hu nofun
      exact mem_copyPage_outside vgaMem_aligned ha hv (hmem i hi)

/-- The early console leaves the foreground. -/
theorem Sound.leave (h : s.Sound (some none) l) : s.Sound none l where
  placed := ⟨nofun, fun n t ht _ => h.placed.page n t ht nofun,
    fun n₁ n₂ t₁ t₂ ht₁ ht₂ _ _ => h.placed.apart n₁ n₂ t₁ t₂ ht₁ ht₂ nofun nofun⟩
  counted := h.counted
  showing r t ht huse := h.showing r t ht fun hr => nomatch huse hr

/-- `foreground_tty` is none of what `Sound` is about. -/
theorem Sound.setForeground (h : s.Sound owner l) (r : TtyPtr) :
    { s with foreground := r }.Sound owner l :=
  ⟨⟨h.placed.shown, h.placed.page, h.placed.apart⟩, ⟨h.counted.count, h.counted.inHand, h.counted.early⟩,
    h.showing⟩

/-! ### The calls -/

/-- What holds between the calls: the foreground owns the VGA memory, and holds a reference
unless it is the early console. -/
def Settled (s : Terminals) : Prop :=
  s.Sound (some s.foreground) s.foreground.toList

section Calls

variable {a : TtyAlloc} {session : Option Nat} {deviceNum save : Nat}

theorem tty_of_isHeld (h : s.isHeld n = true) : ∃ t, s.tty (some n) = some t := by
  simp only [isHeld, Option.any_eq_true] at h
  obtain ⟨t, ht, -⟩ := h
  exact ⟨t, ht⟩

/-- `tty_get` puts a reference to its result in hand. -/
theorem Sound.ttyGet (h : s.Sound owner l) (hown : ∀ n, owner = some (some n) → n ∈ l)
    (ha : a.ready s session = true) (deviceNum : Nat) :
    s.ttyGet deviceNum session a ≠ .error .freed ∧
      ∀ got s', s.ttyGet deviceNum session a = .ok (got, s') →
        s'.Sound owner (got.toList ++ l) ∧ s'.foreground = s.foreground ∧
          ∀ p ≠ a.page, s'.pages p = s.pages p := by
  simp only [TtyAlloc.ready, Bool.and_eq_true] at ha
  obtain ⟨⟨hsession, hpage⟩, hrecord⟩ := ha
  have hhold : ∀ n t, s.tty (some n) = some t →
      (do return (some n, ← s.hold n) : Except TtyFault _) ≠ .error .freed ∧
      ∀ got s', (do return (some n, ← s.hold n) : Except TtyFault _) = .ok (got, s') →
        s'.Sound owner (got.toList ++ l) ∧ s'.foreground = s.foreground ∧
          ∀ p ≠ a.page, s'.pages p = s.pages p := by
    intro n t ht
    obtain ⟨s', hs', hsound, hforeground, hpages⟩ := h.hold ht
    rw [hs']
    refine ⟨nofun, fun got s'' heq => ?_⟩
    cases heq
    exact ⟨hsound, hforeground, fun p _ => by rw [hpages]⟩
  simp only [Terminals.ttyGet]
  split
  next =>
    cases session with
    | none =>
        refine ⟨nofun, fun got s' heq => ?_⟩
        cases heq
        exact ⟨h, rfl, fun _ _ => rfl⟩
    | some n =>
        obtain ⟨t, ht⟩ := tty_of_isHeld hsession
        exact hhold n t ht
  next =>
    split
    next n hfound =>
      have hmatch := List.find?_some hfound
      obtain ⟨t, ht, -⟩ := (Option.any_eq_true ..).mp hmatch
      exact hhold n t ht
    next =>
      cases hr : a.record with
      | none =>
          refine ⟨nofun, fun got s' heq => ?_⟩
          cases heq
          refine ⟨h.allocFree hpage, rfl, fun p hp => ?_⟩
          change Function.update (Function.update s.pages a.page true) a.page false p = s.pages p
          rw [Function.update_of_ne hp, Function.update_of_ne hp]
      | some n =>
          rw [hr] at hrecord
          have hn : s.tty (some n) = none := Option.isNone_iff_eq_none.mp hrecord
          obtain ⟨hnot, hok⟩ := h.make _ hown hpage hn
          simp only [bind, Except.bind]
          split
          next e hw =>
            refine ⟨fun heq => hnot ?_, nofun⟩
            rw [hw, Except.error.inj heq]
          next s₁ hw =>
            refine ⟨nofun, fun got s' heq => ?_⟩
            cases heq
            exact hok s₁ hw

theorem owner_inHand {r : TtyPtr} : ∀ n, some r = some (some n) → n ∈ r.toList := by
  intro n heq
  rw [Option.some.inj heq]
  exact List.mem_singleton_self n

/-- The screen in the foreground is saved, and its terminal loses a reference; what else is
in hand stays. -/
theorem Sound.saveForeground (h : s.Sound (some s.foreground) (n :: s.foreground.toList))
    (hsave : s.canAlloc save = true) (hne : s.foreground ≠ some n) :
    ∃ s', s.saveForeground save = .ok s' ∧ s'.Sound none [n] := by
  simp only [Terminals.saveForeground]
  split
  next hf =>
    rw [hf] at h
    exact ⟨s, rfl, h.leave⟩
  next m hf =>
    rw [hf] at h
    have hm : m ∈ n :: (some m).toList := by simp
    obtain ⟨s', hs', hsound, -⟩ := (h.save hsave).ttyPut hm
    refine ⟨s', hs', ?_⟩
    have hnm : n ≠ m := by
      rintro rfl
      exact hne hf
    have herase : (n :: (some m).toList).erase m = [n] := by
      rw [List.erase_cons_tail (by simpa using hnm)]
      simp
    rwa [herase] at hsound

/-- A terminal in hand comes to the foreground. -/
theorem Sound.showForeground (h : s.Sound none [n]) :
    ∃ s', s.showForeground n = .ok s' ∧ s'.Settled := by
  obtain ⟨t, ht⟩ := h.isSome_of_mem (List.mem_singleton_self n)
  have h' := (h.setForeground (some n)).show (t := t) ht
  exact ⟨_, by simp only [Terminals.showForeground, ht], h'⟩

/-- `tty_switch_foreground` -/
theorem Settled.switchForeground (h : s.Settled) (ha : a.ready s session = true)
    (hsave : s.canAlloc save = true) (hother : save ≠ a.page) (deviceNum : Nat) :
    s.switchForeground deviceNum session a save ≠ .error .freed ∧
      ∀ s', s.switchForeground deviceNum session a save = .ok s' → s'.Settled := by
  obtain ⟨hnot, hok⟩ := Sound.ttyGet h owner_inHand ha deviceNum
  simp only [Terminals.switchForeground, bind, Except.bind]
  split
  next e hget =>
    refine ⟨fun heq => hnot ?_, nofun⟩
    rw [hget, Except.error.inj heq]
  next r hget =>
    obtain ⟨got, s₁⟩ := r
    obtain ⟨h₁, hforeground, hpages⟩ := hok got s₁ hget
    rw [← hforeground] at h₁
    cases got with
    | none =>
        refine ⟨nofun, fun s' heq => ?_⟩
        cases heq
        exact h₁
    | some n =>
        simp only
        split
        next hsame =>
          obtain ⟨s₂, hs₂, h₂, hforeground₂⟩ := h₁.ttyPut (n := n) (by simp)
          rw [hs₂]
          refine ⟨nofun, fun s' heq => ?_⟩
          cases heq
          have herase : ((some n).toList ++ s₁.foreground.toList).erase n =
              s₁.foreground.toList := by
            simp
          rwa [herase, ← hforeground₂] at h₂
        next hne =>
          have hsave₁ : s₁.canAlloc save = true := by
            rw [canAlloc_iff, hpages save hother]
            exact canAlloc_iff.mp hsave
          obtain ⟨s₂, hs₂, h₂⟩ := h₁.saveForeground hsave₁ hne
          obtain ⟨s₃, hs₃, h₃⟩ := h₂.showForeground
          rw [hs₂]
          simp only [hs₃]
          refine ⟨nofun, fun s' heq => ?_⟩
          cases heq
          exact h₃

/-- The display is erased up to the cursor only when the cursor is not beyond the page. -/
def ErasesOnPage (s : Terminals) : TerminalOp → Bool
  | .write r c _ => (s.tty r).all fun t =>
      !t.output.erasesToCursor c || decide (t.output.curpos * 2 ≤ pageSize)
  | _ => true

/-- No call uses a terminal that is freed, and a call that erases within its page leaves
everything in order. -/
theorem Settled.step {op : TerminalOp} (h : s.Settled)
    (hen : terminalMachine.enabled op s = true) :
    terminalMachine.exec op s ≠ .error .freed ∧
      (s.ErasesOnPage op = true → ∀ s', terminalMachine.exec op s = .ok s' → s'.Settled) := by
  cases op with
  | switchForeground deviceNum session a save =>
      simp only [terminalMachine, Bool.and_eq_true, bne_iff_ne] at hen
      obtain ⟨⟨ha, hsave⟩, hother⟩ := hen
      obtain ⟨hnot, hok⟩ := h.switchForeground ha hsave hother deviceNum
      exact ⟨hnot, fun _ => hok⟩
  | get deviceNum session a =>
      obtain ⟨hnot, hok⟩ := Sound.ttyGet h owner_inHand hen deviceNum
      simp only [terminalMachine, bind, Except.bind]
      split
      next e hget =>
        refine ⟨fun heq => hnot ?_, fun _ => nofun⟩
        rw [hget, Except.error.inj heq]
      next r hget =>
        obtain ⟨got, s₁⟩ := r
        obtain ⟨h₁, hforeground, -⟩ := hok got s₁ hget
        rw [← hforeground] at h₁
        cases got with
        | none =>
            refine ⟨nofun, fun _ s' heq => ?_⟩
            cases heq
            exact h₁
        | some n =>
            refine ⟨nofun, fun _ s' heq => ?_⟩
            cases heq
            exact Sound.keep h₁
  | hold n =>
      obtain ⟨t, ht⟩ := tty_of_isHeld hen
      obtain ⟨s₁, hs₁, h₁, hforeground, -⟩ := Sound.hold h ht
      rw [← hforeground] at h₁
      simp only [terminalMachine, hs₁, bind, Except.bind]
      refine ⟨nofun, fun _ s' heq => ?_⟩
      cases heq
      exact h₁.keep
  | put n =>
      obtain ⟨s₁, hs₁, h₁, hforeground⟩ :=
        (Sound.give h hen).ttyPut (n := n) List.mem_cons_self
      simp only [terminalMachine, hs₁]
      refine ⟨nofun, fun _ s' heq => ?_⟩
      cases heq
      rw [List.erase_cons_head] at h₁
      rw [Settled, hforeground]
      exact h₁
  | write r c found =>
      simp only [terminalMachine, isLive, Bool.and_eq_true, Bool.or_eq_true,
        Option.isNone_iff_eq_none] at hen
      obtain ⟨t, ht⟩ := Option.isSome_iff_exists.mp hen.1
      have huse : InUse (some s.foreground) r := by
        rintro rfl
        rcases hen.2 with h | h
        · cases h
        · rw [h]
      refine ⟨write_not_freed ht, fun hok s' hw => ?_⟩
      have hbound : t.output.erasesToCursor c = true → t.output.curpos * 2 ≤ pageSize := by
        intro herase
        simpa [ErasesOnPage, ht, herase] using hok
      have hforeground : s'.foreground = s.foreground := by
        obtain ⟨-, -, -, -, -, rfl⟩ := write_ok hw
        rfl
      rw [Settled, hforeground]
      exact ⟨h.placed.write hw, h.counted.write hw,
        h.showing.write h.placed huse ht hbound hw⟩

end Calls

theorem inUse_of_isLive (h : s.isLive r = true) : InUse (some s.foreground) r := by
  rintro rfl
  simp only [isLive, Bool.and_eq_true, Bool.or_eq_true, Option.isNone_iff_eq_none] at h
  rcases h.2 with hsome | hnone
  · cases hsome
  · rw [hnone]

theorem Settled.of_boot (h : Boot s) : s.Settled := by
  obtain ⟨htty, -, hforeground, hboot⟩ := h
  have hnone : ∀ n, s.tty (some n) = none := fun n => by simp [htty]
  rw [Settled, hforeground]
  refine ⟨⟨fun r t hr ht => ?_, fun n t ht => ?_, fun n n' t t' ht => ?_⟩,
    ⟨fun n t ht => ?_, fun n hn => ?_, by simp [htty]⟩, fun r t ht _ v hv => ?_⟩
  · cases hr
    simp only [htty, if_true, Option.some.injEq] at ht
    rw [← ht]
  · simp [hnone] at ht
  · simp [hnone] at ht
  · simp [hnone] at ht
  · cases hn
  · cases r with
    | some n => simp [hnone] at ht
    | none =>
        simp only [htty, if_true, Option.some.injEq] at ht
        subst ht
        refine ⟨v, rfl, fun i _ => ?_⟩
        rw [hv rfl, hboot]

end Terminals

open Terminals in
/-- **Switching preserves the screens.**  In every run whose writes erase up to a cursor only
where it is not beyond the page, the screen of each terminal in use is what its own bytes
draw, whatever memory they start on (for the early console, the memory at boot); the
terminal in the foreground has the VGA memory, every other one a page that is allocated, and
no two share a byte; and no call uses a terminal that is freed. -/
theorem switching_preserves_screens
    {s : Terminals}
    (h : terminalMachine.Reach Boot (fun s op => s.ErasesOnPage op = true) s) :
    (∀ r t, s.tty r = some t → s.isLive r = true →
      ∀ v, (r = none → v = ⟨vgaMem, s.bootMem, []⟩) →
        ∃ w, (firstOutput r).rawTtyWrite v t.written = .ok (t.output, w) ∧
          ∀ i < vgaBufSize, s.mem (t.videoMem + i) = w.mem (w.base + i)) ∧
    (∃ t, s.tty s.foreground = some t ∧ t.videoMem = vgaMem) ∧
    (∀ r t, s.tty r = some t → s.isLive r = true → r ≠ s.foreground →
      t.videoMem ≠ vgaMem ∧ s.pages t.videoMem = true) ∧
    (∀ r r' t t', s.tty r = some t → s.tty r' = some t' → s.isLive r = true →
      s.isLive r' = true → r ≠ r' → ∀ i < pageSize, ∀ j < pageSize,
        t.videoMem + i ≠ t'.videoMem + j) ∧
    ∀ op, ¬ terminalMachine.Faults s op .freed := by
  have hsettled : s.Settled :=
    h.invariant (P := Settled) (fun _ => Settled.of_boot)
      fun s op s' hs hok hstep => (hs.step hstep.1).2 hok s' hstep.2
  refine ⟨fun r t ht hlive v hv => ?_, ?_, fun r t ht hlive hne => ?_,
    fun r r' t t' ht ht' hlive hlive' hne i hi j hj => ?_, fun op hfault => ?_⟩
  · exact hsettled.showing r t ht (inUse_of_isLive hlive) v hv
  · have hsome : (s.tty s.foreground).isSome = true := by
      cases hf : s.foreground with
      | none => exact hsettled.counted.early
      | some n => exact hsettled.counted.inHand n (by simp [hf])
    obtain ⟨t, ht⟩ := Option.isSome_iff_exists.mp hsome
    exact ⟨t, ht, hsettled.placed.shown _ t rfl ht⟩
  · have huse := inUse_of_isLive hlive
    cases r with
    | none => exact absurd (Option.some.inj (huse rfl)).symm hne
    | some n =>
        have hpage := hsettled.placed.page n t ht fun heq => hne (Option.some.inj heq).symm
        exact hpage.2
  · exact hsettled.placed.disjoint ht ht' (inUse_of_isLive hlive) (inUse_of_isLive hlive')
      hne hi hj
  · exact (hsettled.step hfault.1).1 hfault.2

/-- The kernel at boot. -/
def bootTerminals : Terminals where
  mem := fun _ => 0
  pages := fun _ => false
  tty := fun r => if r = none then some
    { refcount := 0, deviceNum := 0, videoMem := vgaMem, output := earlyOutput
      written := [], held := 0 } else none
  ttys := []
  foreground := none
  bootMem := fun _ => 0

theorem bootTerminals_boot : Boot bootTerminals :=
  ⟨rfl, rfl, rfl, rfl⟩

/-- The bytes of a string for a terminal. -/
def writes (n : Nat) (text : String) : List TerminalOp :=
  (bytes text).map fun b => .write (some n) b.1 b.2

/-- A terminal of this number is asked for, with a page at this address. -/
def allocAt (n page : Nat) : TtyAlloc where
  page := page
  record := some n
  node := true
  copy := true

/-- Two terminals are made and written to, and both come to the foreground. -/
def switchRun : List TerminalOp :=
  [.switchForeground 1025 none (allocAt 1 0x100000) 0x101000] ++ writes 1 "A" ++
    [.get 1026 none (allocAt 2 0x102000)] ++ writes 2 "B\x1b[1J" ++
    [.switchForeground 1026 none (allocAt 3 0x103000) 0x104000]

theorem switching_preserves_screens_switchRun :
    ∃ s, (terminalMachine.Reach Boot (fun s op => s.ErasesOnPage op = true) s ∧
        s.foreground = some 2 ∧ s.isLive (some 1) = false) ∧
      (∀ r t, s.tty r = some t → s.isLive r = true →
        ∀ v, (r = none → v = ⟨vgaMem, s.bootMem, []⟩) →
          ∃ w, (firstOutput r).rawTtyWrite v t.written = .ok (t.output, w) ∧
            ∀ i < vgaBufSize, s.mem (t.videoMem + i) = w.mem (w.base + i)) ∧
      ∃ t, s.tty s.foreground = some t ∧ t.videoMem = vgaMem := by
  have hrun : ((terminalMachine.guard Terminals.ErasesOnPage).runLabels switchRun
      bootTerminals).any (fun s => s.foreground == some 2 && !s.isLive (some 1)) = true := by
    decide +kernel
  obtain ⟨s, hreach, hs⟩ := Machine.exists_reach_of_run bootTerminals_boot hrun
  have hreach' := Machine.Reach.of_guard hreach
  obtain ⟨hshows, hforeground, -⟩ := switching_preserves_screens hreach'
  rw [Bool.and_eq_true, beq_iff_eq, Bool.not_eq_true'] at hs
  exact ⟨s, ⟨hreach', hs⟩, hshows, hforeground⟩

/-- Two terminals in neighbouring pages; the display of the first is erased up to a cursor
49 characters below the screen. -/
def eraseBelow : List TerminalOp :=
  [.get 1025 none (allocAt 1 0x100000), .get 1026 none (allocAt 2 0x101000)] ++
    writes 2 "A" ++ writes 1 "\x1b[25;49H\x1b[1J"

/-- Does the first character differ from what the bytes draw on zeroed memory? -/
def firstDiffers (s : Terminals) (n : Nat) : Bool :=
  (s.tty (some n)).any fun t =>
    match freshOutput.rawTtyWrite ⟨0, fun _ => 0, []⟩ t.written with
    | .ok (_, w) => s.mem (t.videoMem + 0) != w.mem (w.base + 0)
    | .error _ => false

/-- Afterwards the second terminal, in the background all the time, has lost its first
character. -/
theorem neighbour_overwritten :
    ∃ s t, terminalMachine.Reach Boot (fun _ _ => True) s ∧ s.tty (some 2) = some t ∧
      s.isLive (some 2) = true ∧
      ¬ ∃ w, freshOutput.rawTtyWrite ⟨0, fun _ => 0, []⟩ t.written = .ok (t.output, w) ∧
        ∀ i < vgaBufSize, s.mem (t.videoMem + i) = w.mem (w.base + i) := by
  have hrun : (terminalMachine.runLabels eraseBelow bootTerminals).any (fun s =>
      s.isLive (some 2) && firstDiffers s 2) = true := by
    decide +kernel
  obtain ⟨s, hreach, hs⟩ := Machine.exists_reach_of_run bootTerminals_boot hrun
  rw [Bool.and_eq_true, firstDiffers, Option.any_eq_true] at hs
  obtain ⟨hlive, t, ht, hdiffers⟩ := hs
  refine ⟨s, t, hreach, ht, hlive, ?_⟩
  rintro ⟨w, hw, hagree⟩
  rw [hw] at hdiffers
  exact absurd (hagree 0 (by decide)) (bne_iff_ne.mp hdiffers)

end Tty
end JkxyKernel
