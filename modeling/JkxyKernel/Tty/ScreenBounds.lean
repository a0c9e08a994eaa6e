import JkxyKernel.Tty.Screen

/-!
# Bounds of the screen

Which indices into `video_mem` output uses.  Every write to the screen but one brings
the cursor back to the screen first, or has bounds of its own.  The one that does not is
the sequence that erases the display up to the cursor: it goes as far as the cursor is,
and the cursor may be anywhere.
-/

namespace JkxyKernel
namespace Tty

namespace Video

variable {v : Video} {n i : Nat} {val : BitVec 8}

/-- Every index that was used is below a bound. -/
def Within (n : Nat) (v : Video) : Prop := ∀ i ∈ v.used, i < n

@[simp] theorem within_store : (v.store i val).Within n ↔ i < n ∧ v.Within n :=
  List.forall_mem_cons

@[simp] theorem within_load : (v.load i).2.Within n ↔ i < n ∧ v.Within n :=
  List.forall_mem_cons

/-- A loop uses the indices that its rounds use. -/
theorem within_foldl
    {f : Video → Nat → Video} {p : Nat → Prop}
    (hf : ∀ v i, (f v i).Within n ↔ p i ∧ v.Within n) (l : List Nat) (v : Video) :
    (l.foldl f v).Within n ↔ (∀ i ∈ l, p i) ∧ v.Within n := by
  induction l generalizing v with
  | nil => simp
  | cons i rest ih =>
      rw [List.foldl_cons, ih, hf, List.forall_mem_cons]
      tauto

end Video

namespace Output

variable {tty tty' : Output} {v v' : Video} {c : Chr} {found : Bool} {n i : Nat}

/-! ### Loops over the screen -/

theorem within_blankCell : (tty.blankCell v i).Within n ↔ i * 2 + 1 < n ∧ v.Within n := by
  simp only [blankCell, Video.within_store]
  exact ⟨fun ⟨hlast, _, h⟩ => ⟨hlast, h⟩, fun ⟨hlast, h⟩ => ⟨hlast, by omega, h⟩⟩

/-- A loop that ends at `stop` stays below a bound if the last of its characters does. -/
theorem within_blank {start stop : Nat} :
    (tty.blank v start stop).Within n ↔ (start < stop → stop * 2 ≤ n) ∧ v.Within n := by
  rw [blank, Video.within_foldl (p := fun i => i * 2 + 1 < n) fun _ _ => within_blankCell]
  refine and_congr_left fun _ => ⟨fun h hlt => ?_, fun h i hi => ?_⟩
  · have := h (stop - 1) (by rw [List.mem_range'_1]; omega)
    omega
  · rw [List.mem_range'_1] at hi
    have := h (by omega)
    omega

theorem within_scrollCell :
    (tty.scrollCell v i).Within n ↔ (i + numCols) * 2 + 1 < n ∧ v.Within n := by
  simp only [scrollCell, Video.within_store, Video.within_load]
  exact ⟨fun ⟨_, hlast, _, _, h⟩ => ⟨hlast, h⟩,
    fun ⟨hlast, h⟩ => ⟨by omega, hlast, by omega, by omega, h⟩⟩

/-- Scrolling uses the screen and nothing else. -/
theorem within_scrollUp (hn : vgaBufSize ≤ n) : (tty.scrollUp v).Within n ↔ v.Within n := by
  have hsize : vgaBufSize = 4000 := rfl
  rw [scrollUp, within_blank,
    Video.within_foldl (p := fun i => (i + numCols) * 2 + 1 < n) fun _ _ => within_scrollCell]
  refine ⟨fun h => h.2.2, fun h => ⟨fun _ => ?_, fun i hi => ?_, h⟩⟩
  · exact hn
  · rw [List.mem_range] at hi
    simp only [numRows, numCols] at hi ⊢
    omega

theorem within_scrollRows (hn : vgaBufSize ≤ n) (rounds : Nat) (tty : Output) (v : Video) :
    (scrollRows rounds tty v).2.Within n ↔ v.Within n := by
  induction rounds generalizing tty v with
  | zero => exact Iff.rfl
  | succ rounds ih =>
      simp only [scrollRows]
      split
      next => rw [ih, within_scrollUp hn]
      next => exact Iff.rfl

theorem within_fixscroll (hn : vgaBufSize ≤ n) : (tty.fixscroll v).2.Within n ↔ v.Within n :=
  within_scrollRows hn _ _ _

/-! ### The cursor after `tty_fixscroll` -/

/-- The cursor is on the screen. -/
def OnScreen (tty : Output) : Prop :=
  tty.cursorX.toNat < numCols ∧ tty.cursorY.toNat < numRows

/-- The rounds suffice to bring the column back. -/
theorem wrapColumns_lt (rounds : Nat) (x y : BitVec 16) (h : x.toNat < numCols + rounds) :
    (wrapColumns rounds x y).1.toNat < numCols := by
  induction rounds generalizing x y with
  | zero => exact h
  | succ rounds ih =>
      simp only [wrapColumns]
      split
      next hge =>
        refine ih _ _ ?_
        simp only [numCols] at hge h ⊢
        bv_omega
      next hlt => exact Nat.lt_of_not_le hlt

/-- So do those that bring the row back; the column stays. -/
theorem scrollRows_onScreen
    (rounds : Nat) (tty : Output) (v : Video) (h : tty.cursorY.toNat < numRows + rounds) :
    (scrollRows rounds tty v).1.cursorY.toNat < numRows ∧
      (scrollRows rounds tty v).1.cursorX = tty.cursorX := by
  induction rounds generalizing tty v with
  | zero => exact ⟨h, rfl⟩
  | succ rounds ih =>
      simp only [scrollRows]
      split
      next hge =>
        refine ih { tty with cursorY := tty.cursorY - 1 } _ ?_
        simp only [numRows] at hge h ⊢
        bv_omega
      next hlt => exact ⟨Nat.lt_of_not_le hlt, rfl⟩

/-- `tty_fixscroll` brings the cursor back to the screen, wherever it was. -/
theorem fixscroll_onScreen (tty : Output) (v : Video) : (tty.fixscroll v).1.OnScreen := by
  have hx := wrapColumns_lt tty.cursorX.toNat tty.cursorX tty.cursorY
    (Nat.lt_add_of_pos_left (by decide))
  obtain ⟨hy, hsame⟩ := scrollRows_onScreen
    (wrapColumns tty.cursorX.toNat tty.cursorX tty.cursorY).2.toNat
    { tty with
      cursorX := (wrapColumns tty.cursorX.toNat tty.cursorX tty.cursorY).1
      cursorY := (wrapColumns tty.cursorX.toNat tty.cursorX tty.cursorY).2 } v
    (Nat.lt_add_of_pos_left (by decide))
  exact ⟨by rw [fixscroll, hsame]; exact hx, hy⟩

/-- Going back by a character does not leave the screen. -/
theorem OnScreen.moveBack (h : tty.OnScreen) : tty.moveBack.OnScreen := by
  obtain ⟨hx, hy⟩ := h
  simp only [numCols, numRows] at hx hy
  simp only [Output.moveBack, OnScreen, numCols, numRows]
  split
  next hzero =>
    split
    next hpos => exact ⟨Nat.lt_succ_self 79, by bv_omega⟩
    next => exact ⟨hx, hy⟩
  next hpos => exact ⟨by bv_omega, hy⟩

theorem OnScreen.curpos_lt (h : tty.OnScreen) : tty.curpos < vgaChars := by
  obtain ⟨hx, hy⟩ := h
  simp only [curpos, vgaChars, numCols, numRows] at hx hy ⊢
  omega

/-! ### The bytes -/

/-- Does the byte end a sequence that erases the display up to the cursor? -/
def erasesToCursor (tty : Output) (c : Chr) : Bool :=
  tty.ansiDec.bufferEnd != 0 && c == ascii 'J' && tty.ansiDec.type == ascii '[' &&
    match tty.ansiDec.decode false true with
    | .ok (some arg, _) => arg == 1
    | _ => false

theorem within_eraseDisplay (hn : vgaBufSize ≤ n) {arg : BitVec 8} :
    (tty.eraseDisplay v arg).2.Within n ↔ (arg = 1 → tty.curpos * 2 ≤ n) ∧ v.Within n := by
  simp only [eraseDisplay]
  split_ifs with h0 h1 h2
  · simp only [h0, within_blank]
    exact and_congr_left fun _ => iff_of_true (fun _ => hn) nofun
  · simp only [h1, within_blank, true_implies]
    refine and_congr_left fun _ => ⟨fun h => ?_, fun h _ => h⟩
    rcases Nat.eq_zero_or_pos tty.curpos with hzero | hpos
    · omega
    · exact h hpos
  · simp only [h2, within_blank]
    exact and_congr_left fun _ => iff_of_true (fun _ => hn) nofun
  · simp only [h1, false_implies, true_and]

/-- A command that sets fields from its arguments leaves the screen alone. -/
theorem video_eq_of_return
    {args : Except NullFault (Option (BitVec 8) × Option (BitVec 8))}
    {f : Option (BitVec 8) × Option (BitVec 8) → Output}
    (h : (args >>= fun a => pure (f a, v)) = .ok (tty', v')) : v' = v := by
  obtain ⟨a, -, hret⟩ := Machine.bind_eq_ok_iff.mp h
  cases hret
  rfl

/-- What a command does to the screen: nothing, unless it is one that erases. -/
theorem command_cases (h : tty.command v c found = .ok (tty', v')) :
    (v' = v ∧ (tty.ansiDec.type = ascii '[' → c ≠ ascii 'J')) ∨
      (tty.ansiDec.type = ascii '[' ∧ c = ascii 'J' ∧
        ∃ args, tty.ansiDec.decode false found = .ok args ∧
          tty.eraseDisplay v (args.1.getD 0) = (tty', v')) := by
  rw [command] at h
  by_cases htype : tty.ansiDec.type ≠ ascii '['
  · rw [if_pos htype] at h
    cases h
    exact .inl ⟨rfl, fun ht => absurd ht htype⟩
  rw [if_neg htype] at h
  by_cases hH : c = ascii 'H' ∨ c = ascii 'f'
  · rw [if_pos hH] at h
    refine .inl ⟨video_eq_of_return h, fun _ hc => ?_⟩
    rcases hH with rfl | rfl <;> exact absurd hc (by decide)
  rw [if_neg hH] at h
  by_cases hF : c = ascii 'F'
  · rw [if_pos hF] at h
    exact .inl ⟨video_eq_of_return h, fun _ => by rw [hF]; decide⟩
  rw [if_neg hF] at h
  by_cases hA : c = ascii 'A'
  · rw [if_pos hA] at h
    exact .inl ⟨video_eq_of_return h, fun _ => by rw [hA]; decide⟩
  rw [if_neg hA] at h
  by_cases hB : c = ascii 'B'
  · rw [if_pos hB] at h
    exact .inl ⟨video_eq_of_return h, fun _ => by rw [hB]; decide⟩
  rw [if_neg hB] at h
  by_cases hC : c = ascii 'C'
  · rw [if_pos hC] at h
    exact .inl ⟨video_eq_of_return h, fun _ => by rw [hC]; decide⟩
  rw [if_neg hC] at h
  by_cases hD : c = ascii 'D'
  · rw [if_pos hD] at h
    exact .inl ⟨video_eq_of_return h, fun _ => by rw [hD]; decide⟩
  rw [if_neg hD] at h
  by_cases hJ : c = ascii 'J'
  · rw [if_pos hJ] at h
    obtain ⟨args, hargs, hret⟩ := Machine.bind_eq_ok_iff.mp h
    exact .inr ⟨not_not.mp htype, hJ, args, hargs, Except.ok.inj hret⟩
  rw [if_neg hJ] at h
  by_cases hm : c = ascii 'm'
  · rw [if_pos hm] at h
    exact .inl ⟨video_eq_of_return h, fun _ => hJ⟩
  · rw [if_neg hm] at h
    cases h
    exact .inl ⟨rfl, fun _ => hJ⟩

theorem decode_found
    {dec : AnsiDecode} {hasArg2 : Bool} {args : Option (BitVec 8) × Option (BitVec 8)}
    (h : dec.decode hasArg2 found = .ok args) : found = true := by
  cases found with
  | true => rfl
  | false => cases h

/-- A command stays below a bound if it does not erase up to a cursor that is beyond it. -/
theorem within_command (hn : vgaBufSize ≤ n) (hinside : tty.ansiDec.bufferEnd ≠ 0)
    (h : tty.command v c found = .ok (tty', v')) :
    v'.Within n ↔ (tty.erasesToCursor c = true → tty.curpos * 2 ≤ n) ∧ v.Within n := by
  rcases command_cases h with ⟨rfl, hother⟩ | ⟨htype, rfl, args, hargs, herase⟩
  · have hnot : tty.erasesToCursor c ≠ true := by
      intro he
      simp only [erasesToCursor, Bool.and_eq_true, beq_iff_eq] at he
      exact hother he.1.2 he.1.1.2
    simp [hnot]
  · have hfound := decode_found hargs
    subst hfound
    have hiff : tty.erasesToCursor (ascii 'J') = true ↔ args.1.getD 0 = 1 := by
      obtain ⟨arg, other⟩ := args
      cases arg <;> simp [erasesToCursor, hinside, htype, hargs]
    rw [hiff, ← within_eraseDisplay hn, herase]

theorem within_eraseBack (hn : vgaBufSize ≤ n) : (tty.eraseBack v).2.Within n ↔ v.Within n := by
  have hcur := (fixscroll_onScreen tty v).moveBack.curpos_lt
  have hsize : vgaBufSize = vgaChars * 2 := rfl
  simp only [eraseBack]
  split
  next =>
    simp only [Video.within_store, within_fixscroll hn]
    exact ⟨fun h => h.2.2, fun h => ⟨by omega, by omega, h⟩⟩
  next => exact within_fixscroll hn

theorem within_print (hn : vgaBufSize ≤ n) : (tty.print v c).2.Within n ↔ v.Within n := by
  have hcur := (fixscroll_onScreen tty v).curpos_lt
  have hsize : vgaBufSize = vgaChars * 2 := rfl
  simp only [print, Video.within_store, within_fixscroll hn]
  exact ⟨fun h => h.2.2, fun h => ⟨by omega, by omega, h⟩⟩

/-- A byte outside an escape sequence stays on the screen if the nested calls do. -/
theorem within_plain {nested : Write} (hn : vgaBufSize ≤ n)
    (hnested : ∀ tty v c found tty' v', nested tty v c found = .ok (tty', v') →
      tty.ansiDec.bufferEnd = 0 → (v'.Within n ↔ v.Within n))
    (hplain : tty.ansiDec.bufferEnd = 0) (h : plain nested tty v c found = .ok (tty', v')) :
    v'.Within n ↔ v.Within n := by
  simp only [plain] at h
  split_ifs at h with hcr hnl hopost hverase htab hbell hesc
  · cases h
    rfl
  · obtain ⟨⟨tty₁, v₁⟩, h₁, hret⟩ := Machine.bind_eq_ok_iff.mp h
    have hv : _ = v' := congrArg Prod.snd (Except.ok.inj hret)
    rw [← hv, within_fixscroll hn, hnested _ _ _ _ _ _ h₁ hplain]
  · have hv : _ = v' := congrArg Prod.snd (Except.ok.inj h)
    rw [← hv, within_fixscroll hn]
  · have hv : _ = v' := congrArg Prod.snd (Except.ok.inj h)
    rw [← hv, within_eraseBack hn]
  · exact hnested _ _ _ _ _ _ h hplain
  · cases h
    rfl
  · cases h
    rfl
  · have hv : _ = v' := congrArg Prod.snd (Except.ok.inj h)
    rw [← hv, within_print hn]

/-- Outside an escape sequence nothing is erased up to the cursor. -/
theorem erasesToCursor_plain (h : tty.ansiDec.bufferEnd = 0) :
    tty.erasesToCursor c = false := by
  simp [erasesToCursor, h]

theorem within_escaped (hn : vgaBufSize ≤ n) (hinside : tty.ansiDec.bufferEnd ≠ 0)
    (h : tty.escaped v c found = .ok (tty', v')) :
    v'.Within n ↔ (tty.erasesToCursor c = true → tty.curpos * 2 ≤ n) ∧ v.Within n := by
  have hother : c ≠ ascii 'J' → tty.erasesToCursor c = false := by
    intro hc
    simp [erasesToCursor, hc]
  simp only [escaped] at h
  split_ifs at h with hesc hcont hroom
  · cases h
    simp [hother (by rw [hesc]; decide)]
  · cases h
    simp [hother (by rintro rfl; exact absurd hcont (by decide))]
  · cases h
    simp [hother (by rintro rfl; exact absurd hcont (by decide))]
  · obtain ⟨⟨tty₁, v₁⟩, h₁, hret⟩ := Machine.bind_eq_ok_iff.mp h
    cases hret
    exact within_command hn hinside h₁

/-- One round stays below a bound if it does not erase up to a cursor that is beyond it. -/
theorem within_round {nested : Write} (hn : vgaBufSize ≤ n)
    (hnested : ∀ tty v c found tty' v', nested tty v c found = .ok (tty', v') →
      tty.ansiDec.bufferEnd = 0 → (v'.Within n ↔ v.Within n))
    (h : round nested tty v c found = .ok (tty', v')) :
    v'.Within n ↔ (tty.erasesToCursor c = true → tty.curpos * 2 ≤ n) ∧ v.Within n := by
  simp only [round] at h
  split_ifs at h with hinside
  · exact within_escaped hn hinside h
  · rw [within_plain hn hnested (not_not.mp hinside) h]
    simp [erasesToCursor_plain (not_not.mp hinside)]

/-- A byte uses indices below a bound if it does not erase up to a cursor that is beyond
it. -/
theorem within_writeByte (hn : vgaBufSize ≤ n)
    (h : tty.writeByte v c found = .ok (tty', v')) :
    v'.Within n ↔ (tty.erasesToCursor c = true → tty.curpos * 2 ≤ n) ∧ v.Within n := by
  refine within_round hn (fun tty v c found tty' v' h' hplain => ?_) h
  have hinner := within_round hn (fun _ _ _ _ _ _ h₀ _ => by cases h₀; rfl) h'
  rw [hinner]
  simp [erasesToCursor_plain hplain]

/-- Only a newline and a tab call `raw_tty_write` again. -/
theorem round_eq_of_ne {nested nested' : Write} (hnl : c ≠ 10) (htab : c ≠ 9) :
    round nested tty v c found = round nested' tty v c found := by
  simp only [round, plain, if_neg hnl, if_neg htab]

/-- One byte is one round, where the nested calls are calls of `raw_tty_write`. -/
theorem writeByte_eq :
    tty.writeByte v c found =
      round (fun tty v c found => tty.rawTtyWrite v [(c, found)]) tty v c found := by
  have hone : ∀ tty v c, c ≠ 10 → c ≠ 9 →
      round (fun tty v _ _ => .ok (tty, v)) tty v c found =
        rawTtyWrite tty v [(c, found)] := by
    intro tty v c hnl htab
    have hleaf : round (fun tty v _ _ => .ok (tty, v)) tty v c found =
        tty.writeByte v c found := round_eq_of_ne hnl htab
    simp only [hleaf, rawTtyWrite, bind, Except.bind]
    cases tty.writeByte v c found <;> rfl
  simp only [writeByte]
  rw [round, round]
  split
  next => rfl
  next =>
    simp only [plain, hone tty v 13 (by decide) (by decide),
      hone tty v (ascii ' ') (by decide) (by decide)]

/-! ### What output leaves alone -/

/-- The settings and the mouse are the same. -/
structure SameSettings (tty tty' : Output) : Prop where
  termios : tty'.termios = tty.termios
  shown : tty'.mouseCursorShown = tty.mouseCursorShown
  mouseX : tty'.mouseCursorX = tty.mouseCursorX
  mouseY : tty'.mouseCursorY = tty.mouseCursorY

namespace SameSettings

theorem refl (tty : Output) : SameSettings tty tty := ⟨rfl, rfl, rfl, rfl⟩

theorem trans {tty₁ tty₂ tty₃ : Output} (h : SameSettings tty₁ tty₂)
    (h' : SameSettings tty₂ tty₃) : SameSettings tty₁ tty₃ :=
  ⟨h'.termios.trans h.termios, h'.shown.trans h.shown, h'.mouseX.trans h.mouseX,
    h'.mouseY.trans h.mouseY⟩

/-- The cursor is none of the settings. -/
theorem moved (tty : Output) (x y : BitVec 16) :
    SameSettings tty { tty with cursorX := x, cursorY := y } :=
  ⟨rfl, rfl, rfl, rfl⟩

theorem scrollRows (rounds : Nat) (tty : Output) (v : Video) :
    SameSettings tty (scrollRows rounds tty v).1 := by
  induction rounds generalizing tty v with
  | zero => exact refl tty
  | succ rounds ih =>
      simp only [Output.scrollRows]
      split
      next =>
        exact (moved tty tty.cursorX (tty.cursorY - 1)).trans (ih _ _)
      next => exact refl tty

theorem fixscroll (tty : Output) (v : Video) : SameSettings tty (tty.fixscroll v).1 :=
  (moved tty (wrapColumns tty.cursorX.toNat tty.cursorX tty.cursorY).1
    (wrapColumns tty.cursorX.toNat tty.cursorX tty.cursorY).2).trans (scrollRows _ _ _)

theorem moveBack (tty : Output) : SameSettings tty tty.moveBack := by
  simp only [Output.moveBack]
  split_ifs <;> exact ⟨rfl, rfl, rfl, rfl⟩

theorem eraseDisplay (tty : Output) (v : Video) (arg : BitVec 8) :
    SameSettings tty (tty.eraseDisplay v arg).1 := by
  simp only [Output.eraseDisplay]
  split_ifs <;> exact ⟨rfl, rfl, rfl, rfl⟩

theorem eraseBack (tty : Output) (v : Video) : SameSettings tty (tty.eraseBack v).1 := by
  have hmoved := (fixscroll tty v).trans (moveBack (tty.fixscroll v).1)
  simp only [Output.eraseBack]
  split <;> exact hmoved

theorem of_return
    {args : Except NullFault (Option (BitVec 8) × Option (BitVec 8))}
    {f : Option (BitVec 8) × Option (BitVec 8) → Output × Video}
    (hf : ∀ a, SameSettings tty (f a).1)
    (h : (args >>= fun a => pure (f a)) = .ok (tty', v')) : SameSettings tty tty' := by
  obtain ⟨a, -, hret⟩ := Machine.bind_eq_ok_iff.mp h
  have htty : _ = tty' := congrArg Prod.fst (Except.ok.inj hret)
  rw [← htty]
  exact hf a

theorem command (h : tty.command v c found = .ok (tty', v')) : SameSettings tty tty' := by
  rw [Output.command] at h
  rcases ite_eq_iff.mp h with ⟨-, h⟩ | ⟨-, h⟩
  · cases h
    exact refl tty
  rcases ite_eq_iff.mp h with ⟨-, h⟩ | ⟨-, h⟩
  · exact of_return (fun _ => ⟨rfl, rfl, rfl, rfl⟩) h
  rcases ite_eq_iff.mp h with ⟨-, h⟩ | ⟨-, h⟩
  · exact of_return (fun _ => ⟨rfl, rfl, rfl, rfl⟩) h
  rcases ite_eq_iff.mp h with ⟨-, h⟩ | ⟨-, h⟩
  · exact of_return (fun _ => ⟨rfl, rfl, rfl, rfl⟩) h
  rcases ite_eq_iff.mp h with ⟨-, h⟩ | ⟨-, h⟩
  · exact of_return (fun _ => ⟨rfl, rfl, rfl, rfl⟩) h
  rcases ite_eq_iff.mp h with ⟨-, h⟩ | ⟨-, h⟩
  · exact of_return (fun _ => ⟨rfl, rfl, rfl, rfl⟩) h
  rcases ite_eq_iff.mp h with ⟨-, h⟩ | ⟨-, h⟩
  · exact of_return (fun _ => ⟨rfl, rfl, rfl, rfl⟩) h
  rcases ite_eq_iff.mp h with ⟨-, h⟩ | ⟨-, h⟩
  · exact of_return (fun a => eraseDisplay tty v (a.1.getD 0)) h
  rcases ite_eq_iff.mp h with ⟨-, h⟩ | ⟨-, h⟩
  · exact of_return (fun _ => ⟨rfl, rfl, rfl, rfl⟩) h
  · cases h
    exact refl tty

theorem escaped (h : tty.escaped v c found = .ok (tty', v')) : SameSettings tty tty' := by
  simp only [Output.escaped] at h
  split_ifs at h
  · cases h
    exact ⟨rfl, rfl, rfl, rfl⟩
  · cases h
    exact ⟨rfl, rfl, rfl, rfl⟩
  · cases h
    exact refl tty
  · obtain ⟨⟨tty₁, v₁⟩, h₁, hret⟩ := Machine.bind_eq_ok_iff.mp h
    cases hret
    exact trans (command h₁) ⟨rfl, rfl, rfl, rfl⟩

theorem plain {nested : Write}
    (hnested : ∀ tty v c found tty' v', nested tty v c found = .ok (tty', v') →
      SameSettings tty tty')
    (h : plain nested tty v c found = .ok (tty', v')) : SameSettings tty tty' := by
  simp only [Output.plain] at h
  split_ifs at h
  · cases h
    exact ⟨rfl, rfl, rfl, rfl⟩
  · obtain ⟨⟨tty₁, v₁⟩, h₁, hret⟩ := Machine.bind_eq_ok_iff.mp h
    have htty : _ = tty' := congrArg Prod.fst (Except.ok.inj hret)
    rw [← htty]
    exact (hnested _ _ _ _ _ _ h₁).trans
      ((moved tty₁ tty₁.cursorX (tty₁.cursorY + 1)).trans (fixscroll _ _))
  · have htty : _ = tty' := congrArg Prod.fst (Except.ok.inj h)
    rw [← htty]
    exact (moved tty tty.cursorX (tty.cursorY + 1)).trans (fixscroll _ _)
  · have htty : _ = tty' := congrArg Prod.fst (Except.ok.inj h)
    rw [← htty]
    exact eraseBack tty v
  · exact hnested _ _ _ _ _ _ h
  · cases h
    exact refl tty
  · cases h
    exact ⟨rfl, rfl, rfl, rfl⟩
  · have htty : _ = tty' := congrArg Prod.fst (Except.ok.inj h)
    rw [← htty]
    exact (fixscroll tty v).trans ⟨rfl, rfl, rfl, rfl⟩

theorem round {nested : Write}
    (hnested : ∀ tty v c found tty' v', nested tty v c found = .ok (tty', v') →
      SameSettings tty tty')
    (h : round nested tty v c found = .ok (tty', v')) : SameSettings tty tty' := by
  simp only [Output.round] at h
  split_ifs at h
  · exact escaped h
  · exact plain hnested h

/-- Output changes neither the settings nor the mouse. -/
theorem writeByte (h : tty.writeByte v c found = .ok (tty', v')) : SameSettings tty tty' :=
  round (fun _ _ _ _ _ _ => round fun tty _ _ _ _ _ h₀ => by cases h₀; exact refl tty) h

end SameSettings

/-! ### The mouse -/

/-- The mouse is on the screen. -/
def MouseOnScreen (tty : Output) : Prop :=
  (0 ≤ tty.mouseCursorX.toInt ∧ tty.mouseCursorX.toInt < numCols * slowFactorX) ∧
    0 ≤ tty.mouseCursorY.toInt ∧ tty.mouseCursorY.toInt < numRows * slowFactorY

theorem clamp_bounds (bound : Int) (h : 0 ≤ bound) (hbound : bound < 2 ^ 15) (x : BitVec 16) :
    0 ≤ (clamp x bound).toInt ∧ (clamp x bound).toInt ≤ bound := by
  have hself : (BitVec.ofInt 16 bound).toInt = bound := by
    rw [BitVec.toInt_ofInt, Int.bmod_eq_of_le] <;> omega
  simp only [clamp]
  split_ifs with hneg hlarge hlarge
  · rw [hself]
    omega
  · exact ⟨Int.le_refl 0, h⟩
  · rw [hself]
    omega
  · omega

theorem moveMouse_onScreen (tty : Output) (dx dy : BitVec 16) :
    (tty.moveMouse dx dy).MouseOnScreen := by
  have hx := clamp_bounds (numCols * slowFactorX - 1) (by decide) (by decide)
    (tty.mouseCursorX + dx)
  have hy := clamp_bounds (numRows * slowFactorY - 1) (by decide) (by decide)
    (tty.mouseCursorY - dy)
  exact ⟨⟨hx.1, by simp only [moveMouse]; omega⟩, hy.1, by simp only [moveMouse]; omega⟩

theorem within_swapMouseCell (hn : vgaBufSize ≤ n) (h : tty.MouseOnScreen) :
    (tty.swapMouseCell v).Within n ↔ v.Within n := by
  obtain ⟨⟨hx0, hx⟩, hy0, hy⟩ := h
  have hcell : ((numCols * tty.mouseCursorY.toInt.tdiv slowFactorY +
      tty.mouseCursorX.toInt.tdiv slowFactorX) * 2 + 1).toNat < n := by
    rw [Int.tdiv_eq_ediv_of_nonneg hx0, Int.tdiv_eq_ediv_of_nonneg hy0]
    have hsize : vgaBufSize = 4000 := rfl
    simp only [numCols, numRows, slowFactorX, slowFactorY] at hx hy ⊢
    omega
  simp only [swapMouseCell, Video.within_store, Video.within_load]
  exact ⟨fun h => h.2.2, fun h => ⟨hcell, hcell, h⟩⟩

end Output

/-! ### Runs -/

/-- A terminal, and the memory behind its `video_mem`. -/
structure ScreenState where
  tty : Output
  video : Video

/-- What happens to the screen of a terminal. -/
inductive ScreenOp
  /-- The next byte of a `raw_tty_write`. -/
  | write (c : Chr) (found : Bool)
  | mouse (dx dy : BitVec 16)
  /-- `tty_ioctl` with `TCSETS`, `TCSETSW` or `TCSETSF`. -/
  | tcsets (termios : Termios)

/-- One terminal, in the foreground or not. -/
def screenMachine : Machine ScreenState ScreenOp NullFault where
  enabled _ _ := true
  exec op s :=
    match op with
    | .write c found => do
        let (tty, video) ← s.tty.writeByte s.video c found
        return ⟨tty, video⟩
    | .mouse dx dy => .ok ⟨(s.tty.mouse s.video dx dy).1, (s.tty.mouse s.video dx dy).2⟩
    | .tcsets termios => .ok { s with tty := { s.tty with termios := termios } }

/-- A terminal as `tty_get` makes it, or the early console. -/
def FreshScreen (s : ScreenState) : Prop :=
  s.tty.ansiDec.bufferEnd = 0 ∧ s.tty.cursorX = 0 ∧ s.tty.cursorY = 0 ∧
    s.tty.mouseCursorShown = false ∧ s.tty.mouseCursorX = 0 ∧ s.tty.mouseCursorY = 0 ∧
    s.video.used = []

/-- If the display is erased up to the cursor, then the cursor is not beyond the end of the
screen. -/
def ErasesOnScreen (s : ScreenState) : ScreenOp → Bool
  | .write c _ => !s.tty.erasesToCursor c || decide (s.tty.curpos ≤ vgaChars)
  | _ => true

/-- A `raw_tty_write` is a run of its bytes. -/
theorem runLabels_rawTtyWrite (tty : Output) (v : Video) (buf : List (Chr × Bool)) :
    screenMachine.runLabels (buf.map fun b => .write b.1 b.2) ⟨tty, v⟩ =
      match tty.rawTtyWrite v buf with
      | .ok (tty', v') => some ⟨tty', v'⟩
      | .error _ => none := by
  induction buf generalizing tty v with
  | nil => rfl
  | cons b rest ih =>
      obtain ⟨c, found⟩ := b
      simp only [List.map_cons, Machine.runLabels, screenMachine, Output.rawTtyWrite, bind,
        Except.bind]
      cases hwrite : tty.writeByte v c found with
      | error e => rfl
      | ok r => exact ih r.1 r.2

section Runs

variable {s s' : ScreenState} {op : ScreenOp}

/-- A step keeps the mouse on the screen, and the indices below the size of the screen
exactly when it does not erase beyond. -/
theorem within_step (hmouse : s.tty.MouseOnScreen) (h : screenMachine.Step s op s') :
    s'.tty.MouseOnScreen ∧
      (s'.video.Within vgaBufSize ↔
        ErasesOnScreen s op = true ∧ s.video.Within vgaBufSize) := by
  obtain ⟨-, hex⟩ := h
  cases op with
  | write c found =>
      obtain ⟨⟨tty', v'⟩, hwrite, hret⟩ := Machine.bind_eq_ok_iff.mp hex
      cases hret
      have hsame := Output.SameSettings.writeByte hwrite
      refine ⟨?_, ?_⟩
      · simpa only [Output.MouseOnScreen, hsame.mouseX, hsame.mouseY] using hmouse
      · rw [Output.within_writeByte (Nat.le_refl _) hwrite]
        refine and_congr_left fun _ => ?_
        have hsize : vgaBufSize = vgaChars * 2 := rfl
        cases herase : s.tty.erasesToCursor c with
        | false => simp [ErasesOnScreen, herase]
        | true =>
            simp only [ErasesOnScreen, herase, Bool.not_true, Bool.false_or,
              decide_eq_true_eq, true_implies]
            omega
  | mouse dx dy =>
      cases hex
      refine ⟨Output.moveMouse_onScreen _ _ _, ?_⟩
      simp only [ErasesOnScreen, true_and, Output.mouse]
      rw [Output.within_swapMouseCell (Nat.le_refl _) (Output.moveMouse_onScreen _ _ _)]
      split
      next => exact Output.within_swapMouseCell (Nat.le_refl _) hmouse
      next => exact Iff.rfl
  | tcsets termios =>
      cases hex
      exact ⟨hmouse, by simp [ErasesOnScreen]⟩

/-- The mouse never leaves the screen. -/
theorem mouse_onScreen {ok : ScreenState → ScreenOp → Prop}
    (h : screenMachine.Reach FreshScreen ok s) : s.tty.MouseOnScreen := by
  refine h.invariant (P := fun s => s.tty.MouseOnScreen) ?_ ?_
  · rintro s ⟨-, -, -, -, hx, hy, -⟩
    rw [Output.MouseOnScreen, hx, hy]
    decide
  · intro s op s' hmouse _ hs
    exact (within_step hmouse hs).1

end Runs

/-- **Output stays on the screen while erasing does.**  In every run in which the display
is erased up to the cursor only when the cursor is not beyond the end of the screen, all
indices into `video_mem` are below `VGA_BUF_SIZE`; and a further step keeps them so exactly
when it does the same. -/
theorem screen_bounds
    {s : ScreenState}
    (h : screenMachine.Reach FreshScreen (fun s op => ErasesOnScreen s op = true) s) :
    (∀ i ∈ s.video.used, i < vgaBufSize) ∧
      ∀ op s', screenMachine.Step s op s' →
        ((∀ i ∈ s'.video.used, i < vgaBufSize) ↔ ErasesOnScreen s op = true) := by
  have hwithin : s.video.Within vgaBufSize := by
    induction h with
    | start hfresh =>
        obtain ⟨-, -, -, -, -, -, hused⟩ := hfresh
        simp [Video.Within, hused]
    | step hreach hok hs ih => exact (within_step (mouse_onScreen hreach) hs).2.mpr ⟨hok, ih⟩
  refine ⟨hwithin, fun op s' hs => ?_⟩
  exact (within_step (mouse_onScreen h) hs).2.trans (and_iff_left hwithin)

/-- A terminal without output. -/
def blankTerminal : ScreenState where
  tty :=
    { termios := { oflag := 1, lflag := 0o1033, cc := fun _ => 0 }
      ansiDec := { bufferEnd := 0, buffer := fun _ => 0 }
      cursorX := 0
      cursorY := 0
      color := whiteOnBlack
      mouseCursorShown := false
      mouseCursorX := 0
      mouseCursorY := 0 }
  video := { base := 0xB8000, mem := fun _ => 0, used := [] }

theorem blankTerminal_fresh : FreshScreen blankTerminal :=
  ⟨rfl, rfl, rfl, rfl, rfl, rfl, rfl⟩

/-- The bytes of a string, each with memory for `strndup`. -/
def bytes (text : String) : List (Chr × Bool) :=
  text.toList.map fun c => (ascii c, true)

/-- `"A\33[1J"` -/
def eraseOne : List ScreenOp :=
  (bytes "A\x1b[1J").map fun b => .write b.1 b.2

theorem screen_bounds_eraseOne :
    ∃ s, (screenMachine.Reach FreshScreen (fun s op => ErasesOnScreen s op = true) s ∧
        s.video.used = [1, 0, 1, 0]) ∧
      (∀ i ∈ s.video.used, i < vgaBufSize) ∧
      ∀ op s', screenMachine.Step s op s' →
        ((∀ i ∈ s'.video.used, i < vgaBufSize) ↔ ErasesOnScreen s op = true) := by
  have hrun : ((screenMachine.guard ErasesOnScreen).runLabels eraseOne blankTerminal).any
      (fun s => s.video.used == [1, 0, 1, 0]) = true := by
    decide +kernel
  obtain ⟨s, hreach, hused⟩ := Machine.exists_reach_of_run blankTerminal_fresh hrun
  have hreach' := Machine.Reach.of_guard hreach
  exact ⟨s, ⟨hreach', beq_iff_eq.mp hused⟩, screen_bounds hreach'⟩

/-- `"\33[200;0H\33[1"`, with the cursor 175 lines below the screen. -/
def moveBelow : List ScreenOp :=
  (bytes "\x1b[200;0H\x1b[1").map fun b => .write b.1 b.2

/-- With a `J` after it the display is erased beyond its end. -/
theorem erased_beyond_screen :
    ∃ s, screenMachine.Reach FreshScreen (fun _ _ => True) s ∧
      ∃ i ∈ s.video.used, vgaBufSize ≤ i := by
  have hrun : (screenMachine.runLabels moveBelow blankTerminal).any (fun s =>
      !ErasesOnScreen s (.write (ascii 'J') true) &&
        (screenMachine.exec (.write (ascii 'J') true) s).isOk) = true := by
    decide +kernel
  obtain ⟨s, hreach, hs⟩ := Machine.exists_reach_of_run blankTerminal_fresh hrun
  rw [Bool.and_eq_true, Bool.not_eq_true'] at hs
  obtain ⟨s', hex⟩ : ∃ s', screenMachine.exec (.write (ascii 'J') true) s = .ok s' := by
    cases hex : screenMachine.exec (.write (ascii 'J') true) s with
    | ok s' => exact ⟨s', rfl⟩
    | error e =>
        rw [hex] at hs
        cases hs.2
  have hstep : screenMachine.Step s (.write (ascii 'J') true) s' := ⟨rfl, hex⟩
  refine ⟨s', .step hreach trivial hstep, ?_⟩
  by_contra hall
  simp only [not_exists, not_and, Nat.not_le] at hall
  have hok := ((within_step (mouse_onScreen hreach) hstep).2.mp hall).1
  rw [hs.1] at hok
  cases hok

end Tty
end JkxyKernel
