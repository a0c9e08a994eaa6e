import JkxyKernel.Tty.Screen

/-!
# Drawings

What `raw_tty_write` does to the memory behind `video_mem` is a drawing: it writes where
the indices it uses say, and two screens that show the same show the same afterwards,
wherever they are and whatever is around them.  The fields of the terminal do not depend
on the memory at all.
-/

namespace JkxyKernel
namespace Tty

namespace Video

variable {v w : Video} {f g : Video → Video} {i : Nat} {val : BitVec 8}

/-- The screens show the same. -/
def Agree (v w : Video) : Prop :=
  ∀ i < vgaBufSize, v.mem (v.base + i) = w.mem (w.base + i)

/-- A change of the screen that goes by its indices only. -/
structure Drawing (f : Video → Video) : Prop where
  base : ∀ v, (f v).base = v.base
  used : ∀ v, ∀ i ∈ v.used, i ∈ (f v).used
  frame : ∀ v a, (∀ i ∈ (f v).used, a ≠ v.base + i) → (f v).mem a = v.mem a
  agree : ∀ v w, v.Agree w → (f v).Agree (f w)

namespace Drawing

theorem id : Drawing fun v => v :=
  ⟨fun _ => rfl, fun _ _ h => h, fun _ _ _ => rfl, fun _ _ h => h⟩

theorem comp (hg : Drawing g) (hf : Drawing f) : Drawing fun v => g (f v) where
  base v := (hg.base (f v)).trans (hf.base v)
  used v i hi := hg.used (f v) i (hf.used v i hi)
  frame v a ha := by
    have hbase := hf.base v
    rw [hg.frame (f v) a (by rw [hbase]; exact ha)]
    exact hf.frame v a fun i hi => ha i (hg.used (f v) i hi)
  agree v w h := hg.agree _ _ (hf.agree v w h)

theorem store (i : Nat) (val : BitVec 8) : Drawing fun v => v.store i val where
  base _ := rfl
  used _ _ hi := List.mem_cons_of_mem _ hi
  frame v a ha := Function.update_of_ne (ha i List.mem_cons_self) _ _
  agree v w h j hj := by
    simp only [Video.store]
    by_cases hij : j = i
    · rw [hij, Function.update_self, Function.update_self]
    · rw [Function.update_of_ne (by omega), Function.update_of_ne (by omega)]
      exact h j hj

/-- A byte of the screen is read, and decides what is drawn. -/
theorem load {d : BitVec 8 → Video → Video} (hi : i < vgaBufSize) (hd : ∀ b, Drawing (d b)) :
    Drawing fun v => d (v.load i).1 (v.load i).2 where
  base v := (hd _).base (v.load i).2
  used v j hj := (hd _).used _ j (List.mem_cons_of_mem _ hj)
  frame v a ha := (hd _).frame (v.load i).2 a ha
  agree v w h := by
    have hsame : (v.load i).1 = (w.load i).1 := h i hi
    rw [hsame]
    exact (hd _).agree _ _ h

theorem foldl {d : Video → Nat → Video} {l : List Nat} (hd : ∀ i ∈ l, Drawing fun v => d v i) :
    Drawing fun v => l.foldl d v := by
  induction l with
  | nil => exact id
  | cons i rest ih =>
      exact comp (ih fun j hj => hd j (List.mem_cons_of_mem _ hj)) (hd i List.mem_cons_self)

end Drawing
end Video

open Video (Drawing)

/-- A result whose fields do not depend on the memory, and whose screen is drawn. -/
def Drawn (x : Video → Output × Video) : Prop :=
  ∃ tty f, Drawing f ∧ ∀ v, x v = (tty, f v)

/-- The same of a result that may be a fault, on every memory or on none. -/
def DrawnOrFault (x : Video → Except NullFault (Output × Video)) : Prop :=
  (∃ tty f, Drawing f ∧ ∀ v, x v = .ok (tty, f v)) ∨ ∃ e, ∀ v, x v = .error e

theorem Drawn.ok {x : Video → Output × Video} (h : Drawn x) :
    DrawnOrFault fun v => .ok (x v) := by
  obtain ⟨tty, f, hf, hx⟩ := h
  exact .inl ⟨tty, f, hf, fun v => congrArg Except.ok (hx v)⟩

theorem Drawn.and_then {x : Video → Output × Video} {y : Output → Video → Output × Video}
    (hx : Drawn x) (hy : ∀ tty, Drawn (y tty)) : Drawn fun v => y (x v).1 (x v).2 := by
  obtain ⟨tty, f, hf, hx⟩ := hx
  obtain ⟨tty', g, hg, hy⟩ := hy tty
  exact ⟨tty', _, hg.comp hf, fun v => by simp only [hx v, hy]⟩

theorem DrawnOrFault.and_then
    {x : Video → Except NullFault (Output × Video)}
    {y : Output → Video → Except NullFault (Output × Video)}
    (hx : DrawnOrFault x) (hy : ∀ tty, DrawnOrFault (y tty)) :
    DrawnOrFault fun v => x v >>= fun r => y r.1 r.2 := by
  rcases hx with ⟨tty, f, hf, hx⟩ | ⟨e, hx⟩
  · rcases hy tty with ⟨tty', g, hg, hy⟩ | ⟨e, hy⟩
    · refine .inl ⟨tty', _, hg.comp hf, fun v => ?_⟩
      simp only [hx v, bind, Except.bind, hy]
    · refine .inr ⟨e, fun v => ?_⟩
      simp only [hx v, bind, Except.bind, hy]
  · refine .inr ⟨e, fun v => ?_⟩
    simp only [hx v, bind, Except.bind]

theorem DrawnOrFault.map
    {x : Video → Except NullFault (Output × Video)} (hx : DrawnOrFault x)
    {g : Output → Video → Output × Video} (hg : ∀ tty, Drawn (g tty)) :
    DrawnOrFault fun v => x v >>= fun r => pure (g r.1 r.2) :=
  hx.and_then fun tty => (hg tty).ok

/-- The arguments of an escape sequence have nothing to do with the memory. -/
theorem DrawnOrFault.of_args
    {α : Type} {x : Except NullFault α} {y : α → Video → Output × Video}
    (hy : ∀ a, Drawn (y a)) : DrawnOrFault fun v => x >>= fun a => pure (y a v) := by
  cases x with
  | error e => exact .inr ⟨e, fun _ => rfl⟩
  | ok a => exact (hy a).ok

theorem DrawnOrFault.ite
    {p : Prop} [Decidable p] {x y : Video → Except NullFault (Output × Video)}
    (hx : DrawnOrFault x) (hy : DrawnOrFault y) :
    DrawnOrFault fun v => if p then x v else y v := by
  by_cases hp : p
  · simpa only [if_pos hp] using hx
  · simpa only [if_neg hp] using hy

namespace Output

variable {tty : Output} {c : Chr} {found : Bool} {i : Nat}

theorem drawing_blankCell (i : Nat) : Drawing fun v => tty.blankCell v i :=
  (Drawing.store _ _).comp (.store _ _)

theorem drawing_blank (start stop : Nat) : Drawing fun v => tty.blank v start stop :=
  .foldl fun i _ => drawing_blankCell i

/-- What is erased shows the same, whatever it showed. -/
theorem blank_agree {v w : Video} (n : Nat) :
    ∀ i < 2 * n, (tty.blank v 0 n).mem (v.base + i) = (tty.blank w 0 n).mem (w.base + i) := by
  induction n with
  | zero => exact fun i hi => absurd hi (Nat.not_lt_zero i)
  | succ n ih =>
      intro i hi
      have hstep : ∀ u : Video, tty.blank u 0 (n + 1) = tty.blankCell (tty.blank u 0 n) n := by
        intro u
        simp only [blank, Nat.sub_zero, List.range'_concat, List.foldl_append]
        simp
      have hbase : ∀ u : Video, (tty.blank u 0 n).base = u.base :=
        (drawing_blank 0 n).base
      simp only [hstep, blankCell, Video.store, hbase, Function.update_apply,
        Nat.add_left_cancel_iff]
      split_ifs with hattrib hchar
      · rfl
      · rfl
      · exact ih i (by omega)

theorem drawing_scrollCell (hi : i < (numRows - 1) * numCols) :
    Drawing fun v => tty.scrollCell v i := by
  have hsize : (i + numCols) * 2 + 1 < vgaBufSize := by
    simp only [numRows, numCols, vgaBufSize, vgaChars] at hi ⊢
    omega
  -- the attribute, and before it the character
  have hattrib : Drawing fun v : Video => (v.load ((i + numCols) * 2 + 1)).2.store (i * 2 + 1)
      (if tty.isMousePos (i % numCols) (i / numCols) ||
          tty.isMousePos (i % numCols) (i / numCols + 1) then
        colorSwap (v.load ((i + numCols) * 2 + 1)).1
      else (v.load ((i + numCols) * 2 + 1)).1) :=
    Drawing.load (d := fun attrib v => v.store (i * 2 + 1)
      (if tty.isMousePos (i % numCols) (i / numCols) ||
          tty.isMousePos (i % numCols) (i / numCols + 1) then colorSwap attrib
      else attrib)) hsize fun _ => .store _ _
  have hi' : (i + numCols) * 2 < vgaBufSize := by omega
  exact Drawing.load hi' fun c => hattrib.comp (.store (i * 2) c)

theorem drawing_scrollUp (tty : Output) : Drawing fun v => tty.scrollUp v :=
  (drawing_blank _ _).comp (.foldl fun _ hi => drawing_scrollCell (List.mem_range.mp hi))

theorem drawn_scrollRows (rounds : Nat) (tty : Output) :
    Drawn fun v => scrollRows rounds tty v := by
  induction rounds generalizing tty with
  | zero => exact ⟨tty, _, .id, fun _ => rfl⟩
  | succ rounds ih =>
      by_cases hbelow : numRows ≤ tty.cursorY.toNat
      · obtain ⟨tty', f, hf, hrest⟩ := ih { tty with cursorY := tty.cursorY - 1 }
        refine ⟨tty', _, hf.comp (drawing_scrollUp tty), fun v => ?_⟩
        simp only [scrollRows, if_pos hbelow]
        exact hrest _
      · refine ⟨tty, _, .id, fun v => ?_⟩
        simp only [scrollRows, if_neg hbelow]

theorem drawn_fixscroll (tty : Output) : Drawn fun v => tty.fixscroll v :=
  drawn_scrollRows _ _

theorem drawn_eraseDisplay (arg : BitVec 8) : Drawn fun v => tty.eraseDisplay v arg := by
  simp only [eraseDisplay]
  split_ifs
  · exact ⟨_, _, drawing_blank _ _, fun _ => rfl⟩
  · exact ⟨_, _, drawing_blank _ _, fun _ => rfl⟩
  · exact ⟨_, _, drawing_blank _ _, fun _ => rfl⟩
  · exact ⟨_, _, .id, fun _ => rfl⟩

theorem drawn_command (c : Chr) (found : Bool) :
    DrawnOrFault fun v => tty.command v c found := by
  have hset : ∀ tty : Output, Drawn fun v => (tty, v) := fun tty => ⟨tty, _, .id, fun _ => rfl⟩
  -- the characters of the commands, in the order of the source
  refine .ite (hset _).ok ?_
  refine .ite (.of_args fun _ => hset _) ?_
  refine .ite (.of_args fun _ => hset _) ?_
  refine .ite (.of_args fun _ => hset _) ?_
  refine .ite (.of_args fun _ => hset _) ?_
  refine .ite (.of_args fun _ => hset _) ?_
  refine .ite (.of_args fun _ => hset _) ?_
  refine .ite (.of_args fun _ => drawn_eraseDisplay _) ?_
  exact .ite (.of_args fun _ => hset _) (hset _).ok

theorem drawn_escaped (c : Chr) (found : Bool) :
    DrawnOrFault fun v => tty.escaped v c found := by
  have hset : ∀ tty : Output, Drawn fun v => (tty, v) := fun tty => ⟨tty, _, .id, fun _ => rfl⟩
  simp only [escaped]
  split_ifs
  · exact (hset _).ok
  · exact (hset _).ok
  · exact (hset _).ok
  · exact (drawn_command c found).map (g := fun tty v =>
      ({ tty with ansiDec := { tty.ansiDec with bufferEnd := 0 } }, v)) fun _ => hset _

theorem drawn_eraseBack : Drawn fun v => tty.eraseBack v := by
  refine (drawn_fixscroll tty).and_then (y := fun tty v =>
    let tty := tty.moveBack
    if tty.termios.echoe && tty.termios.icanon then
      (tty, (v.store (tty.curpos * 2) (ascii ' ')).store (tty.curpos * 2 + 1)
        (tty.whiteOnBlackM tty.cursorX.toNat tty.cursorY.toNat))
    else (tty, v)) fun tty => ?_
  simp only []
  split_ifs
  · exact ⟨_, _, (Drawing.store _ _).comp (.store _ _), fun _ => rfl⟩
  · exact ⟨_, _, .id, fun _ => rfl⟩

theorem drawn_print (c : Chr) : Drawn fun v => tty.print v c :=
  (drawn_fixscroll tty).and_then (y := fun tty v => ({ tty with cursorX := tty.cursorX + 1 },
    (v.store (tty.curpos * 2) c).store (tty.curpos * 2 + 1) tty.color)) fun _ =>
      ⟨_, _, (Drawing.store _ _).comp (.store _ _), fun _ => rfl⟩

theorem drawn_plain {nested : Write}
    (hnested : ∀ tty c found, DrawnOrFault fun v => nested tty v c found)
    (c : Chr) (found : Bool) : DrawnOrFault fun v => plain nested tty v c found := by
  have hset : ∀ tty : Output, Drawn fun v => (tty, v) := fun tty => ⟨tty, _, .id, fun _ => rfl⟩
  simp only [plain]
  split_ifs
  · exact (hset _).ok
  · exact (hnested tty 13 found).map (g := fun tty v =>
      { tty with cursorY := tty.cursorY + 1 }.fixscroll v) fun _ => drawn_fixscroll _
  · exact (drawn_fixscroll { tty with cursorY := tty.cursorY + 1 }).ok
  · exact drawn_eraseBack.ok
  · exact hnested tty (ascii ' ') found
  · exact (hset _).ok
  · exact (hset _).ok
  · exact (drawn_print c).ok

theorem drawn_round {nested : Write}
    (hnested : ∀ tty c found, DrawnOrFault fun v => nested tty v c found)
    (c : Chr) (found : Bool) : DrawnOrFault fun v => round nested tty v c found := by
  simp only [round]
  split_ifs
  · exact drawn_escaped c found
  · exact drawn_plain hnested c found

/-- A byte that is written is drawn. -/
theorem drawn_writeByte (c : Chr) (found : Bool) :
    DrawnOrFault fun v => tty.writeByte v c found :=
  drawn_round (fun _ c found =>
    drawn_round (fun tty _ _ => .inl ⟨tty, _, .id, fun _ => rfl⟩) c found) c found

end Output
end Tty
end JkxyKernel
