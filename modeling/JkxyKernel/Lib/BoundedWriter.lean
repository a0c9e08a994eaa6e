import Mathlib.Data.List.Basic

/-!
# Writing into a bounded buffer

A writer has room for so many elements, and counts down what is left while it counts up
what it has written.  What does not fit is cut off.

However a text is written, element by element or as whole pieces, the buffer holds the
front of it: `Wrote n text w` says so, and there is one rule for each operation.
-/

namespace JkxyKernel

universe u

/-- A buffer that is written to: what is in it, the room that is left, and the count of
what was written. -/
structure Writer (α : Type u) where
  written : List α
  room : Nat
  count : Nat

namespace Writer

variable {α : Type u}

/-- An empty buffer with room for `n` elements. -/
def start (n : Nat) : Writer α := { written := [], room := n, count := 0 }

/-- One element; there must be room for it. -/
def put (w : Writer α) (a : α) : Writer α where
  written := w.written ++ [a]
  room := w.room - 1
  count := w.count + 1

/-- As much of the piece as fits. -/
def copy (w : Writer α) (piece : List α) : Writer α :=
  let len := if piece.length > w.room then w.room else piece.length
  { written := w.written ++ piece.take len, room := w.room - len, count := w.count + len }

/-- The buffer of `n` elements holds the front of the text. -/
structure Wrote (n : Nat) (text : List α) (w : Writer α) : Prop where
  written : w.written = text.take n
  room : w.room = n - text.length
  count : w.count = min n text.length

variable {n : Nat} {text : List α} {w : Writer α}

theorem wrote_start (n : Nat) : Wrote n ([] : List α) (start n) :=
  ⟨List.take_nil.symm, rfl, (Nat.min_zero n).symm⟩

theorem Wrote.put (h : Wrote n text w) (hroom : w.room ≠ 0) (a : α) :
    Wrote n (text ++ [a]) (w.put a) := by
  have hlt : text.length < n := by
    have := h.room
    omega
  refine ⟨?_, ?_, ?_⟩
  · have hall : text.take n = text := List.take_of_length_le (Nat.le_of_lt hlt)
    have hmore : (text ++ [a]).take n = text ++ [a] :=
      List.take_of_length_le (by rw [List.length_append, List.length_singleton]; omega)
    simp only [Writer.put, h.written, hall, hmore]
  · simp only [Writer.put, h.room, List.length_append, List.length_singleton]
    omega
  · simp only [Writer.put, h.count, List.length_append, List.length_singleton]
    omega

theorem Wrote.copy (h : Wrote n text w) (piece : List α) :
    Wrote n (text ++ piece) (w.copy piece) := by
  have hlen : (if piece.length > w.room then w.room else piece.length) =
      min piece.length (n - text.length) := by
    rw [h.room]
    split <;> omega
  refine ⟨?_, ?_, ?_⟩
  · simp only [Writer.copy, hlen, h.written, List.take_append, List.append_cancel_left_eq]
    rw [Nat.min_comm, List.take_eq_take_iff]
    omega
  · simp only [Writer.copy, hlen, List.length_append]
    have := h.room
    omega
  · simp only [Writer.copy, hlen, h.count, List.length_append]
    omega

/-- In a full buffer there is the front of every longer text. -/
theorem Wrote.full (h : Wrote n text w) (hroom : w.room = 0) (more : List α) :
    Wrote n (text ++ more) w := by
  have hle : n ≤ text.length := by
    have := h.room
    omega
  refine ⟨?_, ?_, ?_⟩
  · rw [h.written, List.take_append_of_le_length hle]
  · rw [hroom, List.length_append]
    omega
  · rw [h.count, List.length_append]
    omega

end Writer
end JkxyKernel
