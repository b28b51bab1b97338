import Mathlib.Data.List.Basic

set_option autoImplicit false

/-! # Streams of variable-length frames

A stream is the concatenation of its frames; `offset ps k` is where frame `k` starts. The frame
boundaries are the offsets `0, offset ps 1, …, offset ps ps.length`.

Purely `List` combinatorics, generic over the element type. -/

namespace Frames

universe u

variable {α : Type u} {ps : List (List α)} {p : List α} {k : Nat}

/-- Where frame `k` starts. -/
def offset (ps : List (List α)) (k : Nat) : Nat := (ps.take k).flatten.length

@[simp] theorem offset_zero : offset ps 0 = 0 := by simp [offset]

theorem offset_succ (h : ps[k]? = some p) : offset ps (k + 1) = offset ps k + p.length := by
  rw [offset, offset, List.take_add_one, h]
  simp

theorem offset_mono {j : Nat} (h : j ≤ k) : offset ps j ≤ offset ps k := by
  obtain ⟨n, rfl⟩ := Nat.exists_eq_add_of_le h
  rw [offset, offset, List.take_add, List.flatten_append, List.length_append]
  exact Nat.le_add_right ..

theorem offset_of_length_le (h : ps.length ≤ k) : offset ps k = ps.flatten.length := by
  rw [offset, List.take_of_length_le h]

/-- A boundary before the end of the stream is the start of a frame. -/
theorem exists_frame (h : offset ps k < ps.flatten.length) : ∃ p, ps[k]? = some p := by
  by_cases hk : k < ps.length
  · exact ⟨ps[k], List.getElem?_eq_getElem hk⟩
  · rw [offset_of_length_le (by omega)] at h
    omega

/-- The elements from the start of a frame on are those of the frame. -/
theorem getElem?_flatten (h : ps[k]? = some p) {i : Nat} (hi : i < p.length) :
    ps.flatten[offset ps k + i]? = p[i]? := by
  obtain ⟨hk, rfl⟩ := List.getElem?_eq_some_iff.1 h
  have hsplit : ps.flatten = (ps.take k).flatten ++ (ps[k] ++ (ps.drop (k + 1)).flatten) := by
    rw [← List.flatten_cons, ← List.drop_eq_getElem_cons hk, ← List.flatten_append,
      List.take_append_drop]
  rw [hsplit, offset, List.getElem?_append_right (Nat.le_add_right ..), Nat.add_sub_cancel_left,
    List.getElem?_append_left hi]

/-- Frames that are not empty start one after another. -/
theorem offset_lt_offset (hne : ∀ p ∈ ps, p ≠ []) {j : Nat} (hj : j < k) (hk : k ≤ ps.length) :
    offset ps j < offset ps k := by
  have hget : ps[j]? = some ps[j] := List.getElem?_eq_getElem (by omega)
  have hpos : 0 < ps[j].length := List.length_pos_iff.2 (hne _ (List.getElem_mem _))
  have hstep := offset_succ hget
  have hrest := @offset_mono _ ps k (j + 1) hj
  omega

end Frames
