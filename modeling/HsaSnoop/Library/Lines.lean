import Mathlib.Data.List.Basic

set_option autoImplicit false

/-! # Terminated segments of a list

`lines sep l` are the segments of `l` that end in `sep`, without it; what follows the last `sep` is
not one of them. A list is `Closed` when nothing follows: closed pieces can be cut independently
(`lines_append`), others can not.

Generic over the element type. -/

namespace Lines

universe u

variable {α : Type u} {sep : α} {l m : List α}

/-- Nothing follows the last `sep`. -/
def Closed (sep : α) (l : List α) : Prop := l = [] ∨ l.getLast? = some sep

/-- An unterminated list without `sep` is not closed, unless it is empty. -/
theorem closed_iff_nil_of_notMem (h : sep ∉ l) : Closed sep l ↔ l = [] := by
  refine ⟨fun hc => ?_, fun hl => .inl hl⟩
  rcases hc with hl | hl
  · exact hl
  · exact absurd (List.mem_of_getLast? hl) h

theorem closed_append_cons : Closed sep (l ++ sep :: m) ↔ Closed sep m := by
  cases m with
  | nil => simp [Closed]
  | cons b m => simp [Closed]

variable [DecidableEq α]

/-- The segments of `l` that end in `sep`, in order. -/
def lines (sep : α) (l : List α) : List (List α) := (l.splitOn sep).dropLast

theorem lines_of_notMem (h : sep ∉ l) : lines sep l = [] := by
  rw [lines, List.splitOn_eq_singleton h]
  rfl

/-- The first segment, cut off at the first `sep`. -/
theorem lines_append_cons (h : sep ∉ l) : lines sep (l ++ sep :: m) = l :: lines sep m := by
  rw [lines, List.splitOn_append_cons_self, List.splitOn_eq_singleton h, List.singleton_append,
    List.dropLast_cons_of_ne_nil (List.splitOn_ne_nil sep m), lines]

/-- **Closed pieces are cut independently.** -/
theorem lines_append (h : Closed sep l) : lines sep (l ++ m) = lines sep l ++ lines sep m := by
  rcases h with rfl | h
  · rfl
  · obtain ⟨k, rfl⟩ : ∃ k, l = k ++ [sep] :=
      ⟨l.dropLast, (List.dropLast_append_getLast? sep h).symm⟩
    have hl : lines sep (k ++ [sep]) = k.splitOn sep := by
      rw [lines, List.splitOn_append_cons_self, List.splitOn_nil, List.dropLast_concat]
    rw [hl, List.append_assoc, List.singleton_append, lines, List.splitOn_append_cons_self,
      List.dropLast_append_of_ne_nil (List.splitOn_ne_nil sep m), lines]

/-- Terminated texts are cut where they were put together. -/
theorem lines_flatMap {β : Type u} {text : β → List α} (htext : ∀ x, sep ∉ text x) (xs : List β) :
    lines sep (xs.flatMap (fun x => text x ++ [sep])) = xs.map text := by
  induction xs with
  | nil => exact lines_of_notMem List.not_mem_nil
  | cons x xs ih =>
      rw [List.flatMap_cons, List.append_assoc, List.singleton_append, lines_append_cons (htext x), ih,
        List.map_cons]

/-- Where `idxOf?` finds a `sep` with none before it. -/
theorem idxOf?_append_cons (h : sep ∉ l) : (l ++ sep :: m).idxOf? sep = some l.length := by
  induction l with
  | nil => simp [List.idxOf?_cons]
  | cons b l ih =>
      rw [List.mem_cons, not_or] at h
      rw [List.cons_append, List.idxOf?_cons, ih h.2, if_neg (by simpa using fun hb => h.1 hb.symm)]
      rfl

/-- Where `idxOf?` finds the first `sep`. -/
theorem take_append_drop_of_idxOf? {i : Nat} (h : l.idxOf? sep = some i) :
    sep ∉ l.take i ∧ l = l.take i ++ sep :: l.drop (i + 1) := by
  obtain ⟨hi, hsep, hbefore⟩ := List.idxOf?_eq_some_iff.1 h
  constructor
  · intro hmem
    obtain ⟨j, hj, hget⟩ := List.mem_iff_getElem.1 hmem
    rw [List.length_take] at hj
    rw [List.getElem_take] at hget
    exact hbefore j (by omega) hget
  · rw [← hsep, ← List.drop_eq_getElem_cons hi, List.take_append_drop]

end Lines
