import Mathlib.Data.List.TakeWhile
import Mathlib.Order.Lattice

set_option autoImplicit false

/-! # A queue of timed items that is pruned from the front

Items are pushed at the back in the order of their times, and everything older than a cutoff is dropped
from the front. What is left is then what a filter would leave (`prune_eq_filter`), and as long as cutoffs
only grow nothing is dropped that a later cutoff still asks for (`Remains.prune`). -/

namespace SlidingWindow

variable {α τ : Type} [LinearOrder τ] (time : α → τ)

/-- Drop what is older than the cutoff from the front. -/
def prune (cutoff : τ) (items : List α) : List α :=
  items.dropWhile (fun a => decide (time a < cutoff))

/-- The items are in the order of their times. -/
def Ordered (items : List α) : Prop := items.Pairwise (fun a b => time a ≤ time b)

variable {time}

theorem Ordered.push {items : List α} (h : Ordered time items) {a : α}
    (hlast : ∀ b ∈ items, time b ≤ time a) : Ordered time (items ++ [a]) := by
  refine List.pairwise_append.2 ⟨h, List.pairwise_singleton _ _, fun b hb c hc => ?_⟩
  rw [List.mem_singleton.1 hc]
  exact hlast b hb

theorem Ordered.prune {items : List α} (h : Ordered time items) (cutoff : τ) :
    Ordered time (SlidingWindow.prune time cutoff items) :=
  List.Pairwise.sublist (List.dropWhile_sublist _) h

/-- **Pruning the front of an ordered queue is filtering it.** -/
theorem prune_eq_filter {items : List α} (h : Ordered time items) (cutoff : τ) :
    prune time cutoff items = items.filter (fun a => decide (cutoff ≤ time a)) := by
  induction items with
  | nil => rfl
  | cons a rest ih =>
      obtain ⟨hhead, htail⟩ := List.pairwise_cons.1 h
      unfold prune at ih ⊢
      by_cases ha : time a < cutoff
      · rw [List.dropWhile_cons_of_pos (by simpa using ha),
          List.filter_cons_of_neg (by simpa using ha)]
        exact ih htail
      · -- Everything behind the first item that stays is at least as recent.
        rw [List.dropWhile_cons_of_neg (by simpa using ha)]
        refine (List.filter_eq_self.2 (fun b hb => ?_)).symm
        have hle : cutoff ≤ time b := by
          rcases List.mem_cons.1 hb with rfl | hb
          · exact not_lt.1 ha
          · exact le_trans (not_lt.1 ha) (hhead b hb)
        simpa using hle

/-- What remains of everything that was pushed: only items older than `horizon` are gone. -/
def Remains (time : α → τ) (horizon : τ) (pushed items : List α) : Prop :=
  ∃ gone, pushed = gone ++ items ∧ ∀ a ∈ gone, time a < horizon

theorem Remains.push {horizon : τ} {pushed items : List α} (h : Remains time horizon pushed items)
    (a : α) : Remains time horizon (pushed ++ [a]) (items ++ [a]) := by
  obtain ⟨gone, rfl, hgone⟩ := h
  exact ⟨gone, by simp, hgone⟩

theorem Remains.mono {horizon later : τ} (hle : horizon ≤ later) {pushed items : List α}
    (h : Remains time horizon pushed items) : Remains time later pushed items := by
  obtain ⟨gone, rfl, hgone⟩ := h
  exact ⟨gone, rfl, fun a ha => lt_of_lt_of_le (hgone a ha) hle⟩

/-- Pruning takes away what is older than its cutoff. -/
theorem Remains.prune {horizon cutoff : τ} (hle : horizon ≤ cutoff) {pushed items : List α}
    (h : Remains time horizon pushed items) :
    Remains time cutoff pushed (SlidingWindow.prune time cutoff items) := by
  obtain ⟨gone, rfl, hgone⟩ := h.mono hle
  refine ⟨gone ++ items.takeWhile (fun a => decide (time a < cutoff)), ?_, ?_⟩
  · rw [List.append_assoc, SlidingWindow.prune, List.takeWhile_append_dropWhile]
  · refine List.forall_mem_append.2 ⟨hgone, fun a ha => ?_⟩
    simpa using List.mem_takeWhile_imp ha

/-- **The window is exact**: pruning what remains leaves what the cutoff asks for of everything that was
    pushed. -/
theorem Remains.prune_eq {horizon cutoff : τ} (hle : horizon ≤ cutoff) {pushed items : List α}
    (h : Remains time horizon pushed items) (hordered : Ordered time items) :
    SlidingWindow.prune time cutoff items =
      pushed.filter (fun a => decide (cutoff ≤ time a)) := by
  obtain ⟨gone, rfl, hgone⟩ := h.mono hle
  have hnone : gone.filter (fun a => decide (cutoff ≤ time a)) = [] := by
    rw [List.filter_eq_nil_iff]
    intro a ha
    simpa using hgone a ha
  rw [prune_eq_filter hordered, List.filter_append, hnone, List.nil_append]

end SlidingWindow
