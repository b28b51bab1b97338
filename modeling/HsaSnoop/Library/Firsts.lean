import Mathlib.Data.List.Basic

set_option autoImplicit false

/-! # First occurrences

`firsts key pre l` keeps the elements of `l` whose key neither `pre` nor an earlier element of `l`
has: what a loop with a set of seen keys reports. A coarser key reports fewer of them
(`filter_firsts_sublist`), and the same ones exactly when the first element with a coarse key also
has the fine key of every selected element that shares the coarse one (`filter_firsts_eq_iff`).

Generic over the element and key types. -/

namespace Firsts

universe u v w

variable {α : Type u} {κ : Type v} {κ' : Type w}

section

variable [DecidableEq κ] (key : α → κ)

/-- Elements with a new key, given those that came before (last first). -/
def firsts : (pre : List α) → List α → List α
  | _, [] => []
  | pre, a :: l =>
      if key a ∈ pre.map key then firsts (a :: pre) l else a :: firsts (a :: pre) l

variable {key}

theorem firsts_cons_of_mem {pre l : List α} {a : α} (h : key a ∈ pre.map key) :
    firsts key pre (a :: l) = firsts key (a :: pre) l := if_pos h

theorem firsts_cons_of_notMem {pre l : List α} {a : α} (h : key a ∉ pre.map key) :
    firsts key pre (a :: l) = a :: firsts key (a :: pre) l := if_neg h

theorem firsts_append (pre l m : List α) :
    firsts key pre (l ++ m) = firsts key pre l ++ firsts key (l.reverse ++ pre) m := by
  induction l generalizing pre with
  | nil => rfl
  | cons a l ih =>
      rw [List.cons_append, List.reverse_cons, List.append_assoc, List.singleton_append]
      by_cases h : key a ∈ pre.map key
      · rw [firsts_cons_of_mem h, firsts_cons_of_mem h, ih]
      · rw [firsts_cons_of_notMem h, firsts_cons_of_notMem h, ih, List.cons_append]

end

variable [DecidableEq κ] [DecidableEq κ'] {coarse : α → κ} {fine : α → κ'}

/-- The first element of its key, cut out of the list. -/
theorem exists_first {l : List α} {a : α} (h : a ∈ l) (key : α → κ') :
    ∃ before b after, l = before ++ b :: after ∧ key b = key a ∧ key a ∉ before.map key := by
  induction l with
  | nil => cases h
  | cons b l ih =>
      by_cases hb : key b = key a
      · exact ⟨[], b, l, rfl, hb, List.not_mem_nil⟩
      · have hmem : a ∈ l := by
          rcases List.mem_cons.1 h with rfl | hmem
          · exact absurd rfl hb
          · exact hmem
        obtain ⟨before, c, after, rfl, hc, hbefore⟩ := ih hmem
        refine ⟨b :: before, c, after, rfl, hc, ?_⟩
        rw [List.map_cons, List.mem_cons, not_or]
        exact ⟨fun heq => hb heq.symm, hbefore⟩

section

variable (hrefines : ∀ a b, fine a = fine b → coarse a = coarse b)

include hrefines

omit [DecidableEq κ] [DecidableEq κ'] in
theorem mem_map_coarse {pre : List α} {a : α} (h : fine a ∈ pre.map fine) :
    coarse a ∈ pre.map coarse := by
  obtain ⟨b, hb, heq⟩ := List.mem_map.1 h
  exact List.mem_map.2 ⟨b, hb, hrefines b a heq⟩

/-- What is new by the coarse key is new by the fine one. -/
theorem filter_firsts_sublist (p : α → Bool) (pre l : List α) :
    ((firsts coarse pre l).filter p).Sublist ((firsts fine pre l).filter p) := by
  induction l generalizing pre with
  | nil => exact List.Sublist.refl _
  | cons a l ih =>
      by_cases hfine : fine a ∈ pre.map fine
      · rw [firsts_cons_of_mem hfine, firsts_cons_of_mem (mem_map_coarse hrefines hfine)]
        exact ih (a :: pre)
      · rw [firsts_cons_of_notMem hfine]
        by_cases hcoarse : coarse a ∈ pre.map coarse
        · rw [firsts_cons_of_mem hcoarse]
          exact (ih (a :: pre)).trans ((List.sublist_cons_self a _).filter p)
        · rw [firsts_cons_of_notMem hcoarse, List.filter_cons, List.filter_cons]
          split
          · exact (ih (a :: pre)).cons_cons a
          · exact ih (a :: pre)

/-- The two keys select the same elements when no selected element is new by the fine key only. -/
theorem filter_firsts_eq_iff_split (p : α → Bool) (pre l : List α) :
    (firsts coarse pre l).filter p = (firsts fine pre l).filter p ↔
      ∀ before a after, l = before ++ a :: after → p a = true →
        fine a ∉ (before.reverse ++ pre).map fine →
        coarse a ∉ (before.reverse ++ pre).map coarse := by
  induction l generalizing pre with
  | nil => simp [firsts]
  | cons a l ih =>
      -- The condition at the head, and the condition on the tail with the head moved over.
      have hcond : (∀ before b after, a :: l = before ++ b :: after → p b = true →
            fine b ∉ (before.reverse ++ pre).map fine →
            coarse b ∉ (before.reverse ++ pre).map coarse) ↔
          (p a = true → fine a ∉ pre.map fine → coarse a ∉ pre.map coarse) ∧
          (firsts coarse (a :: pre) l).filter p = (firsts fine (a :: pre) l).filter p := by
        rw [ih (a :: pre)]
        constructor
        · intro h
          refine ⟨h [] a l rfl, fun before b after heq => ?_⟩
          have hb := h (a :: before) b after (congrArg (a :: ·) heq)
          rwa [List.reverse_cons, List.append_assoc, List.singleton_append] at hb
        · rintro ⟨hhead, htail⟩ before b after heq
          cases before with
          | nil =>
              obtain ⟨rfl, rfl⟩ := List.cons.inj heq
              exact hhead
          | cons c before =>
              obtain ⟨rfl, hl⟩ := List.cons.inj heq
              rw [List.reverse_cons, List.append_assoc, List.singleton_append]
              exact htail before b after hl
      rw [hcond]
      by_cases hfine : fine a ∈ pre.map fine
      · rw [firsts_cons_of_mem hfine, firsts_cons_of_mem (mem_map_coarse hrefines hfine)]
        exact ⟨fun h => ⟨fun _ hnew => absurd hfine hnew, h⟩, fun h => h.2⟩
      · rw [firsts_cons_of_notMem hfine]
        by_cases hcoarse : coarse a ∈ pre.map coarse
        · rw [firsts_cons_of_mem hcoarse]
          by_cases hp : p a = true
          · rw [List.filter_cons_of_pos hp]
            -- The right list is longer than the left one.
            have hlen := (filter_firsts_sublist hrefines p (a :: pre) l).length_le
            constructor
            · intro h
              rw [h, List.length_cons] at hlen
              exact absurd hlen (Nat.not_succ_le_self _)
            · rintro ⟨hhead, -⟩
              exact absurd hcoarse (hhead hp hfine)
          · rw [List.filter_cons_of_neg hp]
            exact ⟨fun h => ⟨fun hpos => absurd hpos hp, h⟩, fun h => h.2⟩
        · rw [firsts_cons_of_notMem hcoarse, List.filter_cons, List.filter_cons]
          split
          · rw [List.cons_inj_right]
            exact ⟨fun h => ⟨fun _ _ => hcoarse, h⟩, fun h => h.2⟩
          · exact ⟨fun h => ⟨fun _ _ => hcoarse, h⟩, fun h => h.2⟩

/-- **When a coarser key loses nothing**: the first element with the coarse key of a selected one
    has its fine key too. -/
theorem filter_firsts_eq_iff (p : α → Bool) (hp : ∀ a b, fine a = fine b → p a = p b)
    (l : List α) :
    (firsts coarse [] l).filter p = (firsts fine [] l).filter p ↔
      ∀ a ∈ l, p a = true →
        (l.find? (fun b => coarse b = coarse a)).map fine = some (fine a) := by
  rw [filter_firsts_eq_iff_split hrefines]
  simp only [List.append_nil, List.map_reverse, List.mem_reverse]
  constructor
  · intro h a ha hpa
    obtain ⟨before, b, after, rfl, hb, hbefore⟩ := exists_first ha fine
    have hnew := h before b after rfl ((hp b a hb).trans hpa) (hb ▸ hbefore)
    have hcoarse : coarse b = coarse a := hrefines b a hb
    have hnone : before.find? (fun c => decide (coarse c = coarse a)) = none := by
      rw [List.find?_eq_none]
      intro c hc heq
      exact hnew (List.mem_map.2 ⟨c, hc, (of_decide_eq_true heq).trans hcoarse.symm⟩)
    rw [List.find?_append, hnone, Option.none_or, List.find?_cons_of_pos (by simpa using hcoarse)]
    exact congrArg some hb
  · rintro h before a after rfl hpa hnew hmem
    obtain ⟨b, hb, heq⟩ := List.mem_map.1 hmem
    have hfirst := h a (by simp) hpa
    obtain ⟨c, hc⟩ : ∃ c, before.find? (fun c => decide (coarse c = coarse a)) = some c := by
      rw [← Option.isSome_iff_exists, List.find?_isSome]
      exact ⟨b, hb, decide_eq_true heq⟩
    rw [List.find?_append, hc, Option.some_or, Option.map_some, Option.some_inj] at hfirst
    exact hnew (List.mem_map.2 ⟨c, List.mem_of_find?_eq_some hc, hfirst⟩)

end

end Firsts
