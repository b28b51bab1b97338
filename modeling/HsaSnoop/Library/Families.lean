import Mathlib.Algebra.BigOperators.Group.List.Basic
import Mathlib.Algebra.GroupWithZero.Nat
import Mathlib.Data.List.AList
import Mathlib.Data.List.Induction

set_option autoImplicit false

/-! # Families of values

A family holds one value per key; a key gets its value when it is first used. What a family holds in
total, by a measure of its values, grows with every update by what the update adds to the one value it
touches, whatever the keys are.

Generic over keys and values. -/

namespace Families

universe u v w

/-- One value per key. -/
abbrev Family (κ : Type u) (ν : Type v) := AList (fun _ : κ => ν)

variable {κ : Type u} {ν : Type v} [DecidableEq κ]

/-- Update the value of a key, which starts as `init`. -/
def modify (m : Family κ ν) (k : κ) (init : ν) (f : ν → ν) : Family κ ν :=
  m.insert k (f ((m.lookup k).getD init))

/-- The sum over all keys. -/
def total (measure : ν → ℕ) (m : Family κ ν) : ℕ := (m.entries.map (fun e => measure e.2)).sum

/-- A sum is the value of one key and the rest. -/
theorem sum_kerase (measure : ν → ℕ) (k : κ) (l : List (Sigma fun _ : κ => ν)) :
    ((l.dlookup k).map measure).getD 0 + ((l.kerase k).map (fun e => measure e.2)).sum =
      (l.map (fun e => measure e.2)).sum := by
  induction l with
  | nil => rfl
  | cons e l ih =>
      obtain ⟨k', v⟩ := e
      by_cases h : k = k'
      · subst h
        have hrest : List.kerase k (⟨k, v⟩ :: l) = l := List.kerase_cons_eq rfl
        rw [List.dlookup_cons_eq, hrest, List.map_cons, List.sum_cons]
        rfl
      · rw [List.dlookup_cons_ne _ _ h, List.kerase_cons_ne h, List.map_cons, List.sum_cons,
          List.map_cons, List.sum_cons, ← ih, Nat.add_left_comm]

/-- A key in use or not, its value is part of the total. -/
theorem total_erase {measure : ν → ℕ} {init : ν} (hinit : measure init = 0) (m : Family κ ν) (k : κ) :
    measure ((m.lookup k).getD init) + total measure (m.erase k) = total measure m := by
  have hvalue : measure ((m.lookup k).getD init) = ((m.lookup k).map measure).getD 0 := by
    cases m.lookup k with
    | none => exact hinit
    | some v => rfl
  rw [hvalue]
  exact sum_kerase measure k m.entries

theorem value_le_total {measure : ν → ℕ} {init : ν} (hinit : measure init = 0) (m : Family κ ν) (k : κ) :
    measure ((m.lookup k).getD init) ≤ total measure m := by
  rw [← total_erase hinit m k]
  exact Nat.le_add_right _ _

/-- **An update adds to the total what it adds to its value.** -/
theorem total_modify {measure : ν → ℕ} {init : ν} {f : ν → ν} {d : ℕ} (hinit : measure init = 0)
    (m : Family κ ν) (k : κ)
    (hf : measure (f ((m.lookup k).getD init)) = measure ((m.lookup k).getD init) + d) :
    total measure (modify m k init f) = total measure m + d := by
  have hinsert : total measure (modify m k init f) =
      measure (f ((m.lookup k).getD init)) + total measure (m.erase k) := by
    rw [modify, total, AList.entries_insert]
    rfl
  rw [hinsert, hf, ← total_erase hinit m k]
  omega

/-- A measure that some steps add to and the others leave alone adds up over a run, as long as it stays
    within a bound. -/
theorem measure_foldl {σ : Type u} {α : Type w} {step : σ → α → σ} {measure : σ → ℕ} {weight : α → ℕ}
    {counts : α → Bool} {bound : ℕ}
    (hcounts : ∀ s a, counts a = true → measure s + weight a ≤ bound →
      measure (step s a) = measure s + weight a)
    (hothers : ∀ s a, counts a = false → measure (step s a) = measure s)
    (l : List α) {s : σ} (hs : measure s + ((l.filter counts).map weight).sum ≤ bound) :
    measure (l.foldl step s) = measure s + ((l.filter counts).map weight).sum := by
  induction l generalizing s with
  | nil => rfl
  | cons a l ih =>
      rw [List.foldl_cons]
      cases ha : counts a with
      | false =>
          rw [List.filter_cons_of_neg (by rw [ha]; exact Bool.false_ne_true)] at hs ⊢
          rw [← hothers s a ha] at hs ⊢
          exact ih hs
      | true =>
          rw [List.filter_cons_of_pos ha, List.map_cons, List.sum_cons, ← Nat.add_assoc] at hs ⊢
          have hone := hcounts s a ha (Nat.le_trans (Nat.le_add_right _ _) hs)
          rw [← hone] at hs ⊢
          exact ih hs

/-! ## Updates by key -/

theorem lookup_modify (m : Family κ ν) (k k' : κ) (init : ν) (f : ν → ν) :
    (modify m k init f).lookup k' =
      if k' = k then some (f ((m.lookup k).getD init)) else m.lookup k' := by
  unfold modify
  by_cases h : k' = k
  · subst h
    rw [if_pos rfl, AList.lookup_insert]
  · rw [if_neg h, AList.lookup_insert_ne h]

/-- What was logged under a key, in order; `none` if nothing was. -/
def collect {α : Type w} (log : List (κ × α)) (k : κ) : Option (List α) :=
  if k ∈ log.map Prod.fst then some ((log.filter (fun e => e.1 = k)).map Prod.snd) else none

theorem collect_concat {α : Type w} (log : List (κ × α)) (k k' : κ) (v : α) :
    collect (log ++ [(k, v)]) k' =
      if k' = k then some ((collect log k).getD [] ++ [v]) else collect log k' := by
  simp only [collect, List.map_append, List.map_cons, List.map_nil, List.mem_append, List.mem_singleton,
    List.filter_append]
  by_cases h : k' = k
  · subst h
    rw [if_pos (.inr rfl), if_pos rfl, List.filter_cons_of_pos (by simp)]
    by_cases hmem : k' ∈ log.map Prod.fst
    · rw [if_pos hmem]
      rfl
    · -- Nothing was logged under the key before.
      have hnil : log.filter (fun e => e.1 = k') = [] := by
        rw [List.filter_eq_nil_iff]
        intro e he heq
        exact hmem (List.mem_map.2 ⟨e, he, of_decide_eq_true heq⟩)
      rw [if_neg hmem, hnil]
      rfl
  · rw [if_neg h, List.filter_cons_of_neg (by simpa using fun heq => h heq.symm), List.filter_nil,
      List.map_nil, List.append_nil]
    simp only [h, or_false]

/-- What is logged with every key alike is logged as often as the key is. -/
theorem collect_map_const {α : Type w} (v : α) (ks : List κ) (k : κ) :
    collect (ks.map (fun k => (k, v))) k = if k ∈ ks then some (List.replicate (ks.count k) v) else none := by
  have hkeys : (ks.map (fun k => (k, v))).map Prod.fst = ks := by
    rw [List.map_map]
    exact List.map_id ks
  have hvalues : ((ks.map (fun k => (k, v))).filter (fun e => e.1 = k)).map Prod.snd =
      List.replicate (ks.count k) v := by
    rw [List.filter_map, List.map_map]
    show (ks.filter _).map (Function.const κ v) = _
    rw [List.map_const, List.count_eq_countP, List.countP_eq_length_filter]
    rfl
  rw [collect, hkeys, hvalues]

/-- **Updates by key, one after the other**: under each key stands what its own updates make of the start
    value. -/
theorem lookup_foldl_modify {α : Type w} (init : ν) (op : ν → α → ν) (log : List (κ × α)) (k : κ) :
    (log.foldl (fun m e => modify m e.1 init (fun v => op v e.2)) (∅ : Family κ ν)).lookup k =
      (collect log k).map (fun vs => vs.foldl op init) := by
  induction log using List.reverseRecOn generalizing k with
  | nil => rfl
  | append_singleton log e ih =>
      rw [List.foldl_append, List.foldl_cons, List.foldl_nil, lookup_modify, collect_concat, ih, ih]
      by_cases h : k = e.1
      · rw [if_pos h, if_pos h]
        cases collect log e.1 with
        | none => rfl
        | some vs => simp [List.foldl_append]
      · rw [if_neg h, if_neg h]

/-! ## Assignments -/

/-- Assign values to keys, one after the other. -/
def assign (as : List (κ × ν)) (m : Family κ ν) : Family κ ν :=
  as.foldl (fun m a => m.insert a.1 a.2) m

/-- The assignments that no later one replaces. -/
def lasts : List (κ × ν) → List (κ × ν)
  | [] => []
  | a :: as => if a.1 ∈ as.map Prod.fst then lasts as else a :: lasts as

theorem lasts_map {μ : Type w} (g : κ × ν → μ) (as : List (κ × ν)) :
    lasts (as.map (fun a => (a.1, g a))) = (lasts as).map (fun a => (a.1, g a)) := by
  induction as with
  | nil => rfl
  | cons a as ih =>
      have hkeys : (as.map (fun a => (a.1, g a))).map Prod.fst = as.map Prod.fst := by
        rw [List.map_map]
        rfl
      rw [List.map_cons, lasts, lasts, hkeys, ih]
      by_cases h : a.1 ∈ as.map Prod.fst
      · rw [if_pos h, if_pos h]
      · rw [if_neg h, if_neg h, List.map_cons]

theorem lasts_sublist (as : List (κ × ν)) : (lasts as).Sublist as := by
  induction as with
  | nil => exact .slnil
  | cons a as ih =>
      rw [lasts]
      split
      · exact ih.cons a
      · exact ih.cons_cons a

/-- An assignment whose key no other assigns is kept. -/
theorem mem_lasts {as : List (κ × ν)} {a : κ × ν} (h : a ∈ as) (honly : ∀ b ∈ as, b.1 = a.1 → b = a) :
    a ∈ lasts as := by
  induction as with
  | nil => cases h
  | cons b as ih =>
      rw [List.forall_mem_cons] at honly
      rw [lasts]
      by_cases hlater : a ∈ as
      · have hkept := ih hlater honly.2
        split
        · exact hkept
        · exact List.mem_cons_of_mem b hkept
      · obtain rfl : a = b := (List.mem_cons.1 h).resolve_right hlater
        have hkey : a.1 ∉ as.map Prod.fst := by
          intro hmem
          obtain ⟨c, hc, hkey⟩ := List.mem_map.1 hmem
          exact hlater (honly.2 c hc hkey ▸ hc)
        rw [if_neg hkey]
        exact List.mem_cons_self ..

theorem kerase_eq_filter {l : List (Sigma fun _ : κ => ν)} (h : l.NodupKeys) (k : κ) :
    l.kerase k = l.filter (fun e => e.1 ≠ k) := by
  induction l with
  | nil => rfl
  | cons e l ih =>
      obtain ⟨hnew, hl⟩ := List.nodupKeys_cons.1 h
      by_cases hk : k = e.1
      · subst hk
        have hfilter : l.filter (fun e' => e'.1 ≠ e.1) = l := by
          rw [List.filter_eq_self]
          intro e' he'
          exact decide_eq_true (fun heq => hnew (heq ▸ List.mem_keys_of_mem he'))
        rw [List.kerase_cons_eq rfl, List.filter_cons_of_neg (by simp), hfilter]
      · rw [List.kerase_cons_ne hk, ih hl, List.filter_cons_of_pos (by simpa using fun h => hk h.symm)]

/-- **What is assigned in the end**: the last value of each key, and what was there of the others. -/
theorem entries_assign (as : List (κ × ν)) (m : Family κ ν) :
    (assign as m).entries.Perm
      (m.entries.filter (fun e => e.1 ∉ as.map Prod.fst) ++ (lasts as).map (fun a => ⟨a.1, a.2⟩)) := by
  induction as generalizing m with
  | nil => simp [assign, lasts]
  | cons a as ih =>
      have hinsert := ih (m.insert a.1 a.2)
      have hentries : (m.insert a.1 a.2).entries =
          ⟨a.1, a.2⟩ :: m.entries.filter (fun e => e.1 ≠ a.1) := by
        rw [AList.entries_insert, kerase_eq_filter m.nodupKeys]
      have hfilter : (m.entries.filter (fun e => e.1 ≠ a.1)).filter (fun e => e.1 ∉ as.map Prod.fst) =
          m.entries.filter (fun e => e.1 ∉ (a :: as).map Prod.fst) := by
        rw [List.filter_filter]
        congr 1
        funext e
        simp only [List.map_cons, List.mem_cons, not_or, Bool.decide_and, Bool.and_comm]
      rw [hentries] at hinsert
      rw [lasts]
      by_cases h : a.1 ∈ as.map Prod.fst
      · rw [List.filter_cons_of_neg (by simpa using h), hfilter] at hinsert
        rw [if_pos h]
        exact hinsert
      · rw [List.filter_cons_of_pos (by simpa using h), hfilter] at hinsert
        rw [if_neg h, List.map_cons]
        exact hinsert.trans List.perm_middle.symm

end Families
