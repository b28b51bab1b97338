import Mathlib.Data.List.Basic
import Mathlib.Data.List.TakeWhile

set_option autoImplicit false

/-! # Ordered maps with natural-number keys

The list model of an ordered associative container (`std::map`): the entries in ascending key
order, with the order carried as a field so that a map out of order cannot be built. Only what a
queue of pending work needs is provided: insertion of an absent key (`emplace`), assignment
(`insert`), lookup, and removal of everything below a bound from the front (`splitBelow`).

Purely `List`/`Nat` combinatorics, generic over the value type. -/

universe u

/-- A finite map from `Nat` to `α`, as its entries in strictly ascending key order. -/
structure OrdMap (α : Type u) where
  entries : List (Nat × α)
  /-- Keys ascend strictly, hence occur once. -/
  sorted : entries.Pairwise (fun a b => a.1 < b.1)

namespace OrdMap

variable {α : Type u}

@[ext] theorem ext {m n : OrdMap α} (h : m.entries = n.entries) : m = n := by
  cases m; cases n; cases h; rfl

instance : EmptyCollection (OrdMap α) := ⟨⟨[], List.Pairwise.nil⟩⟩

instance : Inhabited (OrdMap α) := ⟨∅⟩

instance [DecidableEq α] : DecidableEq (OrdMap α) := fun m n =>
  decidable_of_iff (m.entries = n.entries) ⟨OrdMap.ext, fun h => h ▸ rfl⟩

@[simp] theorem entries_empty : (∅ : OrdMap α).entries = [] := rfl

/-- The keys, ascending. -/
def keys (m : OrdMap α) : List Nat := m.entries.map Prod.fst

def size (m : OrdMap α) : Nat := m.entries.length

def isEmpty (m : OrdMap α) : Bool := m.entries.isEmpty

@[simp] theorem keys_empty : (∅ : OrdMap α).keys = [] := rfl

@[simp] theorem length_keys (m : OrdMap α) : m.keys.length = m.size := by simp [keys, size]

theorem keys_pairwise (m : OrdMap α) : m.keys.Pairwise (· < ·) :=
  List.pairwise_map.2 m.sorted

/-! ## Lookup and insertion -/

/-- The value stored under `k`, if any. -/
def find? (m : OrdMap α) (k : Nat) : Option α := m.entries.lookup k

/-- Place `(k, v)` at its position in an ascending entry list; `onDup` says what becomes of an
    entry that already has key `k`. -/
def insertList (onDup : α → α) (k : Nat) (v : α) : List (Nat × α) → List (Nat × α)
  | [] => [(k, v)]
  | e :: rest =>
      if k < e.1 then (k, v) :: e :: rest
      else if k = e.1 then (e.1, onDup e.2) :: rest
      else e :: insertList onDup k v rest

theorem mem_keys_insertList (onDup : α → α) (k : Nat) (v : α) (l : List (Nat × α)) (j : Nat) :
    j ∈ (insertList onDup k v l).map Prod.fst ↔ j = k ∨ j ∈ l.map Prod.fst := by
  induction l with
  | nil => simp [insertList]
  | cons e rest ih =>
      simp only [insertList]
      split
      · simp
      · split
        · next heq => simp [heq]
        · simp only [List.map_cons, List.mem_cons, ih]
          tauto

theorem insertList_sorted (onDup : α → α) (k : Nat) (v : α) (l : List (Nat × α))
    (h : l.Pairwise (fun a b => a.1 < b.1)) :
    (insertList onDup k v l).Pairwise (fun a b => a.1 < b.1) := by
  induction l with
  | nil => simp [insertList]
  | cons e rest ih =>
      obtain ⟨hhead, htail⟩ := List.pairwise_cons.1 h
      simp only [insertList]
      split
      · next hlt =>
          refine List.pairwise_cons.2 ⟨fun b hb => ?_, h⟩
          rcases List.mem_cons.1 hb with rfl | hb
          · exact hlt
          · exact hlt.trans (hhead b hb)
      · next hge =>
          split
          · exact List.pairwise_cons.2 ⟨hhead, htail⟩
          · next hne =>
              refine List.pairwise_cons.2 ⟨fun b hb => ?_, ih htail⟩
              have hkey : b.1 ∈ (insertList onDup k v rest).map Prod.fst :=
                List.mem_map_of_mem hb
              rcases (mem_keys_insertList onDup k v rest b.1).1 hkey with hk | hk
              · omega
              · obtain ⟨c, hc, hcb⟩ := List.mem_map.1 hk
                exact hcb ▸ hhead c hc

/-- Insert under an absent key; an entry that is already there stays as it is. -/
def emplace (m : OrdMap α) (k : Nat) (v : α) : OrdMap α :=
  ⟨insertList id k v m.entries, insertList_sorted id k v m.entries m.sorted⟩

/-- Insert or overwrite. -/
def insert (m : OrdMap α) (k : Nat) (v : α) : OrdMap α :=
  ⟨insertList (fun _ => v) k v m.entries, insertList_sorted _ k v m.entries m.sorted⟩

theorem mem_keys_emplace {m : OrdMap α} {k j : Nat} {v : α} :
    j ∈ (m.emplace k v).keys ↔ j = k ∨ j ∈ m.keys :=
  mem_keys_insertList id k v m.entries j

theorem mem_keys_insert {m : OrdMap α} {k j : Nat} {v : α} :
    j ∈ (m.insert k v).keys ↔ j = k ∨ j ∈ m.keys :=
  mem_keys_insertList _ k v m.entries j

theorem find?_isSome {m : OrdMap α} {k : Nat} : (m.find? k).isSome ↔ k ∈ m.keys := by
  unfold find? keys
  induction m.entries with
  | nil => simp
  | cons e rest ih =>
      rw [List.lookup_cons, List.map_cons, List.mem_cons, ← ih]
      by_cases h : k = e.1
      · simp [h]
      · rw [show (k == e.1) = false from beq_false_of_ne h]
        simp [h]

theorem lookup_cons_ite (j : Nat) (e : Nat × α) (rest : List (Nat × α)) :
    (e :: rest).lookup j = if j = e.1 then some e.2 else rest.lookup j := by
  rw [List.lookup_cons]
  by_cases hj : j = e.1
  · rw [if_pos hj, hj, beq_self_eq_true]
  · rw [if_neg hj, beq_false_of_ne hj]

theorem lookup_insertList (onDup : α → α) (k : Nat) (v : α) (l : List (Nat × α)) (j : Nat)
    (h : l.Pairwise (fun a b => a.1 < b.1)) :
    (insertList onDup k v l).lookup j =
      if j = k then some ((l.lookup k).elim v onDup) else l.lookup j := by
  induction l with
  | nil => simp only [insertList, lookup_cons_ite, List.lookup_nil, Option.elim_none]
  | cons e rest ih =>
      obtain ⟨hhead, htail⟩ := List.pairwise_cons.1 h
      simp only [insertList]
      split
      · next hlt =>
          -- Every key of the list is above `k`.
          have hnone : (e :: rest).lookup k = none := by
            rw [List.lookup_eq_none_iff]
            intro a ha
            rcases List.mem_cons.1 ha with rfl | ha
            · simpa using hlt.ne
            · simpa using (hlt.trans (hhead a ha)).ne
          rw [hnone, lookup_cons_ite, Option.elim_none]
      · split
        · next heq =>
            subst heq
            simp only [lookup_cons_ite, if_true, Option.elim_some]
            split <;> rfl
        · next hne =>
            rw [lookup_cons_ite, ih htail, lookup_cons_ite, lookup_cons_ite, if_neg hne]
            by_cases hj : j = e.1
            · rw [if_pos hj, if_neg (hj ▸ Ne.symm hne), if_pos hj]
            · rw [if_neg hj, if_neg hj]

theorem find?_insert (m : OrdMap α) (k : Nat) (v : α) (j : Nat) :
    (m.insert k v).find? j = if j = k then some v else m.find? j := by
  refine (lookup_insertList _ k v m.entries j m.sorted).trans ?_
  split
  · cases m.entries.lookup k <;> rfl
  · rfl

/-- Looking up finds the entries. -/
theorem find?_eq_some_iff {m : OrdMap α} {k : Nat} {v : α} : m.find? k = some v ↔ (k, v) ∈ m.entries := by
  obtain ⟨l, hsorted⟩ := m
  rw [find?]
  induction l with
  | nil => simp
  | cons e rest ih =>
      obtain ⟨hhead, htail⟩ := List.pairwise_cons.1 hsorted
      rw [lookup_cons_ite, List.mem_cons]
      by_cases hk : k = e.1
      · have hnot : (k, v) ∉ rest := fun h => (hhead _ h).ne hk.symm
        rw [if_pos hk, Option.some.injEq, or_iff_left hnot, Prod.ext_iff]
        exact ⟨fun h => ⟨hk, h.symm⟩, fun h => h.2.symm⟩
      · rw [if_neg hk, or_iff_right (fun h => hk (congrArg Prod.fst h))]
        exact ih htail

theorem find?_emplace_of_none {m : OrdMap α} {k : Nat} (h : m.find? k = none) (v : α) (j : Nat) :
    (m.emplace k v).find? j = if j = k then some v else m.find? j := by
  refine (lookup_insertList _ k v m.entries j m.sorted).trans ?_
  rw [show m.entries.lookup k = none from h]
  rfl

theorem find?_emplace (m : OrdMap α) (k : Nat) (v : α) (j : Nat) :
    (m.emplace k v).find? j = if j = k then some ((m.find? k).getD v) else m.find? j := by
  refine (lookup_insertList _ k v m.entries j m.sorted).trans ?_
  rw [find?]
  cases m.entries.lookup k <;> rfl

@[simp] theorem find?_empty (k : Nat) : (∅ : OrdMap α).find? k = none := rfl

theorem insertList_of_forall_lt (onDup : α → α) (k : Nat) (v : α) (l : List (Nat × α))
    (h : ∀ e ∈ l, e.1 < k) : insertList onDup k v l = l ++ [(k, v)] := by
  induction l with
  | nil => rfl
  | cons e rest ih =>
      have he : e.1 < k := h e (List.mem_cons_self ..)
      have hrest := ih (fun e' he' => h e' (List.mem_cons_of_mem _ he'))
      simp only [insertList, hrest]
      rw [if_neg (by omega), if_neg (by omega), List.cons_append]

/-- A key above every other goes to the back. -/
theorem entries_emplace_of_forall_lt {m : OrdMap α} {k : Nat} {v : α}
    (h : ∀ j ∈ m.keys, j < k) : (m.emplace k v).entries = m.entries ++ [(k, v)] :=
  insertList_of_forall_lt id k v m.entries
    (fun _ he => h _ (List.mem_map_of_mem he))

theorem keys_emplace_of_forall_lt {m : OrdMap α} {k : Nat} {v : α}
    (h : ∀ j ∈ m.keys, j < k) : (m.emplace k v).keys = m.keys ++ [k] := by
  simp [keys, entries_emplace_of_forall_lt h]

theorem mem_entries_emplace {m : OrdMap α} {k : Nat} {v : α} {e : Nat × α}
    (he : e ∈ (m.emplace k v).entries) : e = (k, v) ∨ e ∈ m.entries := by
  have hgen : ∀ l : List (Nat × α), e ∈ insertList id k v l → e = (k, v) ∨ e ∈ l := by
    intro l
    induction l with
    | nil => intro h; simpa [insertList] using h
    | cons a rest ih =>
        intro h
        simp only [insertList] at h
        split at h
        · simpa using h
        · split at h
          · exact Or.inr (by simpa using h)
          · rcases List.mem_cons.1 h with rfl | h
            · exact Or.inr (List.mem_cons_self ..)
            · exact (ih h).imp_right (List.mem_cons_of_mem _)
  exact hgen m.entries he

/-! ## Draining the front -/

/-- Remove the entries below `b` from the front: the removed entries in order, and what is left. -/
def splitBelow (m : OrdMap α) (b : Nat) : List (Nat × α) × OrdMap α :=
  (m.entries.takeWhile (fun e => decide (e.1 < b)),
   ⟨m.entries.dropWhile (fun e => decide (e.1 < b)),
    m.sorted.sublist (List.dropWhile_sublist _)⟩)

theorem splitBelow_append (m : OrdMap α) (b : Nat) :
    (m.splitBelow b).1 ++ (m.splitBelow b).2.entries = m.entries :=
  List.takeWhile_append_dropWhile

theorem splitBelow_fst_lt {m : OrdMap α} {b : Nat} {e : Nat × α} (h : e ∈ (m.splitBelow b).1) :
    e.1 < b := by
  simpa using List.mem_takeWhile_imp h

/-- Draining stops at the first key that is not below the bound; the order puts every other key
    that stays above it. -/
theorem splitBelow_snd_ge {m : OrdMap α} {b : Nat} {k : Nat} (h : k ∈ (m.splitBelow b).2.keys) :
    b ≤ k := by
  obtain ⟨entries, sorted⟩ := m
  simp only [splitBelow, keys] at h
  induction entries with
  | nil => simp at h
  | cons e rest ih =>
      obtain ⟨hhead, htail⟩ := List.pairwise_cons.1 sorted
      by_cases he : e.1 < b
      · rw [List.dropWhile_cons_of_pos (by simpa using he)] at h
        exact ih htail h
      · rw [List.dropWhile_cons_of_neg (by simpa using he)] at h
        rcases List.mem_cons.1 h with rfl | h
        · omega
        · obtain ⟨c, hc, rfl⟩ := List.mem_map.1 h
          have := hhead c hc
          omega

/-- An entry at or above the bound does not take part in the draining. -/
theorem splitBelow_emplace_fst {m : OrdMap α} {b k : Nat} {v : α} (h : b ≤ k) :
    ((m.emplace k v).splitBelow b).1 = (m.splitBelow b).1 := by
  have hgen : ∀ l : List (Nat × α), (insertList id k v l).takeWhile (fun e => decide (e.1 < b))
      = l.takeWhile (fun e => decide (e.1 < b)) := by
    intro l
    induction l with
    | nil => simp [insertList, h]
    | cons e rest ih =>
        simp only [insertList]
        split
        · next hlt => simp [h, show b ≤ e.1 by omega]
        · split
          · simp
          · simp only [List.takeWhile_cons, ih]
  exact hgen m.entries

theorem mem_entries_of_mem_splitBelow_fst {m : OrdMap α} {b : Nat} {e : Nat × α}
    (h : e ∈ (m.splitBelow b).1) : e ∈ m.entries := by
  rw [← m.splitBelow_append b]
  exact List.mem_append_left _ h

theorem mem_entries_of_mem_splitBelow_snd {m : OrdMap α} {b : Nat} {e : Nat × α}
    (h : e ∈ (m.splitBelow b).2.entries) : e ∈ m.entries := by
  rw [← m.splitBelow_append b]
  exact List.mem_append_right _ h

theorem keys_splitBelow (m : OrdMap α) (b : Nat) :
    (m.splitBelow b).1.map Prod.fst ++ (m.splitBelow b).2.keys = m.keys := by
  simp only [keys, ← List.map_append, splitBelow_append]

/-- If some key is below the bound, draining removes something. -/
theorem splitBelow_fst_eq_nil {m : OrdMap α} {b : Nat} :
    (m.splitBelow b).1 = [] ↔ ∀ k ∈ m.keys, b ≤ k := by
  constructor
  · intro hnil k hk
    have hkeys := m.keys_splitBelow b
    rw [hnil, List.map_nil, List.nil_append] at hkeys
    rw [← hkeys] at hk
    exact splitBelow_snd_ge hk
  · intro hge
    by_contra hne
    obtain ⟨e, he⟩ := List.exists_mem_of_ne_nil _ hne
    have hlt := splitBelow_fst_lt he
    have hmem : e.1 ∈ m.keys := by
      rw [← m.keys_splitBelow b]
      exact List.mem_append_left _ (List.mem_map_of_mem he)
    have := hge e.1 hmem
    omega

/-! ## Mapping the values -/

variable {β : Type u}

/-- Apply a function to every value. -/
def map (f : α → β) (m : OrdMap α) : OrdMap β :=
  ⟨m.entries.map (fun e => (e.1, f e.2)), List.pairwise_map.2 m.sorted⟩

@[simp] theorem map_empty (f : α → β) : (∅ : OrdMap α).map f = ∅ := rfl

theorem find?_map (f : α → β) (m : OrdMap α) (k : Nat) : (m.map f).find? k = (m.find? k).map f := by
  have hgen : ∀ l : List (Nat × α),
      (l.map (fun e => (e.1, f e.2))).lookup k = (l.lookup k).map f := by
    intro l
    induction l with
    | nil => rfl
    | cons e rest ih =>
        rw [List.map_cons, lookup_cons_ite, lookup_cons_ite, ih]
        split <;> rfl
  exact hgen m.entries

/-- Writing the values of a map into another one, key by key. -/
theorem find?_foldl_insert (f : α → β) (m : OrdMap α) (target : OrdMap β) (k : Nat) :
    (m.entries.foldl (fun t e => t.insert e.1 (f e.2)) target).find? k =
      match m.find? k with
      | some v => some (f v)
      | none => target.find? k := by
  have hgen : ∀ (l : List (Nat × α)) (t : OrdMap β), l.Pairwise (fun a b => a.1 < b.1) →
      (l.foldl (fun t e => t.insert e.1 (f e.2)) t).find? k =
        match l.lookup k with
        | some v => some (f v)
        | none => t.find? k := by
    intro l
    induction l with
    | nil => exact fun t _ => rfl
    | cons e rest ih =>
        intro t hsorted
        obtain ⟨hhead, htail⟩ := List.pairwise_cons.1 hsorted
        rw [List.foldl_cons, ih _ htail, lookup_cons_ite, find?_insert]
        by_cases hk : k = e.1
        · have hnone : rest.lookup k = none := by
            rw [List.lookup_eq_none_iff]
            intro x hx
            simpa using (hk ▸ hhead x hx).ne
          rw [if_pos hk, if_pos hk, hnone]
        · rw [if_neg hk, if_neg hk]
  exact hgen m.entries target m.sorted

theorem map_emplace (f : α → β) (m : OrdMap α) (k : Nat) (v : α) :
    (m.emplace k v).map f = (m.map f).emplace k (f v) := by
  have hgen : ∀ l : List (Nat × α), (insertList id k v l).map (fun e => (e.1, f e.2)) =
      insertList id k (f v) (l.map (fun e => (e.1, f e.2))) := by
    intro l
    induction l with
    | nil => rfl
    | cons e rest ih =>
        simp only [insertList, List.map_cons]
        split
        · rfl
        · split
          · rfl
          · rw [List.map_cons, ih]
  exact OrdMap.ext (hgen m.entries)

theorem splitBelow_map (f : α → β) (m : OrdMap α) (b : Nat) :
    (m.map f).splitBelow b =
      ((m.splitBelow b).1.map (fun e => (e.1, f e.2)), (m.splitBelow b).2.map f) := by
  refine Prod.ext ?_ (OrdMap.ext ?_)
  · simp only [splitBelow, map, List.takeWhile_map, Function.comp_def]
  · simp only [splitBelow, map, List.dropWhile_map, Function.comp_def]

end OrdMap
