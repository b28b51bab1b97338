import Mathlib.Data.List.Sort

set_option autoImplicit false

/-! # Slices read back through a stack

A timeline viewer receives slices as marks: an *opening* names its slice, a *closing* names nothing
and ends the slice opened last among those still open. A writer that sorts the edges of its slices by
time (closings first where two edges coincide) and emits them as marks therefore hands the viewer a
bracket sequence, and what the viewer reads back need not be what was written.

This file says what is read back. Every opening is closed and every closing closes something, whatever
the slices (`reading_balanced`). The slices themselves come back exactly when no two of them cross and,
among slices that start together, the order of writing fits the order of ending (`reading_perm_iff`).

Generic over the names and over the (linearly ordered) times. -/

namespace SliceStack

universe u v

variable {ν : Type u} {τ : Type v}

/-! ## Marks and their reading -/

/-- A named interval of a track. -/
structure Slice (ν : Type u) (τ : Type v) where
  name : ν
  start : τ
  stop : τ
  deriving DecidableEq, Repr

/-- What the viewer receives: closings are anonymous. -/
inductive Mark (ν : Type u) (τ : Type v)
  | opening (name : ν) (ts : τ)
  | closing (ts : τ)
  deriving DecidableEq, Repr

/-- What the viewer makes of the marks of a track. -/
structure Reading (ν : Type u) (τ : Type v) where
  /-- The closed slices, in the order they are closed. -/
  slices : List (Slice ν τ) := []
  /-- What is still open at the end, last opened first. -/
  unclosed : List (ν × τ) := []
  /-- How many closings met an empty stack. -/
  orphans : Nat := 0
  deriving DecidableEq, Repr

/-- Read marks on top of a stack: a closing ends the most recently opened slice. -/
def read : List (ν × τ) → List (Mark ν τ) → Reading ν τ
  | stack, [] => { unclosed := stack }
  | stack, .opening n t :: ms => read ((n, t) :: stack) ms
  | [], .closing _ :: ms => { read [] ms with orphans := (read [] ms).orphans + 1 }
  | (n, s) :: stack, .closing t :: ms =>
      { read stack ms with slices := ⟨n, s, t⟩ :: (read stack ms).slices }

/-! ## Edges in time order -/

/-- An edge of a slice, as the writer sorts it. -/
inductive Edge (ν : Type u) (τ : Type v)
  | opening (s : Slice ν τ)
  | closing (ts : τ)

def Edge.ts : Edge ν τ → τ
  | .opening s => s.start
  | .closing t => t

def Edge.begins : Edge ν τ → Bool
  | .opening _ => true
  | .closing _ => false

def Edge.mark : Edge ν τ → Mark ν τ
  | .opening s => .opening s.name s.start
  | .closing t => .closing t

def Slice.edges (s : Slice ν τ) : List (Edge ν τ) := [.opening s, .closing s.stop]

def Edge.opens? : Edge ν τ → Option (Slice ν τ)
  | .opening s => some s
  | .closing _ => none

def Edge.closes? : Edge ν τ → Option τ
  | .opening _ => none
  | .closing t => some t

/-- The slices opened by a list of edges, in order. -/
def opened (es : List (Edge ν τ)) : List (Slice ν τ) := es.filterMap Edge.opens?

/-- The closing times of a list of edges, in order. -/
def closings (es : List (Edge ν τ)) : List τ := es.filterMap Edge.closes?

@[simp] theorem opened_opening (s : Slice ν τ) (es : List (Edge ν τ)) :
    opened (.opening s :: es) = s :: opened es := rfl

@[simp] theorem opened_closing (t : τ) (es : List (Edge ν τ)) :
    opened (.closing t :: es) = opened es := rfl

@[simp] theorem closings_opening (s : Slice ν τ) (es : List (Edge ν τ)) :
    closings (.opening s :: es) = closings es := rfl

@[simp] theorem closings_closing (t : τ) (es : List (Edge ν τ)) :
    closings (.closing t :: es) = t :: closings es := rfl

theorem mem_opened {es : List (Edge ν τ)} {s : Slice ν τ} : s ∈ opened es ↔ .opening s ∈ es := by
  induction es with
  | nil => simp [opened]
  | cons e es ih => cases e <;> simp [ih]

theorem mem_closings {es : List (Edge ν τ)} {t : τ} : t ∈ closings es ↔ .closing t ∈ es := by
  induction es with
  | nil => simp [closings]
  | cons e es ih => cases e <;> simp [ih]

theorem opened_flatMap_edges {ss : List (Slice ν τ)} : opened (ss.flatMap Slice.edges) = ss := by
  induction ss with
  | nil => rfl
  | cons s ss ih => exact congrArg (s :: ·) ih

theorem closings_flatMap_edges {ss : List (Slice ν τ)} :
    closings (ss.flatMap Slice.edges) = ss.map Slice.stop := by
  induction ss with
  | nil => rfl
  | cons s ss ih => exact congrArg (s.stop :: ·) ih

variable [LinearOrder τ]

/-- The sort's strict order: by time, a closing before an opening at the same time. -/
def Edge.before (a b : Edge ν τ) : Bool :=
  if a.ts ≠ b.ts then decide (a.ts < b.ts) else !a.begins && b.begins

/-- Not strictly after: the order a stable sort leaves its input in. -/
def Edge.le (a b : Edge ν τ) : Prop := ¬ b.before a

instance : DecidableRel (@Edge.le ν τ _) := fun a b =>
  inferInstanceAs (Decidable (¬ b.before a))

theorem Edge.le_iff {a b : Edge ν τ} :
    a.le b ↔ a.ts < b.ts ∨ (a.ts = b.ts ∧ (a.begins → b.begins)) := by
  unfold Edge.le Edge.before
  rcases lt_trichotomy a.ts b.ts with h | h | h
  · simp [h, h.ne', h.le]
  · cases a.begins <;> cases b.begins <;> simp [h]
  · simp [h, h.ne, h.ne', h.not_gt]

instance : Std.Total (@Edge.le ν τ _) where
  total a b := by
    rw [Edge.le_iff, Edge.le_iff]
    rcases lt_trichotomy a.ts b.ts with h | h | h
    · exact .inl (.inl h)
    · cases hb : b.begins
      · exact .inr (.inr ⟨h.symm, by simp⟩)
      · exact .inl (.inr ⟨h, by simp⟩)
    · exact .inr (.inl h)

instance : IsTrans (Edge ν τ) Edge.le where
  trans a b c hab hbc := by
    rw [Edge.le_iff] at hab hbc ⊢
    rcases hab with hab | ⟨hab, hab'⟩ <;> rcases hbc with hbc | ⟨hbc, hbc'⟩
    · exact .inl (hab.trans hbc)
    · exact .inl (hbc ▸ hab)
    · exact .inl (hab ▸ hbc)
    · exact .inr ⟨hab.trans hbc, fun h => hbc' (hab' h)⟩

/-- The edges of a list of slices, stably sorted. -/
def sortedEdges (ss : List (Slice ν τ)) : List (Edge ν τ) :=
  (ss.flatMap Slice.edges).insertionSort Edge.le

/-- What the viewer makes of the edges `es` on top of the stack `S`. -/
def readEdges (S : List (ν × τ)) (es : List (Edge ν τ)) : Reading ν τ := read S (es.map Edge.mark)

/-- What is read back from the sorted edges of `ss`. -/
def reading (ss : List (Slice ν τ)) : Reading ν τ := readEdges [] (sortedEdges ss)

/-! ## Stable sorting -/

section StableSort

universe w

variable {α : Type w} {r : α → α → Prop} [DecidableRel r] [IsTrans α r] {p : α → Bool}

theorem filter_orderedInsert {l : List α} (hl : l.Pairwise r) (a : α) :
    (l.orderedInsert r a).filter p =
      if p a then (l.filter p).orderedInsert r a else l.filter p := by
  induction l with
  | nil => cases h : p a <;> simp [h]
  | cons b l ih =>
      obtain ⟨hb, hl'⟩ := List.pairwise_cons.1 hl
      by_cases hab : r a b
      · rw [List.orderedInsert_cons_of_le r l hab, List.filter_cons]
        split
        · -- `a` comes before all of the list, so before what the filter keeps of it
          have hall : ∀ x ∈ (b :: l).filter p, r a x := by
            intro x hx
            rcases List.mem_cons.1 (List.mem_of_mem_filter hx) with rfl | hx
            · exact hab
            · exact Trans.trans hab (hb x hx)
          cases hf : (b :: l).filter p with
          | nil => rfl
          | cons c cs =>
              rw [List.orderedInsert_cons_of_le r cs (hall c (hf ▸ List.mem_cons_self ..))]
        · rfl
      · rw [List.orderedInsert_of_not_le r l hab, List.filter_cons, ih hl']
        cases hpa : p a <;> cases hpb : p b <;> simp [hpb, hab]

/-- A stable sort and a filter commute. -/
theorem filter_insertionSort [Std.Total r] (l : List α) :
    (l.insertionSort r).filter p = (l.filter p).insertionSort r := by
  induction l with
  | nil => rfl
  | cons a l ih =>
      rw [List.insertionSort_cons, filter_orderedInsert (List.pairwise_insertionSort r l), ih,
        List.filter_cons]
      split <;> rfl

end StableSort

/-! ## Half-way through the edges -/

theorem Edge.ts_le_of_le {a b : Edge ν τ} (h : a.le b) : a.ts ≤ b.ts := by
  rcases Edge.le_iff.1 h with h | ⟨h, -⟩
  · exact h.le
  · exact h.le

/-- A closing that comes after an opening is strictly later: closings go first. -/
theorem Edge.lt_of_le_closing {s : Slice ν τ} {t : τ} (h : (Edge.opening s).le (.closing t)) :
    s.start < t := by
  rcases Edge.le_iff.1 h with h | ⟨-, h⟩
  · exact h
  · exact absurd (h rfl) (by simp [Edge.begins])

/-- Between two edges: `S` is the viewer's stack, `F` the closing times still owed to the slices
    on it, in order, and `es` the edges to come. Which stop belongs to which slice of the stack is
    not recorded, as it is not in the marks. -/
structure Pending (S : List (ν × τ)) (F : List τ) (es : List (Edge ν τ)) : Prop where
  sorted : es.Pairwise Edge.le
  length : S.length = F.length
  ascending : F.Pairwise (· ≤ ·)
  owed : (closings es).Perm (F ++ (opened es).map Slice.stop)
  positive : ∀ s ∈ opened es, s.start < s.stop
  open_lt : ∀ p ∈ S, ∀ t ∈ closings es, p.2 < t
  open_le : ∀ p ∈ S, ∀ s ∈ opened es, p.2 ≤ s.start
  descending : S.Pairwise (fun p q => q.2 ≤ p.2)

variable {S : List (ν × τ)} {F : List τ} {es : List (Edge ν τ)} {s : Slice ν τ} {t : τ}

namespace Pending

theorem mem_closings_of_owed (h : Pending S F es) (ht : t ∈ F) : t ∈ closings es :=
  h.owed.mem_iff.2 (List.mem_append_left _ ht)

/-- Nothing is open once every edge has been read. -/
theorem nil (h : Pending S F []) : S = [] ∧ F = [] := by
  have hF : F = [] := by simpa [closings, opened] using h.owed.symm.eq_nil
  refine ⟨?_, hF⟩
  rw [← List.length_eq_zero_iff, h.length, hF, List.length_nil]

theorem opening_lt (h : Pending S F (.opening s :: es)) (ht : t ∈ closings es) : s.start < t :=
  Edge.lt_of_le_closing ((List.pairwise_cons.1 h.sorted).1 _ (mem_closings.1 ht))

theorem start_le_opened (h : Pending S F (.opening s :: es)) {s' : Slice ν τ}
    (hs : s' ∈ opened es) : s.start ≤ s'.start :=
  Edge.ts_le_of_le ((List.pairwise_cons.1 h.sorted).1 _ (mem_opened.1 hs))

theorem ts_le_opened (h : Pending S F (.closing t :: es)) (hs : s ∈ opened es) : t ≤ s.start :=
  Edge.ts_le_of_le ((List.pairwise_cons.1 h.sorted).1 _ (mem_opened.1 hs))

theorem ts_le_closings (h : Pending S F (.closing t :: es)) {t' : τ} (ht : t' ∈ closings es) :
    t ≤ t' :=
  Edge.ts_le_of_le ((List.pairwise_cons.1 h.sorted).1 _ (mem_closings.1 ht))

/-- Reading an opening pushes it and books its stop. -/
theorem opening (h : Pending S F (.opening s :: es)) :
    Pending ((s.name, s.start) :: S) (F.orderedInsert (· ≤ ·) s.stop) es where
  sorted := (List.pairwise_cons.1 h.sorted).2
  length := by rw [List.length_cons, List.orderedInsert_length, h.length]
  ascending := h.ascending.orderedInsert s.stop F
  owed := by
    have howed : (closings es).Perm (F ++ s.stop :: (opened es).map Slice.stop) := h.owed
    refine howed.trans (List.perm_middle.trans ?_)
    exact ((List.perm_orderedInsert (· ≤ ·) s.stop F).append_right _).symm
  positive := fun s' hs' => h.positive s' (List.mem_cons_of_mem s hs')
  open_lt := by
    intro p hp t ht
    rcases List.mem_cons.1 hp with rfl | hp
    · exact h.opening_lt ht
    · exact h.open_lt p hp t ht
  open_le := by
    intro p hp s' hs'
    rcases List.mem_cons.1 hp with rfl | hp
    · exact h.start_le_opened hs'
    · exact h.open_le p hp s' (List.mem_cons_of_mem s hs')
  descending := List.pairwise_cons.2
    ⟨fun p hp => h.open_le p hp s (List.mem_cons_self ..), h.descending⟩

/-- A closing finds a slice on the stack and is the least stop owed: whatever is yet to be opened
    ends after it. -/
theorem closing (h : Pending S F (.closing t :: es)) :
    ∃ p S' F', S = p :: S' ∧ F = t :: F' ∧ Pending S' F' es := by
  have howed : (t :: closings es).Perm (F ++ (opened es).map Slice.stop) := h.owed
  have hmem : t ∈ F := by
    rcases List.mem_append.1 (howed.mem_iff.1 (List.mem_cons_self ..)) with ht | ht
    · exact ht
    · obtain ⟨s, hs, rfl⟩ := List.mem_map.1 ht
      exact absurd (h.positive s hs) (h.ts_le_opened hs).not_gt
  obtain ⟨t', F', rfl⟩ := List.exists_cons_of_ne_nil (List.ne_nil_of_mem hmem)
  obtain ⟨hF, hF'⟩ := List.pairwise_cons.1 h.ascending
  have ht' : t' = t := by
    refine le_antisymm ?_ ?_
    · rcases List.mem_cons.1 hmem with rfl | hmem
      · exact le_refl t
      · exact hF t hmem
    · rcases List.mem_cons.1 (h.mem_closings_of_owed (List.mem_cons_self ..)) with ht | ht
      · exact ht.ge
      · exact h.ts_le_closings ht
  subst ht'
  obtain ⟨p, S', rfl⟩ := List.exists_cons_of_length_eq_add_one h.length
  refine ⟨p, S', F', rfl, rfl, ?_⟩
  exact
    { sorted := (List.pairwise_cons.1 h.sorted).2
      length := Nat.succ_injective h.length
      ascending := hF'
      owed := (List.perm_cons t').1 howed
      positive := h.positive
      open_lt := fun q hq t ht =>
        h.open_lt q (List.mem_cons_of_mem p hq) t (List.mem_cons_of_mem t' ht)
      open_le := fun q hq => h.open_le q (List.mem_cons_of_mem p hq)
      descending := (List.pairwise_cons.1 h.descending).2 }

/-- Induction along the edges, from the last one back. -/
theorem rec_edges {C : (S : List (ν × τ)) → (F : List τ) → (es : List (Edge ν τ)) → Pending S F es →
      Prop} (nil : ∀ h, C [] [] [] h)
    (opening : ∀ S F s es (h : Pending S F (.opening s :: es)), C _ _ es h.opening → C S F _ h)
    (closing : ∀ p S t F es (h : Pending (p :: S) (t :: F) (.closing t :: es))
      (h' : Pending S F es), C S F es h' → C (p :: S) (t :: F) _ h)
    {S : List (ν × τ)} {F : List τ} {es : List (Edge ν τ)} (h : Pending S F es) : C S F es h := by
  induction es generalizing S F with
  | nil =>
      obtain ⟨rfl, rfl⟩ := h.nil
      exact nil h
  | cons e es ih =>
      cases e with
      | opening s => exact opening S F s es h (ih h.opening)
      | closing t =>
          obtain ⟨p, S', F', rfl, rfl, h'⟩ := h.closing
          exact closing p S' t F' es h h' (ih h')

end Pending

/-! ## Everything opened is closed -/

theorem Pending.balanced (h : Pending S F es) :
    (readEdges S es).unclosed = [] ∧ (readEdges S es).orphans = 0 := by
  induction h using Pending.rec_edges with
  | nil _ => exact ⟨rfl, rfl⟩
  | opening S F s es _ ih => exact ih
  | closing p S t F es _ _ ih => exact ih

/-- Each closing ends one slice. -/
theorem Pending.stops (h : Pending S F es) :
    (readEdges S es).slices.map Slice.stop = closings es := by
  induction h using Pending.rec_edges with
  | nil _ => rfl
  | opening S F s es _ ih => exact ih
  | closing p S t F es _ _ ih => exact congrArg (t :: ·) ih

/-- A slice starts where something on the stack or yet to be opened does. -/
theorem Pending.start_mem (h : Pending S F es) {x : Slice ν τ} (hx : x ∈ (readEdges S es).slices) :
    (∃ p ∈ S, x.start = p.2) ∨ ∃ s ∈ opened es, x.start = s.start := by
  induction h using Pending.rec_edges with
  | nil _ => cases hx
  | opening S F s es _ ih =>
      rcases ih hx with ⟨p, hp, hxp⟩ | ⟨s', hs', hxs⟩
      · rcases List.mem_cons.1 hp with rfl | hp
        · exact .inr ⟨s, List.mem_cons_self .., hxp⟩
        · exact .inl ⟨p, hp, hxp⟩
      · exact .inr ⟨s', List.mem_cons_of_mem s hs', hxs⟩
  | closing p S t F es _ _ ih =>
      rcases List.mem_cons.1 hx with rfl | hx
      · exact .inl ⟨p, List.mem_cons_self .., rfl⟩
      · rcases ih hx with ⟨q, hq, hxq⟩ | hxs
        · exact .inl ⟨q, List.mem_cons_of_mem p hq, hxq⟩
        · exact .inr hxs

/-! ## Crossing slices -/

def Slice.span (s : Slice ν τ) : τ × τ := (s.start, s.stop)

/-- `b` starts inside `a` and outlasts it. -/
def Crosses (a b : τ × τ) : Prop := a.1 < b.1 ∧ b.1 < a.2 ∧ a.2 < b.2

instance (a b : τ × τ) : Decidable (Crosses a b) :=
  inferInstanceAs (Decidable (a.1 < b.1 ∧ b.1 < a.2 ∧ a.2 < b.2))

/-- Any two spans are disjoint or nested (or share an end). -/
def NonCrossing (is : List (τ × τ)) : Prop := ∀ a ∈ is, ∀ b ∈ is, ¬ Crosses a b

instance (is : List (τ × τ)) : Decidable (NonCrossing is) :=
  inferInstanceAs (Decidable (∀ a ∈ is, ∀ b ∈ is, ¬ Crosses a b))

theorem NonCrossing.of_subset {is js : List (τ × τ)} (h : NonCrossing js) (hsub : is ⊆ js) :
    NonCrossing is :=
  fun a ha b hb => h a (hsub ha) b (hsub hb)

/-- Brackets nest: what is read back never crosses, whatever was written. -/
theorem Pending.nonCrossing (h : Pending S F es) :
    NonCrossing ((readEdges S es).slices.map Slice.span) := by
  induction h using Pending.rec_edges with
  | nil _ => exact fun a ha => by cases ha
  | opening S F s es _ ih => exact ih
  | closing p S t F es h h' ih =>
      -- later slices end no earlier than `t`, and start either below `p` or from `t` on
      have hlater : ∀ x ∈ (readEdges S es).slices, t ≤ x.stop ∧ (x.start ≤ p.2 ∨ t ≤ x.start) := by
        intro x hx
        refine ⟨h.ts_le_closings (h'.stops ▸ List.mem_map_of_mem hx), ?_⟩
        rcases h'.start_mem hx with ⟨q, hq, hxq⟩ | ⟨s, hs, hxs⟩
        · exact .inl (hxq ▸ (List.pairwise_cons.1 h.descending).1 q hq)
        · exact .inr (hxs ▸ h.ts_le_opened hs)
      intro a ha b hb hcross
      obtain ⟨x, hx, rfl⟩ := List.mem_map.1 ha
      obtain ⟨y, hy, rfl⟩ := List.mem_map.1 hb
      rcases List.mem_cons.1 hx with rfl | hx <;> rcases List.mem_cons.1 hy with rfl | hy
      · exact lt_irrefl _ hcross.1
      · rcases (hlater y hy).2 with hle | hle
        · exact hle.not_gt hcross.1
        · exact hle.not_gt hcross.2.1
      · exact (hlater x hx).1.not_gt hcross.2.2
      · exact ih _ (List.mem_map_of_mem hx) _ (List.mem_map_of_mem hy) hcross

/-- Pushing on top of the stack while booking the stop in order keeps the pairing, when every
    slice that ends before the new one starts with it. -/
theorem zip_orderedInsert {bs : List τ} {b e : τ} (hlen : bs.length = F.length)
    (hsame : ∀ i ∈ bs.zip F, i.2 < e → i.1 = b) :
    ((b :: bs).zip (F.orderedInsert (· ≤ ·) e)).Perm ((b, e) :: bs.zip F) := by
  induction F generalizing bs with
  | nil => simp
  | cons f F ih =>
      obtain ⟨b', bs, rfl⟩ := List.exists_cons_of_length_eq_add_one hlen
      by_cases hef : e ≤ f
      · rw [List.orderedInsert_cons_of_le _ F hef, List.zip_cons_cons]
      · obtain rfl : b' = b := hsame (b', f) (List.mem_cons_self ..) (lt_of_not_ge hef)
        rw [List.orderedInsert_of_not_le _ F hef, List.zip_cons_cons, List.zip_cons_cons]
        have hperm := ih (Nat.succ_injective hlen) (fun i hi => hsame i (List.mem_cons_of_mem _ hi))
        exact (hperm.cons (b', f)).trans (List.Perm.swap ..)

/-- **Non-crossing spans survive the reading**: every slice gets its own stop back, up to the names
    of slices that start together. -/
theorem Pending.spans (h : Pending S F es)
    (hnc : NonCrossing ((S.map Prod.snd).zip F ++ (opened es).map Slice.span)) :
    ((readEdges S es).slices.map Slice.span).Perm
      ((S.map Prod.snd).zip F ++ (opened es).map Slice.span) := by
  induction h using Pending.rec_edges with
  | nil _ => exact .nil
  | opening S F s es h ih =>
      have hpush : ((s.start :: S.map Prod.snd).zip (F.orderedInsert (· ≤ ·) s.stop)).Perm
          (s.span :: (S.map Prod.snd).zip F) := by
        refine zip_orderedInsert (by rw [List.length_map, h.length]) (fun i hi hlt => ?_)
        obtain ⟨hi₁, hi₂⟩ := List.of_mem_zip hi
        obtain ⟨p, hp, hpi⟩ := List.mem_map.1 hi₁
        have hle : i.1 ≤ s.start := hpi ▸ h.open_le p hp s (List.mem_cons_self ..)
        have hstart : s.start < i.2 := h.opening_lt (h.mem_closings_of_owed hi₂)
        -- a strictly earlier start would make `i` and `s` cross
        by_contra hne
        exact hnc i (List.mem_append_left _ hi) s.span
          (List.mem_append_right _ (List.mem_cons_self ..)) ⟨lt_of_le_of_ne hle hne, hstart, hlt⟩
      have hmove := (hpush.append_right ((opened es).map Slice.span)).trans
        (@List.perm_middle _ s.span _ _).symm
      exact (ih (hnc.of_subset hmove.subset)).trans hmove
  | closing p S t F es _ _ ih =>
      exact (ih (hnc.of_subset (List.subset_cons_self ..))).cons (p.2, t)

/-! ## Slices that start together -/

/-- The slices that start at `b`, in order. -/
def startingAt (b : τ) (ss : List (Slice ν τ)) : List (Slice ν τ) := ss.filter (fun s => s.start = b)

/-- What a stack makes of slices that start together: the one written last is closed first. -/
def lastFirst (g : List (Slice ν τ)) : List (ν × τ) :=
  (g.map Slice.name).reverse.zip ((g.map Slice.stop).insertionSort (· ≤ ·))

/-- Among the slices that start together, taking the names last first against the stops in order
    gives the slices (for distinct names: each is written before those it outlasts). -/
def FitsStack (ss : List (Slice ν τ)) : Prop :=
  ∀ s ∈ ss, (lastFirst (startingAt s.start ss)).Perm
    ((startingAt s.start ss).map (fun x => (x.name, x.stop)))

instance [DecidableEq ν] (ss : List (Slice ν τ)) : Decidable (FitsStack ss) :=
  inferInstanceAs (Decidable (∀ s ∈ ss, List.Perm _ _))

/-- Slices a stack can tell apart. -/
def Nested (ss : List (Slice ν τ)) : Prop := NonCrossing (ss.map Slice.span) ∧ FitsStack ss

instance [DecidableEq ν] (ss : List (Slice ν τ)) : Decidable (Nested ss) :=
  inferInstanceAs (Decidable (_ ∧ _))

/-- The names come off the stack in the reverse of the order they were pushed: slices that start
    together are all pushed before any of them is popped. -/
theorem Pending.names (h : Pending S F es) (b : τ) :
    (startingAt b (readEdges S es).slices).map Slice.name =
      ((startingAt b (opened es)).map Slice.name).reverse ++
        (S.filter (fun p => p.2 = b)).map Prod.fst := by
  induction h using Pending.rec_edges with
  | nil _ => rfl
  | opening S F s es h ih =>
      refine ih.trans ?_
      by_cases hb : s.start = b <;> simp [startingAt, hb]
  | closing p S t F es h _ ih =>
      have hread : (readEdges (p :: S) (.closing t :: es)).slices =
        ⟨p.1, p.2, t⟩ :: (readEdges S es).slices := rfl
      by_cases hb : p.2 = b
      · -- the popped slice started before `t`, so nothing that starts with it is still to come
        have hnone : startingAt b (opened es) = [] := by
          refine List.filter_eq_nil_iff.2 (fun s hs => ?_)
          have hlt : p.2 < t := h.open_lt p (List.mem_cons_self ..) t (List.mem_cons_self ..)
          have hle := h.ts_le_opened hs
          simpa [hb] using (hb ▸ hlt.trans_le hle).ne'
        rw [hnone] at ih
        have hopen : startingAt b (opened (.closing t :: es)) = [] := hnone
        rw [hread, hopen]
        simpa [startingAt, hb] using ih
      · rw [hread]
        simpa [startingAt, hb] using ih

/-! ## Reading back a list of slices -/

variable {ss : List (Slice ν τ)}

theorem opened_sortedEdges_perm : (opened (sortedEdges ss)).Perm ss := by
  have h := (List.perm_insertionSort Edge.le (ss.flatMap Slice.edges)).filterMap Edge.opens?
  exact h.trans (List.Perm.of_eq opened_flatMap_edges)

theorem closings_sortedEdges_perm : (closings (sortedEdges ss)).Perm (ss.map Slice.stop) := by
  have h := (List.perm_insertionSort Edge.le (ss.flatMap Slice.edges)).filterMap Edge.closes?
  exact h.trans (List.Perm.of_eq closings_flatMap_edges)

theorem startingAt_opened (b : τ) (es : List (Edge ν τ)) :
    startingAt b (opened es) = opened (es.filter (fun e => e.begins && decide (e.ts = b))) := by
  induction es with
  | nil => rfl
  | cons e es ih =>
      cases e with
      | opening s =>
          by_cases hb : s.start = b
          · simpa [startingAt, Edge.begins, Edge.ts, hb] using ih
          · simpa [startingAt, Edge.begins, Edge.ts, hb] using ih
      | closing t => simpa [Edge.begins] using ih

/-- The sort is stable: slices that start together are opened in the order written. -/
theorem startingAt_sortedEdges (b : τ) :
    startingAt b (opened (sortedEdges ss)) = startingAt b ss := by
  have hties : ((ss.flatMap Slice.edges).filter
      (fun e => e.begins && decide (e.ts = b))).Pairwise Edge.le := by
    refine List.pairwise_of_forall_mem_list (fun a ha c hc => ?_)
    simp only [List.mem_filter, Bool.and_eq_true, decide_eq_true_eq] at ha hc
    exact Edge.le_iff.2 (.inr ⟨ha.2.2.trans hc.2.2.symm, fun _ => hc.2.1⟩)
  rw [startingAt_opened, sortedEdges, filter_insertionSort, hties.insertionSort_eq,
    ← startingAt_opened, opened_flatMap_edges]

theorem pending_sortedEdges (hpos : ∀ s ∈ ss, s.start < s.stop) : Pending [] [] (sortedEdges ss) where
  sorted := List.pairwise_insertionSort Edge.le _
  length := rfl
  ascending := .nil
  owed := closings_sortedEdges_perm.trans (opened_sortedEdges_perm.map Slice.stop).symm
  positive := fun s hs => hpos s (opened_sortedEdges_perm.mem_iff.1 hs)
  open_lt := fun _ hp => by cases hp
  open_le := fun _ hp => by cases hp
  descending := .nil

/-- **The marks are balanced**: every opening is closed, and no closing meets an empty stack. -/
theorem reading_balanced (hpos : ∀ s ∈ ss, s.start < s.stop) :
    (reading ss).unclosed = [] ∧ (reading ss).orphans = 0 :=
  (pending_sortedEdges hpos).balanced

/-- The stops read back are those written, if not always on the right slices. -/
theorem stops_reading_perm (hpos : ∀ s ∈ ss, s.start < s.stop) :
    ((reading ss).slices.map Slice.stop).Perm (ss.map Slice.stop) := by
  rw [show (reading ss).slices.map Slice.stop = _ from (pending_sortedEdges hpos).stops]
  exact closings_sortedEdges_perm

/-- Lists agree up to order when their slices do at every start. -/
theorem perm_of_startingAt {rs : List (Slice ν τ)}
    (h : ∀ b, (startingAt b rs).Perm (startingAt b ss)) : rs.Perm ss := by
  classical
  refine List.perm_iff_count.2 (fun a => ?_)
  have hcount := List.perm_iff_count.1 (h a.start) a
  rwa [startingAt, startingAt, List.count_filter (by simp), List.count_filter (by simp)] at hcount

/-- Slices that start together are determined by names and stops. -/
theorem startingAt_perm_iff {rs : List (Slice ν τ)} {b : τ} :
    (startingAt b rs).Perm (startingAt b ss) ↔
      ((startingAt b rs).map (fun s => (s.name, s.stop))).Perm
        ((startingAt b ss).map (fun s => (s.name, s.stop))) := by
  refine ⟨fun h => h.map _, fun h => ?_⟩
  have hback : ∀ l : List (Slice ν τ), ((startingAt b l).map (fun s => (s.name, s.stop))).map
      (fun p => (⟨p.1, b, p.2⟩ : Slice ν τ)) = startingAt b l := by
    intro l
    rw [List.map_map]
    refine (List.map_congr_left (fun s hs => ?_)).trans (List.map_id _)
    have hb : s.start = b := by simpa using (List.mem_filter.1 hs).2
    simp [← hb]
  rw [← hback rs, ← hback ss]
  exact h.map _

theorem stops_startingAt (b : τ) (rs : List (Slice ν τ)) :
    (startingAt b rs).map Slice.stop =
      ((rs.map Slice.span).filter (fun i => i.1 = b)).map Prod.snd := by
  rw [List.filter_map, List.map_map]
  rfl

/-- What is read back of the slices that start at `b`, once it is known where they stop. -/
theorem startingAt_reading (hpos : ∀ s ∈ ss, s.start < s.stop) {b : τ}
    (hstops : ((startingAt b (reading ss).slices).map Slice.stop).Perm
      ((startingAt b ss).map Slice.stop)) :
    (startingAt b (reading ss).slices).map (fun s => (s.name, s.stop)) =
      lastFirst (startingAt b ss) := by
  have hp := pending_sortedEdges hpos
  have hnames : (startingAt b (reading ss).slices).map Slice.name =
      ((startingAt b ss).map Slice.name).reverse := by
    have h := hp.names b
    rw [startingAt_sortedEdges] at h
    simpa [reading] using h
  have hascending : ((startingAt b (reading ss).slices).map Slice.stop).Pairwise (· ≤ ·) := by
    have hclosings : ((reading ss).slices.map Slice.stop).Pairwise (· ≤ ·) := by
      rw [show (reading ss).slices.map Slice.stop = _ from hp.stops, closings]
      refine hp.sorted.filterMap Edge.closes? ?_
      rintro (s | t) (s' | t') hle x hx y hy
      all_goals simp only [Edge.closes?, Option.some.injEq, reduceCtorEq] at hx hy
      subst hx hy
      exact Edge.ts_le_of_le hle
    exact hclosings.sublist (List.filter_sublist.map Slice.stop)
  have hsort : (startingAt b (reading ss).slices).map Slice.stop =
      ((startingAt b ss).map Slice.stop).insertionSort (· ≤ ·) :=
    (hstops.trans (List.perm_insertionSort (· ≤ ·) _).symm).eq_of_pairwise'
      hascending (List.pairwise_insertionSort (· ≤ ·) _)
  rw [lastFirst, ← hnames, ← hsort, List.zip_map']

/-- **When the slices come back**: exactly when no two cross and those that start together are
    written in an order that fits the stack. -/
theorem reading_perm_iff (hpos : ∀ s ∈ ss, s.start < s.stop) :
    (reading ss).slices.Perm ss ↔ Nested ss := by
  have hp := pending_sortedEdges hpos
  constructor
  · intro hperm
    refine ⟨hp.nonCrossing.of_subset (hperm.map Slice.span).symm.subset, fun s _ => ?_⟩
    have hgroup : (startingAt s.start (reading ss).slices).Perm (startingAt s.start ss) :=
      hperm.filter _
    rw [← startingAt_reading hpos (hgroup.map Slice.stop)]
    exact hgroup.map _
  · rintro ⟨hnc, hfits⟩
    have hspans : ((reading ss).slices.map Slice.span).Perm (ss.map Slice.span) := by
      have hopened := (@opened_sortedEdges_perm _ _ _ ss).map Slice.span
      exact (hp.spans (hnc.of_subset hopened.subset)).trans hopened
    refine perm_of_startingAt (fun b => ?_)
    have hstops : ((startingAt b (reading ss).slices).map Slice.stop).Perm
        ((startingAt b ss).map Slice.stop) := by
      have h := (hspans.filter (fun i => i.1 = b)).map Prod.snd
      rwa [← stops_startingAt, ← stops_startingAt] at h
    rw [startingAt_perm_iff, startingAt_reading hpos hstops]
    by_cases hb : startingAt b ss = []
    · rw [hb]
      exact .nil
    · obtain ⟨s, hs⟩ := List.exists_mem_of_ne_nil _ hb
      obtain ⟨hmem, hstart⟩ := List.mem_filter.1 hs
      obtain rfl : s.start = b := by simpa using hstart
      exact hfits s hmem

end SliceStack
