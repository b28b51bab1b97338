import Mathlib.Data.List.Basic
import Mathlib.Order.Defs.PartialOrder

set_option autoImplicit false

/-! # A numbered queue with an express lane

Items are numbered in the order they arrive and stamped with the time of their arrival (`submit`). Most
wait and are released from the front, stamped again with the time of their release (`complete`). An item
that is already due when it arrives, because its number is below the `line` of the moment, passes at
once, in front of the items that still wait.

Within one round (one time `now`, one `line`) the two lanes may overtake each other; all they complete
is stamped `now`. If a round ends with no item below the line waiting, the stamps of the items that were
completed follow their numbers (`Settled.ordered`), in whatever order they were completed. -/

namespace Fifo

variable {τ : Type} [Preorder τ]

structure Waiting (τ : Type) where
  id : Nat
  submit : τ

structure Done (τ : Type) where
  id : Nat
  submit : τ
  complete : τ

structure Queue (τ : Type) where
  waiting : List (Waiting τ)
  done : List (Done τ)
  /-- The next number. -/
  next : Nat

/-- A waiting item, completed at `now`. -/
def Waiting.completeAt (w : Waiting τ) (now : τ) : Done τ := ⟨w.id, w.submit, now⟩

/-- What happens within a round. -/
inductive Move (now : τ) (line : Nat) : Queue τ → Queue τ → Prop
  | skip {s : Queue τ} {next : Nat} (le : s.next ≤ next) : Move now line s { s with next := next }
  | wait {s : Queue τ} :
      Move now line s { s with waiting := s.waiting ++ [⟨s.next, now⟩], next := s.next + 1 }
  | pass {s : Queue τ} (due : s.next < line) :
      Move now line s { s with done := s.done ++ [⟨s.next, now, now⟩], next := s.next + 1 }
  | release {s : Queue τ} {front rest : List (Waiting τ)} (split : s.waiting = front ++ rest) :
      Move now line s
        { s with waiting := rest, done := s.done ++ front.map (fun w => w.completeAt now) }

/-- What holds at every moment up to `now`. -/
structure Stamped (now : τ) (s : Queue τ) : Prop where
  waiting_sorted : s.waiting.Pairwise (fun v w => v.id < w.id ∧ v.submit ≤ w.submit)
  waiting_past : ∀ w ∈ s.waiting, w.id < s.next ∧ w.submit ≤ now
  done_past : ∀ d ∈ s.done, d.id < s.next ∧ d.submit ≤ d.complete ∧ d.complete ≤ now
  done_ordered : ∀ d ∈ s.done, ∀ e ∈ s.done, d.id < e.id →
    d.submit ≤ e.submit ∧ d.complete ≤ e.complete

/-- The order within a round: what was completed is older than what waits, unless it passed in this
    round. -/
structure During (now : τ) (line : Nat) (s : Queue τ) : Prop extends Stamped now s where
  lanes : ∀ d ∈ s.done, ∀ w ∈ s.waiting, (d.id < w.id ∧ d.submit ≤ w.submit) ∨
    (w.id < d.id ∧ d.id < line ∧ w.submit ≤ d.submit ∧ now ≤ d.complete)

/-- The order between rounds. -/
structure Settled (now : τ) (s : Queue τ) : Prop extends Stamped now s where
  older : ∀ d ∈ s.done, ∀ w ∈ s.waiting, d.id < w.id ∧ d.submit ≤ w.submit

theorem Stamped.mono {now later : τ} {s : Queue τ} (hle : now ≤ later) (h : Stamped now s) :
    Stamped later s where
  waiting_sorted := h.waiting_sorted
  waiting_past := fun w hw => ⟨(h.waiting_past w hw).1, le_trans (h.waiting_past w hw).2 hle⟩
  done_past := fun d hd =>
    ⟨(h.done_past d hd).1, (h.done_past d hd).2.1, le_trans (h.done_past d hd).2.2 hle⟩
  done_ordered := h.done_ordered

theorem Settled.mono {now later : τ} {s : Queue τ} (hle : now ≤ later) (h : Settled now s) :
    Settled later s where
  toStamped := h.toStamped.mono hle
  older := h.older

/-- A round starts in a settled queue. -/
theorem Settled.during {now : τ} {s : Queue τ} (h : Settled now s) (line : Nat) :
    During now line s where
  toStamped := h.toStamped
  lanes := fun d hd w hw => Or.inl (h.older d hd w hw)

/-- A round that leaves nothing below the line waiting ends in a settled queue. -/
theorem During.settled {now : τ} {line : Nat} {s : Queue τ} (h : During now line s)
    (hline : ∀ w ∈ s.waiting, line ≤ w.id) : Settled now s where
  toStamped := h.toStamped
  older := by
    intro d hd w hw
    rcases h.lanes d hd w hw with hold | ⟨hafter, hbelow, -, -⟩
    · exact hold
    · exact absurd (hline w hw) (by omega)

/-- **Every move keeps the order of a round.** -/
theorem During.move {now : τ} {line : Nat} {s t : Queue τ} (h : During now line s)
    (hmove : Move now line s t) : During now line t := by
  cases hmove with
  | skip le =>
      refine ⟨⟨h.waiting_sorted, fun w hw => ?_, fun d hd => ?_, h.done_ordered⟩, h.lanes⟩
      · exact ⟨Nat.lt_of_lt_of_le (h.waiting_past w hw).1 le, (h.waiting_past w hw).2⟩
      · exact ⟨Nat.lt_of_lt_of_le (h.done_past d hd).1 le, (h.done_past d hd).2⟩
  | wait =>
      refine ⟨⟨?_, ?_, ?_, h.done_ordered⟩, ?_⟩
      · refine List.pairwise_append.2 ⟨h.waiting_sorted, by simp, fun v hv w hw => ?_⟩
        obtain rfl := List.mem_singleton.1 hw
        exact h.waiting_past v hv
      · intro w hw
        rcases List.mem_append.1 hw with hw | hw
        · exact ⟨Nat.lt_succ_of_lt (h.waiting_past w hw).1, (h.waiting_past w hw).2⟩
        · obtain rfl := List.mem_singleton.1 hw
          exact ⟨Nat.lt_succ_self _, le_refl _⟩
      · exact fun d hd => ⟨Nat.lt_succ_of_lt (h.done_past d hd).1, (h.done_past d hd).2⟩
      · intro d hd w hw
        rcases List.mem_append.1 hw with hw | hw
        · exact h.lanes d hd w hw
        · -- The newest item is younger than everything completed so far.
          obtain rfl := List.mem_singleton.1 hw
          have hpast := h.done_past d hd
          exact Or.inl ⟨hpast.1, le_trans hpast.2.1 hpast.2.2⟩
  | pass due =>
      refine ⟨⟨h.waiting_sorted, ?_, ?_, ?_⟩, ?_⟩
      · exact fun w hw => ⟨Nat.lt_succ_of_lt (h.waiting_past w hw).1, (h.waiting_past w hw).2⟩
      · intro d hd
        rcases List.mem_append.1 hd with hd | hd
        · exact ⟨Nat.lt_succ_of_lt (h.done_past d hd).1, (h.done_past d hd).2⟩
        · obtain rfl := List.mem_singleton.1 hd
          exact ⟨Nat.lt_succ_self _, le_refl _, le_refl _⟩
      · intro d hd e he hlt
        rcases List.mem_append.1 hd with hd | hd
        · have hpast := h.done_past d hd
          rcases List.mem_append.1 he with he | he
          · exact h.done_ordered d hd e he hlt
          · obtain rfl := List.mem_singleton.1 he
            exact ⟨le_trans hpast.2.1 hpast.2.2, hpast.2.2⟩
        · obtain rfl := List.mem_singleton.1 hd
          rcases List.mem_append.1 he with he | he
          · have hpast := (h.done_past e he).1
            simp only at hlt
            omega
          · obtain rfl := List.mem_singleton.1 he
            exact absurd hlt (Nat.lt_irrefl _)
      · intro d hd w hw
        rcases List.mem_append.1 hd with hd | hd
        · exact h.lanes d hd w hw
        · obtain rfl := List.mem_singleton.1 hd
          have hpast := h.waiting_past w hw
          exact Or.inr ⟨hpast.1, due, hpast.2, le_refl _⟩
  | @release front rest split =>
      have hsorted := h.waiting_sorted
      rw [split] at hsorted
      obtain ⟨hfront, hrest, hcross⟩ := List.pairwise_append.1 hsorted
      have hmemFront : ∀ w ∈ front, w ∈ s.waiting := fun w hw => by simp [split, hw]
      have hmemRest : ∀ w ∈ rest, w ∈ s.waiting := fun w hw => by simp [split, hw]
      refine ⟨⟨hrest, fun w hw => h.waiting_past w (hmemRest w hw), ?_, ?_⟩, ?_⟩
      · intro d hd
        rcases List.mem_append.1 hd with hd | hd
        · exact h.done_past d hd
        · obtain ⟨w, hw, rfl⟩ := List.mem_map.1 hd
          have hpast := h.waiting_past w (hmemFront w hw)
          exact ⟨hpast.1, hpast.2, le_refl _⟩
      · intro d hd e he hlt
        rcases List.mem_append.1 hd with hd | hd
        · rcases List.mem_append.1 he with he | he
          · exact h.done_ordered d hd e he hlt
          · obtain ⟨w, hw, rfl⟩ := List.mem_map.1 he
            rcases h.lanes d hd w (hmemFront w hw) with ⟨-, hsubmit⟩ | ⟨hafter, -⟩
            · exact ⟨hsubmit, (h.done_past d hd).2.2⟩
            · exact absurd hlt (Nat.lt_asymm hafter)
        · obtain ⟨v, hv, rfl⟩ := List.mem_map.1 hd
          rcases List.mem_append.1 he with he | he
          · -- A younger item was completed first: it passed in this round.
            rcases h.lanes e he v (hmemFront v hv) with ⟨hbefore, -⟩ | ⟨-, -, hsubmit, hcomplete⟩
            · exact absurd hlt (Nat.lt_asymm hbefore)
            · exact ⟨hsubmit, hcomplete⟩
          · obtain ⟨w, hw, rfl⟩ := List.mem_map.1 he
            have hlt' : v.id < w.id := hlt
            refine ⟨?_, le_refl _⟩
            -- The waiting items are sorted by number and by time at once.
            have hpair := List.pairwise_iff_getElem.1 hfront
            obtain ⟨i, hi, rfl⟩ := List.getElem_of_mem hv
            obtain ⟨j, hj, rfl⟩ := List.getElem_of_mem hw
            rcases Nat.lt_trichotomy i j with hij | hij | hij
            · exact (hpair i j hi hj hij).2
            · subst hij
              exact le_refl _
            · exact absurd (hpair j i hj hi hij).1 (Nat.lt_asymm hlt')
      · intro d hd w hw
        rcases List.mem_append.1 hd with hd | hd
        · exact h.lanes d hd w (hmemRest w hw)
        · obtain ⟨v, hv, rfl⟩ := List.mem_map.1 hd
          exact Or.inl (hcross v hv w hw)

/-- **The stamps of completed items follow their numbers.** -/
theorem Settled.ordered {now : τ} {s : Queue τ} (h : Settled now s) :
    (∀ d ∈ s.done, d.submit ≤ d.complete) ∧
      ∀ d ∈ s.done, ∀ e ∈ s.done, d.id < e.id → d.submit ≤ e.submit ∧ d.complete ≤ e.complete :=
  ⟨fun d hd => (h.done_past d hd).2.1, h.done_ordered⟩

theorem settled_empty (now : τ) (next : Nat) : Settled now ⟨[], [], next⟩ :=
  ⟨⟨List.Pairwise.nil, by simp, by simp, by simp⟩, by simp⟩

end Fifo
