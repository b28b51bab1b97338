import Mathlib.Data.List.Induction

set_option autoImplicit false

/-! # Runs of a machine that leaves a trace

A *machine* is a step function `σ → ι → σ × List ε`: it reads one input and returns its next state
with the events the step performed, in order. `Trace.run` feeds it a list of inputs and concatenates
the events. Everything proved about a run goes through the rules at the end of the section: an
invariant of `(state, trace so far)` that one step preserves holds after every run (`run_invariant`),
also when steps are only taken under a condition on the state they start from
(`run_invariant_along`); and a condition that tells good steps from others tells good runs from others
(`forall_run_iff_along`). A move that lowers a rank brings it to 0 (`run_replicate_rank`), and `Since` is
what was performed since a certain event.

Inside one step, a loop is described by the relation `Steps R`: finitely many moves of `R`, each
performing some events. A property that every move preserves is preserved by the whole loop
(`Steps.invariant`). -/

namespace Trace

universe u v w

variable {σ : Type u} {ι : Type v} {ε : Type w}

/-! ## Runs over a list of inputs -/

/-- Feed the inputs to the machine one by one, concatenating the events. -/
def run (step : σ → ι → σ × List ε) : σ → List ι → σ × List ε
  | s, [] => (s, [])
  | s, i :: is => ((run step (step s i).1 is).1, (step s i).2 ++ (run step (step s i).1 is).2)

variable {step : σ → ι → σ × List ε}

@[simp] theorem run_nil (s : σ) : run step s [] = (s, []) := rfl

theorem run_append (s : σ) (is js : List ι) :
    run step s (is ++ js) =
      ((run step (run step s is).1 js).1,
        (run step s is).2 ++ (run step (run step s is).1 js).2) := by
  induction is generalizing s with
  | nil => simp
  | cons i is ih => simp only [List.cons_append, run, ih, List.append_assoc]

/-- A run extended by one input takes one more step from the state it had reached. -/
theorem run_snoc (s : σ) (is : List ι) (i : ι) :
    run step s (is ++ [i]) =
      ((step (run step s is).1 i).1, (run step s is).2 ++ (step (run step s is).1 i).2) := by
  simp [run_append, run]

/-- Every step of the run is taken from a state and on an input that satisfy `C`. -/
def Along (step : σ → ι → σ × List ε) (C : σ → ι → Prop) (s : σ) (is : List ι) : Prop :=
  ∀ pre i post, is = pre ++ i :: post → C (run step s pre).1 i

theorem Along.init {C : σ → ι → Prop} {s : σ} {is : List ι} {i : ι}
    (h : Along step C s (is ++ [i])) : Along step C s is := by
  intro pre j post hsplit
  exact h pre j (post ++ [i]) (by rw [hsplit]; simp)

theorem Along.last {C : σ → ι → Prop} {s : σ} {is : List ι} {i : ι}
    (h : Along step C s (is ++ [i])) : C (run step s is).1 i :=
  h is i [] rfl

/-- A condition that does not look at the state is one on the inputs. -/
theorem Along.of_forall_mem {D : ι → Prop} {s : σ} {is : List ι} (h : ∀ i ∈ is, D i) :
    Along step (fun _ i => D i) s is := by
  intro pre i post hsplit
  exact h i (by simp [hsplit])

theorem along_nil {C : σ → ι → Prop} {s : σ} : Along step C s [] := by
  intro pre i post hsplit
  cases pre <;> cases hsplit

theorem along_cons {C : σ → ι → Prop} {s : σ} {i : ι} {is : List ι} :
    Along step C s (i :: is) ↔ C s i ∧ Along step C (step s i).1 is := by
  constructor
  · intro h
    refine ⟨h [] i is rfl, fun pre j post hsplit => ?_⟩
    simpa [run] using h (i :: pre) j post (by simp [hsplit])
  · rintro ⟨hi, his⟩ pre j post hsplit
    cases pre with
    | nil =>
        obtain ⟨rfl, rfl⟩ := List.cons.inj hsplit
        simpa using hi
    | cons k pre =>
        obtain ⟨rfl, htail⟩ := List.cons.inj hsplit
        simpa [run] using his pre j post htail

/-- **Invariant rule, with a condition on each step.** -/
theorem run_invariant_along {C : σ → ι → Prop} (P : σ → List ε → Prop) {s : σ}
    (init : P s [])
    (preserve : ∀ t es i, P t es → C t i → P (step t i).1 (es ++ (step t i).2))
    {is : List ι} (along : Along step C s is) : P (run step s is).1 (run step s is).2 := by
  induction is using List.reverseRecOn with
  | nil => exact init
  | append_singleton is i ih =>
      rw [run_snoc]
      exact preserve _ _ _ (ih along.init) along.last

/-- **Invariant rule.** -/
theorem run_invariant (P : σ → List ε → Prop) {s : σ} (init : P s [])
    (preserve : ∀ t es i, P t es → P (step t i).1 (es ++ (step t i).2)) (is : List ι) :
    P (run step s is).1 (run step s is).2 :=
  run_invariant_along (C := fun _ _ => True) P init (fun t es i h _ => preserve t es i h)
    (fun _ _ _ _ => trivial)

/-- The invariant rule for a property of the state alone. -/
theorem run_invariant_state {C : σ → ι → Prop} (P : σ → Prop) {s : σ} (init : P s)
    (preserve : ∀ t i, P t → C t i → P (step t i).1) {is : List ι} (along : Along step C s is) :
    P (run step s is).1 :=
  run_invariant_along (fun t _ => P t) init (fun t _ i => preserve t i) along

/-- **Conditions and events.** If in the states of an invariant a step performs only good events exactly
    when it is taken under `C`, a run performs only good events exactly when all its steps are. -/
theorem forall_run_iff_along {C : σ → ι → Prop} {G : ε → Prop} (P : σ → Prop)
    (preserve : ∀ t i, P t → P (step t i).1)
    (good : ∀ t i, P t → ((∀ e ∈ (step t i).2, G e) ↔ C t i)) {s : σ} (init : P s) (is : List ι) :
    (∀ e ∈ (run step s is).2, G e) ↔ Along step C s is := by
  induction is generalizing s with
  | nil =>
      refine ⟨fun _ pre i post hsplit => ?_, fun _ e he => absurd he List.not_mem_nil⟩
      cases pre <;> cases hsplit
  | cons i is ih =>
      rw [run, List.forall_mem_append, along_cons, good s i init, ih (preserve s i init)]

/-- **Rank rule.** If a move lowers the rank, repeating it often enough brings it to 0. -/
theorem run_replicate_rank {i : ι} (P : Nat → σ → Prop) (lower : ∀ n s, P (n + 1) s → P n (step s i).1)
    (stay : ∀ s, P 0 s → P 0 (step s i).1) {n k : Nat} {s : σ} (hs : P n s) (hk : n ≤ k) :
    P 0 (run step s (List.replicate k i)).1 := by
  induction k generalizing n s with
  | zero =>
      obtain rfl : n = 0 := Nat.le_zero.1 hk
      exact hs
  | succ k ih =>
      rw [List.replicate_succ, run]
      cases n with
      | zero => exact ih (stay s hs) (Nat.zero_le k)
      | succ n => exact ih (lower n s hs) (Nat.le_of_succ_le_succ hk)

/-! ## Looking back -/

/-- What was performed since a mark, if nothing of it is a reset. -/
def Since (mark reset : ε → Prop) (es mid : List ε) : Prop :=
  ∃ pre e, es = pre ++ e :: mid ∧ mark e ∧ ∀ d ∈ mid, ¬ reset d

variable {mark reset : ε → Prop}

theorem not_since_nil {mid : List ε} : ¬ Since mark reset [] mid := by
  rintro ⟨pre, e, hsplit, -⟩
  cases pre <;> cases hsplit

theorem since_singleton {d : ε} {mid : List ε} : Since mark reset [d] mid ↔ mark d ∧ mid = [] := by
  constructor
  · rintro ⟨pre, e, hsplit, hmark, -⟩
    cases pre with
    | nil =>
        cases hsplit
        exact ⟨hmark, rfl⟩
    | cons e' pre =>
        have hnil := (List.cons.inj hsplit).2
        cases pre <;> cases hnil
  · rintro ⟨hmark, rfl⟩
    exact ⟨[], d, rfl, hmark, nofun⟩

/-- The mark is among the later events or before them. -/
theorem since_append {es ds mid : List ε} :
    Since mark reset (es ++ ds) mid ↔
      Since mark reset ds mid ∨ ∃ mid', mid = mid' ++ ds ∧ Since mark reset es mid' ∧ ∀ d ∈ ds, ¬ reset d := by
  constructor
  · rintro ⟨pre, e, hsplit, hmark, hreset⟩
    rcases List.append_eq_append_iff.1 hsplit with ⟨later, rfl, hds⟩ | ⟨front, rfl, hrest⟩
    · exact .inl ⟨later, e, hds, hmark, hreset⟩
    · cases front with
      | nil => exact .inl ⟨[], e, hrest.symm, hmark, hreset⟩
      | cons e' mid' =>
          obtain ⟨rfl, rfl⟩ := List.cons.inj hrest
          exact .inr ⟨mid', rfl, ⟨pre, e, rfl, hmark, fun d hd => hreset d (List.mem_append_left _ hd)⟩,
            fun d hd => hreset d (List.mem_append_right _ hd)⟩
  · rintro (⟨pre, e, rfl, hmark, hreset⟩ | ⟨mid', rfl, ⟨pre, e, rfl, hmark, hreset⟩, hds⟩)
    · exact ⟨es ++ pre, e, by rw [List.append_assoc], hmark, hreset⟩
    · refine ⟨pre, e, by rw [List.append_assoc, List.cons_append], hmark, fun d hd => ?_⟩
      rcases List.mem_append.1 hd with hd | hd
      · exact hreset d hd
      · exact hds d hd

/-- No mark is among the later events. -/
theorem Since.of_append {es ds mid : List ε} (h : Since mark reset (es ++ ds) mid)
    (hds : ∀ d ∈ ds, ¬ mark d) : ∃ mid', mid = mid' ++ ds ∧ Since mark reset es mid' := by
  rcases since_append.1 h with ⟨pre, e, rfl, hmark, -⟩ | ⟨mid', hmid, hes, -⟩
  · exact absurd hmark (hds e (List.mem_append_right _ List.mem_cons_self))
  · exact ⟨mid', hmid, hes⟩

theorem Since.append {es ds mid : List ε} (h : Since mark reset es mid) (hds : ∀ d ∈ ds, ¬ reset d) :
    Since mark reset (es ++ ds) (mid ++ ds) :=
  since_append.2 (.inr ⟨mid, rfl, h, hds⟩)

/-! ## Finitely many moves of a relation -/

/-- Finitely many moves of `R`, with the events they perform in order. -/
inductive Steps (R : σ → List ε → σ → Prop) : σ → List ε → σ → Prop
  | refl (s : σ) : Steps R s [] s
  | head {s t u : σ} {es fs : List ε} : R s es t → Steps R t fs u → Steps R s (es ++ fs) u

variable {R : σ → List ε → σ → Prop}

theorem Steps.single {s t : σ} {es : List ε} (h : R s es t) : Steps R s es t := by
  simpa using Steps.head h (Steps.refl t)

theorem Steps.trans {s t u : σ} {es fs : List ε} (h : Steps R s es t) (h' : Steps R t fs u) :
    Steps R s (es ++ fs) u := by
  induction h with
  | refl s => exact h'
  | head hmove _ ih => rw [List.append_assoc]; exact Steps.head hmove (ih h')

/-- A property of `(state, trace so far)` that every move preserves is preserved by the loop. -/
theorem Steps.invariant (P : σ → List ε → Prop)
    (preserve : ∀ s es t fs, P s fs → R s es t → P t (fs ++ es))
    {s t : σ} {es fs : List ε} (h : Steps R s es t) (hs : P s fs) : P t (fs ++ es) := by
  induction h generalizing fs with
  | refl s => simpa using hs
  | head hmove _ ih =>
      rw [← List.append_assoc]
      exact ih (preserve _ _ _ _ hs hmove)

theorem Steps.invariant_state (P : σ → Prop) (preserve : ∀ s es t, P s → R s es t → P t)
    {s t : σ} {es : List ε} (h : Steps R s es t) (hs : P s) : P t := by
  induction h with
  | refl s => exact hs
  | head hmove _ ih => exact ih (preserve _ _ _ hs hmove)

end Trace
