import Mathlib.Data.List.Perm.Basic
import HsaSnoop.Parser.PollQueue
import HsaSnoop.Parser.PollSdmaQueue

set_option autoImplicit false

/-! # The parser thread

`RingParser` keeps a list of queues. Queues are added at any time; an iteration of `Run` visits the
queues of its snapshot in order, evicts those whose process is gone or whose pointers could not be
read for long, and destroys the evicted ones. `Stop` ends the loop behind an iteration and destroys
what is left. A queue added during an iteration is not in its snapshot, so additions happen between
iterations.

A run of the parser is, for each queue, a run of that queue alone: `run_queue_invariant` carries an
invariant of single visits to every queue of every run. -/

namespace HsaSnoop

/-- A queue the parser tracks. The handle stands for the identity of its `QueueState`. -/
structure Tracked where
  handle : Nat
  state : QueueState

/-- `RingParser`. The lists `retired` and `added` only keep account of what was destroyed and of the
    handles that were given out. -/
structure RingParser where
  queues : List Tracked := []
  /-- The queue states that were destroyed after their eviction. -/
  retired : List Tracked := []
  added : Nat := 0

/-- `RingParser::AddQueue`: SDMA queues of an unsupported version are ignored. -/
def RingParser.addQueue (p : RingParser) (q : QueueInfo) : RingParser :=
  if q.isSdma && !Sdma.isSupportedVersion q.sdmaVersion then p
  else
    { p with
      queues := p.queues ++ [⟨p.added, QueueState.new q⟩]
      added := p.added + 1 }

/-- `AddQueue` takes this queue. -/
def Accepted (q : QueueInfo) : Prop := (q.isSdma && !Sdma.isSupportedVersion q.sdmaVersion) = false

theorem RingParser.addQueue_of_accepted {q : QueueInfo} (h : Accepted q) (p : RingParser) :
    p.addQueue q =
      { p with queues := p.queues ++ [⟨p.added, QueueState.new q⟩], added := p.added + 1 } :=
  if_neg (Bool.eq_false_iff.1 h)

theorem RingParser.addQueue_of_not_accepted {q : QueueInfo} (h : ¬ Accepted q) (p : RingParser) :
    p.addQueue q = p :=
  if_pos (eq_true_of_ne_false h)

/-- What one iteration does with a queue of its snapshot. -/
def visit (alive : Bool) (o : PollObs) (qs : QueueState) : QueueState × List Event :=
  if qs.evict then (qs, [])
  else if !alive then ({ qs with evict := true }, [])
  else if qs.info.isSdma then pollSdmaQueue qs o
  else pollQueue qs o

/-- What the parser thread reacts to. An iteration sees, for each queue, whether its process is alive
    and what its poll observes. -/
inductive ParserInput
  | addQueue (q : QueueInfo)
  | iterate (alive : Nat → Bool) (obs : Nat → PollObs)

/-- One addition, or one iteration of `RingParser::Run`. Events carry the handle of their queue. -/
def RingParser.step (p : RingParser) : ParserInput → RingParser × List (Nat × Event)
  | .addQueue q => (p.addQueue q, [])
  | .iterate alive obs =>
      let visited (t : Tracked) := visit (alive t.handle) (obs t.handle) t.state
      let after := p.queues.map (fun t => { t with state := (visited t).1 })
      ({ p with
          queues := after.filter (fun t => !t.state.evict)
          retired := p.retired ++ after.filter (fun t => t.state.evict) },
        p.queues.flatMap (fun t => (visited t).2.map (fun e => (t.handle, e))))

/-- The queue states that are destroyed when the parser stops, by eviction or by `Stop`. -/
def RingParser.destroyed (p : RingParser) : List Tracked := p.retired ++ p.queues

/-! ## The events of one queue -/

/-- The events of the queue with handle `h`, in order. -/
def eventsOf (h : Nat) (es : List (Nat × Event)) : List Event :=
  es.filterMap (fun x => if x.1 = h then some x.2 else none)

@[simp] theorem eventsOf_nil (h : Nat) : eventsOf h [] = [] := rfl

@[simp] theorem eventsOf_append (h : Nat) (es fs : List (Nat × Event)) :
    eventsOf h (es ++ fs) = eventsOf h es ++ eventsOf h fs := List.filterMap_append

theorem eventsOf_tagged (h k : Nat) (es : List Event) :
    eventsOf h (es.map (fun e => (k, e))) = if k = h then es else [] := by
  induction es with
  | nil => simp
  | cons e es ih =>
      simp only [eventsOf, List.map_cons, List.filterMap_cons] at ih ⊢
      split_ifs at ih ⊢ with heq
      · simp [ih]
      · simpa using ih

theorem eventsOf_eq_nil {h : Nat} {es : List (Nat × Event)} (hno : ∀ x ∈ es, x.1 ≠ h) :
    eventsOf h es = [] := by
  rw [eventsOf, List.filterMap_eq_nil_iff]
  intro x hx
  rw [if_neg (hno x hx)]

/-- Handles are distinct, so an iteration's events of a queue are those of its own visit. -/
theorem eventsOf_flatMap {queues : List Tracked} (hnd : (queues.map Tracked.handle).Nodup)
    (f : Tracked → List Event) {t : Tracked} (ht : t ∈ queues) :
    eventsOf t.handle (queues.flatMap (fun u => (f u).map (fun e => (u.handle, e)))) = f t := by
  induction queues with
  | nil => simp at ht
  | cons u rest ih =>
      rw [List.map_cons, List.nodup_cons] at hnd
      rw [List.flatMap_cons, eventsOf_append, eventsOf_tagged]
      rcases List.mem_cons.1 ht with rfl | ht
      · have hrest : eventsOf t.handle
            (rest.flatMap (fun u => (f u).map (fun e => (u.handle, e)))) = [] := by
          refine eventsOf_eq_nil (fun x hx heq => ?_)
          obtain ⟨v, hv, hx⟩ := List.mem_flatMap.1 hx
          obtain ⟨e, -, rfl⟩ := List.mem_map.1 hx
          exact hnd.1 (List.mem_map.2 ⟨v, hv, heq⟩)
        rw [if_pos rfl, hrest, List.append_nil]
      · have hne : u.handle ≠ t.handle := fun heq => hnd.1 (heq ▸ List.mem_map_of_mem ht)
        rw [if_neg hne, List.nil_append]
        exact ih hnd.2 ht

/-! ## Lifting an invariant of single visits -/

/-- `I` holds of every queue and its events, and every event belongs to a queue. -/
structure Lifted (I : QueueState → List Event → Prop) (p : RingParser) (es : List (Nat × Event)) :
    Prop where
  nodup : (p.destroyed.map Tracked.handle).Nodup
  fresh : ∀ t ∈ p.destroyed, t.handle < p.added
  owned : ∀ x ∈ es, ∃ t ∈ p.destroyed, t.handle = x.1
  holds : ∀ t ∈ p.destroyed, I t.state (eventsOf t.handle es)

theorem Lifted.addQueue {I : QueueState → List Event → Prop} {p : RingParser}
    {es : List (Nat × Event)} (h : Lifted I p es) (q : QueueInfo) (hnew : I (QueueState.new q) []) :
    Lifted I (p.addQueue q) es := by
  unfold RingParser.addQueue
  split
  · exact h
  · have hmem : ∀ t, t ∈ ({ p with
        queues := p.queues ++ [⟨p.added, QueueState.new q⟩], added := p.added + 1 } :
        RingParser).destroyed ↔ t ∈ p.destroyed ∨ t = ⟨p.added, QueueState.new q⟩ := by
      intro t
      simp [RingParser.destroyed, or_assoc]
    refine ⟨?_, fun t ht => ?_, fun x hx => ?_, fun t ht => ?_⟩
    · have hnot : p.added ∉ p.destroyed.map Tracked.handle := by
        intro hin
        obtain ⟨t, ht, heq⟩ := List.mem_map.1 hin
        have := h.fresh t ht
        omega
      have hnd := h.nodup
      simp only [RingParser.destroyed, List.map_append, List.map_cons, List.map_nil,
        ← List.append_assoc] at hnd hnot ⊢
      exact List.nodup_append.2 ⟨hnd, by simp, by
        intro a ha b hb heq
        rw [List.mem_singleton.1 hb] at heq
        exact hnot (heq ▸ ha)⟩
    · rcases (hmem t).1 ht with ht | rfl
      · exact Nat.lt_succ_of_lt (h.fresh t ht)
      · exact Nat.lt_succ_self _
    · obtain ⟨t, ht, heq⟩ := h.owned x hx
      exact ⟨t, (hmem t).2 (Or.inl ht), heq⟩
    · rcases (hmem t).1 ht with ht | rfl
      · exact h.holds t ht
      · have hnone : eventsOf p.added es = [] := by
          refine eventsOf_eq_nil (fun x hx heq => ?_)
          obtain ⟨t, ht, hth⟩ := h.owned x hx
          have := h.fresh t ht
          omega
        simp only [hnone]
        exact hnew

theorem Lifted.iterate {I : QueueState → List Event → Prop} {p : RingParser}
    {es : List (Nat × Event)} (h : Lifted I p es)
    (hvisit : ∀ qs fs alive o, I qs fs → I (visit alive o qs).1 (fs ++ (visit alive o qs).2))
    (alive : Nat → Bool) (obs : Nat → PollObs) :
    Lifted I (p.step (.iterate alive obs)).1 (es ++ (p.step (.iterate alive obs)).2) := by
  let visited (t : Tracked) := visit (alive t.handle) (obs t.handle) t.state
  let after := p.queues.map (fun t => { t with state := (visited t).1 })
  -- An iteration only moves the evicted queues from one list to the other.
  have hperm : (p.step (.iterate alive obs)).1.destroyed.Perm (p.retired ++ after) := by
    have hsplit := (List.filter_append_perm (fun t : Tracked => t.state.evict) after).append_left
      p.retired
    rw [← List.append_assoc] at hsplit
    exact hsplit
  have hhandles : (p.retired ++ after).map Tracked.handle = p.destroyed.map Tracked.handle := by
    simp [after, RingParser.destroyed, Function.comp_def]
  have hqueues : (p.queues.map Tracked.handle).Nodup := by
    have hnd := h.nodup
    rw [RingParser.destroyed, List.map_append] at hnd
    exact (List.nodup_append.1 hnd).2.1
  have hmem : ∀ x ∈ (p.step (.iterate alive obs)).2, ∃ t ∈ p.queues, t.handle = x.1 := by
    intro x hx
    obtain ⟨t, ht, hx⟩ := List.mem_flatMap.1 hx
    obtain ⟨e, -, rfl⟩ := List.mem_map.1 hx
    exact ⟨t, ht, rfl⟩
  have hsame : ∀ t ∈ p.destroyed, ∃ t' ∈ (p.step (.iterate alive obs)).1.destroyed,
      t'.handle = t.handle := by
    intro t ht
    have hin : t.handle ∈ (p.retired ++ after).map Tracked.handle := by
      rw [hhandles]
      exact List.mem_map_of_mem ht
    obtain ⟨t', ht', heq⟩ := List.mem_map.1 hin
    exact ⟨t', hperm.mem_iff.2 ht', heq⟩
  refine ⟨?_, fun t ht => ?_, fun x hx => ?_, fun t ht => ?_⟩
  · rw [(hperm.map Tracked.handle).nodup_iff, hhandles]
    exact h.nodup
  · have hin : t.handle ∈ p.destroyed.map Tracked.handle := by
      rw [← hhandles]
      exact List.mem_map_of_mem (hperm.mem_iff.1 ht)
    obtain ⟨u, hu, heq⟩ := List.mem_map.1 hin
    exact heq ▸ h.fresh u hu
  · obtain ⟨t, ht, heq⟩ : ∃ t ∈ p.destroyed, t.handle = x.1 := by
      rcases List.mem_append.1 hx with hx | hx
      · exact h.owned x hx
      · obtain ⟨t, ht, heq⟩ := hmem x hx
        exact ⟨t, List.mem_append_right _ ht, heq⟩
    obtain ⟨t', ht', heq'⟩ := hsame t ht
    exact ⟨t', ht', heq'.trans heq⟩
  · rw [eventsOf_append]
    rcases List.mem_append.1 (hperm.mem_iff.1 ht) with hret | haft
    · -- A destroyed queue is not visited.
      have hnone : eventsOf t.handle (p.step (.iterate alive obs)).2 = [] := by
        refine eventsOf_eq_nil (fun x hx heq => ?_)
        obtain ⟨u, hu, hux⟩ := hmem x hx
        have hnd := h.nodup
        rw [RingParser.destroyed, List.map_append] at hnd
        exact (List.nodup_append.1 hnd).2.2 t.handle (List.mem_map_of_mem hret) u.handle
          (List.mem_map_of_mem hu) (heq.symm.trans hux.symm)
      rw [hnone, List.append_nil]
      exact h.holds t (List.mem_append_left _ hret)
    · obtain ⟨u, hu, rfl⟩ := List.mem_map.1 haft
      have hevents : eventsOf u.handle (p.step (.iterate alive obs)).2 = (visited u).2 :=
        eventsOf_flatMap hqueues (fun t => (visited t).2) hu
      simp only [hevents]
      exact hvisit _ _ _ _ (h.holds u (List.mem_append_right _ hu))

/-- **Queues do not interfere.** An invariant of single visits holds, at the end of every run of the
    parser, of every queue state and the events of that queue. -/
theorem run_queue_invariant (I : QueueState → List Event → Prop)
    (hnew : ∀ q, I (QueueState.new q) [])
    (hvisit : ∀ qs fs alive o, I qs fs → I (visit alive o qs).1 (fs ++ (visit alive o qs).2))
    (inputs : List ParserInput) :
    Lifted I (Trace.run RingParser.step {} inputs).1 (Trace.run RingParser.step {} inputs).2 := by
  refine Trace.run_invariant (Lifted I) ⟨?_, ?_, ?_, ?_⟩ (fun p es i h => ?_) inputs
  · exact List.nodup_nil
  · simp [RingParser.destroyed]
  · simp
  · simp [RingParser.destroyed]
  · cases i with
    | addQueue q =>
        simp only [RingParser.step, List.append_nil]
        exact h.addQueue q (hnew q)
    | iterate alive obs => exact h.iterate hvisit alive obs

/-- In every run the handles are distinct and below the number of queues added, and every event belongs
    to a queue. -/
theorem run_lifted (inputs : List ParserInput) :
    Lifted (fun _ _ => True) (Trace.run RingParser.step {} inputs).1
      (Trace.run RingParser.step {} inputs).2 :=
  run_queue_invariant _ (fun _ => trivial) (fun _ _ _ _ _ => trivial) inputs

end HsaSnoop
