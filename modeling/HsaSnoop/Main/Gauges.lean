import HsaSnoop.Main.Registration
import HsaSnoop.Parser.Eviction

set_option autoImplicit false

/-! # The gauges of active queues

With `--prometheus`, `on_queue` registers a queue with the exporter, which counts it in the gauge of its
GPU, and then hands it to the parser. The parser evicts queues; the exporter is not told.

So a gauge counts all queues that were ever tracked (`Gauged`), and it is right exactly as long as none
was evicted (`gauges_track_iff`). -/

namespace HsaSnoop

/-! ## The exporter -/

/-- The part of `PrometheusExporter` that `RegisterQueue` works on. Gauges are by GPU. -/
structure Exporter where
  /-- Keys are 32 bits wide. -/
  queueMeta : OrdMap QueueIds := ∅
  sdmaPresent : Bool := false
  activeQueues : OrdMap Nat := ∅
  activeSdmaQueues : OrdMap Nat := ∅

/-- A gauge that is made when it is first used. -/
def increment (gauges : OrdMap Nat) (gpuId : Nat) : OrdMap Nat :=
  gauges.insert gpuId ((gauges.find? gpuId).getD 0 + 1)

def Exporter.registerQueue (x : Exporter) (q : QueueInfo) : Exporter :=
  let x := { x with queueMeta := x.queueMeta.insert (u32 q.uid) q.ids }
  if q.isSdma then
    { x with sdmaPresent := true, activeSdmaQueues := increment x.activeSdmaQueues q.gpuId }
  else { x with activeQueues := increment x.activeQueues q.gpuId }

/-- `hsa_active_queues` or `hsa_active_sdma_queues` of a GPU. -/
def Exporter.gauge (x : Exporter) (sdma : Bool) (gpuId : Nat) : Nat :=
  ((if sdma then x.activeSdmaQueues else x.activeQueues).find? gpuId).getD 0

/-! ## Exporter and parser -/

structure Monitored where
  exporter : Exporter := {}
  parser : RingParser := {}

inductive MonitoredInput
  /-- A call of `on_queue`. -/
  | onQueue (q : QueueInfo) (version : Sdma.Version) (ringPhys : Nat)
  /-- An iteration of `RingParser::Run`. -/
  | iterate (alive : Nat → Bool) (obs : Nat → PollObs)

def Monitored.step (s : Monitored) : MonitoredInput → Monitored × List (Nat × Event)
  | .onQueue q version ringPhys =>
      match tracedQueue? q version ringPhys with
      | none => (s, [])
      | some q =>
          let added := s.parser.step (.addQueue q)
          ({ exporter := s.exporter.registerQueue q, parser := added.1 }, added.2)
  | .iterate alive obs =>
      let iterated := s.parser.step (.iterate alive obs)
      ({ s with parser := iterated.1 }, iterated.2)

/-- A queue of this kind on this GPU. -/
def Tracked.isOn (sdma : Bool) (gpuId : Nat) (t : Tracked) : Bool :=
  t.state.info.isSdma == sdma && t.state.info.gpuId == gpuId

/-- **Gauges track the parser**: they count the queues of a kind and a GPU that it holds. -/
def Monitored.GaugesTrack (s : Monitored) : Prop :=
  ∀ sdma gpuId, s.exporter.gauge sdma gpuId = s.parser.queues.countP (Tracked.isOn sdma gpuId)

/-! ## Evictions -/

/-- No queue is evicted by this step. -/
def Monitored.EvictsNone (s : Monitored) : MonitoredInput → Prop
  | .onQueue .. => True
  | .iterate alive obs => ∀ t ∈ s.parser.queues, ¬ Evicts (alive t.handle) (obs t.handle) t.state

/-! ## What a gauge counts -/

/-- Gauges count the queues that are or were tracked; those that are, are not to be evicted. -/
structure Gauged (s : Monitored) : Prop where
  gauge : ∀ sdma gpuId,
    s.exporter.gauge sdma gpuId = s.parser.destroyed.countP (Tracked.isOn sdma gpuId)
  kept : ∀ t ∈ s.parser.queues, t.state.evict = false

theorem Gauged.init : Gauged {} := by
  constructor
  · intro sdma gpuId
    cases sdma <;> rfl
  · intro t ht
    cases ht

theorem find?_increment (gauges : OrdMap Nat) (gpuId gpuId' : Nat) :
    ((increment gauges gpuId).find? gpuId').getD 0 =
      (gauges.find? gpuId').getD 0 + if gpuId' = gpuId then 1 else 0 := by
  rw [increment, OrdMap.find?_insert]
  by_cases h : gpuId' = gpuId
  · rw [if_pos h, if_pos h, h]
    rfl
  · rw [if_neg h, if_neg h, Nat.add_zero]

theorem gauge_registerQueue (x : Exporter) (q : QueueInfo) (sdma : Bool) (gpuId : Nat) :
    (x.registerQueue q).gauge sdma gpuId =
      x.gauge sdma gpuId + if q.isSdma = sdma ∧ q.gpuId = gpuId then 1 else 0 := by
  have hsdma := find?_increment x.activeSdmaQueues q.gpuId gpuId
  have haql := find?_increment x.activeQueues q.gpuId gpuId
  cases hq : q.isSdma <;> cases sdma <;>
    simp [Exporter.registerQueue, Exporter.gauge, hq, hsdma, haql, eq_comm]

theorem accepted_of_tracedQueue? {q q' : QueueInfo} {version : Sdma.Version} {ringPhys : Nat}
    (h : tracedQueue? q version ringPhys = some q') : Accepted q' := by
  rw [tracedQueue?] at h
  split at h
  · cases h
  · split at h
    · next hsdma =>
        split at h
        · cases h
        · next hversion =>
            obtain rfl := Option.some.inj h
            simpa [Accepted] using fun _ => hversion
    · next hsdma =>
        obtain rfl := Option.some.inj h
        have haql : q.isSdma = false := by simpa using hsdma
        simp [Accepted, QueueInfo.isSdma] at haql ⊢
        simp [haql]

theorem Gauged.onQueue {s : Monitored} (h : Gauged s) {q : QueueInfo} (hq : Accepted q) :
    Gauged { exporter := s.exporter.registerQueue q, parser := s.parser.addQueue q } := by
  rw [RingParser.addQueue_of_accepted hq]
  constructor
  · intro sdma gpuId
    have hcount : [(⟨s.parser.added, QueueState.new q⟩ : Tracked)].countP (Tracked.isOn sdma gpuId) =
        if q.isSdma = sdma ∧ q.gpuId = gpuId then 1 else 0 := by
      rw [List.countP_singleton]
      simp [Tracked.isOn, QueueState.new]
    rw [gauge_registerQueue, h.gauge, ← hcount, ← List.countP_append]
    simp only [RingParser.destroyed, List.append_assoc]
  · intro t ht
    rcases List.mem_append.1 ht with ht | ht
    · exact h.kept t ht
    · rw [List.mem_singleton.1 ht]
      rfl

/-- An iteration moves the evicted queues to the retired ones. -/
theorem Gauged.iterate {s : Monitored} (h : Gauged s) (alive : Nat → Bool) (obs : Nat → PollObs) :
    Gauged { s with parser := (s.parser.step (.iterate alive obs)).1 } := by
  constructor
  · intro sdma gpuId
    have hcount : ∀ queues : List Tracked,
        ((queues.map fun t => { t with state := (visit (alive t.handle) (obs t.handle) t.state).1 }).countP
          (Tracked.isOn sdma gpuId)) = queues.countP (Tracked.isOn sdma gpuId) := by
      intro queues
      rw [List.countP_map]
      refine List.countP_congr (fun t _ => ?_)
      simp [Tracked.isOn, visit_info]
    refine (h.gauge sdma gpuId).trans ?_
    simp only [RingParser.destroyed, RingParser.step]
    rw [List.append_assoc, List.countP_append, List.countP_append,
      (List.filter_append_perm (fun t : Tracked => t.state.evict) _).countP_eq, hcount]
  · intro t ht
    simpa using (List.mem_filter.1 ht).2

theorem Gauged.step {s : Monitored} (h : Gauged s) (i : MonitoredInput) : Gauged (s.step i).1 := by
  cases i with
  | onQueue q version ringPhys =>
      simp only [Monitored.step]
      split
      · exact h
      · next q' hq => exact h.onQueue (accepted_of_tracedQueue? hq)
  | iterate alive obs => exact h.iterate alive obs

/-- Gauges are right as long as nothing was evicted. -/
theorem Gauged.track_iff {s : Monitored} (h : Gauged s) : s.GaugesTrack ↔ s.parser.retired = [] := by
  have hgauge : ∀ sdma gpuId, s.exporter.gauge sdma gpuId =
      s.parser.retired.countP (Tracked.isOn sdma gpuId) +
        s.parser.queues.countP (Tracked.isOn sdma gpuId) := by
    intro sdma gpuId
    rw [h.gauge, RingParser.destroyed, List.countP_append]
  constructor
  · intro htrack
    rw [List.eq_nil_iff_forall_not_mem]
    intro t ht
    have heq := htrack t.state.info.isSdma t.state.info.gpuId
    have hpos : 0 < s.parser.retired.countP (Tracked.isOn t.state.info.isSdma t.state.info.gpuId) :=
      List.countP_pos_iff.2 ⟨t, ht, by simp [Tracked.isOn]⟩
    rw [hgauge] at heq
    omega
  · intro hnil sdma gpuId
    rw [hgauge, hnil, List.countP_nil, Nat.zero_add]

theorem Gauged.retired_step {s : Monitored} (h : Gauged s) (i : MonitoredInput) :
    (s.step i).1.parser.retired = [] ↔ s.parser.retired = [] ∧ s.EvictsNone i := by
  cases i with
  | onQueue q version ringPhys =>
      simp only [Monitored.step, Monitored.EvictsNone, and_true]
      split
      · rfl
      · next q' hq =>
          simp only [RingParser.step, RingParser.addQueue_of_accepted (accepted_of_tracedQueue? hq)]
  | iterate alive obs =>
      simp only [Monitored.step, RingParser.step, Monitored.EvictsNone, List.append_eq_nil_iff,
        List.filter_eq_nil_iff, List.forall_mem_map]
      refine and_congr_right (fun _ => forall₂_congr (fun t ht => ?_))
      rw [visit_evict (h.kept t ht)]

/-- **When gauges track the parser**: in all states of a run, exactly when no iteration evicts a queue. -/
theorem gauges_track_iff (inputs : List MonitoredInput) :
    (∀ pre post, inputs = pre ++ post → (Trace.run Monitored.step {} pre).1.GaugesTrack) ↔
      Trace.Along Monitored.step Monitored.EvictsNone {} inputs := by
  have hgauged : ∀ pre, Gauged (Trace.run Monitored.step {} pre).1 := by
    intro pre
    exact Trace.run_invariant (fun s _ => Gauged s) .init (fun s _ i h => h.step i) pre
  constructor
  · intro h pre i post hsplit
    have hnext := (hgauged (pre ++ [i])).track_iff.1 (h (pre ++ [i]) post (by simp [hsplit]))
    rw [Trace.run_snoc] at hnext
    exact ((hgauged pre).retired_step i |>.1 hnext).2
  · rintro halong pre post rfl
    have hpre : Trace.Along Monitored.step Monitored.EvictsNone {} pre := by
      intro a i b hsplit
      exact halong a i (b ++ post) (by simp [hsplit])
    have hretired : Gauged (Trace.run Monitored.step {} pre).1 ∧
        (Trace.run Monitored.step {} pre).1.parser.retired = [] := by
      refine Trace.run_invariant_state (fun s => Gauged s ∧ s.parser.retired = []) ⟨.init, rfl⟩ ?_ hpre
      rintro s i ⟨hs, hnil⟩ hi
      exact ⟨hs.step i, (hs.retired_step i).2 ⟨hnil, hi⟩⟩
    exact hretired.1.track_iff.2 hretired.2

/-- A queue whose process exits: the gauge of its GPU stays at one. -/
theorem not_track_exited :
    ¬ ∀ pre post, [.onQueue twoSlots .unknown 0, .iterate (fun _ => false)
          (fun _ => { now := 0, wptr := none, rptr := none, mem := fun _ => dispatchEverywhere })] =
        pre ++ post →
      (Trace.run Monitored.step {} pre).1.GaugesTrack := by
  intro h
  have htrack := h _ [] (List.append_nil _).symm false 0
  exact absurd htrack (by decide)

end HsaSnoop
