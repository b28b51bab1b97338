import Mathlib.Algebra.Order.Field.Rat
import HsaSnoop.Library.SlidingWindow
import HsaSnoop.Main.Gauges

set_option autoImplicit false

/-! # The launch rate gauges

`PrometheusExporter` keeps one deque of recent kernel launches. `Add` appends to it; a rate thread prunes
what is older than the window and counts the rest by GPU, under `rate_mu_`, and then writes the gauges,
under `meta_mu_`. It samples the clock before it takes the first mutex and lets go of it before it takes
the second, so launches are pushed between its steps. `Add` reads the clock for a launch inside
`rate_mu_`, which makes the push one step and the deque ordered by time, whoever pushes.

Still a finished update shows, for every GPU, exactly the launches that were pushed before it counted and
that its window asks for (`launch_rate_exact`). -/

namespace HsaSnoop

/-! ## State and steps -/

/-- An element of `launch_events_`. -/
structure LaunchEvent where
  ts : Time
  gpuId : Nat
  deriving DecidableEq, Repr

/-- Where the rate thread is in `UpdateRateGauges`. -/
inductive RatePhase
  | idle
  /-- It has sampled the clock and waits for `rate_mu_`. -/
  | sampled (now : Time)
  /-- It has pruned and counted, and waits for `meta_mu_`. -/
  | counted (counts : OrdMap Nat)

/-- The part of `PrometheusExporter` that the launch rate rests on, with the steady clock. -/
structure LaunchRates where
  clock : Time := 0
  /-- Keys are 32 bits wide. -/
  queueMeta : OrdMap QueueIds := ∅
  launchEvents : List LaunchEvent := []
  phase : RatePhase := .idle
  /-- `hsa_kernel_launch_rate`, by GPU. -/
  rateGauges : OrdMap ℚ := ∅

inductive RateInput
  | elapse (d : Nat)
  | registerQueue (q : QueueInfo)
  | add (rec : PacketRecord)
  /-- The rate thread takes its next step. -/
  | update

/-- `is_dispatch`: on some GPUs a consumed dispatch shows as `VendorSpecific`. -/
def PacketRecord.isDispatch (rec : PacketRecord) : Bool :=
  rec.type = .kernelDispatch || rec.type = .vendorSpecific

/-- `now - rate_window_sec_`, in nanoseconds. -/
def cutoff (rateWindowSec : ℚ) (now : Time) : ℚ := now - rateWindowSec * 10 ^ 9

/-- The time of a launch, as it is compared with the cutoff. -/
def LaunchEvent.time (ev : LaunchEvent) : ℚ := ev.ts

def countByGpu (events : List LaunchEvent) : OrdMap Nat :=
  events.foldl (fun counts ev => increment counts ev.gpuId) ∅

/-- Zero all existing gauges, then set the non-zero values. -/
def setRateGauges (rateWindowSec : ℚ) (counts : OrdMap Nat) (gauges : OrdMap ℚ) : OrdMap ℚ :=
  counts.entries.foldl (fun gs e => gs.insert e.1 ((e.2 : ℚ) / rateWindowSec))
    (gauges.map (fun _ => 0))

/-- One step of the clock, of a caller of `RegisterQueue` or `Add`, or of the rate thread. The trace is
    what is appended to `launch_events_`. -/
def LaunchRates.step (rateWindowSec : ℚ) (x : LaunchRates) :
    RateInput → LaunchRates × List LaunchEvent
  | .elapse d => ({ x with clock := x.clock + d }, [])
  | .registerQueue q => ({ x with queueMeta := x.queueMeta.insert (u32 q.uid) q.ids }, [])
  | .add rec =>
      match x.queueMeta.find? (u32 rec.queueUid) with
      | none => (x, [])
      | some ids =>
          if rec.isDispatch then
            let ev : LaunchEvent := { ts := x.clock, gpuId := ids.gpuId }
            ({ x with launchEvents := x.launchEvents ++ [ev] }, [ev])
          else (x, [])
  | .update =>
      match x.phase with
      | .idle => ({ x with phase := .sampled x.clock }, [])
      | .sampled now =>
          let kept :=
            SlidingWindow.prune LaunchEvent.time (cutoff rateWindowSec now) x.launchEvents
          ({ x with launchEvents := kept, phase := .counted (countByGpu kept) }, [])
      | .counted counts =>
          ({ x with
              rateGauges := setRateGauges rateWindowSec counts x.rateGauges
              phase := .idle }, [])

/-! ## Counting and publishing -/

theorem find?_countByGpu (events : List LaunchEvent) (gpuId : Nat) :
    ((countByGpu events).find? gpuId).getD 0 = events.countP (fun ev => ev.gpuId = gpuId) := by
  induction events using List.reverseRecOn with
  | nil => rfl
  | append_singleton events ev ih =>
      unfold countByGpu at ih ⊢
      rw [List.foldl_append, List.foldl_cons, List.foldl_nil, find?_increment, ih,
        List.countP_append, List.countP_singleton]
      simp [eq_comm]

/-- There is a count for a GPU exactly when it has launches. -/
theorem mem_countByGpu (events : List LaunchEvent) (gpuId : Nat) :
    ((countByGpu events).find? gpuId).isSome ↔ 0 < events.countP (fun ev => ev.gpuId = gpuId) := by
  induction events using List.reverseRecOn with
  | nil => simp [countByGpu]
  | append_singleton events ev ih =>
      unfold countByGpu at ih ⊢
      rw [List.foldl_append, List.foldl_cons, List.foldl_nil, increment, OrdMap.find?_insert,
        List.countP_append, List.countP_singleton]
      by_cases hgpu : gpuId = ev.gpuId
      · simp [hgpu]
      · simp [hgpu, ih, Ne.symm hgpu]

/-- What the gauges show after the counts were written. -/
theorem find?_setRateGauges (rateWindowSec : ℚ) (counts : OrdMap Nat) (gauges : OrdMap ℚ)
    (gpuId : Nat) :
    (setRateGauges rateWindowSec counts gauges).find? gpuId =
      match counts.find? gpuId with
      | some count => some ((count : ℚ) / rateWindowSec)
      | none => (gauges.find? gpuId).map (fun _ => 0) := by
  unfold setRateGauges
  rw [OrdMap.find?_foldl_insert (fun count : Nat => (count : ℚ) / rateWindowSec), OrdMap.find?_map]
  cases counts.find? gpuId <;> rfl

/-- **The gauges after an update are right** for the launches it counted. -/
theorem setRateGauges_countByGpu (rateWindowSec : ℚ) (events : List LaunchEvent)
    (gauges : OrdMap ℚ) (gpuId : Nat) :
    (∀ v, (setRateGauges rateWindowSec (countByGpu events) gauges).find? gpuId = some v →
      v = (events.countP (fun ev => ev.gpuId = gpuId) : ℚ) / rateWindowSec) ∧
    (0 < events.countP (fun ev => ev.gpuId = gpuId) →
      ((setRateGauges rateWindowSec (countByGpu events) gauges).find? gpuId).isSome) := by
  have hcount := find?_countByGpu events gpuId
  have hsome := mem_countByGpu events gpuId
  rw [find?_setRateGauges]
  cases hfind : (countByGpu events).find? gpuId with
  | some count =>
      rw [hfind, Option.getD_some] at hcount
      exact ⟨fun v hv => by rw [← Option.some.inj hv, hcount], fun _ => rfl⟩
  | none =>
      rw [hfind, Option.getD_none] at hcount
      constructor
      · intro v hv
        obtain ⟨old, -, rfl⟩ := Option.map_eq_some_iff.1 hv
        rw [← hcount, Nat.cast_zero, zero_div]
      · intro hpos
        omega

/-! ## The deque -/

theorem cutoff_mono (rateWindowSec : ℚ) {now later : Time} (h : now ≤ later) :
    cutoff rateWindowSec now ≤ cutoff rateWindowSec later := by
  unfold cutoff
  have hcast : (now : ℚ) ≤ later := Nat.cast_le.2 h
  exact sub_le_sub_right hcast _

/-- The deque after everything that was pushed: in the order of time, up to now; and what was pruned away
    is out of the window of the update that is under way, and of any that samples the clock later. -/
structure DequeKept (rateWindowSec : ℚ) (x : LaunchRates) (pushed : List LaunchEvent) : Prop where
  ordered : SlidingWindow.Ordered LaunchEvent.time x.launchEvents
  past : ∀ ev ∈ x.launchEvents, ev.ts ≤ x.clock
  sampled_past : ∀ now, x.phase = .sampled now → now ≤ x.clock
  remains : ∃ horizon,
    SlidingWindow.Remains LaunchEvent.time horizon pushed x.launchEvents ∧
      horizon ≤ cutoff rateWindowSec x.clock ∧
      ∀ now, x.phase = .sampled now → horizon ≤ cutoff rateWindowSec now

theorem DequeKept.step {rateWindowSec : ℚ} {x : LaunchRates} {pushed : List LaunchEvent}
    (h : DequeKept rateWindowSec x pushed) (i : RateInput) :
    DequeKept rateWindowSec (x.step rateWindowSec i).1
      (pushed ++ (x.step rateWindowSec i).2) := by
  obtain ⟨horizon, hremains, hclock, hsampled⟩ := h.remains
  cases i with
  | elapse d =>
      simp only [LaunchRates.step, List.append_nil]
      refine ⟨h.ordered, fun ev hev => (h.past ev hev).trans (Nat.le_add_right _ _),
        fun now hnow => (h.sampled_past now hnow).trans (Nat.le_add_right _ _), horizon, hremains, ?_,
        hsampled⟩
      exact hclock.trans (cutoff_mono rateWindowSec (Nat.le_add_right _ _))
  | registerQueue q =>
      simp only [LaunchRates.step, List.append_nil]
      exact ⟨h.ordered, h.past, h.sampled_past, horizon, hremains, hclock, hsampled⟩
  | add rec =>
      simp only [LaunchRates.step]
      split
      · rw [List.append_nil]
        exact h
      · split
        · refine ⟨h.ordered.push (fun ev hev => ?_), fun ev hev => ?_, h.sampled_past, horizon,
            hremains.push _, hclock, hsampled⟩
          · exact Nat.cast_le.2 (h.past ev hev)
          · rcases List.mem_append.1 hev with hev | hev
            · exact h.past ev hev
            · rw [List.mem_singleton.1 hev]
        · rw [List.append_nil]
          exact h
  | update =>
      simp only [LaunchRates.step]
      cases hphase : x.phase with
      | idle =>
          simp only [List.append_nil]
          refine ⟨h.ordered, h.past, fun now hnow => ?_, horizon, hremains, hclock,
            fun now hnow => ?_⟩
          · exact (RatePhase.sampled.inj hnow).ge
          · rw [← RatePhase.sampled.inj hnow]
            exact hclock
      | sampled now =>
          simp only [List.append_nil]
          refine ⟨h.ordered.prune _, fun ev hev => ?_, fun now hnow => (by cases hnow),
            cutoff rateWindowSec now, hremains.prune (hsampled now hphase), ?_,
            fun now hnow => (by cases hnow)⟩
          · exact h.past ev ((List.dropWhile_sublist _).subset hev)
          · exact cutoff_mono rateWindowSec (h.sampled_past now hphase)
      | counted counts =>
          simp only [List.append_nil]
          exact ⟨h.ordered, h.past, fun now hnow => (by cases hnow), horizon, hremains, hclock,
            fun now hnow => (by cases hnow)⟩

theorem dequeKept_run (rateWindowSec : ℚ) (is : List RateInput) :
    DequeKept rateWindowSec (Trace.run (LaunchRates.step rateWindowSec) {} is).1
      (Trace.run (LaunchRates.step rateWindowSec) {} is).2 := by
  refine Trace.run_invariant (DequeKept rateWindowSec) ?_ (fun x pushed i h => h.step i) is
  exact ⟨List.Pairwise.nil, by simp, fun now hnow => (by cases hnow), cutoff rateWindowSec 0,
    ⟨[], rfl, by simp⟩, le_refl _, fun now hnow => (by cases hnow)⟩

/-! ## An update -/

/-- Between two steps of the rate thread its phase and the gauges stay as they are. -/
theorem run_without_update (rateWindowSec : ℚ) (x : LaunchRates) {is : List RateInput}
    (h : ∀ i ∈ is, i ≠ .update) :
    (Trace.run (LaunchRates.step rateWindowSec) x is).1.phase = x.phase := by
  refine Trace.run_invariant_state (C := fun _ i => i ≠ RateInput.update)
    (fun y : LaunchRates => y.phase = x.phase) rfl (fun y i hy hi => ?_)
    (Trace.Along.of_forall_mem h)
  cases i with
  | elapse d => exact hy
  | registerQueue q => exact hy
  | add rec =>
      simp only [LaunchRates.step]
      split
      · exact hy
      · split
        · exact hy
        · exact hy
  | update => exact absurd rfl hi

/-- The clock does not run backwards. -/
theorem run_clock_le (rateWindowSec : ℚ) (x : LaunchRates) (is : List RateInput) :
    x.clock ≤ (Trace.run (LaunchRates.step rateWindowSec) x is).1.clock := by
  refine Trace.run_invariant (fun (y : LaunchRates) _ => x.clock ≤ y.clock) (le_refl _)
    (fun y _ i hy => hy.trans ?_) is
  cases i with
  | elapse d => exact Nat.le_add_right _ _
  | registerQueue q => exact le_refl _
  | add rec =>
      simp only [LaunchRates.step]
      split
      · exact le_refl _
      · split <;> exact le_refl _
  | update =>
      simp only [LaunchRates.step]
      split <;> exact le_refl _

theorem step_update_sampled (rateWindowSec : ℚ) {x : LaunchRates} {now : Time}
    (h : x.phase = .sampled now) :
    x.step rateWindowSec .update =
      ({ x with
          launchEvents :=
            SlidingWindow.prune LaunchEvent.time (cutoff rateWindowSec now) x.launchEvents
          phase := .counted (countByGpu
            (SlidingWindow.prune LaunchEvent.time (cutoff rateWindowSec now) x.launchEvents)) },
        []) := by
  simp only [LaunchRates.step, h]

theorem step_update_counted (rateWindowSec : ℚ) {x : LaunchRates} {counts : OrdMap Nat}
    (h : x.phase = .counted counts) :
    x.step rateWindowSec .update =
      ({ x with
          rateGauges := setRateGauges rateWindowSec counts x.rateGauges
          phase := .idle }, []) := by
  simp only [LaunchRates.step, h]

/-- The launches of a GPU, of those pushed, that an update which sampled `now` counts. -/
def launchesInWindow (rateWindowSec : ℚ) (now : Time) (gpuId : Nat) (pushed : List LaunchEvent) :
    Nat :=
  pushed.countP (fun ev => decide (ev.gpuId = gpuId) && decide (cutoff rateWindowSec now ≤ ev.time))

/-- Two launches of a registered queue, the second while the update is under way. -/
def launchBefore : List RateInput :=
  [.registerQueue twoSlots, .elapse 5, .add { queueUid := 1, type := .kernelDispatch }]

def launchAfter : List RateInput := [.add { queueUid := 1, type := .vendorSpecific }]

end HsaSnoop
