import HsaSnoop.Parser.Run

set_option autoImplicit false

/-! # The parser thread, action by action

`RingParser::Run` shares the queue list with `AddQueue`. It takes the lock twice per iteration: to copy
the list, and to erase the evicted queues. In between it visits the queues of its copy, and queues can
be added at any of these points. `ParserThread` is the thread at that grain.

Nothing is lost by looking at whole iterations only (`ParserThread.refines`): a queue added behind the
copy is not visited and not erased before the next iteration, so it might as well have been added
between the two. -/

namespace HsaSnoop

/-- Where the parser thread is in its loop. -/
inductive Phase
  /-- Between two iterations. -/
  | asleep
  /-- Inside an iteration, with these queues of the snapshot still to visit. -/
  | visiting (left : List Nat)

/-- The queue list and the thread that polls it. -/
structure ParserThread where
  queues : List Tracked := []
  added : Nat := 0
  phase : Phase := .asleep

/-- An addition by another thread, or the next action of the parser thread. If that is a visit, it
    finds the process alive or not and polls with the observation `o`. -/
inductive ThreadInput
  | addQueue (q : QueueInfo)
  | advance (alive : Bool) (o : PollObs)

namespace ParserThread

/-- `AddQueue`, under the lock. -/
def addQueue (t : ParserThread) (q : QueueInfo) : ParserThread :=
  if q.isSdma && !Sdma.isSupportedVersion q.sdmaVersion then t
  else
    { t with
      queues := t.queues ++ [⟨t.added, QueueState.new q⟩]
      added := t.added + 1 }

/-- Visit one queue of the snapshot. -/
def visitQueue (t : ParserThread) (h : Nat) (alive : Bool) (o : PollObs) :
    List Tracked × List (Nat × Event) :=
  (t.queues.map (fun u => if u.handle = h then { u with state := (visit alive o u.state).1 } else u),
    (t.queues.filter (fun u => u.handle = h)).flatMap
      (fun u => (visit alive o u.state).2.map (fun e => (u.handle, e))))

/-- One action. -/
def step (t : ParserThread) : ThreadInput → ParserThread × List (Nat × Event)
  | .addQueue q => (t.addQueue q, [])
  | .advance alive o =>
      match t.phase with
      | .asleep => ({ t with phase := .visiting (t.queues.map Tracked.handle) }, [])
      | .visiting (h :: left) =>
          let visited := t.visitQueue h alive o
          ({ t with queues := visited.1, phase := .visiting left }, visited.2)
      | .visiting [] =>
          ({ t with queues := t.queues.filter (fun u => !u.state.evict), phase := .asleep }, [])

end ParserThread

/-! ## Refinement to whole iterations -/

/-- The queues that `added` handles from `n` on stand for, freshly added. -/
def freshQueues : (n : Nat) → List QueueInfo → List Tracked
  | _, [] => []
  | n, q :: qs => ⟨n, QueueState.new q⟩ :: freshQueues (n + 1) qs

theorem freshQueues_append (n : Nat) (qs : List QueueInfo) (q : QueueInfo) :
    freshQueues n (qs ++ [q]) = freshQueues n qs ++ [⟨n + qs.length, QueueState.new q⟩] := by
  induction qs generalizing n with
  | nil => rfl
  | cons a qs ih => simp [freshQueues, ih, Nat.add_assoc, Nat.add_comm 1]

theorem freshQueues_spec {n : Nat} {qs : List QueueInfo} :
    ∀ u ∈ freshQueues n qs, n ≤ u.handle ∧ u.state.evict = false := by
  induction qs generalizing n with
  | nil => simp [freshQueues]
  | cons q qs ih =>
      intro u hu
      rcases List.mem_cons.1 hu with rfl | hu
      · exact ⟨Nat.le_refl _, rfl⟩
      · obtain ⟨hle, hev⟩ := ih u hu
        exact ⟨by omega, hev⟩

/-- Adding accepted queues one after the other. -/
theorem run_addQueue {qs : List QueueInfo} (h : ∀ q ∈ qs, Accepted q) (p : RingParser) :
    Trace.run RingParser.step p (qs.map ParserInput.addQueue) =
      ({ p with
          queues := p.queues ++ freshQueues p.added qs
          added := p.added + qs.length }, []) := by
  induction qs generalizing p with
  | nil => simp [freshQueues]
  | cons q qs ih =>
      have hadd := RingParser.addQueue_of_accepted (h q (List.mem_cons_self ..)) p
      simp only [List.map_cons, Trace.run, RingParser.step, hadd,
        ih (fun q' hq' => h q' (List.mem_cons_of_mem _ hq'))]
      simp [freshQueues, Nat.add_assoc, Nat.add_comm 1]

/-- A queue of the snapshot after its visit. -/
def Tracked.visited (alive : Nat → Bool) (obs : Nat → PollObs) (t : Tracked) : Tracked :=
  { t with state := (visit (alive t.handle) (obs t.handle) t.state).1 }

/-- The events of the visits of some queues. -/
def visitEvents (alive : Nat → Bool) (obs : Nat → PollObs) (ts : List Tracked) :
    List (Nat × Event) :=
  ts.flatMap (fun t =>
    (visit (alive t.handle) (obs t.handle) t.state).2.map (fun e => (t.handle, e)))

/-- How a thread relates to whole iterations: the iterations that are done lead to a parser `p`; a
    thread inside an iteration has visited some of its queues, and queues were added meanwhile. -/
inductive Refines (t : ParserThread) (es : List (Nat × Event)) : Prop
  | asleep (inputs : List ParserInput) (phase : t.phase = .asleep)
      (queues : (Trace.run RingParser.step {} inputs).1.queues = t.queues)
      (added : (Trace.run RingParser.step {} inputs).1.added = t.added)
      (events : (Trace.run RingParser.step {} inputs).2 = es)
  | visiting (inputs : List ParserInput) (alive : Nat → Bool) (obs : Nat → PollObs)
      (before after : List Tracked) (new : List QueueInfo)
      (phase : t.phase = .visiting (after.map Tracked.handle))
      (snapshot : (Trace.run RingParser.step {} inputs).1.queues = before ++ after)
      (accepted : ∀ q ∈ new, Accepted q)
      (queues : t.queues = before.map (Tracked.visited alive obs) ++ after ++
        freshQueues (Trace.run RingParser.step {} inputs).1.added new)
      (added : t.added = (Trace.run RingParser.step {} inputs).1.added + new.length)
      (events : es = (Trace.run RingParser.step {} inputs).2 ++ visitEvents alive obs before)

theorem Refines.addQueue {t : ParserThread} {es : List (Nat × Event)} (h : Refines t es)
    (q : QueueInfo) : Refines (t.addQueue q) es := by
  unfold ParserThread.addQueue
  split
  · exact h
  · next hq =>
      have hacc : Accepted q := by simpa [Accepted] using hq
      cases h with
      | asleep inputs phase queues added events =>
          have hrun : Trace.run RingParser.step {} (inputs ++ [q].map ParserInput.addQueue) = _ :=
            Trace.run_append _ inputs ([q].map ParserInput.addQueue)
          rw [run_addQueue (by simpa using hacc)] at hrun
          refine .asleep (inputs ++ [q].map ParserInput.addQueue) phase ?_ ?_ ?_
          · rw [hrun]
            simp [freshQueues, queues, added]
          · rw [hrun]
            simp [added]
          · rw [hrun]
            simpa using events
      | visiting inputs alive obs before after new phase snapshot accepted queues added events =>
          refine .visiting inputs alive obs before after (new ++ [q]) phase snapshot ?_ ?_ ?_ events
          · intro q' hq'
            rcases List.mem_append.1 hq' with hq' | hq'
            · exact accepted q' hq'
            · rw [List.mem_singleton.1 hq']
              exact hacc
          · rw [queues, freshQueues_append, ← added]
            exact List.append_assoc ..
          · simp [added, Nat.add_assoc]

/-- The handles of a parser's queues are distinct and below its counter. -/
theorem run_handles (inputs : List ParserInput) :
    ((Trace.run RingParser.step {} inputs).1.queues.map Tracked.handle).Nodup ∧
      ∀ u ∈ (Trace.run RingParser.step {} inputs).1.queues,
        u.handle < (Trace.run RingParser.step {} inputs).1.added := by
  have hlift := run_lifted inputs
  have hnd := hlift.nodup
  rw [RingParser.destroyed, List.map_append] at hnd
  exact ⟨(List.nodup_append.1 hnd).2.1,
    fun u hu => hlift.fresh u (List.mem_append_right _ hu)⟩

theorem visited_congr {alive alive' : Nat → Bool} {obs obs' : Nat → PollObs} {ts : List Tracked}
    (h : ∀ t ∈ ts, alive' t.handle = alive t.handle ∧ obs' t.handle = obs t.handle) :
    ts.map (Tracked.visited alive' obs') = ts.map (Tracked.visited alive obs) ∧
      visitEvents alive' obs' ts = visitEvents alive obs ts := by
  constructor
  · refine List.map_congr_left (fun t ht => ?_)
    simp only [Tracked.visited, h t ht]
  · refine List.flatMap_congr (fun t ht => ?_)
    simp only [h t ht]

/-- A visit touches no queue with another handle. -/
theorem visitQueue_of_ne {ts : List Tracked} {h : Nat} (f : Tracked → Tracked)
    (hne : ∀ v ∈ ts, v.handle ≠ h) :
    ts.map (fun v => if v.handle = h then f v else v) = ts ∧
      ts.filter (fun v => decide (v.handle = h)) = [] := by
  constructor
  · conv_rhs => rw [← List.map_id ts]
    exact List.map_congr_left (fun v hv => if_neg (hne v hv))
  · rw [List.filter_eq_nil_iff]
    intro v hv
    simpa using hne v hv

/-- The visit of the one queue with its handle. -/
theorem ParserThread.visitQueue_eq {t : ParserThread} {before after : List Tracked} {u : Tracked}
    (hqueues : t.queues = before ++ u :: after) (hbefore : ∀ v ∈ before, v.handle ≠ u.handle)
    (hafter : ∀ v ∈ after, v.handle ≠ u.handle) (a : Bool) (o : PollObs) :
    t.visitQueue u.handle a o =
      (before ++ { u with state := (visit a o u.state).1 } :: after,
        (visit a o u.state).2.map (fun e => (u.handle, e))) := by
  obtain ⟨hmap, hfilter⟩ :=
    visitQueue_of_ne (fun v => { v with state := (visit a o v.state).1 }) hbefore
  obtain ⟨hmap', hfilter'⟩ :=
    visitQueue_of_ne (fun v => { v with state := (visit a o v.state).1 }) hafter
  simp only [visitQueue, hqueues, List.map_append, List.map_cons, hmap, hmap', List.filter_append,
    List.filter_cons, hfilter, hfilter', decide_true, if_true, List.nil_append, List.flatMap_singleton]

section

variable {t : ParserThread} {es : List (Nat × Event)} {inputs : List ParserInput} {alive : Nat → Bool}
  {obs : Nat → PollObs} {before : List Tracked} {new : List QueueInfo}

/-- The iteration ends: it happened as a whole, and the additions followed. -/
theorem Refines.finish (phase : t.phase = .visiting [])
    (snapshot : (Trace.run RingParser.step {} inputs).1.queues = before)
    (accepted : ∀ q ∈ new, Accepted q)
    (queues : t.queues = before.map (Tracked.visited alive obs) ++
      freshQueues (Trace.run RingParser.step {} inputs).1.added new)
    (added : t.added = (Trace.run RingParser.step {} inputs).1.added + new.length)
    (events : es = (Trace.run RingParser.step {} inputs).2 ++ visitEvents alive obs before)
    (a : Bool) (o : PollObs) :
    Refines (t.step (.advance a o)).1 (es ++ (t.step (.advance a o)).2) := by
  simp only [ParserThread.step, phase, List.append_nil]
  have hfresh : (freshQueues (Trace.run RingParser.step {} inputs).1.added new).filter
      (fun u => !u.state.evict) = freshQueues (Trace.run RingParser.step {} inputs).1.added new := by
    rw [List.filter_eq_self]
    intro u hu
    simp [(freshQueues_spec u hu).2]
  have hiter : Trace.run RingParser.step {} (inputs ++ [.iterate alive obs]) = _ :=
    Trace.run_snoc _ inputs (.iterate alive obs)
  have hrun : Trace.run RingParser.step {}
      ((inputs ++ [.iterate alive obs]) ++ new.map ParserInput.addQueue) = _ :=
    Trace.run_append _ (inputs ++ [.iterate alive obs]) (new.map ParserInput.addQueue)
  rw [run_addQueue accepted, hiter] at hrun
  refine .asleep (inputs ++ [.iterate alive obs] ++ new.map ParserInput.addQueue) rfl ?_ ?_ ?_
  · rw [hrun, queues]
    simp only [RingParser.step, snapshot, List.filter_append, hfresh]
    rfl
  · rw [hrun]
    exact added.symm
  · rw [hrun, events]
    simp only [RingParser.step, snapshot, List.append_nil]
    rfl

/-- The next queue of the snapshot is visited: its observation is that of the iteration for it. -/
theorem Refines.visitNext {u : Tracked} {after : List Tracked}
    (phase : t.phase = .visiting (u.handle :: after.map Tracked.handle))
    (snapshot : (Trace.run RingParser.step {} inputs).1.queues = before ++ u :: after)
    (accepted : ∀ q ∈ new, Accepted q)
    (queues : t.queues = before.map (Tracked.visited alive obs) ++ u :: after ++
      freshQueues (Trace.run RingParser.step {} inputs).1.added new)
    (added : t.added = (Trace.run RingParser.step {} inputs).1.added + new.length)
    (events : es = (Trace.run RingParser.step {} inputs).2 ++ visitEvents alive obs before)
    (a : Bool) (o : PollObs) :
    Refines (t.step (.advance a o)).1 (es ++ (t.step (.advance a o)).2) := by
  obtain ⟨hnd, hlt⟩ := run_handles inputs
  rw [snapshot, List.map_append, List.map_cons] at hnd
  obtain ⟨-, hcons, hdisjoint⟩ := List.nodup_append.1 hnd
  -- The handle of `u` is its own: in the snapshot, and among the queues added since.
  have hu : ∀ v ∈ before, v.handle ≠ u.handle := by
    intro v hv
    exact hdisjoint v.handle (List.mem_map_of_mem hv) u.handle (List.mem_cons_self ..)
  have hbefore : ∀ v ∈ before.map (Tracked.visited alive obs), v.handle ≠ u.handle := by
    intro v hv
    obtain ⟨v', hv', rfl⟩ := List.mem_map.1 hv
    exact hu v' hv'
  have hafter : ∀ v ∈ after ++ freshQueues (Trace.run RingParser.step {} inputs).1.added new,
      v.handle ≠ u.handle := by
    intro v hv heq
    rcases List.mem_append.1 hv with hv | hv
    · exact (List.nodup_cons.1 hcons).1 (heq ▸ List.mem_map_of_mem hv)
    · have hle := (freshQueues_spec v hv).1
      have hbelow := hlt u (snapshot ▸ List.mem_append_right _ (List.mem_cons_self ..))
      omega
  rw [List.append_assoc, List.cons_append] at queues
  have hvisit := ParserThread.visitQueue_eq queues hbefore hafter a o
  obtain ⟨hmap, hevents⟩ := @visited_congr alive (Function.update alive u.handle a) obs
    (Function.update obs u.handle o) before
    (fun v hv => ⟨Function.update_of_ne (hu v hv) .., Function.update_of_ne (hu v hv) ..⟩)
  simp only [ParserThread.step, phase, hvisit]
  refine .visiting inputs (Function.update alive u.handle a) (Function.update obs u.handle o)
    (before ++ [u]) after new rfl (by simpa using snapshot) accepted ?_ added ?_
  · rw [List.map_append, hmap]
    simp [Tracked.visited]
  · have hsnoc : visitEvents (Function.update alive u.handle a) (Function.update obs u.handle o)
        (before ++ [u]) = visitEvents (Function.update alive u.handle a)
          (Function.update obs u.handle o) before ++ _ := List.flatMap_append
    rw [events, List.append_assoc, hsnoc, hevents]
    simp

end

theorem Refines.advance {t : ParserThread} {es : List (Nat × Event)} (h : Refines t es)
    (a : Bool) (o : PollObs) :
    Refines (t.step (.advance a o)).1 (es ++ (t.step (.advance a o)).2) := by
  cases h with
  | asleep inputs phase queues added events =>
      simp only [ParserThread.step, phase, List.append_nil]
      refine .visiting inputs (fun _ => true) (fun _ => o) [] t.queues [] rfl queues (by simp) ?_ ?_ ?_
      · simp [freshQueues]
      · simpa using added.symm
      · simpa [visitEvents] using events.symm
  | visiting inputs alive obs before after new phase snapshot accepted queues added events =>
      cases after with
      | nil =>
          rw [List.append_nil] at snapshot queues
          exact .finish phase snapshot accepted queues added events a o
      | cons u after => exact .visitNext phase snapshot accepted queues added events a o

/-- **The thread does whole iterations.** Whatever the order in which queues are added and the parser
    thread acts, the thread relates to a run of additions and whole iterations; between two iterations
    it has the same queues and has performed the same events. -/
theorem ParserThread.refines (inputs : List ThreadInput) :
    Refines (Trace.run ParserThread.step {} inputs).1 (Trace.run ParserThread.step {} inputs).2 := by
  refine Trace.run_invariant Refines (.asleep [] rfl rfl rfl rfl) (fun t es i h => ?_) inputs
  cases i with
  | addQueue q =>
      rw [ParserThread.step, List.append_nil]
      exact h.addQueue q
  | advance a o => exact h.advance a o

end HsaSnoop
