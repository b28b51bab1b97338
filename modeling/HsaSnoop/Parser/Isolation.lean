import HsaSnoop.Parser.Run

set_option autoImplicit false

/-! # Queues do not interfere

What the parser delivers for one queue, and when it evicts it, is what a parser would that tracks only
that queue. A visit looks at nothing but the state of its queue and the observation it is given
(`visit`), delivers nothing but records of its queue (`visit_own`), and an iteration visits each queue
once and erases it by its own flag.

Observations are given by queue uid here, so that the two parsers can be given the same ones. -/

namespace HsaSnoop

/-! ## Whose records a visit delivers -/

/-- The queue uid of the record an event delivers. -/
@[simp] def Event.deliveredUid? : Event → Option Nat
  | .sink rec => some rec.queueUid
  | .sdmaSink rec => some rec.queueUid
  | _ => none

/-- Everything in flight belongs to the queue. -/
structure OwnRecords (qs : QueueState) : Prop where
  aql : ∀ e ∈ qs.inflight.entries, e.2.queueUid = qs.info.uid
  sdma : ∀ e ∈ qs.sdmaInflight.entries, e.2.queueUid = qs.info.uid

theorem ownRecords_new (q : QueueInfo) : OwnRecords (QueueState.new q) :=
  ⟨List.forall_mem_nil _, List.forall_mem_nil _⟩

/-- A state of the queue `q`, and events that deliver its records only. -/
structure OwnTrace (q : QueueInfo) (qs : QueueState) (es : List Event) : Prop where
  info : qs.info = q
  own : OwnRecords qs
  delivered : ∀ e ∈ es, ∀ u, e.deliveredUid? = some u → u = q.uid

namespace OwnTrace

variable {q : QueueInfo} {qs qs' : QueueState} {es fs : List Event} {o : PollObs} {w r : Nat}

/-- Events behind those of an own trace. -/
theorem append (h : OwnTrace q qs es) (hinfo : qs'.info = qs.info) (hown : OwnRecords qs')
    (hfs : ∀ e ∈ fs, ∀ u, e.deliveredUid? = some u → u = q.uid) : OwnTrace q qs' (es ++ fs) := by
  refine ⟨hinfo.trans h.info, hown, fun e he => ?_⟩
  rcases List.mem_append.1 he with he | he
  · exact h.delivered e he
  · exact hfs e he

theorem pollMove (h : OwnTrace q qs es) (hmove : PollMove o w r qs fs qs') :
    OwnTrace q qs' (es ++ fs) := by
  have huid : qs.info.uid = q.uid := congrArg QueueInfo.uid h.info
  cases hmove with
  | start => exact h.append rfl ⟨h.own.aql, h.own.sdma⟩ (by simp)
  | skip wrapped => exact h.append rfl ⟨h.own.aql, h.own.sdma⟩ (by simp)
  | emit lt inRing consumed decoded =>
      obtain ⟨raw, -, hrec⟩ := decodeSlot_some decoded
      refine h.append rfl ⟨h.own.aql, h.own.sdma⟩ (fun e he u hu => ?_)
      obtain rfl := List.mem_singleton.1 he
      exact (Option.some.inj hu).symm.trans (hrec.queueUid.trans huid)
  | park lt inRing waiting decoded =>
      obtain ⟨raw, -, hrec⟩ := decodeSlot_some decoded
      refine h.append rfl ⟨fun e he => ?_, h.own.sdma⟩ (by simp)
      rcases OrdMap.mem_entries_emplace he with rfl | he
      · exact hrec.queueUid
      · exact h.own.aql e he
  | miss lt inRing consumed undecoded => exact h.append rfl ⟨h.own.aql, h.own.sdma⟩ (by simp)
  | drain =>
      refine h.append rfl ⟨fun e he => ?_, h.own.sdma⟩ (fun e he u hu => ?_)
      · exact h.own.aql e (OrdMap.mem_entries_of_mem_splitBelow_snd he)
      · obtain ⟨x, hx, rfl⟩ := List.mem_map.1 he
        have hown := h.own.aql x (OrdMap.mem_entries_of_mem_splitBelow_fst hx)
        exact (Option.some.inj hu).symm.trans (hown.trans huid)
  | finish drained => exact h.append rfl ⟨h.own.aql, h.own.sdma⟩ (by simp)

theorem queueUid_sdmaRecord (qs : QueueState) (m : ProcMem) (now : Time) (dws : Nat → UInt32)
    (win : Nat) : (sdmaRecord qs m now dws win).1.queueUid = qs.info.uid := by
  unfold sdmaRecord
  extract_lets
  split
  · split <;> rfl
  · rfl

theorem sdmaMove (h : OwnTrace q qs es) (hmove : SdmaMove o w r qs fs qs') :
    OwnTrace q qs' (es ++ fs) := by
  have huid : qs.info.uid = q.uid := congrArg QueueInfo.uid h.info
  cases hmove with
  | start => exact h.append rfl ⟨h.own.aql, h.own.sdma⟩ (by simp)
  | skip wrapped => exact h.append rfl ⟨h.own.aql, h.own.sdma⟩ (by simp)
  | park window known whole made =>
      refine h.append rfl ⟨h.own.aql, fun e he => ?_⟩ (by simp)
      rcases OrdMap.mem_entries_emplace he with rfl | he
      · rw [made]
        exact queueUid_sdmaRecord ..
      · exact h.own.sdma e he
  | resync window unknown enough => exact h.append rfl ⟨h.own.aql, h.own.sdma⟩ (by simp)
  | drain =>
      refine h.append rfl ⟨h.own.aql, fun e he => ?_⟩ (fun e he u hu => ?_)
      · exact h.own.sdma e (OrdMap.mem_entries_of_mem_splitBelow_snd he)
      · obtain ⟨x, hx, rfl⟩ := List.mem_map.1 he
        have hown := h.own.sdma x (OrdMap.mem_entries_of_mem_splitBelow_fst hx)
        exact (Option.some.inj hu).symm.trans (hown.trans huid)
  | finish drained => exact h.append rfl ⟨h.own.aql, h.own.sdma⟩ (by simp)

end OwnTrace

/-- **A visit keeps to its queue**: it delivers only the queue's own records, and leaves only such in
    flight. -/
theorem visit_own {qs : QueueState} (h : OwnRecords qs) (alive : Bool) (o : PollObs) :
    OwnTrace qs.info (visit alive o qs).1 (visit alive o qs).2 := by
  have hstart : OwnTrace qs.info qs [] := ⟨rfl, h, List.forall_mem_nil _⟩
  unfold visit
  split
  · exact hstart
  · split
    · exact ⟨rfl, ⟨h.aql, h.sdma⟩, List.forall_mem_nil _⟩
    · split
      · refine pollSdmaQueue_elim qs o (fun qs' fs hcase => ?_)
        cases hcase with
        | failed unread => exact ⟨rfl, ⟨h.aql, h.sdma⟩, List.forall_mem_nil _⟩
        | noRing none => exact ⟨rfl, ⟨h.aql, h.sdma⟩, List.forall_mem_nil _⟩
        | primes read ring fresh => exact ⟨rfl, ⟨h.aql, h.sdma⟩, by simp⟩
        | polled read ring primed decode stopped drain nextId drained last =>
            have hend := (decode.trans drain).invariant (OwnTrace qs.info)
              (fun _ _ _ _ ht hmove => ht.sdmaMove hmove) hstart
            rwa [List.nil_append] at hend
      · refine pollQueue_elim qs o (fun qs' fs hcase => ?_)
        cases hcase with
        | failed unread => exact ⟨rfl, ⟨h.aql, h.sdma⟩, List.forall_mem_nil _⟩
        | primes read fresh => exact ⟨rfl, ⟨h.aql, h.sdma⟩, by simp⟩
        | polled hw hr primed steps drained last stopped trace =>
            have hend := steps.invariant (OwnTrace qs.info)
              (fun _ _ _ _ ht hmove => ht.pollMove hmove) hstart
            rwa [List.nil_append] at hend

/-! ## Observations by uid -/

/-- The uid of a tracked queue. -/
def RingParser.uidOf (p : RingParser) (h : Nat) : Nat :=
  ((p.queues.find? (fun t => t.handle = h)).map (fun t => t.state.info.uid)).getD 0

/-- An input whose observations are given by uid, as the parser sees it. -/
def RingParser.observe (p : RingParser) : ParserInput → ParserInput
  | .addQueue q => .addQueue q
  | .iterate alive obs => .iterate (fun h => alive (p.uidOf h)) (fun h => obs (p.uidOf h))

/-- `step`, for an input whose observations are given by uid. -/
def RingParser.stepByUid (p : RingParser) (i : ParserInput) : RingParser × List (Nat × Event) :=
  p.step (p.observe i)

/-- Whether an input concerns the queue `u`: iterations do, and its own addition. -/
def ParserInput.concerns (u : Nat) : ParserInput → Bool
  | .addQueue q => q.uid = u
  | .iterate _ _ => true

/-- The states of the queues with uid `u`. -/
def statesOf (u : Nat) (ts : List Tracked) : List QueueState :=
  (ts.map Tracked.state).filter (fun qs => qs.info.uid = u)

/-- What is delivered with queue uid `u`, in order. -/
def deliveredFor (u : Nat) (es : List (Nat × Event)) : List Event :=
  (es.map Prod.snd).filter (fun e => e.deliveredUid? = some u)

theorem deliveredFor_append (u : Nat) (es fs : List (Nat × Event)) :
    deliveredFor u (es ++ fs) = deliveredFor u es ++ deliveredFor u fs := by
  simp [deliveredFor]

/-! ## One iteration -/

/-- Handles are distinct, and every queue holds its own records. -/
structure Tidy (p : RingParser) : Prop where
  nodup : (p.queues.map Tracked.handle).Nodup
  fresh : ∀ t ∈ p.queues, t.handle < p.added
  own : ∀ t ∈ p.queues, OwnRecords t.state

/-- The visit of a queue, observed by uid. -/
def visitByUid (alive : Nat → Bool) (obs : Nat → PollObs) (qs : QueueState) :
    QueueState × List Event :=
  visit (alive qs.info.uid) (obs qs.info.uid) qs

theorem Tidy.uidOf {p : RingParser} (h : Tidy p) {t : Tracked} (ht : t ∈ p.queues) :
    p.uidOf t.handle = t.state.info.uid := by
  have hfind : p.queues.find? (fun s => decide (s.handle = t.handle)) = some t := by
    have hnd := h.nodup
    generalize p.queues = ts at ht hnd
    induction ts with
    | nil => cases ht
    | cons s ts ih =>
        rw [List.map_cons, List.nodup_cons] at hnd
        rcases List.mem_cons.1 ht with rfl | ht
        · exact List.find?_cons_of_pos (by simp)
        · have hne : s.handle ≠ t.handle := fun heq => hnd.1 (heq ▸ List.mem_map_of_mem ht)
          rw [List.find?_cons_of_neg (by simpa using hne)]
          exact ih ht hnd.2
  rw [RingParser.uidOf, hfind]
  rfl

/-- An iteration, queue by queue. -/
theorem Tidy.stepByUid_iterate {p : RingParser} (h : Tidy p) (alive : Nat → Bool)
    (obs : Nat → PollObs) :
    p.stepByUid (.iterate alive obs) =
      let after := p.queues.map (fun t => { t with state := (visitByUid alive obs t.state).1 })
      ({ p with
          queues := after.filter (fun t => !t.state.evict)
          retired := p.retired ++ after.filter (fun t => t.state.evict) },
        p.queues.flatMap (fun t => (visitByUid alive obs t.state).2.map (fun e => (t.handle, e)))) := by
  have hvisit : ∀ t ∈ p.queues, visit (alive (p.uidOf t.handle)) (obs (p.uidOf t.handle)) t.state =
      visitByUid alive obs t.state := by
    intro t ht
    rw [h.uidOf ht, visitByUid]
  have hafter : p.queues.map (fun t => { t with
        state := (visit (alive (p.uidOf t.handle)) (obs (p.uidOf t.handle)) t.state).1 }) =
      p.queues.map (fun t => { t with state := (visitByUid alive obs t.state).1 }) :=
    List.map_congr_left (fun t ht => by simp only [hvisit t ht])
  have hevents : p.queues.flatMap (fun t => (visit (alive (p.uidOf t.handle))
        (obs (p.uidOf t.handle)) t.state).2.map (fun e => (t.handle, e))) =
      p.queues.flatMap (fun t => (visitByUid alive obs t.state).2.map (fun e => (t.handle, e))) :=
    List.flatMap_congr (fun t ht => by simp only [hvisit t ht])
  simp only [RingParser.stepByUid, RingParser.observe, RingParser.step, hafter, hevents]

theorem Tidy.step {p : RingParser} (h : Tidy p) (i : ParserInput) : Tidy (p.stepByUid i).1 := by
  cases i with
  | addQueue q =>
      show Tidy (p.addQueue q)
      by_cases hacc : Accepted q
      · rw [RingParser.addQueue_of_accepted hacc]
        refine ⟨?_, fun t ht => ?_, fun t ht => ?_⟩
        · rw [List.map_append, List.nodup_append]
          refine ⟨h.nodup, by simp, fun a ha b hb heq => ?_⟩
          obtain ⟨t, ht, rfl⟩ := List.mem_map.1 ha
          have hlt := h.fresh t ht
          simp only [List.map_cons, List.map_nil, List.mem_singleton] at hb
          omega
        · rcases List.mem_append.1 ht with ht | ht
          · exact Nat.lt_succ_of_lt (h.fresh t ht)
          · rw [List.mem_singleton.1 ht]
            exact Nat.lt_succ_self _
        · rcases List.mem_append.1 ht with ht | ht
          · exact h.own t ht
          · rw [List.mem_singleton.1 ht]
            exact ownRecords_new q
      · rw [RingParser.addQueue_of_not_accepted hacc]
        exact h
  | iterate alive obs =>
      rw [h.stepByUid_iterate]
      have hsub : ∀ t ∈ (p.queues.map (fun t =>
          { t with state := (visitByUid alive obs t.state).1 })).filter (fun t => !t.state.evict),
          ∃ s ∈ p.queues, { s with state := (visitByUid alive obs s.state).1 } = t := by
        intro t ht
        exact List.mem_map.1 (List.mem_of_mem_filter ht)
      refine ⟨?_, fun t ht => ?_, fun t ht => ?_⟩
      · have hmap : (p.queues.map (fun t =>
            { t with state := (visitByUid alive obs t.state).1 })).map Tracked.handle =
            p.queues.map Tracked.handle := by
          simp [Function.comp_def]
        have hnd := h.nodup
        rw [← hmap] at hnd
        exact hnd.sublist (List.filter_sublist.map _)
      · obtain ⟨s, hs, rfl⟩ := hsub t ht
        exact h.fresh s hs
      · obtain ⟨s, hs, rfl⟩ := hsub t ht
        exact (visit_own (h.own s hs) _ _).own

/-! ## Two runs -/

/-- The parser `s` tracks just the queue `u` of the parser `p`, in the same state, and has retired it
    if `p` has. -/
structure Alone (u : Nat) (p s : RingParser) : Prop where
  tidy : Tidy p
  tidyAlone : Tidy s
  only : ∀ t ∈ s.retired ++ s.queues, t.state.info.uid = u
  queues : statesOf u s.queues = statesOf u p.queues
  retired : statesOf u s.retired = statesOf u p.retired

/-- Visits keep the uid, so they commute with picking the queue `u`. -/
theorem statesOf_visited {p : RingParser} (h : Tidy p) (u : Nat) (alive : Nat → Bool)
    (obs : Nat → PollObs) (keep : QueueState → Bool) :
    statesOf u ((p.queues.map (fun t =>
        { t with state := (visitByUid alive obs t.state).1 })).filter (fun t => keep t.state)) =
      ((statesOf u p.queues).map (fun qs => (visitByUid alive obs qs).1)).filter keep := by
  have hown := h.own
  generalize p.queues = ts at hown
  induction ts with
  | nil => rfl
  | cons t ts ih =>
      have hinfo : (visitByUid alive obs t.state).1.info = t.state.info :=
        (visit_own (hown t (List.mem_cons_self ..)) _ _).info
      have htail := ih (fun t' ht' => hown t' (List.mem_cons_of_mem _ ht'))
      unfold statesOf at htail ⊢
      by_cases hu : t.state.info.uid = u
      · by_cases hk : keep (visitByUid alive obs t.state).1 = true
        · simp [hu, hk, hinfo, htail]
        · simp [hu, hk, htail]
      · by_cases hk : keep (visitByUid alive obs t.state).1 = true
        · simp [hu, hk, hinfo, htail]
        · simp [hu, hk, htail]

/-- The records with queue uid `u` come from the visits of the queue `u`. -/
theorem deliveredFor_visits {p : RingParser} (h : Tidy p) (u : Nat) (alive : Nat → Bool)
    (obs : Nat → PollObs) :
    deliveredFor u (p.queues.flatMap
        (fun t => (visitByUid alive obs t.state).2.map (fun e => (t.handle, e)))) =
      (statesOf u p.queues).flatMap (fun qs =>
        (visitByUid alive obs qs).2.filter (fun e => e.deliveredUid? = some u)) := by
  have hown := h.own
  generalize p.queues = ts at hown
  induction ts with
  | nil => rfl
  | cons t ts ih =>
      have htail := ih (fun t' ht' => hown t' (List.mem_cons_of_mem _ ht'))
      have hdel := (visit_own (hown t (List.mem_cons_self ..)) (alive t.state.info.uid)
        (obs t.state.info.uid)).delivered
      rw [List.flatMap_cons, deliveredFor_append, htail]
      have hhead : deliveredFor u ((visitByUid alive obs t.state).2.map (fun e => (t.handle, e))) =
          (visitByUid alive obs t.state).2.filter (fun e => e.deliveredUid? = some u) := by
        simp [deliveredFor, Function.comp_def]
      rw [hhead]
      unfold statesOf
      by_cases hu : t.state.info.uid = u
      · simp [hu]
      · have hnone : (visitByUid alive obs t.state).2.filter
            (fun e => decide (e.deliveredUid? = some u)) = [] := by
          rw [List.filter_eq_nil_iff]
          intro e he heq
          exact hu (hdel e he u (of_decide_eq_true heq)).symm
        simp only [hnone, List.map_cons, List.filter_cons, hu, decide_false, Bool.false_eq_true,
          if_false, List.nil_append]

theorem statesOf_append (u : Nat) (ts ts' : List Tracked) :
    statesOf u (ts ++ ts') = statesOf u ts ++ statesOf u ts' := by
  simp [statesOf]

/-- An iteration of both parsers. -/
theorem Alone.iterate {u : Nat} {p s : RingParser} (h : Alone u p s) (alive : Nat → Bool)
    (obs : Nat → PollObs) :
    Alone u (p.stepByUid (.iterate alive obs)).1 (s.stepByUid (.iterate alive obs)).1 ∧
      deliveredFor u (p.stepByUid (.iterate alive obs)).2 =
        deliveredFor u (s.stepByUid (.iterate alive obs)).2 := by
  have htidy := h.tidy.step (.iterate alive obs)
  have htidyAlone := h.tidyAlone.step (.iterate alive obs)
  rw [h.tidy.stepByUid_iterate] at htidy ⊢
  rw [h.tidyAlone.stepByUid_iterate] at htidyAlone ⊢
  refine ⟨⟨htidy, htidyAlone, fun t ht => ?_, ?_, ?_⟩, ?_⟩
  · have hvisited : ∀ {keep : Tracked → Bool}, t ∈ (s.queues.map (fun t =>
        { t with state := (visitByUid alive obs t.state).1 })).filter keep →
        t.state.info.uid = u := by
      intro keep hmem
      obtain ⟨t', ht', rfl⟩ := List.mem_map.1 (List.mem_of_mem_filter hmem)
      have hinfo := (visit_own (h.tidyAlone.own t' ht') (alive t'.state.info.uid)
        (obs t'.state.info.uid)).info
      exact (congrArg QueueInfo.uid hinfo).trans (h.only t' (List.mem_append_right _ ht'))
    rcases List.mem_append.1 ht with ht | ht
    · rcases List.mem_append.1 ht with ht | ht
      · exact h.only t (List.mem_append_left _ ht)
      · exact hvisited ht
    · exact hvisited ht
  · have hp := statesOf_visited h.tidy u alive obs (fun qs => !qs.evict)
    have hs := statesOf_visited h.tidyAlone u alive obs (fun qs => !qs.evict)
    rw [h.queues] at hs
    exact hs.trans hp.symm
  · have hp := statesOf_visited h.tidy u alive obs (fun qs => qs.evict)
    have hs := statesOf_visited h.tidyAlone u alive obs (fun qs => qs.evict)
    rw [h.queues] at hs
    rw [statesOf_append, statesOf_append, h.retired]
    exact congrArg _ (hs.trans hp.symm)
  · have hp := deliveredFor_visits h.tidy u alive obs
    have hs := deliveredFor_visits h.tidyAlone u alive obs
    rw [h.queues] at hs
    exact hp.trans hs.symm

/-- The addition of the queue `u`, to both parsers. -/
theorem Alone.addQueue {u : Nat} {p s : RingParser} (h : Alone u p s) {q : QueueInfo}
    (hq : q.uid = u) : Alone u (p.addQueue q) (s.addQueue q) := by
  have htidy : Tidy (p.addQueue q) := h.tidy.step (.addQueue q)
  have htidyAlone : Tidy (s.addQueue q) := h.tidyAlone.step (.addQueue q)
  by_cases hacc : Accepted q
  · rw [RingParser.addQueue_of_accepted hacc] at htidy htidyAlone ⊢
    rw [RingParser.addQueue_of_accepted hacc]
    refine ⟨htidy, htidyAlone, fun t ht => ?_, ?_, h.retired⟩
    · rw [← List.append_assoc] at ht
      rcases List.mem_append.1 ht with ht | ht
      · exact h.only t ht
      · rw [List.mem_singleton.1 ht]
        exact hq
    · have hnew : ∀ n, statesOf u [⟨n, QueueState.new q⟩] = [QueueState.new q] := by
        intro n
        simp [statesOf, QueueState.new, hq]
      simp only [statesOf_append, hnew, h.queues]
  · rw [RingParser.addQueue_of_not_accepted hacc, RingParser.addQueue_of_not_accepted hacc]
    exact h

/-- The addition of another queue. -/
theorem Alone.addOther {u : Nat} {p s : RingParser} (h : Alone u p s) {q : QueueInfo}
    (hq : q.uid ≠ u) : Alone u (p.addQueue q) s := by
  have htidy : Tidy (p.addQueue q) := h.tidy.step (.addQueue q)
  by_cases hacc : Accepted q
  · rw [RingParser.addQueue_of_accepted hacc] at htidy ⊢
    refine ⟨htidy, h.tidyAlone, h.only, ?_, h.retired⟩
    have hnew : statesOf u [⟨p.added, QueueState.new q⟩] = [] := by
      simp [statesOf, QueueState.new, hq]
    simp only [statesOf_append, hnew, h.queues, List.append_nil]
  · rw [RingParser.addQueue_of_not_accepted hacc]
    exact h

theorem alone_run (u : Nat) (inputs : List ParserInput) :
    Alone u (Trace.run RingParser.stepByUid {} inputs).1
        (Trace.run RingParser.stepByUid {} (inputs.filter (ParserInput.concerns u))).1 ∧
      deliveredFor u (Trace.run RingParser.stepByUid {} inputs).2 =
        deliveredFor u
          (Trace.run RingParser.stepByUid {} (inputs.filter (ParserInput.concerns u))).2 := by
  induction inputs using List.reverseRecOn with
  | nil =>
      have htidy : Tidy {} := ⟨List.nodup_nil, List.forall_mem_nil _, List.forall_mem_nil _⟩
      exact ⟨⟨htidy, htidy, List.forall_mem_nil _, rfl, rfl⟩, rfl⟩
  | append_singleton inputs i ih =>
      obtain ⟨halone, hdel⟩ := ih
      rw [Trace.run_snoc, List.filter_append]
      cases i with
      | iterate alive obs =>
          rw [show [ParserInput.iterate alive obs].filter (ParserInput.concerns u) =
            [ParserInput.iterate alive obs] from rfl, Trace.run_snoc]
          obtain ⟨hnext, hnew⟩ := halone.iterate alive obs
          rw [deliveredFor_append, deliveredFor_append, hdel, hnew]
          exact ⟨hnext, rfl⟩
      | addQueue q =>
          by_cases hq : q.uid = u
          · rw [List.filter_cons_of_pos (by simpa [ParserInput.concerns] using hq), List.filter_nil,
              Trace.run_snoc, deliveredFor_append, deliveredFor_append, hdel]
            exact ⟨halone.addQueue hq, rfl⟩
          · rw [List.filter_cons_of_neg (by simpa [ParserInput.concerns] using hq), List.filter_nil,
              List.append_nil, deliveredFor_append, hdel]
            exact ⟨halone.addOther hq, List.append_nil _⟩

/-- **Queues do not interfere.** For every sequence of additions and iterations and every observation
    of each queue, the records delivered with queue uid `u` are those a parser delivers that is only
    given the queue `u` and the same observations of it; and at every point that parser tracks the
    queue, in the same state, exactly as long as this one does. -/
theorem queues_isolated (u : Nat) (inputs : List ParserInput) :
    let all := Trace.run RingParser.stepByUid {} inputs
    let alone := Trace.run RingParser.stepByUid {} (inputs.filter (ParserInput.concerns u))
    deliveredFor u all.2 = deliveredFor u alone.2 ∧
      statesOf u all.1.queues = alone.1.queues.map Tracked.state ∧
      statesOf u all.1.retired = alone.1.retired.map Tracked.state := by
  intro all alone
  obtain ⟨halone, hdel⟩ := alone_run u inputs
  have hself : ∀ ts : List Tracked, (∀ t ∈ ts, t.state.info.uid = u) →
      statesOf u ts = ts.map Tracked.state := by
    intro ts hts
    rw [statesOf, List.filter_eq_self]
    intro qs hqs
    obtain ⟨t, ht, rfl⟩ := List.mem_map.1 hqs
    simpa using hts t ht
  refine ⟨hdel, halone.queues.symm.trans (hself _ fun t ht => ?_),
    halone.retired.symm.trans (hself _ fun t ht => ?_)⟩
  · exact halone.only t (List.mem_append_right _ ht)
  · exact halone.only t (List.mem_append_left _ ht)

end HsaSnoop
