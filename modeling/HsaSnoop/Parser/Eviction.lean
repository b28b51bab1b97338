import Mathlib.Data.List.Nodup
import HsaSnoop.Parser.Run

set_option autoImplicit false

/-! # Eviction

A visit sets `evict` when it finds the process gone, or when its poll is the 50th in a row that cannot
read both pointers; the end of the iteration erases the queue. `eviction_exact` follows one queue through
a run of the whole parser: what it was *looked at* with since it was added decides whether it is still
tracked, and up to the evicting look every iteration polled it once. -/

namespace HsaSnoop

/-! ## One visit -/

/-- A visit evicts a queue: its process is gone, or its pointers cannot be read once too often. -/
def Evicts (alive : Bool) (o : PollObs) (qs : QueueState) : Prop :=
  alive = false ∨ o.pointers? = none ∧ kEvictThreshold ≤ qs.readFailCount + 1

theorem pollQueue_evict {qs : QueueState} (h : qs.evict = false) (o : PollObs) :
    (pollQueue qs o).1.evict = true ↔ o.pointers? = none ∧ kEvictThreshold ≤ qs.readFailCount + 1 := by
  refine pollQueue_elim qs o (fun qs' es hcase => ?_)
  cases hcase with
  | failed unread =>
      have hnone := PollObs.pointers?_eq_none.2 unread
      simp [QueueState.readFailed, h, hnone]
  | primes hw hr fresh => simp [h, PollObs.pointers?, hw, hr]
  | polled hw hr primed steps drained last stopped =>
      rw [(PollMove.frame_steps steps).2.2.2, h]
      simp [PollObs.pointers?, hw, hr]

theorem pollSdmaQueue_evict {qs : QueueState} (h : qs.evict = false) (o : PollObs) :
    (pollSdmaQueue qs o).1.evict = true ↔
      o.pointers? = none ∧ kEvictThreshold ≤ qs.readFailCount + 1 := by
  cases hptr : o.pointers? with
  | none =>
      have hpoll : pollSdmaQueue qs o = (qs.readFailed, []) := by
        rcases PollObs.pointers?_eq_none.1 hptr with hw | hr
        · simp [pollSdmaQueue, hw]
        · simp [pollSdmaQueue, hr]
      simp [hpoll, QueueState.readFailed, h]
  | some p =>
      have hkept : (pollSdmaQueue qs o).1.evict = false := by
        refine pollSdmaQueue_elim qs o (fun qs' es hcase => ?_)
        cases hcase with
        | failed unread =>
            rw [PollObs.dwords?, hptr] at unread
            cases unread
        | noRing none => exact h
        | primes read ring fresh => exact h
        | polled read ring primed decode stopped drain nextId drained last =>
            exact (SdmaMove.frame_steps (decode.trans drain)).2.2.2.trans h
      simp [hkept]

theorem visit_evict {qs : QueueState} (h : qs.evict = false) (alive : Bool) (o : PollObs) :
    (visit alive o qs).1.evict = true ↔ Evicts alive o qs := by
  rw [visit, h, if_neg Bool.false_ne_true, Evicts]
  cases alive with
  | false => simp
  | true =>
      rw [Bool.not_true, if_neg Bool.false_ne_true]
      cases qs.info.isSdma with
      | true => simpa using pollSdmaQueue_evict h o
      | false => simpa using pollQueue_evict h o

theorem visit_info (alive : Bool) (o : PollObs) (qs : QueueState) : (visit alive o qs).1.info = qs.info := by
  rw [visit]
  split
  · rfl
  · split
    · rfl
    · split
      · exact pollSdmaQueue_info qs o
      · exact pollQueue_info qs o

/-- The poll of a queue of this kind. -/
def pollOf (q : QueueInfo) : QueueState → PollObs → QueueState × List Event :=
  if q.isSdma then pollSdmaQueue else pollQueue

theorem pollOf_evict {q : QueueInfo} {qs : QueueState} (h : qs.evict = false) (o : PollObs) :
    (pollOf q qs o).1.evict = true ↔
      o.pointers? = none ∧ kEvictThreshold ≤ qs.readFailCount + 1 := by
  unfold pollOf
  split
  · exact pollSdmaQueue_evict h o
  · exact pollQueue_evict h o

theorem pollOf_info (q : QueueInfo) (qs : QueueState) (o : PollObs) :
    (pollOf q qs o).1.info = qs.info := by
  unfold pollOf
  split
  · exact pollSdmaQueue_info qs o
  · exact pollQueue_info qs o

/-- Once the pointers were read the streak is over. -/
def ReadEndsStreak (qs : QueueState) (es : List Event) : Prop :=
  (∃ e ∈ es, e.rptr? ≠ none) → qs.readFailCount = 0

theorem ReadEndsStreak.keep {qs qs' : QueueState} {es fs : List Event} (h : ReadEndsStreak qs es)
    (hfs : ∀ e ∈ fs, e.rptr? = none) (hcount : qs'.readFailCount = qs.readFailCount) :
    ReadEndsStreak qs' (es ++ fs) := by
  rintro ⟨e, he, hread⟩
  rw [hcount]
  rcases List.mem_append.1 he with he | he
  · exact h ⟨e, he, hread⟩
  · exact absurd (hfs e he) hread

theorem PollMove.readEndsStreak {o : PollObs} {wptr rptr : Nat} {qs qs' : QueueState}
    {es fs : List Event} (h : ReadEndsStreak qs es) (hmove : PollMove o wptr rptr qs fs qs') :
    ReadEndsStreak qs' (es ++ fs) := by
  cases hmove with
  | start => exact fun _ => rfl
  | drain => exact h.keep (List.forall_mem_map.2 (fun _ _ => rfl)) rfl
  | _ => exact h.keep (by simp) rfl

theorem SdmaMove.readEndsStreak {o : PollObs} {wptr rptr : Nat} {qs qs' : QueueState}
    {es fs : List Event} (h : ReadEndsStreak qs es) (hmove : SdmaMove o wptr rptr qs fs qs') :
    ReadEndsStreak qs' (es ++ fs) := by
  cases hmove with
  | start => exact fun _ => rfl
  | drain => exact h.keep (List.forall_mem_map.2 (fun _ _ => rfl)) rfl
  | _ => exact h.keep (by simp) rfl

theorem readEndsStreak_nil (qs : QueueState) : ReadEndsStreak qs [] := by
  rintro ⟨e, he, -⟩
  cases he

theorem pollQueue_readFailCount (qs : QueueState) (o : PollObs) :
    (pollQueue qs o).1.readFailCount = if o.pointers? = none then qs.readFailCount + 1 else 0 := by
  refine pollQueue_elim qs o (fun qs' es hcase => ?_)
  cases hcase with
  | failed unread => rw [if_pos (PollObs.pointers?_eq_none.2 unread), QueueState.readFailed]
  | primes hw hr fresh => simp [PollObs.pointers?, hw, hr]
  | @polled w r qs' es hw hr primed steps drained last stopped trace =>
      have hend := steps.invariant ReadEndsStreak (fun _ _ _ _ hs hmove => hmove.readEndsStreak hs)
        (readEndsStreak_nil qs)
      obtain ⟨gs, rfl, -⟩ := trace
      rw [if_neg (by simp [PollObs.pointers?, hw, hr])]
      exact hend ⟨.pointers w.toNat r.toNat, by simp, by simp⟩

theorem pollSdmaQueue_readFailCount (qs : QueueState) (o : PollObs) :
    (pollSdmaQueue qs o).1.readFailCount =
      if o.pointers? = none then qs.readFailCount + 1 else 0 := by
  have hnone : o.dwords? = none ↔ o.pointers? = none := by simp [PollObs.dwords?]
  by_cases hptr : o.pointers? = none
  · have hpoll : pollSdmaQueue qs o = (qs.readFailed, []) := by
      rcases PollObs.pointers?_eq_none.1 hptr with hw | hr
      · simp [pollSdmaQueue, hw]
      · simp [pollSdmaQueue, hr]
    rw [if_pos hptr, hpoll, QueueState.readFailed]
  · rw [if_neg hptr]
    refine pollSdmaQueue_elim qs o (fun qs' es hcase => ?_)
    cases hcase with
    | failed unread => exact absurd (hnone.1 unread) hptr
    | noRing none => rfl
    | primes read ring fresh => rfl
    | @polled w r mid qs' fs gs read ring primed decode stopped drain nextId drained last trace =>
        have hend := (decode.trans drain).invariant ReadEndsStreak
          (fun _ _ _ _ hs hmove => hmove.readEndsStreak hs) (readEndsStreak_nil qs)
        obtain ⟨hs, heq, -⟩ := trace
        rw [heq] at hend
        exact hend ⟨.pointers w r, by simp, by simp⟩

/-- A poll that fails to read a pointer lengthens the streak, any other ends it. -/
theorem pollOf_readFailCount (q : QueueInfo) (qs : QueueState) (o : PollObs) :
    (pollOf q qs o).1.readFailCount = if o.pointers? = none then qs.readFailCount + 1 else 0 := by
  unfold pollOf
  split
  · exact pollSdmaQueue_readFailCount qs o
  · exact pollQueue_readFailCount qs o

/-- A queue that is kept was polled, and the visit did what its poll does. -/
theorem visit_of_kept {qs : QueueState} (h : qs.evict = false) {alive : Bool} {o : PollObs}
    (hkept : ¬ Evicts alive o qs) : visit alive o qs = pollOf qs.info qs o := by
  have halive : alive = true := by
    by_contra hdead
    exact hkept (Or.inl (eq_false_of_ne_true hdead))
  subst halive
  rw [visit, h]
  unfold pollOf
  cases qs.info.isSdma <;> rfl

/-- An evicting visit reports nothing. -/
theorem visit_of_evicts {qs : QueueState} (h : qs.evict = false) {alive : Bool} {o : PollObs}
    (hevicts : Evicts alive o qs) : (visit alive o qs).2 = [] := by
  rw [visit, h, if_neg Bool.false_ne_true]
  cases alive with
  | false => rfl
  | true =>
      obtain hptr : o.pointers? = none := by
        rcases hevicts with hdead | ⟨hptr, -⟩
        · cases hdead
        · exact hptr
      rcases PollObs.pointers?_eq_none.1 hptr with hw | hr
      · simp [pollSdmaQueue, pollQueue, hw]
      · simp [pollSdmaQueue, pollQueue, hr]

/-! ## What a queue is looked at with -/

/-- What an iteration finds of one queue. -/
structure Look where
  alive : Bool
  obs : PollObs

/-- What an iteration finds of the queue with handle `h`. -/
def ParserInput.look? (h : Nat) : ParserInput → Option Look
  | .addQueue _ => none
  | .iterate alive obs => some ⟨alive h, obs h⟩

def looksAt (h : Nat) (is : List ParserInput) : List Look := is.filterMap (ParserInput.look? h)

/-- How many looks at the end failed to read both pointers. -/
def failStreak (ls : List Look) : Nat :=
  (ls.reverse.takeWhile (fun l => l.obs.pointers?.isNone)).length

/-- The last of these looks evicts: it finds the process gone, or it completes a streak of failures. -/
def evictsAfter (before : List Look) (l : Look) : Bool :=
  !l.alive || decide (kEvictThreshold ≤ failStreak (before ++ [l]))

/-- None of these looks evicts. -/
def Kept (ls : List Look) : Prop :=
  ∀ before l after, ls = before ++ l :: after → evictsAfter before l = false

theorem kept_nil : Kept [] := by
  intro before l after hsplit
  cases before <;> cases hsplit

theorem kept_snoc {ls : List Look} {l : Look} :
    Kept (ls ++ [l]) ↔ Kept ls ∧ evictsAfter ls l = false := by
  constructor
  · intro h
    refine ⟨fun before l' after hsplit => ?_, h ls l [] rfl⟩
    exact h before l' (after ++ [l]) (by simp [hsplit])
  · rintro ⟨hkept, hlast⟩ before l' after hsplit
    rcases List.eq_nil_or_concat after with rfl | ⟨after', x, rfl⟩
    · obtain ⟨rfl, hl⟩ := List.append_inj' hsplit rfl
      obtain rfl := List.singleton_inj.1 hl
      exact hlast
    · rw [List.concat_eq_append, ← List.cons_append, ← List.append_assoc] at hsplit
      exact hkept before l' after' (List.append_inj' hsplit rfl).1

theorem failStreak_snoc (ls : List Look) (l : Look) :
    failStreak (ls ++ [l]) = if l.obs.pointers? = none then failStreak ls + 1 else 0 := by
  unfold failStreak
  cases hptr : l.obs.pointers? with
  | none => simp [hptr]
  | some p => simp [hptr]

/-- The state and the events of a queue that was polled once for each of these looks. -/
def polledFor (q : QueueInfo) (ls : List Look) : QueueState × List Event :=
  Trace.run (pollOf q) (QueueState.new q) (ls.map Look.obs)

theorem polledFor_snoc (q : QueueInfo) (ls : List Look) (l : Look) :
    polledFor q (ls ++ [l]) =
      ((pollOf q (polledFor q ls).1 l.obs).1,
        (polledFor q ls).2 ++ (pollOf q (polledFor q ls).1 l.obs).2) := by
  simp [polledFor, Trace.run_snoc]

/-- The counter in the queue state is the streak of the looks. -/
theorem polledFor_counts (q : QueueInfo) {ls : List Look} (h : Kept ls) :
    (polledFor q ls).1.info = q ∧ (polledFor q ls).1.evict = false ∧
      (polledFor q ls).1.readFailCount = failStreak ls := by
  induction ls using List.reverseRecOn with
  | nil => exact ⟨rfl, rfl, rfl⟩
  | append_singleton ls l ih =>
      obtain ⟨hkept, hlast⟩ := kept_snoc.1 h
      obtain ⟨hinfo, hevict, hcount⟩ := ih hkept
      rw [polledFor_snoc]
      refine ⟨(pollOf_info q _ _).trans hinfo, ?_, ?_⟩
      · rw [evictsAfter, Bool.or_eq_false_iff, decide_eq_false_iff_not, failStreak_snoc] at hlast
        rw [← Bool.not_eq_true, pollOf_evict hevict, hcount]
        rintro ⟨hptr, hstreak⟩
        rw [if_pos hptr] at hlast
        exact hlast.2 hstreak
      · rw [pollOf_readFailCount, failStreak_snoc, hcount]

/-- The next visit evicts exactly when the next look does. -/
theorem evicts_iff (q : QueueInfo) {ls : List Look} (h : Kept ls) (l : Look) :
    Evicts l.alive l.obs (polledFor q ls).1 ↔ evictsAfter ls l = true := by
  obtain ⟨-, -, hcount⟩ := polledFor_counts q h
  rw [evictsAfter, Bool.or_eq_true, decide_eq_true_eq, failStreak_snoc, Evicts, hcount,
    Bool.not_eq_true']
  by_cases hptr : l.obs.pointers? = none
  · simp [hptr]
  · simp [hptr, kEvictThreshold]

/-- A sequence of looks has at most one first look that evicts. -/
theorem first_eviction_unique {before before' after after' : List Look} {l l' : Look}
    (heq : before ++ l :: after = before' ++ l' :: after') (hkept : Kept before)
    (hkept' : Kept before') (hevicts : evictsAfter before l = true)
    (hevicts' : evictsAfter before' l' = true) : before = before' := by
  rcases List.append_eq_append_iff.1 heq with ⟨mid, rfl, hmid⟩ | ⟨mid, rfl, hmid⟩
  · cases mid with
    | nil => simp
    | cons x mid =>
        obtain ⟨rfl, -⟩ := List.cons.inj hmid
        rw [hkept' before l mid rfl] at hevicts
        cases hevicts
  · cases mid with
    | nil => simp
    | cons x mid =>
        obtain ⟨rfl, -⟩ := List.cons.inj hmid
        rw [hkept before' l' mid rfl] at hevicts'
        cases hevicts'

/-! ## One queue in a run of the parser -/

/-- No queue with this handle is tracked. -/
def RingParser.Gone (p : RingParser) (h : Nat) : Prop := ∀ t ∈ p.queues, t.handle ≠ h

/-- An iteration visits a tracked queue once, and erases it if the visit evicts it. -/
theorem iterate_tracked {p : RingParser} (hnd : (p.queues.map Tracked.handle).Nodup) {h : Nat}
    {qs : QueueState} (ht : ⟨h, qs⟩ ∈ p.queues) (alive : Nat → Bool) (obs : Nat → PollObs) :
    eventsOf h (p.step (.iterate alive obs)).2 = (visit (alive h) (obs h) qs).2 ∧
      ((visit (alive h) (obs h) qs).1.evict = false →
        ⟨h, (visit (alive h) (obs h) qs).1⟩ ∈ (p.step (.iterate alive obs)).1.queues) ∧
      ((visit (alive h) (obs h) qs).1.evict = true → (p.step (.iterate alive obs)).1.Gone h) := by
  refine ⟨?_, fun hkept => ?_, fun hevicts u hu heq => ?_⟩
  · exact eventsOf_flatMap hnd
      (fun t => (visit (alive t.handle) (obs t.handle) t.state).2) ht
  · refine List.mem_filter.2 ⟨List.mem_map.2 ⟨⟨h, qs⟩, ht, rfl⟩, ?_⟩
    simp [hkept]
  · obtain ⟨hmem, hstays⟩ := List.mem_filter.1 hu
    obtain ⟨t, hmem', rfl⟩ := List.mem_map.1 hmem
    have hsame : t = ⟨h, qs⟩ := List.inj_on_of_nodup_map hnd hmem' ht heq
    subst hsame
    simp only [hevicts, Bool.not_true, Bool.false_eq_true] at hstays

/-- What is not tracked is not visited. -/
theorem iterate_gone {p : RingParser} {h : Nat} (hgone : p.Gone h) (alive : Nat → Bool)
    (obs : Nat → PollObs) :
    eventsOf h (p.step (.iterate alive obs)).2 = [] ∧
      (p.step (.iterate alive obs)).1.Gone h := by
  refine ⟨eventsOf_eq_nil (fun x hx heq => ?_), fun u hu heq => ?_⟩
  · obtain ⟨t, ht, hx⟩ := List.mem_flatMap.1 hx
    obtain ⟨e, -, rfl⟩ := List.mem_map.1 hx
    exact hgone t ht heq
  · obtain ⟨t, ht, rfl⟩ := List.mem_map.1 (List.mem_filter.1 hu).1
    exact hgone t ht heq

/-- The parser, and the events so far, at a queue with handle `h` that was looked at with `ls`: it is
    tracked and was polled once for each look, or it was polled once for each look before the first one
    that evicted it. -/
inductive Followed (q : QueueInfo) (h : Nat) (ls : List Look) (p : RingParser)
    (es : List (Nat × Event)) : Prop
  | tracked (kept : Kept ls) (mem : ⟨h, (polledFor q ls).1⟩ ∈ p.queues)
      (events : eventsOf h es = (polledFor q ls).2)
  | gone {before after : List Look} {l : Look} (split : ls = before ++ l :: after)
      (kept : Kept before) (evicts : evictsAfter before l = true) (erased : p.Gone h)
      (events : eventsOf h es = (polledFor q before).2)

theorem Followed.addQueue {q : QueueInfo} {h : Nat} {ls : List Look} {p : RingParser}
    {es : List (Nat × Event)} (hf : Followed q h ls p es) (hlt : h < p.added) (q' : QueueInfo) :
    Followed q h ls (p.addQueue q') es := by
  unfold RingParser.addQueue
  split
  · exact hf
  · cases hf with
    | tracked kept mem events => exact .tracked kept (List.mem_append_left _ mem) events
    | gone split kept evicts erased events =>
        refine .gone split kept evicts (fun t ht => ?_) events
        rcases List.mem_append.1 ht with ht | ht
        · exact erased t ht
        · obtain rfl := List.mem_singleton.1 ht
          exact Nat.ne_of_gt hlt

theorem Followed.iterate {q : QueueInfo} {h : Nat} {ls : List Look} {p : RingParser}
    {es : List (Nat × Event)} (hf : Followed q h ls p es)
    (hnd : (p.queues.map Tracked.handle).Nodup) (alive : Nat → Bool) (obs : Nat → PollObs) :
    Followed q h (ls ++ [⟨alive h, obs h⟩]) (p.step (.iterate alive obs)).1
      (es ++ (p.step (.iterate alive obs)).2) := by
  cases hf with
  | tracked kept mem events =>
      obtain ⟨hevents, hstays, herased⟩ := iterate_tracked hnd mem alive obs
      obtain ⟨hinfo, hevict, -⟩ := polledFor_counts q kept
      have hiff := evicts_iff q kept ⟨alive h, obs h⟩
      cases hlook : evictsAfter ls ⟨alive h, obs h⟩ with
      | false =>
          have hnot : ¬ Evicts (alive h) (obs h) (polledFor q ls).1 := by
            rw [hiff, hlook]
            exact Bool.false_ne_true
          have hvisit := visit_of_kept hevict hnot
          have hkept := kept_snoc.2 ⟨kept, hlook⟩
          rw [hinfo] at hvisit
          rw [hvisit] at hevents hstays
          refine .tracked hkept ?_ ?_
          · have hsnoc := (polledFor_counts q hkept).2.1
            rw [polledFor_snoc] at hsnoc ⊢
            exact hstays hsnoc
          · rw [eventsOf_append, events, hevents, polledFor_snoc]
      | true =>
          have hevicts := hiff.2 hlook
          refine .gone rfl kept hlook (herased ((visit_evict hevict _ _).2 hevicts)) ?_
          rw [eventsOf_append, events, hevents, visit_of_evicts hevict hevicts, List.append_nil]
  | @gone before after l split kept evicts erased events =>
      obtain ⟨hnone, hgone⟩ := iterate_gone erased alive obs
      have hsplit : ls ++ [⟨alive h, obs h⟩] = before ++ l :: (after ++ [⟨alive h, obs h⟩]) := by
        rw [split, List.append_assoc, List.cons_append]
      refine .gone hsplit kept evicts hgone ?_
      rw [eventsOf_append, events, hnone, List.append_nil]

theorem followed_run {q : QueueInfo} (hq : Accepted q) (pre post : List ParserInput) :
    let h := (Trace.run RingParser.step {} pre).1.added
    let out := Trace.run RingParser.step {} (pre ++ .addQueue q :: post)
    Followed q h (looksAt h post) out.1 out.2 ∧ h < out.1.added := by
  intro h out
  induction post using List.reverseRecOn with
  | nil =>
      have hrun := run_lifted pre
      have hnone : eventsOf h (Trace.run RingParser.step {} pre).2 = [] := by
        refine eventsOf_eq_nil (fun x hx heq => ?_)
        obtain ⟨t, ht, hth⟩ := hrun.owned x hx
        have hlt := hrun.fresh t ht
        omega
      simp only [out, Trace.run_snoc, RingParser.step, RingParser.addQueue_of_accepted hq,
        List.append_nil]
      exact ⟨.tracked kept_nil (by simp [h, polledFor, looksAt])
        (by simpa [polledFor, looksAt] using hnone),
        Nat.lt_succ_self _⟩
  | append_singleton post i ih =>
      obtain ⟨hfollowed, hlt⟩ := ih
      have hrun := run_lifted (pre ++ .addQueue q :: post)
      have hsplit : pre ++ .addQueue q :: (post ++ [i]) = (pre ++ .addQueue q :: post) ++ [i] := by
        simp
      simp only [out, hsplit]
      rw [Trace.run_snoc]
      cases i with
      | addQueue q' =>
          have hlooks : looksAt h (post ++ [.addQueue q']) = looksAt h post := by
            simp [looksAt, ParserInput.look?]
          rw [hlooks]
          simp only [RingParser.step, List.append_nil]
          refine ⟨hfollowed.addQueue hlt q', hlt.trans_le ?_⟩
          unfold RingParser.addQueue
          split
          · exact Nat.le_refl _
          · exact Nat.le_succ _
      | iterate alive obs =>
          have hlooks : looksAt h (post ++ [.iterate alive obs]) =
              looksAt h post ++ [⟨alive h, obs h⟩] := by
            simp [looksAt, ParserInput.look?]
          have hnd := hrun.nodup
          rw [RingParser.destroyed, List.map_append] at hnd
          rw [hlooks]
          exact ⟨hfollowed.iterate (List.nodup_append.1 hnd).2.1 alive obs, hlt⟩

/-- **Eviction happens exactly when it should.** Take any queue, AQL or SDMA, in any run of the parser,
    and the looks that the iterations since its addition had at it. As long as none of them found its
    process gone or completed a streak of 50 failed pointer reads, the queue is tracked, and it was
    polled exactly once for each look. From the first one that did, the queue is erased, and nothing was
    reported for it in that iteration or after. -/
theorem eviction_exact (q : QueueInfo) (hq : Accepted q) (pre post : List ParserInput)
    (h : Nat) (hh : h = (Trace.run RingParser.step {} pre).1.added)
    (p : RingParser) (es : List (Nat × Event))
    (hrun : Trace.run RingParser.step {} (pre ++ .addQueue q :: post) = (p, es)) :
    (Kept (looksAt h post) →
      ⟨h, (polledFor q (looksAt h post)).1⟩ ∈ p.queues ∧
        eventsOf h es = (polledFor q (looksAt h post)).2) ∧
    ∀ before l after, looksAt h post = before ++ l :: after → Kept before →
      evictsAfter before l = true → p.Gone h ∧ eventsOf h es = (polledFor q before).2 := by
  subst hh
  have hfollowed := (followed_run hq pre post).1
  simp only [hrun] at hfollowed
  constructor
  · intro hkept
    cases hfollowed with
    | tracked kept mem events => exact ⟨mem, events⟩
    | gone split kept evicts erased events =>
        rw [hkept _ _ _ split] at evicts
        cases evicts
  · intro before l after hsplit hkept hevicts
    cases hfollowed with
    | tracked kept mem events =>
        rw [kept _ _ _ hsplit] at hevicts
        cases hevicts
    | gone split kept evicts erased events =>
        rw [first_eviction_unique (hsplit.symm.trans split) hkept kept hevicts evicts]
        exact ⟨erased, events⟩

/-- A queue whose process is gone at the first look. -/
theorem eviction_of_dead_process :
    let alive : Nat → Bool := fun _ => false
    let obs : Nat → PollObs := fun _ => .still 1 0 0 dispatchEverywhere
    let out := Trace.run RingParser.step {} ([] ++ .addQueue twoSlots :: [.iterate alive obs])
    out.1.Gone 0 ∧ eventsOf 0 out.2 = [] :=
  (eviction_exact twoSlots rfl [] [.iterate (fun _ => false) (fun _ => .still 1 0 0 dispatchEverywhere)]
    0 rfl _ _ rfl).2 [] _ [] rfl kept_nil rfl

end HsaSnoop
