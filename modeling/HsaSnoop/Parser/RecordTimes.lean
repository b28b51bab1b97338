import HsaSnoop.Library.Fifo
import HsaSnoop.Parser.Accounting
import HsaSnoop.Parser.SdmaAccounting

set_option autoImplicit false

/-! # Record timestamps respect FIFO order

A queue's records, seen as a numbered queue with an express lane: `inflight` is what waits, the records
given to the sink are what is done, and an AQL packet that is already consumed when it is decoded takes
the express lane. A poll is a round, at its `now` and with its read pointer as the line. SDMA packets
all wait.

So the times of the delivered records follow their numbers (`record_times_follow_ids`), also when the
read pointer moves back between polls. -/

namespace HsaSnoop

/-! ## The AQL queue -/

/-- The AQL side of a queue after the events `es`. -/
def aqlFifo (qs : QueueState) (es : List Event) : Fifo.Queue Time where
  waiting := qs.inflight.entries.map (fun e => ⟨e.2.dispatchId, e.2.submitTs⟩)
  done := (sinkRecords es).map (fun rec => ⟨rec.dispatchId, rec.submitTs, rec.completeTs⟩)
  next := qs.nextId

/-- A move of a poll is a move of the queue, in the round of that poll. -/
theorem PollMove.fifo {w0 : Nat} {o : PollObs} {w r : Nat} {qs qs' : QueueState}
    {es fs : List Event} (hw : w < 2 ^ 63) (hacc : Accounted w0 qs es)
    (h : Fifo.During o.now r (aqlFifo qs es)) (hmove : PollMove o w r qs fs qs') :
    Fifo.During o.now r (aqlFifo qs' (es ++ fs)) := by
  have hle := (hmove.nextId_le hw hacc.bound).1
  cases hmove with
  | start => simpa [aqlFifo] using h
  | skip wrapped => simpa [aqlFifo] using h.move (Fifo.Move.skip hle)
  | emit lt inRing consumed decoded =>
      obtain ⟨raw, -, hrec⟩ := decodeSlot_some decoded
      simpa [aqlFifo, PacketRecord.complete, hrec.dispatchId] using h.move (Fifo.Move.pass consumed)
  | park lt inRing waiting decoded =>
      obtain ⟨raw, -, hrec⟩ := decodeSlot_some decoded
      simpa [aqlFifo, OrdMap.entries_emplace_of_forall_lt hacc.keys_lt, hrec.dispatchId] using
        h.move Fifo.Move.wait
  | miss lt inRing consumed undecoded => simpa [aqlFifo] using h.move (Fifo.Move.skip hle)
  | drain =>
      have hsplit : (aqlFifo qs es).waiting =
          (qs.inflight.splitBelow r).1.map (fun e => ⟨e.2.dispatchId, e.2.submitTs⟩) ++
            (qs.inflight.splitBelow r).2.entries.map (fun e => ⟨e.2.dispatchId, e.2.submitTs⟩) := by
        rw [← List.map_append, qs.inflight.splitBelow_append r]
        rfl
      have hmoved := h.move (Fifo.Move.release hsplit)
      simp only [aqlFifo, sinkRecords_append, sinkRecords_drain, List.map_append, List.map_map] at hmoved ⊢
      exact hmoved
  | finish drained => simpa [aqlFifo] using h

/-- Between polls. -/
structure AqlTimed (now : Time) (qs : QueueState) (es : List Event) : Prop where
  booked : Booked qs es
  settled : Fifo.Settled now (aqlFifo qs es)

/-- **A poll at a later time keeps the order.** -/
theorem AqlTimed.poll {now : Time} {qs : QueueState} {es : List Event} (h : AqlTimed now qs es)
    {o : PollObs} (hnow : now ≤ o.now) (ho : o.PointersBelow (2 ^ 63)) :
    AqlTimed o.now (pollQueue qs o).1 (es ++ (pollQueue qs o).2) := by
  refine ⟨h.booked.poll ho, ?_⟩
  have hbook := h.booked
  have hsettled := h.settled.mono hnow
  unfold Booked at hbook
  refine pollQueue_elim qs o (fun qs' fs hcase => ?_)
  cases hcase with
  | failed unread => simpa [aqlFifo, QueueState.readFailed] using hsettled
  | @primes w r hw hr fresh =>
      -- Nothing was reported before the queue was primed.
      split at hbook
      · obtain ⟨-, hinfl, -, hids, -⟩ := hbook
        have hnone : sinkRecords es = [] := List.map_eq_nil_iff.1 hids
        simpa [aqlFifo, hinfl, hnone] using Fifo.settled_empty o.now w.toNat
      · exact absurd hbook.1 (by simp [fresh])
  | @polled w r qs' fs hw hr primed steps drained last stopped trace =>
      split at hbook
      · exact absurd hbook.1 (by simp [primed])
      · next w0 hw0 =>
          obtain ⟨-, hacc, -⟩ := hbook
          have hend := steps.invariant
            (fun s gs => Accounted w0 s gs ∧ Fifo.During o.now r.toNat (aqlFifo s gs))
            (fun s es t gs hs hmove =>
              ⟨hs.1.move (ho.1 w hw) hmove, hmove.fifo (ho.1 w hw) hs.1 hs.2⟩)
            ⟨hacc, hsettled.during r.toNat⟩
          -- What still waits is at or above the read pointer.
          refine hend.2.settled (fun v hv => ?_)
          obtain ⟨e, he, rfl⟩ := List.mem_map.1 hv
          rw [hend.1.tagged e he]
          exact drained e.1 (List.mem_map_of_mem he)

/-! ## The SDMA queue -/

/-- The SDMA side of a queue after the events `es`. -/
def sdmaFifo (qs : QueueState) (es : List Event) : Fifo.Queue Time where
  waiting := qs.sdmaInflight.entries.map (fun e => ⟨e.2.seq, e.2.submitTs⟩)
  done := (sdmaRecords es).map (fun rec => ⟨rec.seq, rec.submitTs, rec.completeTs⟩)
  next := qs.sdmaSeq

theorem submitTs_sdmaRecord (qs : QueueState) (m : ProcMem) (now : Time) (dws : Nat → UInt32)
    (win : Nat) : (sdmaRecord qs m now dws win).1.submitTs = now := by
  unfold sdmaRecord
  extract_lets
  split
  · split <;> rfl
  · rfl

/-- No SDMA packet takes the express lane: the line is 0. -/
theorem SdmaMove.fifo {w0 : Nat} {o : PollObs} {w r : Nat} {qs qs' : QueueState}
    {es fs : List Event} (hacc : SdmaAccounted w0 qs es)
    (h : Fifo.During o.now 0 (sdmaFifo qs es)) (hmove : SdmaMove o w r qs fs qs') :
    Fifo.During o.now 0 (sdmaFifo qs' (es ++ fs)) := by
  cases hmove with
  | start => simpa [sdmaFifo] using h
  | skip wrapped => simpa [sdmaFifo] using h
  | @park dws rec pageHost window known whole made =>
      have hkeys : ∀ k ∈ qs.sdmaInflight.keys, k < qs.nextId + windowLen w qs dws := by
        intro k hk
        have hle := hacc.keys_le k hk
        omega
      have hseq := made ▸ seq_sdmaRecord qs (o.mem qs.nextId) o.now dws (sdmaWindow w qs)
      have hsubmit := made ▸ submitTs_sdmaRecord qs (o.mem qs.nextId) o.now dws (sdmaWindow w qs)
      simpa [sdmaFifo, OrdMap.entries_emplace_of_forall_lt hkeys, hseq, hsubmit] using
        h.move Fifo.Move.wait
  | resync window unknown enough => simpa [sdmaFifo] using h
  | drain =>
      have hsplit : (sdmaFifo qs es).waiting =
          (qs.sdmaInflight.splitBelow (r + 1)).1.map (fun e => ⟨e.2.seq, e.2.submitTs⟩) ++
            (qs.sdmaInflight.splitBelow (r + 1)).2.entries.map
              (fun e => ⟨e.2.seq, e.2.submitTs⟩) := by
        rw [← List.map_append, qs.sdmaInflight.splitBelow_append (r + 1)]
        rfl
      have hmoved := h.move (Fifo.Move.release hsplit)
      simp only [sdmaFifo, sdmaRecords_append, sdmaRecords_drain, List.map_append, List.map_map] at hmoved ⊢
      exact hmoved
  | finish drained => simpa [sdmaFifo] using h

/-- Between polls. -/
structure SdmaTimed (now : Time) (qs : QueueState) (es : List Event) : Prop where
  booked : SdmaBooked qs es
  settled : Fifo.Settled now (sdmaFifo qs es)

theorem SdmaTimed.poll {now : Time} {qs : QueueState} {es : List Event} (h : SdmaTimed now qs es)
    {o : PollObs} (hnow : now ≤ o.now) :
    SdmaTimed o.now (pollSdmaQueue qs o).1 (es ++ (pollSdmaQueue qs o).2) := by
  refine ⟨h.booked.poll o, ?_⟩
  have hbook := h.booked
  have hsettled := h.settled.mono hnow
  unfold SdmaBooked at hbook
  refine pollSdmaQueue_elim qs o (fun qs' fs hcase => ?_)
  cases hcase with
  | failed unread => simpa [sdmaFifo, QueueState.readFailed] using hsettled
  | noRing none => simpa [sdmaFifo] using hsettled
  | primes read ring fresh => simpa [sdmaFifo] using hsettled
  | @polled w r mid qs' fs gs read ring primed decode stopped drain nextId drained last trace =>
      split at hbook
      · exact absurd hbook.1 (by simp [primed])
      · next w0 hw0 =>
          obtain ⟨-, hacc, -⟩ := hbook
          have hw := (PollObs.dwords_lt read).1
          have hend := (decode.trans drain).invariant
            (fun s gs => SdmaAccounted w0 s gs ∧ Fifo.During o.now 0 (sdmaFifo s gs))
            (fun s es t gs hs hmove => ⟨hs.1.move hw hmove, hmove.fifo hs.1 hs.2⟩)
            ⟨hacc, hsettled.during 0⟩
          exact hend.2.settled (fun v _ => Nat.zero_le v.id)

/-! ## Everything delivered is completed -/

theorem pollQueue_completed (qs : QueueState) (o : PollObs) :
    ∀ rec ∈ sinkRecords (pollQueue qs o).2, rec.completed = true := by
  refine pollQueue_elim qs o (fun qs' fs hcase => ?_)
  cases hcase with
  | failed unread => simp
  | primes hw hr fresh => simp
  | polled hw hr primed steps drained last stopped trace =>
      have hempty : ∀ rec ∈ sinkRecords [], rec.completed = true := by simp
      refine steps.invariant (fun _ gs => ∀ rec ∈ sinkRecords gs, rec.completed = true)
        (fun s es t gs hs hmove => ?_) hempty
      rw [sinkRecords_append, List.forall_mem_append]
      refine ⟨hs, ?_⟩
      cases hmove with
      | drain =>
          rw [sinkRecords_drain]
          intro rec hrec
          obtain ⟨e, -, rfl⟩ := List.mem_map.1 hrec
          rfl
      | _ => simp

theorem pollSdmaQueue_completed (qs : QueueState) (o : PollObs) :
    ∀ rec ∈ sdmaRecords (pollSdmaQueue qs o).2, rec.completed = true := by
  refine pollSdmaQueue_elim qs o (fun qs' fs hcase => ?_)
  cases hcase with
  | failed unread => simp
  | noRing none => simp
  | primes read ring fresh => simp
  | polled read ring primed decode stopped drain nextId drained last trace =>
      have hempty : ∀ rec ∈ sdmaRecords [], rec.completed = true := by simp
      refine (decode.trans drain).invariant
        (fun _ gs => ∀ rec ∈ sdmaRecords gs, rec.completed = true)
        (fun s es t gs hs hmove => ?_) hempty
      rw [sdmaRecords_append, List.forall_mem_append]
      refine ⟨hs, ?_⟩
      cases hmove with
      | drain =>
          rw [sdmaRecords_drain]
          intro rec hrec
          obtain ⟨e, -, rfl⟩ := List.mem_map.1 hrec
          rfl
      | _ => simp

/-! ## Runs -/

/-- The clock of a sequence of polls does not run backwards. -/
def ClockForward (os : List PollObs) : Prop := (os.map PollObs.now).Pairwise (· ≤ ·)

instance (os : List PollObs) : Decidable (ClockForward os) :=
  inferInstanceAs (Decidable (List.Pairwise _ _))

/-- An invariant that holds up to a time, from one poll to a run. -/
theorem run_timed {poll : QueueState → PollObs → QueueState × List Event}
    {P : Time → QueueState → List Event → Prop} {C : PollObs → Prop} {qs : QueueState}
    (init : ∀ now, P now qs [])
    (later : ∀ now now' s es, now ≤ now' → P now s es → P now' s es)
    (preserve : ∀ s es o, P o.now s es → C o → P o.now (poll s o).1 (es ++ (poll s o).2))
    {os : List PollObs} (hclock : ClockForward os) (hos : ∀ o ∈ os, C o) {now : Time}
    (hnow : ∀ o ∈ os, o.now ≤ now) : P now (Trace.run poll qs os).1 (Trace.run poll qs os).2 := by
  induction os using List.reverseRecOn generalizing now with
  | nil => exact init now
  | append_singleton os o ih =>
      unfold ClockForward at hclock
      rw [List.map_append, List.pairwise_append] at hclock
      have hbefore : ∀ p ∈ os, p.now ≤ o.now := fun p hp =>
        hclock.2.2 p.now (List.mem_map_of_mem hp) o.now (by simp)
      have hrun := ih hclock.1 (fun p hp => hos p (List.mem_append_left _ hp)) hbefore
      rw [Trace.run_snoc]
      exact later o.now now _ _ (hnow o (by simp)) (preserve _ _ o hrun (hos o (by simp)))

theorem aqlTimed_run (q : QueueInfo) {os : List PollObs} (hclock : ClockForward os)
    (hos : ∀ o ∈ os, o.PointersBelow (2 ^ 63)) {now : Time} (hnow : ∀ o ∈ os, o.now ≤ now) :
    AqlTimed now (Trace.run pollQueue (QueueState.new q) os).1
      (Trace.run pollQueue (QueueState.new q) os).2 :=
  run_timed (fun now => ⟨booked_new q, Fifo.settled_empty now 0⟩)
    (fun _ _ _ _ hle h => ⟨h.booked, h.settled.mono hle⟩)
    (fun _ _ o h ho => h.poll (le_refl o.now) ho) hclock hos hnow

theorem sdmaTimed_run (q : QueueInfo) {os : List PollObs} (hclock : ClockForward os) {now : Time}
    (hnow : ∀ o ∈ os, o.now ≤ now) :
    SdmaTimed now (Trace.run pollSdmaQueue (QueueState.new q) os).1
      (Trace.run pollSdmaQueue (QueueState.new q) os).2 :=
  run_timed (C := fun _ => True) (fun now => ⟨sdmaBooked_run q [], Fifo.settled_empty now 0⟩)
    (fun _ _ _ _ hle h => ⟨h.booked, h.settled.mono hle⟩)
    (fun _ _ o h _ => h.poll (le_refl o.now)) hclock (fun _ _ => trivial) hnow

/-- The polls of a sequence have a last time. -/
theorem exists_now_ge (os : List PollObs) : ∃ now, ∀ o ∈ os, o.now ≤ now := by
  induction os with
  | nil => exact ⟨0, by simp⟩
  | cons o os ih =>
      obtain ⟨now, hnow⟩ := ih
      refine ⟨max o.now now, fun p hp => ?_⟩
      rcases List.mem_cons.1 hp with rfl | hp
      · exact le_max_left _ _
      · exact (hnow p hp).trans (le_max_right _ _)

/-- **The times of delivered records follow their numbers.** In every sequence of polls on a clock that
    does not run backwards, whatever the pointers below `2^63`, the ring contents and the read failures:
    every delivered record is completed, no earlier than it was submitted; and of two delivered records
    of a queue the one with the smaller `dispatch_id` (or `seq`) was submitted and completed no later. -/
theorem record_times_follow_ids (q : QueueInfo) (os : List PollObs) (hclock : ClockForward os)
    (hos : ∀ o ∈ os, o.PointersBelow (2 ^ 63)) :
    (∀ recs, recs = sinkRecords (Trace.run pollQueue (QueueState.new q) os).2 →
      (∀ rec ∈ recs, rec.completed = true ∧ rec.submitTs ≤ rec.completeTs) ∧
        ∀ a ∈ recs, ∀ b ∈ recs, a.dispatchId < b.dispatchId →
          a.submitTs ≤ b.submitTs ∧ a.completeTs ≤ b.completeTs) ∧
    (∀ recs, recs = sdmaRecords (Trace.run pollSdmaQueue (QueueState.new q) os).2 →
      (∀ rec ∈ recs, rec.completed = true ∧ rec.submitTs ≤ rec.completeTs) ∧
        ∀ a ∈ recs, ∀ b ∈ recs, a.seq < b.seq →
          a.submitTs ≤ b.submitTs ∧ a.completeTs ≤ b.completeTs) := by
  obtain ⟨now, hnow⟩ := exists_now_ge os
  refine ⟨?_, ?_⟩ <;> rintro recs rfl
  · obtain ⟨hstamps, hordered⟩ := (aqlTimed_run q hclock hos hnow).settled.ordered
    have hcompleted := Trace.run_invariant
      (fun (_ : QueueState) es => ∀ rec ∈ sinkRecords es, rec.completed = true)
      (s := QueueState.new q) (by simp)
      (fun qs es o h => by
        rw [sinkRecords_append, List.forall_mem_append]
        exact ⟨h, pollQueue_completed qs o⟩) os
    refine ⟨fun rec hrec => ⟨hcompleted rec hrec, ?_⟩, fun a ha b hb hlt => ?_⟩
    · exact hstamps _ (List.mem_map_of_mem hrec)
    · exact hordered _ (List.mem_map_of_mem ha) _ (List.mem_map_of_mem hb) hlt
  · obtain ⟨hstamps, hordered⟩ := (sdmaTimed_run q hclock hnow).settled.ordered
    have hcompleted := Trace.run_invariant
      (fun (_ : QueueState) es => ∀ rec ∈ sdmaRecords es, rec.completed = true)
      (s := QueueState.new q) (by simp)
      (fun qs es o h => by
        rw [sdmaRecords_append, List.forall_mem_append]
        exact ⟨h, pollSdmaQueue_completed qs o⟩) os
    refine ⟨fun rec hrec => ⟨hcompleted rec hrec, ?_⟩, fun a ha b hb hlt => ?_⟩
    · exact hstamps _ (List.mem_map_of_mem hrec)
    · exact hordered _ (List.mem_map_of_mem ha) _ (List.mem_map_of_mem hb) hlt

/-- A packet that waits, and a younger one that is consumed before it is first seen. -/
def overtakingPolls : List PollObs :=
  [.still 1 0 0 dispatchEverywhere, .still 2 1 0 dispatchEverywhere,
    .still 3 2 2 dispatchEverywhere]

/-- The younger packet is delivered first, and both are completed at the same time. -/
theorem record_times_overtaking :
    sinkIds (Trace.run pollQueue (QueueState.new twoSlots) overtakingPolls).2 = [1, 0] ∧
      ∀ rec ∈ sinkRecords (Trace.run pollQueue (QueueState.new twoSlots) overtakingPolls).2,
        rec.completed = true ∧ rec.submitTs ≤ rec.completeTs :=
  ⟨by decide +kernel,
    ((record_times_follow_ids twoSlots overtakingPolls (by decide)
      (by simp [overtakingPolls, PollObs.PointersBelow, PollObs.still])).1 _ rfl).1⟩

end HsaSnoop
