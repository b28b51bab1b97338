import Mathlib.Data.List.Nodup
import HsaSnoop.Parser.Accounting

set_option autoImplicit false

/-! # Delivery of AQL records

Nothing is lost as long as polling keeps up with the producer: every id the read pointer has passed
was given to `sink_`, once and as completed. -/

namespace HsaSnoop

/-! ## Polls that keep up -/

/-- The phases of a slot a timely poll can meet. -/
inductive SlotPhase (raw : Nat → UInt8) (id rptr : Nat) : Prop
  | published (header : Aql.rawType raw ≠ .invalid)
  | reset (header : Aql.rawType raw = .invalid) (consumed : id < rptr)
      (intact : (Aql.KernelDispatchPacket.ofRaw raw).kernelObject ≠ 0)
  | pending (header : Aql.rawType raw = .invalid) (waiting : rptr ≤ id)

/-- A poll keeps up: the pointers are below `2^63`, and once the queue is primed the reads succeed, the
    producer is at most one ring ahead, and no new slot was consumed without a trace. -/
structure KeepsUp (qs : QueueState) (o : PollObs) : Prop where
  pointers : o.PointersBelow (2 ^ 63)
  timely : qs.primed = true → ∃ w r : UInt64, o.wptr = some w ∧ o.rptr = some r ∧
    w.toNat ≤ qs.nextId + qs.info.numSlots ∧
    ∀ id, qs.nextId ≤ id → id < w.toNat →
      ∃ raw, slotBytes qs.info (o.mem id) id = some raw ∧ SlotPhase raw id r.toNat

/-- A consumed slot in one of the phases decodes. -/
theorem SlotPhase.decodes {q : QueueInfo} {m : ProcMem} {id rptr : Nat} {raw : Nat → UInt8}
    (h : SlotPhase raw id rptr) (hraw : slotBytes q m id = some raw) (hid : id < rptr) :
    slotDecodes q m id rptr = true := by
  simp only [slotDecodes, hraw]
  cases h with
  | published header => simp [header]
  | reset header consumed intact => simp [consumed, intact]
  | pending header waiting => omega

/-- A poll that keeps up counts nothing as dropped. -/
theorem KeepsUp.dropped_eq {qs : QueueState} {o : PollObs} (h : KeepsUp qs o)
    (hb : qs.nextId < 2 ^ 63) : (pollQueue qs o).1.dropped = qs.dropped := by
  refine pollQueue_elim qs o (fun qs' fs hcase => ?_)
  cases hcase with
  | failed unread => rfl
  | primes hw hr fresh => rfl
  | @polled w r qs' fs hw hr primed steps drained last stopped =>
      obtain ⟨w', r', hw', hr', hring, hslots⟩ := h.timely primed
      obtain rfl : w = w' := Option.some.inj (hw.symm.trans hw')
      obtain rfl : r = r' := Option.some.inj (hr.symm.trans hr')
      have hnum := qs.info.numSlots_lt
      have hwb := h.pointers.1 w hw
      -- The loop only moves `next_id` up, so the conditions at its start hold at every move.
      have hinv := steps.invariant_state
        (fun t => t.info = qs.info ∧ qs.nextId ≤ t.nextId ∧ t.nextId < 2 ^ 63 ∧
          t.dropped = qs.dropped) ?_ ⟨rfl, Nat.le_refl _, hb, rfl⟩
      · exact hinv.2.2.2
      · rintro s es t ⟨hinfo, hle, hlt, hdrop⟩ hmove
        have hstep := hmove.nextId_le hwb hlt
        refine ⟨hmove.frame.1.trans hinfo, hle.trans hstep.1, hstep.2, ?_⟩
        cases hmove with
        | skip wrapped =>
            rw [hinfo, u64_of_lt (by omega)] at wrapped
            omega
        | miss lt inRing consumed undecoded =>
            obtain ⟨raw, hraw, hphase⟩ := hslots s.nextId hle lt
            rw [hinfo, hphase.decodes hraw consumed] at undecoded
            exact absurd undecoded (by simp)
        | _ => exact hdrop

/-! ## What is delivered -/

/-- What is given to the sink is completed. -/
theorem PollMove.sunk_completed {o : PollObs} {wptr rptr : Nat} {qs qs' : QueueState}
    {es : List Event} (h : PollMove o wptr rptr qs es qs') :
    ∀ rec ∈ sinkRecords es, rec.completed = true := by
  intro rec hrec
  cases h with
  | emit lt inRing consumed decoded =>
      obtain rfl : rec = _ := by simpa using hrec
      rfl
  | drain =>
      rw [sinkRecords_drain] at hrec
      obtain ⟨e, -, rfl⟩ := List.mem_map.1 hrec
      rfl
  | _ => simp at hrec

theorem pollQueue_sunk_completed (qs : QueueState) (o : PollObs) :
    ∀ rec ∈ sinkRecords (pollQueue qs o).2, rec.completed = true := by
  refine pollQueue_elim qs o (fun qs' fs hcase => ?_)
  cases hcase with
  | failed unread => simp
  | primes hw hr fresh => simp
  | @polled w r qs' fs hw hr primed steps drained last stopped =>
      have hinv := steps.invariant (fun _ es => ∀ rec ∈ sinkRecords es, rec.completed = true)
        (fun s es t fs hfs hmove rec hrec => by
          rw [sinkRecords_append] at hrec
          exact (List.mem_append.1 hrec).elim (hfs rec) (hmove.sunk_completed rec))
        (show ∀ rec ∈ sinkRecords [], rec.completed = true by simp)
      simpa using hinv

theorem run_sunk_completed (qs : QueueState) (os : List PollObs) :
    ∀ rec ∈ sinkRecords (Trace.run pollQueue qs os).2, rec.completed = true := by
  refine Trace.run_invariant (fun _ es => ∀ rec ∈ sinkRecords es, rec.completed = true) (by simp)
    (fun t es o hes rec hrec => ?_) os
  rw [sinkRecords_append] at hrec
  exact (List.mem_append.1 hrec).elim (hes rec) (pollQueue_sunk_completed t o rec)

/-- In a run that keeps up the books are in order and nothing was dropped. -/
theorem keepsUp_run {q : QueueInfo} {os : List PollObs}
    (h : Trace.Along pollQueue KeepsUp (QueueState.new q) os) :
    Booked (Trace.run pollQueue (QueueState.new q) os).1
        (Trace.run pollQueue (QueueState.new q) os).2 ∧
      (Trace.run pollQueue (QueueState.new q) os).1.dropped = 0 := by
  refine Trace.run_invariant_along (fun t es => Booked t es ∧ t.dropped = 0)
    ⟨booked_new q, rfl⟩ (fun t es o hinv ho => ?_) h
  obtain ⟨hbook, hdrop⟩ := hinv
  refine ⟨hbook.poll ho.pointers, ?_⟩
  cases hprim : primingWptr es with
  | none =>
      -- The poll fails or primes; neither counts anything.
      simp only [Booked, hprim] at hbook
      refine pollQueue_elim t o (fun t' fs hcase => ?_)
      cases hcase with
      | failed unread => exact hdrop
      | primes hw hr fresh => exact hdrop
      | polled hw hr primed steps drained last stopped => exact absurd hbook.1 (by simp [primed])
  | some w0 =>
      simp only [Booked, hprim] at hbook
      rw [ho.dropped_eq hbook.2.1.bound, hdrop]

/-- After a poll that read `r ≤ w`, decoding has reached the read pointer and everything below it is
    drained. -/
theorem pollQueue_passed {qs : QueueState} {o : PollObs} {w r : UInt64} (hw : o.wptr = some w)
    (hr : o.rptr = some r) (hrw : r.toNat ≤ w.toNat) (hp : qs.primed = true) :
    r.toNat ≤ (pollQueue qs o).1.nextId ∧
      ∀ k ∈ (pollQueue qs o).1.inflight.keys, r.toNat ≤ k := by
  refine pollQueue_elim qs o (fun qs' fs hcase => ?_)
  cases hcase with
  | failed unread => simp [hw, hr] at unread
  | primes hw' hr' fresh => exact absurd hp (by simp [fresh])
  | @polled w' r' qs' fs hw' hr' primed steps drained last stopped =>
      obtain rfl : w = w' := Option.some.inj (hw.symm.trans hw')
      obtain rfl : r = r' := Option.some.inj (hr.symm.trans hr')
      refine ⟨?_, drained⟩
      rcases stopped with hall | ⟨hpass, -⟩
      · omega
      · exact hpass

/-- The same for the last poll of a run that keeps up, also when it is the one that primes. -/
theorem keepsUp_passed {q : QueueInfo} {pre : List PollObs} {o : PollObs} {w r : UInt64}
    (h : Trace.Along pollQueue KeepsUp (QueueState.new q) (pre ++ [o])) (hw : o.wptr = some w)
    (hr : o.rptr = some r) (hrw : r.toNat ≤ w.toNat) :
    r.toNat ≤ (Trace.run pollQueue (QueueState.new q) (pre ++ [o])).1.nextId ∧
      ∀ k ∈ (Trace.run pollQueue (QueueState.new q) (pre ++ [o])).1.inflight.keys,
        r.toNat ≤ k := by
  rw [Trace.run_snoc]
  cases hp : (Trace.run pollQueue (QueueState.new q) pre).1.primed with
  | true => exact pollQueue_passed hw hr hrw hp
  | false =>
      have hbook := (keepsUp_run h.init).1
      have hfresh : primingWptr (Trace.run pollQueue (QueueState.new q) pre).2 = none := by
        by_contra hne
        obtain ⟨w0, hw0⟩ := Option.ne_none_iff_exists'.1 hne
        simp only [Booked, hw0] at hbook
        exact absurd hbook.1 (by simp [hp])
      simp only [Booked, hfresh] at hbook
      simp only [pollQueue, hw, hr, hp, Bool.not_false, if_true]
      exact ⟨hrw, by simp [hbook.2.1]⟩

/-- Below a bound that decoding has reached and in-flight ids are not under, every id that was not
    dropped has been given to the sink, once. -/
theorem Accounted.count_sinkIds {w0 : Nat} {qs : QueueState} {es : List Event}
    (h : Accounted w0 qs es) (hdrop : qs.dropped = 0) {b : Nat} (hb : b ≤ qs.nextId)
    (hin : ∀ k ∈ qs.inflight.keys, b ≤ k) {id : Nat} (hlo : w0 ≤ id) (hhi : id < b) :
    (sinkIds es).count id = 1 := by
  have hnodrop : dropIds es = [] := List.length_eq_zero_iff.1 (h.counted.trans hdrop)
  have hmem : id ∈ sinkIds es := by
    have hall : id ∈ sinkIds es ++ qs.inflight.keys ++ dropIds es := by
      refine h.partition.mem_iff.2 (List.mem_range'_1.2 ⟨hlo, ?_⟩)
      have := h.base
      omega
    rw [hnodrop, List.append_nil] at hall
    rcases List.mem_append.1 hall with hsunk | hkey
    · exact hsunk
    · have := hin id hkey
      omega
  have hnodup := h.nodup
  rw [List.append_assoc] at hnodup
  exact List.count_eq_one_of_mem (List.nodup_append.1 hnodup).1 hmem

/-- **Losslessness.** In every run that keeps up, nothing is counted as dropped; and after a poll that
    read `r ≤ w`, every id from the priming write pointer up to `r` has been given to the sink exactly
    once, and as completed. -/
theorem pollQueue_lossless (q : QueueInfo) (os : List PollObs)
    (h : Trace.Along pollQueue KeepsUp (QueueState.new q) os) :
    let es := (Trace.run pollQueue (QueueState.new q) os).2
    (Trace.run pollQueue (QueueState.new q) os).1.dropped = 0 ∧
      (∀ rec ∈ sinkRecords es, rec.completed = true) ∧
      ∀ (pre : List PollObs) (o : PollObs) (w0 : Nat) (w r : UInt64), os = pre ++ [o] →
        primingWptr es = some w0 → o.wptr = some w → o.rptr = some r → r.toNat ≤ w.toNat →
        ∀ id, w0 ≤ id → id < r.toNat → (sinkIds es).count id = 1 := by
  intro es
  obtain ⟨hbook, hdrop⟩ := keepsUp_run h
  refine ⟨hdrop, run_sunk_completed _ os, ?_⟩
  intro pre o w0 w r hsplit hw0 hw hr hrw id hlo hhi
  simp only [Booked, show primingWptr (Trace.run pollQueue (QueueState.new q) os).2 = some w0
    from hw0] at hbook
  subst hsplit
  obtain ⟨hreached, hdrained⟩ := keepsUp_passed h hw hr hrw
  exact hbook.2.1.count_sinkIds hdrop hreached hdrained hlo hhi

theorem published_twoSlots (id rptr : Nat) :
    ∃ raw, slotBytes twoSlots dispatchEverywhere id = some raw ∧ SlotPhase raw id rptr := by
  have hslots : twoSlots.numSlots = 2 := by decide
  simp only [slotBytes, hslots]
  rcases Nat.mod_two_eq_zero_or_one id with hid | hid
  · rw [hid]
    exact ⟨_, rfl, .published (by decide)⟩
  · rw [hid]
    exact ⟨_, rfl, .published (by decide)⟩

/-- The first packet of a run that keeps up is delivered once. -/
theorem pollQueue_lossless_twoSlots :
    let os : List PollObs :=
      [.still 1 0 0 dispatchEverywhere, .still 2 1 0 dispatchEverywhere,
        .still 3 2 1 dispatchEverywhere]
    let es := (Trace.run pollQueue (QueueState.new twoSlots) os).2
    primingWptr es = some 0 ∧ (sinkIds es).count 0 = 1 := by
  intro os es
  have hprimed : primingWptr es = some 0 := by decide +kernel
  have hkeeps : Trace.Along pollQueue KeepsUp (QueueState.new twoSlots) os := by
    refine Trace.along_cons.2 ⟨⟨by simp [PollObs.PointersBelow, PollObs.still],
      fun hp => absurd hp (by decide)⟩, ?_⟩
    refine Trace.along_cons.2 ⟨⟨by simp [PollObs.PointersBelow, PollObs.still], fun _ => ?_⟩, ?_⟩
    · exact ⟨1, 0, rfl, rfl, by decide +kernel, fun id _ _ => published_twoSlots id _⟩
    refine Trace.along_cons.2 ⟨⟨by simp [PollObs.PointersBelow, PollObs.still], fun _ => ?_⟩, ?_⟩
    · refine ⟨2, 1, rfl, rfl, by decide +kernel, fun id _ _ => ?_⟩
      rw [pollQueue_info]
      exact published_twoSlots id _
    exact fun pre o post hsplit => absurd hsplit (by simp)
  exact ⟨hprimed, (pollQueue_lossless twoSlots os hkeeps).2.2 [_, _] _ 0 2 1 rfl hprimed rfl rfl
    (by decide) 0 (by decide) (by decide)⟩

end HsaSnoop
