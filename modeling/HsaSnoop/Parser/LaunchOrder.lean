import HsaSnoop.Parser.Accounting

set_option autoImplicit false

/-! # The order in which AQL records reach the sink

A poll has two routes to `sink_`: ids that are consumed when they are first decoded are emitted inside
the decode loop, and ids in flight are drained behind it. Over the whole run the ids are in launch
order exactly when no poll uses both routes, because whatever is in flight is older than whatever is
decoded. -/

namespace HsaSnoop

/-! ## What one poll emits -/

/-- The decode loop emits the consumed ids that decode, in order. -/
theorem decodeLoop_sinkIds (o : PollObs) (wptr rptr : Nat) (qs : QueueState) :
    sinkIds (decodeLoop o wptr rptr qs).2 =
      (List.range' qs.nextId (min wptr rptr - qs.nextId)).filter
        (fun id => slotDecodes qs.info (o.mem id) id rptr) := by
  have hsucc : ∀ n, n < min wptr rptr → List.range' n (min wptr rptr - n) =
      n :: List.range' (n + 1) (min wptr rptr - (n + 1)) := by
    intro n hn
    rw [show min wptr rptr - n = (min wptr rptr - (n + 1)) + 1 by omega, List.range'_succ]
  fun_induction decodeLoop o wptr rptr qs with
  | case1 qs hlt rec ksym hdec r hcons out ih =>
      have hyes : slotDecodes qs.info (o.mem qs.nextId) qs.nextId rptr = true := by
        rw [← decodeSlot_isSome, hdec]
        rfl
      obtain ⟨raw, -, hfrom⟩ := decodeSlot_some hdec
      rw [hsucc qs.nextId (by omega), List.filter_cons, if_pos hyes]
      simp [out, r, ih, hfrom.dispatchId]
  | case2 qs hlt rec ksym hdec r hwait out ih =>
      rw [show min wptr rptr - qs.nextId = 0 by omega]
      simp only [sinkIds_cons, Event.sunk?, Option.toList_none, List.map_nil, List.nil_append, out,
        ih]
      rw [show min wptr rptr - (qs.nextId + 1) = 0 by omega]
      simp
  | case3 qs hlt ksym hdec hcons out ih =>
      have hno : ¬ slotDecodes qs.info (o.mem qs.nextId) qs.nextId rptr = true := by
        rw [← decodeSlot_isSome, hdec]
        simp
      rw [hsucc qs.nextId (by omega), List.filter_cons, if_neg hno]
      simp [out, ih]
  | case4 qs hlt ksym hdec hwait => simp [show min wptr rptr - qs.nextId = 0 by omega]
  | case5 qs hge => simp [show min wptr rptr - qs.nextId = 0 by omega]

/-- What is in flight is filed under its own id, which has been decoded. -/
structure Filed (qs : QueueState) : Prop where
  tagged : ∀ e ∈ qs.inflight.entries, e.2.dispatchId = e.1
  keys_lt : ∀ k ∈ qs.inflight.keys, k < qs.nextId

/-- The decode loop moves `next_id` to the smaller pointer at least, and leaves what is in flight below
    the read pointer as it was. -/
theorem decodeLoop_filed (o : PollObs) (wptr rptr : Nat) (qs : QueueState) (h : Filed qs) :
    Filed (decodeLoop o wptr rptr qs).1 ∧ qs.nextId ≤ (decodeLoop o wptr rptr qs).1.nextId ∧
      min wptr rptr ≤ (decodeLoop o wptr rptr qs).1.nextId ∧
      ((decodeLoop o wptr rptr qs).1.inflight.splitBelow rptr).1 =
        (qs.inflight.splitBelow rptr).1 := by
  fun_induction decodeLoop o wptr rptr qs with
  | case1 qs hlt rec ksym hdec r hcons out ih =>
      obtain ⟨hfiled, hle, hmin, hsplit⟩ := ih ⟨h.tagged, fun k hk => Nat.lt_succ_of_lt (h.keys_lt k hk)⟩
      exact ⟨hfiled, Nat.le_of_succ_le hle, hmin, hsplit⟩
  | case2 qs hlt rec ksym hdec r hwait out ih =>
      obtain ⟨raw, -, hfrom⟩ := decodeSlot_some hdec
      have htagged : ∀ e ∈ (qs.inflight.emplace qs.nextId r).entries, e.2.dispatchId = e.1 := by
        intro e he
        rcases OrdMap.mem_entries_emplace he with rfl | he
        · exact hfrom.dispatchId
        · exact h.tagged e he
      have hkeys : ∀ k ∈ (qs.inflight.emplace qs.nextId r).keys, k < qs.nextId + 1 := by
        intro k hk
        rcases OrdMap.mem_keys_emplace.1 hk with rfl | hk
        · exact Nat.lt_succ_self _
        · exact Nat.lt_succ_of_lt (h.keys_lt k hk)
      obtain ⟨hfiled, hle, hmin, hsplit⟩ := ih ⟨htagged, hkeys⟩
      exact ⟨hfiled, Nat.le_of_succ_le hle, hmin,
        hsplit.trans (OrdMap.splitBelow_emplace_fst (Nat.le_of_not_lt hwait))⟩
  | case3 qs hlt ksym hdec hcons out ih =>
      obtain ⟨hfiled, hle, hmin, hsplit⟩ := ih ⟨h.tagged, fun k hk => Nat.lt_succ_of_lt (h.keys_lt k hk)⟩
      exact ⟨hfiled, Nat.le_of_succ_le hle, hmin, hsplit⟩
  | case4 qs hlt ksym hdec hwait => exact ⟨h, Nat.le_refl _, by simp only; omega, rfl⟩
  | case5 qs hge => exact ⟨h, Nat.le_refl _, by simp only; omega, rfl⟩

/-- The ids a poll emits inside the decode loop. -/
def emittedIds (o : PollObs) (wptr rptr : Nat) (qs : QueueState) : List Nat :=
  (List.range' (max qs.nextId (wptr - qs.info.numSlots))
      (min wptr rptr - max qs.nextId (wptr - qs.info.numSlots))).filter
    (fun id => slotDecodes qs.info (o.mem id) id rptr)

/-- The ids a poll drains from what was in flight. -/
def drainedIds (rptr : Nat) (qs : QueueState) : List Nat :=
  (qs.inflight.splitBelow rptr).1.map Prod.fst

/-- While `next_id` is more than a ring below `2^64`, the guard only moves it up. -/
theorem skipWrapped_of_noWrap {wptr : Nat} (hw : wptr < 2 ^ 64) {qs : QueueState}
    (h : qs.nextId + qs.info.numSlots < 2 ^ 64) :
    (skipWrapped wptr qs).1.nextId = max qs.nextId (wptr - qs.info.numSlots) ∧
      (skipWrapped wptr qs).1.info = qs.info ∧ (skipWrapped wptr qs).1.inflight = qs.inflight ∧
      sinkIds (skipWrapped wptr qs).2 = [] := by
  by_cases hwrap : qs.nextId + qs.info.numSlots < wptr
  · have hcond : u64 (qs.nextId + qs.info.numSlots) < wptr := by rwa [u64_of_lt h]
    simp only [skipWrapped, if_pos hcond]
    refine ⟨?_, by simp⟩
    rw [u64Sub_of_le (by omega) hw]
    omega
  · have hcond : ¬ u64 (qs.nextId + qs.info.numSlots) < wptr := by rwa [u64_of_lt h]
    simp only [skipWrapped, if_neg hcond]
    exact ⟨by omega, by simp⟩

theorem skipWrapped_filed {wptr : Nat} (hw : wptr < 2 ^ 64) {qs : QueueState} (h : Filed qs)
    (hwrap : qs.nextId + qs.info.numSlots < 2 ^ 64) : Filed (skipWrapped wptr qs).1 := by
  obtain ⟨hnext, hinfo, hinfl, hsink⟩ := skipWrapped_of_noWrap hw hwrap
  refine ⟨hinfl ▸ h.tagged, fun k hk => ?_⟩
  have := h.keys_lt k (hinfl ▸ hk)
  omega

/-- **What one poll emits**: first the consumed ids it decodes, then what it drains. -/
theorem pollPrimed_sinkIds (o : PollObs) {wptr : Nat} (rptr : Nat) (hw : wptr < 2 ^ 64)
    {qs : QueueState} (h : Filed qs) (hwrap : qs.nextId + qs.info.numSlots < 2 ^ 64) :
    sinkIds (pollPrimed o wptr rptr qs).2 = emittedIds o wptr rptr qs ++ drainedIds rptr qs := by
  obtain ⟨hnext, hinfo, hinfl, hsink⟩ := skipWrapped_of_noWrap hw hwrap
  obtain ⟨-, -, -, hsplit⟩ := decodeLoop_filed o wptr rptr _ (skipWrapped_filed hw h hwrap)
  have hdrain : sinkIds (drainInflight o.now rptr
      (decodeLoop o wptr rptr (skipWrapped wptr qs).1).1).2 = drainedIds rptr qs := by
    simp only [drainInflight, sinkIds_drain, hsplit, hinfl, drainedIds]
    exact List.map_congr_left
      (fun e he => h.tagged e (OrdMap.mem_entries_of_mem_splitBelow_fst he))
  simp only [pollPrimed, sinkIds_append, hsink, List.nil_append, hdrain, decodeLoop_sinkIds]
  rw [hinfo, hnext, emittedIds]

theorem pollPrimed_filed (o : PollObs) {wptr : Nat} (rptr : Nat) (hw : wptr < 2 ^ 64)
    {qs : QueueState} (h : Filed qs) (hwrap : qs.nextId + qs.info.numSlots < 2 ^ 64) :
    Filed (pollPrimed o wptr rptr qs).1 ∧ qs.nextId ≤ (pollPrimed o wptr rptr qs).1.nextId ∧
      min wptr rptr ≤ (pollPrimed o wptr rptr qs).1.nextId ∧
      ∀ k ∈ (pollPrimed o wptr rptr qs).1.inflight.keys, rptr ≤ k := by
  obtain ⟨hnext, -, -, -⟩ := skipWrapped_of_noWrap hw hwrap
  obtain ⟨hdone, hle, hmin, -⟩ := decodeLoop_filed o wptr rptr _ (skipWrapped_filed hw h hwrap)
  refine ⟨⟨fun e he => ?_, fun k hk => ?_⟩, ?_, hmin, fun k hk => OrdMap.splitBelow_snd_ge hk⟩
  · exact hdone.tagged e (OrdMap.mem_entries_of_mem_splitBelow_snd he)
  · refine hdone.keys_lt k ?_
    rw [← OrdMap.keys_splitBelow _ rptr]
    exact List.mem_append_right _ hk
  · have hgo : (skipWrapped wptr qs).1.nextId ≤ (pollPrimed o wptr rptr qs).1.nextId := hle
    omega

theorem emittedIds_pairwise (o : PollObs) (wptr rptr : Nat) (qs : QueueState) :
    (emittedIds o wptr rptr qs).Pairwise (· < ·) :=
  (List.pairwise_lt_range' ..).filter _

theorem mem_emittedIds {o : PollObs} {wptr rptr : Nat} {qs : QueueState} {id : Nat} :
    id ∈ emittedIds o wptr rptr qs ↔
      (max qs.nextId (wptr - qs.info.numSlots) ≤ id ∧ id < min wptr rptr) ∧
        slotDecodes qs.info (o.mem id) id rptr = true := by
  rw [emittedIds, List.mem_filter, List.mem_range'_1]
  constructor
  · rintro ⟨⟨hlo, hhi⟩, hdec⟩
    exact ⟨⟨hlo, by omega⟩, hdec⟩
  · rintro ⟨⟨hlo, hhi⟩, hdec⟩
    exact ⟨⟨hlo, by omega⟩, hdec⟩

theorem drainedIds_pairwise (rptr : Nat) (qs : QueueState) :
    (drainedIds rptr qs).Pairwise (· < ·) := by
  have hsorted := qs.inflight.keys_pairwise
  rw [← qs.inflight.keys_splitBelow rptr] at hsorted
  exact (List.pairwise_append.1 hsorted).1

theorem mem_drainedIds {rptr : Nat} {qs : QueueState} {id : Nat} (h : id ∈ drainedIds rptr qs) :
    id ∈ qs.inflight.keys ∧ id < rptr := by
  refine ⟨?_, ?_⟩
  · rw [← qs.inflight.keys_splitBelow rptr]
    exact List.mem_append_left _ h
  · obtain ⟨e, he, rfl⟩ := List.mem_map.1 h
    exact OrdMap.splitBelow_fst_lt he

/-! ## Runs -/

/-- A primed poll uses at most one of the two routes to the sink: nothing in flight is below the read
    pointer, or no id between the decode position and the smaller pointer decodes. -/
def OneRoute (qs : QueueState) (o : PollObs) : Prop :=
  qs.primed = true → ∀ w r, o.pointers? = some (w, r) →
    (∀ k ∈ qs.inflight.keys, r ≤ k) ∨
      ∀ id, max qs.nextId (w - qs.info.numSlots) ≤ id → id < min w r →
        slotDecodes qs.info (o.mem id) id r = false

/-- The wrap guard of a primed poll does not overflow. -/
def NoOverflow (qs : QueueState) : Prop :=
  qs.primed = true → qs.nextId + qs.info.numSlots < 2 ^ 64

theorem pollQueue_of_pointers {qs : QueueState} {o : PollObs} {w r : Nat}
    (ho : o.pointers? = some (w, r)) (hp : qs.primed = true) :
    w < 2 ^ 64 ∧ pollQueue qs o =
      ((pollPrimed o w r { qs with readFailCount := 0 }).1,
        .pointers w r :: (pollPrimed o w r { qs with readFailCount := 0 }).2) := by
  obtain ⟨wptr, rptr, hw, hr, heq⟩ := PollObs.pointers?_eq_some.1 ho
  obtain ⟨rfl, rfl⟩ := Prod.mk.inj heq
  exact ⟨wptr.toNat_lt, pollQueue_primed hw hr hp⟩

theorem pollQueue_of_no_pointers {qs : QueueState} {o : PollObs} (ho : o.pointers? = none) :
    pollQueue qs o = (qs.readFailed, []) := by
  rcases PollObs.pointers?_eq_none.1 ho with h | h <;> simp [pollQueue, h]

theorem pollQueue_primes {qs : QueueState} {o : PollObs} {p : Nat × Nat}
    (ho : o.pointers? = some p) (hp : qs.primed = false) :
    (pollQueue qs o).1.inflight = qs.inflight ∧ (pollQueue qs o).1.primed = true ∧
      sinkIds (pollQueue qs o).2 = [] := by
  obtain ⟨w, r, hw, hr, -⟩ := PollObs.pointers?_eq_some.1 ho
  simp [pollQueue, hw, hr, hp]

theorem pollQueue_lastRptr {qs : QueueState} {o : PollObs} {p : Nat × Nat}
    (ho : o.pointers? = some p) : (pollQueue qs o).1.lastRptr = p.2 := by
  obtain ⟨w, r, hw, hr, rfl⟩ := PollObs.pointers?_eq_some.1 ho
  cases hp : qs.primed with
  | false => simp [pollQueue, hw, hr, hp]
  | true =>
      rw [pollQueue_primed hw hr hp]
      rfl

/-- What a primed poll that read `w` and `r` leaves behind. -/
structure Polled (qs : QueueState) (o : PollObs) (w r : Nat) (qs' : QueueState) (es : List Event) :
    Prop where
  sunk : sinkIds es = emittedIds o w r qs ++ drainedIds r qs
  filed : Filed qs'
  nextId_le : qs.nextId ≤ qs'.nextId
  reached : min w r ≤ qs'.nextId
  waiting : ∀ k ∈ qs'.inflight.keys, r ≤ k
  lastRptr : qs'.lastRptr = r
  primed : qs'.primed = true

theorem pollQueue_polled {qs : QueueState} {o : PollObs} {w r : Nat} (h : Filed qs)
    (hwrap : NoOverflow qs) (hp : qs.primed = true) (ho : o.pointers? = some (w, r)) :
    Polled qs o w r (pollQueue qs o).1 (pollQueue qs o).2 := by
  obtain ⟨hw, hpoll⟩ := pollQueue_of_pointers ho hp
  have hfiled : Filed { qs with readFailCount := 0 } := ⟨h.tagged, h.keys_lt⟩
  have hsink := pollPrimed_sinkIds o r hw hfiled (hwrap hp)
  obtain ⟨hfiled', hle, hmin, hwait⟩ := pollPrimed_filed o r hw hfiled (hwrap hp)
  have hframe := PollMove.frame_steps (pollPrimed_steps o hw r { qs with readFailCount := 0 }).1
  rw [hpoll]
  exact ⟨hsink, hfiled', hle, hmin, hwait, rfl, hframe.2.1.trans hp⟩

/-- New ids are above what is decoded or at least what the last read pointer has passed. -/
theorem Polled.mem_sinkIds {qs qs' : QueueState} {o : PollObs} {w r : Nat} {es : List Event}
    (h : Polled qs o w r qs' es) (hfiled : Filed qs)
    (hwait : ∀ k ∈ qs.inflight.keys, qs.lastRptr ≤ k) {id : Nat} (hid : id ∈ sinkIds es) :
    (qs.nextId ≤ id ∨ qs.lastRptr ≤ id) ∧ id < qs'.nextId ∧ id < qs'.lastRptr := by
  have hreached := h.reached
  have hle := h.nextId_le
  rw [h.lastRptr]
  rw [h.sunk] at hid
  rcases List.mem_append.1 hid with hem | hdr
  · obtain ⟨⟨hlo, hhi⟩, -⟩ := mem_emittedIds.1 hem
    exact ⟨Or.inl (by omega), by omega, by omega⟩
  · obtain ⟨hkey, hr⟩ := mem_drainedIds hdr
    have hk := hfiled.keys_lt id hkey
    exact ⟨Or.inr (hwait id hkey), by omega, hr⟩

/-- One of the routes is empty: what the poll emits ascends. -/
theorem OneRoute.pairwise {qs : QueueState} {o : PollObs} (h : OneRoute qs o)
    (hp : qs.primed = true) {w r : Nat} (ho : o.pointers? = some (w, r)) :
    (emittedIds o w r qs ++ drainedIds r qs).Pairwise (· < ·) := by
  rcases h hp w r ho with hkeys | hslots
  · have hnil : drainedIds r qs = [] := by
      rw [drainedIds, OrdMap.splitBelow_fst_eq_nil.2 hkeys, List.map_nil]
    rw [hnil, List.append_nil]
    exact emittedIds_pairwise o w r qs
  · have hnil : emittedIds o w r qs = [] := by
      rw [List.eq_nil_iff_forall_not_mem]
      intro id hid
      obtain ⟨⟨hlo, hhi⟩, hdec⟩ := mem_emittedIds.1 hid
      exact absurd hdec (by simp [hslots id hlo hhi])
    rw [hnil, List.nil_append]
    exact drainedIds_pairwise r qs

/-- What has reached the sink ascends, and lies below everything that can still reach it. -/
structure InOrder (qs : QueueState) (es : List Event) : Prop where
  fresh : qs.primed = false → sinkIds es = [] ∧ qs.inflight = ∅
  filed : Filed qs
  waiting : ∀ k ∈ qs.inflight.keys, qs.lastRptr ≤ k
  ascending : (sinkIds es).Pairwise (· < ·)
  passed : ∀ id ∈ sinkIds es, id < qs.nextId ∧ id < qs.lastRptr

theorem inOrder_new (q : QueueInfo) : InOrder (QueueState.new q) [] :=
  ⟨fun _ => ⟨rfl, rfl⟩, ⟨by simp [QueueState.new], by simp [QueueState.new]⟩,
    by simp [QueueState.new], by simp, by simp⟩

theorem InOrder.poll {qs : QueueState} {es : List Event} {o : PollObs} (h : InOrder qs es)
    (hmono : qs.primed = true → ∀ p, o.pointers? = some p → qs.lastRptr ≤ p.2)
    (hwrap : NoOverflow qs) (hroute : OneRoute qs o) :
    InOrder (pollQueue qs o).1 (es ++ (pollQueue qs o).2) := by
  cases ho : o.pointers? with
  | none =>
      rw [pollQueue_of_no_pointers ho, List.append_nil]
      exact ⟨h.fresh, ⟨h.filed.tagged, h.filed.keys_lt⟩, h.waiting, h.ascending, h.passed⟩
  | some p =>
      obtain ⟨w, r⟩ := p
      cases hp : qs.primed with
      | false =>
          obtain ⟨hsink, hinfl⟩ := h.fresh hp
          obtain ⟨hinfl', hp', hsink'⟩ := pollQueue_primes ho hp
          rw [hinfl] at hinfl'
          refine ⟨fun hf => absurd hp' (by simp [hf]), ⟨by simp [hinfl'], by simp [hinfl']⟩,
            by simp [hinfl'], ?_, ?_⟩ <;> simp [hsink, hsink']
      | true =>
          have hpolled := pollQueue_polled h.filed hwrap hp ho
          refine ⟨fun hf => absurd hpolled.primed (by simp [hf]), hpolled.filed, ?_, ?_, ?_⟩
          · rw [hpolled.lastRptr]
            exact hpolled.waiting
          · rw [sinkIds_append]
            refine List.pairwise_append.2 ⟨h.ascending, ?_, fun a ha b hb => ?_⟩
            · rw [hpolled.sunk]
              exact hroute.pairwise hp ho
            · have hold := h.passed a ha
              have hnew := (hpolled.mem_sinkIds h.filed h.waiting hb).1
              omega
          · intro id hid
            rw [sinkIds_append] at hid
            rcases List.mem_append.1 hid with hold | hnew
            · have hid' := h.passed id hold
              have hle := hpolled.nextId_le
              have hr := hmono hp (w, r) ho
              rw [hpolled.lastRptr]
              omega
            · exact (hpolled.mem_sinkIds h.filed h.waiting hnew).2

theorem pollQueue_setsLastRptr : SetsLastRptr pollQueue id := by
  intro qs o hp
  cases ho : o.pointers? with
  | none =>
      rw [pollQueue_of_no_pointers ho] at hp ⊢
      exact Or.inl ⟨hp, rfl⟩
  | some p => exact Or.inr ⟨p, rfl, pollQueue_lastRptr ho⟩

/-- With pointers below `2^63` nothing overflows, and what is in flight is filed. -/
theorem run_filed {q : QueueInfo} {os : List PollObs} (hos : ∀ o ∈ os, o.PointersBelow (2 ^ 63)) :
    NoOverflow (Trace.run pollQueue (QueueState.new q) os).1 ∧
      Filed (Trace.run pollQueue (QueueState.new q) os).1 := by
  have hbook := booked_run q os hos
  unfold Booked at hbook
  split at hbook
  · obtain ⟨hp, hinfl, -⟩ := hbook
    exact ⟨fun hp' => absurd hp' (by simp [hp]), by simp [hinfl], by simp [hinfl]⟩
  · obtain ⟨-, hacc, -⟩ := hbook
    have hb := hacc.bound
    have hslots := (Trace.run pollQueue (QueueState.new q) os).1.info.numSlots_lt
    exact ⟨fun _ => by omega, hacc.tagged, hacc.keys_lt⟩

/-- A poll that uses both routes emits a younger id before an older one. -/
theorem oneRoute_of_pairwise {qs : QueueState} {o : PollObs} (h : Filed qs) (hwrap : NoOverflow qs)
    (hasc : (sinkIds (pollQueue qs o).2).Pairwise (· < ·)) : OneRoute qs o := by
  intro hp w r ho
  by_contra hboth
  push Not at hboth
  obtain ⟨⟨k, hkey, hk⟩, id, hlo, hhi, hdec⟩ := hboth
  have hem : id ∈ emittedIds o w r qs := mem_emittedIds.2 ⟨⟨hlo, hhi⟩, by simpa using hdec⟩
  have hdr : k ∈ drainedIds r qs := by
    have hkeys := qs.inflight.keys_splitBelow r
    rw [← hkeys] at hkey
    rcases List.mem_append.1 hkey with hdr | hstay
    · exact hdr
    · have := OrdMap.splitBelow_snd_ge hstay
      omega
  rw [(pollQueue_polled h hwrap hp ho).sunk] at hasc
  have hlt := (List.pairwise_append.1 hasc).2.2 id hem k hdr
  have := h.keys_lt k hkey
  omega

/-- **Launch order.** In a run with monotone pointers the ids reach the sink in strictly ascending
    order if every poll keeps to one route and its guard does not overflow; with pointers below
    `2^63`, only then. -/
theorem sinkIds_ascending_iff_oneRoute (q : QueueInfo) (os : List PollObs)
    (hmono : MonotonePointers os) :
    (Trace.Along pollQueue (fun qs o => NoOverflow qs ∧ OneRoute qs o) (QueueState.new q) os →
      (sinkIds (Trace.run pollQueue (QueueState.new q) os).2).Pairwise (· < ·)) ∧
    ((∀ o ∈ os, o.PointersBelow (2 ^ 63)) →
      (sinkIds (Trace.run pollQueue (QueueState.new q) os).2).Pairwise (· < ·) →
      Trace.Along pollQueue (fun qs o => NoOverflow qs ∧ OneRoute qs o) (QueueState.new q) os) := by
  refine ⟨fun hroutes => ?_, fun hos hasc => ?_⟩
  · have hrptr := pollQueue_setsLastRptr.along monotone_id hmono q
    have hboth : Trace.Along pollQueue (fun qs o =>
        (qs.primed = true → ∀ p, o.pointers? = some p → qs.lastRptr ≤ p.2) ∧
          NoOverflow qs ∧ OneRoute qs o) (QueueState.new q) os :=
      fun pre o post hsplit => ⟨hrptr pre o post hsplit, hroutes pre o post hsplit⟩
    exact (Trace.run_invariant_along InOrder (inOrder_new q)
      (fun _ _ _ hinv hc => hinv.poll hc.1 hc.2.1 hc.2.2) hboth).ascending
  · intro pre o post hsplit
    subst hsplit
    obtain ⟨hwrap, hfiled⟩ := run_filed (q := q)
      (fun o' ho' => hos o' (List.mem_append_left _ ho'))
    refine ⟨hwrap, oneRoute_of_pairwise hfiled hwrap ?_⟩
    rw [Trace.run_append, sinkIds_append] at hasc
    have hrest := (List.pairwise_append.1 hasc).2.1
    simp only [Trace.run, sinkIds_append] at hrest
    exact (List.pairwise_append.1 hrest).1

/-- One packet at a time: each is put in flight and drained before the next is decoded. -/
theorem sinkIds_ascending_single :
    let os : List PollObs :=
      [.still 1 0 0 dispatchEverywhere, .still 2 1 0 dispatchEverywhere,
        .still 3 1 1 dispatchEverywhere, .still 4 2 1 dispatchEverywhere,
        .still 5 2 2 dispatchEverywhere]
    MonotonePointers os ∧ (∀ o ∈ os, o.PointersBelow (2 ^ 63)) ∧
      Trace.Along pollQueue (fun qs o => NoOverflow qs ∧ OneRoute qs o) (QueueState.new twoSlots) os := by
  intro os
  have hmono : MonotonePointers os := by decide
  have hbelow : ∀ o ∈ os, o.PointersBelow (2 ^ 63) := by
    simp [os, PollObs.PointersBelow, PollObs.still]
  exact ⟨hmono, hbelow, (sinkIds_ascending_iff_oneRoute twoSlots os hmono).2 hbelow (by decide +kernel)⟩

/-- Packet 0 is in flight when packet 1 is decoded as already consumed: 1 reaches the sink first. -/
theorem sinkIds_out_of_launch_order :
    let os : List PollObs :=
      [.still 1 0 0 dispatchEverywhere, .still 2 1 0 dispatchEverywhere,
        .still 3 2 2 dispatchEverywhere]
    MonotonePointers os ∧ sinkIds (Trace.run pollQueue (QueueState.new twoSlots) os).2 = [1, 0] ∧
      ¬ (sinkIds (Trace.run pollQueue (QueueState.new twoSlots) os).2).Pairwise (· < ·) := by
  intro os
  exact ⟨by decide, by decide +kernel, by decide +kernel⟩

end HsaSnoop
