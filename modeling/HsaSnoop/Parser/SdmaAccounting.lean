import HsaSnoop.Parser.PollSdmaQueue

set_option autoImplicit false

/-! # Accounting of SDMA positions and packets

From the moment a queue is primed at dword `w0`, every dword below `next_id` belongs to a decoded
packet or is counted in `dropped`, and every decoded packet was delivered or is in flight. Packets are
numbered as they are decoded, and leave `sdma_inflight` in that order: it is filed by end dword, and a
later packet ends later.

The invariant (`SdmaAccounted`) asks nothing of the ring: it rests only on strides being positive, so
that an end dword is always a new key, and on dword positions staying below `2^62`. -/

namespace HsaSnoop

/-! ## Decoded packets in a trace -/

/-- The length and the number of the packet an event puts in flight. -/
@[simp] def Event.decoded? : Event → Option (Nat × Nat)
  | .sdmaPark _ len rec => some (len, rec.seq)
  | _ => none

/-- The packets decoded, each with its length in dwords and its number. -/
def decodedPackets (es : List Event) : List (Nat × Nat) := es.filterMap Event.decoded?

/-- The dwords of the decoded packets. -/
def decodedDwords (es : List Event) : Nat := ((decodedPackets es).map Prod.fst).sum

/-- The numbers handed out. -/
def decodedSeqs (es : List Event) : List Nat := (decodedPackets es).map Prod.snd

@[simp] theorem decodedPackets_nil : decodedPackets [] = [] := rfl

@[simp] theorem decodedPackets_cons (e : Event) (es : List Event) :
    decodedPackets (e :: es) = e.decoded?.toList ++ decodedPackets es := by
  cases e <;> rfl

@[simp] theorem decodedPackets_append (es fs : List Event) :
    decodedPackets (es ++ fs) = decodedPackets es ++ decodedPackets fs := List.filterMap_append

@[simp] theorem decodedPackets_sdmaDrain (l : List (Nat × SdmaRecord)) (now : Time) :
    decodedPackets (l.map (fun e => Event.sdmaSink (e.2.complete now))) = [] := by
  simp [decodedPackets, List.filterMap_map]

@[simp] theorem sdmaRecords_drain (l : List (Nat × SdmaRecord)) (now : Time) :
    sdmaRecords (l.map (fun e => Event.sdmaSink (e.2.complete now)))
      = l.map (fun e => e.2.complete now) := by
  simp [sdmaRecords, List.filterMap_map, Function.comp_def]

/-- Whatever the packet is, its record has the next number. -/
theorem seq_sdmaRecord (qs : QueueState) (m : ProcMem) (now : Time) (dws : Nat → UInt32)
    (win : Nat) : (sdmaRecord qs m now dws win).1.seq = qs.sdmaSeq := by
  unfold sdmaRecord
  extract_lets
  split
  · split <;> rfl
  · rfl

/-! ## The invariant -/

/-- The books of an SDMA queue primed at `w0`, after the events `es`. -/
structure SdmaAccounted (w0 : Nat) (qs : QueueState) (es : List Event) : Prop where
  bound : qs.nextId < 2 ^ 62
  /-- Every dword since priming was decoded or dropped. -/
  position : qs.nextId = w0 + decodedDwords es + qs.dropped
  /-- The numbers handed out are 0, 1, 2, … -/
  handedOut : decodedSeqs es = List.range qs.sdmaSeq
  /-- Delivered first, in flight after: all numbers in order, each once. -/
  inOrder : (sdmaRecords es).map SdmaRecord.seq ++
    qs.sdmaInflight.entries.map (fun e => e.2.seq) = List.range qs.sdmaSeq
  keys_le : ∀ k ∈ qs.sdmaInflight.keys, k ≤ qs.nextId

namespace SdmaAccounted

variable {w0 : Nat} {qs qs' : QueueState} {es fs : List Event}

theorem seq_eq (h : SdmaAccounted w0 qs es) :
    qs.sdmaSeq = (sdmaRecords es).length + qs.sdmaInflight.size := by
  have hlen := congrArg List.length h.inOrder
  simp only [List.length_append, List.length_map, List.length_range] at hlen
  exact hlen.symm

/-- Delivery follows the numbering. -/
theorem delivered_seqs (h : SdmaAccounted w0 qs es) :
    (sdmaRecords es).map SdmaRecord.seq = List.range (sdmaRecords es).length := by
  have htake := congrArg (List.take (sdmaRecords es).length) h.inOrder
  rw [List.take_append_of_le_length (by simp), List.take_of_length_le (by simp), List.take_range,
    Nat.min_eq_left (by have := h.seq_eq; omega)] at htake
  exact htake

/-- A later packet in flight ends later. -/
theorem inflight_ascending (h : SdmaAccounted w0 qs es) :
    qs.sdmaInflight.entries.Pairwise (fun a b => a.2.seq < b.2.seq ∧ a.1 < b.1) := by
  have hseq : (qs.sdmaInflight.entries.map (fun e => e.2.seq)).Pairwise (· < ·) := by
    have hrange : (List.range qs.sdmaSeq).Pairwise (· < ·) := List.pairwise_lt_range
    rw [← h.inOrder] at hrange
    exact (List.pairwise_append.1 hrange).2.1
  exact (List.pairwise_map.1 hseq).and qs.sdmaInflight.sorted

/-- **Every move keeps the books.** -/
theorem move {o : PollObs} {w r : Nat} (hw : w < 2 ^ 62) (h : SdmaAccounted w0 qs es)
    (hmove : SdmaMove o w r qs fs qs') : SdmaAccounted w0 qs' (es ++ fs) := by
  have hb := h.bound
  have hpos := h.position
  have hring := qs.info.numDwords_lt
  unfold decodedDwords at hpos
  have hsplit := qs.sdmaInflight.splitBelow_append (r + 1)
  cases hmove with
  | start =>
      exact ⟨hb, by simpa [decodedDwords] using hpos, by simpa [decodedSeqs] using h.handedOut,
        by simpa using h.inOrder, h.keys_le⟩
  | skip wrapped =>
      rw [u64_of_lt (by omega)] at wrapped
      have hbehind : qs.nextId + qs.info.numDwords ≤ w := by omega
      obtain ⟨hgap, hnext⟩ := u64Sub_skip (by omega) hbehind
      rw [hgap, hnext]
      refine ⟨by simp only; omega, ?_, by simpa [decodedSeqs] using h.handedOut,
        by simpa using h.inOrder, fun k hk => ?_⟩
      · rw [u64_of_lt (by omega)]
        simp only [decodedDwords, decodedPackets_append, decodedPackets_cons, Event.decoded?,
          Option.toList_none, decodedPackets_nil, List.append_nil]
        omega
      · have hle := h.keys_le k hk
        simp only
        omega
  | park window known whole made =>
      have hrec := made ▸ seq_sdmaRecord qs _ _ _ _
      have hlt : ∀ k ∈ qs.sdmaInflight.keys, k < qs.nextId + windowLen w qs _ :=
        fun k hk => Nat.lt_add_right_iff_pos.2 (Nat.pos_of_ne_zero known) |>.trans_le'
          (h.keys_le k hk)
      refine ⟨by simp only; omega, ?_, ?_, ?_, fun k hk => ?_⟩
      · simp [decodedDwords]
        omega
      · have hout := h.handedOut
        simp only [decodedSeqs] at hout ⊢
        simp [hout, hrec, List.range_succ]
      · simp only [sdmaRecords_append, OrdMap.entries_emplace_of_forall_lt hlt, List.map_append]
        simp [← List.append_assoc, h.inOrder, hrec, List.range_succ]
      · rcases OrdMap.mem_keys_emplace.1 hk with rfl | hk
        · exact Nat.le_refl _
        · exact (hlt k hk).le
  | resync window unknown enough =>
      have hlt := window.lt
      refine ⟨hw, ?_, by simpa [decodedSeqs] using h.handedOut, by simpa using h.inOrder,
        fun k hk => (h.keys_le k hk).trans hlt.le⟩
      rw [u64_of_lt (by omega)]
      simp only [decodedDwords, decodedPackets_append, decodedPackets_cons, Event.decoded?,
        Option.toList_none, decodedPackets_nil, List.append_nil]
      omega
  | drain =>
      refine ⟨hb, by simpa [decodedDwords] using hpos, by simpa [decodedSeqs] using h.handedOut, ?_,
        fun k hk => h.keys_le k ?_⟩
      · have horder := h.inOrder
        rw [← hsplit] at horder
        rw [sdmaRecords_append, sdmaRecords_drain, List.map_append, List.map_map, List.append_assoc]
        rw [List.map_append] at horder
        exact horder
      · rw [← qs.sdmaInflight.keys_splitBelow (r + 1)]
        exact List.mem_append_right _ hk
  | finish drained =>
      rw [List.append_nil]
      exact ⟨hb, hpos, h.handedOut, h.inOrder, h.keys_le⟩

end SdmaAccounted

/-! ## Runs -/

/-- The books between polls: open since priming, and nothing was done before. -/
def SdmaBooked (qs : QueueState) (es : List Event) : Prop :=
  match primingWptr es with
  | none => qs.primed = false ∧ qs.dropped = 0 ∧ qs.sdmaSeq = 0 ∧ qs.sdmaInflight = ∅ ∧
      sdmaRecords es = [] ∧ decodedPackets es = []
  | some w0 => qs.primed = true ∧ SdmaAccounted w0 qs es ∧
      ∀ k ∈ qs.sdmaInflight.keys, qs.lastRptr < k

theorem SdmaBooked.poll {qs : QueueState} {es : List Event} (h : SdmaBooked qs es) (o : PollObs) :
    SdmaBooked (pollSdmaQueue qs o).1 (es ++ (pollSdmaQueue qs o).2) := by
  refine pollSdmaQueue_elim qs o (fun qs' fs hcase => ?_)
  unfold SdmaBooked at h ⊢
  cases hcase with
  | failed unread =>
      rw [List.append_nil]
      split at h
      · exact h
      · exact ⟨h.1, ⟨h.2.1.bound, h.2.1.position, h.2.1.handedOut, h.2.1.inOrder, h.2.1.keys_le⟩, h.2.2⟩
  | noRing none =>
      rw [List.append_nil]
      split at h
      · exact h
      · exact ⟨h.1, ⟨h.2.1.bound, h.2.1.position, h.2.1.handedOut, h.2.1.inOrder, h.2.1.keys_le⟩, h.2.2⟩
  | @primes w r read ring fresh =>
      cases hprim : primingWptr es with
      | some w0 =>
          simp only [hprim] at h
          exact absurd h.1 (by simp [fresh])
      | none =>
          simp only [hprim] at h
          obtain ⟨-, hdropped, hseq, hinfl, hrecs, hdec⟩ := h
          have hw : primingWptr (es ++ [Event.pointers w r]) = some w :=
            primingWptr_append_of_none hprim
          simp only [hw, hinfl, OrdMap.keys_empty, List.not_mem_nil, false_implies, implies_true,
            and_true, true_and]
          refine ⟨(PollObs.dwords_lt read).1, ?_, ?_, ?_, ?_⟩
          · simp [decodedDwords, hdec, hdropped]
          · simp [decodedSeqs, hdec, hseq]
          · simp [hrecs, hseq]
          · simp
  | @polled w r mid qs' fs gs read ring primed decode stopped drain nextId drained last =>
      cases hprim : primingWptr es with
      | none =>
          simp only [hprim] at h
          exact absurd h.1 (by simp [primed])
      | some w0 =>
          simp only [hprim] at h
          simp only [primingWptr_append_of_some hprim]
          refine ⟨(SdmaMove.frame_steps (decode.trans drain)).2.1.trans primed, ?_,
            by rw [last]; exact drained⟩
          exact (decode.trans drain).invariant (SdmaAccounted w0)
            (fun _ _ _ _ hs hmove => hs.move (PollObs.dwords_lt read).1 hmove) h.2.1

theorem sdmaBooked_run (q : QueueInfo) (os : List PollObs) :
    SdmaBooked (Trace.run pollSdmaQueue (QueueState.new q) os).1
      (Trace.run pollSdmaQueue (QueueState.new q) os).2 :=
  Trace.run_invariant SdmaBooked ⟨rfl, rfl, rfl, rfl, rfl, rfl⟩ (fun _ _ o h => h.poll o) os

/-! ## The decode loop ends -/

/-- A poll in the middle of decoding: behind the guard it is at most one ring in front of the write
    pointer, and every packet took it forward by a dword at least. -/
structure Striding (q : QueueInfo) (w : Nat) (qs : QueueState) (es : List Event) : Prop where
  info : qs.info = q
  bound : qs.nextId < 2 ^ 62
  strides : (decodedPackets es).length = 0 ∨
    (w + (decodedPackets es).length ≤ qs.nextId + q.numDwords ∧ qs.nextId ≤ w)

theorem Striding.move {q : QueueInfo} {o : PollObs} {w r : Nat} {qs qs' : QueueState}
    {es fs : List Event} (hw : w < 2 ^ 62) (h : Striding q w qs es)
    (hmove : SdmaMove o w r qs fs qs') : Striding q w qs' (es ++ fs) := by
  have hinfo := h.info
  have hb := h.bound
  have hring := q.numDwords_lt
  have hbound := (hmove.nextId_le hw hb).2
  have hstrides := h.strides
  cases hmove with
  | start => exact ⟨hinfo, hb, by simpa using hstrides⟩
  | skip wrapped =>
      rw [hinfo, u64_of_lt (by omega)] at wrapped
      refine ⟨hinfo, hbound, .inl ?_⟩
      rcases hstrides with hnone | hstrides
      · simpa using hnone
      · omega
  | park window known whole made =>
      have hlt := window.lt
      have hin := window.inRing
      rw [hinfo] at hin
      refine ⟨hinfo, hbound, .inr ?_⟩
      simp only [decodedPackets_append, decodedPackets_cons, Event.decoded?, Option.toList_some,
        decodedPackets_nil, List.append_nil, List.length_append, List.length_singleton]
      omega
  | resync window unknown enough =>
      refine ⟨hinfo, hw, hstrides.imp (by simp) (fun hstrides => ?_)⟩
      simp only [decodedPackets_append, decodedPackets_cons, Event.decoded?, Option.toList_none,
        decodedPackets_nil, List.append_nil]
      omega
  | drain => exact ⟨hinfo, hb, by simpa using hstrides⟩
  | finish drained => exact ⟨hinfo, hb, by simpa using hstrides⟩

/-- A poll decodes at most one ring's worth of packets. -/
theorem pollSdmaQueue_length {qs : QueueState} (hb : qs.nextId < 2 ^ 62) (o : PollObs) :
    (decodedPackets (pollSdmaQueue qs o).2).length ≤ qs.info.numDwords := by
  refine pollSdmaQueue_elim qs o (fun qs' fs hcase => ?_)
  cases hcase with
  | failed unread => exact Nat.zero_le _
  | noRing none => exact Nat.zero_le _
  | primes read ring fresh => exact Nat.zero_le _
  | @polled w r mid qs' fs gs read ring primed decode stopped drain nextId drained last =>
      have hstart : Striding qs.info w qs [] := ⟨rfl, hb, .inl rfl⟩
      have hend := (decode.trans drain).invariant (Striding qs.info w)
        (fun _ _ _ _ hs hmove => hs.move (PollObs.dwords_lt read).1 hmove) hstart
      rw [List.nil_append] at hend
      rcases hend.strides with hnone | hstrides <;> omega

/-- **SDMA accounting**: after every sequence of polls, whatever the pointers, the ring contents and
    the failed reads, a queue primed at dword `w0` has decoded or dropped every dword since; every
    decoded packet was delivered or is in flight; packets are numbered 0, 1, 2, … and delivered in that
    order; in flight, a later packet ends later, at or before `next_id` and behind the read pointer;
    and a further poll ends its decode loop after at most one ring's worth of packets. -/
theorem pollSdmaQueue_accounted (q : QueueInfo) (os : List PollObs) (w0 : Nat)
    (hprimed : primingWptr (Trace.run pollSdmaQueue (QueueState.new q) os).2 = some w0) :
    let qs := (Trace.run pollSdmaQueue (QueueState.new q) os).1
    let es := (Trace.run pollSdmaQueue (QueueState.new q) os).2
    (w0 ≤ qs.nextId ∧ qs.nextId - w0 = decodedDwords es + qs.dropped) ∧
      qs.sdmaSeq = (sdmaRecords es).length + qs.sdmaInflight.size ∧
      decodedSeqs es = List.range qs.sdmaSeq ∧
      (sdmaRecords es).map SdmaRecord.seq = List.range (sdmaRecords es).length ∧
      qs.sdmaInflight.entries.Pairwise (fun a b => a.2.seq < b.2.seq ∧ a.1 < b.1) ∧
      (∀ k ∈ qs.sdmaInflight.keys, k ≤ qs.nextId ∧ qs.lastRptr < k) ∧
      ∀ o, (decodedPackets (pollSdmaQueue qs o).2).length ≤ qs.info.numDwords := by
  intro qs es
  have hbook := sdmaBooked_run q os
  unfold SdmaBooked at hbook
  rw [hprimed] at hbook
  obtain ⟨-, hacc, hrptr⟩ := hbook
  have hpos : qs.nextId = w0 + decodedDwords es + qs.dropped := hacc.position
  refine ⟨⟨by omega, by omega⟩, hacc.seq_eq, hacc.handedOut, hacc.delivered_seqs,
    hacc.inflight_ascending, fun k hk => ⟨hacc.keys_le k hk, hrptr k hk⟩, pollSdmaQueue_length hacc.bound⟩

/-- A ring of eight dwords: a trap packet, then garbage. -/
def trapThenGarbage : ProcMem := .ofBytes (fun a => if a = 0 then 6 else if a < 8 then 0 else 255)

/-- The trap is put in flight and the garbage dropped; then the trap is consumed. -/
def trapPolls : List PollObs :=
  [.still 0 0 0 trapThenGarbage, .still 1 24 0 trapThenGarbage, .still 2 24 8 trapThenGarbage]

theorem accounted_trapThenGarbage :
    let q : QueueInfo := { ringSize := 32, qtype := 1, sdmaVersion := .v4 }
    let qs := (Trace.run pollSdmaQueue (QueueState.new q) trapPolls).1
    let es := (Trace.run pollSdmaQueue (QueueState.new q) trapPolls).2
    primingWptr es = some 0 ∧ qs.nextId = 6 ∧ decodedDwords es = 2 ∧ qs.dropped = 4 ∧
      (sdmaRecords es).length = 1 ∧ qs.nextId - 0 = decodedDwords es + qs.dropped ∧
      (sdmaRecords es).map SdmaRecord.seq = List.range (sdmaRecords es).length := by
  intro q qs es
  have hprimed : primingWptr es = some 0 := by decide +kernel
  have hacc := pollSdmaQueue_accounted q trapPolls 0 hprimed
  exact ⟨hprimed, by decide +kernel, by decide +kernel, by decide +kernel, by decide +kernel,
    hacc.1.2, hacc.2.2.2.1⟩

end HsaSnoop
