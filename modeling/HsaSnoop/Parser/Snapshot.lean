import Mathlib.Data.Int.ModEq
import HsaSnoop.Parser.PollQueue

set_option autoImplicit false

/-! # What a decoded AQL record says about the packet it came from

A *history* gives the bytes of every packet by its id. A poll sees a snapshot of the ring in which
each slot holds the newest packet that was written to it, except that its header may read as
`INVALID`: not published yet, or reset on consumption. Slots are reused every lap, so whether a record
belongs to the id it is filed under rests on the wrap guard: ids are only decoded while they are the
newest of their slot (`LatestInSlot.of_inRing`).

Two results: the body of a record is that of its own packet, whatever the overrun; and a record
labelled as a dispatch is one, exactly for histories in which no other packet has a non-zero word
where a dispatch keeps its kernel object. -/

namespace HsaSnoop

/-! ## Snapshots of the ring -/

/-- `id` is the newest packet of slot `j`. -/
def LatestInSlot (slots wptr j id : Nat) : Prop :=
  id < wptr ∧ id % slots = j ∧ ∀ k, k < wptr → k % slots = j → k ≤ id

/-- An id at most one ring behind the write pointer is the newest of its slot. -/
theorem LatestInSlot.of_inRing {slots wptr id : Nat} (hlt : id < wptr) (hring : wptr ≤ id + slots) :
    LatestInSlot slots wptr (id % slots) id := by
  refine ⟨hlt, rfl, fun k hk hmod => ?_⟩
  by_contra hgt
  have hpos : 0 < k - id := by omega
  -- Two ids of one slot are a whole number of rings apart.
  have hdvd : slots ∣ k - id := (Nat.modEq_iff_dvd' (by omega)).1 (Nat.ModEq.symm hmod)
  have hle := Nat.le_of_dvd hpos hdvd
  omega

/-- The slot bytes `raw` are those of the packet `pkt`, up to a header that reads as `INVALID`. -/
structure Holds (raw pkt : Nat → UInt8) : Prop where
  rest : ∀ i, 2 ≤ i → i < Aql.kPacketSize → raw i = pkt i
  header : Aql.rawHeader raw = Aql.rawHeader pkt ∨ Aql.rawType raw = .invalid

/-- The 64 bytes of ring slot `j`. -/
def ringSlot (q : QueueInfo) (m : ProcMem) (j : Nat) : Nat → UInt8 :=
  fun i => m.byte (u64 (q.ringBase.toNat + j * Aql.kPacketSize) + i)

/-- What a poll that read `wptr` sees in the ring, at any moment of the poll: in every slot the
    newest packet of the history. -/
def RingHolds (q : QueueInfo) (pkts : Nat → Nat → UInt8) (wptr : Nat) (o : PollObs) : Prop :=
  ∀ t j id, LatestInSlot q.numSlots wptr j id → Holds (ringSlot q (o.mem t) j) (pkts id)

/-- A poll that sees a snapshot of the history `pkts`. -/
def Snapshot (q : QueueInfo) (pkts : Nat → Nat → UInt8) (o : PollObs) : Prop :=
  ∀ w, o.wptr = some w → RingHolds q pkts w.toNat o

theorem slotBytes_eq_ringSlot {q : QueueInfo} {m : ProcMem} {id : Nat} {raw : Nat → UInt8}
    (h : slotBytes q m id = some raw) : raw = ringSlot q m (id % q.numSlots) := by
  simp only [slotBytes, readProcMem] at h
  split at h
  · simp at h
  · split at h
    · exact (Option.some.inj h).symm
    · simp at h

/-! ## Records and their packets -/

/-- What a record says about the packet of its id. -/
structure Faithful (pkts : Nat → Nat → UInt8) (rec : PacketRecord) : Prop where
  /-- It is below some 64-bit write pointer. -/
  id_lt : rec.dispatchId + 1 < 2 ^ 64
  body : rec.type = .kernelDispatch →
    rec.body = Aql.KernelDispatchPacket.ofRaw (pkts rec.dispatchId)
  dispatch : Aql.rawType (pkts rec.dispatchId) = .kernelDispatch → rec.type = .kernelDispatch
  /-- The type is the packet's, unless a reset header hid a non-zero kernel-object word. -/
  type : rec.type = Aql.rawType (pkts rec.dispatchId) ∨
    (rec.type = .kernelDispatch ∧
      (Aql.KernelDispatchPacket.ofRaw (pkts rec.dispatchId)).kernelObject ≠ 0)

theorem DecodedFrom.faithful {q : QueueInfo} {pkts : Nat → Nat → UInt8} {raw : Nat → UInt8}
    {id rptr : Nat} {rec : PacketRecord} (h : DecodedFrom q raw id rptr rec)
    (hraw : Holds raw (pkts id)) (hid : id + 1 < 2 ^ 64) : Faithful pkts rec := by
  have hview : Aql.KernelDispatchPacket.ofRaw raw = Aql.KernelDispatchPacket.ofRaw (pkts id) :=
    Aql.KernelDispatchPacket.ofRaw_congr hraw.rest
  have hbody : rec.type = .kernelDispatch →
      rec.body = Aql.KernelDispatchPacket.ofRaw (pkts id) := fun hty => hview ▸ h.body hty
  obtain rfl := h.dispatchId
  rcases h.type with ⟨hpub, hty⟩ | ⟨hinv, hcons, hko, hty⟩
  · have heq : rec.type = Aql.rawType (pkts rec.dispatchId) := by
      rcases hraw.header with hhdr | hinv
      · rw [hty, Aql.rawType, hhdr, Aql.rawType]
      · exact absurd hinv hpub
    exact ⟨hid, hbody, fun hkd => heq.trans hkd, Or.inl heq⟩
  · rw [hview] at hko
    exact ⟨hid, hbody, fun _ => hty, Or.inr ⟨hty, hko⟩⟩

/-- Stamping the times of a record does not change what it says. -/
theorem Faithful.submitted {pkts : Nat → Nat → UInt8} {rec : PacketRecord}
    (h : Faithful pkts rec) (now : Time) : Faithful pkts { rec with submitTs := now } :=
  ⟨h.id_lt, h.body, h.dispatch, h.type⟩

theorem Faithful.complete {pkts : Nat → Nat → UInt8} {rec : PacketRecord}
    (h : Faithful pkts rec) (now : Time) : Faithful pkts (rec.complete now) :=
  ⟨h.id_lt, h.body, h.dispatch, h.type⟩

/-! ## The invariant -/

/-- Everything emitted, put in flight or still in flight satisfies `P`. -/
structure AllRecords (P : PacketRecord → Prop) (qs : QueueState) (es : List Event) : Prop where
  inflight : ∀ e ∈ qs.inflight.entries, P e.2
  sunk : ∀ rec, Event.sink rec ∈ es → P rec
  parked : ∀ rec, Event.park rec ∈ es → P rec

theorem allRecords_move {q : QueueInfo} {pkts : Nat → Nat → UInt8} {o : PollObs} {wptr rptr : Nat}
    {qs qs' : QueueState} {es fs : List Event} (hw : wptr < 2 ^ 64)
    (hring : RingHolds q pkts wptr o) (hinfo : qs.info = q) 
    (h : AllRecords (Faithful pkts) qs es) (hmove : PollMove o wptr rptr qs fs qs') :
    AllRecords (Faithful pkts) qs' (es ++ fs) := by
  -- What the loop decodes is the newest packet of its slot.
  have hdecoded : ∀ {rec ksym}, qs.nextId < wptr → wptr ≤ qs.nextId + qs.info.numSlots →
      decodeSlot qs (o.mem qs.nextId) qs.nextId rptr = (some rec, ksym) → Faithful pkts rec := by
    intro rec ksym hlt hin hdec
    obtain ⟨raw, hraw, hfrom⟩ := decodeSlot_some hdec
    subst hinfo
    refine hfrom.faithful ?_ (by omega)
    rw [slotBytes_eq_ringSlot hraw]
    exact hring _ _ _ (LatestInSlot.of_inRing hlt hin)
  cases hmove with
  | start | skip | miss | finish =>
      exact ⟨h.inflight, by simpa using h.sunk, by simpa using h.parked⟩
  | emit lt inRing consumed decoded =>
      have hrec := ((hdecoded lt inRing decoded).submitted o.now).complete o.now
      refine ⟨h.inflight, fun rec hrec' => ?_, by simpa using h.parked⟩
      rcases List.mem_append.1 hrec' with hold | hnew
      · exact h.sunk rec hold
      · obtain rfl := Event.sink.inj (List.mem_singleton.1 hnew)
        exact hrec
  | park lt inRing waiting decoded =>
      have hrec := (hdecoded lt inRing decoded).submitted o.now
      refine ⟨fun e he => ?_, by simpa using h.sunk, fun rec hrec' => ?_⟩
      · rcases OrdMap.mem_entries_emplace he with rfl | he
        · exact hrec
        · exact h.inflight e he
      · rcases List.mem_append.1 hrec' with hold | hnew
        · exact h.parked rec hold
        · obtain rfl := Event.park.inj (List.mem_singleton.1 hnew)
          exact hrec
  | drain =>
      refine ⟨fun e he => h.inflight e (OrdMap.mem_entries_of_mem_splitBelow_snd he),
        fun rec hrec' => ?_, by simpa using h.parked⟩
      rcases List.mem_append.1 hrec' with hold | hnew
      · exact h.sunk rec hold
      · obtain ⟨e, he, hsink⟩ := List.mem_map.1 hnew
        obtain rfl := Event.sink.inj hsink
        exact (h.inflight e (OrdMap.mem_entries_of_mem_splitBelow_fst he)).complete o.now

theorem allRecords_poll {q : QueueInfo} {pkts : Nat → Nat → UInt8} {qs : QueueState}
    {es : List Event} {o : PollObs} (ho : Snapshot q pkts o) (hinfo : qs.info = q)
    (h : AllRecords (Faithful pkts) qs es) :
    (pollQueue qs o).1.info = q ∧
      AllRecords (Faithful pkts) (pollQueue qs o).1 (es ++ (pollQueue qs o).2) := by
  refine pollQueue_elim qs o (fun qs' fs hcase => ?_)
  cases hcase with
  | failed unread => exact ⟨hinfo, h.inflight, by simpa using h.sunk, by simpa using h.parked⟩
  | primes hw hr fresh =>
      exact ⟨hinfo, h.inflight, by simpa using h.sunk, by simpa using h.parked⟩
  | @polled w r qs' fs hw hr primed steps drained last stopped =>
      refine steps.invariant (fun t gs => t.info = q ∧ AllRecords (Faithful pkts) t gs) ?_
        ⟨hinfo, h⟩
      rintro s gs t gs' ⟨hs, hgs⟩ hmove
      exact ⟨hmove.frame.1.trans hs, allRecords_move w.toNat_lt (ho w hw) hs hgs hmove⟩

/-- Every record of a run over snapshots of a history is faithful to it. -/
theorem allRecords_run {q : QueueInfo} {pkts : Nat → Nat → UInt8} {os : List PollObs}
    (hos : ∀ o ∈ os, Snapshot q pkts o) :
    AllRecords (Faithful pkts) (Trace.run pollQueue (QueueState.new q) os).1
      (Trace.run pollQueue (QueueState.new q) os).2 := by
  have hinit : AllRecords (Faithful pkts) (QueueState.new q) [] :=
    ⟨by simp [QueueState.new], by simp, by simp⟩
  have hinv := Trace.run_invariant_along (C := fun _ o => Snapshot q pkts o)
    (fun t es => t.info = q ∧ AllRecords (Faithful pkts) t es) ⟨rfl, hinit⟩
    (fun _ _ _ h ho => allRecords_poll ho h.1 h.2) (Trace.Along.of_forall_mem hos)
  exact hinv.2

/-! ## Slot fidelity -/

/-- **Slot fidelity.** In every run over snapshots of a history, with any overrun between the polls, a
    record that is emitted, put in flight or in flight carries the body of the packet of its own id. -/
theorem pollQueue_slot_fidelity (q : QueueInfo) (pkts : Nat → Nat → UInt8) (os : List PollObs)
    (hos : ∀ o ∈ os, Snapshot q pkts o) :
    let qs := (Trace.run pollQueue (QueueState.new q) os).1
    let es := (Trace.run pollQueue (QueueState.new q) os).2
    ∀ rec, Event.sink rec ∈ es ∨ Event.park rec ∈ es ∨ rec ∈ qs.inflight.entries.map Prod.snd →
      (rec.type = .kernelDispatch →
        rec.body = Aql.KernelDispatchPacket.ofRaw (pkts rec.dispatchId)) ∧
      (Aql.rawType (pkts rec.dispatchId) = .kernelDispatch → rec.type = .kernelDispatch) := by
  intro qs es rec hrec
  have hall := allRecords_run hos
  have hfaith : Faithful pkts rec := by
    rcases hrec with hsunk | hparked | hin
    · exact hall.sunk rec hsunk
    · exact hall.parked rec hparked
    · obtain ⟨e, he, rfl⟩ := List.mem_map.1 hin
      exact hall.inflight e he
  exact ⟨hfaith.body, hfaith.dispatch⟩

/-! ## A one-slot ring -/

/-- A queue whose ring is the first 64 bytes of the address space. -/
def oneSlot : QueueInfo := { ringSize := 64, qtype := 2, uid := 1 }

@[simp] theorem numSlots_oneSlot : oneSlot.numSlots = 1 := by decide

theorem ringSlot_oneSlot (raw : Nat → UInt8) : ringSlot oneSlot (.ofBytes raw) 0 = raw := by
  funext i
  have hbase : u64 (oneSlot.ringBase.toNat + 0 * Aql.kPacketSize) = 0 := by decide
  simp only [ringSlot, hbase, Nat.zero_add, ProcMem.ofBytes]

theorem slotBytes_oneSlot (raw : Nat → UInt8) (id : Nat) :
    slotBytes oneSlot (.ofBytes raw) id = some raw := by
  have hslot : slotBytes oneSlot (.ofBytes raw) 0 = some (ringSlot oneSlot (.ofBytes raw) 0) := rfl
  rw [ringSlot_oneSlot] at hslot
  simpa only [slotBytes, numSlots_oneSlot, Nat.mod_one] using hslot

/-- The only slot has to hold the last packet written. -/
theorem snapshot_oneSlot {pkts : Nat → Nat → UInt8} {raw : Nat → UInt8} {now : Time}
    {w r : UInt64} (h : ∀ k, w.toNat = k + 1 → Holds raw (pkts k)) :
    Snapshot oneSlot pkts (.still now w r (.ofBytes raw)) := by
  intro w' hw' t j id hlatest
  obtain rfl := Option.some.inj hw'
  obtain ⟨hlt, hmod, hmax⟩ := hlatest
  rw [numSlots_oneSlot, Nat.mod_one] at hmod
  subst hmod
  have hlast := hmax (w.toNat - 1) (by omega) (by simp [Nat.mod_one])
  have hslot : ringSlot oneSlot ((PollObs.still now w r (.ofBytes raw)).mem t) 0 = raw :=
    ringSlot_oneSlot raw
  rw [hslot]
  exact h id (by omega)

/-- Consumption overwrites the 16-bit header with `INVALID`. -/
def resetHeader (pkt : Nat → UInt8) : Nat → UInt8
  | 0 => 1
  | 1 => 0
  | i + 2 => pkt (i + 2)

theorem holds_self (pkt : Nat → UInt8) : Holds pkt pkt := ⟨fun _ _ _ => rfl, Or.inl rfl⟩

theorem rawType_resetHeader (pkt : Nat → UInt8) : Aql.rawType (resetHeader pkt) = .invalid := by
  simp only [Aql.rawType, Aql.rawHeader, leNat, resetHeader]
  decide

theorem holds_resetHeader (pkt : Nat → UInt8) : Holds (resetHeader pkt) pkt := by
  refine ⟨fun i hi _ => ?_, Or.inr (rawType_resetHeader pkt)⟩
  obtain ⟨n, rfl⟩ := Nat.exists_eq_add_of_le' hi
  rfl

/-- Dispatches told apart by their kernel object. -/
def numberedDispatches : Nat → Nat → UInt8 :=
  fun k i => if i = 0 then 2 else if i = 32 then UInt8.ofNat (k + 1) else 0

/-- The producer overruns a one-slot ring by two packets: the record is that of packet 2. -/
theorem slot_fidelity_overrun :
    let os : List PollObs :=
      [.still 0 0 0 (.ofBytes fun _ => 0), .still 1 3 2 (.ofBytes (numberedDispatches 2))]
    let es := (Trace.run pollQueue (QueueState.new oneSlot) os).2
    dropIds es = [0, 1] ∧
      ∃ rec, Event.park rec ∈ es ∧ rec.dispatchId = 2 ∧
        (rec.type = .kernelDispatch →
          rec.body = Aql.KernelDispatchPacket.ofRaw (numberedDispatches rec.dispatchId)) := by
  intro os es
  have hsnap : ∀ o ∈ os, Snapshot oneSlot numberedDispatches o := by
    intro o ho
    rcases List.mem_cons.1 ho with rfl | ho
    · exact snapshot_oneSlot (fun k hk => absurd hk (by simp))
    · obtain rfl := List.mem_singleton.1 ho
      refine snapshot_oneSlot (fun k hk => ?_)
      obtain rfl : 2 = k := Nat.succ.inj hk
      exact holds_self _
  have hparked : es.findSome? (fun | .park rec => some rec.dispatchId | _ => none) = some 2 := by
    decide +kernel
  obtain ⟨e, he, hid⟩ := List.exists_of_findSome?_eq_some hparked
  refine ⟨by decide +kernel, ?_⟩
  cases e with
  | park rec =>
      exact ⟨rec, he, Option.some.inj hid,
        (pollQueue_slot_fidelity oneSlot numberedDispatches os hsnap rec
          (Or.inr (Or.inl he))).1⟩
  | _ => simp at hid

/-! ## Dispatch labels -/

/-- The word of a packet that stands where a dispatch keeps its kernel object: the fourth dependency
    signal of a barrier, the third argument of an agent dispatch, bytes 32 to 39 otherwise. -/
def fastResetWord (pkt : Nat → UInt8) : Nat :=
  match Aql.rawType pkt with
  | .barrierAnd | .barrierOr => (Aql.BarrierPacket.ofRaw pkt).depSignal 3
  | .agentDispatch => (Aql.AgentDispatchPacket.ofRaw pkt).arg 2
  | _ => leNat pkt 32 8

theorem fastResetWord_eq (pkt : Nat → UInt8) :
    fastResetWord pkt = (Aql.KernelDispatchPacket.ofRaw pkt).kernelObject := by
  unfold fastResetWord
  split <;> rfl

/-- No run over snapshots of the history labels another packet as a dispatch. -/
def DispatchLabelsSound (pkts : Nat → Nat → UInt8) : Prop :=
  ∀ (q : QueueInfo) (os : List PollObs), (∀ o ∈ os, Snapshot q pkts o) →
    ∀ rec, Event.sink rec ∈ (Trace.run pollQueue (QueueState.new q) os).2 ∨
        Event.park rec ∈ (Trace.run pollQueue (QueueState.new q) os).2 →
      rec.type = .kernelDispatch → Aql.rawType (pkts rec.dispatchId) = .kernelDispatch

/-- A ring of one slot that is primed just before packet `k` and polled again once that is consumed
    and its header reset. -/
def resetRun (pkts : Nat → Nat → UInt8) (k : UInt64) : List PollObs :=
  [.still 0 k k (.ofBytes (pkts (k.toNat - 1))),
    .still 1 (k + 1) (k + 1) (.ofBytes (resetHeader (pkts k.toNat)))]

theorem snapshot_resetRun (pkts : Nat → Nat → UInt8) {k : UInt64} (hk : k.toNat + 1 < 2 ^ 64) :
    ∀ o ∈ resetRun pkts k, Snapshot oneSlot pkts o := by
  have hsucc : (k + 1).toNat = k.toNat + 1 := by
    rw [UInt64.toNat_add, UInt64.toNat_one, Nat.mod_eq_of_lt hk]
  intro o ho
  rcases List.mem_cons.1 ho with rfl | ho
  · refine snapshot_oneSlot (fun j hj => ?_)
    rw [hj, Nat.add_sub_cancel]
    exact holds_self _
  · obtain rfl := List.mem_singleton.1 ho
    refine snapshot_oneSlot (fun j hj => ?_)
    obtain rfl : k.toNat = j := by omega
    exact holds_resetHeader _

/-- A consumed slot with a reset header and a non-zero word is decoded as a dispatch. -/
theorem decodeSlot_resetHeader {qs : QueueState} (hinfo : qs.info = oneSlot) {pkt : Nat → UInt8}
    (hword : fastResetWord pkt ≠ 0) {id rptr : Nat} (hid : id < rptr) :
    ∃ rec ksym, decodeSlot qs (.ofBytes (resetHeader pkt)) id rptr = (some rec, ksym) ∧
      rec.dispatchId = id ∧ rec.type = .kernelDispatch := by
  have hko : (Aql.KernelDispatchPacket.ofRaw (resetHeader pkt)).kernelObject ≠ 0 := by
    rwa [fastResetWord_eq, ← Aql.KernelDispatchPacket.ofRaw_congr (holds_resetHeader pkt).rest]
      at hword
  have hdec : slotDecodes qs.info (.ofBytes (resetHeader pkt)) id rptr = true := by
    rw [hinfo]
    simp [slotDecodes, slotBytes_oneSlot, hid, hko]
  rw [← decodeSlot_isSome] at hdec
  obtain ⟨rec, hrec⟩ := Option.isSome_iff_exists.1 hdec
  refine ⟨rec, (decodeSlot qs (.ofBytes (resetHeader pkt)) id rptr).2, Prod.ext hrec rfl, ?_⟩
  obtain ⟨raw, hraw, hfrom⟩ := decodeSlot_some (Prod.ext hrec rfl)
  rw [hinfo, slotBytes_oneSlot] at hraw
  obtain rfl := Option.some.inj hraw
  refine ⟨hfrom.dispatchId, ?_⟩
  rcases hfrom.type with ⟨hpub, -⟩ | ⟨-, -, -, hty⟩
  · exact absurd (rawType_resetHeader pkt) hpub
  · exact hty

/-- If the word is non-zero, that run emits packet `k` as a dispatch. -/
theorem sink_resetRun (pkts : Nat → Nat → UInt8) {k : UInt64} (hk : k.toNat + 1 < 2 ^ 64)
    (hword : fastResetWord (pkts k.toNat) ≠ 0) :
    ∃ rec, Event.sink rec ∈ (Trace.run pollQueue (QueueState.new oneSlot) (resetRun pkts k)).2 ∧
      rec.dispatchId = k.toNat ∧ rec.type = .kernelDispatch := by
  have hsucc : (k + 1).toNat = k.toNat + 1 := by
    rw [UInt64.toNat_add, UInt64.toNat_one, Nat.mod_eq_of_lt hk]
  -- The state after priming at `k`.
  let primed : QueueState :=
    { QueueState.new oneSlot with nextId := k.toNat, lastRptr := k.toNat, primed := true }
  obtain ⟨rec, ksym, hdec, hid, hty⟩ :=
    @decodeSlot_resetHeader primed rfl _ hword k.toNat (k.toNat + 1) (Nat.lt_succ_self _)
  refine ⟨PacketRecord.complete { rec with submitTs := 1 } 1, ?_, hid, hty⟩
  have hskip : skipWrapped (k.toNat + 1) primed = (primed, []) := by
    have hslots : primed.info.numSlots = 1 := numSlots_oneSlot
    have hnext : u64 (primed.nextId + primed.info.numSlots) = k.toNat + 1 := by
      rw [hslots]
      exact u64_of_lt hk
    simp [skipWrapped, hnext]
  have hloop : Event.sink (PacketRecord.complete { rec with submitTs := 1 } 1) ∈
      (decodeLoop (.still 1 (k + 1) (k + 1) (.ofBytes (resetHeader (pkts k.toNat))))
        (k.toNat + 1) (k.toNat + 1) primed).2 := by
    rw [decodeLoop, if_pos (Nat.lt_succ_self k.toNat)]
    simp only [PollObs.still]
    rw [show primed.nextId = k.toNat from rfl, hdec]
    simp
  have hpoll : (Trace.run pollQueue (QueueState.new oneSlot) (resetRun pkts k)).2 =
      .pointers k.toNat k.toNat ::
        (pollQueue primed
          (.still 1 (k + 1) (k + 1) (.ofBytes (resetHeader (pkts k.toNat))))).2 := by
    simp [resetRun, Trace.run, pollQueue, PollObs.still, QueueState.new, primed]
  rw [hpoll, pollQueue_primed rfl rfl rfl, hsucc]
  simp only [pollPrimed]
  rw [show ({ primed with readFailCount := 0 } : QueueState) = primed from rfl, hskip]
  simp [hloop]

/-- **Dispatch labels.** A history is labelled correctly in every run exactly when no packet of
    another type has a non-zero word where a dispatch keeps its kernel object. -/
theorem dispatchLabelsSound_iff (pkts : Nat → Nat → UInt8) :
    DispatchLabelsSound pkts ↔
      ∀ k, k + 1 < 2 ^ 64 → Aql.rawType (pkts k) ≠ .kernelDispatch → fastResetWord (pkts k) = 0 := by
  constructor
  · intro hsound k hk hty
    by_contra hword
    have hcast : (UInt64.ofNat k).toNat = k := UInt64.toNat_ofNat_of_lt' (by
      rw [UInt64.size]
      omega)
    obtain ⟨rec, hsink, hid, hkd⟩ := @sink_resetRun pkts (UInt64.ofNat k) (by rwa [hcast])
      (by rwa [hcast])
    have hlabel := hsound oneSlot (resetRun pkts (UInt64.ofNat k))
      (snapshot_resetRun pkts (by rwa [hcast])) rec (Or.inl hsink) hkd
    rw [hid, hcast] at hlabel
    exact hty hlabel
  · intro hzero q os hos rec hrec hkd
    have hall := allRecords_run hos
    have hfaith : Faithful pkts rec := hrec.elim (hall.sunk rec) (hall.parked rec)
    by_contra hty
    rcases hfaith.type with heq | ⟨-, hword⟩
    · exact hty (heq.symm.trans hkd)
    · rw [← fastResetWord_eq] at hword
      exact hword (hzero _ hfaith.id_lt hty)

/-- A history of barriers that wait for their fourth dependency signal. -/
def fourthSignalBarriers : Nat → Nat → UInt8 := fun _ i => if i = 0 then 3 else if i = 32 then 1 else 0

/-- The first barrier is published, consumed and reset between two polls, and reported as a
    dispatch. -/
theorem barrier_labelled_dispatch :
    (∀ o ∈ resetRun fourthSignalBarriers 0, Snapshot oneSlot fourthSignalBarriers o) ∧
      Aql.rawType (fourthSignalBarriers 0) = .barrierAnd ∧
      (sinkRecords (Trace.run pollQueue (QueueState.new oneSlot)
          (resetRun fourthSignalBarriers 0)).2).map (fun rec => (rec.dispatchId, rec.type)) =
        [(0, .kernelDispatch)] ∧
      ¬ DispatchLabelsSound fourthSignalBarriers := by
  have hsnap : ∀ o ∈ resetRun fourthSignalBarriers 0, Snapshot oneSlot fourthSignalBarriers o :=
    snapshot_resetRun fourthSignalBarriers (by decide)
  refine ⟨hsnap, by decide, by decide +kernel, fun hsound => ?_⟩
  obtain ⟨rec, hsink, -, hkd⟩ := @sink_resetRun fourthSignalBarriers 0 (by decide) (by decide)
  have hlabel := hsound oneSlot _ hsnap rec (Or.inl hsink) hkd
  exact absurd (show Aql.rawType (fourthSignalBarriers 0) = .kernelDispatch from hlabel) (by decide)

end HsaSnoop
