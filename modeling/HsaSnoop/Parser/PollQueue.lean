import HsaSnoop.Parser.State

set_option autoImplicit false

/-! # Polling an AQL queue

`decodeSlot` and `pollQueue` as the source has them, and the one lemma every later result about the
AQL path rests on: `pollQueue_cases`, which says what a poll can do. A poll either could not read its
pointers, or primes the queue, or makes finitely many *moves* (`PollMove`): skip ids the producer has
wrapped over, emit a packet that is already consumed, park one that is not, miss one that cannot be
decoded any more, and finally drain what the read pointer has passed. -/

namespace HsaSnoop

/-! ## Decoding one slot -/

/-- Read and decode the AQL packet in the ring slot of `id`. Gives nothing when the slot cannot be
    read or its header is not published; a consumed slot (`id < rptr`) whose header was reset but
    whose `kernel_object` word is non-zero is decoded as a dispatch. -/
def decodeSlot (qs : QueueState) (m : ProcMem) (id rptr : Nat) :
    Option PacketRecord × KernelSymbolResolver :=
  let q := qs.info
  let slots := q.numSlots
  if slots = 0 then (none, qs.ksym)
  else
    let addr := u64 (q.ringBase.toNat + (id % slots) * Aql.kPacketSize)
    match readProcMem m addr Aql.kPacketSize with
    | none => (none, qs.ksym)
    | some raw =>
        let header := Aql.rawHeader raw
        let type := Aql.headerType header
        let p := Aql.KernelDispatchPacket.ofRaw raw
        if type = .invalid then
          if id < rptr then
            if p.kernelObject ≠ 0 then
              -- Synthesize as KernelDispatch: the header was reset by the GPU.
              let r : PacketRecord :=
                { queueUid := q.uid, dispatchId := id, type := .kernelDispatch, barrier := false }
              let named := qs.ksym.resolve m p.kernelObject
              (some (r.withDispatch p named.1), named.2)
            else (none, qs.ksym)
          else (none, qs.ksym)
        else
          let r : PacketRecord :=
            { queueUid := q.uid, dispatchId := id, type := type
              barrier := Aql.headerBarrier header }
          if type = .kernelDispatch then
            let named := qs.ksym.resolve m p.kernelObject
            (some (r.withDispatch p named.1), named.2)
          else (some { r with kernelName := Aql.packetTypeName type }, qs.ksym)

/-- The bytes `decodeSlot` looks at for `id`. -/
def slotBytes (q : QueueInfo) (m : ProcMem) (id : Nat) : Option (Nat → UInt8) :=
  if q.numSlots = 0 then none
  else readProcMem m (u64 (q.ringBase.toNat + (id % q.numSlots) * Aql.kPacketSize)) Aql.kPacketSize

/-- Whether `decodeSlot` produces a record for `id`: the slot can be read, and its header is
    published or the slot is consumed with a non-zero `kernel_object` word. -/
def slotDecodes (q : QueueInfo) (m : ProcMem) (id rptr : Nat) : Bool :=
  match slotBytes q m id with
  | none => false
  | some raw =>
      Aql.rawType raw ≠ .invalid ||
        (decide (id < rptr) && (Aql.KernelDispatchPacket.ofRaw raw).kernelObject ≠ 0)

/-- What is known of a record that `decodeSlot` made from the bytes `raw`. -/
structure DecodedFrom (q : QueueInfo) (raw : Nat → UInt8) (id rptr : Nat) (rec : PacketRecord) :
    Prop where
  queueUid : rec.queueUid = q.uid
  dispatchId : rec.dispatchId = id
  notCompleted : rec.completed = false
  body : rec.type = .kernelDispatch → rec.body = Aql.KernelDispatchPacket.ofRaw raw
  /-- The type is the header's, unless a reset header was taken for a dispatch. -/
  type : (Aql.rawType raw ≠ .invalid ∧ rec.type = Aql.rawType raw) ∨
    (Aql.rawType raw = .invalid ∧ id < rptr ∧
      (Aql.KernelDispatchPacket.ofRaw raw).kernelObject ≠ 0 ∧ rec.type = .kernelDispatch)

/-- **What `decodeSlot` returns.** -/
theorem decodeSlot_some {qs : QueueState} {m : ProcMem} {id rptr : Nat} {rec : PacketRecord}
    {ksym : KernelSymbolResolver} (h : decodeSlot qs m id rptr = (some rec, ksym)) :
    ∃ raw, slotBytes qs.info m id = some raw ∧ DecodedFrom qs.info raw id rptr rec := by
  simp only [decodeSlot] at h
  split at h
  · simp at h
  · next hslots =>
      split at h
      · simp at h
      · next raw hraw =>
          refine ⟨raw, by rw [slotBytes, if_neg hslots, hraw], ?_⟩
          split at h
          · next hinv =>
              split at h
              · next hid =>
                  split at h
                  · next hko =>
                      obtain rfl := Option.some.inj (Prod.mk.inj h).1
                      exact ⟨rfl, rfl, rfl, fun _ => rfl, Or.inr ⟨hinv, hid, hko, rfl⟩⟩
                  · simp at h
              · simp at h
          · next hinv =>
              split at h
              · next hkd =>
                  obtain rfl := Option.some.inj (Prod.mk.inj h).1
                  exact ⟨rfl, rfl, rfl, fun _ => rfl, Or.inl ⟨hinv, rfl⟩⟩
              · next hkd =>
                  obtain rfl := Option.some.inj (Prod.mk.inj h).1
                  exact ⟨rfl, rfl, rfl, fun hty => absurd hty hkd, Or.inl ⟨hinv, rfl⟩⟩

/-- `decodeSlot` succeeds exactly on the slots `slotDecodes` names. -/
theorem decodeSlot_isSome (qs : QueueState) (m : ProcMem) (id rptr : Nat) :
    (decodeSlot qs m id rptr).1.isSome = slotDecodes qs.info m id rptr := by
  simp only [decodeSlot, slotDecodes, slotBytes, Aql.rawType]
  by_cases hslots : qs.info.numSlots = 0
  · simp [hslots]
  · simp only [if_neg hslots]
    cases readProcMem m (u64 (qs.info.ringBase.toNat + id % qs.info.numSlots * Aql.kPacketSize))
        Aql.kPacketSize with
    | none => rfl
    | some raw =>
        by_cases hinv : Aql.headerType (Aql.rawHeader raw) = .invalid
        · by_cases hid : id < rptr
          · by_cases hko : (Aql.KernelDispatchPacket.ofRaw raw).kernelObject ≠ 0
            · simp [hinv, hid, hko]
            · simp [hinv, hid, hko]
          · simp [hinv, hid]
        · by_cases hkd : Aql.headerType (Aql.rawHeader raw) = .kernelDispatch
          · simp [hkd]
          · simp [hinv, hkd]

theorem decodeSlot_none_iff {qs : QueueState} {m : ProcMem} {id rptr : Nat} :
    (decodeSlot qs m id rptr).1 = none ↔ slotDecodes qs.info m id rptr = false := by
  rw [← decodeSlot_isSome, Option.isSome_eq_false_iff, Option.isNone_iff_eq_none]

/-! ## The poll -/

/-- Guard against decoding slots the producer has already wrapped over. -/
def skipWrapped (wptr : Nat) (qs : QueueState) : QueueState × List Event :=
  let slots := qs.info.numSlots
  if u64 (qs.nextId + slots) < wptr then
    let n := u64Sub (u64Sub wptr qs.nextId) slots
    ({ qs with dropped := u64 (qs.dropped + n), nextId := u64Sub wptr slots },
      [.drop qs.nextId n])
  else (qs, [])

/-- Decode newly enqueued packets in order. A slot that does not decode is pending while the read
    pointer has not passed it (stop, retry next poll) and missed once it has (count, go on). -/
def decodeLoop (o : PollObs) (wptr rptr : Nat) (qs : QueueState) : QueueState × List Event :=
  if qs.nextId < wptr then
    match decodeSlot qs (o.mem qs.nextId) qs.nextId rptr with
    | (some rec, ksym) =>
        let r := { rec with submitTs := o.now }
        if qs.nextId < rptr then
          -- Already consumed: emit directly as completed.
          let out := decodeLoop o wptr rptr { qs with ksym := ksym, nextId := qs.nextId + 1 }
          (out.1, .sink (r.complete o.now) :: out.2)
        else
          let out := decodeLoop o wptr rptr
            { qs with
              ksym := ksym
              inflight := qs.inflight.emplace qs.nextId r
              nextId := qs.nextId + 1 }
          (out.1, .park r :: out.2)
    | (none, _) =>
        if qs.nextId < rptr then
          let out := decodeLoop o wptr rptr
            { qs with dropped := u64 (qs.dropped + 1), nextId := qs.nextId + 1 }
          (out.1, .drop qs.nextId 1 :: out.2)
        else (qs, [])
  else (qs, [])
termination_by wptr - qs.nextId

/-- Mark packets as queue-consumed once the read pointer has advanced past them. -/
def drainInflight (now : Time) (rptr : Nat) (qs : QueueState) : QueueState × List Event :=
  let out := qs.inflight.splitBelow rptr
  ({ qs with inflight := out.2 }, out.1.map (fun e => .sink (e.2.complete now)))

/-- The part of `RingParser::PollQueue` behind the priming check. -/
def pollPrimed (o : PollObs) (wptr rptr : Nat) (qs : QueueState) : QueueState × List Event :=
  let skipped := skipWrapped wptr qs
  let decoded := decodeLoop o wptr rptr skipped.1
  let drained := drainInflight o.now rptr decoded.1
  ({ drained.1 with lastRptr := rptr }, skipped.2 ++ decoded.2 ++ drained.2)

/-- `RingParser::PollQueue`. -/
def pollQueue (qs : QueueState) (o : PollObs) : QueueState × List Event :=
  match o.wptr, o.rptr with
  | some wptrRaw, some rptrRaw =>
      let wptr := wptrRaw.toNat
      let rptr := rptrRaw.toNat
      let qs := { qs with readFailCount := 0 }
      if !qs.primed then
        -- Start from the current head so only new activity is reported.
        ({ qs with nextId := wptr, lastRptr := rptr, primed := true }, [.pointers wptr rptr])
      else
        let out := pollPrimed o wptr rptr qs
        (out.1, .pointers wptr rptr :: out.2)
  | _, _ => (qs.readFailed, [])

theorem pollQueue_primed {qs : QueueState} {o : PollObs} {w r : UInt64} (hw : o.wptr = some w)
    (hr : o.rptr = some r) (hp : qs.primed = true) :
    pollQueue qs o =
      ((pollPrimed o w.toNat r.toNat { qs with readFailCount := 0 }).1,
        .pointers w.toNat r.toNat ::
          (pollPrimed o w.toNat r.toNat { qs with readFailCount := 0 }).2) := by
  simp only [pollQueue, hw, hr]
  rw [if_neg (by simp [hp])]

/-! ## What a poll can do -/

/-- One move of a primed poll that read `wptr` and `rptr`. Slots are only decoded while the write
    pointer is at most one ring ahead. -/
inductive PollMove (o : PollObs) (wptr rptr : Nat) : QueueState → List Event → QueueState → Prop
  /-- Both pointers were read: the failure streak is over. -/
  | start {qs : QueueState} :
      PollMove o wptr rptr qs [.pointers wptr rptr] { qs with readFailCount := 0 }
  /-- Ids the producer has wrapped over are counted and skipped. -/
  | skip {qs : QueueState} (wrapped : u64 (qs.nextId + qs.info.numSlots) < wptr) :
      PollMove o wptr rptr qs
        [.drop qs.nextId (u64Sub (u64Sub wptr qs.nextId) qs.info.numSlots)]
        { qs with
          dropped :=
            u64 (qs.dropped + u64Sub (u64Sub wptr qs.nextId) qs.info.numSlots)
          nextId := u64Sub wptr qs.info.numSlots }
  /-- A decoded packet that is already consumed goes straight to the sink. -/
  | emit {qs : QueueState} {rec : PacketRecord} {ksym : KernelSymbolResolver}
      (lt : qs.nextId < wptr)
      (inRing : wptr ≤ qs.nextId + qs.info.numSlots) (consumed : qs.nextId < rptr)
      (decoded : decodeSlot qs (o.mem qs.nextId) qs.nextId rptr = (some rec, ksym)) :
      PollMove o wptr rptr qs [.sink ({ rec with submitTs := o.now }.complete o.now)]
        { qs with ksym := ksym, nextId := qs.nextId + 1 }
  /-- A decoded packet that is not consumed yet is put in flight. -/
  | park {qs : QueueState} {rec : PacketRecord} {ksym : KernelSymbolResolver}
      (lt : qs.nextId < wptr)
      (inRing : wptr ≤ qs.nextId + qs.info.numSlots) (waiting : rptr ≤ qs.nextId)
      (decoded : decodeSlot qs (o.mem qs.nextId) qs.nextId rptr = (some rec, ksym)) :
      PollMove o wptr rptr qs [.park { rec with submitTs := o.now }]
        { qs with
          ksym := ksym
          inflight := qs.inflight.emplace qs.nextId { rec with submitTs := o.now }
          nextId := qs.nextId + 1 }
  /-- A consumed slot that does not decode is counted. -/
  | miss {qs : QueueState} (lt : qs.nextId < wptr)
      (inRing : wptr ≤ qs.nextId + qs.info.numSlots) (consumed : qs.nextId < rptr)
      (undecoded : slotDecodes qs.info (o.mem qs.nextId) qs.nextId rptr = false) :
      PollMove o wptr rptr qs [.drop qs.nextId 1]
        { qs with dropped := u64 (qs.dropped + 1), nextId := qs.nextId + 1 }
  /-- Everything the read pointer has passed leaves `inflight`. -/
  | drain {qs : QueueState} :
      PollMove o wptr rptr qs
        ((qs.inflight.splitBelow rptr).1.map (fun e => .sink (e.2.complete o.now)))
        { qs with inflight := (qs.inflight.splitBelow rptr).2 }
  /-- The read pointer is remembered once nothing in flight is below it. -/
  | finish {qs : QueueState} (drained : ∀ k ∈ qs.inflight.keys, rptr ≤ k) :
      PollMove o wptr rptr qs [] { qs with lastRptr := rptr }

/-- Moves stay within one queue, primed, and leave the SDMA side alone. -/
theorem PollMove.frame {o : PollObs} {wptr rptr : Nat} {qs qs' : QueueState} {es : List Event}
    (h : PollMove o wptr rptr qs es qs') :
    qs'.info = qs.info ∧ qs'.primed = qs.primed ∧ qs'.sdmaInflight = qs.sdmaInflight ∧
      qs'.evict = qs.evict := by
  cases h <;> exact ⟨rfl, rfl, rfl, rfl⟩

theorem PollMove.frame_steps {o : PollObs} {wptr rptr : Nat} {qs qs' : QueueState}
    {es : List Event} (h : Trace.Steps (PollMove o wptr rptr) qs es qs') :
    qs'.info = qs.info ∧ qs'.primed = qs.primed ∧ qs'.sdmaInflight = qs.sdmaInflight ∧
      qs'.evict = qs.evict := by
  induction h with
  | refl s => exact ⟨rfl, rfl, rfl, rfl⟩
  | head hmove _ ih =>
      obtain ⟨hi, hp, hs, he⟩ := hmove.frame
      exact ⟨ih.1.trans hi, ih.2.1.trans hp, ih.2.2.1.trans hs, ih.2.2.2.trans he⟩

theorem skipWrapped_steps (o : PollObs) (wptr rptr : Nat) (qs : QueueState) :
    Trace.Steps (PollMove o wptr rptr) qs (skipWrapped wptr qs).2 (skipWrapped wptr qs).1 := by
  simp only [skipWrapped]
  split
  · next h => exact Trace.Steps.single (PollMove.skip h)
  · exact Trace.Steps.refl qs

/-- Behind the guard the write pointer is at most one ring ahead. -/
theorem skipWrapped_inRing {wptr : Nat} (hw : wptr < 2 ^ 64) (qs : QueueState) :
    wptr ≤ (skipWrapped wptr qs).1.nextId + (skipWrapped wptr qs).1.info.numSlots := by
  by_cases h : u64 (qs.nextId + qs.info.numSlots) < wptr
  · simp only [skipWrapped, if_pos h]
    exact le_u64Sub_add hw
  · simp only [skipWrapped, if_neg h]
    have hle := u64_le (qs.nextId + qs.info.numSlots)
    omega

/-- The decode loop makes moves, and it stops at the write pointer or at a slot that is pending
    publication. -/
theorem decodeLoop_steps (o : PollObs) (wptr rptr : Nat) (qs : QueueState)
    (hring : wptr ≤ qs.nextId + qs.info.numSlots) :
    Trace.Steps (PollMove o wptr rptr) qs (decodeLoop o wptr rptr qs).2
        (decodeLoop o wptr rptr qs).1 ∧
      (wptr ≤ (decodeLoop o wptr rptr qs).1.nextId ∨
        (rptr ≤ (decodeLoop o wptr rptr qs).1.nextId ∧
          slotDecodes (decodeLoop o wptr rptr qs).1.info
            (o.mem (decodeLoop o wptr rptr qs).1.nextId)
            (decodeLoop o wptr rptr qs).1.nextId rptr = false)) := by
  fun_induction decodeLoop o wptr rptr qs with
  | case1 qs hlt rec ksym hdec r hcons out ih =>
      have hrest := ih (by simp only; omega)
      exact ⟨Trace.Steps.head (PollMove.emit hlt hring hcons hdec) hrest.1, hrest.2⟩
  | case2 qs hlt rec ksym hdec r hwait out ih =>
      have hrest := ih (by simp only; omega)
      exact ⟨Trace.Steps.head (PollMove.park hlt hring (Nat.le_of_not_lt hwait) hdec) hrest.1,
        hrest.2⟩
  | case3 qs hlt ksym hdec hcons out ih =>
      have hund : slotDecodes qs.info (o.mem qs.nextId) qs.nextId rptr = false :=
        decodeSlot_none_iff.1 (by rw [hdec])
      have hrest := ih (by simp only; omega)
      exact ⟨Trace.Steps.head (PollMove.miss hlt hring hcons hund) hrest.1, hrest.2⟩
  | case4 qs hlt ksym hdec hwait =>
      have hund : slotDecodes qs.info (o.mem qs.nextId) qs.nextId rptr = false :=
        decodeSlot_none_iff.1 (by rw [hdec])
      exact ⟨Trace.Steps.refl qs, Or.inr ⟨Nat.le_of_not_lt hwait, hund⟩⟩
  | case5 qs hge => exact ⟨Trace.Steps.refl qs, Or.inl (Nat.le_of_not_lt hge)⟩

theorem decodeLoop_rptr (o : PollObs) (wptr rptr : Nat) (qs : QueueState) :
    ∀ e ∈ (decodeLoop o wptr rptr qs).2, e.rptr? = none := by
  fun_induction decodeLoop o wptr rptr qs with
  | case1 qs hlt rec ksym hdec r hcons out ih => simpa using ih
  | case2 qs hlt rec ksym hdec r hwait out ih => simpa using ih
  | case3 qs hlt ksym hdec hcons out ih => simpa using ih
  | case4 qs hlt ksym hdec hwait => simp
  | case5 qs hge => simp

/-- The pointers are read once, in front of everything else. -/
theorem pollPrimed_rptr (o : PollObs) (wptr rptr : Nat) (qs : QueueState) :
    ∀ e ∈ (pollPrimed o wptr rptr qs).2, e.rptr? = none := by
  intro e he
  simp only [pollPrimed, drainInflight] at he
  rcases List.mem_append.1 he with he | he
  · rcases List.mem_append.1 he with he | he
    · simp only [skipWrapped] at he
      split at he
      · obtain rfl := List.mem_singleton.1 he
        rfl
      · simp at he
    · exact decodeLoop_rptr o wptr rptr _ e he
  · obtain ⟨x, -, rfl⟩ := List.mem_map.1 he
    rfl

/-- The outcome of a poll of `qs` that observed `o`. -/
inductive PollCase (qs : QueueState) (o : PollObs) : QueueState → List Event → Prop
  | failed (unread : o.wptr = none ∨ o.rptr = none) : PollCase qs o qs.readFailed []
  | primes {w r : UInt64} (hw : o.wptr = some w) (hr : o.rptr = some r)
      (fresh : qs.primed = false) :
      PollCase qs o
        { qs with readFailCount := 0, nextId := w.toNat, lastRptr := r.toNat, primed := true }
        [.pointers w.toNat r.toNat]
  | polled {w r : UInt64} {qs' : QueueState} {es : List Event}
      (hw : o.wptr = some w) (hr : o.rptr = some r) (primed : qs.primed = true)
      (steps : Trace.Steps (PollMove o w.toNat r.toNat) qs es qs')
      (drained : ∀ k ∈ qs'.inflight.keys, r.toNat ≤ k) (last : qs'.lastRptr = r.toNat)
      (stopped : w.toNat ≤ qs'.nextId ∨
        (r.toNat ≤ qs'.nextId ∧
          slotDecodes qs.info (o.mem qs'.nextId) qs'.nextId r.toNat = false))
      (trace : ∃ gs, es = .pointers w.toNat r.toNat :: gs ∧ ∀ e ∈ gs, e.rptr? = none) :
      PollCase qs o qs' es

/-- The primed part makes moves, drains what the read pointer has passed, and stops decoding at the
    write pointer or at a pending slot. -/
theorem pollPrimed_steps (o : PollObs) {wptr : Nat} (hw : wptr < 2 ^ 64) (rptr : Nat)
    (qs : QueueState) :
    Trace.Steps (PollMove o wptr rptr) qs (pollPrimed o wptr rptr qs).2
        (pollPrimed o wptr rptr qs).1 ∧
      (∀ k ∈ (pollPrimed o wptr rptr qs).1.inflight.keys, rptr ≤ k) ∧
      (wptr ≤ (pollPrimed o wptr rptr qs).1.nextId ∨
        (rptr ≤ (pollPrimed o wptr rptr qs).1.nextId ∧
          slotDecodes qs.info (o.mem (pollPrimed o wptr rptr qs).1.nextId)
            (pollPrimed o wptr rptr qs).1.nextId rptr = false)) := by
  have hskip := skipWrapped_steps o wptr rptr qs
  obtain ⟨hdec, hstop⟩ := decodeLoop_steps o wptr rptr (skipWrapped wptr qs).1
    (skipWrapped_inRing hw qs)
  have hinfo := (PollMove.frame_steps (hskip.trans hdec)).1
  have hdrained : ∀ k ∈ (pollPrimed o wptr rptr qs).1.inflight.keys, rptr ≤ k :=
    fun k hk => OrdMap.splitBelow_snd_ge hk
  have hfinish := (Trace.Steps.single PollMove.drain).trans
    (Trace.Steps.single (@PollMove.finish o wptr rptr
      (drainInflight o.now rptr (decodeLoop o wptr rptr (skipWrapped wptr qs).1).1).1 hdrained))
  refine ⟨?_, hdrained, ?_⟩
  · simpa [pollPrimed, drainInflight] using (hskip.trans hdec).trans hfinish
  · rw [hinfo] at hstop
    exact hstop

/-- **What a poll can do.** -/
theorem pollQueue_cases (qs : QueueState) (o : PollObs) :
    PollCase qs o (pollQueue qs o).1 (pollQueue qs o).2 := by
  cases hw : o.wptr with
  | none =>
      have hpoll : pollQueue qs o = (qs.readFailed, []) := by simp [pollQueue, hw]
      rw [hpoll]
      exact PollCase.failed (Or.inl hw)
  | some w =>
      cases hr : o.rptr with
      | none =>
          have hpoll : pollQueue qs o = (qs.readFailed, []) := by simp [pollQueue, hw, hr]
          rw [hpoll]
          exact PollCase.failed (Or.inr hr)
      | some r =>
          cases hp : qs.primed with
          | false =>
              simp only [pollQueue, hw, hr, hp, Bool.not_false, if_true]
              exact PollCase.primes hw hr hp
          | true =>
              rw [pollQueue_primed hw hr hp]
              obtain ⟨hsteps, hdrained, hstop⟩ :=
                pollPrimed_steps o w.toNat_lt r.toNat { qs with readFailCount := 0 }
              exact PollCase.polled hw hr hp (Trace.Steps.head PollMove.start hsteps) hdrained rfl
                hstop ⟨_, rfl, pollPrimed_rptr o _ _ _⟩

/-- Case analysis on a poll, where a goal is about its result. -/
@[elab_as_elim]
theorem pollQueue_elim {C : QueueState → List Event → Prop} (qs : QueueState) (o : PollObs)
    (h : ∀ qs' es, PollCase qs o qs' es → C qs' es) :
    C (pollQueue qs o).1 (pollQueue qs o).2 :=
  h _ _ (pollQueue_cases qs o)

/-- A poll stays with its queue. -/
theorem pollQueue_info (qs : QueueState) (o : PollObs) : (pollQueue qs o).1.info = qs.info := by
  refine pollQueue_elim qs o (fun qs' fs hcase => ?_)
  cases hcase with
  | failed unread => rfl
  | primes hw hr fresh => rfl
  | polled hw hr primed steps drained last stopped => exact (PollMove.frame_steps steps).1

end HsaSnoop
