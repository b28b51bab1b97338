import HsaSnoop.Parser.PollQueue
import HsaSnoop.Parser.PollSdmaQueue

set_option autoImplicit false

/-! # Ring reads stay inside the ring

The polls of `PollQueue.lean` and `PollSdmaQueue.lean`, with a log of the transfers they make from the
ring. Leaving out the log gives the polls back (`decodeLoopLogged_fst`, `sdmaDecodeLoopLogged_fst`), so
what is proved about the log is about the polls.

An AQL slot is read at its index modulo the slot count. An SDMA window is read in at most two pieces,
which is enough because the overrun guard keeps the window no longer than the ring: every transfer lies
inside the ring, and a window holds the dwords of the ring (`ring_reads_inside`). -/

namespace HsaSnoop

/-! ## Transfers -/

/-- One `ReadProcMem` of ring contents. -/
structure RingRead where
  addr : Nat
  len : Nat
  deriving DecidableEq, Repr

/-- The transfer covers only addresses in `[ring_base, ring_base + ring_size)`. -/
def RingRead.Inside (q : QueueInfo) (read : RingRead) : Prop :=
  q.ringBase.toNat ≤ read.addr ∧
    read.addr + read.len ≤ q.ringBase.toNat + q.ringSize.toNat

instance (q : QueueInfo) (read : RingRead) : Decidable (read.Inside q) :=
  inferInstanceAs (Decidable (_ ∧ _))

/-! ## AQL slots -/

/-- The transfer `decodeSlot` makes for `id`. -/
def slotRead (q : QueueInfo) (id : Nat) : List RingRead :=
  if q.numSlots = 0 then []
  else [⟨u64 (q.ringBase.toNat + (id % q.numSlots) * Aql.kPacketSize), Aql.kPacketSize⟩]

/-- The bytes `decodeSlot` decodes are those of its transfer. -/
theorem slotBytes_eq_slotRead (q : QueueInfo) (m : ProcMem) (id : Nat) :
    slotBytes q m id = (slotRead q id).head?.bind (fun read => readProcMem m read.addr read.len) := by
  unfold slotBytes slotRead
  split <;> rfl

/-- `decodeLoop`, with the ring transfers it makes. -/
def decodeLoopLogged (o : PollObs) (wptr rptr : Nat) (qs : QueueState) :
    QueueState × List RingRead :=
  if qs.nextId < wptr then
    let read := slotRead qs.info qs.nextId
    match decodeSlot qs (o.mem qs.nextId) qs.nextId rptr with
    | (some rec, ksym) =>
        if qs.nextId < rptr then
          let out := decodeLoopLogged o wptr rptr { qs with ksym := ksym, nextId := qs.nextId + 1 }
          (out.1, read ++ out.2)
        else
          let out := decodeLoopLogged o wptr rptr
            { qs with
              ksym := ksym
              inflight := qs.inflight.emplace qs.nextId { rec with submitTs := o.now }
              nextId := qs.nextId + 1 }
          (out.1, read ++ out.2)
    | (none, _) =>
        if qs.nextId < rptr then
          let out := decodeLoopLogged o wptr rptr
            { qs with dropped := u64 (qs.dropped + 1), nextId := qs.nextId + 1 }
          (out.1, read ++ out.2)
        else (qs, read)
  else (qs, [])
termination_by wptr - qs.nextId

/-- `pollQueue`, with the ring transfers it makes. -/
def pollQueueLogged (qs : QueueState) (o : PollObs) : QueueState × List RingRead :=
  ((pollQueue qs o).1,
    match o.wptr, o.rptr with
    | some wptr, some rptr =>
        if !qs.primed then []
        else
          (decodeLoopLogged o wptr.toNat rptr.toNat
            (skipWrapped wptr.toNat { qs with readFailCount := 0 }).1).2
    | _, _ => [])

theorem decodeLoopLogged_fst (o : PollObs) (wptr rptr : Nat) (qs : QueueState) :
    (decodeLoopLogged o wptr rptr qs).1 = (decodeLoop o wptr rptr qs).1 := by
  fun_induction decodeLoop o wptr rptr qs with
  | case1 qs hlt rec ksym hdec r hcons out ih =>
      rw [decodeLoopLogged, if_pos hlt]
      simp only [hdec, if_pos hcons]
      exact ih
  | case2 qs hlt rec ksym hdec r hwait out ih =>
      rw [decodeLoopLogged, if_pos hlt]
      simp only [hdec, if_neg hwait]
      exact ih
  | case3 qs hlt ksym hdec hcons out ih =>
      rw [decodeLoopLogged, if_pos hlt]
      simp only [hdec, if_pos hcons]
      exact ih
  | case4 qs hlt ksym hdec hwait =>
      rw [decodeLoopLogged, if_pos hlt]
      simp only [hdec, if_neg hwait]
  | case5 qs hge => rw [decodeLoopLogged, if_neg hge]

/-- A slot lies inside the ring. -/
theorem slotRead_inside {q : QueueInfo} (hfits : q.ringBase.toNat + q.ringSize.toNat < 2 ^ 64)
    (id : Nat) : ∀ read ∈ slotRead q id, read.Inside q := by
  intro read hread
  unfold slotRead at hread
  split at hread
  · simp at hread
  · next hslots =>
      obtain rfl := List.mem_singleton.1 hread
      have hidx : id % q.numSlots < q.numSlots := Nat.mod_lt _ (Nat.pos_of_ne_zero hslots)
      have hsize : q.numSlots * Aql.kPacketSize ≤ q.ringSize.toNat := by
        unfold QueueInfo.numSlots
        split
        · exact Nat.div_mul_le_self _ _
        · omega
      have hend : (id % q.numSlots + 1) * Aql.kPacketSize ≤ q.numSlots * Aql.kPacketSize :=
        Nat.mul_le_mul_right _ hidx
      rw [Nat.succ_mul] at hend
      have haddr : u64 (q.ringBase.toNat + id % q.numSlots * Aql.kPacketSize)
          = q.ringBase.toNat + id % q.numSlots * Aql.kPacketSize := u64_of_lt (by omega)
      simp only [RingRead.Inside, haddr]
      omega

theorem decodeLoopLogged_inside {q : QueueInfo}
    (hfits : q.ringBase.toNat + q.ringSize.toNat < 2 ^ 64) (o : PollObs) (wptr rptr : Nat)
    (qs : QueueState) (hq : qs.info = q) :
    ∀ read ∈ (decodeLoopLogged o wptr rptr qs).2, read.Inside q := by
  have hslot (id : Nat) : ∀ read ∈ slotRead qs.info id, read.Inside q := by
    rw [hq]
    exact slotRead_inside hfits id
  fun_induction decodeLoopLogged o wptr rptr qs with
  | case1 qs hlt read rec ksym hdec hcons out ih =>
      exact List.forall_mem_append.2 ⟨hslot _, ih hq hslot⟩
  | case2 qs hlt read rec ksym hdec hwait out ih =>
      exact List.forall_mem_append.2 ⟨hslot _, ih hq hslot⟩
  | case3 qs hlt read ksym hdec hcons out ih =>
      exact List.forall_mem_append.2 ⟨hslot _, ih hq hslot⟩
  | case4 qs hlt read ksym hdec hwait => exact hslot _
  | case5 qs hge => simp

theorem pollQueueLogged_inside {q : QueueInfo}
    (hfits : q.ringBase.toNat + q.ringSize.toNat < 2 ^ 64) {qs : QueueState} (hq : qs.info = q)
    (o : PollObs) : ∀ read ∈ (pollQueueLogged qs o).2, read.Inside q := by
  cases hw : o.wptr with
  | none => simp [pollQueueLogged, hw]
  | some w =>
      cases hr : o.rptr with
      | none => simp [pollQueueLogged, hw, hr]
      | some r =>
          by_cases hp : qs.primed = true
          · have hskip := skipWrapped_steps o w.toNat r.toNat { qs with readFailCount := 0 }
            have hinfo := (PollMove.frame_steps hskip).1
            simp only [pollQueueLogged, hw, hr, hp, Bool.not_true, Bool.false_eq_true, if_false]
            rw [hp] at hinfo
            exact decodeLoopLogged_inside hfits o w.toNat r.toNat _ (hinfo.trans hq)
          · simp [pollQueueLogged, hw, hr, hp]

/-! ## SDMA windows -/

/-- `readRingDwords`, with the transfers it makes: the second only when the first succeeded and the
    window runs over the ring end. -/
def readRingDwordsLogged (q : QueueInfo) (m : ProcMem) (startDw n : Nat) :
    Option (Nat → UInt32) × List RingRead :=
  let ringDw := q.numDwords
  (readRingDwords q m startDw n,
    if ringDw = 0 then []
    else
      let off := startDw % ringDw
      let first := min n (ringDw - off)
      let head : RingRead := ⟨u64 (q.ringBase.toNat + off * 4), first * 4⟩
      if (readProcMem m head.addr head.len).isSome && decide (first < n) then
        [head, ⟨q.ringBase.toNat, (n - first) * 4⟩]
      else [head])

/-- The transfers decide the window: without the bytes they cover there is none. -/
theorem readRingDwordsLogged_isSome (q : QueueInfo) (m : ProcMem) (startDw n : Nat) :
    (readRingDwordsLogged q m startDw n).1.isSome =
      (decide (q.numDwords ≠ 0) && (readRingDwordsLogged q m startDw n).2.all
        (fun read => (readProcMem m read.addr read.len).isSome)) := by
  simp only [readRingDwordsLogged, readRingDwords]
  split
  · next hring => simp [hring]
  · next hring =>
      simp only [ne_eq, hring, not_false_eq_true, decide_true, Bool.true_and]
      split
      · next hhead => simp [hhead]
      · next head hhead =>
          simp only [hhead, Option.isSome_some, Bool.true_and, decide_eq_true_eq]
          split
          · split
            · next htail => simp [htail]
            · next tail htail => simp [hhead, htail]
          · simp [hhead]

/-- One call of `ReadRingDwords`. -/
structure RingCall where
  startDw : Nat
  n : Nat
  mem : ProcMem
  out : Option (Nat → UInt32)
  reads : List RingRead

/-- The call `ReadRingDwords(startDw, n)`. -/
def ringCall (q : QueueInfo) (m : ProcMem) (startDw n : Nat) : RingCall :=
  let read := readRingDwordsLogged q m startDw n
  { startDw := startDw, n := n, mem := m, out := read.1, reads := read.2 }

/-- `sdmaDecodeLoop`, with the windows it reads. -/
def sdmaDecodeLoopLogged (o : PollObs) (wptr : Nat) (qs : QueueState) :
    QueueState × List RingCall :=
  if qs.nextId < wptr then
    let avail := wptr - qs.nextId
    let win := min avail kSdmaWindow
    let call := ringCall qs.info (o.mem qs.nextId) qs.nextId win
    match call.out with
    | none => (qs, [call])
    | some dws =>
        let len := Sdma.packetLenDwords qs.info.sdmaVersion dws win
        if len = 0 then
          if avail < 4 then (qs, [call])
          else ({ qs with dropped := u64 (qs.dropped + avail), nextId := wptr }, [call])
        else if avail < len then (qs, [call])
        else
          let made := sdmaRecord qs (o.mem qs.nextId) o.now dws win
          let endDw := qs.nextId + len
          let out := sdmaDecodeLoopLogged o wptr
            { made.2 with
              sdmaInflight := made.2.sdmaInflight.emplace endDw made.1
              nextId := endDw }
          (out.1, call :: out.2)
  else (qs, [])
termination_by wptr - qs.nextId
decreasing_by
  show wptr - (qs.nextId + len) < wptr - qs.nextId
  omega

/-- What an SDMA poll observes, and the process at the moment the calibration dump reads the head of the
    ring, when the poll takes one. -/
structure SdmaPollObs where
  obs : PollObs
  dump : Option ProcMem

/-- Dwords shown by the calibration dump. -/
def kDumpDwords : Nat := 64

/-- `pollSdmaQueue`, with the windows it reads. -/
def pollSdmaQueueLogged (qs : QueueState) (i : SdmaPollObs) : QueueState × List RingCall :=
  let o := i.obs
  ((pollSdmaQueue qs o).1,
    match o.wptr, o.rptr with
    | some wptrRaw, some _ =>
        let qs := { qs with readFailCount := 0 }
        if qs.info.numDwords = 0 then []
        else
          let wptr := Sdma.ringBytesToDwords wptrRaw.toNat
          let dumped := i.dump.toList.map
            (fun m => ringCall qs.info m 0 (min qs.info.numDwords kDumpDwords))
          if !qs.primed then dumped
          else dumped ++ (sdmaDecodeLoopLogged o wptr (skipRing wptr qs).1).2
    | _, _ => [])

theorem sdmaDecodeLoopLogged_fst (o : PollObs) (wptr : Nat) (qs : QueueState) :
    (sdmaDecodeLoopLogged o wptr qs).1 = (sdmaDecodeLoop o wptr qs).1 := by
  have hout (q : QueueInfo) (m : ProcMem) (startDw n : Nat) :
      (ringCall q m startDw n).out = readRingDwords q m startDw n := rfl
  fun_induction sdmaDecodeLoop o wptr qs with
  | case1 qs hlt avail win hread =>
      rw [sdmaDecodeLoopLogged, if_pos hlt]
      simp only [hout, avail, win, hread]
  | case2 qs hlt avail win dws hread len hlen hfew =>
      rw [sdmaDecodeLoopLogged, if_pos hlt]
      simp only [hout, avail, win, len, hread, hlen, hfew, if_true]
  | case3 qs hlt avail win dws hread len hlen hmany =>
      rw [sdmaDecodeLoopLogged, if_pos hlt]
      simp only [hout, avail, win, len, hread, hlen, hmany, if_true, if_false]
  | case4 qs hlt avail win dws hread len hlen hlong =>
      rw [sdmaDecodeLoopLogged, if_pos hlt]
      simp only [hout, avail, win, len, hread, hlen, hlong, if_true, if_false]
  | case5 qs hlt avail win dws hread len hlen hfits made endDw out ih =>
      rw [sdmaDecodeLoopLogged, if_pos hlt]
      simp only [hout, avail, win, len, hread, hlen, hfits, if_false]
      exact ih
  | case6 qs hge => rw [sdmaDecodeLoopLogged, if_neg hge]

/-- A call of `ReadRingDwords` stays inside the ring and, where it succeeds, returns the ring's
    dwords. -/
structure RingCall.Good (q : QueueInfo) (call : RingCall) : Prop where
  inside : ∀ read ∈ call.reads, read.Inside q
  filled : ∀ out, call.out = some out →
    ∀ i, i < call.n → out i = ringDword q call.mem ((call.startDw + i) % q.numDwords)

/-- **A window no longer than the ring is read inside the ring.** -/
theorem ringCall_good {q : QueueInfo} (hfits : q.ringBase.toNat + q.ringSize.toNat < 2 ^ 64)
    (m : ProcMem) (startDw : Nat) {n : Nat} (hn : n ≤ q.numDwords) :
    (ringCall q m startDw n).Good q := by
  have hsize : q.numDwords * 4 ≤ q.ringSize.toNat := Nat.div_mul_le_self _ _
  constructor
  · intro read hread
    simp only [ringCall, readRingDwordsLogged] at hread
    split at hread
    · simp at hread
    · next hring =>
        have hoff : startDw % q.numDwords < q.numDwords := Nat.mod_lt _ (Nat.pos_of_ne_zero hring)
        generalize startDw % q.numDwords = off at hread hoff
        have hhead : RingRead.Inside q
            ⟨u64 (q.ringBase.toNat + off * 4), min n (q.numDwords - off) * 4⟩ := by
          have haddr : u64 (q.ringBase.toNat + off * 4) = q.ringBase.toNat + off * 4 :=
            u64_of_lt (by omega)
          simp only [RingRead.Inside, haddr]
          omega
        have htail : RingRead.Inside q
            ⟨q.ringBase.toNat, (n - min n (q.numDwords - off)) * 4⟩ := by
          simp only [RingRead.Inside]
          omega
        split at hread
        · rcases List.mem_cons.1 hread with rfl | hread
          · exact hhead
          · obtain rfl := List.mem_singleton.1 hread
            exact htail
        · obtain rfl := List.mem_singleton.1 hread
          exact hhead
  · intro out hout i hi
    have hdword := @readRingDwords_eq q m startDw n out hout hn i hi
    rw [hdword]
    simp only [ringCall, ringDword, Nat.mod_mod]

theorem sdmaDecodeLoopLogged_good {q : QueueInfo}
    (hfits : q.ringBase.toNat + q.ringSize.toNat < 2 ^ 64) (o : PollObs) (wptr : Nat)
    (qs : QueueState) (hq : qs.info = q) (hring : wptr ≤ qs.nextId + q.numDwords) :
    ∀ call ∈ (sdmaDecodeLoopLogged o wptr qs).2, call.Good q := by
  have hcall {s : QueueState} (hs : s.info = q) (hw : wptr ≤ s.nextId + q.numDwords) :
      (ringCall s.info (o.mem s.nextId) s.nextId (min (wptr - s.nextId) kSdmaWindow)).Good q := by
    rw [hs]
    exact ringCall_good hfits _ _ (by omega)
  fun_induction sdmaDecodeLoopLogged o wptr qs with
  | case1 qs hlt avail win call hread => simpa using hcall hq hring
  | case2 qs hlt avail win call dws hread len hlen hfew => simpa using hcall hq hring
  | case3 qs hlt avail win call dws hread len hlen hmany => simpa using hcall hq hring
  | case4 qs hlt avail win call dws hread len hlen hlong => simpa using hcall hq hring
  | case5 qs hlt avail win call dws hread len hlen hfits' made endDw out ih =>
      obtain ⟨pageHost, hframe⟩ := sdmaRecord_frame qs (o.mem qs.nextId) o.now dws win
      have hinfo : made.2.info = q := by simp only [made, hframe, hq]
      have hrest := ih hinfo (by simp only [endDw]; omega)
      exact List.forall_mem_cons.2 ⟨hcall hq hring, hrest⟩
  | case6 qs hge => simp

theorem pollSdmaQueueLogged_good {q : QueueInfo}
    (hfits : q.ringBase.toNat + q.ringSize.toNat < 2 ^ 64) {qs : QueueState} (hq : qs.info = q)
    (i : SdmaPollObs) : ∀ call ∈ (pollSdmaQueueLogged qs i).2, call.Good q := by
  subst hq
  cases hw : i.obs.wptr with
  | none => simp [pollSdmaQueueLogged, hw]
  | some w =>
      cases hr : i.obs.rptr with
      | none => simp [pollSdmaQueueLogged, hw, hr]
      | some r =>
          by_cases hring : qs.info.numDwords = 0
          · simp [pollSdmaQueueLogged, hw, hr, hring]
          · have hdump : ∀ call ∈ i.dump.toList.map
                (fun m => ringCall qs.info m 0 (min qs.info.numDwords kDumpDwords)),
                call.Good qs.info := by
              intro call hcall
              obtain ⟨m, -, rfl⟩ := List.mem_map.1 hcall
              exact ringCall_good hfits m 0 (Nat.min_le_left _ _)
            simp only [pollSdmaQueueLogged, hw, hr]
            rw [if_neg hring]
            split
            · exact hdump
            · -- The overrun guard leaves at most one ring to read.
              have hlt : Sdma.ringBytesToDwords w.toNat < 2 ^ 64 :=
                Nat.lt_of_le_of_lt (Nat.div_le_self _ _) w.toNat_lt
              have hskip := skipRing_steps i.obs (Sdma.ringBytesToDwords w.toNat) 0
                { qs with readFailCount := 0 }
              have hinfo := (SdmaMove.frame_steps hskip).1
              have hinRing := skipRing_inRing hlt { qs with readFailCount := 0 }
              rw [hinfo] at hinRing
              exact List.forall_mem_append.2
                ⟨hdump, sdmaDecodeLoopLogged_good hfits i.obs _ _ hinfo hinRing⟩

/-! ## Runs -/

/-- **Ring reads stay inside the ring**, for every ring that fits below the end of the address space and
    every sequence of polls: each slot `decodeSlot` reads, each piece of each window `readRingDwords`
    reads; and each window read successfully holds the dwords of the ring, position by position modulo
    the ring size. -/
theorem ring_reads_inside (q : QueueInfo)
    (hfits : q.ringBase.toNat + q.ringSize.toNat < 2 ^ 64) :
    (∀ os : List PollObs,
      ∀ read ∈ (Trace.run pollQueueLogged (QueueState.new q) os).2, read.Inside q) ∧
    (∀ is : List SdmaPollObs,
      ∀ call ∈ (Trace.run pollSdmaQueueLogged (QueueState.new q) is).2,
        (∀ read ∈ call.reads, read.Inside q) ∧
          ∀ out, call.out = some out → ∀ i, i < call.n →
            out i = ringDword q call.mem ((call.startDw + i) % q.numDwords)) := by
  constructor
  · intro os
    refine (@Trace.run_invariant _ _ _ pollQueueLogged
      (fun qs reads => qs.info = q ∧ ∀ read ∈ reads, read.Inside q) (QueueState.new q)
      ⟨rfl, by simp⟩ (fun qs reads o h => ?_) os).2
    exact ⟨(pollQueue_info qs o).trans h.1,
      List.forall_mem_append.2 ⟨h.2, pollQueueLogged_inside hfits h.1 o⟩⟩
  · intro is call hcall
    have hgood := (@Trace.run_invariant _ _ _ pollSdmaQueueLogged
      (fun qs calls => qs.info = q ∧ ∀ call ∈ calls, call.Good q) (QueueState.new q)
      ⟨rfl, by simp⟩ (fun qs calls i h => ⟨(pollSdmaQueue_info qs i.obs).trans h.1,
        List.forall_mem_append.2 ⟨h.2, pollSdmaQueueLogged_good hfits h.1 i⟩⟩) is).2 call hcall
    exact ⟨hgood.inside, hgood.filled⟩

/-- A ring of two dwords, smaller than the window. -/
def twoDwords : QueueInfo := { ringBase := 64, ringSize := 8, qtype := 1, sdmaVersion := .v4 }

theorem ring_reads_inside_twoDwords :
    twoDwords.ringBase.toNat + twoDwords.ringSize.toNat < 2 ^ 64 ∧
      ∀ os : List PollObs, ∀ read ∈ (Trace.run pollQueueLogged (QueueState.new twoDwords) os).2,
        read.Inside twoDwords :=
  ⟨by decide, (ring_reads_inside twoDwords (by decide)).1⟩

end HsaSnoop
