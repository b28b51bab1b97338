import HsaSnoop.Model.SdmaTables
import HsaSnoop.Parser.PollSdmaQueue

set_option autoImplicit false

/-! # What one SDMA packet is taken for

The decode loop names, measures and reads each packet from a window of at most `kSdmaWindow` dwords.
The two results here are about every packet of every run, whatever the ring holds: what the record of
a packet says (`sdma_records_named`), and that the length the loop strides by, or the length it takes
for missing, is the one that any longer look at the same packet would give (`sdma_length_stable`). -/

namespace HsaSnoop

/-! ## The events of a poll -/

/-- A queue in any state of a run: its description is the one it was added with, and its position is
    that of a dword. -/
structure SdmaStanding (q : QueueInfo) (qs : QueueState) : Prop where
  info : qs.info = q
  bound : qs.nextId < 2 ^ 62

theorem SdmaStanding.move {q : QueueInfo} {o : PollObs} {w r : Nat} {qs qs' : QueueState}
    {es : List Event} (hw : w < 2 ^ 62) (h : SdmaStanding q qs) (hmove : SdmaMove o w r qs es qs') :
    SdmaStanding q qs' :=
  ⟨hmove.frame.1.trans h.info, (hmove.nextId_le hw h.bound).2⟩

/-- What holds of the events of every move of a poll holds of the events of the poll. -/
theorem pollSdmaQueue_forall_events {q : QueueInfo} {o : PollObs} {E : Event → Prop}
    {qs : QueueState} (hqs : SdmaStanding q qs)
    (hmove : ∀ w r s es t, o.dwords? = some (w, r) → SdmaStanding q s → SdmaMove o w r s es t →
      ∀ e ∈ es, E e) :
    SdmaStanding q (pollSdmaQueue qs o).1 ∧ ∀ e ∈ (pollSdmaQueue qs o).2, E e := by
  refine pollSdmaQueue_elim qs o (fun qs' fs hcase => ?_)
  cases hcase with
  | failed unread => exact ⟨⟨hqs.info, hqs.bound⟩, by simp⟩
  | noRing none => exact ⟨⟨hqs.info, hqs.bound⟩, by simp⟩
  | @primes w r read ring fresh =>
      exact ⟨⟨hqs.info, (PollObs.dwords_lt read).1⟩, hmove w r qs _ _ read hqs SdmaMove.start⟩
  | @polled w r mid qs' es fs read ring primed decode stopped drain nextId drained last trace =>
      have hw := (PollObs.dwords_lt read).1
      have hstart : SdmaStanding q qs ∧ ∀ e ∈ ([] : List Event), E e := ⟨hqs, by simp⟩
      have hsteps := (decode.trans drain).invariant
        (fun s gs => SdmaStanding q s ∧ ∀ e ∈ gs, E e)
        (fun s es t gs hs hstep =>
          ⟨hs.1.move hw hstep,
            List.forall_mem_append.2 ⟨hs.2, hmove w r s es t read hs.1 hstep⟩⟩) hstart
      simpa using hsteps

/-- What holds of every poll of a standing queue holds of every poll of a run. -/
theorem pollSdmaQueue_along {C : QueueState → PollObs → Prop} {q : QueueInfo}
    (h : ∀ qs o, SdmaStanding q qs → C qs o) (os : List PollObs) :
    Trace.Along pollSdmaQueue C (QueueState.new q) os := by
  intro pre o post hsplit
  refine h _ o (Trace.run_invariant (fun qs _ => SdmaStanding q qs) ⟨rfl, Nat.two_pow_pos 62⟩
    (fun qs _ o hqs => ?_) pre)
  exact (pollSdmaQueue_forall_events (E := fun _ => True) hqs (fun _ _ _ _ _ _ _ _ _ _ => trivial)).1

/-- The window of a packet shows the ring. -/
theorem SdmaWindow.ring {o : PollObs} {w : Nat} {qs : QueueState} {dws : Nat → UInt32}
    (h : SdmaWindow o w qs dws) {i : Nat} (hi : i < sdmaWindow w qs) :
    dws i = ringDword qs.info (o.mem qs.nextId) (qs.nextId + i) := by
  refine readRingDwords_eq h.read ?_ hi
  have hring := h.inRing
  unfold sdmaWindow
  omega

/-! ## Names and copy fields -/

/-- The record that is made of a window. -/
theorem sdmaRecord_header (qs : QueueState) (m : ProcMem) (now : Time) (dws : Nat → UInt32)
    (win : Nat) :
    (sdmaRecord qs m now dws win).1.opcode = Sdma.headerOp (dws 0) ∧
      (sdmaRecord qs m now dws win).1.subOpcode = Sdma.headerSubOp (dws 0) ∧
      (sdmaRecord qs m now dws win).1.sdmaVersion = qs.info.sdmaVersion := by
  simp only [sdmaRecord]
  split_ifs <;> exact ⟨rfl, rfl, rfl⟩

/-- A copy is named after its sub-opcode, every other packet after its opcode. -/
theorem sdmaRecord_opName (qs : QueueState) (m : ProcMem) (now : Time) (dws : Nat → UInt32)
    (win : Nat) :
    (sdmaRecord qs m now dws win).1.opName =
      if Sdma.Op.ofByte? (Sdma.headerOp (dws 0)) = some .copy then
        str "copy_" ++ Sdma.copySubOpName qs.info.sdmaVersion (Sdma.headerSubOp (dws 0)) ++
          (if Sdma.headerBroadcast (dws 0) then str "_broadcast" else [])
      else Sdma.opName qs.info.sdmaVersion (Sdma.headerOp (dws 0)) := by
  simp only [sdmaRecord, SdmaRecord.isCopy, decide_eq_true_eq]
  split_ifs <;> rfl

theorem sdmaRecord_linear {qs : QueueState} {m : ProcMem} {now : Time} {dws : Nat → UInt32}
    {win : Nat} (hcopy : Sdma.Op.ofByte? (Sdma.headerOp (dws 0)) = some .copy)
    (hlin : Sdma.isLinearCopy qs.info.sdmaVersion (Sdma.headerSubOp (dws 0)) = true)
    (hwin : 7 ≤ win) :
    (sdmaRecord qs m now dws win).1.bytes =
        Sdma.linearCopyBytes qs.info.sdmaVersion (Sdma.headerSubOp (dws 0)) (dws 1) ∧
      (sdmaRecord qs m now dws win).1.srcAddr = addrDwords dws 3 ∧
      (sdmaRecord qs m now dws win).1.dstAddr = addrDwords dws 5 := by
  simp [sdmaRecord, SdmaRecord.isCopy, hcopy, hlin, hwin]

/-- The copy fields of a record are those of the packet at `start`, of `len` dwords, as the poll `o`
    read it. -/
structure CopyInside (q : QueueInfo) (o : PollObs) (start len : Nat) (rec : SdmaRecord) : Prop where
  long : 7 ≤ len
  bytes_pos : 1 ≤ rec.bytes
  bytes_le : rec.bytes ≤ 2 ^ 30
  window : ∃ w r dws, o.dwords? = some (w, r) ∧ 7 ≤ min (w - start) kSdmaWindow ∧
    readRingDwords q (o.mem start) start (min (w - start) kSdmaWindow) = some dws ∧
    (∀ i, i < 7 → dws i = ringDword q (o.mem start) (start + i)) ∧
    rec.srcAddr = (dws 3).toNat ||| ((dws 4).toNat <<< 32) ∧
    rec.dstAddr = (dws 5).toNat ||| ((dws 6).toNat <<< 32)

/-- The record of the packet at `start` is named in full, and a linear copy's fields are read inside
    its packet. -/
structure NamedInFull (q : QueueInfo) (o : PollObs) (start len : Nat) (rec : SdmaRecord) : Prop where
  op : rec.opName ≠ str "unknown"
  subOp : ¬ str "copy_unknown" <+: rec.opName
  copy : rec.isCopy = true → Sdma.isLinearCopy rec.sdmaVersion rec.subOpcode = true →
    CopyInside q o start len rec

/-- The record of a packet that is put in flight. -/
theorem parked_named {q : QueueInfo} {o : PollObs} {w r : Nat} {qs : QueueState}
    {dws : Nat → UInt32} (hq : qs.info = q) (read : o.dwords? = some (w, r))
    (window : SdmaWindow o w qs dws) (known : windowLen w qs dws ≠ 0)
    (whole : qs.nextId + windowLen w qs dws ≤ w) {rec : SdmaRecord}
    (made : rec = (sdmaRecord qs (o.mem qs.nextId) o.now dws (sdmaWindow w qs)).1) :
    NamedInFull q o qs.nextId (windowLen w qs dws) rec := by
  subst hq
  obtain ⟨hopcode, hsub, hversion⟩ :=
    sdmaRecord_header qs (o.mem qs.nextId) o.now dws (sdmaWindow w qs)
  have hname := sdmaRecord_opName qs (o.mem qs.nextId) o.now dws (sdmaWindow w qs)
  rw [← made] at hopcode hsub hversion hname
  have hnamed : rec.opName ≠ str "unknown" ∧ ¬ str "copy_unknown" <+: rec.opName := by
    rw [hname]
    split
    · next hcopy =>
        refine Sdma.copySubOpName_of_len hcopy known _ ?_
        split <;> simp
    · exact Sdma.opName_of_len known
  refine ⟨hnamed.1, hnamed.2, fun hcopy hlin => ?_⟩
  rw [SdmaRecord.isCopy, hopcode, decide_eq_true_eq] at hcopy
  rw [hversion, hsub] at hlin
  have hlong : 7 ≤ windowLen w qs dws := Sdma.packetLenDwords_linear_ge hcopy hlin known
  have hwin : 7 ≤ sdmaWindow w qs := by
    unfold sdmaWindow kSdmaWindow
    omega
  obtain ⟨hbytes, hsrc, hdst⟩ := @sdmaRecord_linear qs (o.mem qs.nextId) o.now dws _ hcopy hlin hwin
  rw [← made] at hbytes hsrc hdst
  have hbounds := Sdma.linearCopyBytes_bounds hlin (dws 1)
  refine ⟨hlong, by omega, by omega, w, r, dws, read, hwin, window.read, fun i hi => ?_, hsrc, hdst⟩
  exact window.ring (by omega)

/-- **Every SDMA record is fully named and its copy fields lie inside its packet**, in every poll of
    every run, whatever the ring holds. -/
theorem sdma_records_named (q : QueueInfo) (os : List PollObs) :
    Trace.Along pollSdmaQueue (fun qs o => ∀ start len rec,
      Event.sdmaPark start len rec ∈ (pollSdmaQueue qs o).2 → NamedInFull q o start len rec)
      (QueueState.new q) os := by
  refine pollSdmaQueue_along (fun qs o hqs start len rec hmem => ?_) os
  refine (pollSdmaQueue_forall_events (E := fun e => ∀ start len rec,
    e = .sdmaPark start len rec → NamedInFull q o start len rec) hqs
    (fun w r s es t read hs hmove e he start len rec heq => ?_)).2 _ hmem start len rec rfl
  subst heq
  cases hmove with
  | park window known whole made =>
      obtain ⟨rfl, rfl, rfl⟩ := Event.sdmaPark.inj (List.mem_singleton.1 he)
      exact parked_named hs.info read window known whole made
  | drain =>
      obtain ⟨x, -, hx⟩ := List.mem_map.1 he
      cases hx
  | _ => simp at he

/-! ## Lengths -/

/-- A look at the packet at `start` of which the first `win` dwords are those in the ring gives the
    length `len`, however much further it reaches. -/
def LengthSettled (q : QueueInfo) (m : ProcMem) (start win len : Nat) : Prop :=
  ∀ (dws : Nat → UInt32) (n : Nat), win ≤ n →
    (∀ i, i < win → dws i = ringDword q m (start + i)) →
    Sdma.packetLenDwords q.sdmaVersion dws n = len

/-- The poll strides by settled lengths only, and it gives up on a packet only when its length is
    settled as unknown. What is dropped further than a ring behind the write pointer was overwritten,
    not looked at. -/
def SettledStrides (q : QueueInfo) (qs : QueueState) (o : PollObs) : Prop :=
  ∀ w r, o.dwords? = some (w, r) →
    (∀ start len rec, Event.sdmaPark start len rec ∈ (pollSdmaQueue qs o).2 →
      LengthSettled q (o.mem start) start (min (w - start) kSdmaWindow) len) ∧
    (∀ start n, Event.drop start n ∈ (pollSdmaQueue qs o).2 → w ≤ start + q.numDwords →
      4 ≤ min (w - start) kSdmaWindow ∧
        LengthSettled q (o.mem start) start (min (w - start) kSdmaWindow) 0)

theorem SdmaWindow.settled {q : QueueInfo} {o : PollObs} {w : Nat} {qs : QueueState}
    {dws : Nat → UInt32} (h : SdmaWindow o w qs dws) (hq : qs.info = q)
    (hknown : windowLen w qs dws ≠ 0 ∨ 4 ≤ sdmaWindow w qs) :
    LengthSettled q (o.mem qs.nextId) qs.nextId (sdmaWindow w qs) (windowLen w qs dws) := by
  subst hq
  intro dws' n hn hagree
  have hpre : ∀ i, i < sdmaWindow w qs → dws i = dws' i :=
    fun i hi => (h.ring hi).trans (hagree i hi).symm
  rcases hknown with hne | h4
  · refine Sdma.packetLenDwords_of_prefix _ ?_ hn hpre hne
    exact (Sdma.supported_of_len hne).2
  · exact Sdma.packetLenDwords_of_four _ h4 hn hpre

theorem settledStrides_poll {q : QueueInfo} {qs : QueueState} (hqs : SdmaStanding q qs)
    (o : PollObs) : SettledStrides q qs o := by
  intro w r hread
  have hevents := (pollSdmaQueue_forall_events (o := o) (E := fun e =>
    (∀ start len rec, e = .sdmaPark start len rec →
      LengthSettled q (o.mem start) start (min (w - start) kSdmaWindow) len) ∧
    (∀ start n, e = .drop start n → w ≤ start + q.numDwords →
      4 ≤ min (w - start) kSdmaWindow ∧
        LengthSettled q (o.mem start) start (min (w - start) kSdmaWindow) 0)) hqs ?_).2
  · exact ⟨fun start len rec hmem => (hevents _ hmem).1 start len rec rfl,
      fun start n hmem => (hevents _ hmem).2 start n rfl⟩
  · intro w' r' s es t hread' hs hmove e he
    obtain ⟨rfl, rfl⟩ : w = w' ∧ r = r' := by
      rw [hread] at hread'
      simpa using hread'
    have hinfo := hs.info
    have hbound := hs.bound
    have hlen := s.info.numDwords_lt
    cases hmove with
    | start => simp at he; simp [he]
    | skip wrapped =>
        obtain rfl := List.mem_singleton.1 he
        refine ⟨by simp, fun start n heq hring => ?_⟩
        obtain ⟨rfl, -⟩ := Event.drop.inj heq
        rw [u64_of_lt (by omega), hinfo] at wrapped
        omega
    | park window known whole made =>
        obtain rfl := List.mem_singleton.1 he
        refine ⟨fun start len rec heq => ?_, by simp⟩
        obtain ⟨rfl, rfl, -⟩ := Event.sdmaPark.inj heq
        exact window.settled hinfo (Or.inl known)
    | resync window unknown enough =>
        obtain rfl := List.mem_singleton.1 he
        refine ⟨by simp, fun start n heq _ => ?_⟩
        obtain ⟨rfl, -⟩ := Event.drop.inj heq
        have h4 : 4 ≤ sdmaWindow w s := by
          unfold sdmaWindow kSdmaWindow
          omega
        refine ⟨h4, ?_⟩
        have hsettled := window.settled hinfo (Or.inr h4)
        rwa [unknown] at hsettled
    | drain =>
        obtain ⟨x, -, rfl⟩ := List.mem_map.1 he
        simp
    | finish drained => simp at he

/-- **Packet lengths are stable under seeing more of the packet.** Of two windows, the first a
    non-empty prefix of the second: a length seen in the first is the length in the second; from four
    dwords on the two agree even on "unknown"; lengths are bounded; nothing outside a window matters.
    Hence every poll of every run strides by, and resyncs on, lengths that later data cannot
    contradict. -/
theorem sdma_length_stable (version : Sdma.Version) :
    (∀ (dw dw' : Nat → UInt32) (n n' : Nat), 1 ≤ n → n ≤ n' → (∀ i, i < n → dw i = dw' i) →
      (Sdma.packetLenDwords version dw n ≠ 0 →
        Sdma.packetLenDwords version dw' n' = Sdma.packetLenDwords version dw n) ∧
      (4 ≤ n → Sdma.packetLenDwords version dw' n' = Sdma.packetLenDwords version dw n)) ∧
    (∀ (dw : Nat → UInt32) (n : Nat), Sdma.packetLenDwords version dw n ≠ 0 →
      1 ≤ Sdma.packetLenDwords version dw n ∧
        Sdma.packetLenDwords version dw n ≤ 2 ^ 20 + 4) ∧
    (∀ (dw dw' : Nat → UInt32) (n : Nat), (∀ i, i < n → dw i = dw' i) →
      Sdma.packetLenDwords version dw n = Sdma.packetLenDwords version dw' n) ∧
    (∀ (q : QueueInfo) (os : List PollObs), q.sdmaVersion = version →
      Trace.Along pollSdmaQueue (SettledStrides q) (QueueState.new q) os) := by
  refine ⟨fun dw dw' n n' hn hnn' hpre => ⟨?_, ?_⟩, fun dw n hne => ⟨?_, ?_⟩, fun dw dw' n h => ?_,
    fun q os _ => ?_⟩
  · exact Sdma.packetLenDwords_of_prefix version hn hnn' hpre
  · exact fun h4 => Sdma.packetLenDwords_of_four version h4 hnn' hpre
  · exact Nat.one_le_iff_ne_zero.2 hne
  · exact Sdma.packetLenDwords_le version dw n
  · exact Sdma.packetLenDwords_window version h
  · exact pollSdmaQueue_along (fun qs o hqs => settledStrides_poll hqs o) os

end HsaSnoop
