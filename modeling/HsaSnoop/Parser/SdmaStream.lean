import HsaSnoop.Library.Frames
import HsaSnoop.Parser.PollSdmaQueue

set_option autoImplicit false

/-! # Decoding an SDMA packet stream

A producer writes a list of packets to the ring, one behind the other from the dword at which the
queue was primed. However the polls slice this stream (in the middle of a packet, over the ring end,
with failed reads in between), the records that reach `sdma_sink_` are those of the packets the read
pointer has passed, in order.

The argument: the decode position is always a packet boundary (`Streamed`), since a window that starts
at a boundary names the length of the packet there or is too short to be acted on
(`packetLen_of_window`). -/

namespace HsaSnoop

/-! ## Packets and their records -/

/-- The dwords of a packet. -/
def packetDwords (p : List UInt32) : Nat → UInt32 := fun i => p.getD i 0

/-- A packet with a recognised opcode, as long as its header says. -/
structure Recognised (version : Sdma.Version) (p : List UInt32) : Prop where
  nonempty : p ≠ []
  len : Sdma.packetLenDwords version (packetDwords p) p.length = p.length

/-- A recognised packet that fits the ring. -/
structure WellFormed (q : QueueInfo) (p : List UInt32) : Prop extends
    Recognised q.sdmaVersion p where
  fits : p.length ≤ q.numDwords

/-- A record without what depends on when it was seen. -/
def SdmaRecord.bare (rec : SdmaRecord) : SdmaRecord :=
  { rec with dir := .unknown, submitTs := 0, completeTs := 0 }

/-- What a record is to say about packet `p`, the `seq`-th of the queue. -/
def packetRecord (q : QueueInfo) (seq : Nat) (p : List UInt32) : SdmaRecord :=
  let dw0 := packetDwords p 0
  let copy := Sdma.Op.ofByte? (Sdma.headerOp dw0) = some .copy
  let linear := copy ∧ Sdma.isLinearCopy q.sdmaVersion (Sdma.headerSubOp dw0) = true
  { queueUid := q.uid
    seq := seq
    opcode := Sdma.headerOp dw0
    subOpcode := Sdma.headerSubOp dw0
    sdmaVersion := q.sdmaVersion
    opName :=
      if copy then
        str "copy_" ++ Sdma.copySubOpName q.sdmaVersion (Sdma.headerSubOp dw0) ++
          (if Sdma.headerBroadcast dw0 then str "_broadcast" else [])
      else Sdma.opName q.sdmaVersion (Sdma.headerOp dw0)
    bytes :=
      if linear then
        Sdma.linearCopyBytes q.sdmaVersion (Sdma.headerSubOp dw0) (packetDwords p 1)
      else 0
    srcAddr := if linear then addrDwords (packetDwords p) 3 else 0
    dstAddr := if linear then addrDwords (packetDwords p) 5 else 0 }

theorem SdmaRecord.bare_complete (rec : SdmaRecord) (now : Time) :
    (rec.complete now).bare = { rec.bare with completed := true } := rfl

/-- A window that starts like a recognised packet names its length, unless it is too short to show
    a `WRITE`'s count and too short for the packet. -/
theorem packetLen_of_window {version : Sdma.Version} {p : List UInt32} {dws : Nat → UInt32}
    {avail : Nat} (hp : Recognised version p) (hpos : 0 < avail)
    (hagree : ∀ i, i < min avail kSdmaWindow → i < p.length → dws i = packetDwords p i) :
    Sdma.packetLenDwords version dws (min avail kSdmaWindow) = p.length ∨
      (Sdma.packetLenDwords version dws (min avail kSdmaWindow) = 0 ∧ avail < 4 ∧
        avail < p.length) := by
  have hlen : 0 < p.length := List.length_pos_iff.2 hp.nonempty
  have hwin : kSdmaWindow = 16 := rfl
  have h0 : dws 0 = packetDwords p 0 := hagree 0 (by omega) hlen
  by_cases hop : Sdma.Op.ofByte? (Sdma.headerOp (packetDwords p 0)) = some .write
  · have hge : 5 ≤ p.length := by
      have hwrite := @Sdma.packetLenDwords_write_ge version _ p.length hop
        (by rw [hp.len]; omega)
      rwa [hp.len] at hwrite
    by_cases hfew : avail < 4
    · refine Or.inr ⟨?_, hfew, by omega⟩
      exact Sdma.packetLenDwords_write_short version (by omega) (by rwa [h0])
    · left
      rw [← hp.len]
      exact Sdma.packetLenDwords_congr version h0 (by omega) hlen
        (Or.inl ⟨by omega, by omega, hagree 3 (by omega) (by omega)⟩)
  · left
    conv_rhs => rw [← hp.len]
    exact Sdma.packetLenDwords_of_not_write version h0 (by omega) hlen (by rwa [h0])

/-- The record made from a window that holds a whole packet, or the front of it that is looked at. -/
theorem sdmaRecord_bare {qs : QueueState} {p : List UInt32} {dws : Nat → UInt32} {avail : Nat}
    (m : ProcMem) (now : Time) (hp : WellFormed qs.info p) (hwhole : p.length ≤ avail)
    (hagree : ∀ i, i < min avail kSdmaWindow → i < p.length → dws i = packetDwords p i) :
    (sdmaRecord qs m now dws (min avail kSdmaWindow)).1.bare
      = packetRecord qs.info qs.sdmaSeq p := by
  have hlen : 0 < p.length := List.length_pos_iff.2 hp.nonempty
  have hwin : kSdmaWindow = 16 := rfl
  have h0 : dws 0 = packetDwords p 0 := hagree 0 (by omega) hlen
  by_cases hcopy : Sdma.Op.ofByte? (Sdma.headerOp (packetDwords p 0)) = some .copy
  · by_cases hlin : Sdma.isLinearCopy qs.info.sdmaVersion (Sdma.headerSubOp (packetDwords p 0)) = true
    · have hge : 7 ≤ p.length := by
        have hlong := @Sdma.packetLenDwords_linear_ge _ _ p.length hcopy hlin
          (by rw [hp.len]; omega)
        rwa [hp.len] at hlong
      have hseven : 7 ≤ min avail kSdmaWindow := by omega
      have hdw : ∀ i, i < 7 → dws i = packetDwords p i :=
        fun i hi => hagree i (by omega) (by omega)
      simp [sdmaRecord, packetRecord, SdmaRecord.bare, SdmaRecord.isCopy, h0, hcopy, hlin, hseven,
        addrDwords, hdw]
    · simp [sdmaRecord, packetRecord, SdmaRecord.bare, SdmaRecord.isCopy, h0, hcopy, hlin]
  · simp [sdmaRecord, packetRecord, SdmaRecord.bare, SdmaRecord.isCopy, h0, hcopy]

/-! ## The stream in the ring -/

/-- What a poll of a stream may see: the consumer does not overtake the producer, the producer is at
    most one ring ahead of the decode position, and the dwords that are still to be read are those of
    the stream. Reads may fail. -/
structure StreamPoll (packets : List (List UInt32)) (w0 : Nat) (qs : QueueState) (o : PollObs) :
    Prop where
  consumer : ∀ w r, o.dwords? = some (w, r) → r ≤ w
  timely : qs.primed = true → ∀ w r, o.dwords? = some (w, r) →
    w ≤ qs.nextId + qs.info.numDwords
  intact : qs.primed = true → ∀ w r, o.dwords? = some (w, r) →
    ∀ t i, qs.nextId ≤ i → i < w →
      packets.flatten[i - w0]? = some (ringDword qs.info (o.mem t) i)

/-- A window at the start of packet `n` holds the front of that packet. -/
theorem window_agrees {packets : List (List UInt32)} {w0 w n : Nat} {o : PollObs} {qs : QueueState}
    {dws : Nat → UInt32} (hnext : qs.nextId = w0 + Frames.offset packets n)
    (hwin : SdmaWindow o w qs dws)
    (hintact : ∀ t i, qs.nextId ≤ i → i < w →
      packets.flatten[i - w0]? = some (ringDword qs.info (o.mem t) i)) :
    ∃ p, packets[n]? = some p ∧
      ∀ i, i < min (w - qs.nextId) kSdmaWindow → i < p.length → dws i = packetDwords p i := by
  have hlt := hwin.lt
  have hring := hwin.inRing
  have hbound : Frames.offset packets n < packets.flatten.length := by
    have hget := hintact 0 qs.nextId (Nat.le_refl _) hlt
    rw [hnext, Nat.add_sub_cancel_left] at hget
    exact (List.getElem?_eq_some_iff.1 hget).1
  obtain ⟨p, hp⟩ := Frames.exists_frame hbound
  refine ⟨p, hp, fun i hi hip => ?_⟩
  have hread := readRingDwords_eq hwin.read (by unfold sdmaWindow; omega) hi
  have hget := hintact qs.nextId (qs.nextId + i) (by omega) (by omega)
  have hoff : qs.nextId + i - w0 = Frames.offset packets n + i := by omega
  rw [hoff, Frames.getElem?_flatten hp hip] at hget
  rw [hread, packetDwords, List.getD_eq_getElem?_getD, hget, Option.getD_some]

/-- Where packet `k` ends. -/
def endDword (packets : List (List UInt32)) (w0 k : Nat) : Nat := w0 + Frames.offset packets (k + 1)

/-- The record of packet `k`. -/
def streamRecord (q : QueueInfo) (packets : List (List UInt32)) (k : Nat) : SdmaRecord :=
  packetRecord q k (packets.getD k [])

/-- `n` packets have been decoded and `m` of them delivered. -/
structure Streamed (q : QueueInfo) (packets : List (List UInt32)) (w0 n m : Nat) (qs : QueueState)
    (es : List Event) : Prop where
  info : qs.info = q
  count : n ≤ packets.length
  order : m ≤ n
  /-- The decode position is a packet boundary. -/
  nextId : qs.nextId = w0 + Frames.offset packets n
  seq : qs.sdmaSeq = n
  inflight : qs.sdmaInflight.entries.map (fun e => (e.1, e.2.bare)) =
    (List.range' m (n - m)).map (fun k => (endDword packets w0 k, streamRecord q packets k))
  delivered : (sdmaRecords es).map SdmaRecord.bare =
    (List.range' 0 m).map (fun k => { streamRecord q packets k with completed := true })

namespace Streamed

variable {q : QueueInfo} {packets : List (List UInt32)} {w0 n m : Nat} {qs : QueueState}
  {es : List Event}

theorem keys_eq (h : Streamed q packets w0 n m qs es) :
    qs.sdmaInflight.keys = (List.range' m (n - m)).map (endDword packets w0) := by
  have hkeys := congrArg (List.map Prod.fst) h.inflight
  simpa [OrdMap.keys, Function.comp_def] using hkeys

/-- Everything in flight ends at or before the decode position. -/
theorem keys_le (h : Streamed q packets w0 n m qs es) :
    ∀ k ∈ qs.sdmaInflight.keys, k ≤ qs.nextId := by
  intro k hk
  rw [h.keys_eq] at hk
  obtain ⟨j, hj, rfl⟩ := List.mem_map.1 hk
  have hlt := List.mem_range'_1.1 hj
  have hmono := @Frames.offset_mono _ packets n (j + 1) (by have := h.order; omega)
  rw [h.nextId, endDword]
  omega

/-- Putting packet `n` in flight. -/
theorem push {p : List UInt32} {rec : SdmaRecord} {pageHost : OrdMap Bool} {start len : Nat}
    (h : Streamed q packets w0 n m qs es) (hwf : ∀ p ∈ packets, p ≠ [])
    (hp : packets[n]? = some p) (hrec : rec.bare = packetRecord q n p) :
    Streamed q packets w0 (n + 1) m
      { qs with
        sdmaSeq := qs.sdmaSeq + 1
        pageHost := pageHost
        sdmaInflight := qs.sdmaInflight.emplace (qs.nextId + p.length) rec
        nextId := qs.nextId + p.length } (es ++ [.sdmaPark start len rec]) := by
  obtain ⟨hn, hpn⟩ := List.getElem?_eq_some_iff.1 hp
  have hpos : 0 < p.length := List.length_pos_iff.2 (hwf p (hpn ▸ List.getElem_mem hn))
  have horder := h.order
  have hsucc := Frames.offset_succ hp
  have hnext := h.nextId
  have hend : qs.nextId + p.length = endDword packets w0 n := by
    rw [endDword]
    omega
  have hback : (qs.sdmaInflight.emplace (qs.nextId + p.length) rec).entries
      = qs.sdmaInflight.entries ++ [(qs.nextId + p.length, rec)] :=
    OrdMap.entries_emplace_of_forall_lt (fun k hk => by
      have := h.keys_le k hk
      omega)
  refine ⟨h.info, hn, by omega, ?_, by simp [h.seq], ?_, by simpa using h.delivered⟩
  · simp only
    omega
  · simp only [hback, List.map_append, h.inflight, List.map_cons, List.map_nil]
    rw [show n + 1 - m = (n - m) + 1 by omega, List.range'_concat, List.map_append, Nat.one_mul,
      show m + (n - m) = n by omega, hend, hrec]
    simp [streamRecord, hp]

/-- Draining delivers the oldest packets in flight. -/
theorem drain (h : Streamed q packets w0 n m qs es) (b : Nat) (now : Time) :
    ∃ m', m ≤ m' ∧ (∀ k, m ≤ k → k < m' → endDword packets w0 k < b) ∧
      Streamed q packets w0 n m'
        { qs with sdmaInflight := (qs.sdmaInflight.splitBelow b).2 }
        (es ++ (qs.sdmaInflight.splitBelow b).1.map (fun e => .sdmaSink (e.2.complete now))) := by
  have hsplit := h.inflight
  rw [← qs.sdmaInflight.splitBelow_append b, List.map_append] at hsplit
  have hlt : ∀ e ∈ (qs.sdmaInflight.splitBelow b).1, e.1 < b :=
    fun e he => OrdMap.splitBelow_fst_lt he
  generalize (qs.sdmaInflight.splitBelow b).1 = gone at hsplit hlt ⊢
  generalize (qs.sdmaInflight.splitBelow b).2 = left at hsplit ⊢
  have horder := h.order
  have hle : gone.length ≤ n - m := by
    have hlen := congrArg List.length hsplit
    simp only [List.length_append, List.length_map, List.length_range'] at hlen
    omega
  -- The first `gone.length` packets in flight go, the others stay.
  rw [show n - m = gone.length + (n - m - gone.length) by omega, ← List.range'_append,
    List.map_append, Nat.one_mul] at hsplit
  obtain ⟨hgone, hleft⟩ := List.append_inj hsplit (by simp)
  refine ⟨m + gone.length, Nat.le_add_right .., fun k hlo hhi => ?_, h.info, h.count, by omega,
    h.nextId, h.seq, ?_, ?_⟩
  · have hmem : (endDword packets w0 k, streamRecord q packets k) ∈
        gone.map (fun e => (e.1, e.2.bare)) := by
      rw [hgone]
      exact List.mem_map_of_mem (List.mem_range'_1.2 ⟨hlo, by omega⟩)
    obtain ⟨e, he, heq⟩ := List.mem_map.1 hmem
    have hb := hlt e he
    rwa [(Prod.mk.inj heq).1] at hb
  · rw [show n - (m + gone.length) = n - m - gone.length by omega]
    exact hleft
  · have hrecs : gone.map (fun e => (e.2.complete now).bare) =
        (List.range' m gone.length).map
          (fun k => { streamRecord q packets k with completed := true }) := by
      have hsnd := congrArg (List.map (fun e => { e.2 with completed := true })) hgone
      simpa [Function.comp_def, SdmaRecord.bare_complete] using hsnd
    rw [← List.range'_append, List.map_append, Nat.zero_add, Nat.one_mul, ← hrecs,
      sdmaRecords_append, List.map_append, h.delivered]
    simp [sdmaRecords, List.filterMap_map, Function.comp_def]

end Streamed

/-! ## One poll -/

/-- The state between two moves of a poll that read `r`. -/
structure MidPoll (q : QueueInfo) (packets : List (List UInt32)) (w0 r lo : Nat)
    (qs : QueueState) (es : List Event) : Prop where
  bound : qs.nextId < 2 ^ 62
  start : lo ≤ qs.nextId
  streamed : ∃ n m, Streamed q packets w0 n m qs es ∧ ∀ k, k < m → endDword packets w0 k ≤ r

theorem MidPoll.move {q : QueueInfo} {packets : List (List UInt32)} {w0 w r lo : Nat}
    {o : PollObs} {qs qs' : QueueState} {es fs : List Event}
    (hwf : ∀ p ∈ packets, WellFormed q p) (hw : w < 2 ^ 62) (htimely : w ≤ lo + q.numDwords)
    (hintact : ∀ t i, lo ≤ i → i < w →
      packets.flatten[i - w0]? = some (ringDword q (o.mem t) i))
    (h : MidPoll q packets w0 r lo qs es) (hmove : SdmaMove o w r qs fs qs') :
    MidPoll q packets w0 r lo qs' (es ++ fs) := by
  obtain ⟨n, m, hs, hdone⟩ := h.streamed
  have hb := h.bound
  have hstart := h.start
  have hring := q.numDwords_lt
  have hinfo := hs.info
  have hne : ∀ p ∈ packets, p ≠ [] := fun p hp => (hwf p hp).nonempty
  -- A window at the decode position holds the front of packet `n`.
  have hlook : ∀ {dws}, SdmaWindow o w qs dws → ∃ p, packets[n]? = some p ∧ WellFormed q p ∧
      ∀ i, i < min (w - qs.nextId) kSdmaWindow → i < p.length → dws i = packetDwords p i := by
    intro dws hwin
    obtain ⟨p, hp, hagree⟩ := window_agrees hs.nextId hwin (fun t i hlo hhi => by
      rw [hinfo]
      exact hintact t i (by omega) hhi)
    exact ⟨p, hp, hwf p (List.mem_of_getElem? hp), hagree⟩
  cases hmove with
  | start =>
      exact ⟨hb, hstart, n, m, ⟨hs.info, hs.count, hs.order, hs.nextId, hs.seq, hs.inflight,
        by simpa using hs.delivered⟩, hdone⟩
  | skip wrapped =>
      rw [hinfo, u64_of_lt (by omega)] at wrapped
      omega
  | @park dws rec pageHost window known whole made =>
      obtain ⟨p, hp, hpwf, hagree⟩ := hlook window
      have hlen : windowLen w qs dws = p.length := by
        have hwlen := packetLen_of_window hpwf.toRecognised (Nat.sub_pos_of_lt window.lt) hagree
        rw [← hinfo] at hwlen
        exact hwlen.resolve_right (fun hzero => known hzero.1)
      rw [hlen] at whole ⊢
      have hrec : rec.bare = packetRecord q n p := by
        have hbare := sdmaRecord_bare (o.mem qs.nextId) o.now (hinfo ▸ hpwf)
          (show p.length ≤ w - qs.nextId by omega) hagree
        rw [made, ← hinfo, ← hs.seq]
        exact hbare
      exact ⟨by simp only; omega, by simp only; omega, n + 1, m, hs.push hne hp hrec, hdone⟩
  | @resync dws window unknown enough =>
      obtain ⟨p, hp, hpwf, hagree⟩ := hlook window
      have hpos : 0 < p.length := List.length_pos_iff.2 hpwf.nonempty
      have hwlen := packetLen_of_window hpwf.toRecognised (Nat.sub_pos_of_lt window.lt) hagree
      rw [← hinfo] at hwlen
      rcases hwlen with hlen | ⟨-, hfew, -⟩
      · rw [show Sdma.packetLenDwords qs.info.sdmaVersion dws (min (w - qs.nextId) kSdmaWindow)
          = windowLen w qs dws from rfl] at hlen
        omega
      · omega
  | drain =>
      obtain ⟨m', hmm', hpass, hs'⟩ := hs.drain (r + 1) o.now
      refine ⟨hb, hstart, n, m', hs', fun k hk => ?_⟩
      by_cases hkm : k < m
      · exact hdone k hkm
      · exact Nat.le_of_lt_succ (hpass k (Nat.le_of_not_lt hkm) hk)
  | finish drained =>
      rw [List.append_nil]
      exact ⟨hb, hstart, n, m, ⟨hs.info, hs.count, hs.order, hs.nextId, hs.seq, hs.inflight,
        hs.delivered⟩, hdone⟩

/-- Once the ring can be read, decoding only stops in front of a packet that is not fully
    published. -/
theorem stopped_before_end {q : QueueInfo} {packets : List (List UInt32)} {w0 w n : Nat}
    {o : PollObs} {qs : QueueState} (hwf : ∀ p ∈ packets, WellFormed q p)
    (hintact : ∀ t i, qs.nextId ≤ i → i < w →
      packets.flatten[i - w0]? = some (ringDword q (o.mem t) i))
    (hread : ∀ t start n, n ≤ q.numDwords → (readRingDwords q (o.mem t) start n).isSome = true)
    (hinfo : qs.info = q) (hnext : qs.nextId = w0 + Frames.offset packets n)
    (hstop : SdmaStop o w qs) (hn : n < packets.length) : w < endDword packets w0 n := by
  have hget : packets[n]? = some packets[n] := List.getElem?_eq_getElem hn
  have hpos : 0 < packets[n].length :=
    List.length_pos_iff.2 (hwf _ (List.getElem_mem hn)).nonempty
  have hend : endDword packets w0 n = qs.nextId + packets[n].length := by
    rw [endDword, Frames.offset_succ hget, hnext]
    omega
  have hlen : ∀ {dws}, SdmaWindow o w qs dws → windowLen w qs dws = packets[n].length ∨
      (windowLen w qs dws = 0 ∧ w - qs.nextId < 4 ∧ w - qs.nextId < packets[n].length) := by
    intro dws hwin
    obtain ⟨p, hp, hagree⟩ := window_agrees hnext hwin (hinfo ▸ hintact)
    obtain rfl : packets[n] = p := Option.some.inj (hget.symm.trans hp)
    have hwlen := packetLen_of_window (hwf _ (List.getElem_mem hn)).toRecognised
      (Nat.sub_pos_of_lt hwin.lt) hagree
    rw [← hinfo] at hwlen
    exact hwlen
  cases hstop with
  | all done => omega
  | unread lt inRing failed =>
      have hsome := hread qs.nextId qs.nextId (sdmaWindow w qs)
        (by rw [← hinfo]; unfold sdmaWindow; omega)
      rw [← hinfo, failed] at hsome
      exact absurd hsome (by simp)
  | short window unknown few =>
      have hlt := window.lt
      rcases hlen window with hlen | ⟨-, -, hlen⟩ <;> omega
  | unfinished window long =>
      have hlt := window.lt
      rcases hlen window with hlen | ⟨hlen, -, -⟩ <;> omega

/-! ## Runs -/

/-- The state of a streamed queue between polls. -/
def StreamBooked (q : QueueInfo) (packets : List (List UInt32)) (w0 : Nat) (qs : QueueState)
    (es : List Event) : Prop :=
  qs.info = q ∧
    match primingWptr es with
    | none => qs.primed = false ∧ qs.sdmaSeq = 0 ∧ qs.sdmaInflight = ∅ ∧ sdmaRecords es = []
    | some w1 => qs.primed = true ∧
        (w1 = w0 → MidPoll q packets w0 qs.lastRptr 0 qs es ∧
          ∀ k ∈ qs.sdmaInflight.keys, qs.lastRptr < k)

theorem pollSdmaQueue_setsLastRptr : SetsLastRptr pollSdmaQueue Sdma.ringBytesToDwords := by
  intro qs o hp
  revert hp
  refine pollSdmaQueue_elim qs o (fun qs' fs hcase => ?_)
  intro hp
  have hptr : ∀ {w r}, o.dwords? = some (w, r) →
      ∃ p, o.pointers? = some p ∧ r = Sdma.ringBytesToDwords p.2 := by
    intro w r hread
    obtain ⟨p, hp, heq⟩ := Option.map_eq_some_iff.1 hread
    exact ⟨p, hp, (Prod.mk.inj heq).2.symm⟩
  cases hcase with
  | failed unread => exact Or.inl ⟨hp, rfl⟩
  | noRing none => exact Or.inl ⟨hp, rfl⟩
  | primes read ring fresh => exact Or.inr (hptr read)
  | polled read ring primed decode stopped drain nextId drained last =>
      obtain ⟨p, hp, hr⟩ := hptr read
      exact Or.inr ⟨p, hp, last.trans hr⟩

theorem streamBooked_new (q : QueueInfo) (packets : List (List UInt32)) (w0 : Nat) :
    StreamBooked q packets w0 (QueueState.new q) [] := ⟨rfl, rfl, rfl, rfl, rfl⟩

/-- Nothing is decoded yet right after priming. -/
theorem streamed_primed {q : QueueInfo} {packets : List (List UInt32)} {w0 : Nat}
    {qs : QueueState} {es : List Event} (hinfo : qs.info = q) (hnext : qs.nextId = w0)
    (hseq : qs.sdmaSeq = 0) (hinfl : qs.sdmaInflight = ∅) (hrecs : sdmaRecords es = []) :
    Streamed q packets w0 0 0 qs es :=
  ⟨hinfo, Nat.zero_le _, Nat.le_refl _, by simpa using hnext, hseq, by simp [hinfl],
    by simp [hrecs]⟩

theorem StreamBooked.poll {q : QueueInfo} {packets : List (List UInt32)} {w0 : Nat}
    {qs : QueueState} {es : List Event} {o : PollObs} (hwf : ∀ p ∈ packets, WellFormed q p)
    (h : StreamBooked q packets w0 qs es) (ho : StreamPoll packets w0 qs o)
    (hmono : qs.primed = true → ∀ w r, o.dwords? = some (w, r) → qs.lastRptr ≤ r) :
    StreamBooked q packets w0 (pollSdmaQueue qs o).1 (es ++ (pollSdmaQueue qs o).2) := by
  obtain ⟨hinfo, hbook⟩ := h
  refine ⟨(pollSdmaQueue_info qs o).trans hinfo, ?_⟩
  refine pollSdmaQueue_elim qs o (fun qs' fs hcase => ?_)
  -- A poll that changes neither the stream nor the pointers.
  have hsame : ∀ {t : QueueState}, t.primed = qs.primed → t.sdmaSeq = qs.sdmaSeq →
      t.sdmaInflight = qs.sdmaInflight → t.nextId = qs.nextId → t.lastRptr = qs.lastRptr →
      t.info = qs.info →
      match primingWptr es with
      | none => t.primed = false ∧ t.sdmaSeq = 0 ∧ t.sdmaInflight = ∅ ∧ sdmaRecords es = []
      | some w1 => t.primed = true ∧
          (w1 = w0 → MidPoll q packets w0 t.lastRptr 0 t es ∧
            ∀ k ∈ t.sdmaInflight.keys, t.lastRptr < k) := by
    intro t hp hseq hinfl hnext hlast hti
    split at hbook
    · exact ⟨hp.trans hbook.1, hseq.trans hbook.2.1, hinfl.trans hbook.2.2.1, hbook.2.2.2⟩
    · refine ⟨hp.trans hbook.1, fun hw1 => ?_⟩
      obtain ⟨⟨hb, hlo, n, m, hs, hdone⟩, hkeys⟩ := hbook.2 hw1
      rw [hinfl, hlast]
      exact ⟨⟨hnext ▸ hb, Nat.zero_le _, n, m, ⟨hti.trans hs.info, hs.count, hs.order,
        hnext.trans hs.nextId, hseq.trans hs.seq, hinfl ▸ hs.inflight, hs.delivered⟩, hdone⟩, hkeys⟩
  cases hcase with
  | failed unread =>
      rw [List.append_nil]
      exact hsame rfl rfl rfl rfl rfl rfl
  | noRing none =>
      rw [List.append_nil]
      exact hsame rfl rfl rfl rfl rfl rfl
  | @primes w r read ring fresh =>
      cases hprim : primingWptr es with
      | some w1 =>
          simp only [hprim] at hbook
          exact absurd hbook.1 (by simp [fresh])
      | none =>
          simp only [hprim] at hbook
          obtain ⟨-, hseq, hinfl, hrecs⟩ := hbook
          have hw1 : primingWptr (es ++ [Event.pointers w r]) = some w :=
            primingWptr_append_of_none hprim
          simp only [hw1, hinfl, OrdMap.keys_empty, List.not_mem_nil, false_implies, implies_true,
            and_true, true_and]
          rintro rfl
          refine ⟨(PollObs.dwords_lt read).1, Nat.zero_le _, 0, 0,
            streamed_primed hinfo rfl hseq rfl (by simp [hrecs]), fun k hk => absurd hk (by omega)⟩
  | @polled w r mid qs' fs gs read ring primed decode stopped drain nextId drained last =>
      cases hprim : primingWptr es with
      | none =>
          simp only [hprim] at hbook
          exact absurd hbook.1 (by simp [primed])
      | some w1 =>
          simp only [hprim] at hbook
          simp only [primingWptr_append_of_some hprim]
          have hframe := SdmaMove.frame_steps (decode.trans drain)
          refine ⟨hframe.2.1.trans primed, fun hw1 => ⟨?_, by rw [last]; exact drained⟩⟩
          obtain ⟨⟨hb, -, n, m, hs, hdone⟩, -⟩ := hbook.2 hw1
          have hstart : MidPoll q packets w0 r qs.nextId qs es :=
            ⟨hb, Nat.le_refl _, n, m, hs, fun k hk => (hdone k hk).trans (hmono primed w r read)⟩
          have hmid := (decode.trans drain).invariant (MidPoll q packets w0 r qs.nextId)
            (fun _ _ _ _ hmid hmove => hmid.move hwf (PollObs.dwords_lt read).1
              (hinfo ▸ ho.timely primed w r read) (hinfo ▸ ho.intact primed w r read) hmove) hstart
          rw [last]
          exact ⟨hmid.bound, Nat.zero_le _, hmid.streamed⟩

theorem streamBooked_run {q : QueueInfo} {packets : List (List UInt32)} {w0 : Nat}
    {os : List PollObs} (hwf : ∀ p ∈ packets, WellFormed q p) (hmono : MonotonePointers os)
    (h : Trace.Along pollSdmaQueue (StreamPoll packets w0) (QueueState.new q) os) :
    StreamBooked q packets w0 (Trace.run pollSdmaQueue (QueueState.new q) os).1
      (Trace.run pollSdmaQueue (QueueState.new q) os).2 := by
  have hdwords : Monotone Sdma.ringBytesToDwords := fun a b hab => Nat.div_le_div_right hab
  have hrptr := pollSdmaQueue_setsLastRptr.along hdwords hmono q
  have hboth : Trace.Along pollSdmaQueue (fun qs o => StreamPoll packets w0 qs o ∧
      (qs.primed = true → ∀ w r, o.dwords? = some (w, r) → qs.lastRptr ≤ r))
      (QueueState.new q) os := by
    intro pre o post hsplit
    refine ⟨h pre o post hsplit, fun hp w r hread => ?_⟩
    obtain ⟨p, hptr, heq⟩ := Option.map_eq_some_iff.1 hread
    rw [← (Prod.mk.inj heq).2]
    exact hrptr pre o post hsplit hp p hptr
  exact Trace.run_invariant_along (StreamBooked q packets w0) (streamBooked_new q packets w0)
    (fun _ _ _ hbook hc => hbook.poll hwf hc.1 hc.2) hboth

theorem pollSdmaQueue_lastRptr {qs : QueueState} {o : PollObs} {w r : Nat}
    (hlast : o.dwords? = some (w, r)) (hring : qs.info.numDwords ≠ 0) :
    (pollSdmaQueue qs o).1.lastRptr = r := by
  refine pollSdmaQueue_elim qs o (fun qs' fs hcase => ?_)
  cases hcase with
  | failed unread => simp [hlast] at unread
  | noRing none => exact absurd none hring
  | primes read ring fresh => exact (Prod.mk.inj (Option.some.inj (read.symm.trans hlast))).2
  | polled read ring primed decode stopped drain nextId drained last =>
      exact last.trans (Prod.mk.inj (Option.some.inj (read.symm.trans hlast))).2

/-- After a poll that could read the ring, decoding stands in front of a packet that was not fully
    published. -/
theorem pollSdmaQueue_reached {q : QueueInfo} {packets : List (List UInt32)} {w0 w r n : Nat}
    {qs : QueueState} {o : PollObs} (hwf : ∀ p ∈ packets, WellFormed q p)
    (ho : StreamPoll packets w0 qs o) (hlast : o.dwords? = some (w, r))
    (hread : ∀ t start n, n ≤ q.numDwords → (readRingDwords q (o.mem t) start n).isSome = true)
    (hinfo : qs.info = q) (hring : q.numDwords ≠ 0)
    (hb : qs.primed = true → qs.nextId < 2 ^ 62)
    (hnext : (pollSdmaQueue qs o).1.nextId = w0 + Frames.offset packets n)
    (hn : n < packets.length) :
    w < endDword packets w0 n := by
  revert hnext
  refine pollSdmaQueue_elim qs o (fun qs' fs hcase => ?_)
  intro hnext
  cases hcase with
  | failed unread => simp [hlast] at unread
  | noRing none => exact absurd (hinfo ▸ none) hring
  | @primes w' r' read ring fresh =>
      obtain ⟨rfl, rfl⟩ := Prod.mk.inj (Option.some.inj (hlast.symm.trans read))
      have hlt := @Frames.offset_lt_offset _ packets (n + 1) (fun p hp => (hwf p hp).nonempty) n
        (Nat.lt_succ_self n) hn
      simp only at hnext
      rw [endDword]
      omega
  | @polled w' r' mid qs' fs gs read ring primed decode stopped drain nextId drained last =>
      obtain ⟨rfl, rfl⟩ := Prod.mk.inj (Option.some.inj (hlast.symm.trans read))
      have hframe := SdmaMove.frame_steps decode
      have hle := (SdmaMove.nextId_le_steps (PollObs.dwords_lt read).1 (hb primed) decode).1
      exact stopped_before_end hwf
        (fun t i hlo hhi => hinfo ▸ ho.intact primed w r read t i (hle.trans hlo) hhi) hread
        (hframe.1.trans hinfo) (nextId ▸ hnext) stopped hn

theorem streamBooked_bound {q : QueueInfo} {packets : List (List UInt32)} {w0 : Nat}
    {pre : List PollObs} {o : PollObs} (hwf : ∀ p ∈ packets, WellFormed q p)
    (hmono : MonotonePointers (pre ++ [o]))
    (hpolls : Trace.Along pollSdmaQueue (StreamPoll packets w0) (QueueState.new q) (pre ++ [o]))
    (hprimed : primingWptr (Trace.run pollSdmaQueue (QueueState.new q) (pre ++ [o])).2 = some w0) :
    (Trace.run pollSdmaQueue (QueueState.new q) pre).1.info = q ∧
      ((Trace.run pollSdmaQueue (QueueState.new q) pre).1.primed = true →
        (Trace.run pollSdmaQueue (QueueState.new q) pre).1.nextId < 2 ^ 62) := by
  have hbook := streamBooked_run hwf
    (hmono.sublist (List.Sublist.filterMap _ (List.sublist_append_left pre [o]))) hpolls.init
  obtain ⟨hinfo, hbook⟩ := hbook
  refine ⟨hinfo, fun hp => ?_⟩
  cases hprim : primingWptr (Trace.run pollSdmaQueue (QueueState.new q) pre).2 with
  | none =>
      simp only [hprim] at hbook
      exact absurd hbook.1 (by simp [hp])
  | some w1 =>
      simp only [hprim] at hbook
      rw [Trace.run_snoc, primingWptr_append_of_some hprim] at hprimed
      exact (hbook.2 (Option.some.inj hprimed)).1.bound

/-- **SDMA decoding is exact.** Take well-formed packets laid out from the priming dword `w0`, and any
    polls that keep up, of which the last could read its pointers and the ring. Then the records given
    to `sdma_sink_` are those of the packets that end at or before the last read pointer, in stream
    order, each once, numbered from 0. -/
theorem pollSdmaQueue_stream_exact (q : QueueInfo) (packets : List (List UInt32)) (w0 : Nat)
    (pre : List PollObs) (o : PollObs) (w r : Nat) (hwf : ∀ p ∈ packets, WellFormed q p)
    (hmono : MonotonePointers (pre ++ [o]))
    (hpolls : Trace.Along pollSdmaQueue (StreamPoll packets w0) (QueueState.new q) (pre ++ [o]))
    (hprimed : primingWptr (Trace.run pollSdmaQueue (QueueState.new q) (pre ++ [o])).2 = some w0)
    (hlast : o.dwords? = some (w, r))
    (hread : ∀ t start n, n ≤ q.numDwords → (readRingDwords q (o.mem t) start n).isSome = true) :
    ∃ n, n ≤ packets.length ∧
      (∀ k, k < packets.length → (k < n ↔ endDword packets w0 k ≤ r)) ∧
      (sdmaRecords (Trace.run pollSdmaQueue (QueueState.new q) (pre ++ [o])).2).map
          SdmaRecord.bare =
        (List.range' 0 n).map (fun k => { streamRecord q packets k with completed := true }) := by
  have hbook := streamBooked_run hwf hmono hpolls
  simp only [StreamBooked, hprimed] at hbook
  obtain ⟨-, -, hmid⟩ := hbook
  obtain ⟨⟨-, -, n, m, hs, hdone⟩, hkeys⟩ := hmid trivial
  have horder := hs.order
  have hcount := hs.count
  refine ⟨m, by omega, fun k hk => ?_, hs.delivered⟩
  have hring : q.numDwords ≠ 0 := by
    have hp := hwf _ (List.getElem_mem hk)
    have hpos := List.length_pos_iff.2 hp.nonempty
    have hfits := hp.fits
    omega
  obtain ⟨hinfo, hb⟩ := streamBooked_bound hwf hmono hpolls hprimed
  rw [Trace.run_snoc] at hs hdone hkeys
  rw [pollSdmaQueue_lastRptr hlast (by rw [hinfo]; exact hring)] at hdone hkeys
  refine ⟨hdone k, fun hend => ?_⟩
  by_contra hkm
  by_cases hkn : k < n
  · -- Packet `k` is in flight, so it ends behind the read pointer.
    have hkey : endDword packets w0 k ∈
        (pollSdmaQueue (Trace.run pollSdmaQueue (QueueState.new q) pre).1 o).1.sdmaInflight.keys := by
      rw [hs.keys_eq]
      exact List.mem_map_of_mem (List.mem_range'_1.2 ⟨by omega, by omega⟩)
    have := hkeys _ hkey
    omega
  · -- Packet `k` is not decoded, so it ends behind the write pointer.
    have hreached := pollSdmaQueue_reached hwf hpolls.last hlast hread hinfo hring hb hs.nextId
      (by omega)
    have hrw := hpolls.last.consumer w r hlast
    have hle := @Frames.offset_mono _ packets (k + 1) (n + 1) (by omega)
    simp only [endDword] at hreached hend
    omega

/-- A process with the given dwords at address 0. -/
def dwordMem (dws : List UInt32) : ProcMem :=
  .ofBytes (fun a => (dws.getD (a / 4) 0 >>> (8 * UInt32.ofNat (a % 4))).toUInt8)

/-- A ring inside a readable address space can be read. -/
theorem readRingDwords_ofBytes {q : QueueInfo} (hring : q.numDwords ≠ 0)
    (hfit : q.ringBase.toNat + q.numDwords * 4 ≤ 2 ^ 64) (byte : Nat → UInt8) (start : Nat) {n : Nat}
    (hn : n ≤ q.numDwords) : (readRingDwords q (.ofBytes byte) start n).isSome = true := by
  have hoff : start % q.numDwords < q.numDwords := Nat.mod_lt _ (Nat.pos_of_ne_zero hring)
  simp only [readRingDwords, if_neg hring]
  generalize start % q.numDwords = off at hoff
  have hread : ∀ va len, va + len ≤ 2 ^ 64 →
      readProcMem (.ofBytes byte) va len = some (fun i => byte (va + i)) :=
    fun va len h => if_pos (decide_eq_true h)
  rw [u64_of_lt (by omega), hread _ _ (by omega)]
  simp only
  split
  · rw [hread _ _ (by omega)]
    rfl
  · rfl

/-- A ring of eight dwords at address 0. -/
def eightDwords : QueueInfo := { ringSize := 32, qtype := 1, sdmaVersion := .v4, uid := 7 }

/-- A trap, and a linear copy that runs over the ring end. -/
def trapAndCopy : List (List UInt32) := [[6, 0], [1, 99, 0, 0x1000, 0, 0x2000, 0]]

/-- The write pointer first lands inside the copy; the copy is delivered when the read pointer has
    passed it. -/
theorem stream_exact_trapAndCopy :
    let pre : List PollObs :=
      [.still 1 0 0 (dwordMem []), .still 2 20 8 (dwordMem [6, 0, 1, 99, 0])]
    let o : PollObs := .still 3 36 36 (dwordMem [0, 0, 1, 99, 0, 0x1000, 0, 0x2000])
    let es := (Trace.run pollSdmaQueue (QueueState.new eightDwords) (pre ++ [o])).2
    primingWptr es = some 0 ∧
      ∃ n, (∀ k, k < 2 → (k < n ↔ endDword trapAndCopy 0 k ≤ 9)) ∧
        (sdmaRecords es).map SdmaRecord.bare = (List.range' 0 n).map
          (fun k => { streamRecord eightDwords trapAndCopy k with completed := true }) := by
  intro pre o es
  have hprimed : primingWptr es = some 0 := by decide +kernel
  have hwf : ∀ p ∈ trapAndCopy, WellFormed eightDwords p := by
    intro p hp
    rcases List.mem_cons.1 hp with rfl | hp
    · exact ⟨⟨by decide, by decide⟩, by decide⟩
    · obtain rfl := List.mem_singleton.1 hp
      exact ⟨⟨by decide, by decide⟩, by decide⟩
  have hpolls : Trace.Along pollSdmaQueue (StreamPoll trapAndCopy 0) (QueueState.new eightDwords)
      (pre ++ [o]) := by
    refine Trace.along_cons.2 ⟨⟨?_, fun hp => absurd hp (by decide), fun hp => absurd hp (by decide)⟩, ?_⟩
    · rintro w r ⟨⟩
      decide
    refine Trace.along_cons.2 ⟨⟨?_, ?_, ?_⟩, ?_⟩
    · rintro w r ⟨⟩
      decide
    · rintro - w r ⟨⟩
      decide +kernel
    · rintro - w r ⟨⟩ t i hlo hhi
      rw [pollSdmaQueue_info]
      have hfront : ∀ i, i < 5 → trapAndCopy.flatten[i - 0]? =
          some (ringDword eightDwords (dwordMem [6, 0, 1, 99, 0]) i) := by decide +kernel
      exact hfront i hhi
    refine Trace.along_cons.2 ⟨⟨?_, ?_, ?_⟩, fun _ _ _ hsplit => absurd hsplit (by simp)⟩
    · rintro w r ⟨⟩
      decide
    · rintro - w r ⟨⟩
      decide +kernel
    · rintro - w r ⟨⟩ t i hlo hhi
      rw [pollSdmaQueue_info, pollSdmaQueue_info]
      have hrest : ∀ i, i < 9 → 2 ≤ i → trapAndCopy.flatten[i - 0]? =
          some (ringDword eightDwords (dwordMem [0, 0, 1, 99, 0, 0x1000, 0, 0x2000]) i) := by
        decide +kernel
      exact hrest i hhi (Nat.le_trans (by decide +kernel) hlo)
  have hread : ∀ t start n, n ≤ eightDwords.numDwords →
      (readRingDwords eightDwords (o.mem t) start n).isSome = true :=
    fun t start n hn => readRingDwords_ofBytes (by decide) (by decide) _ start hn
  obtain ⟨n, -, hiff, hrecs⟩ := pollSdmaQueue_stream_exact eightDwords trapAndCopy 0 pre o 9 9 hwf
    (by decide) hpolls hprimed rfl hread
  exact ⟨hprimed, n, hiff, hrecs⟩

end HsaSnoop
