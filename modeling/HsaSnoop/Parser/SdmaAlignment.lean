import HsaSnoop.Parser.SdmaStream

set_option autoImplicit false

/-! # Alignment of SDMA decoding

A stream may also hold packets with unrecognised opcodes, of any length, and the producer may run
more than a ring ahead. The unknown-opcode resync goes to the write pointer, which is a packet
boundary. The overrun skip goes to the write pointer minus one ring, which need not be one: packets
have different lengths. So alignment is kept in the runs in which every skip happens to land on a
boundary, and a skip into the middle of a packet produces records that are no packets. -/

namespace HsaSnoop

/-! ## Streams with unrecognised packets -/

/-- A packet whose header is not recognised, whatever follows it. -/
structure Unrecognised (version : Sdma.Version) (p : List UInt32) : Prop where
  nonempty : p ≠ []
  unknown : ∀ (dws : Nat → UInt32) (n : Nat), dws 0 = packetDwords p 0 →
    Sdma.packetLenDwords version dws n = 0

/-- `i` is where a packet starts, or the end of the stream. -/
def IsBoundary (packets : List (List UInt32)) (w0 i : Nat) : Prop :=
  ∃ n, n ≤ packets.length ∧ i = w0 + Frames.offset packets n

/-- A poll with the write pointer on a packet boundary that sees the last ring of the stream. -/
structure BoundaryPoll (q : QueueInfo) (packets : List (List UInt32)) (w0 : Nat) (o : PollObs) :
    Prop where
  boundary : ∀ w r, o.dwords? = some (w, r) → IsBoundary packets w0 w
  ring : ∀ w r, o.dwords? = some (w, r) → ∀ t i, w0 ≤ i → i < w → w ≤ i + q.numDwords →
    packets.flatten[i - w0]? = some (ringDword q (o.mem t) i)

/-- Every record made is one of a packet: it starts where the packet starts and has its opcode and
    its length. -/
def ParksAligned (packets : List (List UInt32)) (w0 : Nat) (es : List Event) : Prop :=
  ∀ start len rec, Event.sdmaPark start len rec ∈ es →
    ∃ n p, packets[n]? = some p ∧ start = w0 + Frames.offset packets n ∧ len = p.length ∧
      rec.opcode = Sdma.headerOp (packetDwords p 0)

/-- The overrun skip of a primed poll is not taken, or lands on a packet boundary. -/
def SkipsToBoundary (packets : List (List UInt32)) (w0 : Nat) (qs : QueueState) (o : PollObs) :
    Prop :=
  qs.primed = true → ∀ w r, o.dwords? = some (w, r) →
    w ≤ qs.nextId + qs.info.numDwords ∨ IsBoundary packets w0 (w - qs.info.numDwords)

@[simp] theorem opcode_sdmaRecord (qs : QueueState) (m : ProcMem) (now : Time)
    (dws : Nat → UInt32) (win : Nat) :
    (sdmaRecord qs m now dws win).1.opcode = Sdma.headerOp (dws 0) := by
  simp only [sdmaRecord]
  split_ifs <;> rfl

/-! ## The invariant -/

/-- The decode position is a boundary, and so were all the starts of records. -/
structure Aligned (q : QueueInfo) (packets : List (List UInt32)) (w0 : Nat) (qs : QueueState)
    (es : List Event) : Prop where
  info : qs.info = q
  bound : qs.nextId < 2 ^ 62
  position : IsBoundary packets w0 qs.nextId
  parks : ParksAligned packets w0 es

/-- A window that starts on a boundary before the write pointer holds the front of a packet that is
    fully published. -/
theorem Aligned.window {q : QueueInfo} {packets : List (List UInt32)} {w0 w n : Nat} {o : PollObs}
    {qs : QueueState} {dws : Nat → UInt32} (hinfo : qs.info = q)
    (hnext : qs.nextId = w0 + Frames.offset packets n) (hbw : IsBoundary packets w0 w)
    (hring : ∀ t i, w0 ≤ i → i < w → w ≤ i + q.numDwords →
      packets.flatten[i - w0]? = some (ringDword q (o.mem t) i))
    (hwin : SdmaWindow o w qs dws) :
    ∃ p, packets[n]? = some p ∧ qs.nextId + p.length ≤ w ∧
      ∀ i, i < min (w - qs.nextId) kSdmaWindow → i < p.length → dws i = packetDwords p i := by
  have hlt := hwin.lt
  have hin := hwin.inRing
  rw [hinfo] at hin
  obtain ⟨p, hp, hagree⟩ := window_agrees hnext hwin (fun t i hlo hhi => by
    rw [hinfo]
    exact hring t i (by omega) hhi (by omega))
  refine ⟨p, hp, ?_, hagree⟩
  -- The write pointer is a later boundary, so at least the next one.
  obtain ⟨k, -, hk⟩ := hbw
  have hnk : n < k := by
    by_contra hge
    have := @Frames.offset_mono _ packets n k (by omega)
    omega
  have hsucc := Frames.offset_succ hp
  have hmono := @Frames.offset_mono _ packets k (n + 1) hnk
  omega

theorem ParksAligned.append {packets : List (List UInt32)} {w0 : Nat} {es fs : List Event}
    (h : ParksAligned packets w0 es) (h' : ParksAligned packets w0 fs) :
    ParksAligned packets w0 (es ++ fs) :=
  fun start len rec hmem => (List.mem_append.1 hmem).elim (h start len rec) (h' start len rec)

theorem Aligned.move {q : QueueInfo} {packets : List (List UInt32)} {w0 w r lo : Nat} {o : PollObs}
    {qs qs' : QueueState} {es fs : List Event}
    (hpk : ∀ p ∈ packets, Recognised q.sdmaVersion p ∨ Unrecognised q.sdmaVersion p)
    (hw : w < 2 ^ 62) (hbw : IsBoundary packets w0 w)
    (hring : ∀ t i, w0 ≤ i → i < w → w ≤ i + q.numDwords →
      packets.flatten[i - w0]? = some (ringDword q (o.mem t) i))
    (hskip : w ≤ lo + q.numDwords ∨ IsBoundary packets w0 (w - q.numDwords)) (hlo : lo ≤ qs.nextId)
    (h : Aligned q packets w0 qs es) (hmove : SdmaMove o w r qs fs qs') :
    Aligned q packets w0 qs' (es ++ fs) := by
  have hinfo := h.info
  have hb := h.bound
  have hnum := q.numDwords_lt
  have hb' := (hmove.nextId_le hw hb).2
  obtain ⟨n, hn, hnext⟩ := h.position
  have hquiet : ∀ {gs : List Event}, (∀ start len rec, Event.sdmaPark start len rec ∉ gs) →
      ParksAligned packets w0 (es ++ gs) :=
    fun hno => h.parks.append (fun start len rec hmem => absurd hmem (hno start len rec))
  cases hmove with
  | start => exact ⟨hinfo, hb', h.position, hquiet (by simp)⟩
  | finish drained => exact ⟨hinfo, hb', h.position, hquiet (by simp)⟩
  | drain => exact ⟨hinfo, hb', h.position, hquiet (by simp)⟩
  | skip wrapped =>
      rw [hinfo, u64_of_lt (by omega)] at wrapped
      refine ⟨hinfo, hb', ?_, hquiet (by simp)⟩
      simp only [hinfo]
      rw [u64Sub_of_le (by omega) (by omega)]
      exact hskip.resolve_left (by omega)
  | resync window unknown enough => exact ⟨hinfo, hb', hbw, hquiet (by simp)⟩
  | @park dws rec pageHost window known whole made =>
      obtain ⟨p, hp, hpub, hagree⟩ := Aligned.window hinfo hnext hbw hring window
      have hpos : 0 < p.length := by
        have := (hpk p (List.mem_of_getElem? hp)).elim (·.nonempty) (·.nonempty)
        exact List.length_pos_iff.2 this
      have hwin : kSdmaWindow = 16 := rfl
      have hlt := window.lt
      have h0 : dws 0 = packetDwords p 0 := hagree 0 (by omega) hpos
      have hlen : windowLen w qs dws = p.length := by
        rcases hpk p (List.mem_of_getElem? hp) with hrec | hunk
        · have hwlen := packetLen_of_window hrec (Nat.sub_pos_of_lt hlt) hagree
          rw [← hinfo] at hwlen
          exact hwlen.resolve_right (fun hzero => known hzero.1)
        · rw [← hinfo] at hunk
          exact absurd (hunk.unknown dws (sdmaWindow w qs) h0) known
      have hstep : qs.nextId + windowLen w qs dws = w0 + Frames.offset packets (n + 1) := by
        rw [hlen, hnext, Frames.offset_succ hp]
        omega
      have hlast : n + 1 ≤ packets.length := (List.getElem?_eq_some_iff.1 hp).1
      refine ⟨hinfo, hb', ⟨n + 1, hlast, hstep⟩, h.parks.append ?_⟩
      intro start len rec' hmem
      obtain ⟨rfl, rfl, rfl⟩ := Event.sdmaPark.inj (List.mem_singleton.1 hmem)
      exact ⟨n, p, hp, hnext, hlen, by rw [made, opcode_sdmaRecord, h0]⟩

/-! ## Runs -/

/-- Between polls: not primed and nothing made yet, or aligned. -/
def AlignedBetween (q : QueueInfo) (packets : List (List UInt32)) (w0 : Nat) (qs : QueueState)
    (es : List Event) : Prop :=
  qs.info = q ∧ ParksAligned packets w0 es ∧ (qs.primed = true → Aligned q packets w0 qs es)

theorem AlignedBetween.poll {q : QueueInfo} {packets : List (List UInt32)} {w0 : Nat}
    {qs : QueueState} {es : List Event} {o : PollObs}
    (hpk : ∀ p ∈ packets, Recognised q.sdmaVersion p ∨ Unrecognised q.sdmaVersion p)
    (h : AlignedBetween q packets w0 qs es) (ho : BoundaryPoll q packets w0 o)
    (hskip : SkipsToBoundary packets w0 qs o) :
    AlignedBetween q packets w0 (pollSdmaQueue qs o).1 (es ++ (pollSdmaQueue qs o).2) := by
  obtain ⟨hinfo, hparks, hal⟩ := h
  refine pollSdmaQueue_elim qs o (fun qs' fs hcase => ?_)
  cases hcase with
  | failed unread =>
      rw [List.append_nil]
      exact ⟨hinfo, hparks, fun hp => ⟨hinfo, (hal hp).bound, (hal hp).position, hparks⟩⟩
  | noRing none =>
      rw [List.append_nil]
      exact ⟨hinfo, hparks, fun hp => ⟨hinfo, (hal hp).bound, (hal hp).position, hparks⟩⟩
  | @primes w r read ring fresh =>
      have hparks' : ParksAligned packets w0 (es ++ [.pointers w r]) :=
        hparks.append (fun start len rec hmem => absurd hmem (by simp))
      exact ⟨hinfo, hparks', fun _ =>
        ⟨hinfo, (PollObs.dwords_lt read).1, ho.boundary w r read, hparks'⟩⟩
  | @polled w r mid qs' fs gs read ring primed decode stopped drain nextId drained last =>
      have hw := (PollObs.dwords_lt read).1
      have hstart := hal primed
      have hinv := (decode.trans drain).invariant
        (fun t hs => qs.nextId ≤ t.nextId ∧ Aligned q packets w0 t hs)
        (fun t hs t' hs' hinv hmove => by
          have hle := (hmove.nextId_le hw hinv.2.bound).1
          exact ⟨hinv.1.trans hle, hinv.2.move hpk hw (ho.boundary w r read) (ho.ring w r read)
            (hinfo ▸ hskip primed w r read) hinv.1 hmove⟩)
        ⟨Nat.le_refl _, hstart⟩
      exact ⟨hinv.2.info, hinv.2.parks, fun _ => hinv.2⟩

/-- **SDMA alignment.** Take a stream of recognised and unrecognised packets and any polls with the
    write pointer on a packet boundary. In every run whose overrun skips, if any, land on packet
    boundaries, each record made starts at a packet and has its opcode, and decoding stands on a
    boundary. -/
theorem pollSdmaQueue_aligned (q : QueueInfo) (packets : List (List UInt32)) (w0 : Nat)
    (os : List PollObs)
    (hpk : ∀ p ∈ packets, Recognised q.sdmaVersion p ∨ Unrecognised q.sdmaVersion p)
    (hos : ∀ o ∈ os, BoundaryPoll q packets w0 o)
    (hskip : Trace.Along pollSdmaQueue (SkipsToBoundary packets w0) (QueueState.new q) os) :
    let qs := (Trace.run pollSdmaQueue (QueueState.new q) os).1
    let es := (Trace.run pollSdmaQueue (QueueState.new q) os).2
    ParksAligned packets w0 es ∧ (qs.primed = true → IsBoundary packets w0 qs.nextId) := by
  intro qs es
  have hboth : Trace.Along pollSdmaQueue
      (fun t o => BoundaryPoll q packets w0 o ∧ SkipsToBoundary packets w0 t o)
      (QueueState.new q) os := by
    intro pre o post hsplit
    exact ⟨hos o (by simp [hsplit]), hskip pre o post hsplit⟩
  have hinit : AlignedBetween q packets w0 (QueueState.new q) [] :=
    ⟨rfl, fun start len rec hmem => absurd hmem (by simp), fun hp => absurd hp (by
      simp [QueueState.new])⟩
  have hinv := Trace.run_invariant_along (AlignedBetween q packets w0) hinit
    (fun _ _ _ hal hc => hal.poll hpk hc.1 hc.2) hboth
  exact ⟨hinv.2.1, fun hp => (hinv.2.2 hp).position⟩

/-- A ring of four dwords at address 0. -/
def fourDwords : QueueInfo := { ringSize := 16, qtype := 1, sdmaVersion := .v4 }

/-- A fence of four dwords and a `NOP` of one. -/
def fenceAndNop : List (List UInt32) := [[5, 0, 0, 0], [0]]

theorem fenceAndNop_recognised :
    ∀ p ∈ fenceAndNop, Recognised fourDwords.sdmaVersion p ∨ Unrecognised fourDwords.sdmaVersion p := by
  intro p hp
  left
  rcases List.mem_cons.1 hp with rfl | hp
  · exact ⟨by decide, by decide⟩
  · obtain rfl := List.mem_singleton.1 hp
    exact ⟨by decide, by decide⟩

theorem boundaryPoll_empty (now : Time) (m : ProcMem) :
    BoundaryPoll fourDwords fenceAndNop 0 (.still now 0 0 m) := by
  constructor
  · rintro w r ⟨⟩
    exact ⟨0, by decide, by decide⟩
  · rintro w r ⟨⟩ t i - hlt
    exact absurd hlt (by simp [Sdma.ringBytesToDwords])

/-- Without an overrun the fence is found where it starts. -/
theorem aligned_fence :
    let os : List PollObs := [.still 1 0 0 (dwordMem []), .still 2 16 0 (dwordMem [5])]
    let es := (Trace.run pollSdmaQueue (QueueState.new fourDwords) os).2
    es.filterMap (fun | .sdmaPark start len _ => some (start, len) | _ => none) = [(0, 4)] ∧
      ParksAligned fenceAndNop 0 es := by
  intro os es
  refine ⟨by decide +kernel, ?_⟩
  refine (pollSdmaQueue_aligned fourDwords fenceAndNop 0 os fenceAndNop_recognised ?_ ?_).1
  · intro o ho
    rcases List.mem_cons.1 ho with rfl | ho
    · exact boundaryPoll_empty 1 _
    · obtain rfl := List.mem_singleton.1 ho
      constructor
      · rintro w r ⟨⟩
        exact ⟨1, by decide, by decide⟩
      · rintro w r ⟨⟩ t i - hlt -
        have hfront : ∀ i, i < 4 → fenceAndNop.flatten[i - 0]? =
            some (ringDword fourDwords (dwordMem [5]) i) := by decide +kernel
        exact hfront i hlt
  · refine Trace.along_cons.2 ⟨fun hp => absurd hp (by decide), ?_⟩
    refine Trace.along_cons.2 ⟨?_, fun _ _ _ hsplit => absurd hsplit (by simp)⟩
    rintro - w r ⟨⟩
    exact Or.inl (by decide +kernel)

/-- The producer writes the fence and the `NOP` before the second poll, five dwords into a ring of
    four: the skip goes to dword 1, inside the fence, and the zeros there are reported as `NOP`s. -/
theorem misaligned_after_skip :
    let os : List PollObs := [.still 1 0 0 (dwordMem []), .still 2 20 0 (dwordMem [])]
    let es := (Trace.run pollSdmaQueue (QueueState.new fourDwords) os).2
    (∀ o ∈ os, BoundaryPoll fourDwords fenceAndNop 0 o) ∧
      es.filterMap (fun | .sdmaPark start len _ => some (start, len) | _ => none) =
        [(1, 1), (2, 1), (3, 1), (4, 1)] ∧
      ¬ ParksAligned fenceAndNop 0 es := by
  intro os es
  have hstarts : es.filterMap (fun | .sdmaPark start len _ => some (start, len) | _ => none) =
      [(1, 1), (2, 1), (3, 1), (4, 1)] := by decide +kernel
  refine ⟨fun o ho => ?_, hstarts, fun hal => ?_⟩
  · rcases List.mem_cons.1 ho with rfl | ho
    · exact boundaryPoll_empty 1 _
    · obtain rfl := List.mem_singleton.1 ho
      constructor
      · rintro w r ⟨⟩
        exact ⟨2, by decide, by decide⟩
      · rintro w r ⟨⟩ t i - hlt hge
        have hlast : ∀ i, i < 5 → 5 ≤ i + 4 → fenceAndNop.flatten[i - 0]? =
            some (ringDword fourDwords (dwordMem []) i) := by decide +kernel
        exact hlast i hlt hge
  · have hmem : (1, 1) ∈ es.filterMap
        (fun | .sdmaPark start len _ => some (start, len) | _ => none) := by
      rw [hstarts]
      decide
    obtain ⟨e, he, hval⟩ := List.mem_filterMap.1 hmem
    cases e with
    | sdmaPark start len rec =>
        obtain ⟨rfl, rfl⟩ := Prod.mk.inj (Option.some.inj hval)
        obtain ⟨n, p, hp, hstart, -⟩ := hal 1 1 rec he
        have hnone : ∀ n, n < 2 → 1 ≠ 0 + Frames.offset fenceAndNop n := by decide
        exact hnone n (List.getElem?_eq_some_iff.1 hp).1 hstart
    | _ => simp at hval

end HsaSnoop
