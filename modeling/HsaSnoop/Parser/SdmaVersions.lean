import HsaSnoop.Model.SdmaTables
import HsaSnoop.Parser.SdmaAccounting

set_option autoImplicit false

/-! # The same ring under v6 and under v7

Two queues that differ in their `sdma_version` only, v6 and v7, are polled with the same observations.
`atVersion` rewrites what carries the version; the runs agree when the v7 run is the rewritten v6 run.

The documented difference is the length of `COPY_LINEAR`. Without such packets the runs still part where
a `COPY_LINEAR_BC` packet is decoded, because the v7 table gives it the extra dword as well, and nowhere
else (`v6_v7_agree_iff`). -/

namespace HsaSnoop

/-! ## Rewriting the version -/

def QueueInfo.atVersion (v : Sdma.Version) (q : QueueInfo) : QueueInfo := { q with sdmaVersion := v }

def SdmaRecord.atVersion (v : Sdma.Version) (rec : SdmaRecord) : SdmaRecord :=
  { rec with sdmaVersion := v }

def Event.atVersion (v : Sdma.Version) : Event → Event
  | .sdmaSink rec => .sdmaSink (rec.atVersion v)
  | .sdmaPark start len rec => .sdmaPark start len (rec.atVersion v)
  | .pointers wptr rptr => .pointers wptr rptr
  | .sink rec => .sink rec
  | .park rec => .park rec
  | .drop pos n => .drop pos n

def QueueState.atVersion (v : Sdma.Version) (qs : QueueState) : QueueState :=
  { qs with
    info := qs.info.atVersion v
    sdmaInflight := qs.sdmaInflight.map (SdmaRecord.atVersion v) }

theorem atVersion_new (v : Sdma.Version) (q : QueueInfo) :
    QueueState.new (q.atVersion v) = (QueueState.new q).atVersion v := rfl

@[simp] theorem readRingDwords_atVersion (v : Sdma.Version) (q : QueueInfo) (m : ProcMem)
    (startDw n : Nat) :
    readRingDwords (q.atVersion v) m startDw n = readRingDwords q m startDw n := rfl

@[simp] theorem ringDword_atVersion (v : Sdma.Version) (q : QueueInfo) (m : ProcMem) (i : Nat) :
    ringDword (q.atVersion v) m i = ringDword q m i := rfl

/-- The version does not show in what is decoded. -/
@[simp] theorem decodedPackets_atVersion (v : Sdma.Version) (es : List Event) :
    decodedPackets (es.map (Event.atVersion v)) = decodedPackets es := by
  simp only [decodedPackets, List.filterMap_map]
  congr 1
  funext e
  cases e <;> rfl

/-! ## The parts of a poll -/

theorem isHostVA_atVersion (v : Sdma.Version) (qs : QueueState) (m : ProcMem) (va : Nat) :
    isHostVA (qs.atVersion v) m va =
      ((isHostVA qs m va).1, (isHostVA qs m va).2.atVersion v) := by
  simp only [isHostVA, QueueState.atVersion]
  split <;> rfl

theorem classifyDir_atVersion (v : Sdma.Version) (qs : QueueState) (m : ProcMem) (src dst : Nat) :
    classifyDir (qs.atVersion v) m src dst =
      ((classifyDir qs m src dst).1, (classifyDir qs m src dst).2.atVersion v) := by
  simp only [classifyDir, isHostVA_atVersion]

/-- Under v6 and v7 a packet makes the same record. -/
theorem sdmaRecord_v7 {qs : QueueState} (hv : qs.info.sdmaVersion = .v6) (m : ProcMem) (now : Time)
    (dws : Nat → UInt32) (win : Nat) :
    sdmaRecord (qs.atVersion .v7) m now dws win =
      ((sdmaRecord qs m now dws win).1.atVersion .v7,
        (sdmaRecord qs m now dws win).2.atVersion .v7) := by
  have hversion : (qs.atVersion .v7).info.sdmaVersion = .v7 := rfl
  have hdir := classifyDir_atVersion .v7 { qs with sdmaSeq := qs.sdmaSeq + 1 } m (addrDwords dws 3)
    (addrDwords dws 5)
  simp only [sdmaRecord, hv, hversion, ← Sdma.opName_v6_v7, ← Sdma.copySubOpName_v6_v7,
    ← Sdma.isLinearCopy_v6_v7, ← Sdma.linearCopyBytes_v6_v7, SdmaRecord.isCopy]
  split
  · split
    · simp only [QueueState.atVersion] at hdir ⊢
      rw [hdir]
      rfl
    · rfl
  · rfl

theorem skipRing_atVersion (v : Sdma.Version) (wptr : Nat) (qs : QueueState) :
    skipRing wptr (qs.atVersion v) =
      ((skipRing wptr qs).1.atVersion v, (skipRing wptr qs).2.map (Event.atVersion v)) := by
  have hring : (qs.info.atVersion v).numDwords = qs.info.numDwords := rfl
  by_cases hwrapped : u64 (qs.nextId + qs.info.numDwords) < wptr
  · simp only [skipRing, QueueState.atVersion, hring, if_pos hwrapped, List.map_cons, List.map_nil,
      Event.atVersion]
  · simp only [skipRing, QueueState.atVersion, hring, if_neg hwrapped, List.map_nil]

theorem drainSdmaInflight_atVersion (v : Sdma.Version) (now : Time) (rptr : Nat)
    (qs : QueueState) :
    drainSdmaInflight now rptr (qs.atVersion v) =
      ((drainSdmaInflight now rptr qs).1.atVersion v,
        (drainSdmaInflight now rptr qs).2.map (Event.atVersion v)) := by
  simp only [drainSdmaInflight, QueueState.atVersion, OrdMap.splitBelow_map, List.map_map]
  rfl

/-! ## The decode loop -/

/-- None of the packets put in flight by these events of the poll `o` has such a header. -/
def DecodesNo (f : UInt32 → Bool) (q : QueueInfo) (o : PollObs) (es : List Event) : Prop :=
  ∀ start len rec, Event.sdmaPark start len rec ∈ es →
    f (ringDword q (o.mem start) start) = false

/-- The test on one event. -/
def Event.decodesNo (f : UInt32 → Bool) (q : QueueInfo) (o : PollObs) : Event → Bool
  | .sdmaPark start _ _ => !f (ringDword q (o.mem start) start)
  | _ => true

theorem decodesNo_iff {f : UInt32 → Bool} {q : QueueInfo} {o : PollObs} {es : List Event} :
    es.all (Event.decodesNo f q o) = true ↔ DecodesNo f q o es := by
  rw [List.all_eq_true]
  constructor
  · intro h start len rec hmem
    simpa [Event.decodesNo] using h _ hmem
  · intro h e he
    cases e with
    | sdmaPark start len rec => simpa [Event.decodesNo] using h start len rec he
    | _ => rfl

instance (f : UInt32 → Bool) (q : QueueInfo) (o : PollObs) (es : List Event) :
    Decidable (DecodesNo f q o es) :=
  decidable_of_iff _ decodesNo_iff

theorem DecodesNo.tail {f : UInt32 → Bool} {q : QueueInfo} {o : PollObs} {e : Event}
    {es : List Event} (h : DecodesNo f q o (e :: es)) : DecodesNo f q o es :=
  fun start len rec hmem => h start len rec (List.mem_cons_of_mem _ hmem)

/-- The header of the packet in a window is the ring's dword at its start. -/
theorem header_eq {q : QueueInfo} {m : ProcMem} {start win : Nat} {dws : Nat → UInt32}
    (hread : readRingDwords q m start win = some dws) (hwin : win ≤ q.numDwords) (hpos : 0 < win) :
    dws 0 = ringDword q m start := by
  have hdword := readRingDwords_eq hread hwin hpos
  rwa [Nat.add_zero] at hdword

section Loop

variable {o : PollObs} {wptr : Nat} {qs : QueueState} {dws : Nat → UInt32}

theorem atVersion_state (qs : QueueState) :
    (qs.atVersion .v7).nextId = qs.nextId ∧ (qs.atVersion .v7).info = qs.info.atVersion .v7 ∧
      (qs.info.atVersion .v7).sdmaVersion = .v7 := ⟨rfl, rfl, rfl⟩

theorem sdmaWindow_pos (hlt : qs.nextId < wptr) : 1 ≤ sdmaWindow wptr qs := by
  unfold sdmaWindow kSdmaWindow
  omega

/-- A window that cannot be read stops both loops. -/
theorem loop_v7_unread (hlt : qs.nextId < wptr)
    (hread : readRingDwords qs.info (o.mem qs.nextId) qs.nextId (sdmaWindow wptr qs) = none) :
    sdmaDecodeLoop o wptr (qs.atVersion .v7) = (qs.atVersion .v7, []) := by
  obtain ⟨hnext, hinfo, -⟩ := atVersion_state qs
  rw [sdmaWindow] at hread
  rw [sdmaDecodeLoop]
  simp only [hnext, hinfo, readRingDwords_atVersion, if_pos hlt, hread]

/-- What the v7 loop does with a window, given the length it takes its packet for. -/
theorem loop_v7_read (hlt : qs.nextId < wptr)
    (hread : readRingDwords qs.info (o.mem qs.nextId) qs.nextId (sdmaWindow wptr qs) = some dws)
    {len : Nat} (hlen : Sdma.packetLenDwords .v7 dws (sdmaWindow wptr qs) = len) :
    sdmaDecodeLoop o wptr (qs.atVersion .v7) =
      if len = 0 then
        if wptr - qs.nextId < 4 then (qs.atVersion .v7, [])
        else
          ({ qs.atVersion .v7 with
              dropped := u64 (qs.dropped + (wptr - qs.nextId)), nextId := wptr },
            [.drop qs.nextId (wptr - qs.nextId)])
      else if wptr - qs.nextId < len then (qs.atVersion .v7, [])
      else
        let made := sdmaRecord (qs.atVersion .v7) (o.mem qs.nextId) o.now dws (sdmaWindow wptr qs)
        let out := sdmaDecodeLoop o wptr
          { made.2 with
            sdmaInflight := made.2.sdmaInflight.emplace (qs.nextId + len) made.1
            nextId := qs.nextId + len }
        (out.1, .sdmaPark qs.nextId len made.1 :: out.2) := by
  obtain ⟨hnext, hinfo, hversion⟩ := atVersion_state qs
  rw [sdmaWindow] at hread hlen
  rw [sdmaDecodeLoop]
  simp only [hnext, hinfo, hversion, readRingDwords_atVersion, if_pos hlt, hread, hlen, sdmaWindow]
  rfl

/-- After a packet of the same length the two loops stand alike again. -/
theorem loop_v7_next (hv : qs.info.sdmaVersion = .v6) (m : ProcMem) (now : Time) (win endDw : Nat) :
    ({ (sdmaRecord (qs.atVersion .v7) m now dws win).2 with
        sdmaInflight := (sdmaRecord (qs.atVersion .v7) m now dws win).2.sdmaInflight.emplace endDw
          (sdmaRecord (qs.atVersion .v7) m now dws win).1
        nextId := endDw } : QueueState) =
      ({ (sdmaRecord qs m now dws win).2 with
          sdmaInflight := (sdmaRecord qs m now dws win).2.sdmaInflight.emplace endDw
            (sdmaRecord qs m now dws win).1
          nextId := endDw } : QueueState).atVersion .v7 := by
  rw [sdmaRecord_v7 hv]
  simp only [QueueState.atVersion, OrdMap.map_emplace]

end Loop

/-- **Where no relaid packet is decoded the loops go along together.** -/
theorem sdmaDecodeLoop_v7 {q : QueueInfo} (hv : q.sdmaVersion = .v6) (o : PollObs) (wptr : Nat)
    (qs : QueueState) (hq : qs.info = q) (hring : wptr ≤ qs.nextId + q.numDwords)
    (hlinear : DecodesNo Sdma.isPlainLinear q o (sdmaDecodeLoop o wptr qs).2)
    (hbc : DecodesNo Sdma.isLinearBc q o (sdmaDecodeLoop o wptr qs).2) :
    sdmaDecodeLoop o wptr (qs.atVersion .v7) =
      ((sdmaDecodeLoop o wptr qs).1.atVersion .v7,
        (sdmaDecodeLoop o wptr qs).2.map (Event.atVersion .v7)) := by
  have hlen6 {s : QueueState} (hs : s.info = q) (dws : Nat → UInt32) (win : Nat) :
      Sdma.packetLenDwords .v6 dws win = Sdma.packetLenDwords s.info.sdmaVersion dws win := by
    rw [hs, hv]
  fun_induction sdmaDecodeLoop o wptr qs with
  | case1 qs hlt avail win hread => exact loop_v7_unread hlt hread
  | case2 qs hlt avail win dws hread len hlen hfew =>
      have hlen7 : Sdma.packetLenDwords .v7 dws (sdmaWindow wptr qs) = 0 := by
        rcases Sdma.packetLenDwords_v7_cases dws (sdmaWindow_pos hlt) with hsame | ⟨h7, -⟩
        · exact hsame.trans ((hlen6 hq dws win).trans hlen)
        · exact absurd (h7.symm.trans ((hlen6 hq dws win).trans hlen)) (by omega)
      rw [loop_v7_read hlt hread hlen7, if_pos rfl, if_pos hfew]
      rfl
  | case3 qs hlt avail win dws hread len hlen hmany =>
      have hlen7 : Sdma.packetLenDwords .v7 dws (sdmaWindow wptr qs) = 0 := by
        rcases Sdma.packetLenDwords_v7_cases dws (sdmaWindow_pos hlt) with hsame | ⟨h7, -⟩
        · exact hsame.trans ((hlen6 hq dws win).trans hlen)
        · exact absurd (h7.symm.trans ((hlen6 hq dws win).trans hlen)) (by omega)
      rw [loop_v7_read hlt hread hlen7, if_pos rfl, if_neg hmany]
      rfl
  | case4 qs hlt avail win dws hread len hlen hlong =>
      -- A packet that is not whole under v6 is not under v7, which takes it for no shorter.
      obtain ⟨len7, hlen7⟩ : ∃ len7, Sdma.packetLenDwords .v7 dws (sdmaWindow wptr qs) = len7 :=
        ⟨_, rfl⟩
      have hlen : Sdma.packetLenDwords .v6 dws (sdmaWindow wptr qs) = len := hlen6 hq dws win
      have hge : len ≤ len7 := by
        rcases Sdma.packetLenDwords_v7_cases dws (sdmaWindow_pos hlt) with hsame | ⟨h6, h7⟩ <;> omega
      rw [loop_v7_read hlt hread hlen7, if_neg (by omega), if_pos (by omega)]
      rfl
  | case5 qs hlt avail win dws hread len hlen hfits made endDw out ih =>
      have hheader : dws 0 = ringDword q (o.mem qs.nextId) qs.nextId := by
        rw [← hq]
        exact header_eq hread (by rw [hq]; omega) (sdmaWindow_pos hlt)
      have hno := hlinear qs.nextId len made.1 (List.mem_cons_self ..)
      have hnoBc := hbc qs.nextId len made.1 (List.mem_cons_self ..)
      rw [← hheader] at hno hnoBc
      have hlen7 : Sdma.packetLenDwords .v7 dws (sdmaWindow wptr qs) = len :=
        (Sdma.packetLenDwords_v6_v7 hno hnoBc _).symm.trans (hlen6 hq dws win)
      obtain ⟨pageHost, hframe⟩ := sdmaRecord_frame qs (o.mem qs.nextId) o.now dws win
      have hinfo : made.2.info = q := by simp only [made, hframe, hq]
      have hrest := ih hinfo (by simp only [endDw]; omega) hlinear.tail hbc.tail
      have hv' : qs.info.sdmaVersion = .v6 := by rw [hq, hv]
      rw [loop_v7_read hlt hread hlen7, if_neg hlen, if_neg hfits]
      simp only [loop_v7_next hv']
      rw [sdmaRecord_v7 hv']
      have hstate := congrArg Prod.fst hrest
      have hevents := congrArg Prod.snd hrest
      exact Prod.ext hstate (congrArg (List.cons _) hevents)
  | case6 qs hge =>
      have hge' : ¬ (qs.atVersion .v7).nextId < wptr := hge
      rw [sdmaDecodeLoop, if_neg hge']
      rfl

/-- **Where a `COPY_LINEAR_BC` packet is decoded the loops part.** -/
theorem sdmaDecodeLoop_v7_parts {q : QueueInfo} (hv : q.sdmaVersion = .v6) (o : PollObs)
    (wptr : Nat) (qs : QueueState) (hq : qs.info = q) (hring : wptr ≤ qs.nextId + q.numDwords)
    (hlinear : DecodesNo Sdma.isPlainLinear q o (sdmaDecodeLoop o wptr qs).2)
    (hsame : decodedPackets (sdmaDecodeLoop o wptr (qs.atVersion .v7)).2 =
      decodedPackets (sdmaDecodeLoop o wptr qs).2) :
    DecodesNo Sdma.isLinearBc q o (sdmaDecodeLoop o wptr qs).2 := by
  fun_induction sdmaDecodeLoop o wptr qs with
  | case5 qs hlt avail win dws hread len hlen hfits made endDw out ih =>
      have hheader : dws 0 = ringDword q (o.mem qs.nextId) qs.nextId := by
        rw [← hq]
        exact header_eq hread (by rw [hq]; omega) (sdmaWindow_pos hlt)
      have hno := hlinear qs.nextId len made.1 (List.mem_cons_self ..)
      have hv' : qs.info.sdmaVersion = .v6 := by rw [hq, hv]
      have hlen6 : Sdma.packetLenDwords .v6 dws (sdmaWindow wptr qs) = len := by
        rw [← hv']
        rfl
      cases hbc : Sdma.isLinearBc (dws 0) with
      | true =>
          -- Seven dwords against eight: the first packet already differs.
          obtain ⟨h6, h7⟩ := Sdma.packetLenDwords_linearBc hbc (sdmaWindow_pos hlt)
          rw [loop_v7_read hlt hread h7, if_neg (by omega)] at hsame
          split at hsame
          · simp at hsame
          · simp only [decodedPackets_cons, Event.decoded?, Option.toList_some,
              List.singleton_append, List.cons.injEq, Prod.mk.injEq] at hsame
            omega
      | false =>
          rw [← hheader] at hno
          have hlen7 : Sdma.packetLenDwords .v7 dws (sdmaWindow wptr qs) = len :=
            (Sdma.packetLenDwords_v6_v7 hno hbc _).symm.trans hlen6
          obtain ⟨pageHost, hframe⟩ := sdmaRecord_frame qs (o.mem qs.nextId) o.now dws win
          have hinfo : made.2.info = q := by simp only [made, hframe, hq]
          rw [loop_v7_read hlt hread hlen7, if_neg hlen, if_neg hfits] at hsame
          simp only [loop_v7_next hv', decodedPackets_cons, Event.decoded?, Option.toList_some,
            List.singleton_append, List.cons.injEq] at hsame
          have hrest := ih hinfo (by simp only [endDw]; omega) hlinear.tail hsame.2
          intro start len' rec hmem
          rcases List.mem_cons.1 hmem with heq | hmem
          · obtain ⟨rfl, -, -⟩ := Event.sdmaPark.inj heq
            rw [← hheader]
            exact hbc
          · exact hrest start len' rec hmem
  | _ => exact fun start len rec hmem => by simp at hmem

/-! ## Polls -/

/-- The v7 poll is the rewritten v6 poll. -/
def AgreesAt (qs : QueueState) (o : PollObs) : Prop :=
  pollSdmaQueue (qs.atVersion .v7) o =
    ((pollSdmaQueue qs o).1.atVersion .v7, (pollSdmaQueue qs o).2.map (Event.atVersion .v7))

theorem decodesNo_of_decodedPackets {f : UInt32 → Bool} {q : QueueInfo} {o : PollObs}
    {es : List Event} (hes : decodedPackets es = []) : DecodesNo f q o es := by
  intro start len rec hmem
  have hin : (len, rec.seq) ∈ decodedPackets es := List.mem_filterMap.2 ⟨_, hmem, rfl⟩
  rw [hes] at hin
  cases hin

theorem decodedPackets_skipRing (wptr : Nat) (qs : QueueState) :
    decodedPackets (skipRing wptr qs).2 = [] := by
  unfold skipRing
  simp only
  split <;> rfl

/-- The packets of a poll are those of its decode loop. -/
theorem decodesNo_poll {f : UInt32 → Bool} {q : QueueInfo} {o : PollObs} {w r : Nat}
    {qs : QueueState} :
    DecodesNo f q o (.pointers w r :: (pollSdmaPrimed o w r qs).2) ↔
      DecodesNo f q o (sdmaDecodeLoop o w (skipRing w qs).1).2 := by
  have hskip := @decodesNo_of_decodedPackets f q o _ (decodedPackets_skipRing w qs)
  have hdrain := @decodesNo_of_decodedPackets f q o _ (decodedPackets_sdmaDrain
    ((sdmaDecodeLoop o w (skipRing w qs).1).1.sdmaInflight.splitBelow (r + 1)).1 o.now)
  constructor
  · intro h start len rec hmem
    exact h start len rec (by simp [pollSdmaPrimed, hmem])
  · intro h start len rec hmem
    have hmem' : .sdmaPark start len rec ∈ (pollSdmaPrimed o w r qs).2 := by simpa using hmem
    simp only [pollSdmaPrimed, drainSdmaInflight] at hmem'
    rcases List.mem_append.1 hmem' with hmem' | hmem'
    · rcases List.mem_append.1 hmem' with hmem' | hmem'
      · exact hskip start len rec hmem'
      · exact h start len rec hmem'
    · exact hdrain start len rec hmem'

/-- Only the decode loop of a poll decodes packets. -/
theorem decodedPackets_pollSdmaPrimed (o : PollObs) (w r : Nat) (qs : QueueState) :
    decodedPackets (pollSdmaPrimed o w r qs).2 =
      decodedPackets (sdmaDecodeLoop o w (skipRing w qs).1).2 := by
  simp [pollSdmaPrimed, drainSdmaInflight, decodedPackets_skipRing]

theorem pollSdmaPrimed_v7 {q : QueueInfo} (hv : q.sdmaVersion = .v6) {o : PollObs} {w : Nat}
    (r : Nat) {qs : QueueState} (hq : (skipRing w qs).1.info = q)
    (hring : w ≤ (skipRing w qs).1.nextId + q.numDwords)
    (hlinear : DecodesNo Sdma.isPlainLinear q o (sdmaDecodeLoop o w (skipRing w qs).1).2) :
    pollSdmaPrimed o w r (qs.atVersion .v7) =
        ((pollSdmaPrimed o w r qs).1.atVersion .v7,
          (pollSdmaPrimed o w r qs).2.map (Event.atVersion .v7)) ↔
      DecodesNo Sdma.isLinearBc q o (sdmaDecodeLoop o w (skipRing w qs).1).2 := by
  constructor
  · intro hsame
    refine sdmaDecodeLoop_v7_parts hv o w _ hq hring hlinear ?_
    have hpackets := congrArg (fun out => decodedPackets out.2) hsame
    simp only [decodedPackets_atVersion, decodedPackets_pollSdmaPrimed, skipRing_atVersion]
      at hpackets
    exact hpackets
  · intro hbc
    have hloop := sdmaDecodeLoop_v7 hv o w _ hq hring hlinear hbc
    simp only [pollSdmaPrimed, skipRing_atVersion, hloop, drainSdmaInflight_atVersion,
      List.map_append]
    rfl

/-- **Without `COPY_LINEAR` packets, v6 and v7 polls agree exactly where no `COPY_LINEAR_BC` packet is
    decoded.** -/
theorem agreesAt_iff {q : QueueInfo} (hv : q.sdmaVersion = .v6) {qs : QueueState}
    (hq : qs.info = q) {o : PollObs}
    (hlinear : DecodesNo Sdma.isPlainLinear q o (pollSdmaQueue qs o).2) :
    AgreesAt qs o ↔ DecodesNo Sdma.isLinearBc q o (pollSdmaQueue qs o).2 := by
  have hring7 : (qs.atVersion .v7).info.numDwords = qs.info.numDwords := rfl
  unfold AgreesAt
  cases hptr : o.pointers? with
  | none =>
      have hfailed (s : QueueState) : pollSdmaQueue s o = (s.readFailed, []) := by
        rcases PollObs.pointers?_eq_none.1 hptr with h | h <;> simp [pollSdmaQueue, h]
      rw [hfailed, hfailed]
      exact iff_of_true rfl (decodesNo_of_decodedPackets rfl)
  | some p =>
      obtain ⟨w, r, hw, hr, rfl⟩ := PollObs.pointers?_eq_some.1 hptr
      by_cases hring : qs.info.numDwords = 0
      · have hnoRing (s : QueueState) (hs : s.info.numDwords = 0) :
            pollSdmaQueue s o = ({ s with readFailCount := 0 }, []) := by
          simp only [pollSdmaQueue, hw, hr]
          rw [if_pos hs]
        rw [hnoRing _ (hring7.trans hring), hnoRing _ hring]
        exact iff_of_true rfl (decodesNo_of_decodedPackets rfl)
      · cases hp : qs.primed with
        | false =>
            have hprimes (s : QueueState) (hs : s.info.numDwords ≠ 0) (hp : s.primed = false) :
                pollSdmaQueue s o =
                  ({ s with
                      readFailCount := 0
                      nextId := Sdma.ringBytesToDwords w.toNat
                      lastRptr := Sdma.ringBytesToDwords r.toNat
                      primed := true },
                    [.pointers (Sdma.ringBytesToDwords w.toNat)
                      (Sdma.ringBytesToDwords r.toNat)]) := by
              simp only [pollSdmaQueue, hw, hr, hp]
              rw [if_neg hs]
              rfl
            have hp7 : (qs.atVersion .v7).primed = false := hp
            rw [hprimes _ hring hp, hprimes _ (by rw [hring7]; exact hring) hp7]
            exact iff_of_true rfl (decodesNo_of_decodedPackets rfl)
        | true =>
            have hp7 : (qs.atVersion .v7).primed = true := hp
            have hlt : Sdma.ringBytesToDwords w.toNat < 2 ^ 64 :=
              Nat.lt_of_le_of_lt (Nat.div_le_self _ _) w.toNat_lt
            rw [pollSdmaQueue_primed hw hr hring hp] at hlinear ⊢
            rw [pollSdmaQueue_primed hw hr (by rw [hring7]; exact hring) hp7]
            generalize Sdma.ringBytesToDwords w.toNat = wptr at hlinear hlt ⊢
            generalize Sdma.ringBytesToDwords r.toNat = rptr at hlinear ⊢
            rw [decodesNo_poll] at hlinear ⊢
            have hskip := skipRing_steps o wptr rptr { qs with readFailCount := 0 }
            have hinfo := (SdmaMove.frame_steps hskip).1.trans hq
            have hinRing := skipRing_inRing hlt { qs with readFailCount := 0 }
            rw [hinfo] at hinRing
            have hreset : ({ qs.atVersion .v7 with readFailCount := 0 } : QueueState) =
                ({ qs with readFailCount := 0 } : QueueState).atVersion .v7 := rfl
            rw [← pollSdmaPrimed_v7 hv rptr hinfo hinRing hlinear, hreset]
            constructor <;> intro h
            · have hstate := congrArg Prod.fst h
              have hevents := congrArg Prod.snd h
              exact Prod.ext hstate (List.cons.inj hevents).2
            · have hstate := congrArg Prod.fst h
              have hevents := congrArg Prod.snd h
              exact Prod.ext hstate (congrArg (List.cons _) hevents)

/-! ## Runs -/

/-- The v7 queue, at the end of these polls, is the rewritten v6 queue: the same positions, counters and
    packets in flight, and it has reported the same, up to the version. -/
def RunsAgree (q : QueueInfo) (os : List PollObs) : Prop :=
  Trace.run pollSdmaQueue (QueueState.new (q.atVersion .v7)) os =
    ((Trace.run pollSdmaQueue (QueueState.new (q.atVersion .v6)) os).1.atVersion .v7,
      (Trace.run pollSdmaQueue (QueueState.new (q.atVersion .v6)) os).2.map (Event.atVersion .v7))

/-- No poll of the v6 queue decodes a packet with such a header. -/
def V6DecodesNo (f : UInt32 → Bool) (q : QueueInfo) (os : List PollObs) : Prop :=
  Trace.Along pollSdmaQueue (fun qs o => DecodesNo f q o (pollSdmaQueue qs o).2)
    (QueueState.new (q.atVersion .v6)) os

theorem runsAgree_snoc {q : QueueInfo} {os : List PollObs} (h : RunsAgree q os) (o : PollObs) :
    RunsAgree q (os ++ [o]) ↔
      AgreesAt (Trace.run pollSdmaQueue (QueueState.new (q.atVersion .v6)) os).1 o := by
  unfold RunsAgree AgreesAt at *
  rw [Trace.run_snoc, Trace.run_snoc, h]
  rw [Prod.ext_iff, Prod.ext_iff]
  simp only [List.map_append, List.append_cancel_left_eq]

theorem run_info (q : QueueInfo) (os : List PollObs) :
    (Trace.run pollSdmaQueue (QueueState.new q) os).1.info = q :=
  Trace.run_invariant (fun qs _ => qs.info = q) (s := QueueState.new q) rfl
    (fun qs _ o hinfo => (pollSdmaQueue_info qs o).trans hinfo) os

/-- **v6 and v7 agree exactly as long as no `COPY_LINEAR_BC` packet is decoded.** Of two queues given the
    same observations, of which the v6 queue decodes no `COPY_LINEAR` packet, the v7 queue stays the
    rewritten v6 queue after every poll if and only if the v6 queue decodes no `COPY_LINEAR_BC` packet. -/
theorem v6_v7_agree_iff (q : QueueInfo) (os : List PollObs)
    (hlinear : V6DecodesNo Sdma.isPlainLinear q os) :
    (∀ pre post, os = pre ++ post → RunsAgree q pre) ↔ V6DecodesNo Sdma.isLinearBc q os := by
  have hpoll (pre : List PollObs) (o : PollObs) (post : List PollObs)
      (hsplit : os = pre ++ o :: post) :=
    agreesAt_iff (q := q.atVersion .v6) rfl (run_info (q.atVersion .v6) pre)
      (hlinear pre o post hsplit)
  constructor
  · intro hagree pre o post hsplit
    refine (hpoll pre o post hsplit).1 ?_
    rw [← runsAgree_snoc (hagree pre (o :: post) hsplit)]
    exact hagree (pre ++ [o]) post (by simp [hsplit])
  · intro hbc pre
    induction pre using List.reverseRecOn with
    | nil => exact fun _ _ => rfl
    | append_singleton pre o ih =>
        intro post hsplit
        have hsplit' : os = pre ++ o :: post := by simp [hsplit]
        rw [runsAgree_snoc (ih (o :: post) hsplit')]
        exact (hpoll pre o post hsplit').2 (hbc pre o post hsplit')

/-- A `COPY_LINEAR_BC` header at the start of the ring, and zeroes behind it. -/
def linearBcRing : ProcMem :=
  .ofBytes (fun a => if a = 0 then 1 else if a = 1 then 16 else 0)

/-- A ring of eight dwords at address 0. -/
def smallRing : QueueInfo := { ringSize := 32, qtype := 1 }

/-- The queue is primed, and then the seven dwords of the packet are published. -/
def linearBcPolls : List PollObs := [.still 1 0 0 linearBcRing, .still 2 28 0 linearBcRing]

theorem linearBcPolls_no_linear : V6DecodesNo Sdma.isPlainLinear smallRing linearBcPolls := by
  refine Trace.along_cons.2 ⟨?_, Trace.along_cons.2 ⟨?_, ?_⟩⟩
  · decide +kernel
  · decide +kernel
  · exact fun _ _ _ hsplit => absurd hsplit (by simp)

/-- The v6 queue decodes the packet, the v7 queue waits for an eighth dword. -/
theorem v6_v7_disagree :
    ¬ ∀ (q : QueueInfo) (os : List PollObs), V6DecodesNo Sdma.isPlainLinear q os →
      ∀ pre post, os = pre ++ post → RunsAgree q pre := by
  intro h
  have hagree := h smallRing linearBcPolls linearBcPolls_no_linear linearBcPolls []
    (List.append_nil _).symm
  have hseq := congrArg (fun out => out.1.sdmaSeq) hagree
  exact absurd hseq (by decide +kernel)

theorem v6_v7_agree_iff_linearBcPolls :
    (∀ pre post, linearBcPolls = pre ++ post → RunsAgree smallRing pre) ↔
      V6DecodesNo Sdma.isLinearBc smallRing linearBcPolls :=
  v6_v7_agree_iff smallRing linearBcPolls linearBcPolls_no_linear

end HsaSnoop
