import HsaSnoop.Parser.State

set_option autoImplicit false

/-! # Polling an SDMA queue

`readRingDwords`, `classifyDir` and `pollSdmaQueue` as the source has them. SDMA packets have a
variable length, so the loop strides by what `packetLenDwords` says and files each packet under its
end dword. Pointers are published as byte offsets; everything here is in dwords, so positions stay
below `2^62` and the wrap guard cannot overflow. -/

namespace HsaSnoop

/-! ## Reading the ring -/

/-- The `i`-th dword of a buffer. -/
def bufDword (raw : Nat → UInt8) (i : Nat) : UInt32 := UInt32.ofNat (leNat raw (4 * i) 4)

/-- Read `n` dwords from the ring, starting at dword `startDw` modulo the ring size, in two pieces
    when they run over the ring end. -/
def readRingDwords (q : QueueInfo) (m : ProcMem) (startDw n : Nat) : Option (Nat → UInt32) :=
  let ringDw := q.numDwords
  if ringDw = 0 then none
  else
    let off := startDw % ringDw
    let first := min n (ringDw - off)
    match readProcMem m (u64 (q.ringBase.toNat + off * 4)) (first * 4) with
    | none => none
    | some head =>
        if first < n then
          match readProcMem m q.ringBase.toNat ((n - first) * 4) with
          | none => none
          | some tail => some (fun i => if i < first then bufDword head i else bufDword tail (i - first))
        else some (bufDword head)

/-- The dword the ring holds for position `i`. -/
def ringDword (q : QueueInfo) (m : ProcMem) (i : Nat) : UInt32 :=
  bufDword (fun k => m.byte (u64 (q.ringBase.toNat + i % q.numDwords * 4) + k)) 0

/-- A dword is the four bytes at its address, whichever buffer they were read into. -/
theorem bufDword_eq {raw raw' : Nat → UInt8} {i j : Nat}
    (h : ∀ k, k < 4 → raw (4 * i + k) = raw' (4 * j + k)) : bufDword raw i = bufDword raw' j := by
  have h0 := h 0 (by omega)
  have h1 := h 1 (by omega)
  have h2 := h 2 (by omega)
  have h3 := h 3 (by omega)
  simp only [Nat.add_zero] at h0
  simp only [bufDword, leNat, Nat.add_assoc, h0, h1, h2, h3]

/-- Inside one transfer the address of a later dword does not wrap. -/
theorem bufDword_read {q : QueueInfo} {m : ProcMem} {raw : Nat → UInt8} {off n i : Nat}
    (h : readProcMem m (u64 (q.ringBase.toNat + off * 4)) (n * 4) = some raw) (hi : i < n) :
    bufDword raw i
      = bufDword (fun k => m.byte (u64 (q.ringBase.toNat + (off + i) * 4) + k)) 0 := by
  simp only [readProcMem] at h
  split at h
  · next hread =>
      have hfits := m.readable_fits _ _ hread
      obtain rfl := Option.some.inj h
      refine bufDword_eq (fun k hk => ?_)
      have haddr : u64 (q.ringBase.toNat + (off + i) * 4)
          = u64 (q.ringBase.toNat + off * 4) + 4 * i := by
        rw [← u64_of_lt (show u64 (q.ringBase.toNat + off * 4) + 4 * i < 2 ^ 64 by omega)]
        simp only [u64, Nat.mod_add_mod]
        congr 1
        omega
      simp only [haddr, Nat.mul_zero, Nat.zero_add, Nat.add_assoc]
  · simp at h

/-- A position less than one ring ahead of `startDw` is behind its offset, or behind the ring start. -/
theorem add_mod_ring {startDw ringDw i : Nat} (hi : i < ringDw) :
    (startDw + i) % ringDw =
      if i < ringDw - startDw % ringDw then startDw % ringDw + i
      else i - (ringDw - startDw % ringDw) := by
  have hoff : startDw % ringDw < ringDw := Nat.mod_lt _ (by omega)
  rw [← Nat.mod_add_mod]
  generalize startDw % ringDw = off at hoff
  split
  · exact Nat.mod_eq_of_lt (by omega)
  · rw [Nat.mod_eq_sub_mod (by omega), Nat.mod_eq_of_lt (by omega)]
    omega

/-- **What a ring read returns**: position by position, the dwords of the ring. -/
theorem readRingDwords_eq {q : QueueInfo} {m : ProcMem} {startDw n : Nat} {dws : Nat → UInt32}
    (h : readRingDwords q m startDw n = some dws) (hn : n ≤ q.numDwords) {i : Nat} (hi : i < n) :
    dws i = ringDword q m (startDw + i) := by
  have hpos := @add_mod_ring startDw q.numDwords i (by omega)
  simp only [readRingDwords] at h
  split at h
  · simp at h
  · split at h
    · simp at h
    · next head hhead =>
        have hbefore : i < min n (q.numDwords - startDw % q.numDwords) →
            bufDword head i = ringDword q m (startDw + i) := by
          intro hfirst
          rw [if_pos (by omega)] at hpos
          rw [bufDword_read hhead hfirst, ringDword, hpos]
        split at h
        · next hsplit =>
            split at h
            · simp at h
            · next tail htail =>
                obtain rfl := Option.some.inj h
                simp only
                split
                · next hfirst => exact hbefore hfirst
                · next hfirst =>
                    -- The second piece starts at the ring base.
                    have hbase : u64 (q.ringBase.toNat + 0 * 4) = q.ringBase.toNat := by
                      rw [Nat.zero_mul, Nat.add_zero]
                      exact u64_of_lt q.ringBase.toNat_lt
                    rw [← hbase] at htail
                    rw [if_neg (by omega)] at hpos
                    rw [bufDword_read htail (by omega), ringDword, hpos,
                      Nat.min_eq_right (by omega), Nat.zero_add]
        · next hsplit =>
            obtain rfl := Option.some.inj h
            exact hbefore (by omega)

/-! ## Copy direction -/

/-- Largest packet window read up front. -/
def kSdmaWindow : Nat := 16

/-- Bound of the direction-classification page cache. -/
def kPageCacheMax : Nat := 2 ^ 16

/-- A user VA is host-backed when the page map resolves it to a physical frame. Cached per page; the
    cache is emptied when it is full. -/
def isHostVA (qs : QueueState) (m : ProcMem) (va : Nat) : Bool × QueueState :=
  let page := va - va % 4096
  match qs.pageHost.find? page with
  | some host => (host, qs)
  | none =>
      let host := m.phys va != 0
      let pageHost := if kPageCacheMax ≤ qs.pageHost.size then ∅ else qs.pageHost
      (host, { qs with pageHost := pageHost.insert page host })

def classifyDir (qs : QueueState) (m : ProcMem) (src dst : Nat) : CopyDir × QueueState :=
  let srcHost := isHostVA qs m src
  let dstHost := isHostVA srcHost.2 m dst
  (if srcHost.1 && !dstHost.1 then .hostToDevice
    else if !srcHost.1 && dstHost.1 then .deviceToHost
    else if !srcHost.1 && !dstHost.1 then .deviceToDevice
    else .hostToHost,
    dstHost.2)

/-! ## The poll -/

/-- The 64-bit address in dwords `i` and `i + 1`. -/
def addrDwords (dws : Nat → UInt32) (i : Nat) : Nat := (dws i).toNat ||| ((dws (i + 1)).toNat <<< 32)

/-- The record of the packet in the window `dws`, of which `win` dwords were read. -/
def sdmaRecord (qs : QueueState) (m : ProcMem) (now : Time) (dws : Nat → UInt32) (win : Nat) :
    SdmaRecord × QueueState :=
  let q := qs.info
  let rec0 : SdmaRecord :=
    { queueUid := q.uid
      seq := qs.sdmaSeq
      opcode := Sdma.headerOp (dws 0)
      subOpcode := Sdma.headerSubOp (dws 0)
      sdmaVersion := q.sdmaVersion
      submitTs := now }
  let qs := { qs with sdmaSeq := qs.sdmaSeq + 1 }
  if rec0.isCopy then
    let named : SdmaRecord :=
      { rec0 with
        opName := str "copy_" ++ Sdma.copySubOpName q.sdmaVersion rec0.subOpcode ++
          (if Sdma.headerBroadcast (dws 0) then str "_broadcast" else []) }
    if Sdma.isLinearCopy q.sdmaVersion rec0.subOpcode && decide (7 ≤ win) then
      let srcAddr := addrDwords dws 3
      let dstAddr := addrDwords dws 5
      let dir := classifyDir qs m srcAddr dstAddr
      ({ named with
          bytes := Sdma.linearCopyBytes q.sdmaVersion rec0.subOpcode (dws 1)
          srcAddr := srcAddr
          dstAddr := dstAddr
          dir := dir.1 },
        dir.2)
    else (named, qs)
  else ({ rec0 with opName := Sdma.opName q.sdmaVersion rec0.opcode }, qs)

/-- Producer wrapped past what is yet to be read: skip ahead a whole ring. -/
def skipRing (wptr : Nat) (qs : QueueState) : QueueState × List Event :=
  let ringDw := qs.info.numDwords
  if u64 (qs.nextId + ringDw) < wptr then
    let n := u64Sub (u64Sub wptr qs.nextId) ringDw
    ({ qs with dropped := u64 (qs.dropped + n), nextId := u64Sub wptr ringDw },
      [.drop qs.nextId n])
  else (qs, [])

/-- Decode the published packets in order. A window too short to name the length is left for the next
    poll, as is a packet that is not fully published; an unrecognised opcode drops everything up to
    the write pointer. -/
def sdmaDecodeLoop (o : PollObs) (wptr : Nat) (qs : QueueState) : QueueState × List Event :=
  if qs.nextId < wptr then
    let avail := wptr - qs.nextId
    let win := min avail kSdmaWindow
    match readRingDwords qs.info (o.mem qs.nextId) qs.nextId win with
    | none => (qs, [])
    | some dws =>
        let len := Sdma.packetLenDwords qs.info.sdmaVersion dws win
        if len = 0 then
          if avail < 4 then (qs, [])
          else
            ({ qs with dropped := u64 (qs.dropped + avail), nextId := wptr },
              [.drop qs.nextId avail])
        else if avail < len then (qs, [])
        else
          let made := sdmaRecord qs (o.mem qs.nextId) o.now dws win
          let endDw := qs.nextId + len
          let out := sdmaDecodeLoop o wptr
            { made.2 with
              sdmaInflight := made.2.sdmaInflight.emplace endDw made.1
              nextId := endDw }
          (out.1, .sdmaPark qs.nextId len made.1 :: out.2)
  else (qs, [])
termination_by wptr - qs.nextId
decreasing_by
  show wptr - (qs.nextId + len) < wptr - qs.nextId
  omega

/-- Mark packets as queue-consumed once the read pointer passes their last dword. -/
def drainSdmaInflight (now : Time) (rptr : Nat) (qs : QueueState) : QueueState × List Event :=
  let out := qs.sdmaInflight.splitBelow (rptr + 1)
  ({ qs with sdmaInflight := out.2 }, out.1.map (fun e => .sdmaSink (e.2.complete now)))

/-- The part of `RingParser::PollSdmaQueue` behind the priming check. -/
def pollSdmaPrimed (o : PollObs) (wptr rptr : Nat) (qs : QueueState) : QueueState × List Event :=
  let skipped := skipRing wptr qs
  let decoded := sdmaDecodeLoop o wptr skipped.1
  let drained := drainSdmaInflight o.now rptr decoded.1
  ({ drained.1 with lastRptr := rptr }, skipped.2 ++ decoded.2 ++ drained.2)

/-- `RingParser::PollSdmaQueue`. -/
def pollSdmaQueue (qs : QueueState) (o : PollObs) : QueueState × List Event :=
  match o.wptr, o.rptr with
  | some wptrRaw, some rptrRaw =>
      let qs := { qs with readFailCount := 0 }
      if qs.info.numDwords = 0 then (qs, [])
      else
        let wptr := Sdma.ringBytesToDwords wptrRaw.toNat
        let rptr := Sdma.ringBytesToDwords rptrRaw.toNat
        if !qs.primed then
          -- Start from the current head so only new activity is reported.
          ({ qs with nextId := wptr, lastRptr := rptr, primed := true }, [.pointers wptr rptr])
        else
          let out := pollSdmaPrimed o wptr rptr qs
          (out.1, .pointers wptr rptr :: out.2)
  | _, _ => (qs.readFailed, [])

theorem pollSdmaQueue_primed {qs : QueueState} {o : PollObs} {w r : UInt64} (hw : o.wptr = some w)
    (hr : o.rptr = some r) (hring : qs.info.numDwords ≠ 0) (hp : qs.primed = true) :
    pollSdmaQueue qs o =
      ((pollSdmaPrimed o (Sdma.ringBytesToDwords w.toNat) (Sdma.ringBytesToDwords r.toNat)
          { qs with readFailCount := 0 }).1,
        .pointers (Sdma.ringBytesToDwords w.toNat) (Sdma.ringBytesToDwords r.toNat) ::
          (pollSdmaPrimed o (Sdma.ringBytesToDwords w.toNat) (Sdma.ringBytesToDwords r.toNat)
            { qs with readFailCount := 0 }).2) := by
  simp only [pollSdmaQueue, hw, hr]
  rw [if_neg hring, if_neg (by simp [hp])]

/-! ## What a poll can do -/

/-- Making a record counts it and may touch the page cache, nothing else. -/
theorem sdmaRecord_frame (qs : QueueState) (m : ProcMem) (now : Time) (dws : Nat → UInt32)
    (win : Nat) :
    ∃ pageHost, (sdmaRecord qs m now dws win).2 =
      { qs with sdmaSeq := qs.sdmaSeq + 1, pageHost := pageHost } := by
  have hhost : ∀ (s : QueueState) (va : Nat),
      ∃ pageHost, (isHostVA s m va).2 = { s with pageHost := pageHost } := by
    intro s va
    simp only [isHostVA]
    split
    · exact ⟨s.pageHost, rfl⟩
    · exact ⟨_, rfl⟩
  simp only [sdmaRecord]
  split
  · split
    · simp only [classifyDir]
      obtain ⟨src, hsrc⟩ := hhost { qs with sdmaSeq := qs.sdmaSeq + 1 } (addrDwords dws 3)
      obtain ⟨dst, hdst⟩ := hhost (isHostVA { qs with sdmaSeq := qs.sdmaSeq + 1 } m
        (addrDwords dws 3)).2 (addrDwords dws 5)
      exact ⟨dst, by rw [hdst, hsrc]⟩
    · exact ⟨qs.pageHost, rfl⟩
  · exact ⟨qs.pageHost, rfl⟩

/-- The window a poll that read `wptr` looks at. -/
def sdmaWindow (wptr : Nat) (qs : QueueState) : Nat := min (wptr - qs.nextId) kSdmaWindow

/-- A window of the ring, as read at the decode position. -/
structure SdmaWindow (o : PollObs) (wptr : Nat) (qs : QueueState) (dws : Nat → UInt32) : Prop where
  lt : qs.nextId < wptr
  inRing : wptr ≤ qs.nextId + qs.info.numDwords
  read : readRingDwords qs.info (o.mem qs.nextId) qs.nextId (sdmaWindow wptr qs) = some dws

/-- The length of the packet in a window. -/
def windowLen (wptr : Nat) (qs : QueueState) (dws : Nat → UInt32) : Nat :=
  Sdma.packetLenDwords qs.info.sdmaVersion dws (sdmaWindow wptr qs)

/-- One move of a primed poll that read `wptr` and `rptr` (in dwords). -/
inductive SdmaMove (o : PollObs) (wptr rptr : Nat) : QueueState → List Event → QueueState → Prop
  | start {qs : QueueState} :
      SdmaMove o wptr rptr qs [.pointers wptr rptr] { qs with readFailCount := 0 }
  /-- Dwords the producer has wrapped over are counted and skipped. -/
  | skip {qs : QueueState} (wrapped : u64 (qs.nextId + qs.info.numDwords) < wptr) :
      SdmaMove o wptr rptr qs
        [.drop qs.nextId (u64Sub (u64Sub wptr qs.nextId) qs.info.numDwords)]
        { qs with
          dropped := u64 (qs.dropped + u64Sub (u64Sub wptr qs.nextId) qs.info.numDwords)
          nextId := u64Sub wptr qs.info.numDwords }
  /-- A fully published packet is put in flight under its end dword. -/
  | park {qs : QueueState} {dws : Nat → UInt32} {rec : SdmaRecord} {pageHost : OrdMap Bool}
      (window : SdmaWindow o wptr qs dws) (known : windowLen wptr qs dws ≠ 0)
      (whole : qs.nextId + windowLen wptr qs dws ≤ wptr)
      (made : rec = (sdmaRecord qs (o.mem qs.nextId) o.now dws (sdmaWindow wptr qs)).1) :
      SdmaMove o wptr rptr qs [.sdmaPark qs.nextId (windowLen wptr qs dws) rec]
        { qs with
          sdmaSeq := qs.sdmaSeq + 1
          pageHost := pageHost
          sdmaInflight := qs.sdmaInflight.emplace (qs.nextId + windowLen wptr qs dws) rec
          nextId := qs.nextId + windowLen wptr qs dws }
  /-- An unrecognised opcode drops everything up to the write pointer. -/
  | resync {qs : QueueState} {dws : Nat → UInt32} (window : SdmaWindow o wptr qs dws)
      (unknown : windowLen wptr qs dws = 0) (enough : qs.nextId + 4 ≤ wptr) :
      SdmaMove o wptr rptr qs [.drop qs.nextId (wptr - qs.nextId)]
        { qs with dropped := u64 (qs.dropped + (wptr - qs.nextId)), nextId := wptr }
  /-- Everything the read pointer has passed leaves `sdma_inflight`. -/
  | drain {qs : QueueState} :
      SdmaMove o wptr rptr qs
        ((qs.sdmaInflight.splitBelow (rptr + 1)).1.map (fun e => .sdmaSink (e.2.complete o.now)))
        { qs with sdmaInflight := (qs.sdmaInflight.splitBelow (rptr + 1)).2 }
  | finish {qs : QueueState} (drained : ∀ k ∈ qs.sdmaInflight.keys, rptr < k) :
      SdmaMove o wptr rptr qs [] { qs with lastRptr := rptr }

/-- Why the decode loop stops. -/
inductive SdmaStop (o : PollObs) (wptr : Nat) (qs : QueueState) : Prop
  | all (done : wptr ≤ qs.nextId)
  | unread (lt : qs.nextId < wptr) (inRing : wptr ≤ qs.nextId + qs.info.numDwords)
      (failed : readRingDwords qs.info (o.mem qs.nextId) qs.nextId (sdmaWindow wptr qs) = none)
  | short {dws : Nat → UInt32} (window : SdmaWindow o wptr qs dws)
      (unknown : windowLen wptr qs dws = 0) (few : wptr < qs.nextId + 4)
  | unfinished {dws : Nat → UInt32} (window : SdmaWindow o wptr qs dws)
      (long : wptr < qs.nextId + windowLen wptr qs dws)

/-- Moves stay within one queue, primed, and leave the AQL side alone. -/
theorem SdmaMove.frame {o : PollObs} {wptr rptr : Nat} {qs qs' : QueueState} {es : List Event}
    (h : SdmaMove o wptr rptr qs es qs') :
    qs'.info = qs.info ∧ qs'.primed = qs.primed ∧ qs'.inflight = qs.inflight ∧
      qs'.evict = qs.evict := by
  cases h <;> exact ⟨rfl, rfl, rfl, rfl⟩

theorem SdmaMove.frame_steps {o : PollObs} {wptr rptr : Nat} {qs qs' : QueueState}
    {es : List Event} (h : Trace.Steps (SdmaMove o wptr rptr) qs es qs') :
    qs'.info = qs.info ∧ qs'.primed = qs.primed ∧ qs'.inflight = qs.inflight ∧
      qs'.evict = qs.evict := by
  induction h with
  | refl s => exact ⟨rfl, rfl, rfl, rfl⟩
  | head hmove _ ih =>
      obtain ⟨hi, hp, hs, he⟩ := hmove.frame
      exact ⟨ih.1.trans hi, ih.2.1.trans hp, ih.2.2.1.trans hs, ih.2.2.2.trans he⟩

/-- A move never takes the decode position back. -/
theorem SdmaMove.nextId_le {o : PollObs} {wptr rptr : Nat} {qs qs' : QueueState} {es : List Event}
    (hw : wptr < 2 ^ 62) (hb : qs.nextId < 2 ^ 62) (h : SdmaMove o wptr rptr qs es qs') :
    qs.nextId ≤ qs'.nextId ∧ qs'.nextId < 2 ^ 62 := by
  have hring := qs.info.numDwords_lt
  cases h with
  | skip wrapped =>
      rw [u64_of_lt (by omega)] at wrapped
      simp only
      rw [u64Sub_of_le (by omega) (by omega)]
      omega
  | park window known whole made => simp only; omega
  | resync window unknown enough => simp only; omega
  | _ => exact ⟨Nat.le_refl _, hb⟩

theorem SdmaMove.nextId_le_steps {o : PollObs} {wptr rptr : Nat} {qs qs' : QueueState}
    {es : List Event} (hw : wptr < 2 ^ 62) (hb : qs.nextId < 2 ^ 62)
    (h : Trace.Steps (SdmaMove o wptr rptr) qs es qs') :
    qs.nextId ≤ qs'.nextId ∧ qs'.nextId < 2 ^ 62 :=
  h.invariant_state (fun t => qs.nextId ≤ t.nextId ∧ t.nextId < 2 ^ 62)
    (fun s _ t hs hmove => by
      have := hmove.nextId_le hw hs.2
      omega) ⟨Nat.le_refl _, hb⟩

theorem skipRing_steps (o : PollObs) (wptr rptr : Nat) (qs : QueueState) :
    Trace.Steps (SdmaMove o wptr rptr) qs (skipRing wptr qs).2 (skipRing wptr qs).1 := by
  simp only [skipRing]
  split
  · next h => exact Trace.Steps.single (SdmaMove.skip h)
  · exact Trace.Steps.refl qs

/-- Behind the guard the write pointer is at most one ring ahead. -/
theorem skipRing_inRing {wptr : Nat} (hw : wptr < 2 ^ 64) (qs : QueueState) :
    wptr ≤ (skipRing wptr qs).1.nextId + (skipRing wptr qs).1.info.numDwords := by
  by_cases h : u64 (qs.nextId + qs.info.numDwords) < wptr
  · simp only [skipRing, if_pos h]
    exact le_u64Sub_add hw
  · simp only [skipRing, if_neg h]
    have hle := u64_le (qs.nextId + qs.info.numDwords)
    omega

theorem sdmaDecodeLoop_steps (o : PollObs) (wptr rptr : Nat) (qs : QueueState)
    (hring : wptr ≤ qs.nextId + qs.info.numDwords) :
    Trace.Steps (SdmaMove o wptr rptr) qs (sdmaDecodeLoop o wptr qs).2
        (sdmaDecodeLoop o wptr qs).1 ∧
      SdmaStop o wptr (sdmaDecodeLoop o wptr qs).1 := by
  fun_induction sdmaDecodeLoop o wptr qs with
  | case1 qs hlt avail win hread => exact ⟨Trace.Steps.refl qs, .unread hlt hring hread⟩
  | case2 qs hlt avail win dws hread len hlen hfew =>
      have hend : wptr < qs.nextId + 4 := by omega
      exact ⟨Trace.Steps.refl qs, .short ⟨hlt, hring, hread⟩ hlen hend⟩
  | case3 qs hlt avail win dws hread len hlen hmany =>
      exact ⟨Trace.Steps.single (SdmaMove.resync ⟨hlt, hring, hread⟩ hlen (by omega)),
        .all (Nat.le_refl _)⟩
  | case4 qs hlt avail win dws hread len hlen hlong =>
      have hend : wptr < qs.nextId + windowLen wptr qs dws := by
        have hlong' : wptr - qs.nextId < windowLen wptr qs dws := hlong
        omega
      exact ⟨Trace.Steps.refl qs, .unfinished ⟨hlt, hring, hread⟩ hend⟩
  | case5 qs hlt avail win dws hread len hlen hfits made endDw out ih =>
      obtain ⟨pageHost, hframe⟩ := sdmaRecord_frame qs (o.mem qs.nextId) o.now dws win
      have hwhole : qs.nextId + windowLen wptr qs dws ≤ wptr := by
        have hfits' : ¬ wptr - qs.nextId < windowLen wptr qs dws := hfits
        omega
      have hstate : ({ made.2 with
            sdmaInflight := made.2.sdmaInflight.emplace endDw made.1, nextId := endDw } :
            QueueState) =
          { qs with
            sdmaSeq := qs.sdmaSeq + 1
            pageHost := pageHost
            sdmaInflight := qs.sdmaInflight.emplace endDw made.1
            nextId := endDw } := by
        simp only [made, hframe]
      have hmove : SdmaMove o wptr rptr qs [.sdmaPark qs.nextId len made.1]
          { made.2 with
            sdmaInflight := made.2.sdmaInflight.emplace endDw made.1, nextId := endDw } := by
        rw [hstate]
        exact SdmaMove.park ⟨hlt, hring, hread⟩ hlen hwhole rfl
      have hinfo : made.2.info = qs.info := by simp only [made, hframe]
      have hrest := ih (by
        simp only [hinfo, endDw]
        omega)
      exact ⟨Trace.Steps.head hmove hrest.1, hrest.2⟩
  | case6 qs hge => exact ⟨Trace.Steps.refl qs, .all (Nat.le_of_not_lt hge)⟩

theorem sdmaDecodeLoop_rptr (o : PollObs) (wptr : Nat) (qs : QueueState) :
    ∀ e ∈ (sdmaDecodeLoop o wptr qs).2, e.rptr? = none := by
  fun_induction sdmaDecodeLoop o wptr qs with
  | case1 qs hlt avail win hread => simp
  | case2 qs hlt avail win dws hread len hlen hfew => simp
  | case3 qs hlt avail win dws hread len hlen hmany => simp
  | case4 qs hlt avail win dws hread len hlen hlong => simp
  | case5 qs hlt avail win dws hread len hlen hfits made endDw out ih => simpa using ih
  | case6 qs hge => simp

/-- The pointers are read once, in front of everything else. -/
theorem pollSdmaPrimed_rptr (o : PollObs) (wptr rptr : Nat) (qs : QueueState) :
    ∀ e ∈ (pollSdmaPrimed o wptr rptr qs).2, e.rptr? = none := by
  intro e he
  simp only [pollSdmaPrimed, drainSdmaInflight] at he
  rcases List.mem_append.1 he with he | he
  · rcases List.mem_append.1 he with he | he
    · simp only [skipRing] at he
      split at he
      · obtain rfl := List.mem_singleton.1 he
        rfl
      · simp at he
    · exact sdmaDecodeLoop_rptr o wptr _ e he
  · obtain ⟨x, -, rfl⟩ := List.mem_map.1 he
    rfl

/-- The pointers of a poll that could read both, in dwords. -/
def PollObs.dwords? (o : PollObs) : Option (Nat × Nat) :=
  o.pointers?.map (fun p => (Sdma.ringBytesToDwords p.1, Sdma.ringBytesToDwords p.2))

/-- Dword positions leave room for a ring below `2^64`. -/
theorem PollObs.dwords_lt {o : PollObs} {w r : Nat} (h : o.dwords? = some (w, r)) :
    w < 2 ^ 62 ∧ r < 2 ^ 62 := by
  obtain ⟨p, hp, heq⟩ := Option.map_eq_some_iff.1 h
  obtain ⟨w', r', -, -, rfl⟩ := PollObs.pointers?_eq_some.1 hp
  obtain ⟨rfl, rfl⟩ := Prod.mk.inj heq
  have hw := w'.toNat_lt
  have hr := r'.toNat_lt
  simp only [Sdma.ringBytesToDwords]
  omega

/-- The outcome of a poll of `qs` that observed `o`. -/
inductive PollSdmaCase (qs : QueueState) (o : PollObs) : QueueState → List Event → Prop
  | failed (unread : o.dwords? = none) : PollSdmaCase qs o qs.readFailed []
  | noRing (none : qs.info.numDwords = 0) :
      PollSdmaCase qs o { qs with readFailCount := 0 } []
  | primes {w r : Nat} (read : o.dwords? = some (w, r)) (ring : qs.info.numDwords ≠ 0)
      (fresh : qs.primed = false) :
      PollSdmaCase qs o
        { qs with readFailCount := 0, nextId := w, lastRptr := r, primed := true }
        [.pointers w r]
  | polled {w r : Nat} {mid qs' : QueueState} {es fs : List Event}
      (read : o.dwords? = some (w, r)) (ring : qs.info.numDwords ≠ 0) (primed : qs.primed = true)
      (decode : Trace.Steps (SdmaMove o w r) qs es mid) (stopped : SdmaStop o w mid)
      (drain : Trace.Steps (SdmaMove o w r) mid fs qs') (nextId : qs'.nextId = mid.nextId)
      (drained : ∀ k ∈ qs'.sdmaInflight.keys, r < k) (last : qs'.lastRptr = r)
      (trace : ∃ gs, es ++ fs = .pointers w r :: gs ∧ ∀ e ∈ gs, e.rptr? = none) :
      PollSdmaCase qs o qs' (es ++ fs)

/-- **What a poll can do.** -/
theorem pollSdmaQueue_cases (qs : QueueState) (o : PollObs) :
    PollSdmaCase qs o (pollSdmaQueue qs o).1 (pollSdmaQueue qs o).2 := by
  cases hptr : o.pointers? with
  | none =>
      have hpoll : pollSdmaQueue qs o = (qs.readFailed, []) := by
        rcases PollObs.pointers?_eq_none.1 hptr with h | h <;> simp [pollSdmaQueue, h]
      rw [hpoll]
      exact .failed (by rw [PollObs.dwords?, hptr, Option.map_none])
  | some p =>
      obtain ⟨w, r, hw, hr, rfl⟩ := PollObs.pointers?_eq_some.1 hptr
      have hread : o.dwords? =
          some (Sdma.ringBytesToDwords w.toNat, Sdma.ringBytesToDwords r.toNat) := by
        rw [PollObs.dwords?, hptr, Option.map_some]
      by_cases hring : qs.info.numDwords = 0
      · have hpoll : pollSdmaQueue qs o = ({ qs with readFailCount := 0 }, []) := by
          simp only [pollSdmaQueue, hw, hr]
          rw [if_pos hring]
        rw [hpoll]
        exact .noRing hring
      · cases hp : qs.primed with
        | false =>
            simp only [pollSdmaQueue, hw, hr, hp]
            rw [if_neg hring]
            exact .primes hread hring hp
        | true =>
            rw [pollSdmaQueue_primed hw hr hring hp]
            have hlt := (PollObs.dwords_lt hread).1
            generalize Sdma.ringBytesToDwords w.toNat = wptr at hread hlt
            generalize Sdma.ringBytesToDwords r.toNat = rptr at hread
            have hskip := skipRing_steps o wptr rptr { qs with readFailCount := 0 }
            obtain ⟨hdec, hstop⟩ := sdmaDecodeLoop_steps o wptr rptr
              (skipRing wptr { qs with readFailCount := 0 }).1 (skipRing_inRing (by omega) _)
            have hdrained : ∀ k ∈ (pollSdmaPrimed o wptr rptr
                { qs with readFailCount := 0 }).1.sdmaInflight.keys, rptr < k :=
              fun k hk => OrdMap.splitBelow_snd_ge hk
            have hfinish := (Trace.Steps.single SdmaMove.drain).trans
              (Trace.Steps.single (@SdmaMove.finish o wptr rptr
                (drainSdmaInflight o.now rptr (sdmaDecodeLoop o wptr
                  (skipRing wptr { qs with readFailCount := 0 }).1).1).1 hdrained))
            have hcase := PollSdmaCase.polled hread hring hp
              (Trace.Steps.head SdmaMove.start (hskip.trans hdec)) hstop hfinish rfl hdrained rfl
              ⟨(pollSdmaPrimed o wptr rptr { qs with readFailCount := 0 }).2,
                by simp [pollSdmaPrimed, drainSdmaInflight], pollSdmaPrimed_rptr o _ _ _⟩
            simpa [pollSdmaPrimed, drainSdmaInflight] using hcase

/-- Case analysis on a poll, where a goal is about its result. -/
@[elab_as_elim]
theorem pollSdmaQueue_elim {C : QueueState → List Event → Prop} (qs : QueueState) (o : PollObs)
    (h : ∀ qs' es, PollSdmaCase qs o qs' es → C qs' es) :
    C (pollSdmaQueue qs o).1 (pollSdmaQueue qs o).2 :=
  h _ _ (pollSdmaQueue_cases qs o)

/-- A poll stays with its queue. -/
theorem pollSdmaQueue_info (qs : QueueState) (o : PollObs) :
    (pollSdmaQueue qs o).1.info = qs.info := by
  refine pollSdmaQueue_elim qs o (fun qs' fs hcase => ?_)
  cases hcase with
  | failed unread => rfl
  | noRing none => rfl
  | primes read ring fresh => rfl
  | polled read ring primed decode stopped drain nextId drained last =>
      exact (SdmaMove.frame_steps (decode.trans drain)).1

end HsaSnoop
