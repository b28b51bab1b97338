import HsaSnoop.Library.Firsts
import HsaSnoop.Library.Wire
import HsaSnoop.Model.Numerals
import HsaSnoop.Writer.Perfetto

set_option autoImplicit false

/-! # The Perfetto trace as bytes

`WritePerfetto` encodes its packets by hand: `Pb` is a buffer with the operations of the protobuf wire
format, and every message is built in one and copied into that of the message around it. `decodeTrace`
reads such bytes by the wire rules, message by message, and gives back exactly the packets the trace was
made of; what these are is said by `process?`, `track?` and `isEvent`. -/

namespace HsaSnoop

open Firsts

/-! ## Encoding -/

/-- A message under construction. -/
structure Pb where
  buf : Bytes := []

namespace Pb

def varint (p : Pb) (v : Nat) : Pb :=
  if v ≥ 0x80 then varint ⟨p.buf ++ [UInt8.ofNat ((v &&& 0x7F) ||| 0x80)]⟩ (v >>> 7)
  else ⟨p.buf ++ [UInt8.ofNat v]⟩
termination_by v
decreasing_by
  rw [Nat.shiftRight_eq_div_pow]
  omega

def tag (p : Pb) (field wire : Nat) : Pb := p.varint ((field <<< 3) ||| wire)

def varintField (p : Pb) (field v : Nat) : Pb := (p.tag field 0).varint v

def stringField (p : Pb) (field : Nat) (s : Bytes) : Pb :=
  ⟨((p.tag field 2).varint s.length).buf ++ s⟩

def msgField (p : Pb) (field : Nat) (m : Pb) : Pb :=
  ⟨((p.tag field 2).varint m.buf.length).buf ++ m.buf⟩

end Pb

-- Field numbers of the Perfetto schema.
def kTracePacket : Nat := 1
def kTimestamp : Nat := 8
def kSeqId : Nat := 10
def kTrackEvent : Nat := 11
def kTrackDescriptor : Nat := 60
def kTdUuid : Nat := 1
def kTdName : Nat := 2
def kTdProcess : Nat := 3
def kTdParentUuid : Nat := 5
def kPdPid : Nat := 1
def kPdName : Nat := 6
def kTeType : Nat := 9
def kTeTrackUuid : Nat := 11
def kTeName : Nat := 23
def kTeDebug : Nat := 4
def kDaName : Nat := 10
def kDaStr : Nat := 6
def kDaUint : Nat := 4
def kTypeSliceBegin : Nat := 1
def kTypeSliceEnd : Nat := 2

/-- `DebugStr`, `DebugUint`. -/
def DebugAnnotation.pb (d : DebugAnnotation) : Pb :=
  let p := ({} : Pb).stringField kDaName d.name
  match d.value with
  | .string val => p.stringField kDaStr val
  | .uint val => p.varintField kDaUint val

def ProcessDescriptor.pb (proc : ProcessDescriptor) : Pb :=
  (({} : Pb).varintField kPdPid proc.pid).stringField kPdName proc.processName

def TrackDescriptor.pb (td : TrackDescriptor) : Pb :=
  let p := ({} : Pb).varintField kTdUuid td.uuid
  let p := td.name.elim p (p.stringField kTdName)
  let p := td.process.elim p (fun proc => p.msgField kTdProcess proc.pb)
  td.parentUuid.elim p (p.varintField kTdParentUuid)

def TrackEvent.pb (te : TrackEvent) : Pb :=
  let p := ({} : Pb).varintField kTeTrackUuid te.trackUuid
  match te.event with
  | .sliceBegin name debug =>
      debug.foldl (fun p d => p.msgField kTeDebug d.pb)
        ((p.varintField kTeType kTypeSliceBegin).stringField kTeName name)
  | .sliceEnd => p.varintField kTeType kTypeSliceEnd

def TracePacket.pb : TracePacket → Pb
  | .trackDescriptor td => ({} : Pb).msgField kTrackDescriptor td.pb
  | .trackEvent timestamp te seqId =>
      ((({} : Pb).varintField kTimestamp timestamp).msgField kTrackEvent te.pb).varintField kSeqId seqId

/-- The whole trace. -/
def tracePb (packets : List TracePacket) : Pb :=
  packets.foldl (fun p pkt => p.msgField kTracePacket pkt.pb) {}

/-- The bytes of the trace file. -/
def TraceWriter.perfettoBytes (w : TraceWriter) (hash : Bytes → Nat) : Bytes :=
  (tracePb (w.writePerfetto hash).1).buf

/-! ## Decoding -/

def decodeDebug (s : Bytes) : Option DebugAnnotation := do
  let fs ← Wire.parse s
  guard (Wire.Known [kDaName, kDaStr, kDaUint] fs)
  let name ← Wire.bytes? kDaName fs
  match Wire.bytes? kDaStr fs, Wire.varint? kDaUint fs with
  | some val, none => some ⟨name, .string val⟩
  | none, some val => some ⟨name, .uint val⟩
  | _, _ => none

def decodeProcess (s : Bytes) : Option ProcessDescriptor := do
  let fs ← Wire.parse s
  guard (Wire.Known [kPdPid, kPdName] fs)
  let pid ← Wire.varint? kPdPid fs
  let name ← Wire.bytes? kPdName fs
  some ⟨pid, name⟩

def decodeTrackDescriptor (s : Bytes) : Option TrackDescriptor := do
  let fs ← Wire.parse s
  guard (Wire.Known [kTdUuid, kTdName, kTdProcess, kTdParentUuid] fs)
  let uuid ← Wire.varint? kTdUuid fs
  let process ←
    match Wire.bytes? kTdProcess fs with
    | none => some none
    | some m => (decodeProcess m).map some
  some ⟨uuid, Wire.bytes? kTdName fs, process, Wire.varint? kTdParentUuid fs⟩

def decodeTrackEvent (s : Bytes) : Option TrackEvent := do
  let fs ← Wire.parse s
  guard (Wire.Known [kTeTrackUuid, kTeType, kTeName, kTeDebug] fs)
  let uuid ← Wire.varint? kTeTrackUuid fs
  let type ← Wire.varint? kTeType fs
  let debug ← (Wire.repeated kTeDebug fs).mapM decodeDebug
  if type = kTypeSliceBegin then
    let name ← Wire.bytes? kTeName fs
    some ⟨uuid, .sliceBegin name debug⟩
  else if type = kTypeSliceEnd then some ⟨uuid, .sliceEnd⟩
  else none

def decodePacket (s : Bytes) : Option TracePacket := do
  let fs ← Wire.parse s
  guard (Wire.Known [kTimestamp, kTrackEvent, kSeqId, kTrackDescriptor] fs)
  match Wire.bytes? kTrackDescriptor fs with
  | some m =>
      let td ← decodeTrackDescriptor m
      some (.trackDescriptor td)
  | none =>
      let timestamp ← Wire.varint? kTimestamp fs
      let m ← Wire.bytes? kTrackEvent fs
      let te ← decodeTrackEvent m
      let seqId ← Wire.varint? kSeqId fs
      some (.trackEvent timestamp te seqId)

/-- The packets of a trace file. -/
def decodeTrace (s : Bytes) : Option (List TracePacket) := do
  let fs ← Wire.parse s
  guard (Wire.Known [kTracePacket] fs)
  (Wire.repeated kTracePacket fs).mapM decodePacket

/-! ## The buffer operations are those of the wire format -/

namespace Pb

theorem varint_buf (p : Pb) (v : Nat) : (p.varint v).buf = p.buf ++ Wire.varint v := by
  induction v using Nat.strongRecOn generalizing p with
  | ind v ih =>
      have hlow : (v &&& 0x7F) ||| 0x80 = v % 128 + 128 := by
        have hmod : v &&& 127 = v % 128 := Nat.and_two_pow_sub_one_eq_mod v 7
        have hlt : v % 128 < 2 ^ 7 := Nat.mod_lt v (by decide)
        have hor := Nat.two_pow_add_eq_or_of_lt hlt 1
        rw [hmod, Nat.or_comm, ← hor, Nat.add_comm]
      have hshift : v >>> 7 = v / 128 := Nat.shiftRight_eq_div_pow v 7
      rw [varint, Wire.varint]
      by_cases h : v ≥ 0x80
      · rw [if_pos h, if_neg (Nat.not_lt.2 h), hshift, ih (v / 128) (by omega), hlow,
          List.append_assoc, List.singleton_append]
      · rw [if_neg h, if_pos (Nat.lt_of_not_le h)]

theorem tag_buf (p : Pb) (field : Nat) {wire : Nat} (hw : wire < 8) :
    (p.tag field wire).buf = p.buf ++ Wire.varint (8 * field + wire) := by
  have hor : (field <<< 3) ||| wire = 8 * field + wire := by
    rw [Nat.shiftLeft_eq, Nat.mul_comm]
    exact (Nat.two_pow_add_eq_or_of_lt (show wire < 2 ^ 3 from hw) field).symm
  rw [tag, varint_buf, hor]

theorem varintField_buf (p : Pb) (field v : Nat) :
    (p.varintField field v).buf = p.buf ++ Wire.Field.encode ⟨field, .varint v⟩ := by
  rw [varintField, varint_buf, tag_buf p field (by decide), List.append_assoc]
  rfl

theorem stringField_buf (p : Pb) (field : Nat) (s : Bytes) :
    (p.stringField field s).buf = p.buf ++ Wire.Field.encode ⟨field, .bytes s⟩ := by
  simp only [stringField, varint_buf, tag_buf p field (show 2 < 8 by decide), Wire.Field.encode,
    List.append_assoc]

/-- A message is copied like a string. -/
theorem msgField_buf (p : Pb) (field : Nat) (m : Pb) :
    (p.msgField field m).buf = p.buf ++ Wire.Field.encode ⟨field, .bytes m.buf⟩ :=
  stringField_buf p field m.buf

/-- A list of messages, one behind the other. -/
theorem foldl_msgField_buf {α : Type} (field : Nat) (m : α → Pb) (l : List α) (p : Pb) :
    (l.foldl (fun p a => p.msgField field (m a)) p).buf =
      p.buf ++ Wire.encode (l.map (fun a => ⟨field, .bytes (m a).buf⟩)) := by
  induction l generalizing p with
  | nil => simp [Wire.encode]
  | cons a l ih =>
      rw [List.foldl_cons, ih, msgField_buf, List.map_cons, Wire.encode, Wire.encode,
        List.flatMap_cons, List.append_assoc]

end Pb

/-! ## Every message is read as it was built -/

theorem DebugAnnotation.pb_buf (d : DebugAnnotation) :
    d.pb.buf = Wire.encode (⟨kDaName, .bytes d.name⟩ ::
      match d.value with
      | .string val => [⟨kDaStr, .bytes val⟩]
      | .uint val => [⟨kDaUint, .varint val⟩]) := by
  obtain ⟨name, value⟩ := d
  cases value with
  | string val => simp [pb, Pb.stringField_buf, Wire.encode]
  | uint val => simp [pb, Pb.stringField_buf, Pb.varintField_buf, Wire.encode]

theorem decodeDebug_pb (d : DebugAnnotation) : decodeDebug d.pb.buf = some d := by
  rw [decodeDebug, DebugAnnotation.pb_buf, Wire.parse_encode]
  obtain ⟨name, value⟩ := d
  cases value with
  | string val =>
      simp [Wire.Known, Wire.bytes?, Wire.varint?, Wire.Value.bytes?, kDaName, kDaStr, kDaUint]
  | uint val =>
      simp [Wire.Known, Wire.bytes?, Wire.varint?, Wire.Value.bytes?, Wire.Value.varint?, kDaName,
        kDaStr, kDaUint]

theorem decodeProcess_pb (proc : ProcessDescriptor) : decodeProcess proc.pb.buf = some proc := by
  have hbuf : proc.pb.buf =
      Wire.encode [⟨kPdPid, .varint proc.pid⟩, ⟨kPdName, .bytes proc.processName⟩] := by
    simp [ProcessDescriptor.pb, Pb.stringField_buf, Pb.varintField_buf, Wire.encode]
  rw [decodeProcess, hbuf, Wire.parse_encode]
  simp [Wire.Known, Wire.bytes?, Wire.varint?, Wire.Value.bytes?, Wire.Value.varint?, kPdPid, kPdName]

theorem TrackDescriptor.pb_buf (td : TrackDescriptor) :
    td.pb.buf = Wire.encode (⟨kTdUuid, .varint td.uuid⟩ ::
      (td.name.toList.map (fun name => ⟨kTdName, .bytes name⟩) ++
        (td.process.toList.map (fun proc => ⟨kTdProcess, .bytes proc.pb.buf⟩) ++
          td.parentUuid.toList.map (fun uuid => ⟨kTdParentUuid, .varint uuid⟩)))) := by
  obtain ⟨uuid, name, process, parent⟩ := td
  cases name <;> cases process <;> cases parent <;>
    simp [pb, Pb.varintField_buf, Pb.stringField_buf, Pb.msgField_buf, Wire.encode]

theorem decodeTrackDescriptor_pb (td : TrackDescriptor) :
    decodeTrackDescriptor td.pb.buf = some td := by
  rw [decodeTrackDescriptor, TrackDescriptor.pb_buf, Wire.parse_encode]
  obtain ⟨uuid, name, process, parent⟩ := td
  cases name <;> cases process <;> cases parent <;>
    simp [Wire.Known, Wire.bytes?, Wire.varint?, Wire.Value.bytes?, Wire.Value.varint?, kTdUuid,
      kTdName, kTdProcess, kTdParentUuid, decodeProcess_pb]

theorem decodeTrackEvent_pb (te : TrackEvent) : decodeTrackEvent te.pb.buf = some te := by
  obtain ⟨uuid, event⟩ := te
  cases event with
  | sliceBegin name debug =>
      have hbuf : (TrackEvent.pb ⟨uuid, .sliceBegin name debug⟩).buf =
          Wire.encode (⟨kTeTrackUuid, .varint uuid⟩ :: ⟨kTeType, .varint kTypeSliceBegin⟩ ::
            ⟨kTeName, .bytes name⟩ :: debug.map (fun d => ⟨kTeDebug, .bytes d.pb.buf⟩)) := by
        simp [TrackEvent.pb, Pb.foldl_msgField_buf, Pb.varintField_buf, Pb.stringField_buf,
          Wire.encode]
      have hdebug : (debug.map (fun d => d.pb.buf)).mapM decodeDebug = some debug :=
        Wire.mapM_map decodeDebug_pb debug
      rw [decodeTrackEvent, hbuf, Wire.parse_encode]
      simp [Wire.Known, Wire.bytes?, Wire.varint?, Wire.repeated, Wire.Value.bytes?,
        Wire.Value.varint?, kTeTrackUuid, kTeType, kTeName, kTeDebug, kTypeSliceBegin,
        List.filterMap_map, Function.comp_def, hdebug]
  | sliceEnd =>
      have hbuf : (TrackEvent.pb ⟨uuid, .sliceEnd⟩).buf =
          Wire.encode [⟨kTeTrackUuid, .varint uuid⟩, ⟨kTeType, .varint kTypeSliceEnd⟩] := by
        simp [TrackEvent.pb, Pb.varintField_buf, Wire.encode]
      rw [decodeTrackEvent, hbuf, Wire.parse_encode]
      simp [Wire.Known, Wire.varint?, Wire.repeated, Wire.Value.varint?, kTeTrackUuid, kTeType,
        kTeName, kTeDebug, kTypeSliceBegin, kTypeSliceEnd]

theorem decodePacket_pb (pkt : TracePacket) : decodePacket pkt.pb.buf = some pkt := by
  cases pkt with
  | trackDescriptor td =>
      have hbuf : (TracePacket.pb (.trackDescriptor td)).buf =
          Wire.encode [⟨kTrackDescriptor, .bytes td.pb.buf⟩] := by
        simp [TracePacket.pb, Pb.msgField_buf, Wire.encode]
      rw [decodePacket, hbuf, Wire.parse_encode]
      simp [Wire.Known, Wire.bytes?, Wire.Value.bytes?, kTrackDescriptor, decodeTrackDescriptor_pb]
  | trackEvent timestamp te seqId =>
      have hbuf : (TracePacket.pb (.trackEvent timestamp te seqId)).buf =
          Wire.encode [⟨kTimestamp, .varint timestamp⟩, ⟨kTrackEvent, .bytes te.pb.buf⟩,
            ⟨kSeqId, .varint seqId⟩] := by
        simp [TracePacket.pb, Pb.msgField_buf, Pb.varintField_buf, Wire.encode]
      rw [decodePacket, hbuf, Wire.parse_encode]
      simp [Wire.Known, Wire.bytes?, Wire.varint?, Wire.Value.bytes?, Wire.Value.varint?,
        kTrackDescriptor, kTimestamp, kTrackEvent, kSeqId, decodeTrackEvent_pb]

/-- **What is decoded is what was encoded.** -/
theorem decodeTrace_tracePb (packets : List TracePacket) :
    decodeTrace (tracePb packets).buf = some packets := by
  have hbuf : (tracePb packets).buf =
      Wire.encode (packets.map (fun pkt => ⟨kTracePacket, .bytes pkt.pb.buf⟩)) := by
    rw [tracePb, Pb.foldl_msgField_buf]
    rfl
  have hpackets : (packets.map (fun pkt => pkt.pb.buf)).mapM decodePacket = some packets :=
    Wire.mapM_map decodePacket_pb packets
  rw [decodeTrace, hbuf, Wire.parse_encode]
  simp [Wire.Known, Wire.repeated, Wire.Value.bytes?, List.filterMap_map, Function.comp_def, hpackets]

/-! ## The messages of a trace -/

namespace TracePacket

/-- The process a packet describes. -/
def process? : TracePacket → Option ProcessDescriptor
  | .trackDescriptor td => td.process
  | .trackEvent .. => none

/-- The track a packet describes, if it is not that of a process. -/
def track? : TracePacket → Option TrackDescriptor
  | .trackDescriptor td => if td.process.isSome then none else some td
  | .trackEvent .. => none

def isEvent : TracePacket → Bool
  | .trackDescriptor _ => false
  | .trackEvent .. => true

end TracePacket

/-- A process, with its pid sign-extended. -/
def processOf (p : Int × Bytes) : ProcessDescriptor := ⟨u64OfInt p.1, p.2⟩

/-- The track of a queue. -/
def queueTrack (q : QueueInfo) : TrackDescriptor where
  uuid := queueTrackUuid q.uid
  name := some (snprintf 128 (str (if q.isSdma then "sdma" else "aql") ++ str " queue " ++
    decimal q.uid ++ str " (gpu " ++ decimal q.gpuId ++ str ")"))
  parentUuid := some (u64OfInt q.pid)

/-- The track of a process and device. -/
def aisTrack (hash : Bytes → Nat) (r : AisRecord) : TrackDescriptor where
  uuid := aisTrackUuid hash r.pid r.pcieId
  name := some (snprintf 256 (str "ais [gpu " ++ decimal r.gpuId ++ str "] [" ++ cStr r.pcieId ++
    str "]"))
  parentUuid := some (u64OfInt r.pid)

def AisRecord.device (r : AisRecord) : Int × Bytes := (r.pid, r.pcieId)

/-- The processes a writer knows of: those of its queues, then those of its AIS records. -/
def TraceWriter.processes (w : TraceWriter) : List (Int × Bytes) :=
  w.queues.entries.map (fun e => (e.2.pid, e.2.comm)) ++ w.aisRecords.map (fun r => (r.pid, r.comm))

/-- What the descriptors of the queues are, when `pre` are the processes seen before. -/
theorem queueDescriptors_spec (qs : List QueueInfo) (seenPid : List Int) (pre : List (Int × Bytes))
    (hseen : ∀ pid, pid ∈ seenPid ↔ pid ∈ pre.map Prod.fst) :
    let out := TraceWriter.queueDescriptors qs seenPid
    let procs := qs.map (fun q => (q.pid, q.comm))
    out.1.filterMap TracePacket.process? = (firsts Prod.fst pre procs).map processOf ∧
      out.1.filterMap TracePacket.track? = qs.map queueTrack ∧
      out.1.filter TracePacket.isEvent = [] ∧
      ∀ pid, pid ∈ out.2 ↔ pid ∈ (procs.reverse ++ pre).map Prod.fst := by
  induction qs generalizing seenPid pre with
  | nil => exact ⟨rfl, rfl, rfl, hseen⟩
  | cons q qs ih =>
      simp only [TraceWriter.queueDescriptors, List.map_cons]
      by_cases hq : q.pid ∈ seenPid
      · have hnext : ∀ pid, pid ∈ seenPid ↔ pid ∈ ((q.pid, q.comm) :: pre).map Prod.fst := by
          intro pid
          rw [List.map_cons, List.mem_cons, ← hseen pid]
          exact ⟨.inr, fun h => h.elim (fun heq => heq ▸ hq) id⟩
        obtain ⟨hprocs, htracks, hevents, hpids⟩ := ih seenPid ((q.pid, q.comm) :: pre) hnext
        rw [firsts_cons_of_mem ((hseen q.pid).1 hq), if_pos hq, if_pos hq]
        refine ⟨?_, ?_, ?_, ?_⟩
        · simpa [List.filterMap_cons, TracePacket.process?] using hprocs
        · simpa [List.filterMap_cons, TracePacket.track?, queueTrack] using htracks
        · simpa [TracePacket.isEvent] using hevents
        · simpa using hpids
      · have hnext : ∀ pid, pid ∈ q.pid :: seenPid ↔ pid ∈ ((q.pid, q.comm) :: pre).map Prod.fst := by
          intro pid
          rw [List.map_cons, List.mem_cons, List.mem_cons, hseen pid]
        obtain ⟨hprocs, htracks, hevents, hpids⟩ := ih (q.pid :: seenPid) ((q.pid, q.comm) :: pre) hnext
        rw [firsts_cons_of_notMem (mt (hseen q.pid).2 hq), if_neg hq, if_neg hq]
        refine ⟨?_, ?_, ?_, ?_⟩
        · simpa [List.filterMap_cons, TracePacket.process?, TraceWriter.processPacket, processOf] using hprocs
        · simpa [List.filterMap_cons, TracePacket.track?, TraceWriter.processPacket, queueTrack] using htracks
        · simpa [TracePacket.isEvent, TraceWriter.processPacket] using hevents
        · simpa using hpids

/-! ## Devices -/

theorem str_toString_int (n : Int) : str (toString n) = signedDecimal n := by
  cases n with
  | ofNat n =>
      rw [signedDecimal, if_neg (by simp)]
      rfl
  | negSucc n =>
      rw [signedDecimal, if_pos (Int.negSucc_lt_zero n)]
      simp [toString, Int.repr, str, decimal]

/-- `pid:pcie_id` tells devices apart. -/
theorem device_key_inj {r r' : AisRecord} :
    str (toString r.pid) ++ str ":" ++ r.pcieId = str (toString r'.pid) ++ str ":" ++ r'.pcieId ↔
      r.device = r'.device := by
  rw [str_toString_int, str_toString_int, show str ":" = [58] by decide, List.append_assoc,
    List.append_assoc, List.singleton_append, List.singleton_append, signedDecimal_colon_inj]
  rw [AisRecord.device, AisRecord.device, Prod.mk.injEq]

/-- What the descriptors of the AIS tracks are, when `pre` are the processes and `done` the records
    seen before. -/
theorem aisDescriptors_spec (hash : Bytes → Nat) (rs : List AisRecord) (seenPid : List Int)
    (seenTrack : List Bytes) (pre : List (Int × Bytes)) (done : List AisRecord)
    (hpid : ∀ pid, pid ∈ seenPid ↔ pid ∈ pre.map Prod.fst)
    (htrack : ∀ key, key ∈ seenTrack ↔
      key ∈ done.map (fun r => str (toString r.pid) ++ str ":" ++ r.pcieId))
    (hdone : ∀ r ∈ done, r.pid ∈ pre.map Prod.fst) :
    let out := TraceWriter.aisDescriptors hash rs seenPid seenTrack
    out.filterMap TracePacket.process? =
        (firsts Prod.fst pre (rs.map (fun r => (r.pid, r.comm)))).map processOf ∧
      out.filterMap TracePacket.track? = (firsts AisRecord.device done rs).map (aisTrack hash) ∧
      out.filter TracePacket.isEvent = [] := by
  induction rs generalizing seenPid seenTrack pre done with
  | nil => exact ⟨rfl, rfl, rfl⟩
  | cons r rs ih =>
      have hkey : str (toString r.pid) ++ str ":" ++ r.pcieId ∈ seenTrack ↔
          r.device ∈ done.map AisRecord.device := by
        rw [htrack, List.mem_map, List.mem_map]
        simp only [device_key_inj]
      have hpidNext : ∀ (seen : List Int), (∀ pid, pid ∈ seen ↔ pid = r.pid ∨ pid ∈ seenPid) →
          ∀ pid, pid ∈ seen ↔ pid ∈ ((r.pid, r.comm) :: pre).map Prod.fst := by
        intro seen hseen pid
        rw [hseen pid, List.map_cons, List.mem_cons, hpid pid]
      have hdoneNext : ∀ r' ∈ r :: done, r'.pid ∈ ((r.pid, r.comm) :: pre).map Prod.fst := by
        intro r' hr'
        rcases List.mem_cons.1 hr' with rfl | hr'
        · exact List.mem_cons_self ..
        · exact List.mem_cons_of_mem _ (hdone r' hr')
      simp only [TraceWriter.aisDescriptors, List.map_cons]
      by_cases hseen : str (toString r.pid) ++ str ":" ++ r.pcieId ∈ seenTrack
      · -- A device seen before: its process was too.
        obtain ⟨r', hr', hdev⟩ := List.mem_map.1 (hkey.1 hseen)
        have hsame : r'.pid = r.pid := congrArg Prod.fst hdev
        have hmem : r.pid ∈ pre.map Prod.fst := hsame ▸ hdone r' hr'
        rw [if_pos hseen, firsts_cons_of_mem hmem, firsts_cons_of_mem (hkey.1 hseen)]
        refine ih seenPid seenTrack _ _ (hpidNext seenPid ?_) ?_ hdoneNext
        · intro pid
          exact ⟨.inr, fun h => h.elim (fun heq => heq ▸ (hpid r.pid).2 hmem) id⟩
        · intro key
          rw [List.map_cons, List.mem_cons, ← htrack key]
          exact ⟨.inr, fun h => h.elim (fun heq => heq ▸ hseen) id⟩
      · have htrackNext : ∀ key, key ∈ (str (toString r.pid) ++ str ":" ++ r.pcieId) :: seenTrack ↔
            key ∈ (r :: done).map (fun r => str (toString r.pid) ++ str ":" ++ r.pcieId) := by
          intro key
          rw [List.map_cons, List.mem_cons, List.mem_cons, htrack key]
        rw [if_neg hseen, firsts_cons_of_notMem (mt hkey.2 hseen)]
        by_cases hold : r.pid ∈ seenPid
        · obtain ⟨hprocs, htracks, hevents⟩ := ih seenPid _ _ (r :: done)
            (hpidNext seenPid (fun pid => ⟨.inr, fun h => h.elim (fun heq => heq ▸ hold) id⟩))
            htrackNext hdoneNext
          rw [firsts_cons_of_mem ((hpid r.pid).1 hold), if_pos hold, if_pos hold]
          refine ⟨?_, ?_, ?_⟩
          · simpa [List.filterMap_cons, TracePacket.process?] using hprocs
          · simpa [List.filterMap_cons, TracePacket.track?, aisTrack] using htracks
          · simpa [TracePacket.isEvent] using hevents
        · obtain ⟨hprocs, htracks, hevents⟩ := ih (r.pid :: seenPid) _ _ (r :: done)
            (hpidNext (r.pid :: seenPid) (fun pid => List.mem_cons)) htrackNext hdoneNext
          rw [firsts_cons_of_notMem (mt (hpid r.pid).2 hold), if_neg hold, if_neg hold]
          refine ⟨?_, ?_, ?_⟩
          · simpa [List.filterMap_cons, TracePacket.process?, TraceWriter.processPacket, processOf]
              using hprocs
          · simpa [List.filterMap_cons, TracePacket.track?, TraceWriter.processPacket, aisTrack]
              using htracks
          · simpa [TracePacket.isEvent, TraceWriter.processPacket] using hevents

/-! ## Events -/

/-- Both events of every record of a kind. -/
def Drawing.eventsOf {R : Type} (d : Drawing R) (rs : List R) : List TracePacket :=
  rs.flatMap (fun r => (d.evs r).map d.packet)

theorem Drawing.packets_spec {R : Type} (d : Drawing R) (rs : List R) :
    (d.packets rs).filterMap TracePacket.process? = [] ∧
      (d.packets rs).filterMap TracePacket.track? = [] ∧
      (d.packets rs).filter TracePacket.isEvent = d.packets rs ∧
      (d.packets rs).Perm (d.eventsOf rs) := by
  refine ⟨?_, ?_, ?_, ?_⟩
  · rw [packets, List.filterMap_map]
    exact List.filterMap_eq_nil_iff.2 (fun _ _ => rfl)
  · rw [packets, List.filterMap_map]
    exact List.filterMap_eq_nil_iff.2 (fun _ _ => rfl)
  · rw [packets, List.filter_eq_self]
    intro pkt hpkt
    obtain ⟨e, -, rfl⟩ := List.mem_map.1 hpkt
    rfl
  · have hsorted : (d.sortedEvs rs).Perm (rs.flatMap d.evs) := List.perm_insertionSort _ _
    rw [eventsOf, ← List.map_flatMap]
    exact hsorted.map d.packet

end HsaSnoop
