import HsaSnoop.Library.OrdMap
import HsaSnoop.Library.SliceStack
import HsaSnoop.Model.Records
import HsaSnoop.Model.Text

set_option autoImplicit false

/-! # The Perfetto trace

`TraceWriter` buffers what the sinks deliver; `writePerfetto` turns the buffer into track descriptors
and, per kind of record, a time-ordered list of slice events. The trace is modelled as the list of its
packets, before the wire encoding. A slice event has no identity: a `sliceEnd` closes the slice of its
track that was begun last, so what the viewer shows is what `SliceStack.read` makes of the events of a
track (`readTrack`).

`stable_sort` is `List.insertionSort`; `std::hash<std::string>` is a parameter. -/

namespace HsaSnoop

/-! ## Trace packets -/

inductive DebugValue
  | string (s : Bytes)
  | uint (n : Nat)
  deriving DecidableEq, Repr

structure DebugAnnotation where
  name : Bytes
  value : DebugValue
  deriving DecidableEq, Repr

def debugStr (name : String) (val : Bytes) : DebugAnnotation := ⟨str name, .string val⟩

def debugUint (name : String) (val : Nat) : DebugAnnotation := ⟨str name, .uint val⟩

structure ProcessDescriptor where
  pid : Nat
  processName : Bytes
  deriving DecidableEq, Repr

structure TrackDescriptor where
  uuid : Nat
  name : Option Bytes := none
  process : Option ProcessDescriptor := none
  parentUuid : Option Nat := none
  deriving DecidableEq, Repr

/-- `TYPE_SLICE_BEGIN` with its name and annotations, or `TYPE_SLICE_END`. -/
inductive SliceEvent
  | sliceBegin (name : Bytes) (debug : List DebugAnnotation)
  | sliceEnd
  deriving DecidableEq, Repr

structure TrackEvent where
  trackUuid : Nat
  event : SliceEvent
  deriving DecidableEq, Repr

inductive TracePacket
  | trackDescriptor (td : TrackDescriptor)
  | trackEvent (timestamp : Time) (te : TrackEvent) (seqId : Nat)
  deriving DecidableEq, Repr

/-- The one packet sequence of the trace. -/
def kSeq : Nat := 1

/-! ## Texts and identifiers -/

/-- `Dims`, `Dims16`. -/
def dims (x y z : Nat) : Bytes :=
  snprintf 64 (decimal x ++ str " x " ++ decimal y ++ str " x " ++ decimal z)

def queueTrackUuid (uid : Nat) : Nat := u64 (0x51000000 + uid)

theorem queueTrackUuid_inj {a b : Nat} (ha : a < 2 ^ 64) (hb : b < 2 ^ 64)
    (h : queueTrackUuid a = queueTrackUuid b) : a = b := by
  unfold queueTrackUuid u64 at h
  omega

/-- AIS tracks are per process and device. -/
def aisTrackUuid (hash : Bytes → Nat) (pid : Int) (pcieId : Bytes) : Nat :=
  0xA1500000 ||| ((pid % 2 ^ 32).toNat <<< 16) ||| (hash pcieId &&& 0xFFFF)

/-! ## Slice events of one kind of record -/

/-- Minimum rendered slice width, in nanoseconds, so packets consumed within one poll are
    visible. -/
def kMinDur : Nat := 100

/-- Where a record's slice ends. -/
def sliceEnd (submitTs completeTs : Nat) : Nat :=
  if completeTs - submitTs < kMinDur then submitTs + kMinDur else completeTs

theorem lt_sliceEnd (submitTs completeTs : Nat) : submitTs < sliceEnd submitTs completeTs := by
  unfold sliceEnd kMinDur
  split <;> omega

theorem le_sliceEnd (submitTs completeTs : Nat) : completeTs ≤ sliceEnd submitTs completeTs := by
  unfold sliceEnd kMinDur
  split <;> omega

theorem sliceEnd_eq_iff {submitTs completeTs : Nat} :
    sliceEnd submitTs completeTs = completeTs ↔ submitTs + kMinDur ≤ completeTs := by
  unfold sliceEnd kMinDur
  split <;> omega

/-- How a kind of record is drawn. -/
structure Drawing (R : Type) where
  submitTs : R → Time
  completeTs : R → Time
  trackUuid : R → Nat
  name : R → Bytes
  debug : R → List DebugAnnotation

/-- One end of a record's slice. -/
structure Ev (R : Type) where
  ts : Time
  begins : Bool
  r : R

variable {R : Type}

/-- The comparison of the sort: ends before begins at equal times. -/
def Ev.before (a b : Ev R) : Bool :=
  if a.ts ≠ b.ts then decide (a.ts < b.ts) else !a.begins && b.begins

namespace Drawing

variable (d : Drawing R)

/-- Both ends of a record. -/
def evs (r : R) : List (Ev R) :=
  [⟨d.submitTs r, true, r⟩, ⟨sliceEnd (d.submitTs r) (d.completeTs r), false, r⟩]

/-- The time-ordered list of slice ends. -/
def sortedEvs (rs : List R) : List (Ev R) :=
  (rs.flatMap d.evs).insertionSort (fun a b => ¬ b.before a)

def packet (e : Ev R) : TracePacket :=
  .trackEvent e.ts
    ⟨d.trackUuid e.r, if e.begins then .sliceBegin (d.name e.r) (d.debug e.r) else .sliceEnd⟩ kSeq

/-- The events emitted for a list of records. -/
def packets (rs : List R) : List TracePacket := (d.sortedEvs rs).map d.packet

end Drawing

/-! ## The writer -/

structure TraceWriter where
  records : List PacketRecord := []
  sdmaRecords : List SdmaRecord := []
  aisRecords : List AisRecord := []
  /-- By uid. -/
  queues : OrdMap QueueInfo := ∅

namespace TraceWriter

def addPacket (w : TraceWriter) (rec : PacketRecord) : TraceWriter :=
  { w with records := w.records ++ [rec] }

def addSdma (w : TraceWriter) (rec : SdmaRecord) : TraceWriter :=
  { w with sdmaRecords := w.sdmaRecords ++ [rec] }

def addAis (w : TraceWriter) (rec : AisRecord) : TraceWriter :=
  { w with aisRecords := w.aisRecords ++ [rec] }

def registerQueue (w : TraceWriter) (q : QueueInfo) : TraceWriter :=
  { w with queues := w.queues.insert q.uid q }

/-- `queues_[uid]`: a queue that was never registered reads as the default one. -/
def queue (w : TraceWriter) (uid : Nat) : QueueInfo := (w.queues.find? uid).getD {}

/-- AQL packets, one track per queue. A vendor-specific packet is annotated like a dispatch: the
    fast-reset path of some GPUs emits dispatches as such. -/
def packetDrawing (w : TraceWriter) : Drawing PacketRecord where
  submitTs := PacketRecord.submitTs
  completeTs := PacketRecord.completeTs
  trackUuid r := queueTrackUuid r.queueUid
  name := PacketRecord.kernelName
  debug r :=
    [debugStr "type" (Aql.packetTypeName r.type), debugUint "dispatch_id" r.dispatchId] ++
    (if r.type = .kernelDispatch ∨ r.type = .vendorSpecific then
      [debugStr "grid" (dims r.gridX r.gridY r.gridZ),
        debugStr "workgroup" (dims r.wgX r.wgY r.wgZ),
        debugUint "kernel_object" r.kernelObject,
        debugUint "group_seg" r.groupSeg,
        debugUint "private_seg" r.privateSeg,
        debugUint "completion_signal" r.completionSignal]
    else []) ++
    (if (w.queue r.queueUid).ringPhys ≠ 0 then
      [debugUint "ring_phys" (w.queue r.queueUid).ringPhys]
    else [])

/-- SDMA packets, on the same per-queue tracks. -/
def sdmaDrawing : Drawing SdmaRecord where
  submitTs := SdmaRecord.submitTs
  completeTs := SdmaRecord.completeTs
  trackUuid r := queueTrackUuid r.queueUid
  name := SdmaRecord.opName
  debug r :=
    [debugUint "opcode" r.opcode.toNat, debugUint "seq" r.seq] ++
    (if r.isCopy then
      [debugUint "bytes" r.bytes, debugStr "direction" (copyDirName r.dir),
        debugUint "src" r.srcAddr, debugUint "dst" r.dstAddr]
    else [])

/-- AIS ioctls, one track per process and device. -/
def aisDrawing (hash : Bytes → Nat) : Drawing AisRecord where
  submitTs := AisRecord.submitTs
  completeTs := AisRecord.completeTs
  trackUuid r := aisTrackUuid hash r.pid r.pcieId
  name r := str "ais/" ++ aisOpName r.op
  debug r :=
    [debugStr "op" (aisOpName r.op), debugUint "gpu_id" r.gpuId, debugStr "pcie_id" r.pcieId,
      debugUint "size_req" r.sizeReq, debugUint "size_copied" r.sizeCopied] ++
    (if r.isError then [debugStr "error" (str (toString r.error))] else []) ++
    [debugUint "seq" r.seq]

def processPacket (pid : Int) (comm : Bytes) : TracePacket :=
  .trackDescriptor { uuid := u64OfInt pid, process := some ⟨u64OfInt pid, comm⟩ }

/-- Descriptors of the registered queues: a process track the first time a pid is seen, a child
    track per queue. Returns the pids seen. -/
def queueDescriptors : List QueueInfo → List Int → List TracePacket × List Int
  | [], seenPid => ([], seenPid)
  | q :: qs, seenPid =>
      let proc := if q.pid ∈ seenPid then [] else [processPacket q.pid q.comm]
      let label := snprintf 128 (str (if q.isSdma then "sdma" else "aql") ++ str " queue " ++
        decimal q.uid ++ str " (gpu " ++ decimal q.gpuId ++ str ")")
      let child := TracePacket.trackDescriptor
        { uuid := queueTrackUuid q.uid, name := some label, parentUuid := some (u64OfInt q.pid) }
      let rest := queueDescriptors qs (if q.pid ∈ seenPid then seenPid else q.pid :: seenPid)
      (proc ++ [child] ++ rest.1, rest.2)

/-- Descriptors of the AIS tracks, the first time a (pid, device) pair is seen. `seenPid` are the
    pids that have a process track already. -/
def aisDescriptors (hash : Bytes → Nat) : List AisRecord → (seenPid : List Int) →
    (seenTrack : List Bytes) → List TracePacket
  | [], _, _ => []
  | r :: rs, seenPid, seenTrack =>
      let key := str (toString r.pid) ++ str ":" ++ r.pcieId
      if key ∈ seenTrack then aisDescriptors hash rs seenPid seenTrack
      else
        let proc := if r.pid ∈ seenPid then [] else [processPacket r.pid r.comm]
        let label := snprintf 256 (str "ais [gpu " ++ decimal r.gpuId ++ str "] [" ++
          cStr r.pcieId ++ str "]")
        let child := TracePacket.trackDescriptor
          { uuid := aisTrackUuid hash r.pid r.pcieId, name := some label
            parentUuid := some (u64OfInt r.pid) }
        proc ++ [child] ++ aisDescriptors hash rs
          (if r.pid ∈ seenPid then seenPid else r.pid :: seenPid) (key :: seenTrack)

/-- The packets of the trace file, and the writer afterwards: drawing an AQL packet looks its queue
    up with `queues_[uid]`, which enters an unregistered one. -/
def writePerfetto (w : TraceWriter) (hash : Bytes → Nat) : List TracePacket × TraceWriter :=
  let descriptors := queueDescriptors (w.queues.entries.map Prod.snd) []
  (descriptors.1 ++ w.packetDrawing.packets w.records ++ sdmaDrawing.packets w.sdmaRecords ++
      aisDescriptors hash w.aisRecords descriptors.2 [] ++ (aisDrawing hash).packets w.aisRecords,
    { w with queues := w.records.foldl (fun qs r => qs.emplace r.queueUid {}) w.queues })

end TraceWriter

end HsaSnoop
