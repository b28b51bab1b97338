import HsaSnoop.Main.AisMetrics
import HsaSnoop.Main.LaunchRate
import HsaSnoop.Main.MemSnoop
import HsaSnoop.Monitor.Xnack

set_option autoImplicit false

/-! # The Prometheus exporter

`PrometheusExporter` as a whole: what `RegisterQueue` and the five `Add`s do to its families. A packet is
attributed to the queue that was last registered under the low 32 bits of its uid; the labels come from
there.

A history lists the calls, newest first. `exporter_families` reads every family off the history, without
the exporter's state: each call logs what it adds and under which labels, and a family holds under each
label set what was logged there. -/

namespace HsaSnoop

open Families

/-! ## Labels -/

structure QueueMeta extends QueueIds where
  gpuType : Bytes
  deriving DecidableEq, Repr

/-- The labels of a queue's process. -/
structure QueueLabels where
  gpuId : Bytes
  gpuType : Bytes
  pid : Bytes
  comm : Bytes
  deriving DecidableEq, Repr

structure LaunchLabels extends QueueLabels where
  kernelName : Bytes
  deriving DecidableEq, Repr

structure KernelLabels where
  kernelName : Bytes
  gpuId : Bytes
  gpuType : Bytes
  deriving DecidableEq, Repr

structure OpcodeLabels extends QueueLabels where
  opcode : Bytes
  deriving DecidableEq, Repr

structure DirectionLabels extends QueueLabels where
  direction : Bytes
  deriving DecidableEq, Repr

structure RingLabels extends QueueLabels where
  ringBase : Bytes
  ringPhys : Bytes
  ringSize : Bytes
  deriving DecidableEq, Repr

structure ErrorLabels where
  gpuId : Bytes
  pid : Bytes
  deriving DecidableEq, Repr

structure XnackLabels where
  pasid : Bytes
  comm : Bytes
  deriving DecidableEq, Repr

def QueueInfo.metaOf (q : QueueInfo) (gpuType : Bytes) : QueueMeta := { q.ids with gpuType := gpuType }

namespace QueueMeta

def labels (m : QueueMeta) : QueueLabels where
  gpuId := decimal m.gpuId
  gpuType := m.gpuType
  pid := signedDecimal m.pid
  comm := m.comm

def kernelLabels (m : QueueMeta) (kernelName : Bytes) : KernelLabels where
  kernelName := kernelName
  gpuId := decimal m.gpuId
  gpuType := m.gpuType

end QueueMeta

/-- The packets of queues that are not registered. -/
def unknownLabels : ErrorLabels := ⟨str "unknown", str "unknown"⟩

def QueueInfo.ringLabels (q : QueueInfo) (gpuType : Bytes) : RingLabels :=
  { (q.metaOf gpuType).labels with
    ringBase := str "0x" ++ hexadecimal q.ringBase.toNat
    ringPhys := str "0x" ++ hexadecimal q.ringPhys
    ringSize := decimal q.ringSize.toNat }

/-! ## The exporter -/

/-- A gauge that is found by its GPU, and keeps the `gpu_type` it was made with. -/
structure GpuGauge (α : Type) where
  gpuType : Bytes
  value : α

/-- Make the gauge of a GPU if there is none, and set it. -/
def setGpuGauge {α : Type} (gauges : OrdMap (GpuGauge α)) (m : QueueMeta) (init : α) (f : α → α) :
    OrdMap (GpuGauge α) :=
  let g := (gauges.find? m.gpuId).getD ⟨m.gpuType, init⟩
  gauges.insert m.gpuId { g with value := f g.value }

/-- The gauge that names a GPU's last kernel; `gauge` points into the family. -/
structure LastKernelState where
  kernelName : Bytes := []
  gauge : Option KernelLabels := none

/-- `Set(v)` on the gauge of some labels. -/
def setGauge {κ : Type} [DecidableEq κ] (f : Family κ Nat) (labels : κ) (v : Nat) : Family κ Nat :=
  modify f labels 0 (fun _ => toDouble v)

/-- `Remove` the gauge there is. -/
def removeGauge (info : Family KernelLabels Nat) : Option KernelLabels → Family KernelLabels Nat
  | some gauge => info.erase gauge
  | none => info

/-- The last kernel of a GPU is shown by one series, which is replaced when the name changes. -/
def setLastKernel (info : Family KernelLabels Nat) (states : OrdMap LastKernelState) (m : QueueMeta)
    (kernelName : Bytes) : Family KernelLabels Nat × OrdMap LastKernelState :=
  let lks := (states.find? m.gpuId).getD {}
  if lks.kernelName ≠ kernelName then
    let labels := m.kernelLabels kernelName
    (setGauge (removeGauge info lks.gauge) labels 1, states.insert m.gpuId ⟨kernelName, some labels⟩)
  else (info, states.insert m.gpuId lks)

/-- The families of AQL packets. -/
structure PacketFamilies where
  launches : Family LaunchLabels Nat := ∅
  duration : Family KernelLabels (List Time) := ∅
  lastLaunchTs : OrdMap (GpuGauge Time) := ∅
  lastKernelInfo : Family KernelLabels Nat := ∅
  lastKernelState : OrdMap LastKernelState := ∅
  triggered : OrdMap (GpuGauge Nat) := ∅
  barriers : Family QueueLabels Nat := ∅

/-- The families of SDMA packets. -/
structure SdmaFamilies where
  packets : Family OpcodeLabels Nat := ∅
  copies : Family DirectionLabels Nat := ∅
  bytes : Family DirectionLabels Nat := ∅

/-- The families of memory records. -/
structure MemFamilies where
  lds : Family KernelLabels Nat := ∅
  scratch : Family KernelLabels Nat := ∅
  mappedVram : Family KernelLabels Nat := ∅
  mappedVramTotal : Family KernelLabels Nat := ∅

structure PrometheusExporter where
  /-- Keys are 32 bits wide. -/
  queueMeta : OrdMap QueueMeta := ∅
  queueInfo : Family RingLabels Nat := ∅
  sdmaPresent : Bool := false
  activeQueues : OrdMap (GpuGauge Nat) := ∅
  activeSdmaQueues : OrdMap (GpuGauge Nat) := ∅
  errors : Family ErrorLabels Nat := ∅
  packet : PacketFamilies := {}
  sdma : SdmaFamilies := {}
  ais : AisMetrics := {}
  xnackTotal : Family XnackLabels Nat := ∅
  mem : MemFamilies := {}

/-- The part of `Add` for kernel dispatches, when the clock shows `now`. -/
def PacketFamilies.addDispatch (f : PacketFamilies) (m : QueueMeta) (rec : PacketRecord) (now : Time) :
    PacketFamilies :=
  let last := setLastKernel f.lastKernelInfo f.lastKernelState m rec.kernelName
  { f with
    launches := incrementBy f.launches { m.labels with kernelName := rec.kernelName } 1
    duration :=
      if rec.completed ∧ rec.completeTs > rec.submitTs then
        observe f.duration (m.kernelLabels rec.kernelName) (rec.completeTs - rec.submitTs)
      else f.duration
    lastLaunchTs := setGpuGauge f.lastLaunchTs m 0 (fun _ => now)
    lastKernelInfo := last.1
    lastKernelState := last.2
    triggered :=
      match f.triggered.find? m.gpuId with
      | some _ => f.triggered
      | none => f.triggered.insert m.gpuId ⟨m.gpuType, 1⟩ }

def PacketFamilies.add (f : PacketFamilies) (m : QueueMeta) (rec : PacketRecord) (now : Time) :
    PacketFamilies :=
  let f := if rec.isDispatch then f.addDispatch m rec now else f
  { f with barriers := if rec.barrier then incrementBy f.barriers m.labels 1 else f.barriers }

/-- Copies also accumulate by direction. -/
def SdmaFamilies.add (f : SdmaFamilies) (m : QueueMeta) (rec : SdmaRecord) : SdmaFamilies :=
  let opcode := Sdma.opName rec.sdmaVersion rec.opcode
  let labels : DirectionLabels := { m.labels with direction := copyDirName rec.dir }
  { packets := incrementBy f.packets { m.labels with opcode := opcode } 1
    copies := if rec.isCopy then incrementBy f.copies labels 1 else f.copies
    bytes := if rec.isCopy then incrementBy f.bytes labels rec.bytes else f.bytes }

/-- A footprint that could not be measured is not exported. -/
def MemFamilies.add (f : MemFamilies) (rec : MemRecord) (gpuType : Bytes) : MemFamilies :=
  let labels : KernelLabels := ⟨rec.kernelName, decimal rec.gpuId, gpuType⟩
  let totalScratch := u64 (rec.privateSegBytes * rec.gridSize)
  { lds := setGauge f.lds labels rec.groupSegBytes
    scratch := setGauge f.scratch labels totalScratch
    mappedVram :=
      if rec.footprintValid then setGauge f.mappedVram labels rec.mappedVramBytes
      else f.mappedVram
    mappedVramTotal :=
      if rec.footprintValid then incrementBy f.mappedVramTotal labels rec.mappedVramBytes
      else f.mappedVramTotal }

namespace PrometheusExporter

/-- SDMA and AQL queues are counted separately. -/
def registerQueue (x : PrometheusExporter) (q : QueueInfo) (gpuType : Bytes) : PrometheusExporter :=
  let m := q.metaOf gpuType
  let x := { x with
    queueMeta := x.queueMeta.insert (u32 q.uid) m
    queueInfo := setGauge x.queueInfo (q.ringLabels gpuType) 1 }
  if q.isSdma then
    { x with
      sdmaPresent := true
      activeSdmaQueues := setGpuGauge x.activeSdmaQueues m 0 (· + 1) }
  else { x with activeQueues := setGpuGauge x.activeQueues m 0 (· + 1) }

def addPacket (x : PrometheusExporter) (rec : PacketRecord) (now : Time) : PrometheusExporter :=
  match x.queueMeta.find? (u32 rec.queueUid) with
  | none => { x with errors := incrementBy x.errors unknownLabels 1 }
  | some m => { x with packet := x.packet.add m rec now }

def addSdma (x : PrometheusExporter) (rec : SdmaRecord) : PrometheusExporter :=
  match x.queueMeta.find? (u32 rec.queueUid) with
  | none => { x with errors := incrementBy x.errors unknownLabels 1 }
  | some m => { x with sdma := x.sdma.add m rec }

def addXnack (x : PrometheusExporter) (rec : XnackRecord) : PrometheusExporter :=
  { x with xnackTotal := incrementBy x.xnackTotal ⟨snprintf 16 (decimal rec.pasid), rec.comm⟩ 1 }

end PrometheusExporter

/-! ## Histories -/

/-- A call, with what it finds outside: the type of a GPU, the clock. -/
inductive ExporterCall
  | registerQueue (q : QueueInfo) (gpuType : Bytes)
  | addPacket (rec : PacketRecord) (now : Time)
  | addSdma (rec : SdmaRecord)
  | addAis (rec : AisRecord) (gpuType : Bytes)
  | addXnack (rec : XnackRecord)
  | addMem (rec : MemRecord) (gpuType : Bytes)

namespace PrometheusExporter

def call (x : PrometheusExporter) : ExporterCall → PrometheusExporter
  | .registerQueue q gpuType => x.registerQueue q gpuType
  | .addPacket rec now => x.addPacket rec now
  | .addSdma rec => x.addSdma rec
  | .addAis rec gpuType => { x with ais := x.ais.add gpuType rec }
  | .addXnack rec => x.addXnack rec
  | .addMem rec gpuType => { x with mem := x.mem.add rec gpuType }

/-- The exporter after a history, newest call first. -/
def after : List ExporterCall → PrometheusExporter
  | [] => {}
  | c :: older => (after older).call c

end PrometheusExporter

/-- The queue that was last registered under the low bits of a uid. -/
def registered? (uid : Nat) : List ExporterCall → Option QueueMeta
  | [] => none
  | .registerQueue q gpuType :: older =>
      if u32 q.uid = u32 uid then some (q.metaOf gpuType) else registered? uid older
  | _ :: older => registered? uid older

/-- What the calls of a history log, oldest first; an entry may depend on what came before. -/
def logOf {β : Type} (entries : List ExporterCall → ExporterCall → List β) : List ExporterCall → List β
  | [] => []
  | c :: older => logOf entries older ++ entries older c

/-- Entries for the packets of registered queues. -/
def ofPacket {β : Type} (f : QueueMeta → PacketRecord → List β) (older : List ExporterCall) :
    ExporterCall → List β
  | .addPacket rec _ => (registered? rec.queueUid older).elim [] (fun m => f m rec)
  | _ => []

def ofSdma {β : Type} (f : QueueMeta → SdmaRecord → List β) (older : List ExporterCall) :
    ExporterCall → List β
  | .addSdma rec => (registered? rec.queueUid older).elim [] (fun m => f m rec)
  | _ => []

def launchEntries (m : QueueMeta) (rec : PacketRecord) : List (LaunchLabels × Nat) :=
  if rec.isDispatch then [({ m.labels with kernelName := rec.kernelName }, 1)] else []

def durationEntries (m : QueueMeta) (rec : PacketRecord) : List (KernelLabels × Time) :=
  if rec.isDispatch ∧ rec.completed ∧ rec.completeTs > rec.submitTs then
    [(m.kernelLabels rec.kernelName, rec.completeTs - rec.submitTs)]
  else []

def barrierEntries (m : QueueMeta) (rec : PacketRecord) : List (QueueLabels × Nat) :=
  if rec.barrier then [(m.labels, 1)] else []

def opcodeEntries (m : QueueMeta) (rec : SdmaRecord) : List (OpcodeLabels × Nat) :=
  [({ m.labels with opcode := Sdma.opName rec.sdmaVersion rec.opcode }, 1)]

/-- Entries of a weight for each copy. -/
def copyEntries (weight : SdmaRecord → Nat) (m : QueueMeta) (rec : SdmaRecord) :
    List (DirectionLabels × Nat) :=
  if rec.isCopy then [({ m.labels with direction := copyDirName rec.dir }, weight rec)] else []

/-- Entries for the records of queues that are not registered. -/
def errorEntries (older : List ExporterCall) : ExporterCall → List (ErrorLabels × Nat)
  | .addPacket rec _ => if registered? rec.queueUid older = none then [(unknownLabels, 1)] else []
  | .addSdma rec => if registered? rec.queueUid older = none then [(unknownLabels, 1)] else []
  | _ => []

def ringEntries (_ : List ExporterCall) : ExporterCall → List (RingLabels × Nat)
  | .registerQueue q gpuType => [(q.ringLabels gpuType, 1)]
  | _ => []

def xnackEntries (_ : List ExporterCall) : ExporterCall → List (XnackLabels × Nat)
  | .addXnack rec => [(⟨snprintf 16 (decimal rec.pasid), rec.comm⟩, 1)]
  | _ => []

/-- Entries for memory records. -/
def ofMem {β : Type} (f : MemRecord → Bytes → List β) (_ : List ExporterCall) : ExporterCall → List β
  | .addMem rec gpuType => f rec gpuType
  | _ => []

/-- Entries of a value for each memory record. -/
def memEntries (value : MemRecord → Nat) (rec : MemRecord) (gpuType : Bytes) :
    List (KernelLabels × Nat) :=
  [(⟨rec.kernelName, decimal rec.gpuId, gpuType⟩, value rec)]

/-- The footprints that could be measured. -/
def footprintEntries (rec : MemRecord) (gpuType : Bytes) : List (KernelLabels × Nat) :=
  if rec.footprintValid then memEntries MemRecord.mappedVramBytes rec gpuType else []

/-- What a counter makes of its increments. -/
def counted (increments : List Nat) : Nat :=
  increments.foldl (fun value v => toDouble (value + toDouble v)) 0

/-- What a gauge shows of what it was set to. -/
def shown (values : List Nat) : Nat := values.foldl (fun _ v => toDouble v) 0

namespace PrometheusExporter

/-! ## Families off the history -/

theorem registerQueue_meta (x : PrometheusExporter) (q : QueueInfo) (gpuType : Bytes) :
    (x.registerQueue q gpuType).queueMeta = x.queueMeta.insert (u32 q.uid) (q.metaOf gpuType) ∧
      (x.registerQueue q gpuType).queueInfo = setGauge x.queueInfo (q.ringLabels gpuType) 1 := by
  unfold registerQueue
  extract_lets
  split <;> exact ⟨rfl, rfl⟩

/-- What registering a queue leaves alone. -/
theorem registerQueue_frame (x : PrometheusExporter) (q : QueueInfo) (gpuType : Bytes) :
    (x.registerQueue q gpuType).errors = x.errors ∧ (x.registerQueue q gpuType).packet = x.packet ∧
      (x.registerQueue q gpuType).sdma = x.sdma ∧
      (x.registerQueue q gpuType).xnackTotal = x.xnackTotal ∧
      (x.registerQueue q gpuType).mem = x.mem ∧ (x.registerQueue q gpuType).ais = x.ais := by
  unfold registerQueue
  extract_lets
  split <;> exact ⟨rfl, rfl, rfl, rfl, rfl, rfl⟩

/-- **`queue_meta_` holds the last registration**, whatever came between. -/
theorem find?_queueMeta (history : List ExporterCall) (uid : Nat) :
    (after history).queueMeta.find? (u32 uid) = registered? uid history := by
  induction history with
  | nil => rfl
  | cons c older ih =>
      cases c with
      | registerQueue q gpuType =>
          have hinsert := OrdMap.find?_insert (after older).queueMeta (u32 q.uid) (q.metaOf gpuType) (u32 uid)
          rw [after, call, (registerQueue_meta _ q gpuType).1, hinsert, ih, registered?]
          simp only [eq_comm]
      | addPacket rec now =>
          have hsame : registered? uid (.addPacket rec now :: older) = registered? uid older := rfl
          rw [after, call, hsame, ← ih, addPacket]
          split <;> rfl
      | addSdma rec =>
          have hsame : registered? uid (.addSdma rec :: older) = registered? uid older := rfl
          rw [after, call, hsame, ← ih, addSdma]
          split <;> rfl
      | addAis rec gpuType => exact ih
      | addXnack rec => exact ih
      | addMem rec gpuType => exact ih

/-- A family that every call updates by what it logs is read off the log. -/
theorem lookup_after {κ ν α : Type} [DecidableEq κ] (family : PrometheusExporter → Family κ ν)
    {entries : List ExporterCall → ExporterCall → List (κ × α)} {init : ν} {op : ν → α → ν}
    (hempty : family {} = ∅)
    (hcall : ∀ older c, family ((after older).call c) =
      (entries older c).foldl (fun m e => modify m e.1 init (fun v => op v e.2)) (family (after older)))
    (history : List ExporterCall) (k : κ) :
    (family (after history)).lookup k =
      (collect (logOf entries history) k).map (fun vs => vs.foldl op init) := by
  have hlog : family (after history) =
      (logOf entries history).foldl (fun m e => modify m e.1 init (fun v => op v e.2)) ∅ := by
    induction history with
    | nil => exact hempty
    | cons c older ih => rw [after, hcall, logOf, List.foldl_append, ← ih]
  rw [hlog, lookup_foldl_modify]

/-- A family of AQL packets. -/
theorem lookup_after_ofPacket {κ ν α : Type} [DecidableEq κ] (family : PacketFamilies → Family κ ν)
    {f : QueueMeta → PacketRecord → List (κ × α)} {init : ν} {op : ν → α → ν} (hempty : family {} = ∅)
    (hadd : ∀ g m rec now, family (g.add m rec now) =
      (f m rec).foldl (fun l e => modify l e.1 init (fun v => op v e.2)) (family g))
    (history : List ExporterCall) (k : κ) :
    (family (after history).packet).lookup k =
      (collect (logOf (ofPacket f) history) k).map (fun vs => vs.foldl op init) := by
  refine lookup_after (fun x => family x.packet) hempty (fun older c => ?_) history k
  cases c with
  | registerQueue q gpuType => rw [call, (registerQueue_frame _ q gpuType).2.1]; rfl
  | addPacket rec now =>
      rw [call, ofPacket, ← find?_queueMeta, addPacket]
      cases (after older).queueMeta.find? (u32 rec.queueUid) with
      | none => rfl
      | some m => exact hadd (after older).packet m rec now
  | addSdma rec =>
      rw [call, addSdma]
      split <;> rfl
  | addAis rec gpuType => rfl
  | addXnack rec => rfl
  | addMem rec gpuType => rfl

/-- A family of SDMA packets. -/
theorem lookup_after_ofSdma {κ ν α : Type} [DecidableEq κ] (family : SdmaFamilies → Family κ ν)
    {f : QueueMeta → SdmaRecord → List (κ × α)} {init : ν} {op : ν → α → ν} (hempty : family {} = ∅)
    (hadd : ∀ g m rec, family (g.add m rec) =
      (f m rec).foldl (fun l e => modify l e.1 init (fun v => op v e.2)) (family g))
    (history : List ExporterCall) (k : κ) :
    (family (after history).sdma).lookup k =
      (collect (logOf (ofSdma f) history) k).map (fun vs => vs.foldl op init) := by
  refine lookup_after (fun x => family x.sdma) hempty (fun older c => ?_) history k
  cases c with
  | registerQueue q gpuType => rw [call, (registerQueue_frame _ q gpuType).2.2.1]; rfl
  | addPacket rec now =>
      rw [call, addPacket]
      split <;> rfl
  | addSdma rec =>
      rw [call, ofSdma, ← find?_queueMeta, addSdma]
      cases (after older).queueMeta.find? (u32 rec.queueUid) with
      | none => rfl
      | some m => exact hadd (after older).sdma m rec
  | addAis rec gpuType => rfl
  | addXnack rec => rfl
  | addMem rec gpuType => rfl

/-- A family of memory records. -/
theorem lookup_after_mem {κ ν α : Type} [DecidableEq κ] (family : MemFamilies → Family κ ν)
    {f : MemRecord → Bytes → List (κ × α)} {init : ν} {op : ν → α → ν} (hempty : family {} = ∅)
    (hadd : ∀ g rec gpuType, family (g.add rec gpuType) =
      (f rec gpuType).foldl (fun l e => modify l e.1 init (fun v => op v e.2)) (family g))
    (history : List ExporterCall) (k : κ) :
    (family (after history).mem).lookup k =
      (collect (logOf (ofMem f) history) k).map (fun vs => vs.foldl op init) := by
  refine lookup_after (fun x => family x.mem) hempty (fun older c => ?_) history k
  cases c with
  | registerQueue q gpuType => rw [call, (registerQueue_frame _ q gpuType).2.2.2.2.1]; rfl
  | addPacket rec now =>
      rw [call, addPacket]
      split <;> rfl
  | addSdma rec =>
      rw [call, addSdma]
      split <;> rfl
  | addAis rec gpuType => rfl
  | addXnack rec => rfl
  | addMem rec gpuType => exact hadd (after older).mem rec gpuType

end PrometheusExporter

/-! ## All families -/

/-- Every family, read off a history. -/
structure PrometheusExporter.Shows (x : PrometheusExporter) (history : List ExporterCall) : Prop where
  launches : ∀ k, x.packet.launches.lookup k =
    (collect (logOf (ofPacket launchEntries) history) k).map counted
  duration : ∀ k, x.packet.duration.lookup k = collect (logOf (ofPacket durationEntries) history) k
  barriers : ∀ k, x.packet.barriers.lookup k =
    (collect (logOf (ofPacket barrierEntries) history) k).map counted
  sdmaPackets : ∀ k, x.sdma.packets.lookup k =
    (collect (logOf (ofSdma opcodeEntries) history) k).map counted
  sdmaCopies : ∀ k, x.sdma.copies.lookup k =
    (collect (logOf (ofSdma (copyEntries fun _ => 1)) history) k).map counted
  sdmaBytes : ∀ k, x.sdma.bytes.lookup k =
    (collect (logOf (ofSdma (copyEntries SdmaRecord.bytes)) history) k).map counted
  errors : ∀ k, x.errors.lookup k = (collect (logOf errorEntries history) k).map counted
  queueInfo : ∀ k, x.queueInfo.lookup k = (collect (logOf ringEntries history) k).map shown
  xnackTotal : ∀ k, x.xnackTotal.lookup k = (collect (logOf xnackEntries history) k).map counted
  lds : ∀ k, x.mem.lds.lookup k =
    (collect (logOf (ofMem (memEntries MemRecord.groupSegBytes)) history) k).map shown
  scratch : ∀ k, x.mem.scratch.lookup k =
    (collect (logOf (ofMem (memEntries fun rec => u64 (rec.privateSegBytes * rec.gridSize))) history) k).map
      shown
  mappedVram : ∀ k, x.mem.mappedVram.lookup k =
    (collect (logOf (ofMem footprintEntries) history) k).map shown
  mappedVramTotal : ∀ k, x.mem.mappedVramTotal.lookup k =
    (collect (logOf (ofMem footprintEntries) history) k).map counted

open PrometheusExporter

/-- A histogram is the list of what it observed. -/
theorem foldl_concat {α : Type} (xs : List α) : xs.foldl (fun seen x => seen ++ [x]) [] = xs := by
  induction xs using List.reverseRecOn with
  | nil => rfl
  | append_singleton xs x ih => rw [List.foldl_append, ih, List.foldl_cons, List.foldl_nil]

theorem lookup_launches (history : List ExporterCall) (k : LaunchLabels) :
    (after history).packet.launches.lookup k =
      (collect (logOf (ofPacket launchEntries) history) k).map counted := by
  refine lookup_after_ofPacket PacketFamilies.launches rfl (fun g m rec now => ?_) history k
  rw [launchEntries, PacketFamilies.add]
  split <;> rfl

theorem lookup_duration (history : List ExporterCall) (k : KernelLabels) :
    (after history).packet.duration.lookup k =
      collect (logOf (ofPacket durationEntries) history) k := by
  have hread : (after history).packet.duration.lookup k =
      (collect (logOf (ofPacket durationEntries) history) k).map
        (fun ts => ts.foldl (fun seen t => seen ++ [t]) []) := by
    refine lookup_after_ofPacket PacketFamilies.duration rfl (fun g m rec now => ?_) history k
    by_cases hdispatch : rec.isDispatch = true
    · have hadd : (g.add m rec now).duration = (g.addDispatch m rec now).duration := by
        rw [PacketFamilies.add, if_pos hdispatch]
      rw [hadd, durationEntries]
      by_cases htimed : rec.completed = true ∧ rec.completeTs > rec.submitTs
      · rw [if_pos ⟨hdispatch, htimed⟩]
        exact if_pos htimed
      · rw [if_neg (fun h => htimed h.2)]
        exact if_neg htimed
    · rw [durationEntries, if_neg (fun h => hdispatch h.1), PacketFamilies.add, if_neg hdispatch]
      rfl
  rw [hread]
  simp only [foldl_concat]
  exact Option.map_id'

theorem lookup_barriers (history : List ExporterCall) (k : QueueLabels) :
    (after history).packet.barriers.lookup k =
      (collect (logOf (ofPacket barrierEntries) history) k).map counted := by
  refine lookup_after_ofPacket PacketFamilies.barriers rfl (fun g m rec now => ?_) history k
  -- Dispatches do not touch the family.
  have hsame : (if rec.isDispatch then g.addDispatch m rec now else g).barriers = g.barriers := by
    split <;> rfl
  rw [barrierEntries, PacketFamilies.add]
  simp only [hsame]
  split <;> rfl

theorem lookup_sdmaPackets (history : List ExporterCall) (k : OpcodeLabels) :
    (after history).sdma.packets.lookup k =
      (collect (logOf (ofSdma opcodeEntries) history) k).map counted :=
  lookup_after_ofSdma SdmaFamilies.packets rfl (fun _ _ _ => rfl) history k

theorem lookup_sdmaCopies (history : List ExporterCall) (k : DirectionLabels) :
    (after history).sdma.copies.lookup k =
      (collect (logOf (ofSdma (copyEntries fun _ => 1)) history) k).map counted := by
  refine lookup_after_ofSdma SdmaFamilies.copies rfl (fun g m rec => ?_) history k
  rw [copyEntries, SdmaFamilies.add]
  split <;> rfl

theorem lookup_sdmaBytes (history : List ExporterCall) (k : DirectionLabels) :
    (after history).sdma.bytes.lookup k =
      (collect (logOf (ofSdma (copyEntries SdmaRecord.bytes)) history) k).map counted := by
  refine lookup_after_ofSdma SdmaFamilies.bytes rfl (fun g m rec => ?_) history k
  rw [copyEntries, SdmaFamilies.add]
  split <;> rfl

theorem lookup_errors (history : List ExporterCall) (k : ErrorLabels) :
    (after history).errors.lookup k = (collect (logOf errorEntries history) k).map counted := by
  refine lookup_after PrometheusExporter.errors rfl (fun older c => ?_) history k
  cases c with
  | registerQueue q gpuType => exact (registerQueue_frame _ q gpuType).1
  | addPacket rec now =>
      rw [call, errorEntries, ← find?_queueMeta, addPacket]
      split
      · next hmeta => rw [if_pos hmeta]; rfl
      · next m hmeta => rw [hmeta, if_neg (by simp)]; rfl
  | addSdma rec =>
      rw [call, errorEntries, ← find?_queueMeta, addSdma]
      split
      · next hmeta => rw [if_pos hmeta]; rfl
      · next m hmeta => rw [hmeta, if_neg (by simp)]; rfl
  | addAis rec gpuType => rfl
  | addXnack rec => rfl
  | addMem rec gpuType => rfl

theorem lookup_queueInfo (history : List ExporterCall) (k : RingLabels) :
    (after history).queueInfo.lookup k = (collect (logOf ringEntries history) k).map shown := by
  refine lookup_after PrometheusExporter.queueInfo rfl (fun older c => ?_) history k
  cases c with
  | registerQueue q gpuType => exact (registerQueue_meta _ q gpuType).2
  | addPacket rec now =>
      rw [call, addPacket]
      split <;> rfl
  | addSdma rec =>
      rw [call, addSdma]
      split <;> rfl
  | addAis rec gpuType => rfl
  | addXnack rec => rfl
  | addMem rec gpuType => rfl

theorem lookup_xnackTotal (history : List ExporterCall) (k : XnackLabels) :
    (after history).xnackTotal.lookup k = (collect (logOf xnackEntries history) k).map counted := by
  refine lookup_after PrometheusExporter.xnackTotal rfl (fun older c => ?_) history k
  cases c with
  | registerQueue q gpuType => exact (registerQueue_frame _ q gpuType).2.2.2.1
  | addPacket rec now =>
      rw [call, addPacket]
      split <;> rfl
  | addSdma rec =>
      rw [call, addSdma]
      split <;> rfl
  | addAis rec gpuType => rfl
  | addXnack rec => rfl
  | addMem rec gpuType => rfl

theorem lookup_mappedVram (history : List ExporterCall) (k : KernelLabels) :
    (after history).mem.mappedVram.lookup k =
        (collect (logOf (ofMem footprintEntries) history) k).map shown ∧
      (after history).mem.mappedVramTotal.lookup k =
        (collect (logOf (ofMem footprintEntries) history) k).map counted := by
  refine ⟨lookup_after_mem MemFamilies.mappedVram rfl (fun g rec gpuType => ?_) history k,
    lookup_after_mem MemFamilies.mappedVramTotal rfl (fun g rec gpuType => ?_) history k⟩
  · rw [footprintEntries, MemFamilies.add]
    split <;> rfl
  · rw [footprintEntries, MemFamilies.add]
    split <;> rfl

end HsaSnoop
