import HsaSnoop.Model.Aql
import HsaSnoop.Model.Sdma

set_option autoImplicit false

/-! # Queues and the records observed on them

The data model shared by the ring parser and its consumers: a discovered queue, one AQL packet, one
SDMA packet. Times are host-clock readings in whole nanoseconds (the source keeps seconds in a
`double`); the parser only copies and the consumers only compare them. -/

namespace HsaSnoop

/-- A host-clock reading, in nanoseconds. -/
abbrev Time := Nat

/-! ## Queues -/

/-- A queue discovered through the create-queue ioctl. -/
structure QueueInfo where
  pid : Int := 0
  comm : Bytes := []
  /-- User VA of the ring buffer, in the address space of `pid`. -/
  ringBase : UInt64 := 0
  wptrAddr : UInt64 := 0
  rptrAddr : UInt64 := 0
  /-- Ring buffer size in bytes. -/
  ringSize : UInt32 := 0
  gpuId : Nat := 0
  qtype : Nat := 0
  sdmaVersion : Sdma.Version := .unknown
  createTs : Time := 0
  ringPhys : Nat := 0
  /-- Stable per-run identifier. -/
  uid : Nat := 0
  deriving DecidableEq, Repr

namespace QueueInfo

def numSlots (q : QueueInfo) : Nat :=
  if q.ringSize ≠ 0 then q.ringSize.toNat / Aql.kPacketSize else 0

/-- Ring size in dwords: SDMA packets are walked dword by dword, not in 64-byte slots. -/
def numDwords (q : QueueInfo) : Nat := q.ringSize.toNat / 4

theorem numSlots_lt (q : QueueInfo) : q.numSlots < 2 ^ 26 := by
  have h := q.ringSize.toNat_lt
  unfold numSlots Aql.kPacketSize
  split <;> omega

theorem numDwords_lt (q : QueueInfo) : q.numDwords < 2 ^ 30 := by
  have h := q.ringSize.toNat_lt
  unfold numDwords
  omega

def isAql (q : QueueInfo) : Bool := q.qtype = 2 || q.qtype = 21

def isSdma (q : QueueInfo) : Bool := q.qtype = 1 || q.qtype = 3 || q.qtype = 4

def isTraced (q : QueueInfo) : Bool := q.isAql || q.isSdma

end QueueInfo

/-! ## AQL records -/

/-- One observed AQL packet, with timing. -/
structure PacketRecord where
  queueUid : Nat := 0
  /-- Monotonic AQL packet index. -/
  dispatchId : Nat := 0
  type : Aql.PacketType := .invalid
  barrier : Bool := false
  -- Kernel dispatch fields, valid when `type` is `kernelDispatch`.
  kernelObject : Nat := 0
  kernelName : Bytes := []
  gridX : Nat := 0
  gridY : Nat := 0
  gridZ : Nat := 0
  wgX : Nat := 0
  wgY : Nat := 0
  wgZ : Nat := 0
  privateSeg : Nat := 0
  groupSeg : Nat := 0
  completionSignal : Nat := 0
  kernargAddress : Nat := 0
  submitTs : Time := 0
  completeTs : Time := 0
  completed : Bool := false
  deriving DecidableEq, Repr

/-- Copy the body of a dispatch packet into a record. -/
def PacketRecord.withDispatch (rec : PacketRecord) (p : Aql.KernelDispatchPacket)
    (kernelName : Bytes) : PacketRecord :=
  { rec with
    kernelObject := p.kernelObject
    gridX := p.gridSizeX
    gridY := p.gridSizeY
    gridZ := p.gridSizeZ
    wgX := p.workgroupSizeX
    wgY := p.workgroupSizeY
    wgZ := p.workgroupSizeZ
    privateSeg := p.privateSegmentSize
    groupSeg := p.groupSegmentSize
    completionSignal := p.completionSignal
    kernargAddress := p.kernargAddress
    kernelName := kernelName }

/-- The body fields of a record, read back as a dispatch packet. -/
def PacketRecord.body (rec : PacketRecord) : Aql.KernelDispatchPacket where
  workgroupSizeX := rec.wgX
  workgroupSizeY := rec.wgY
  workgroupSizeZ := rec.wgZ
  gridSizeX := rec.gridX
  gridSizeY := rec.gridY
  gridSizeZ := rec.gridZ
  privateSegmentSize := rec.privateSeg
  groupSegmentSize := rec.groupSeg
  kernelObject := rec.kernelObject
  kernargAddress := rec.kernargAddress
  completionSignal := rec.completionSignal

/-- Stamp a record as consumed at `now`. -/
def PacketRecord.complete (rec : PacketRecord) (now : Time) : PacketRecord :=
  { rec with completeTs := now, completed := true }

@[simp] theorem PacketRecord.body_withDispatch (rec : PacketRecord) (p : Aql.KernelDispatchPacket)
    (kernelName : Bytes) : (rec.withDispatch p kernelName).body = p := rfl

@[simp] theorem PacketRecord.body_complete (rec : PacketRecord) (now : Time) :
    (rec.complete now).body = rec.body := rfl

@[simp] theorem PacketRecord.dispatchId_complete (rec : PacketRecord) (now : Time) :
    (rec.complete now).dispatchId = rec.dispatchId := rfl

@[simp] theorem PacketRecord.type_complete (rec : PacketRecord) (now : Time) :
    (rec.complete now).type = rec.type := rfl

@[simp] theorem PacketRecord.completed_complete (rec : PacketRecord) (now : Time) :
    (rec.complete now).completed = true := rfl

/-! ## SDMA records -/

/-- Copy direction, from whether the source and destination pages are host- or device-backed. -/
inductive CopyDir
  | unknown
  | hostToDevice
  | deviceToHost
  | deviceToDevice
  | hostToHost
  deriving DecidableEq, Repr

def copyDirName : CopyDir → Bytes
  | .hostToDevice => str "h2d"
  | .deviceToHost => str "d2h"
  | .deviceToDevice => str "d2d"
  | .hostToHost => str "h2h"
  | .unknown => str "unknown"

/-- One observed SDMA packet, with timing. -/
structure SdmaRecord where
  queueUid : Nat := 0
  /-- Monotonic packet index on this queue. -/
  seq : Nat := 0
  opcode : UInt8 := 0
  subOpcode : UInt8 := 0
  sdmaVersion : Sdma.Version := .unknown
  opName : Bytes := []
  -- Copy fields, valid for linear copies.
  bytes : Nat := 0
  srcAddr : Nat := 0
  dstAddr : Nat := 0
  dir : CopyDir := .unknown
  submitTs : Time := 0
  completeTs : Time := 0
  completed : Bool := false
  deriving DecidableEq, Repr

def SdmaRecord.isCopy (rec : SdmaRecord) : Bool := Sdma.Op.ofByte? rec.opcode = some .copy

/-- Stamp a record as consumed at `now`. -/
def SdmaRecord.complete (rec : SdmaRecord) (now : Time) : SdmaRecord :=
  { rec with completeTs := now, completed := true }

/-! ## AIS records -/

/-- Direction of a storage operation (`enum kfd_ais_ops`). -/
inductive AisOp
  | unknown
  | read
  | write
  deriving DecidableEq, Repr

def aisOpName : AisOp → Bytes
  | .read => str "read"
  | .write => str "write"
  | .unknown => str "unknown"

/-- The device behind an operation. -/
structure PcieDeviceInfo where
  bdf : Bytes := []
  deviceType : Bytes := []
  vendor : Bytes := []
  vendorId : Bytes := []
  deviceId : Bytes := []
  classCode : Bytes := []
  deriving DecidableEq, Repr

/-- One storage ioctl observed through its kprobe. -/
structure AisRecord where
  seq : Nat := 0
  pid : Int := 0
  comm : Bytes := []
  op : AisOp := .unknown
  gpuId : Nat := 0
  pcieId : Bytes := []
  pcieInfo : PcieDeviceInfo := {}
  sizeReq : Nat := 0
  sizeCopied : Nat := 0
  /-- 0 on success, a negative errno on failure. -/
  error : Int := 0
  submitTs : Time := 0
  completeTs : Time := 0
  completed : Bool := false
  deriving DecidableEq, Repr

def AisRecord.isError (rec : AisRecord) : Bool := rec.error ≠ 0

end HsaSnoop
