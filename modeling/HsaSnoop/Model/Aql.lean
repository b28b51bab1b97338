import HsaSnoop.Model.Machine

set_option autoImplicit false

/-! # AQL packet formats

Every AQL packet is a 64-byte slot; the low byte of its first 16-bit word is the packet type, which
the producer writes last. The three layouts are views of the same 64 bytes (`ofRaw`): which of them a
slot carries is only said by the header. -/

namespace HsaSnoop.Aql

/-- All AQL packets are 64 bytes. -/
def kPacketSize : Nat := 64

/-- `hsa_packet_type_t`. The field is a byte, so a slot can also hold a code the enumeration has no
    name for. -/
inductive PacketType
  | vendorSpecific
  | invalid
  | kernelDispatch
  | barrierAnd
  | agentDispatch
  | barrierOr
  | unnamed (code : Nat)
  deriving DecidableEq, Repr

/-- `static_cast<PacketType>` of a byte. -/
def PacketType.ofCode : Nat → PacketType
  | 0 => .vendorSpecific
  | 1 => .invalid
  | 2 => .kernelDispatch
  | 3 => .barrierAnd
  | 4 => .agentDispatch
  | 5 => .barrierOr
  | code => .unnamed code

def packetTypeName : PacketType → Bytes
  | .vendorSpecific => str "vendor_specific"
  | .invalid => str "invalid"
  | .kernelDispatch => str "kernel_dispatch"
  | .barrierAnd => str "barrier_and"
  | .agentDispatch => str "agent_dispatch"
  | .barrierOr => str "barrier_or"
  | .unnamed _ => str "unknown"

/-! ## The header -/

def kHeaderTypeShift : Nat := 0
def kHeaderBarrierShift : Nat := 8

def headerType (header : Nat) : PacketType :=
  .ofCode ((header >>> kHeaderTypeShift) &&& 0xFF)

def headerBarrier (header : Nat) : Bool := (header >>> kHeaderBarrierShift) &&& 0x1 != 0

/-- The 16-bit header of a slot. -/
def rawHeader (raw : Nat → UInt8) : Nat := leNat raw 0 2

/-- The packet type a slot shows. -/
def rawType (raw : Nat → UInt8) : PacketType := headerType (rawHeader raw)

/-! ## The layouts -/

/-- `hsa_kernel_dispatch_packet_t`, the fields behind the header that are read. -/
structure KernelDispatchPacket where
  workgroupSizeX : Nat
  workgroupSizeY : Nat
  workgroupSizeZ : Nat
  gridSizeX : Nat
  gridSizeY : Nat
  gridSizeZ : Nat
  privateSegmentSize : Nat
  groupSegmentSize : Nat
  /-- Address of the kernel descriptor. -/
  kernelObject : Nat
  kernargAddress : Nat
  /-- `hsa_signal_t` handle, 0 for none. -/
  completionSignal : Nat
  deriving DecidableEq, Repr

def KernelDispatchPacket.ofRaw (raw : Nat → UInt8) : KernelDispatchPacket where
  workgroupSizeX := leNat raw 4 2
  workgroupSizeY := leNat raw 6 2
  workgroupSizeZ := leNat raw 8 2
  gridSizeX := leNat raw 12 4
  gridSizeY := leNat raw 16 4
  gridSizeZ := leNat raw 20 4
  privateSegmentSize := leNat raw 24 4
  groupSegmentSize := leNat raw 28 4
  kernelObject := leNat raw 32 8
  kernargAddress := leNat raw 40 8
  completionSignal := leNat raw 56 8

/-- `hsa_barrier_and_packet_t` / `hsa_barrier_or_packet_t` (identical layout). -/
structure BarrierPacket where
  depSignal : Fin 5 → Nat
  completionSignal : Nat

def BarrierPacket.ofRaw (raw : Nat → UInt8) : BarrierPacket where
  depSignal i := leNat raw (8 + 8 * i) 8
  completionSignal := leNat raw 56 8

/-- `hsa_agent_dispatch_packet_t`. -/
structure AgentDispatchPacket where
  type : Nat
  returnAddress : Nat
  arg : Fin 4 → Nat
  completionSignal : Nat

def AgentDispatchPacket.ofRaw (raw : Nat → UInt8) : AgentDispatchPacket where
  type := leNat raw 2 2
  returnAddress := leNat raw 8 8
  arg i := leNat raw (16 + 8 * i) 8
  completionSignal := leNat raw 56 8

/-- The dispatch view looks at nothing in the header word. -/
theorem KernelDispatchPacket.ofRaw_congr {raw raw' : Nat → UInt8}
    (h : ∀ i, 2 ≤ i → i < kPacketSize → raw i = raw' i) :
    KernelDispatchPacket.ofRaw raw = KernelDispatchPacket.ofRaw raw' := by
  have field : ∀ off w, 2 ≤ off → off + w ≤ 64 → leNat raw off w = leNat raw' off w :=
    fun off w hlo hhi => leNat_congr (fun i hi hi' => h i (by omega) (by unfold kPacketSize; omega))
  simp only [KernelDispatchPacket.ofRaw, KernelDispatchPacket.mk.injEq]
  and_intros <;> exact field _ _ (by omega) (by omega)

end HsaSnoop.Aql
