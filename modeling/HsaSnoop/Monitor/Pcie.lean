import HsaSnoop.Library.Memo
import HsaSnoop.Model.Numerals
import HsaSnoop.Model.Records

set_option autoImplicit false

/-! # The device behind an AIS operation

`resolvePcieDeviceInfo` finds the PCI device behind a descriptor of a process: from the device number of
the file up the sysfs hierarchy to a directory named like a PCI slot, whose ids and class tell what it is.
It answers from a table by pid and descriptor number, in which nothing is ever replaced.

`pcieDeviceInfo` is the resolution itself. `attributed_iff` says for every sequence of operations, each
with the system as it is then, when the table makes no difference. -/

namespace HsaSnoop

/-! ## The system -/

/-- `struct stat`. -/
structure Stat where
  isBlk : Bool
  dev : Nat
  rdev : Nat
  deriving DecidableEq, Repr

/-- What the system calls of a resolution return, at one instant. -/
structure SysView where
  stat : (path : Bytes) → Option Stat
  realpath : (path : Bytes) → Option Bytes
  /-- The first line of a file, if it can be opened. -/
  firstLine : (path : Bytes) → Option Bytes

def devMajor (dev : Nat) : Nat :=
  u32 (((dev &&& 0xfff00) >>> 8) ||| ((dev &&& 0xfffff00000000000) >>> 32))

def devMinor (dev : Nat) : Nat := u32 ((dev &&& 0xff) ||| ((dev &&& 0xffffff00000) >>> 12))

/-! ## Classification -/

def toLower (c : UInt8) : UInt8 := if 65 ≤ c ∧ c ≤ 90 then c + 32 else c

/-- One line of a file, without `0x` and in lower case; empty if there is none. -/
def readSysfsStr (sys : SysView) (path : Bytes) : Bytes :=
  match sys.firstLine path with
  | none => []
  | some s =>
      let s := if s.length > 2 ∧ s[0]? = some 48 ∧ (s[1]? = some 120 ∨ s[1]? = some 88) then s.drop 2 else s
      s.map toLower

/-- Base class and subclass, and the type of such devices. -/
def kClassCodes : List (Bytes × Bytes) :=
  [(str "0108", str "nvme"), (str "0107", str "sas"), (str "0106", str "sata"), (str "0104", str "raid"),
    (str "0c06", str "rdma"), (str "0c07", str "rdma"), (str "0200", str "eth"), (str "0207", str "rdma")]

def classifyByClassCode (cls : Bytes) : Bytes :=
  if cls.length ≥ 6 then (kClassCodes.lookup (cls.take 4)).getD [] else []

/-- Vendors, and the type of their devices; empty where the vendor does not tell. -/
def kVendorIds : List (Bytes × Bytes) :=
  [(str "15b3", str "rdma"), (str "1425", str "rdma"), (str "8086", []), (str "14e4", []),
    (str "1d0f", str "rdma"), (str "0x1dd8", str "rdma"), (str "1dd8", str "rdma"), (str "1077", str "rdma"),
    (str "10ee", str "rdma"), (str "1924", str "rdma")]

def classifyByVendorId (vid : Bytes) : Bytes := (kVendorIds.lookup vid).getD []

def isXDigit (c : UInt8) : Bool := (digitValue? c).any (· < 16)

/-- The vendor of a line of `pci.ids`: id and name. -/
def vendorLine? (line : Bytes) : Option (Bytes × Bytes) :=
  if line = [] ∨ line.head? = some 35 ∨ line.head? = some 9 then none
  else if line.length < 6 then none
  else if (line.take 4).all isXDigit = false then none
  else
    let name := (line.drop 4).dropWhile (fun c => c = 32 || c = 9)
    if name = [] then none else some (line.take 4, name)

/-- `VendorName`, with the lines of `pci.ids`; the last line of a vendor counts. -/
def vendorName (pciIds : List Bytes) (vid : Bytes) : Bytes :=
  ((pciIds.filterMap vendorLine?).reverse.lookup vid).getD (str "unknown")

/-! ## Resolution -/

/-- `DDDD:BB:SS.F`: two colons, and a dot. -/
def isBdf (name : Bytes) : Prop := name.length > 8 ∧ name.count 58 = 2 ∧ 46 ∈ name

instance (name : Bytes) : Decidable (isBdf name) :=
  inferInstanceAs (Decidable (_ ∧ _ ∧ _))

/-- Walk up the hierarchy to a directory that is named like a slot: its name and its path. -/
def findBdf (sys : SysView) : (depth : Nat) → (sysDev : Bytes) → Option (Bytes × Bytes)
  | 0, _ => none
  | depth + 1, sysDev =>
      match sys.realpath sysDev with
      | none => none
      | some real =>
          match rfind? 47 real with
          | none => none
          | some last =>
              let name := real.drop (last + 1)
              if isBdf name then some (name, real) else findBdf sys depth (real ++ str "/..")

/-- The device behind a descriptor, without the table. -/
def pcieDeviceInfo (pciIds : List Bytes) (sys : SysView) (pid fd : Int) : PcieDeviceInfo :=
  let info : PcieDeviceInfo := { deviceType := str "unknown", vendor := str "unknown" }
  match sys.stat (str "/proc/" ++ signedDecimal pid ++ str "/fd/" ++ signedDecimal fd) with
  | none => info
  | some st =>
      -- A block device node stands for the device itself.
      let dev := if st.isBlk then st.rdev else st.dev
      let sysBlock := str "/sys/dev/block/" ++ decimal (devMajor dev) ++ str ":" ++ decimal (devMinor dev)
      match findBdf sys 8 (sysBlock ++ str "/device") with
      | none => { info with bdf := str "unknown" }
      | some (bdf, bdfPath) =>
          let vendorId := readSysfsStr sys (bdfPath ++ str "/vendor")
          let deviceId := readSysfsStr sys (bdfPath ++ str "/device")
          let classCode := readSysfsStr sys (bdfPath ++ str "/class")
          let byClass := classifyByClassCode classCode
          let byVendor := classifyByVendorId vendorId
          { bdf := bdf
            deviceType :=
              if byClass ≠ [] then byClass else if byVendor ≠ [] then byVendor else info.deviceType
            vendor := vendorName pciIds vendorId
            vendorId := vendorId
            deviceId := deviceId
            classCode := classCode }

/-- `%d:%d`. -/
def pcieKey (pid fd : Int) : Bytes := signedDecimal pid ++ str ":" ++ signedDecimal fd

/-- The answer, and the table after it. -/
def resolvePcieDeviceInfo (pciIds : List Bytes) (cache : List (Bytes × PcieDeviceInfo)) (sys : SysView)
    (pid fd : Int) : PcieDeviceInfo × List (Bytes × PcieDeviceInfo) :=
  match cache.lookup (pcieKey pid fd) with
  | some info => (info, cache)
  | none =>
      let info := pcieDeviceInfo pciIds sys pid fd
      (info, (pcieKey pid fd, info) :: cache)

/-! ## Runs

An operation is the system as it is then, and the pid and the descriptor that are used. -/

/-- What the device behind an operation is, at the time of the operation. -/
def deviceOf (pciIds : List Bytes) (op : SysView × Int × Int) : PcieDeviceInfo :=
  pcieDeviceInfo pciIds op.1 op.2.1 op.2.2

/-- An operation is attributed to what the table says, and the table is carried on. -/
def pcieStep (pciIds : List Bytes) (cache : List (Bytes × PcieDeviceInfo)) (op : SysView × Int × Int) :
    List (Bytes × PcieDeviceInfo) × List PcieDeviceInfo :=
  let r := resolvePcieDeviceInfo pciIds cache op.1 op.2.1 op.2.2
  (r.2, [r.1])

/-- What the operations of a run are attributed to. -/
def attributions (pciIds : List Bytes) (ops : List (SysView × Int × Int)) : List PcieDeviceInfo :=
  (Trace.run (pcieStep pciIds) [] ops).2

/-- **Bytes are attributed to the right device**: to the one that an uncached resolution finds at the time
    of the operation. -/
def Attributed (pciIds : List Bytes) (ops : List (SysView × Int × Int)) : Prop :=
  attributions pciIds ops = ops.map (deviceOf pciIds)

/-- The first operation with the pid and the descriptor of an operation. -/
def firstUse (ops : List (SysView × Int × Int)) (op : SysView × Int × Int) : SysView × Int × Int :=
  (ops.find? (fun o => o.2 = op.2)).getD op

theorem pcieKey_inj {pid fd pid' fd' : Int} : pcieKey pid fd = pcieKey pid' fd' ↔ pid = pid' ∧ fd = fd' := by
  rw [pcieKey, pcieKey, show str ":" = [58] by decide, List.append_assoc, List.append_assoc,
    List.singleton_append, List.singleton_append, signedDecimal_colon_inj]
  exact and_congr_right (fun _ => ⟨signedDecimal_injective, congrArg signedDecimal⟩)

/-- The table is a memo table of the resolution. -/
theorem attributions_eq_answers (pciIds : List Bytes) (ops : List (SysView × Int × Int)) :
    attributions pciIds ops =
      Memo.answers (fun sys (arg : Int × Int) => pcieDeviceInfo pciIds sys arg.1 arg.2)
        (fun arg => pcieKey arg.1 arg.2) ops := by
  have hstep : pcieStep pciIds =
      Memo.step (fun sys (arg : Int × Int) => pcieDeviceInfo pciIds sys arg.1 arg.2)
        (fun arg => pcieKey arg.1 arg.2) := by
    funext cache op
    simp only [pcieStep, resolvePcieDeviceInfo, Memo.step]
    cases cache.lookup (pcieKey op.2.1 op.2.2) <;> rfl
  rw [attributions, hstep]
  rfl

theorem firstCall_eq_firstUse (ops : List (SysView × Int × Int)) (op : SysView × Int × Int) :
    Memo.firstCall (fun arg : Int × Int => pcieKey arg.1 arg.2) ops op = firstUse ops op := by
  have hkey : ∀ o : SysView × Int × Int,
      (pcieKey o.2.1 o.2.2 == pcieKey op.2.1 op.2.2) = decide (o.2 = op.2) := by
    intro o
    rw [beq_eq_decide, decide_eq_decide, pcieKey_inj, Prod.ext_iff]
  simp only [Memo.firstCall, firstUse, hkey]

/-- **When bytes are attributed to the right device**: exactly when the device behind each operation is
    the one that was behind the first operation with the same pid and descriptor. -/
theorem attributed_iff (pciIds : List Bytes) (ops : List (SysView × Int × Int)) :
    Attributed pciIds ops ↔ ∀ op ∈ ops, deviceOf pciIds (firstUse ops op) = deviceOf pciIds op := by
  rw [Attributed, attributions_eq_answers]
  refine Memo.answers_eq_fresh_iff ops |>.trans (forall₂_congr (fun op _ => ?_))
  rw [firstCall_eq_firstUse]
  rfl

/-- A system in which descriptor 3 of process 7 is a file on the device with the given minor number, the
    block device of a slot. -/
def fileOn (minor : Nat) (slot : String) : SysView where
  stat path := if path = str "/proc/7/fd/3" then some ⟨false, 0x10300 + minor, 0⟩ else none
  realpath path :=
    if path = str "/sys/dev/block/259:" ++ decimal minor ++ str "/device" then
      some (str "/sys/devices/pci0000:00/" ++ str slot)
    else none
  firstLine _ := none

/-- Descriptor 3 is closed, and opened again on another device. -/
theorem not_attributed_reopened :
    ¬ Attributed [] [(fileOn 0 "0000:01:00.0", 7, 3), (fileOn 1 "0000:02:00.0", 7, 3)] := by
  rw [Attributed]
  decide +kernel

end HsaSnoop
