import Mathlib.Data.List.DropRight
import Mathlib.Data.UInt
import HsaSnoop.Library.Families
import HsaSnoop.Monitor.Ais

set_option autoImplicit false

/-! # The AIS metrics

`PrometheusExporter::Add(AisRecord)` sorts a record into one of two sets of families: reads count as
received, everything else as transmitted. A family keeps one counter, or one histogram, for each set of
labels.

`ais_direction_accounting` is about the sums over all labels, from the lines of the entry probe on. -/

namespace HsaSnoop

open Families

/-! ## Counters -/

/-- `static_cast<double>`: the nearest number with 53 significant bits, of two the even one. -/
def toDouble (n : Nat) : Nat :=
  let ulp := 2 ^ (n.log2 - 52)
  let below := n / ulp
  let rest := n % ulp
  if 2 * rest < ulp ∨ (2 * rest = ulp ∧ below % 2 = 0) then below * ulp else (below + 1) * ulp

theorem toDouble_of_le {n : Nat} (h : n ≤ 2 ^ 53) : toDouble n = n := by
  rcases Nat.lt_or_eq_of_le h with h | rfl
  · have hulp : n.log2 - 52 = 0 := by
      by_cases hn : n = 0
      · subst hn
        decide
      · have hlog := (Nat.log2_lt hn).2 h
        omega
    simp [toDouble, hulp, Nat.mod_one]
  · decide

section
variable {κ : Type} [DecidableEq κ]

/-- `Increment(v)` on the counter of some labels. -/
def incrementBy (f : Family κ Nat) (labels : κ) (v : Nat) : Family κ Nat :=
  modify f labels 0 (fun value => toDouble (value + toDouble v))

/-- `Observe(x)` on the histogram of some labels, which is all that was observed. -/
def observe {α : Type} (f : Family κ (List α)) (labels : κ) (x : α) : Family κ (List α) :=
  modify f labels [] (fun seen => seen ++ [x])

/-- A counter is exact as long as its family's total fits a double. -/
theorem total_incrementBy {f : Family κ Nat} {v : Nat} (h : total id f + v ≤ 2 ^ 53) (labels : κ) :
    total id (incrementBy f labels v) = total id f + v := by
  have hzero : id (0 : Nat) = 0 := rfl
  have hvalue : (f.lookup labels).getD 0 ≤ total id f := value_le_total hzero f labels
  have hv : toDouble v = v := toDouble_of_le (by omega)
  have hsum : toDouble ((f.lookup labels).getD 0 + v) = (f.lookup labels).getD 0 + v :=
    toDouble_of_le (by omega)
  refine total_modify hzero f labels ?_
  rw [hv, hsum]
  rfl

theorem total_observe {α : Type} (f : Family κ (List α)) (labels : κ) (x : α) :
    total List.length (observe f labels x) = total List.length f + 1 := by
  have hnil : ([] : List α).length = 0 := rfl
  exact total_modify hnil f labels List.length_append

end

/-! ## Labels -/

/-- A node of the KFD topology. -/
structure TopologyNode where
  /-- The number in its `gpu_id` file, if that can be opened. -/
  gpuId : Option Nat
  /-- The first line of its `name` file, if that can be opened. -/
  name : Option Bytes

/-- The first name of a GPU in the lines `rocminfo` prints. -/
def gfxName? (line : Bytes) : Option Bytes :=
  let blank (c : UInt8) : Bool := c = 32 || c = 9
  let p := line.dropWhile blank
  let name := (p.drop 5).dropWhile blank
  if (str "Name:").isPrefixOf p ∧ (str "gfx").isPrefixOf name then
    some (name.rdropWhile (fun c => c = 10 || c = 13 || c = 32))
  else none

/-- `DetectGpuTypeFromRocminfo`, with the lines `rocminfo` printed when it was first called. -/
def detectGpuTypeFromRocminfo (rocminfo : List Bytes) : Bytes :=
  ((rocminfo.findSome? gfxName?).filter (· ≠ [])).getD (str "unknown")

/-- `DetectGpuType`: the name of the node in the topology, or what `rocminfo` says. -/
def detectGpuType (topology : List TopologyNode) (rocminfo : List Bytes) (gpuId : Nat) : Bytes :=
  match (topology.find? (fun node => node.gpuId = some gpuId)).bind TopologyNode.name with
  | some name => if name = [] then str "unknown" else name
  | none => detectGpuTypeFromRocminfo rocminfo

def orUnknown (s : Bytes) : Bytes := if s = [] then str "unknown" else s

/-- The labels that all families have. -/
structure AisLabels where
  gpuId : Bytes
  gpuType : Bytes
  pcieId : Bytes
  deviceType : Bytes
  vendor : Bytes
  deriving DecidableEq, Repr

structure AisOpsLabels extends AisLabels where
  pid : Bytes
  comm : Bytes
  deriving DecidableEq, Repr

structure AisErrorLabels extends AisLabels where
  errno : Bytes
  deriving DecidableEq, Repr

structure PcieInfoLabels where
  pcieId : Bytes
  deviceType : Bytes
  vendor : Bytes
  vendorId : Bytes
  deviceId : Bytes
  classCode : Bytes
  deriving DecidableEq, Repr

def AisRecord.labels (rec : AisRecord) (gpuType : Bytes) : AisLabels where
  gpuId := decimal rec.gpuId
  gpuType := gpuType
  pcieId := orUnknown rec.pcieId
  deviceType := orUnknown rec.pcieInfo.deviceType
  vendor := orUnknown rec.pcieInfo.vendor

def AisRecord.pcieInfoLabels (rec : AisRecord) : PcieInfoLabels where
  pcieId := orUnknown rec.pcieId
  deviceType := orUnknown rec.pcieInfo.deviceType
  vendor := orUnknown rec.pcieInfo.vendor
  vendorId := orUnknown rec.pcieInfo.vendorId
  deviceId := orUnknown rec.pcieInfo.deviceId
  classCode := orUnknown rec.pcieInfo.classCode

/-! ## The exporter -/

/-- `latency_sec`. -/
def AisRecord.latencySec (rec : AisRecord) : Time :=
  if rec.completed then rec.completeTs - rec.submitTs else 0

/-- The families of one direction. -/
structure AisFamilies where
  ops : Family AisOpsLabels Nat := ∅
  bytes : Family AisLabels Nat := ∅
  errors : Family AisErrorLabels Nat := ∅
  latency : Family AisLabels (List Time) := ∅
  ioSize : Family AisLabels (List Nat) := ∅

/-- The AIS metrics of the exporter. -/
structure AisMetrics where
  /-- `ais_active`. -/
  active : Nat := 0
  pcieInfo : Family PcieInfoLabels Nat := ∅
  rx : AisFamilies := {}
  tx : AisFamilies := {}

def AisFamilies.add (f : AisFamilies) (gpuType : Bytes) (rec : AisRecord) : AisFamilies :=
  let labels := rec.labels gpuType
  { ops := incrementBy f.ops { labels with pid := signedDecimal rec.pid, comm := rec.comm } 1
    bytes :=
      if ¬ rec.isError ∧ rec.sizeCopied > 0 then incrementBy f.bytes labels rec.sizeCopied else f.bytes
    errors :=
      if rec.isError then incrementBy f.errors { labels with errno := signedDecimal rec.error } 1
      else f.errors
    latency := if rec.completed then observe f.latency labels rec.latencySec else f.latency
    ioSize := if rec.sizeReq > 0 then observe f.ioSize labels (toDouble rec.sizeReq) else f.ioSize }

/-- `PrometheusExporter::Add(AisRecord)`. -/
def AisMetrics.add (m : AisMetrics) (gpuType : Bytes) (rec : AisRecord) : AisMetrics :=
  let isRead := rec.op = .read
  let pcieId := orUnknown rec.pcieId
  { active := 1
    pcieInfo :=
      if pcieId ≠ [] ∧ pcieId ≠ str "unknown" then modify m.pcieInfo rec.pcieInfoLabels 0 (fun _ => 1)
      else m.pcieInfo
    rx := if isRead then m.rx.add gpuType rec else m.rx
    tx := if isRead then m.tx else m.tx.add gpuType rec }

/-- The metrics after some records, with the topology as it is when each is added. -/
def aisMetrics (topology : Nat → List TopologyNode) (rocminfo : List Bytes) (records : List AisRecord) :
    AisMetrics :=
  records.foldl
    (fun m rec => m.add (detectGpuType (topology rec.seq) rocminfo rec.gpuId) rec) {}

/-! ## What a record adds -/

/-- The families a record is added to. -/
def AisMetrics.side (m : AisMetrics) (read : Bool) : AisFamilies := if read then m.rx else m.tx

def AisRecord.isRead (rec : AisRecord) : Bool := rec.op = .read

/-- The bytes a record transfers. -/
def AisRecord.transferred (rec : AisRecord) : Nat := if rec.isError then 0 else rec.sizeCopied

theorem side_add (m : AisMetrics) (gpuType : Bytes) (rec : AisRecord) (read : Bool) :
    (m.add gpuType rec).side read =
      if rec.isRead = read then (m.side read).add gpuType rec else m.side read := by
  cases read with
  | false => by_cases h : rec.op = .read <;> simp [AisMetrics.side, AisMetrics.add, AisRecord.isRead, h]
  | true => by_cases h : rec.op = .read <;> simp [AisMetrics.side, AisMetrics.add, AisRecord.isRead, h]

theorem total_bytes_add {f : AisFamilies} {rec : AisRecord}
    (h : total id f.bytes + rec.transferred ≤ 2 ^ 53) (gpuType : Bytes) :
    total id (f.add gpuType rec).bytes = total id f.bytes + rec.transferred := by
  unfold AisRecord.transferred at h ⊢
  simp only [AisFamilies.add]
  by_cases herror : rec.isError
  · rw [if_neg (fun hok => hok.1 herror), if_pos herror, Nat.add_zero]
  · rw [if_neg herror] at h ⊢
    by_cases hsize : rec.sizeCopied > 0
    · rw [if_pos ⟨herror, hsize⟩, total_incrementBy h]
    · rw [if_neg (fun hok => hsize hok.2)]
      omega

theorem total_ioSize_add (f : AisFamilies) (rec : AisRecord) (gpuType : Bytes) :
    total List.length (f.add gpuType rec).ioSize =
      total List.length f.ioSize + if rec.sizeReq > 0 then 1 else 0 := by
  simp only [AisFamilies.add]
  by_cases hsize : rec.sizeReq > 0
  · rw [if_pos hsize, if_pos hsize, total_observe]
  · rw [if_neg hsize, if_neg hsize, Nat.add_zero]

/-- **What one direction adds up to**: a measure of its families that a record adds a weight to, as long
    as it stays within a bound, is the sum of the weights of its records. -/
theorem side_aisMetrics {measure : AisFamilies → Nat} {weight : AisRecord → Nat} {bound : Nat}
    (hempty : measure {} = 0)
    (hadd : ∀ f gpuType rec, measure f + weight rec ≤ bound →
      measure (f.add gpuType rec) = measure f + weight rec)
    (topology : Nat → List TopologyNode) (rocminfo : List Bytes) (read : Bool) {records : List AisRecord}
    (hbound : ((records.filter (fun rec => rec.isRead = read)).map weight).sum ≤ bound) :
    measure ((aisMetrics topology rocminfo records).side read) =
      ((records.filter (fun rec => rec.isRead = read)).map weight).sum := by
  have hinit : measure (({} : AisMetrics).side read) = 0 := by
    cases read with
    | false => exact hempty
    | true => exact hempty
  have hrun := @measure_foldl _ _
    (fun (m : AisMetrics) rec => m.add (detectGpuType (topology rec.seq) rocminfo rec.gpuId) rec)
    (fun m => measure (m.side read)) weight (fun rec => rec.isRead = read) bound ?_ ?_ records {} ?_
  · rw [aisMetrics, hrun, hinit, Nat.zero_add]
  · intro m rec hread hle
    rw [side_add, if_pos (of_decide_eq_true hread)]
    exact hadd _ _ _ hle
  · intro m rec hread
    rw [side_add, if_neg (of_decide_eq_false hread)]
  · rw [hinit, Nat.zero_add]
    exact hbound

/-! ## From the lines to the metrics -/

/-- The entries of operations with this `op`. -/
def entriesOf (op : UInt32) (entries : List AisEntry) : List AisEntry :=
  entries.filter (fun x => x.event.op = op)

/-- The bytes some entries ask for. -/
def bytesRequested (entries : List AisEntry) : Nat :=
  (entries.map (fun x => x.event.sizeReq.toNat)).sum

/-- A double counts these entries and their bytes exactly. -/
structure WithinDouble (entries : List AisEntry) : Prop where
  count : entries.length ≤ 2 ^ 53
  bytes : bytesRequested entries ≤ 2 ^ 53

/-- The families of a direction, summed over all labels, count exactly these entries and their bytes; the
    histogram of sizes has those that ask for any. -/
structure AisFamilies.Accounts (f : AisFamilies) (entries : List AisEntry) : Prop where
  ops : total id f.ops = entries.length
  bytes : total id f.bytes = bytesRequested entries
  ioSize : total List.length f.ioSize = entries.countP (fun x => 0 < x.event.sizeReq.toNat)

/-- Related lists stay related when they are filtered by what is the same on both sides. -/
theorem map_filter_eq_of_forall₂ {α β : Type} {R : α → β → Prop} {p : α → Bool} {q : β → Bool}
    {v : α → Nat} {w : β → Nat} {l : List α} {l' : List β} (h : List.Forall₂ R l l')
    (hp : ∀ b ∈ l', ∀ a, R a b → p a = q b) (hv : ∀ a b, R a b → v a = w b) :
    (l.filter p).map v = (l'.filter q).map w := by
  induction h with
  | nil => rfl
  | @cons a b l l' hab _ ih =>
      rw [List.forall_mem_cons] at hp
      rw [List.filter_cons, List.filter_cons, hp.1 a hab]
      cases q b with
      | false => exact ih hp.2
      | true => rw [if_pos rfl, if_pos rfl, List.map_cons, List.map_cons, hv a b hab, ih hp.2]

theorem sum_map_ite {α : Type} (p : α → Prop) [DecidablePred p] (l : List α) :
    (l.map (fun a => if p a then 1 else 0)).sum = l.countP (fun a => p a) := by
  induction l with
  | nil => rfl
  | cons a l ih =>
      rw [List.map_cons, List.sum_cons, ih, List.countP_cons, Nat.add_comm]
      by_cases h : p a <;> simp [h]

theorem isRead_of_describes {rec : AisRecord} {e : AisEvent} (h : rec.Describes e) :
    rec.isRead = decide (e.op = 1) := by
  rw [AisRecord.isRead, h.op, aisOpOf, decide_eq_decide, ← UInt32.toNat_inj,
    show (1 : UInt32).toNat = 1 by decide]
  by_cases hone : e.op.toNat = 1
  · simp [hone]
  · by_cases htwo : e.op.toNat = 2 <;> simp [hone, htwo]

/-- The records of a direction are those of the entries with its `op`, and so are the sums. -/
theorem accounts_side (topology : Nat → List TopologyNode) (rocminfo : List Bytes)
    {records : List AisRecord} {entries : List AisEntry}
    (hrecords : List.Forall₂ (fun rec (x : AisEntry) => AisRecord.Describes rec x.event) records entries)
    {read : Bool} {op : UInt32}
    (hop : ∀ x ∈ entries, (decide (x.event.op = 1) = read) ↔ x.event.op = op)
    (hwithin : WithinDouble (entriesOf op entries)) :
    ((aisMetrics topology rocminfo records).side read).Accounts (entriesOf op entries) := by
  have hfilter : ∀ {v : AisRecord → Nat} {w : AisEntry → Nat},
      (∀ rec (x : AisEntry), rec.Describes x.event → v rec = w x) →
      (records.filter (fun rec => rec.isRead = read)).map v = (entriesOf op entries).map w := by
    intro v w hv
    refine map_filter_eq_of_forall₂ hrecords ?_ hv
    intro x hx rec hdescribes
    rw [isRead_of_describes hdescribes, decide_eq_decide]
    exact hop x hx
  refine ⟨?_, ?_, ?_⟩
  · have hsum : ((records.filter (fun rec => rec.isRead = read)).map (fun _ => 1)).sum =
        (entriesOf op entries).length := by
      rw [@hfilter _ (fun _ => 1) (fun _ _ _ => rfl), List.map_const', List.sum_replicate_nat,
        Nat.mul_one]
    have hbound := hwithin.count
    rw [← hsum] at hbound ⊢
    exact @side_aisMetrics (fun f => total id f.ops) (fun _ => 1) _ rfl
      (fun f gpuType rec hle => total_incrementBy hle _) topology rocminfo read records hbound
  · have hsum : ((records.filter (fun rec => rec.isRead = read)).map AisRecord.transferred).sum =
        bytesRequested (entriesOf op entries) := by
      rw [bytesRequested]
      congr 1
      refine hfilter (fun rec x hdescribes => ?_)
      rw [AisRecord.transferred, AisRecord.isError, hdescribes.noError, hdescribes.sizeCopied]
      rfl
    have hbound := hwithin.bytes
    rw [← hsum] at hbound ⊢
    exact @side_aisMetrics (fun f => total id f.bytes) AisRecord.transferred _ rfl
      (fun f gpuType rec hle => total_bytes_add hle gpuType) topology rocminfo read records hbound
  · have hsum : ((records.filter (fun rec => rec.isRead = read)).map
        (fun rec => if rec.sizeReq > 0 then 1 else 0)).sum =
          (entriesOf op entries).countP (fun x => 0 < x.event.sizeReq.toNat) := by
      rw [← sum_map_ite]
      congr 1
      refine hfilter (fun rec x hdescribes => ?_)
      rw [hdescribes.sizeReq]
    rw [← hsum]
    exact @side_aisMetrics (fun f => total List.length f.ioSize) _ _ rfl
      (fun f gpuType rec _ => total_ioSize_add f rec gpuType) topology rocminfo read records
      (Nat.le_refl _)

/-- **AIS direction accounting**: whatever the operations are and however the reads split the lines, the
    received families count exactly the operations with `op` 1 and their bytes, and so do the transmitted
    ones for `op` 2, when there are none of a third kind. -/
theorem ais_direction_accounting (host : Nat → AisHost) (pciIds : List Bytes)
    (topology : Nat → List TopologyNode) (rocminfo : List Bytes) (self : Nat) (entries : List AisEntry)
    (hnames : ∀ x ∈ entries, AisName x.comm.bytes) (chunks : List Bytes)
    (hchunks : chunks.flatten = aisStream self entries) :
    let m := aisMetrics topology rocminfo
      (aisReadLoop host pciIds (aisProbeEntry self) chunks).state.reported
    (WithinDouble (entriesOf 1 entries) → m.rx.Accounts (entriesOf 1 entries)) ∧
      ((∀ x ∈ entries, x.event.op = 1 ∨ x.event.op = 2) → WithinDouble (entriesOf 2 entries) →
        m.tx.Accounts (entriesOf 2 entries)) := by
  have hrecords := aisReadLoop_describes host pciIds self hnames hchunks
  refine ⟨fun hwithin => ?_, fun hops hwithin => ?_⟩
  · refine @accounts_side topology rocminfo _ _ hrecords true 1 (fun x _ => ?_) hwithin
    rw [decide_eq_true_iff]
  · refine @accounts_side topology rocminfo _ _ hrecords false 2 (fun x hx => ?_) hwithin
    rw [decide_eq_false_iff_not]
    constructor
    · exact (hops x hx).resolve_left
    · rintro htwo hone
      rw [htwo] at hone
      exact absurd hone (by decide)

/-! ## Operations -/

def someAisContext : AisContext where
  toTraceContext := { someContext with
    function := ⟨str "kfd_ioctl_ais+0x0/0x2c0 [amdgpu]", by decide, by decide⟩ }
  flags_plain := forall_mem_of_all (by decide)
  timestamp_plain := forall_mem_of_all (by decide)
  function_plain := forall_mem_of_all (by decide)

/-- An operation of a task. -/
def someEntry (comm : TaskName) (op : UInt32) (sizeReq : UInt64) : AisEntry where
  comm := comm
  ctx := someAisContext
  event := { pid := 4242, gpuId := 51110, sizeReq := sizeReq, op := op, fd := 7 }

/-- The metrics after some operations, on a system without any devices; the first 40 bytes are read on
    their own. -/
def metricsAfter (entries : List AisEntry) : AisMetrics :=
  aisMetrics (fun _ => []) []
    (aisReadLoop (fun _ => ⟨0, fun _ => none, fun _ => none, fun _ => none⟩) [] (aisProbeEntry 77)
      [(aisStream 77 entries).take 40, (aisStream 77 entries).drop 40]).state.reported

/-- Two reads and a write. -/
def someEntries : List AisEntry :=
  [someEntry plainName 1 4096, someEntry plainName 2 512, someEntry plainName 1 0]

theorem direction_accounting_someEntries :
    (metricsAfter someEntries).rx.Accounts (entriesOf 1 someEntries) ∧
      (metricsAfter someEntries).tx.Accounts (entriesOf 2 someEntries) := by
  have hplain : AisName plainName.bytes := ⟨by decide, by decide⟩
  have hnames : ∀ x ∈ someEntries, AisName x.comm.bytes := by
    simp only [someEntries, List.forall_mem_cons]
    exact ⟨hplain, hplain, hplain, List.forall_mem_nil _⟩
  have h := ais_direction_accounting (fun _ => ⟨0, fun _ => none, fun _ => none, fun _ => none⟩) []
    (fun _ => []) [] 77 someEntries hnames
    [(aisStream 77 someEntries).take 40, (aisStream 77 someEntries).drop 40] (by simp)
  exact ⟨h.1 ⟨by decide, by decide⟩, h.2 (by decide) ⟨by decide, by decide⟩⟩

/-- Every line counts where its `op` says and nowhere else, whatever else it says. -/
structure AisMetrics.CountsLines (m : AisMetrics) (entries : List AisEntry) : Prop where
  rxOps : total id m.rx.ops = (entriesOf 1 entries).length
  rxBytes : total id m.rx.bytes = bytesRequested (entriesOf 1 entries)
  rxIoSize : total List.length m.rx.ioSize = (entriesOf 1 entries).length
  txOps : total id m.tx.ops = (entriesOf 2 entries).length
  txBytes : total id m.tx.bytes = bytesRequested (entriesOf 2 entries)
  txIoSize : total List.length m.tx.ioSize = (entriesOf 2 entries).length

/-- A name that hides the fields of its line. -/
def parenthesisName : TaskName where
  bytes := str "a: b: (c)"
  nonempty := by decide
  short := by decide
  noNewline := by decide
  noNul := by decide

/-- A read of nothing has no size, a third kind of operation counts as transmitted, a double does not
    hold every size, and the reads of some tasks are not counted, or as transmitted. -/
theorem metrics_do_not_count_lines :
    ¬ (metricsAfter [someEntry plainName 1 0]).CountsLines [someEntry plainName 1 0] ∧
      ¬ (metricsAfter [someEntry plainName 3 4096]).CountsLines [someEntry plainName 3 4096] ∧
      ¬ (metricsAfter [someEntry plainName 1 (2 ^ 53 + 1)]).CountsLines
        [someEntry plainName 1 (2 ^ 53 + 1)] ∧
      ¬ (metricsAfter [someEntry bracketName 1 4096]).CountsLines [someEntry bracketName 1 4096] ∧
      ¬ (metricsAfter [someEntry parenthesisName 1 4096]).CountsLines
        [someEntry parenthesisName 1 4096] := by
  refine ⟨fun h => ?_, fun h => ?_, fun h => ?_, fun h => ?_, fun h => ?_⟩
  · exact absurd h.rxIoSize (by decide +kernel)
  · exact absurd h.txOps (by decide +kernel)
  · exact absurd h.rxBytes (by decide +kernel)
  · exact absurd h.rxOps (by decide +kernel)
  · exact absurd h.txOps (by decide +kernel)

end HsaSnoop
