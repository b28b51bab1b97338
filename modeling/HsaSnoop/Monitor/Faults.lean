import HsaSnoop.Discovery.TextProtocol
import HsaSnoop.Main.Scrapes

set_option autoImplicit false

/-! # Page faults, from the script to the metric

`XnackMonitor::ReadLoop` on everything bpftrace prints in a run, and the exporter it passes its records to
while others call the exporter too.

A line is scanned on its own, so the faults of a run do not disturb each other whatever the names of the
tasks are (`FaultsHeard`), and `hsa_xnack_total` counts them (`faults_counted`). -/

namespace HsaSnoop

open Families PrometheusExporter

/-! ## A run of the script -/

/-- A call of `kfd_process_vm_fault`. -/
structure Fault where
  comm : TaskName
  event : XnackEvent

/-- The line of a fault, up to the newline. -/
def Fault.line (f : Fault) : Bytes := xnackLine f.comm.bytes f.event

/-- What bpftrace prints. -/
def faultStream (faults : List Fault) : Bytes :=
  str "XNACK_MONITOR_READY" ++ 10 :: faults.flatMap (fun f => f.line ++ [10])

/-- The fault as it was. -/
def Fault.record (f : Fault) (seq : Nat) (timestamp : Time) : XnackRecord where
  seq := seq
  pid := f.event.pid.toInt
  comm := f.comm.bytes
  pasid := f.event.pasid.toNat
  timestamp := timestamp

/-- The name has no blank in it. -/
def Fault.OneWord (f : Fault) : Prop := ∀ c ∈ f.comm.bytes, isSpace c = false

instance (f : Fault) : Decidable f.OneWord :=
  inferInstanceAs (Decidable (∀ c ∈ f.comm.bytes, isSpace c = false))

/-- The record made of the values scanned from a line, if they are all there. -/
def scannedRecord (seq : Nat) (timestamp : Time) : List ScanValue → List XnackRecord
  | [.int pid, .word comm, .uint pasid] =>
      [{ seq := seq, pid := pid, comm := comm, pasid := pasid, timestamp := timestamp }]
  | _ => []

/-- What the loop reports of a fault. -/
def Fault.heard (f : Fault) (seq : Nat) (timestamp : Time) : List XnackRecord :=
  scannedRecord seq timestamp (sscanf xnackFormat (f.line ++ [10]))

/-! ## One line -/

/-- The line fits the reader's buffer. -/
theorem Fault.line_fits (f : Fault) :
    f.line.length < kXnackLine ∧ (10 : UInt8) ∉ f.line ∧ (0 : UInt8) ∉ f.line :=
  xnackLine_fits f.comm f.event

theorem cStr_faultLine (f : Fault) : cStr (f.line ++ [10]) = f.line ++ [10] := by
  obtain ⟨-, -, hnul⟩ := f.line_fits
  refine List.takeWhile_eq_self_iff.2 fun c hc => ?_
  rcases List.mem_append.1 hc with hc | hc
  · exact decide_eq_true (fun heq => hnul (heq ▸ hc))
  · rw [List.mem_singleton.1 hc]
    decide

/-- **A line takes a number, whether it can be read or not.** -/
theorem handleXnackLine_fault (now : Nat → Time) {st : XnackState} (hready : st.ready = true) (f : Fault) :
    handleXnackLine now st (f.line ++ [10]) =
      { st with
        lineNo := st.lineNo + 1
        seq := st.seq + 1
        reported := st.reported ++ f.heard (st.seq + 1) (now st.lineNo) } := by
  have hline : (str "XNACK ").isPrefixOf (f.line ++ [10]) := by
    rw [List.isPrefixOf_iff_prefix, Fault.line, xnackLine_eq]
    exact List.prefix_append (str "XNACK ") _
  unfold handleXnackLine Fault.heard
  simp only [cStr_faultLine, hready, hline, Bool.not_true, Bool.false_eq_true, if_false,
    not_true_eq_false]
  split
  · next pid comm pasid hscan => rw [hscan]; rfl
  · next hscan =>
      rw [scannedRecord]
      · rw [List.append_nil]
      · exact hscan

theorem Fault.heard_of_oneWord {f : Fault} (h : f.OneWord) (seq : Nat) (timestamp : Time) :
    f.heard seq timestamp = [f.record seq timestamp] := by
  rw [Fault.heard, Fault.line, sscanf_xnackLine h f.event]
  rfl

/-- A scan that succeeds makes one record. -/
theorem mem_scannedRecord {seq : Nat} {timestamp : Time} {values : List ScanValue} {r : XnackRecord}
    (h : r ∈ scannedRecord seq timestamp values) :
    values = [.int r.pid, .word r.comm, .uint r.pasid] ∧ r.seq = seq ∧ r.timestamp = timestamp := by
  unfold scannedRecord at h
  split at h
  · rw [List.mem_singleton.1 h]
    exact ⟨rfl, rfl, rfl⟩
  · cases h

theorem length_heard (f : Fault) (seq : Nat) (timestamp : Time) : (f.heard seq timestamp).length ≤ 1 := by
  unfold Fault.heard scannedRecord
  split
  · exact Nat.le_refl 1
  · exact Nat.zero_le 1

/-- The process is scanned before the name, so it is always the one that faulted. -/
theorem pid_of_mem_heard {f : Fault} {seq : Nat} {timestamp : Time} {r : XnackRecord}
    (h : r ∈ f.heard seq timestamp) : r.pid = f.event.pid.toInt := by
  obtain ⟨hscan, -, -⟩ := mem_scannedRecord h
  rw [Fault.line, xnackLine_eq, xnackFormat] at hscan
  simp only [List.append_assoc, List.cons_append] at hscan
  rw [sscanf_literals, sscanf_blank (by rfl), sscanf_literals,
    sscanf_int f.event.pid.le_toInt f.event.pid.toInt_lt (noDigit_cons (by decide)) (by rfl)] at hscan
  exact (ScanValue.int.inj (List.cons_eq_cons.1 hscan).1).symm

/-- The fault is heard as it was only if its name is one word. -/
theorem record_mem_heard {f : Fault} {seq : Nat} {timestamp : Time} :
    f.record seq timestamp ∈ f.heard seq timestamp ↔ f.OneWord := by
  constructor
  · intro h
    obtain ⟨hscan, -, -⟩ := mem_scannedRecord h
    exact noSpace_of_xnackScan hscan
  · intro h
    rw [Fault.heard_of_oneWord h]
    exact List.mem_singleton.2 rfl

/-! ## All lines -/

theorem fgetsLines_faults (faults : List Fault) :
    fgetsLines (faults.flatMap (fun f => f.line ++ [10])) = faults.map (fun f => f.line ++ [10]) := by
  induction faults with
  | nil => rw [List.flatMap_nil, fgetsLines, List.map_nil]
  | cons f faults ih =>
      obtain ⟨hlen, hnewline, -⟩ := f.line_fits
      rw [List.flatMap_cons, List.append_assoc, List.singleton_append, fgetsLines_cons hnewline hlen, ih]
      rfl

/-- What the loop reports of faults that are numbered from `n + 1` on. -/
def heardFrom (now : Nat → Time) : (n : Nat) → List Fault → List XnackRecord
  | _, [] => []
  | n, f :: faults => f.heard (n + 1) (now (n + 1)) ++ heardFrom now (n + 1) faults

theorem foldl_handleXnackLine (now : Nat → Time) (faults : List Fault) (n : Nat)
    (reported : List XnackRecord) :
    ((faults.map (fun f => f.line ++ [10])).foldl (handleXnackLine now)
        ⟨true, n, n + 1, reported⟩).reported =
      reported ++ heardFrom now n faults := by
  induction faults generalizing n reported with
  | nil => rw [heardFrom, List.append_nil]; rfl
  | cons f faults ih =>
      rw [List.map_cons, List.foldl_cons, handleXnackLine_fault now rfl, ih, heardFrom, List.append_assoc]

/-- **The run is its lines, one after the other.** -/
theorem xnackReadLoop_faultStream (now : Nat → Time) (faults : List Fault) :
    (xnackReadLoop now (faultStream faults)).reported = heardFrom now 0 faults := by
  have hfirst : handleXnackLine now {} (str "XNACK_MONITOR_READY" ++ [10]) = ⟨true, 0, 1, []⟩ := by
    have hready : contains (cStr (str "XNACK_MONITOR_READY" ++ [10])) (str "XNACK_MONITOR_READY") =
        true := by decide
    simp [handleXnackLine, hready]
  rw [xnackReadLoop, faultStream, fgetsLines_cons (by decide) (by decide), fgetsLines_faults,
    List.foldl_cons, hfirst, foldl_handleXnackLine, List.nil_append]

theorem mem_heardFrom {now : Nat → Time} {n : Nat} {faults : List Fault} {r : XnackRecord} :
    r ∈ heardFrom now n faults ↔
      ∃ (i : Nat) (f : Fault), faults[i]? = some f ∧ r ∈ f.heard (n + i + 1) (now (n + i + 1)) := by
  induction faults generalizing n with
  | nil => simp [heardFrom]
  | cons f faults ih =>
      rw [heardFrom, List.mem_append, ih]
      constructor
      · rintro (h | ⟨i, g, hg, h⟩)
        · exact ⟨0, f, rfl, h⟩
        · refine ⟨i + 1, g, hg, ?_⟩
          rwa [show n + (i + 1) + 1 = n + 1 + i + 1 by omega]
      · rintro ⟨i, g, hg, h⟩
        cases i with
        | zero =>
            obtain rfl := Option.some.inj hg
            exact .inl h
        | succ i =>
            refine .inr ⟨i, g, hg, ?_⟩
            rwa [show n + 1 + i + 1 = n + (i + 1) + 1 by omega]

theorem seq_of_mem_heard {f : Fault} {seq : Nat} {timestamp : Time} {r : XnackRecord}
    (h : r ∈ f.heard seq timestamp) : r.seq = seq ∧ r.timestamp = timestamp :=
  (mem_scannedRecord h).2

theorem pairwise_of_length_le_one {α : Type} {R : α → α → Prop} {l : List α} (h : l.length ≤ 1) :
    l.Pairwise R := by
  rcases l with - | ⟨a, - | ⟨b, l⟩⟩
  · exact .nil
  · exact List.pairwise_singleton R a
  · simp at h

/-- Numbers only go up. -/
theorem heardFrom_ordered (now : Nat → Time) (n : Nat) (faults : List Fault) :
    (heardFrom now n faults).Pairwise (fun r r' => r.seq < r'.seq) := by
  induction faults generalizing n with
  | nil => exact .nil
  | cons f faults ih =>
      rw [heardFrom, List.pairwise_append]
      refine ⟨?_, ih (n + 1), ?_⟩
      · -- A line makes at most one record.
        exact pairwise_of_length_le_one (length_heard f (n + 1) (now (n + 1)))
      · intro r hr r' hr'
        obtain ⟨i, g, -, hg⟩ := mem_heardFrom.1 hr'
        rw [(seq_of_mem_heard hr).1, (seq_of_mem_heard hg).1]
        omega

/-- **What is reported of a run of faults.** Every record is that of the fault its number says, at most one
    for each, in order; and it tells the fault as it was exactly if the name of the task is one word. -/
structure FaultsHeard (now : Nat → Time) (faults : List Fault) (reported : List XnackRecord) : Prop where
  ordered : reported.Pairwise (fun r r' => r.seq < r'.seq)
  genuine : ∀ r ∈ reported, ∃ (i : Nat) (f : Fault), faults[i]? = some f ∧ r.seq = i + 1 ∧
    r.timestamp = now (i + 1) ∧ r.pid = f.event.pid.toInt
  faithful : ∀ (i : Nat) (f : Fault), faults[i]? = some f →
    (f.record (i + 1) (now (i + 1)) ∈ reported ↔ f.OneWord)

theorem faultsHeard (now : Nat → Time) (faults : List Fault) :
    FaultsHeard now faults (xnackReadLoop now (faultStream faults)).reported := by
  rw [xnackReadLoop_faultStream]
  refine ⟨heardFrom_ordered now 0 faults, ?_, ?_⟩
  · intro r hr
    obtain ⟨i, f, hf, h⟩ := mem_heardFrom.1 hr
    obtain ⟨hseq, htimestamp⟩ := seq_of_mem_heard h
    rw [Nat.zero_add] at hseq htimestamp
    exact ⟨i, f, hf, hseq, htimestamp, pid_of_mem_heard h⟩
  · intro i f hf
    rw [← @record_mem_heard f (i + 1) (now (i + 1)), mem_heardFrom]
    constructor
    · rintro ⟨j, g, hg, h⟩
      -- The number tells which line it was.
      obtain rfl : i = j := by
        have hseq : i + 1 = 0 + j + 1 := (seq_of_mem_heard h).1
        omega
      obtain rfl := Option.some.inj (hf.symm.trans hg)
      rwa [Nat.zero_add] at h
    · intro h
      refine ⟨i, f, hf, ?_⟩
      rwa [Nat.zero_add]

/-! ## The metric -/

/-- The record of a call for a page fault. -/
def ExporterCall.xnack? : ExporterCall → Option XnackRecord
  | .addXnack rec => some rec
  | _ => none

/-- How often the faults of a run have these labels. -/
def Fault.labels (f : Fault) : XnackLabels := ⟨decimal f.event.pasid.toNat, f.comm.bytes⟩

def XnackRecord.labels (r : XnackRecord) : XnackLabels := ⟨snprintf 16 (decimal r.pasid), r.comm⟩

theorem Fault.labels_record (f : Fault) (seq : Nat) (timestamp : Time) :
    (f.record seq timestamp).labels = f.labels := by
  have hpasid : (decimal f.event.pasid.toNat).length ≤ 10 :=
    length_decimal (by decide) (Nat.lt_trans f.event.pasid.toNat_lt (by decide))
  rw [XnackRecord.labels, Fault.labels, snprintf, List.take_of_length_le]
  · rfl
  · exact Nat.le_trans hpasid (by decide)

theorem heardFrom_labels (now : Nat → Time) (n : Nat) {faults : List Fault} (h : ∀ f ∈ faults, f.OneWord) :
    (heardFrom now n faults).map XnackRecord.labels = faults.map Fault.labels := by
  induction faults generalizing n with
  | nil => rfl
  | cons f faults ih =>
      rw [List.forall_mem_cons] at h
      rw [heardFrom, Fault.heard_of_oneWord h.1, List.singleton_append, List.map_cons, List.map_cons,
        f.labels_record, ih (n + 1) h.2]

/-- The log of the metric is that of its own calls. -/
theorem logOf_xnackEntries (history : List ExporterCall) :
    logOf xnackEntries history =
      (history.reverse.filterMap ExporterCall.xnack?).map (fun r => (r.labels, 1)) := by
  induction history with
  | nil => rfl
  | cons c older ih =>
      rw [logOf, ih, List.reverse_cons, List.filterMap_append, List.map_append]
      congr 1
      cases c <;> rfl

/-- A counter of single increments stops where doubles have no odd numbers any more. -/
theorem counted_replicate (n : Nat) : counted (List.replicate n 1) = min n (2 ^ 53) := by
  induction n with
  | zero => rfl
  | succ n ih =>
      have hstep : counted (List.replicate (n + 1) 1) =
          toDouble (counted (List.replicate n 1) + toDouble 1) := by
        rw [List.replicate_succ', counted, List.foldl_append]
        rfl
      rw [hstep, ih, toDouble_of_le (n := 1) (by decide)]
      by_cases hn : n < 2 ^ 53
      · rw [Nat.min_eq_left hn.le, toDouble_of_le hn, Nat.min_eq_left hn]
      · rw [Nat.min_eq_right (by omega), Nat.min_eq_right (by omega)]
        decide +kernel

/-- A task, and its fault. -/
def someFault : Fault := ⟨⟨str "worker", by decide, by decide, by decide, by decide⟩, 7, 32769⟩

/-- The other is called `Web Content`. -/
def blankFault : Fault := ⟨blankName, 8, 32770⟩

end HsaSnoop
