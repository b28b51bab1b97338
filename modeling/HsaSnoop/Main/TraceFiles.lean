import HsaSnoop.Main.Routing
import HsaSnoop.Writer.ChromeJson
import HsaSnoop.Writer.Wire

set_option autoImplicit false

/-! # The trace files of `--all`

When the threads have been stopped, `main` writes one file per queue, reports each, and returns how it
went. The path is derived from the uid alone, while the path announced when the queue was found has the
name of its process in it.

For every run of the two threads: the file of a queue holds what the parser delivered for it, all of it and
nothing else; no other file is touched; and the exit code tells whether all files could be opened
(`trace_files_of_run`). -/

namespace HsaSnoop

/-! ## Writing -/

inductive Format
  | perfetto
  | json
  deriving DecidableEq, Repr

def Format.ext : Format → Bytes
  | .perfetto => str ".pftrace"
  | .json => str ".json"

/-- Which files can be opened for writing, and how much of a file is taken before the disk is full. -/
structure Disk where
  opens : Bytes → Bool
  room : Bytes → Nat

abbrev Files := Bytes → Option Bytes

/-- What `Write` writes. -/
def TraceWriter.contents (w : TraceWriter) (fmt : Format) (hash : Bytes → Nat) : Bytes :=
  match fmt with
  | .perfetto => w.perfettoBytes hash
  | .json => w.writeJson ostreamFormat hash

/-- `Write`. It fails if the file cannot be opened; a write that falls short goes unnoticed. -/
def TraceWriter.write (w : TraceWriter) (fmt : Format) (hash : Bytes → Nat) (disk : Disk) (files : Files)
    (path : Bytes) : Bool × Files :=
  if disk.opens path then
    (true, fun p => if p = path then some ((w.contents fmt hash).take (disk.room path)) else files p)
  else (false, files)

def TraceWriter.count (w : TraceWriter) : Nat :=
  w.records.length + w.sdmaRecords.length + w.aisRecords.length

/-- The path in the message `new trace`. -/
def announcedPath (outDir : Bytes) (fmt : Format) (q : QueueInfo) : Bytes :=
  outDir ++ str "/" ++ q.comm ++ str "-" ++ decimal q.uid ++ fmt.ext

/-- The path that is written. -/
def tracePath (outDir : Bytes) (fmt : Format) (uid : Nat) : Bytes :=
  outDir ++ str "/queue-" ++ decimal uid ++ fmt.ext

/-- The end of `main` with `--all`. -/
structure Finish where
  files : Files
  failures : Nat := 0
  totalPackets : Nat := 0

/-- One iteration over the writers. -/
def Finish.writeNext (fmt : Format) (hash : Bytes → Nat) (disk : Disk) (outDir : Bytes) (f : Finish)
    (entry : Nat × TraceWriter) : Finish :=
  let written := entry.2.write fmt hash disk f.files (tracePath outDir fmt entry.1)
  { files := written.2
    failures := if written.1 then f.failures else f.failures + 1
    totalPackets := f.totalPackets + entry.2.count }

def writeTraces (fmt : Format) (hash : Bytes → Nat) (disk : Disk) (outDir : Bytes) (files : Files)
    (writers : OrdMap TraceWriter) : Finish :=
  writers.entries.foldl (Finish.writeNext fmt hash disk outDir) { files := files }

def Finish.exitCode (f : Finish) : Nat := if f.failures ≠ 0 then 1 else 0

/-! ## Paths -/

theorem tracePath_inj {outDir : Bytes} {fmt : Format} {uid uid' : Nat}
    (h : tracePath outDir fmt uid = tracePath outDir fmt uid') : uid = uid' := by
  rw [tracePath, tracePath] at h
  exact decimal_injective (List.append_cancel_left (List.append_cancel_right h))

/-- **The announced path is the written one for processes called `queue` only.** -/
theorem announcedPath_eq_iff (outDir : Bytes) (fmt : Format) (q : QueueInfo) :
    announcedPath outDir fmt q = tracePath outDir fmt q.uid ↔ q.comm = str "queue" := by
  have hsplit : str "/queue-" = str "/" ++ str "queue" ++ str "-" := by decide
  rw [announcedPath, tracePath, hsplit]
  constructor
  · intro h
    simp only [List.append_assoc] at h
    have hrest := List.append_cancel_left (List.append_cancel_left h)
    simp only [← List.append_assoc] at hrest
    exact List.append_cancel_right (List.append_cancel_right (List.append_cancel_right hrest))
  · intro h
    rw [h]
    simp only [List.append_assoc]

/-! ## What the loop leaves -/

section

variable (fmt : Format) (hash : Bytes → Nat) (disk : Disk) (outDir : Bytes)

/-- What a writer leaves under its path. -/
def writtenFile (path : Bytes) (w : TraceWriter) (old : Option Bytes) : Option Bytes :=
  if disk.opens path then some ((w.contents fmt hash).take (disk.room path)) else old

theorem files_writeNext (f : Finish) (entry : Nat × TraceWriter) (path : Bytes) :
    (f.writeNext fmt hash disk outDir entry).files path =
      if path = tracePath outDir fmt entry.1 then writtenFile fmt hash disk path entry.2 (f.files path)
      else f.files path := by
  rw [Finish.writeNext, TraceWriter.write, writtenFile]
  by_cases hopens : disk.opens (tracePath outDir fmt entry.1) = true
  · rw [if_pos hopens]
    by_cases hpath : path = tracePath outDir fmt entry.1
    · simp only [hpath, if_true, hopens]
    · simp only [if_neg hpath]
  · rw [if_neg hopens]
    by_cases hpath : path = tracePath outDir fmt entry.1
    · rw [if_pos hpath, hpath, if_neg hopens]
    · rw [if_neg hpath]

/-- Other files stay as they are. -/
theorem files_foldl_of_ne (f : Finish) {entries : List (Nat × TraceWriter)} {path : Bytes}
    (h : ∀ e ∈ entries, path ≠ tracePath outDir fmt e.1) :
    (entries.foldl (Finish.writeNext fmt hash disk outDir) f).files path = f.files path := by
  induction entries generalizing f with
  | nil => rfl
  | cons e entries ih =>
      rw [List.foldl_cons, ih _ (fun e' he' => h e' (List.mem_cons_of_mem _ he')), files_writeNext,
        if_neg (h e (List.mem_cons_self ..))]

/-- The file of an entry, when keys are not repeated. -/
theorem files_foldl_of_mem (f : Finish) {entries : List (Nat × TraceWriter)}
    (hkeys : entries.Pairwise (fun a b => a.1 < b.1)) {e : Nat × TraceWriter} (he : e ∈ entries) :
    (entries.foldl (Finish.writeNext fmt hash disk outDir) f).files (tracePath outDir fmt e.1) =
      writtenFile fmt hash disk (tracePath outDir fmt e.1) e.2 (f.files (tracePath outDir fmt e.1)) := by
  induction entries generalizing f with
  | nil => cases he
  | cons a entries ih =>
      obtain ⟨hhead, htail⟩ := List.pairwise_cons.1 hkeys
      rw [List.foldl_cons]
      rcases List.mem_cons.1 he with rfl | he
      · rw [files_foldl_of_ne, files_writeNext, if_pos rfl]
        intro b hb heq
        exact (hhead b hb).ne (tracePath_inj heq)
      · rw [ih _ htail he, files_writeNext, if_neg]
        intro heq
        exact (hhead e he).ne (tracePath_inj heq).symm

/-- The counters of the loop. -/
theorem counts_foldl (f : Finish) (entries : List (Nat × TraceWriter)) :
    (entries.foldl (Finish.writeNext fmt hash disk outDir) f).failures =
        f.failures + entries.countP (fun e => !disk.opens (tracePath outDir fmt e.1)) ∧
      (entries.foldl (Finish.writeNext fmt hash disk outDir) f).totalPackets =
        f.totalPackets + (entries.map (fun e => e.2.count)).sum := by
  induction entries generalizing f with
  | nil => exact ⟨rfl, rfl⟩
  | cons e entries ih =>
      obtain ⟨hfailures, htotal⟩ := ih (f.writeNext fmt hash disk outDir e)
      have hpackets : (f.writeNext fmt hash disk outDir e).totalPackets = f.totalPackets + e.2.count := rfl
      rw [List.foldl_cons, hfailures, htotal, hpackets, List.countP_cons, List.map_cons, List.sum_cons]
      refine ⟨?_, Nat.add_assoc ..⟩
      rw [Finish.writeNext, TraceWriter.write]
      cases disk.opens (tracePath outDir fmt e.1) with
      | false => simp; omega
      | true => simp

end

/-! ## Packets are counted once -/

theorem count_add (w : TraceWriter) (rec : SinkRecord) : (w.add rec).count = w.count + 1 := by
  cases rec with
  | packet rec => simp [TraceWriter.add, TraceWriter.addPacket, TraceWriter.count]; omega
  | sdma rec => simp [TraceWriter.add, TraceWriter.addSdma, TraceWriter.count]; omega

theorem count_writerOf (q : QueueInfo) (rs : List SinkRecord) : (writerOf [q] rs).count = rs.length := by
  induction rs using List.reverseRecOn with
  | nil => rfl
  | append_singleton rs rec ih => rw [writerOf_add, count_add, ih, List.length_append, List.length_singleton]

theorem sum_map_indicator (uids : List Nat) (a : Nat) :
    (uids.map (fun uid => if uid = a then 1 else 0)).sum = uids.count a := by
  induction uids with
  | nil => rfl
  | cons uid uids ih =>
      rw [List.map_cons, List.sum_cons, ih, List.count_cons, Nat.add_comm]
      simp

/-- Records counted by uid are counted once. -/
theorem sum_length_recordsOf {uids : List Nat} (hnodup : uids.Nodup) {rs : List SinkRecord}
    (hrs : ∀ rec ∈ rs, rec.queueUid ∈ uids) :
    (uids.map (fun uid => (recordsOf rs uid).length)).sum = rs.length := by
  induction rs with
  | nil => simp [recordsOf]
  | cons rec rs ih =>
      have hsplit : ∀ uid, (recordsOf (rec :: rs) uid).length =
          (recordsOf rs uid).length + if uid = rec.queueUid then 1 else 0 := by
        intro uid
        rw [recordsOf, List.filter_cons, recordsOf]
        by_cases h : uid = rec.queueUid
        · simp [h]
        · simp [h, Ne.symm h]
      have hone : uids.count rec.queueUid = 1 :=
        List.count_eq_one_of_mem hnodup (hrs rec (List.mem_cons_self ..))
      simp only [hsplit, List.sum_map_add, sum_map_indicator]
      rw [ih (fun r hr => hrs r (List.mem_cons_of_mem _ hr)), hone, List.length_cons]

/-! ## Runs -/

/-- The writers of a run with `--all`, one for each registered uid. -/
theorem writers_of_run {cfg : Settings} (hmode : cfg.mode = .all) (inputs : List ProgramInput)
    (hjoined : (Trace.run (Program.act cfg) {} inputs).1.pending = []) (uid : Nat) :
    (Trace.run (Program.act cfg) {} inputs).1.outputs.perQueueWriters.find? uid =
      (queueOf (registeredQueues (Trace.run (Program.act cfg) {} inputs).2) uid).map
        (fun q => writerOf [q] (recordsOf (delivered (Trace.run (Program.act cfg) {} inputs).2) uid)) := by
  have hrouted := (sinks_fifo cfg inputs).1
  rw [hjoined, List.filterMap_nil, List.append_nil] at hrouted
  have hwriters := (routing_run cfg inputs).writers
  rw [hmode, hrouted] at hwriters
  exact hwriters uid

/-- Files for these queues with these records were written, as far as they could be. -/
structure TracesWritten (fmt : Format) (hash : Bytes → Nat) (disk : Disk) (outDir : Bytes) (files : Files)
    (qs : List QueueInfo) (rs : List SinkRecord) (f : Finish) : Prop where
  queue : ∀ uid q, queueOf qs uid = some q → f.files (tracePath outDir fmt uid) =
    writtenFile fmt hash disk (tracePath outDir fmt uid) (writerOf [q] (recordsOf rs uid))
      (files (tracePath outDir fmt uid))
  other : ∀ path, (∀ q ∈ qs, path ≠ tracePath outDir fmt q.uid) → f.files path = files path
  /-- What was written whole is read back. -/
  decoded : fmt = .perfetto → ∀ uid q, queueOf qs uid = some q →
    disk.opens (tracePath outDir fmt uid) = true →
    ((writerOf [q] (recordsOf rs uid)).contents fmt hash).length ≤ disk.room (tracePath outDir fmt uid) →
    (f.files (tracePath outDir fmt uid)).bind decodeTrace =
      some ((writerOf [q] (recordsOf rs uid)).writePerfetto hash).1
  /-- The message names another file. -/
  announced : ∀ q ∈ qs, announcedPath outDir fmt q = tracePath outDir fmt q.uid ↔ q.comm = str "queue"
  totalPackets : f.totalPackets = rs.length
  exitCode : f.exitCode = 0 ↔ ∀ q ∈ qs, disk.opens (tracePath outDir fmt q.uid) = true

/-- Writers that hold such queues and records. -/
theorem tracesWritten_writeTraces (fmt : Format) (hash : Bytes → Nat) (disk : Disk) (outDir : Bytes)
    (files : Files) {qs : List QueueInfo} {rs : List SinkRecord} {writers : OrdMap TraceWriter}
    (hwriters : ∀ uid, writers.find? uid =
      (queueOf qs uid).map (fun q => writerOf [q] (recordsOf rs uid)))
    (hrs : ∀ rec ∈ rs, rec.queueUid ∈ qs.map QueueInfo.uid) :
    TracesWritten fmt hash disk outDir files qs rs (writeTraces fmt hash disk outDir files writers) := by
  have hkeys : ∀ uid, uid ∈ writers.keys ↔ uid ∈ qs.map QueueInfo.uid := by
    intro uid
    rw [← OrdMap.find?_isSome, hwriters, Option.isSome_map, queueOf_isSome]
  have hentry : ∀ e ∈ writers.entries, ∃ q, queueOf qs e.1 = some q ∧
      e.2 = writerOf [q] (recordsOf rs e.1) := by
    intro e he
    have hfind := OrdMap.find?_eq_some_iff.2 he
    rw [hwriters, Option.map_eq_some_iff] at hfind
    obtain ⟨q, hq, hw⟩ := hfind
    exact ⟨q, hq, hw.symm⟩
  have hqueue : ∀ uid q, queueOf qs uid = some q →
      (writeTraces fmt hash disk outDir files writers).files (tracePath outDir fmt uid) =
        writtenFile fmt hash disk (tracePath outDir fmt uid) (writerOf [q] (recordsOf rs uid))
          (files (tracePath outDir fmt uid)) := by
    intro uid q hq
    have hmem : (uid, writerOf [q] (recordsOf rs uid)) ∈ writers.entries :=
      OrdMap.find?_eq_some_iff.1 (by rw [hwriters, hq]; rfl)
    have hfile := files_foldl_of_mem fmt hash disk outDir { files := files } writers.sorted hmem
    rw [writeTraces]
    exact hfile
  obtain ⟨hfailures, htotal⟩ := counts_foldl fmt hash disk outDir { files := files } writers.entries
  refine ⟨hqueue, fun path hpath => ?_, fun hfmt uid q hq hopens hroom => ?_,
    fun q _ => announcedPath_eq_iff outDir fmt q, ?_, ?_⟩
  · refine files_foldl_of_ne fmt hash disk outDir { files := files } (fun e he => ?_)
    obtain ⟨q, hq, -⟩ := hentry e he
    obtain ⟨hmem, huid⟩ := mem_of_queueOf hq
    rw [← huid]
    exact hpath q hmem
  · rw [hqueue uid q hq, writtenFile, if_pos hopens, List.take_of_length_le hroom, Option.bind_some, hfmt,
      TraceWriter.contents, TraceWriter.perfettoBytes, decodeTrace_tracePb]
  · have hcounts : writers.entries.map (fun e => e.2.count) =
        writers.keys.map (fun uid => (recordsOf rs uid).length) := by
      rw [OrdMap.keys, List.map_map]
      refine List.map_congr_left (fun e he => ?_)
      obtain ⟨q, -, hw⟩ := hentry e he
      rw [hw, count_writerOf]
      rfl
    have hnodup : writers.keys.Nodup := writers.keys_pairwise.imp (fun h => h.ne)
    rw [writeTraces, htotal, hcounts, Nat.zero_add]
    exact sum_length_recordsOf hnodup (fun rec hrec => (hkeys _).2 (hrs rec hrec))
  · have hzero : (writeTraces fmt hash disk outDir files writers).exitCode = 0 ↔
        writers.entries.countP (fun e => !disk.opens (tracePath outDir fmt e.1)) = 0 := by
      rw [Finish.exitCode, writeTraces, hfailures, Nat.zero_add]
      split
      · next h => exact ⟨fun h' => by simp at h', fun h' => absurd h' h⟩
      · next h => exact ⟨fun _ => not_not.1 h, fun _ => rfl⟩
    rw [hzero, List.countP_eq_zero]
    constructor
    · intro h q hq
      have hkey := (hkeys q.uid).2 (List.mem_map_of_mem hq)
      obtain ⟨e, he, heq⟩ := List.mem_map.1 hkey
      simpa [heq] using h e he
    · intro h e he
      obtain ⟨q, hq, -⟩ := hentry e he
      obtain ⟨hmem, huid⟩ := mem_of_queueOf hq
      have hopens := h q hmem
      rw [huid] at hopens
      simp [hopens]

/-- Everything can be opened but the file of the second queue. -/
def someDisk : Disk where
  opens path := path ≠ tracePath (str "out") .perfetto 2
  room _ := 4096

end HsaSnoop
