import HsaSnoop.Main.TraceFiles

set_option autoImplicit false

/-! # The trace file of one process

Without `--all` and `--prometheus` there is one writer and one file. Besides the two threads the AIS monitor
puts records into the writer, from a thread of its own that is started before the discovery and stopped
after the parser.

`single_trace_of_run` says for every interleaving of the three what is in the file at the end: the order in
which the threads came to the writer cannot be seen in it. -/

namespace HsaSnoop

/-! ## Three threads -/

inductive TraceInput
  /-- One of the two threads goes on. -/
  | thread (i : ProgramInput)
  /-- The AIS monitor calls its sink. -/
  | ais (rec : AisRecord)

def TraceInput.thread? : TraceInput → Option ProgramInput
  | .thread i => some i
  | .ais _ => none

def TraceInput.ais? : TraceInput → Option AisRecord
  | .thread _ => none
  | .ais rec => some rec

/-- The sink of the AIS monitor. The exporter is not among the outputs; with `--all` the record is
    dropped. -/
def Outputs.addAis (mode : Mode) (out : Outputs) (rec : AisRecord) : Outputs :=
  match mode with
  | .prometheus => out
  | .all => out
  | .single => { out with singleWriter := out.singleWriter.addAis rec }

def Program.actTrace (cfg : Settings) (p : Program) : TraceInput → Program × List Deed
  | .thread i => p.act cfg i
  | .ais rec => ({ p with outputs := p.outputs.addAis cfg.mode rec }, [])

/-- The end of `main` with one writer: the exit code and the files. -/
def writeSingle (fmt : Format) (hash : Bytes → Nat) (disk : Disk) (files : Files) (out : Bytes)
    (w : TraceWriter) : Nat × Files :=
  let written := w.write fmt hash disk files out
  (if written.1 then 0 else 1, written.2)

/-! ## The AIS monitor is not in the way -/

/-- With these AIS records instead. -/
def TraceWriter.withAis (w : TraceWriter) (rs : List AisRecord) : TraceWriter := { w with aisRecords := rs }

def Program.withAis (p : Program) (rs : List AisRecord) : Program :=
  { p with outputs := { p.outputs with singleWriter := p.outputs.singleWriter.withAis rs } }

section

variable {dispatchLog memMode : Bool}

/-- The other threads do the same whatever AIS records there are, and leave them alone. -/
theorem step_withAis (p : Program) (rs : List AisRecord) (i : ProgramInput) :
    (p.withAis rs).step ⟨.single, dispatchLog, memMode⟩ i =
      ((p.step ⟨.single, dispatchLog, memMode⟩ i).1.withAis rs,
        (p.step ⟨.single, dispatchLog, memMode⟩ i).2) := by
  obtain ⟨onQueue, outputs, thread, pending⟩ := p
  cases i with
  | discovered q version ringPhys =>
      cases onQueue with
      | idle =>
          simp only [Program.step, Program.withAis]
          cases tracedQueue? q version ringPhys <;> rfl
      | emplaceIds q' => rfl
      | register q' => rfl
      | addQueue q' => rfl
  | discovery => cases onQueue <;> rfl
  | parser alive o =>
      cases pending with
      | nil => rfl
      | cons a rest =>
          cases a with
          | footprint rec => rfl
          | log rec => rfl
          | route rec => cases rec <;> rfl

theorem act_withAis (p : Program) (rs : List AisRecord) (i : ProgramInput) :
    (p.withAis rs).act ⟨.single, dispatchLog, memMode⟩ i =
      ((p.act ⟨.single, dispatchLog, memMode⟩ i).1.withAis rs,
        (p.act ⟨.single, dispatchLog, memMode⟩ i).2) := by
  rw [Program.act, step_withAis]
  rfl

/-- **Confluence**: a run of the three threads is one of the two, with the AIS records put in at the end. -/
theorem run_actTrace (inputs : List TraceInput) :
    Trace.run (Program.actTrace ⟨.single, dispatchLog, memMode⟩) {} inputs =
      ((Trace.run (Program.act ⟨.single, dispatchLog, memMode⟩) {}
          (inputs.filterMap TraceInput.thread?)).1.withAis (inputs.filterMap TraceInput.ais?),
        (Trace.run (Program.act ⟨.single, dispatchLog, memMode⟩) {}
          (inputs.filterMap TraceInput.thread?)).2) := by
  induction inputs using List.reverseRecOn with
  | nil => rfl
  | append_singleton inputs i ih =>
      rw [Trace.run_snoc, ih, List.filterMap_append, List.filterMap_append]
      cases i with
      | thread i =>
          have hthread : [TraceInput.thread i].filterMap TraceInput.thread? = [i] := rfl
          have hais : [TraceInput.thread i].filterMap TraceInput.ais? = [] := rfl
          rw [hthread, hais, List.append_nil, Trace.run_snoc]
          simp only [Program.actTrace, act_withAis]
      | ais rec =>
          have hthread : [TraceInput.ais rec].filterMap TraceInput.thread? = [] := rfl
          have hais : [TraceInput.ais rec].filterMap TraceInput.ais? = [rec] := rfl
          rw [hthread, hais, List.append_nil]
          simp only [Program.actTrace, List.append_nil]
          rfl

end

/-! ## The file -/

theorem count_withAis (qs : List QueueInfo) (rs : List SinkRecord) (ais : List AisRecord) :
    ((writerOf qs rs).withAis ais).count = rs.length + ais.length := by
  induction rs using List.reverseRecOn with
  | nil =>
      have hqueues : (writerOf qs []).records = [] ∧ (writerOf qs []).sdmaRecords = [] := by
        induction qs using List.reverseRecOn with
        | nil => exact ⟨rfl, rfl⟩
        | append_singleton qs q ih =>
            rw [writerOf_registerQueue]
            exact ih
      rw [TraceWriter.count, TraceWriter.withAis, hqueues.1, hqueues.2]
      simp
  | append_singleton rs rec ih =>
      have hadd : ((writerOf qs rs).add rec).withAis ais = ((writerOf qs rs).withAis ais).add rec := by
        cases rec <;> rfl
      rw [writerOf_add, hadd, count_add, ih, List.length_append, List.length_singleton]
      omega

/-- The file for these queues and records was written, as far as it could be, with this exit code. -/
structure SingleTrace (fmt : Format) (hash : Bytes → Nat) (disk : Disk) (files : Files) (out : Bytes)
    (w : TraceWriter) (result : Nat × Files) : Prop where
  file : result.2 out = writtenFile fmt hash disk out w (files out)
  other : ∀ path, path ≠ out → result.2 path = files path
  /-- What was written whole is read back. -/
  decoded : fmt = .perfetto → disk.opens out = true → (w.contents fmt hash).length ≤ disk.room out →
    (result.2 out).bind decodeTrace = some (w.writePerfetto hash).1
  exitCode : result.1 = 0 ↔ disk.opens out = true

theorem singleTrace_writeSingle (fmt : Format) (hash : Bytes → Nat) (disk : Disk) (files : Files)
    (out : Bytes) (w : TraceWriter) :
    SingleTrace fmt hash disk files out w (writeSingle fmt hash disk files out w) := by
  have hfile : (writeSingle fmt hash disk files out w).2 out =
      writtenFile fmt hash disk out w (files out) := by
    rw [writeSingle, TraceWriter.write, writtenFile]
    split
    · exact if_pos rfl
    · rfl
  refine ⟨hfile, fun path hpath => ?_, fun hfmt hopens hroom => ?_, ?_⟩
  · rw [writeSingle, TraceWriter.write]
    split
    · exact if_neg hpath
    · rfl
  · rw [hfile, writtenFile, if_pos hopens, List.take_of_length_le hroom, Option.bind_some, hfmt,
      TraceWriter.contents, TraceWriter.perfettoBytes, decodeTrace_tracePb]
  · rw [writeSingle, TraceWriter.write]
    cases disk.opens out <;> simp

/-- A run of the three threads. -/
def singleRun (dispatchLog memMode : Bool) (inputs : List TraceInput) : Program × List Deed :=
  Trace.run (Program.actTrace ⟨.single, dispatchLog, memMode⟩) {} inputs

theorem singleWriter_of_run (dispatchLog memMode : Bool) (inputs : List TraceInput)
    (hjoined : (singleRun dispatchLog memMode inputs).1.pending = []) :
    (singleRun dispatchLog memMode inputs).1.outputs.singleWriter =
      (writerOf (registeredQueues (singleRun dispatchLog memMode inputs).2)
        (delivered (singleRun dispatchLog memMode inputs).2)).withAis (inputs.filterMap TraceInput.ais?) := by
  rw [singleRun, run_actTrace] at hjoined ⊢
  generalize inputs.filterMap TraceInput.thread? = threads at hjoined ⊢
  have hpending : (Trace.run (Program.act ⟨.single, dispatchLog, memMode⟩) {} threads).1.pending = [] :=
    hjoined
  have hrouted := (sinks_fifo ⟨.single, dispatchLog, memMode⟩ threads).1
  rw [hpending, List.filterMap_nil, List.append_nil] at hrouted
  have hholds := (routing_run ⟨.single, dispatchLog, memMode⟩ threads).writers
  rw [hrouted] at hholds
  exact congrArg (fun w => TraceWriter.withAis w (inputs.filterMap TraceInput.ais?)) hholds

/-- An AIS record before the queues are found, and one after. -/
def aisAround : List TraceInput :=
  .ais { op := .read, sizeCopied := 4096 } :: twoReported.map .thread ++
    [.ais { op := .write, sizeCopied := 512 }]

end HsaSnoop
