import HsaSnoop.Parser.Isolation
import HsaSnoop.Parser.Thread
import HsaSnoop.Writer.Perfetto

set_option autoImplicit false

/-! # Registration before records

`main` connects two threads. The discovery thread calls `on_queue`, which enters a queue in
`queue_ids`, then registers it with the output that is in use, then hands it to the parser. The parser
thread delivers records to sinks that look their queue up again. Each of these is an action of its own
here, and the two threads are interleaved in any order.

Entries are never taken out, so all that matters is the order inside `on_queue`: a queue the parser
knows was registered before (`Registered`), and the parser delivers nothing for a queue it does not
know. -/

namespace HsaSnoop

/-! ## Outputs -/

/-- Where records go: to the Prometheus exporter, to a writer per queue (`--all`), or to one writer. -/
inductive Mode
  | prometheus
  | all
  | single
  deriving DecidableEq, Repr

structure Settings where
  mode : Mode
  dispatchLog : Bool
  memMode : Bool
  deriving DecidableEq, Repr

/-- The identity labels of a queue. -/
structure QueueIds where
  gpuId : Nat
  pid : Int
  comm : Bytes
  deriving DecidableEq, Repr

def QueueInfo.ids (q : QueueInfo) : QueueIds := ⟨q.gpuId, q.pid, q.comm⟩

/-- What the two threads share besides the parser. -/
structure Outputs where
  queueIds : OrdMap QueueIds := ∅
  /-- `queue_meta_` of the exporter, whose keys are 32 bits wide. -/
  queueMeta : OrdMap QueueIds := ∅
  perQueueWriters : OrdMap TraceWriter := ∅
  singleWriter : TraceWriter := {}

/-- `queue_ids.emplace`. -/
def Outputs.emplaceIds (out : Outputs) (q : QueueInfo) : Outputs :=
  { out with queueIds := out.queueIds.emplace q.uid q.ids }

/-- `get_writer` in `--all` mode: the writer of a queue, made and told of the queue if there is none. -/
def Outputs.getWriter (out : Outputs) (q : QueueInfo) : Outputs :=
  match out.perQueueWriters.find? q.uid with
  | some _ => out
  | none =>
      { out with
        perQueueWriters := out.perQueueWriters.insert q.uid (TraceWriter.registerQueue {} q) }

/-- Register a queue with the output in use. -/
def Outputs.registerQueue (mode : Mode) (out : Outputs) (q : QueueInfo) : Outputs :=
  match mode with
  | .prometheus => { out with queueMeta := out.queueMeta.insert (u32 q.uid) q.ids }
  | .all => out.getWriter q
  | .single => { out with singleWriter := out.singleWriter.registerQueue q }

/-! ## Sinks -/

/-- A record given to one of the two sinks. -/
inductive SinkRecord
  | packet (rec : PacketRecord)
  | sdma (rec : SdmaRecord)

def SinkRecord.queueUid : SinkRecord → Nat
  | .packet rec => rec.queueUid
  | .sdma rec => rec.queueUid

def TraceWriter.add (w : TraceWriter) : SinkRecord → TraceWriter
  | .packet rec => w.addPacket rec
  | .sdma rec => w.addSdma rec

/-- The steps of a sink that look at what the discovery thread writes, in order. -/
inductive SinkAction
  /-- Look up the process whose kernel arguments are measured (`--mem-snoop`). -/
  | footprint (rec : PacketRecord)
  /-- Write the dispatch log line, with the labels `queue_ctx` finds. -/
  | log (rec : SinkRecord)
  /-- Hand the record to the output in use. -/
  | route (rec : SinkRecord)

def SinkAction.queueUid : SinkAction → Nat
  | .footprint rec => rec.queueUid
  | .log rec => rec.queueUid
  | .route rec => rec.queueUid

/-- Some GPUs emit dispatches as vendor-specific packets. -/
def PacketRecord.isKernDispatch (rec : PacketRecord) : Bool :=
  rec.type = .kernelDispatch || rec.type = .vendorSpecific

/-- What an event of the parser makes its sinks do. -/
def sinkActions (cfg : Settings) : Event → List SinkAction
  | .sink rec =>
      (if cfg.memMode && rec.isKernDispatch && rec.kernargAddress != 0 then [.footprint rec] else []) ++
      (if cfg.dispatchLog && rec.isKernDispatch then [.log (.packet rec)] else []) ++
      [.route (.packet rec)]
  | .sdmaSink rec =>
      (if cfg.dispatchLog then [.log (.sdma rec)] else []) ++ [.route (.sdma rec)]
  | _ => []

/-- What a step of a sink has found. -/
inductive Outcome
  | measured (rec : PacketRecord) (ids : Option QueueIds)
  /-- The log line of a record; without `ids` it carries an empty `Ctx`. -/
  | logged (rec : SinkRecord) (ids : Option QueueIds)
  | counted (rec : SinkRecord)
  /-- The exporter counted the record in `hsa_errors_total` and left it. -/
  | unknownQueue (rec : SinkRecord)
  | written (rec : SinkRecord)
  /-- No writer: the record is dropped silently. -/
  | lost (rec : SinkRecord)

/-- The lookup has found the queue of the record. -/
def Outcome.found : Outcome → Bool
  | .measured _ ids => ids.isSome
  | .logged _ ids => ids.isSome
  | .counted _ => true
  | .unknownQueue _ => false
  | .written _ => true
  | .lost _ => false

def Outputs.perform (mode : Mode) (out : Outputs) : SinkAction → Outputs × Outcome
  | .footprint rec => (out, .measured rec (out.queueIds.find? rec.queueUid))
  | .log rec => (out, .logged rec (out.queueIds.find? rec.queueUid))
  | .route rec =>
      match mode with
      | .prometheus =>
          match out.queueMeta.find? (u32 rec.queueUid) with
          | none => (out, .unknownQueue rec)
          | some _ => (out, .counted rec)
      | .all =>
          match out.perQueueWriters.find? rec.queueUid with
          | none => (out, .lost rec)
          | some w =>
              ({ out with perQueueWriters := out.perQueueWriters.insert rec.queueUid (w.add rec) },
                .written rec)
      | .single => ({ out with singleWriter := out.singleWriter.add rec }, .written rec)

/-! ## The two threads -/

/-- Where the discovery thread is in `on_queue`. -/
inductive OnQueue
  | idle
  | emplaceIds (q : QueueInfo)
  | register (q : QueueInfo)
  | addQueue (q : QueueInfo)

structure Program where
  onQueue : OnQueue := .idle
  outputs : Outputs := {}
  thread : ParserThread := {}
  /-- What the parser thread still has to do for the records of its last visit. -/
  pending : List SinkAction := []

/-- The queue `on_queue` goes on with, if it does: AQL or SDMA, the latter of a supported version. The
    version and the physical ring address come from outside. -/
def tracedQueue? (q : QueueInfo) (version : Sdma.Version) (ringPhys : Nat) : Option QueueInfo :=
  if !q.isTraced then none
  else if q.isSdma then
    if !Sdma.isSupportedVersion version then none
    else some { q with sdmaVersion := version, ringPhys := ringPhys }
  else some { q with ringPhys := ringPhys }

/-- One action of one of the threads. -/
inductive ProgramInput
  /-- Discovery reports a queue. It makes one call of `on_queue` at a time. -/
  | discovered (q : QueueInfo) (version : Sdma.Version) (ringPhys : Nat)
  /-- The discovery thread goes on in `on_queue`. -/
  | discovery
  /-- The parser thread goes on, in a sink or in its loop. -/
  | parser (alive : Bool) (o : PollObs)

def Program.step (cfg : Settings) (p : Program) : ProgramInput → Program × List Outcome
  | .discovered q version ringPhys =>
      match p.onQueue, tracedQueue? q version ringPhys with
      | .idle, some q => ({ p with onQueue := .emplaceIds q }, [])
      | _, _ => (p, [])
  | .discovery =>
      match p.onQueue with
      | .idle => (p, [])
      | .emplaceIds q =>
          ({ p with outputs := p.outputs.emplaceIds q, onQueue := .register q }, [])
      | .register q =>
          ({ p with outputs := p.outputs.registerQueue cfg.mode q, onQueue := .addQueue q }, [])
      | .addQueue q => ({ p with thread := p.thread.addQueue q, onQueue := .idle }, [])
  | .parser alive o =>
      match p.pending with
      | a :: rest =>
          let done := p.outputs.perform cfg.mode a
          ({ p with outputs := done.1, pending := rest }, [done.2])
      | [] =>
          let out := p.thread.step (.advance alive o)
          ({ p with thread := out.1, pending := out.2.flatMap (fun x => sinkActions cfg x.2) }, [])

/-! ## The invariant -/

/-- A uid is in `queue_ids` and in the output in use. -/
structure Registered (mode : Mode) (out : Outputs) (uid : Nat) : Prop where
  ids : uid ∈ out.queueIds.keys
  output :
    match mode with
    | .prometheus => u32 uid ∈ out.queueMeta.keys
    | .all => uid ∈ out.perQueueWriters.keys
    | .single => uid ∈ out.singleWriter.queues.keys

/-- Outputs only grow. -/
structure Outputs.Grows (out out' : Outputs) : Prop where
  ids : ∀ k ∈ out.queueIds.keys, k ∈ out'.queueIds.keys
  queueMeta : ∀ k ∈ out.queueMeta.keys, k ∈ out'.queueMeta.keys
  writers : ∀ k ∈ out.perQueueWriters.keys, k ∈ out'.perQueueWriters.keys
  single : ∀ k ∈ out.singleWriter.queues.keys, k ∈ out'.singleWriter.queues.keys

theorem Registered.mono {mode : Mode} {out out' : Outputs} {uid : Nat} (h : Registered mode out uid)
    (hg : out.Grows out') : Registered mode out' uid := by
  refine ⟨hg.ids uid h.ids, ?_⟩
  have hout := h.output
  cases mode with
  | prometheus => exact hg.queueMeta _ hout
  | all => exact hg.writers uid hout
  | single => exact hg.single uid hout

theorem Outputs.emplaceIds_grows (out : Outputs) (q : QueueInfo) : out.Grows (out.emplaceIds q) :=
  ⟨fun _ hk => OrdMap.mem_keys_emplace.2 (.inr hk), fun _ hk => hk, fun _ hk => hk, fun _ hk => hk⟩

theorem Outputs.registerQueue_grows (mode : Mode) (out : Outputs) (q : QueueInfo) :
    out.Grows (out.registerQueue mode q) := by
  cases mode with
  | prometheus =>
      exact ⟨fun _ hk => hk, fun _ hk => OrdMap.mem_keys_insert.2 (.inr hk), fun _ hk => hk,
        fun _ hk => hk⟩
  | all =>
      simp only [Outputs.registerQueue, Outputs.getWriter]
      split
      · exact ⟨fun _ hk => hk, fun _ hk => hk, fun _ hk => hk, fun _ hk => hk⟩
      · exact ⟨fun _ hk => hk, fun _ hk => hk, fun _ hk => OrdMap.mem_keys_insert.2 (.inr hk),
          fun _ hk => hk⟩
  | single =>
      exact ⟨fun _ hk => hk, fun _ hk => hk, fun _ hk => hk,
        fun _ hk => OrdMap.mem_keys_insert.2 (.inr hk)⟩

theorem Outputs.perform_grows (mode : Mode) (out : Outputs) (a : SinkAction) :
    out.Grows (out.perform mode a).1 := by
  have hrefl : out.Grows out := ⟨fun _ hk => hk, fun _ hk => hk, fun _ hk => hk, fun _ hk => hk⟩
  cases a with
  | footprint rec => exact hrefl
  | log rec => exact hrefl
  | route rec =>
      cases mode with
      | prometheus =>
          simp only [Outputs.perform]
          split
          · exact hrefl
          · exact hrefl
      | all =>
          simp only [Outputs.perform]
          split
          · exact hrefl
          · exact ⟨fun _ hk => hk, fun _ hk => hk, fun _ hk => OrdMap.mem_keys_insert.2 (.inr hk),
              fun _ hk => hk⟩
      | single =>
          refine ⟨fun _ hk => hk, fun _ hk => hk, fun _ hk => hk, fun _ hk => ?_⟩
          cases rec <;> exact hk

/-- Registering makes a queue of `queue_ids` registered. -/
theorem Outputs.registered_registerQueue {out : Outputs} {q : QueueInfo} (mode : Mode)
    (h : q.uid ∈ out.queueIds.keys) : Registered mode (out.registerQueue mode q) q.uid := by
  refine ⟨(out.registerQueue_grows mode q).ids _ h, ?_⟩
  cases mode with
  | prometheus => exact OrdMap.mem_keys_insert.2 (.inl rfl)
  | all =>
      simp only [Outputs.registerQueue, Outputs.getWriter]
      split
      · next w hw => exact OrdMap.find?_isSome.1 (Option.isSome_of_eq_some hw)
      · exact OrdMap.mem_keys_insert.2 (.inl rfl)
  | single => exact OrdMap.mem_keys_insert.2 (.inl rfl)

/-- A step of a sink finds a registered queue. -/
theorem Outputs.perform_found {mode : Mode} {out : Outputs} {a : SinkAction}
    (h : Registered mode out a.queueUid) : (out.perform mode a).2.found = true := by
  cases a with
  | footprint rec => exact OrdMap.find?_isSome.2 h.ids
  | log rec => exact OrdMap.find?_isSome.2 h.ids
  | route rec =>
      have hout := h.output
      cases mode with
      | prometheus =>
          simp only [Outputs.perform]
          split
          · next hnone => exact absurd (OrdMap.find?_isSome.2 hout) (by simp [SinkAction.queueUid, hnone])
          · rfl
      | all =>
          simp only [Outputs.perform]
          split
          · next hnone => exact absurd (OrdMap.find?_isSome.2 hout) (by simp [SinkAction.queueUid, hnone])
          · rfl
      | single => rfl

/-- What holds between any two actions. -/
structure RegisteredFirst (cfg : Settings) (p : Program) : Prop where
  /-- Inside `on_queue`, what comes before the next action has been done. -/
  onQueue :
    match p.onQueue with
    | .idle => True
    | .emplaceIds _ => True
    | .register q => q.uid ∈ p.outputs.queueIds.keys
    | .addQueue q => Registered cfg.mode p.outputs q.uid
  tracked : ∀ t ∈ p.thread.queues, Registered cfg.mode p.outputs t.state.info.uid
  own : ∀ t ∈ p.thread.queues, OwnRecords t.state
  pending : ∀ a ∈ p.pending, Registered cfg.mode p.outputs a.queueUid

namespace RegisteredFirst

variable {cfg : Settings} {p : Program}

/-- Outputs that grow keep what the parser thread relies on. -/
theorem grow (h : RegisteredFirst cfg p) {out : Outputs} (hg : p.outputs.Grows out) {onQueue : OnQueue}
    (hon : match onQueue with
      | .idle => True
      | .emplaceIds _ => True
      | .register q => q.uid ∈ out.queueIds.keys
      | .addQueue q => Registered cfg.mode out q.uid) :
    RegisteredFirst cfg { p with outputs := out, onQueue := onQueue } :=
  ⟨hon, fun t ht => (h.tracked t ht).mono hg, h.own, fun a ha => (h.pending a ha).mono hg⟩

/-- The records an event delivers are those of the queue it comes from. -/
theorem queueUid_sinkActions {cfg : Settings} {e : Event} {a : SinkAction}
    (ha : a ∈ sinkActions cfg e) : e.deliveredUid? = some a.queueUid := by
  cases e with
  | sink rec =>
      simp only [sinkActions, List.mem_append, List.mem_singleton] at ha
      rcases ha with (ha | ha) | rfl
      · split at ha
        · rw [List.mem_singleton.1 ha]
          rfl
        · cases ha
      · split at ha
        · rw [List.mem_singleton.1 ha]
          rfl
        · cases ha
      · rfl
  | sdmaSink rec =>
      simp only [sinkActions, List.mem_append, List.mem_singleton] at ha
      rcases ha with ha | rfl
      · split at ha
        · rw [List.mem_singleton.1 ha]
          rfl
        · cases ha
      · rfl
  | _ => cases ha

/-- The parser thread goes on in its loop. -/
theorem advance (h : RegisteredFirst cfg p) (alive : Bool) (o : PollObs) :
    RegisteredFirst cfg { p with
      thread := (p.thread.step (.advance alive o)).1
      pending := (p.thread.step (.advance alive o)).2.flatMap (fun x => sinkActions cfg x.2) } := by
  unfold ParserThread.step
  split
  · next i q heq => cases heq
  · next i alive' o' heq =>
      obtain ⟨rfl, rfl⟩ := ThreadInput.advance.inj heq
      split
      · exact ⟨h.onQueue, h.tracked, h.own, List.forall_mem_nil _⟩
      · next hd left hphase =>
          refine ⟨h.onQueue, fun t ht => ?_, fun t ht => ?_, fun a ha => ?_⟩
          · obtain ⟨u, hu, rfl⟩ := List.mem_map.1 ht
            split
            · have hinfo := (visit_own (h.own u hu) alive o).info
              rw [show (visit alive o u.state).1.info = u.state.info from hinfo]
              exact h.tracked u hu
            · exact h.tracked u hu
          · obtain ⟨u, hu, rfl⟩ := List.mem_map.1 ht
            split
            · exact (visit_own (h.own u hu) alive o).own
            · exact h.own u hu
          · obtain ⟨x, hx, ha⟩ := List.mem_flatMap.1 ha
            obtain ⟨u, hu, hx⟩ := List.mem_flatMap.1 hx
            obtain ⟨e, he, rfl⟩ := List.mem_map.1 hx
            have hmem := List.mem_of_mem_filter hu
            rw [(visit_own (h.own u hmem) alive o).delivered e he _ (queueUid_sinkActions ha)]
            exact h.tracked u hmem
      · refine ⟨h.onQueue, fun t ht => ?_, fun t ht => ?_, List.forall_mem_nil _⟩
        · exact h.tracked t (List.mem_of_mem_filter ht)
        · exact h.own t (List.mem_of_mem_filter ht)

/-- A registered queue reaches the parser. -/
theorem addQueue (h : RegisteredFirst cfg p) {q : QueueInfo} (hq : p.onQueue = .addQueue q) :
    RegisteredFirst cfg { p with thread := p.thread.addQueue q, onQueue := .idle } := by
  have hreg : Registered cfg.mode p.outputs q.uid := by
    have hon := h.onQueue
    rw [hq] at hon
    exact hon
  unfold ParserThread.addQueue
  split
  · exact ⟨trivial, h.tracked, h.own, h.pending⟩
  · refine ⟨trivial, fun t ht => ?_, fun t ht => ?_, h.pending⟩
    · rcases List.mem_append.1 ht with ht | ht
      · exact h.tracked t ht
      · rw [List.mem_singleton.1 ht]
        exact hreg
    · rcases List.mem_append.1 ht with ht | ht
      · exact h.own t ht
      · rw [List.mem_singleton.1 ht]
        exact ownRecords_new q

/-- **Every action of either thread keeps the order**, and finds what it looks up. -/
theorem step (h : RegisteredFirst cfg p) (i : ProgramInput) :
    RegisteredFirst cfg (p.step cfg i).1 ∧ ∀ x ∈ (p.step cfg i).2, x.found = true := by
  cases i with
  | discovered q version ringPhys =>
      simp only [Program.step]
      split
      · exact ⟨⟨trivial, h.tracked, h.own, h.pending⟩, List.forall_mem_nil _⟩
      · exact ⟨h, List.forall_mem_nil _⟩
  | discovery =>
      have hon := h.onQueue
      simp only [Program.step]
      split
      · exact ⟨h, List.forall_mem_nil _⟩
      · next q hq =>
          exact ⟨h.grow (p.outputs.emplaceIds_grows q) (OrdMap.mem_keys_emplace.2 (.inl rfl)),
            List.forall_mem_nil _⟩
      · next q hq =>
          rw [hq] at hon
          exact ⟨h.grow (p.outputs.registerQueue_grows cfg.mode q)
            (Outputs.registered_registerQueue cfg.mode hon), List.forall_mem_nil _⟩
      · next q hq => exact ⟨h.addQueue hq, List.forall_mem_nil _⟩
  | parser alive o =>
      simp only [Program.step]
      split
      · next a rest hpending =>
          have hreg := h.pending a (by simp [hpending])
          refine ⟨?_, fun x hx => ?_⟩
          · have hg := p.outputs.perform_grows cfg.mode a
            refine ⟨?_, fun t ht => (h.tracked t ht).mono hg, h.own, fun b hb => ?_⟩
            · have hon := h.onQueue
              cases hq : p.onQueue with
              | idle => trivial
              | emplaceIds q => trivial
              | register q =>
                  rw [hq] at hon
                  exact hg.ids _ hon
              | addQueue q =>
                  rw [hq] at hon
                  exact Registered.mono hon hg
            · exact (h.pending b (by simp [hpending, hb])).mono hg
          · rw [List.mem_singleton.1 hx]
            exact Outputs.perform_found hreg
      · exact ⟨h.advance alive o, List.forall_mem_nil _⟩

end RegisteredFirst

/-- **Records never precede registration.** Whatever the order in which the two threads act, every
    record the parser has delivered and a sink is about to look at belongs to a queue in `queue_ids`
    and in the output in use; and no lookup has missed: no record was counted as an error, logged
    without its labels, or dropped. -/
theorem records_follow_registration (cfg : Settings) (inputs : List ProgramInput) :
    (∀ a ∈ (Trace.run (Program.step cfg) {} inputs).1.pending,
        Registered cfg.mode (Trace.run (Program.step cfg) {} inputs).1.outputs a.queueUid) ∧
      ∀ x ∈ (Trace.run (Program.step cfg) {} inputs).2, x.found = true := by
  have hinv : RegisteredFirst cfg (Trace.run (Program.step cfg) {} inputs).1 ∧
      ∀ x ∈ (Trace.run (Program.step cfg) {} inputs).2, x.found = true := by
    refine Trace.run_invariant (fun p (es : List Outcome) => RegisteredFirst cfg p ∧ ∀ x ∈ es, x.found = true)
      ⟨⟨trivial, List.forall_mem_nil _, List.forall_mem_nil _, List.forall_mem_nil _⟩,
        List.forall_mem_nil _⟩ (fun p es i h => ?_) inputs
    obtain ⟨hnext, hfound⟩ := h.1.step i
    refine ⟨hnext, fun x hx => ?_⟩
    rcases List.mem_append.1 hx with hx | hx
    · exact h.2 x hx
    · exact hfound x hx
  exact ⟨hinv.1.pending, hinv.2⟩

end HsaSnoop
