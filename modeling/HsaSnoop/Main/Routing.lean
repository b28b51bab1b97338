import HsaSnoop.Main.Registration

set_option autoImplicit false

/-! # From the parser to the outputs

What the parser thread delivers goes through the sinks of `main`: a dispatch log line, and then the output
in use. Here a run of the two threads is recorded as a list of deeds, and compared with it.

Whatever the interleaving, the sinks do for each record what `sinkActions` lists, in order, once
(`actions_fifo`). So the trace writers hold the records of their queues and no others
(`writers_hold_records`), and the dispatch log has a line for each record it is about, with the labels of
its queue (`log_lines_complete`). -/

namespace HsaSnoop

/-! ## Deeds -/

/-- What happens in a run of the program. -/
inductive Deed
  /-- A visit of the parser thread performed an event. -/
  | parsed (e : Event)
  /-- `on_queue` registered a queue with the output in use. -/
  | registered (q : QueueInfo)
  /-- A sink took a step. -/
  | did (x : Outcome)

/-- The events of the parser thread's next action, if it is not inside a sink. -/
def Program.parses (p : Program) : ProgramInput → List Event
  | .parser alive o =>
      match p.pending with
      | [] => (p.thread.step (.advance alive o)).2.map Prod.snd
      | _ :: _ => []
  | _ => []

/-- The queue that the discovery thread's next action registers. -/
def Program.registers (p : Program) : ProgramInput → List QueueInfo
  | .discovery =>
      match p.onQueue with
      | .register q => [q]
      | _ => []
  | _ => []

/-- One action, with its deeds. -/
def Program.act (cfg : Settings) (p : Program) (i : ProgramInput) : Program × List Deed :=
  ((p.step cfg i).1, (p.parses i).map .parsed ++ (p.registers i).map .registered ++
    (p.step cfg i).2.map .did)

def Deed.event? : Deed → Option Event
  | .parsed e => some e
  | _ => none

def Deed.queue? : Deed → Option QueueInfo
  | .registered q => some q
  | _ => none

def Deed.outcome? : Deed → Option Outcome
  | .did x => some x
  | _ => none

/-- The record an event delivers. -/
def Event.record? : Event → Option SinkRecord
  | .sink rec => some (.packet rec)
  | .sdmaSink rec => some (.sdma rec)
  | _ => none

/-- The step of a sink that an outcome is the outcome of. -/
def Outcome.action : Outcome → SinkAction
  | .measured rec _ => .footprint rec
  | .logged rec _ => .log rec
  | .counted rec => .route rec
  | .unknownQueue rec => .route rec
  | .written rec => .route rec
  | .lost rec => .route rec

def SinkAction.routed? : SinkAction → Option SinkRecord
  | .route rec => some rec
  | _ => none

def SinkAction.logged? : SinkAction → Option SinkRecord
  | .log rec => some rec
  | _ => none

/-- The records the parser delivered. -/
def delivered (ds : List Deed) : List SinkRecord := (ds.filterMap Deed.event?).filterMap Event.record?

/-- The queues that were registered. -/
def registeredQueues (ds : List Deed) : List QueueInfo := ds.filterMap Deed.queue?

def outcomes (ds : List Deed) : List Outcome := ds.filterMap Deed.outcome?

/-- The records that were handed to the output in use. -/
def routed (ds : List Deed) : List SinkRecord :=
  ((outcomes ds).map Outcome.action).filterMap SinkAction.routed?

/-- The record of a log line, and the labels it is written with. -/
def Outcome.line? : Outcome → Option (SinkRecord × Option QueueIds)
  | .logged rec ids => some (rec, ids)
  | _ => none

/-- The lines of the dispatch log about records. -/
def logLines (ds : List Deed) : List (SinkRecord × Option QueueIds) := (outcomes ds).filterMap Outcome.line?

/-- The records the dispatch log is about. -/
def SinkRecord.isLogged (cfg : Settings) : SinkRecord → Bool
  | .packet rec => cfg.dispatchLog && rec.isKernDispatch
  | .sdma _ => cfg.dispatchLog

theorem outcomes_append (ds es : List Deed) : outcomes (ds ++ es) = outcomes ds ++ outcomes es :=
  List.filterMap_append

theorem routed_append (ds es : List Deed) : routed (ds ++ es) = routed ds ++ routed es := by
  rw [routed, outcomes_append, List.map_append, List.filterMap_append, routed, routed]

theorem registeredQueues_append (ds es : List Deed) :
    registeredQueues (ds ++ es) = registeredQueues ds ++ registeredQueues es :=
  List.filterMap_append

/-- The deeds of one action. -/
theorem deeds_act (cfg : Settings) (p : Program) (i : ProgramInput) :
    (p.act cfg i).2.filterMap Deed.event? = p.parses i ∧
      registeredQueues (p.act cfg i).2 = p.registers i ∧
      outcomes (p.act cfg i).2 = (p.step cfg i).2 := by
  simp [Program.act, registeredQueues, outcomes, List.filterMap_append, List.filterMap_map,
    Function.comp_def, Deed.event?, Deed.queue?, Deed.outcome?]

/-- The program of a run does not depend on what is recorded of it. -/
theorem run_act (cfg : Settings) (p : Program) (inputs : List ProgramInput) :
    (Trace.run (Program.act cfg) p inputs).1 = (Trace.run (Program.step cfg) p inputs).1 ∧
      outcomes (Trace.run (Program.act cfg) p inputs).2 = (Trace.run (Program.step cfg) p inputs).2 := by
  induction inputs generalizing p with
  | nil => exact ⟨rfl, rfl⟩
  | cons i inputs ih =>
      obtain ⟨hstate, hout⟩ := ih (p.step cfg i).1
      refine ⟨hstate, ?_⟩
      rw [Trace.run, Trace.run, outcomes_append, (deeds_act cfg p i).2.2]
      exact congrArg _ hout

/-! ## Sinks work in order -/

/-- What a step of a sink finds does not change what it was about. -/
theorem action_perform (mode : Mode) (out : Outputs) (a : SinkAction) :
    (out.perform mode a).2.action = a := by
  cases a with
  | footprint rec => rfl
  | log rec => rfl
  | route rec =>
      cases mode with
      | prometheus =>
          simp only [Outputs.perform]
          split <;> rfl
      | all =>
          simp only [Outputs.perform]
          split <;> rfl
      | single => rfl

/-- **The sinks do all of it, in order, once**: what they did, followed by what they still have to do, is
    what the parser's events ask for. -/
theorem actions_fifo (cfg : Settings) (inputs : List ProgramInput) :
    (outcomes (Trace.run (Program.act cfg) {} inputs).2).map Outcome.action ++
        (Trace.run (Program.act cfg) {} inputs).1.pending =
      ((Trace.run (Program.act cfg) {} inputs).2.filterMap Deed.event?).flatMap (sinkActions cfg) := by
  refine Trace.run_invariant
    (fun (p : Program) ds => (outcomes ds).map Outcome.action ++ p.pending =
      (ds.filterMap Deed.event?).flatMap (sinkActions cfg)) rfl (fun p ds i h => ?_) inputs
  obtain ⟨hevents, -, hout⟩ := deeds_act cfg p i
  rw [outcomes_append, List.map_append, List.filterMap_append, List.flatMap_append, hevents, hout, ← h]
  cases i with
  | discovered q version ringPhys =>
      simp only [Program.act, Program.step, Program.parses]
      split <;> simp
  | discovery =>
      simp only [Program.act, Program.step, Program.parses]
      split <;> simp
  | parser alive o =>
      cases hpending : p.pending with
      | nil =>
          simp [Program.act, Program.step, Program.parses, hpending, List.flatMap_map]
      | cons a rest =>
          simp [Program.act, Program.step, Program.parses, hpending, action_perform]

/-- Each record is routed once, and logged once if the log is about it. -/
theorem filterMap_sinkActions (cfg : Settings) (e : Event) :
    (sinkActions cfg e).filterMap SinkAction.routed? = e.record?.toList ∧
      (sinkActions cfg e).filterMap SinkAction.logged? =
        e.record?.toList.filter (SinkRecord.isLogged cfg) := by
  cases e with
  | sink rec =>
      simp only [sinkActions, List.filterMap_append]
      cases hmem : cfg.memMode && rec.isKernDispatch && rec.kernargAddress != 0 <;>
        cases hlog : cfg.dispatchLog && rec.isKernDispatch <;>
        simp [Event.record?, SinkRecord.isLogged, SinkAction.logged?, SinkAction.routed?, hlog,
          List.filterMap_cons]
  | sdmaSink rec =>
      simp only [sinkActions, List.filterMap_append]
      cases hlog : cfg.dispatchLog <;>
        simp [Event.record?, SinkRecord.isLogged, SinkAction.logged?, SinkAction.routed?, hlog]
  | _ => exact ⟨rfl, rfl⟩

theorem filterMap_flatMap_sinkActions (cfg : Settings) (es : List Event) :
    (es.flatMap (sinkActions cfg)).filterMap SinkAction.routed? = es.filterMap Event.record? ∧
      (es.flatMap (sinkActions cfg)).filterMap SinkAction.logged? =
        (es.filterMap Event.record?).filter (SinkRecord.isLogged cfg) := by
  induction es with
  | nil => exact ⟨rfl, rfl⟩
  | cons e es ih =>
      obtain ⟨hrouted, hlogged⟩ := filterMap_sinkActions cfg e
      have hcons : (e :: es).filterMap Event.record? = e.record?.toList ++ es.filterMap Event.record? := by
        cases hrec : e.record? with
        | none => rw [List.filterMap_cons_none hrec]; rfl
        | some rec => rw [List.filterMap_cons_some hrec]; rfl
      rw [List.flatMap_cons, List.filterMap_append, List.filterMap_append, ih.1, ih.2, hrouted, hlogged,
        hcons, List.filter_append]
      exact ⟨rfl, rfl⟩

/-- The lines are about the records of the log actions. -/
theorem logLines_records (ds : List Deed) :
    (logLines ds).map Prod.fst = ((outcomes ds).map Outcome.action).filterMap SinkAction.logged? := by
  rw [logLines, List.map_filterMap, List.filterMap_map]
  congr 1
  funext x
  cases x <;> rfl

/-- What the sinks have done with the records so far, and what they will do with the rest. -/
theorem sinks_fifo (cfg : Settings) (inputs : List ProgramInput) :
    routed (Trace.run (Program.act cfg) {} inputs).2 ++
        (Trace.run (Program.act cfg) {} inputs).1.pending.filterMap SinkAction.routed? =
      delivered (Trace.run (Program.act cfg) {} inputs).2 ∧
    (logLines (Trace.run (Program.act cfg) {} inputs).2).map Prod.fst ++
        (Trace.run (Program.act cfg) {} inputs).1.pending.filterMap SinkAction.logged? =
      (delivered (Trace.run (Program.act cfg) {} inputs).2).filter (SinkRecord.isLogged cfg) := by
  obtain ⟨hrouted, hlogged⟩ := filterMap_flatMap_sinkActions cfg
    ((Trace.run (Program.act cfg) {} inputs).2.filterMap Deed.event?)
  rw [← actions_fifo, List.filterMap_append] at hrouted hlogged
  rw [logLines_records]
  exact ⟨hrouted, hlogged⟩

/-! ## Registered queues -/

/-- The queue that was first registered under a uid. -/
def queueOf (qs : List QueueInfo) (uid : Nat) : Option QueueInfo := qs.find? (fun q => q.uid = uid)

theorem queueOf_append (qs rs : List QueueInfo) (uid : Nat) :
    queueOf (qs ++ rs) uid = (queueOf qs uid).or (queueOf rs uid) :=
  List.find?_append

theorem queueOf_concat (qs : List QueueInfo) (q : QueueInfo) (uid : Nat) :
    queueOf (qs ++ [q]) uid =
      (queueOf qs uid).or (if q.uid = uid then some q else none) := by
  rw [queueOf_append]
  by_cases h : q.uid = uid <;> simp [queueOf, h]

theorem queueOf_isSome {qs : List QueueInfo} {uid : Nat} :
    (queueOf qs uid).isSome ↔ uid ∈ qs.map QueueInfo.uid := by
  simp [queueOf, List.mem_map]

theorem mem_of_queueOf {qs : List QueueInfo} {uid : Nat} {q : QueueInfo} (h : queueOf qs uid = some q) :
    q ∈ qs ∧ q.uid = uid := by
  rw [queueOf] at h
  exact ⟨List.mem_of_find?_eq_some h, by simpa using List.find?_some h⟩

/-- The queue `on_queue` has entered in `queue_ids` and not registered yet. -/
def OnQueue.entered : OnQueue → List QueueInfo
  | .register q => [q]
  | _ => []

/-- The threads only know queues that were registered. -/
structure Knows (p : Program) (uids : List Nat) : Prop where
  addQueue : ∀ q, p.onQueue = .addQueue q → q.uid ∈ uids
  tracked : ∀ t ∈ p.thread.queues, t.state.info.uid ∈ uids
  own : ∀ t ∈ p.thread.queues, OwnRecords t.state
  pending : ∀ a ∈ p.pending, a.queueUid ∈ uids

namespace Knows

variable {p : Program} {uids : List Nat}

theorem mono (h : Knows p uids) {uids' : List Nat} (hsub : uids ⊆ uids') : Knows p uids' :=
  ⟨fun q hq => hsub (h.addQueue q hq), fun t ht => hsub (h.tracked t ht), h.own,
    fun a ha => hsub (h.pending a ha)⟩

/-- A visit delivers records of the visited queue. -/
theorem advance (h : Knows p uids) (cfg : Settings) (alive : Bool) (o : PollObs) :
    Knows { p with
      thread := (p.thread.step (.advance alive o)).1
      pending := (p.thread.step (.advance alive o)).2.flatMap (fun x => sinkActions cfg x.2) } uids := by
  unfold ParserThread.step
  split
  · next heq => cases heq
  · next alive' o' heq =>
      obtain ⟨rfl, rfl⟩ := ThreadInput.advance.inj heq
      split
      · exact ⟨h.addQueue, h.tracked, h.own, List.forall_mem_nil _⟩
      · refine ⟨h.addQueue, fun t ht => ?_, fun t ht => ?_, fun a ha => ?_⟩
        · obtain ⟨u, hu, rfl⟩ := List.mem_map.1 ht
          split
          · rw [(visit_own (h.own u hu) alive o).info]
            exact h.tracked u hu
          · exact h.tracked u hu
        · obtain ⟨u, hu, rfl⟩ := List.mem_map.1 ht
          split
          · exact (visit_own (h.own u hu) alive o).own
          · exact h.own u hu
        · obtain ⟨x, hx, ha⟩ := List.mem_flatMap.1 ha
          obtain ⟨u, hu, hx⟩ := List.mem_flatMap.1 hx
          obtain ⟨e, he, rfl⟩ := List.mem_map.1 hx
          have hmem := List.mem_of_mem_filter hu
          rw [(visit_own (h.own u hmem) alive o).delivered e he _
            (RegisteredFirst.queueUid_sinkActions ha)]
          exact h.tracked u hmem
      · exact ⟨h.addQueue, fun t ht => h.tracked t (List.mem_of_mem_filter ht),
          fun t ht => h.own t (List.mem_of_mem_filter ht), List.forall_mem_nil _⟩

/-- A registered queue reaches the parser. -/
theorem addQueue_thread (h : Knows p uids) {q : QueueInfo} (hq : q.uid ∈ uids) :
    Knows { p with thread := p.thread.addQueue q, onQueue := .idle } uids := by
  unfold ParserThread.addQueue
  split
  · exact ⟨(fun _ hon => nomatch hon), h.tracked, h.own, h.pending⟩
  · refine ⟨(fun _ hon => nomatch hon), fun t ht => ?_, fun t ht => ?_, h.pending⟩
    · rcases List.mem_append.1 ht with ht | ht
      · exact h.tracked t ht
      · rw [List.mem_singleton.1 ht]
        exact hq
    · rcases List.mem_append.1 ht with ht | ht
      · exact h.own t ht
      · rw [List.mem_singleton.1 ht]
        exact ownRecords_new q

/-- **One action**: what the threads know next was registered by now. -/
theorem act (h : Knows p uids) (cfg : Settings) (i : ProgramInput) :
    Knows (p.act cfg i).1 (uids ++ (p.registers i).map QueueInfo.uid) := by
  cases i with
  | discovered q version ringPhys =>
      simp only [Program.act, Program.step, Program.registers, List.map_nil, List.append_nil]
      split
      · refine ⟨fun q' hon => ?_, h.tracked, h.own, h.pending⟩
        cases hon
      · exact h
  | discovery =>
      cases hon : p.onQueue with
      | idle =>
          simp only [Program.act, Program.step, Program.registers, hon, List.map_nil, List.append_nil]
          exact h
      | emplaceIds q =>
          simp only [Program.act, Program.step, Program.registers, hon, List.map_nil, List.append_nil]
          refine ⟨fun q' hon' => ?_, h.tracked, h.own, h.pending⟩
          cases hon'
      | register q =>
          simp only [Program.act, Program.step, Program.registers, hon]
          have hgrow := h.mono (List.subset_append_left uids ([q].map QueueInfo.uid))
          refine ⟨fun q' hon' => ?_, hgrow.tracked, hgrow.own, hgrow.pending⟩
          obtain rfl := OnQueue.addQueue.inj hon'
          exact List.mem_append_right _ (List.mem_singleton_self _)
      | addQueue q =>
          simp only [Program.act, Program.step, Program.registers, hon, List.map_nil, List.append_nil]
          exact h.addQueue_thread (h.addQueue q hon)
  | parser alive o =>
      cases hpending : p.pending with
      | nil =>
          simp only [Program.act, Program.step, Program.registers, hpending, List.map_nil, List.append_nil]
          exact h.advance cfg alive o
      | cons a rest =>
          simp only [Program.act, Program.step, Program.registers, hpending, List.map_nil, List.append_nil]
          exact ⟨h.addQueue, h.tracked, h.own, fun b hb => h.pending b (by simp [hpending, hb])⟩

end Knows

/-! ## What the outputs hold -/

/-- A writer that was told of some queues and given some records. -/
def writerOf (qs : List QueueInfo) (rs : List SinkRecord) : TraceWriter :=
  rs.foldl TraceWriter.add (qs.foldl TraceWriter.registerQueue {})

theorem writerOf_add (qs : List QueueInfo) (rs : List SinkRecord) (rec : SinkRecord) :
    writerOf qs (rs ++ [rec]) = (writerOf qs rs).add rec := by
  rw [writerOf, List.foldl_append]
  rfl

theorem registerQueue_foldl_add (w : TraceWriter) (q : QueueInfo) (rs : List SinkRecord) :
    (rs.foldl TraceWriter.add w).registerQueue q = rs.foldl TraceWriter.add (w.registerQueue q) := by
  induction rs generalizing w with
  | nil => rfl
  | cons rec rs ih =>
      rw [List.foldl_cons, List.foldl_cons, ih]
      cases rec <;> rfl

/-- When a queue is registered does not matter to its writer. -/
theorem writerOf_registerQueue (qs : List QueueInfo) (rs : List SinkRecord) (q : QueueInfo) :
    writerOf (qs ++ [q]) rs = (writerOf qs rs).registerQueue q := by
  rw [writerOf, writerOf, registerQueue_foldl_add, List.foldl_append]
  rfl

/-- The records of one queue. -/
def recordsOf (rs : List SinkRecord) (uid : Nat) : List SinkRecord :=
  rs.filter (fun rec => rec.queueUid = uid)

theorem recordsOf_concat (rs : List SinkRecord) (rec : SinkRecord) (uid : Nat) :
    recordsOf (rs ++ [rec]) uid = recordsOf rs uid ++ if rec.queueUid = uid then [rec] else [] := by
  rw [recordsOf, List.filter_append, recordsOf]
  by_cases h : rec.queueUid = uid <;> simp [h]

/-- The writers in use hold these queues and records: one for each uid, or one for all. -/
def WritersHold (mode : Mode) (out : Outputs) (qs : List QueueInfo) (rs : List SinkRecord) : Prop :=
  match mode with
  | .prometheus => True
  | .all => ∀ uid, out.perQueueWriters.find? uid =
      (queueOf qs uid).map (fun q => writerOf [q] (recordsOf rs uid))
  | .single => out.singleWriter = writerOf qs rs

/-- A queue is registered that no record was of. -/
theorem WritersHold.registerQueue {mode : Mode} {out : Outputs} {qs : List QueueInfo}
    {rs : List SinkRecord} (h : WritersHold mode out qs rs)
    (hrs : ∀ rec ∈ rs, rec.queueUid ∈ qs.map QueueInfo.uid) (q : QueueInfo) :
    WritersHold mode (out.registerQueue mode q) (qs ++ [q]) rs := by
  cases mode with
  | prometheus => trivial
  | single =>
      simp only [WritersHold] at h ⊢
      rw [writerOf_registerQueue, ← h]
      rfl
  | all =>
      intro uid
      have hold := h q.uid
      simp only [Outputs.registerQueue, Outputs.getWriter]
      rw [queueOf_concat]
      split
      · next w hw =>
          rw [h uid]
          by_cases hq : q.uid = uid
          · -- The queue of this uid is the one that was there before.
            rw [hw] at hold
            obtain ⟨q', hq', -⟩ := Option.map_eq_some_iff.1 hold.symm
            rw [← hq, hq', Option.some_or]
          · rw [if_neg hq, Option.or_none]
      · next hnone =>
          rw [hnone] at hold
          have hfresh : queueOf qs q.uid = none := Option.map_eq_none_iff.1 hold.symm
          rw [OrdMap.find?_insert]
          by_cases hq : uid = q.uid
          · have hempty : recordsOf rs q.uid = [] := by
              rw [recordsOf, List.filter_eq_nil_iff]
              intro rec hrec heq
              have huid := queueOf_isSome.2 (hrs rec hrec)
              rw [of_decide_eq_true heq, hfresh] at huid
              cases huid
            rw [if_pos hq, hq, hfresh, if_pos rfl, Option.none_or, Option.map_some, hempty]
            rfl
          · rw [if_neg hq, if_neg (Ne.symm hq), Option.or_none, h uid]

/-- A record of a registered queue is routed. -/
theorem WritersHold.route {mode : Mode} {out : Outputs} {qs : List QueueInfo} {rs : List SinkRecord}
    (h : WritersHold mode out qs rs) {rec : SinkRecord} (hrec : rec.queueUid ∈ qs.map QueueInfo.uid) :
    WritersHold mode (out.perform mode (.route rec)).1 qs (rs ++ [rec]) := by
  cases mode with
  | prometheus => trivial
  | single =>
      simp only [WritersHold] at h ⊢
      rw [writerOf_add, ← h]
      rfl
  | all =>
      obtain ⟨q, hq⟩ := Option.isSome_iff_exists.1 (queueOf_isSome.2 hrec)
      have hw := h rec.queueUid
      rw [hq, Option.map_some] at hw
      intro uid
      simp only [Outputs.perform, hw]
      rw [OrdMap.find?_insert, recordsOf_concat]
      by_cases huid : uid = rec.queueUid
      · rw [if_pos huid, huid, if_pos rfl, hq, Option.map_some, writerOf_add]
      · rw [if_neg huid, if_neg (Ne.symm huid), List.append_nil]
        exact h uid

/-! ## The run -/

/-- What holds between two actions of what was done so far. -/
structure Routing (cfg : Settings) (p : Program) (ds : List Deed) : Prop where
  knows : Knows p ((registeredQueues ds).map QueueInfo.uid)
  routed : ∀ rec ∈ routed ds, rec.queueUid ∈ (registeredQueues ds).map QueueInfo.uid
  ids : ∀ uid, p.outputs.queueIds.find? uid =
    (queueOf (registeredQueues ds ++ p.onQueue.entered) uid).map QueueInfo.ids
  writers : WritersHold cfg.mode p.outputs (registeredQueues ds) (HsaSnoop.routed ds)
  /-- Sinks work for queues that were registered before, and label lines with them. -/
  announced : ∀ pre post x, ds = pre ++ .did x :: post →
    ∃ q, queueOf (registeredQueues pre) x.action.queueUid = some q ∧
      ∀ rec ids, x = .logged rec ids → ids = some q.ids

theorem Routing.init (cfg : Settings) : Routing cfg {} [] where
  knows := ⟨(fun _ hon => nomatch hon), List.forall_mem_nil _, List.forall_mem_nil _, List.forall_mem_nil _⟩
  routed := List.forall_mem_nil _
  ids := fun _ => rfl
  writers := by
    obtain ⟨mode, -, -⟩ := cfg
    cases mode with
    | prometheus => trivial
    | all => exact fun _ => rfl
    | single => rfl
  announced := fun pre post x hsplit => by
    cases pre <;> cases hsplit

/-- More deeds, each as it should be. -/
theorem announced_append {ds es : List Deed} {P : List Deed → Outcome → Prop}
    (h : ∀ pre post x, ds = pre ++ .did x :: post → P pre x)
    (hes : ∀ pre post x, es = pre ++ .did x :: post → P (ds ++ pre) x) :
    ∀ pre post x, ds ++ es = pre ++ .did x :: post → P pre x := by
  intro pre post x hsplit
  rcases List.append_eq_append_iff.1 hsplit with ⟨mid, rfl, hmid⟩ | ⟨mid, hpre, hmid⟩
  · exact hes mid post x hmid
  · cases mid with
    | nil =>
        rw [List.nil_append] at hmid
        rw [List.append_nil] at hpre
        have hlast := hes [] post x hmid.symm
        rwa [List.append_nil, hpre] at hlast
    | cons d mid =>
        obtain ⟨rfl, -⟩ := List.cons.inj hmid
        exact h pre mid x hpre

namespace Routing

variable {cfg : Settings} {p : Program} {ds : List Deed}

/-- Only the threads go on. -/
theorem quiet (h : Routing cfg p ds) (p' : Program) (houtputs : p'.outputs = p.outputs)
    (hentered : p'.onQueue.entered = p.onQueue.entered)
    (hknows : Knows p' ((registeredQueues ds).map QueueInfo.uid)) : Routing cfg p' ds := by
  refine ⟨hknows, h.routed, fun uid => ?_, ?_, h.announced⟩
  · rw [houtputs, hentered]
    exact h.ids uid
  · rw [houtputs]
    exact h.writers

/-- The events of a visit concern the sinks only. -/
theorem parse (h : Routing cfg p ds) (es : List Event) : Routing cfg p (ds ++ es.map .parsed) := by
  have hqueues : registeredQueues (ds ++ es.map .parsed) = registeredQueues ds := by
    rw [registeredQueues_append]
    simp [registeredQueues, List.filterMap_map, Function.comp_def, Deed.queue?]
  have hrouted : HsaSnoop.routed (ds ++ es.map .parsed) = HsaSnoop.routed ds := by
    rw [routed_append]
    simp [HsaSnoop.routed, outcomes, List.filterMap_map, Function.comp_def, Deed.outcome?]
  refine ⟨?_, ?_, fun uid => ?_, ?_, announced_append h.announced fun pre post x hsplit => ?_⟩
  · rw [hqueues]
    exact h.knows
  · rw [hqueues, hrouted]
    exact h.routed
  · rw [hqueues]
    exact h.ids uid
  · rw [hqueues, hrouted]
    exact h.writers
  · have hmem : Deed.did x ∈ es.map Deed.parsed := by rw [hsplit]; simp
    obtain ⟨e, -, he⟩ := List.mem_map.1 hmem
    cases he

/-- `on_queue` enters a queue. -/
theorem enter (h : Routing cfg p ds) {q : QueueInfo} (hq : p.onQueue = .emplaceIds q)
    (hknows : Knows { p with outputs := p.outputs.emplaceIds q, onQueue := .register q }
      ((registeredQueues ds).map QueueInfo.uid)) :
    Routing cfg { p with outputs := p.outputs.emplaceIds q, onQueue := .register q } ds := by
  refine ⟨hknows, h.routed, fun uid => ?_, ?_, h.announced⟩
  · have hids : ∀ uid, p.outputs.queueIds.find? uid =
        (queueOf (registeredQueues ds) uid).map QueueInfo.ids := by
      intro uid
      rw [h.ids, hq]
      exact congrArg (fun qs => (queueOf qs uid).map QueueInfo.ids) (List.append_nil _)
    rw [OnQueue.entered, queueOf_concat, Outputs.emplaceIds, OrdMap.find?_emplace, hids, hids]
    by_cases huid : uid = q.uid
    · rw [if_pos huid, if_pos huid.symm, huid]
      cases queueOf (registeredQueues ds) q.uid <;> rfl
    · rw [if_neg huid, if_neg (Ne.symm huid), Option.or_none]
  · have hwriters := h.writers
    cases hmode : cfg.mode with
    | prometheus => trivial
    | all => rw [hmode] at hwriters; exact hwriters
    | single => rw [hmode] at hwriters; exact hwriters

/-- `on_queue` registers the queue it has entered. -/
theorem register (h : Routing cfg p ds) {q : QueueInfo} (hq : p.onQueue = .register q)
    (hknows : Knows { p with outputs := p.outputs.registerQueue cfg.mode q, onQueue := .addQueue q }
      ((registeredQueues ds ++ [q]).map QueueInfo.uid)) :
    Routing cfg { p with outputs := p.outputs.registerQueue cfg.mode q, onQueue := .addQueue q }
      (ds ++ [.registered q]) := by
  have hqueues : registeredQueues (ds ++ [.registered q]) = registeredQueues ds ++ [q] :=
    registeredQueues_append ds [.registered q]
  have hrouted : HsaSnoop.routed (ds ++ [.registered q]) = HsaSnoop.routed ds := by
    rw [routed_append]
    exact List.append_nil _
  refine ⟨?_, fun rec hrec => ?_, fun uid => ?_, ?_, announced_append h.announced fun pre post x hsplit => ?_⟩
  · rw [hqueues]
    exact hknows
  · rw [hqueues, List.map_append]
    rw [hrouted] at hrec
    exact List.mem_append_left _ (h.routed rec hrec)
  · have hids := h.ids uid
    rw [hq] at hids
    rw [hqueues]
    refine Eq.trans ?_ (hids.trans ?_)
    · cases hmode : cfg.mode with
      | prometheus => rfl
      | single => rfl
      | all =>
          simp only [Outputs.registerQueue, Outputs.getWriter]
          split <;> rfl
    · simp only [OnQueue.entered, List.append_nil]
  · rw [hqueues, hrouted]
    exact h.writers.registerQueue h.routed q
  · cases pre with
    | nil => cases hsplit
    | cons d pre => cases pre <;> cases hsplit

/-- A sink takes its next step. -/
theorem perform (h : Routing cfg p ds) {a : SinkAction} {rest : List SinkAction}
    (hpending : p.pending = a :: rest)
    (hknows : Knows { p with outputs := (p.outputs.perform cfg.mode a).1, pending := rest }
      ((registeredQueues ds).map QueueInfo.uid)) :
    Routing cfg { p with outputs := (p.outputs.perform cfg.mode a).1, pending := rest }
      (ds ++ [.did (p.outputs.perform cfg.mode a).2]) := by
  have hqueues : registeredQueues (ds ++ [.did (p.outputs.perform cfg.mode a).2]) =
      registeredQueues ds := by
    rw [registeredQueues_append]
    exact List.append_nil _
  have hrouted : HsaSnoop.routed (ds ++ [.did (p.outputs.perform cfg.mode a).2]) =
      HsaSnoop.routed ds ++ a.routed?.toList := by
    rw [routed_append]
    congr 1
    simp only [HsaSnoop.routed, outcomes, List.filterMap_cons, List.filterMap_nil, Deed.outcome?,
      List.map_cons, List.map_nil, action_perform]
    cases a.routed? <;> rfl
  have huid : a.queueUid ∈ (registeredQueues ds).map QueueInfo.uid :=
    h.knows.pending a (by simp [hpending])
  have hids : (p.outputs.perform cfg.mode a).1.queueIds = p.outputs.queueIds := by
    cases a with
    | footprint rec => rfl
    | log rec => rfl
    | route rec =>
        simp only [Outputs.perform]
        split
        · split <;> rfl
        · split <;> rfl
        · rfl
  refine ⟨?_, fun rec hrec => ?_, fun uid => ?_, ?_, announced_append h.announced fun pre post x hsplit => ?_⟩
  · rw [hqueues]
    exact hknows
  · rw [hqueues]
    rw [hrouted] at hrec
    rcases List.mem_append.1 hrec with hrec | hrec
    · exact h.routed rec hrec
    · cases a with
      | footprint _ => cases hrec
      | log _ => cases hrec
      | route rec' => rw [List.mem_singleton.1 hrec]; exact huid
  · rw [hqueues, hids]
    exact h.ids uid
  · rw [hqueues, hrouted]
    have hsame : a.routed? = none →
        WritersHold cfg.mode p.outputs (registeredQueues ds) (HsaSnoop.routed ds ++ a.routed?.toList) := by
      intro hnone
      rw [hnone, Option.toList_none, List.append_nil]
      exact h.writers
    cases a with
    | footprint _ => exact hsame rfl
    | log _ => exact hsame rfl
    | route rec' => exact h.writers.route huid
  · -- A line just written has the labels of the queue that was first entered.
    cases pre with
    | cons d pre => cases pre <;> cases hsplit
    | nil =>
        obtain ⟨hdid, -⟩ := List.cons.inj hsplit
        obtain rfl := Deed.did.inj hdid
        obtain ⟨q, hq⟩ := Option.isSome_iff_exists.1 (queueOf_isSome.2 huid)
        rw [List.append_nil, action_perform]
        refine ⟨q, hq, fun rec ids hline => ?_⟩
        have haction := action_perform cfg.mode p.outputs a
        rw [hline] at haction
        obtain rfl := haction
        obtain ⟨-, rfl⟩ := Outcome.logged.inj hline
        rw [h.ids, queueOf_append, show queueOf _ rec.queueUid = some q from hq]
        rfl

/-- **Every action of either thread keeps the routing.** -/
theorem act (h : Routing cfg p ds) (i : ProgramInput) :
    Routing cfg (p.act cfg i).1 (ds ++ (p.act cfg i).2) := by
  have hknows := h.knows.act cfg i
  cases i with
  | discovered q version ringPhys =>
      simp only [Program.registers, List.map_nil, List.append_nil] at hknows
      have hdeeds : (p.act cfg (.discovered q version ringPhys)).2 = [] := by
        simp only [Program.act, Program.step]
        split <;> rfl
      rw [hdeeds, List.append_nil]
      refine h.quiet _ ?_ ?_ hknows
      · simp only [Program.act, Program.step]
        split <;> rfl
      · simp only [Program.act, Program.step]
        split
        · next hon _ => rw [hon]; rfl
        · rfl
  | discovery =>
      cases hon : p.onQueue with
      | idle =>
          simp only [Program.act, Program.step, Program.parses, Program.registers, hon, List.map_nil,
            List.append_nil]
          exact h
      | emplaceIds q =>
          simp only [Program.act, Program.step, Program.parses, Program.registers, hon, List.map_nil,
            List.append_nil] at hknows ⊢
          exact h.enter hon hknows
      | register q =>
          simp only [Program.act, Program.step, Program.parses, Program.registers, hon,
            ← List.map_append] at hknows ⊢
          exact h.register hon hknows
      | addQueue q =>
          simp only [Program.act, Program.step, Program.parses, Program.registers, hon, List.map_nil,
            List.append_nil] at hknows ⊢
          exact h.quiet _ rfl (by rw [hon]; rfl) hknows
  | parser alive o =>
      cases hpending : p.pending with
      | nil =>
          simp only [Program.act, Program.step, Program.parses, Program.registers, hpending, List.map_nil,
            List.append_nil] at hknows ⊢
          have hquiet := h.quiet { p with
            thread := (p.thread.step (.advance alive o)).1
            pending := (p.thread.step (.advance alive o)).2.flatMap (fun x => sinkActions cfg x.2) }
            rfl rfl hknows
          exact hquiet.parse _
      | cons a rest =>
          simp only [Program.act, Program.step, Program.parses, Program.registers, hpending, List.map_nil,
            List.append_nil] at hknows ⊢
          exact h.perform hpending hknows

end Routing

/-- The deeds of a run, and what holds after it. -/
theorem routing_run (cfg : Settings) (inputs : List ProgramInput) :
    Routing cfg (Trace.run (Program.act cfg) {} inputs).1 (Trace.run (Program.act cfg) {} inputs).2 :=
  Trace.run_invariant (Routing cfg) (Routing.init cfg) (fun _ _ i h => h.act i) inputs

/-- **No record is lost, repeated or overtaken**, and writers hold exactly their records. Whatever the
    order in which the two threads act, what the output in use was handed, followed by what the sinks
    still have to hand over, is what the parser delivered. With `--all` the writer of a uid was told of
    the queue first registered under it, and holds the records handed over under that uid, in order, and
    no others; there is no writer for a uid that was not registered. The one writer of the other mode was
    told of all queues and holds all records. -/
theorem writers_hold_records (cfg : Settings) (inputs : List ProgramInput) :
    routed (Trace.run (Program.act cfg) {} inputs).2 ++
        (Trace.run (Program.act cfg) {} inputs).1.pending.filterMap SinkAction.routed? =
      delivered (Trace.run (Program.act cfg) {} inputs).2 ∧
    WritersHold cfg.mode (Trace.run (Program.act cfg) {} inputs).1.outputs
      (registeredQueues (Trace.run (Program.act cfg) {} inputs).2)
      (routed (Trace.run (Program.act cfg) {} inputs).2) :=
  ⟨(sinks_fifo cfg inputs).1, (routing_run cfg inputs).writers⟩

/-- **The dispatch log is complete and names its queues.** It has one line for each record it is about,
    in the order of delivery, but for those the sinks still have to write; and each line is written after
    the record's queue was registered, with the labels of the queue first registered under its uid. -/
theorem log_lines_complete (cfg : Settings) (inputs : List ProgramInput) :
    (logLines (Trace.run (Program.act cfg) {} inputs).2).map Prod.fst ++
        (Trace.run (Program.act cfg) {} inputs).1.pending.filterMap SinkAction.logged? =
      (delivered (Trace.run (Program.act cfg) {} inputs).2).filter (SinkRecord.isLogged cfg) ∧
    ∀ pre post rec ids,
      (Trace.run (Program.act cfg) {} inputs).2 = pre ++ .did (.logged rec ids) :: post →
        ∃ q, queueOf (registeredQueues pre) rec.queueUid = some q ∧ ids = some q.ids := by
  refine ⟨(sinks_fifo cfg inputs).2, fun pre post rec ids hsplit => ?_⟩
  obtain ⟨q, hq, hids⟩ := (routing_run cfg inputs).announced pre post (.logged rec ids) hsplit
  exact ⟨q, hq, hids rec ids rfl⟩

/-- Two queues are reported and registered. -/
def twoReported : List ProgramInput :=
  [.discovered { uid := 1, qtype := 2 } .unknown 0, .discovery, .discovery, .discovery,
    .discovered { uid := 2, qtype := 3, gpuId := 7 } .v7 0, .discovery, .discovery]

end HsaSnoop
