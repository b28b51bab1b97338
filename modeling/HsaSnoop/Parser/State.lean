import Mathlib.Order.Monotone.Basic
import HsaSnoop.Library.Trace
import HsaSnoop.Model.Ksym
import HsaSnoop.Model.Records

set_option autoImplicit false

/-! # Parser state, observations and events

What `RingParser` keeps per queue (`QueueState`), what one poll of a queue sees of the outside
(`PollObs`) and what it does (`Event`). A poll is then a function from state and observation to state
and events, and a sequence of polls is a `Trace.run` of it.

Only `sink` and `sdmaSink` leave the parser. The other events mark the points of the code where a
packet is put in flight, positions are counted in `dropped`, or both pointers have been read; they
change nothing and exist so that statements can speak about those points. -/

namespace HsaSnoop

/-- `RingParser::QueueState`. -/
structure QueueState where
  info : QueueInfo
  ksym : KernelSymbolResolver := {}
  /-- AQL: next dispatch id; SDMA: next ring dword. -/
  nextId : Nat := 0
  lastRptr : Nat := 0
  primed : Bool := false
  dropped : Nat := 0
  /-- AQL: id to record. -/
  inflight : OrdMap PacketRecord := ∅
  /-- SDMA packet counter. -/
  sdmaSeq : Nat := 0
  /-- SDMA: end dword to record. -/
  sdmaInflight : OrdMap SdmaRecord := ∅
  /-- Page-aligned VA to "host-backed". -/
  pageHost : OrdMap Bool := ∅
  /-- Consecutive pointer-read failures. -/
  readFailCount : Nat := 0
  evict : Bool := false

/-- A freshly added queue. -/
def QueueState.new (q : QueueInfo) : QueueState := { info := q }

/-- What one poll of a queue observes. The poll takes time, so the process may look different at each
    position it decodes: `mem id` is the process at the moment position `id` is looked at. -/
structure PollObs where
  now : Time
  /-- What `ReadQueuePtr` gives for the write pointer. -/
  wptr : Option UInt64
  /-- What `ReadQueuePtr` gives for the read pointer. -/
  rptr : Option UInt64
  mem : Nat → ProcMem

/-- The pointers of a poll that could read both. -/
def PollObs.pointers? (o : PollObs) : Option (Nat × Nat) :=
  match o.wptr, o.rptr with
  | some wptr, some rptr => some (wptr.toNat, rptr.toNat)
  | _, _ => none

theorem PollObs.pointers?_eq_some {o : PollObs} {p : Nat × Nat} :
    o.pointers? = some p ↔
      ∃ wptr rptr, o.wptr = some wptr ∧ o.rptr = some rptr ∧ p = (wptr.toNat, rptr.toNat) := by
  unfold PollObs.pointers?
  cases o.wptr <;> cases o.rptr <;> simp [eq_comm]

theorem PollObs.pointers?_eq_none {o : PollObs} :
    o.pointers? = none ↔ o.wptr = none ∨ o.rptr = none := by
  unfold PollObs.pointers?
  cases o.wptr <;> cases o.rptr <;> simp

/-- A poll that reads both pointers and sees one picture of the process throughout. -/
def PollObs.still (now : Time) (wptr rptr : UInt64) (m : ProcMem) : PollObs where
  now := now
  wptr := some wptr
  rptr := some rptr
  mem := fun _ => m

/-- The pointers of the polls that could read them never decrease. -/
def MonotonePointers (os : List PollObs) : Prop :=
  (os.filterMap PollObs.pointers?).Pairwise (fun a b => a.1 ≤ b.1 ∧ a.2 ≤ b.2)

instance (os : List PollObs) : Decidable (MonotonePointers os) :=
  inferInstanceAs (Decidable (List.Pairwise _ _))

/-- What a poll does, in order. -/
inductive Event
  /-- Both queue pointers were read (SDMA: already converted to dwords). -/
  | pointers (wptr rptr : Nat)
  /-- `sink_(rec)`. -/
  | sink (rec : PacketRecord)
  /-- `inflight.emplace(rec.dispatch_id, rec)`. -/
  | park (rec : PacketRecord)
  /-- `sdma_sink_(rec)`. -/
  | sdmaSink (rec : SdmaRecord)
  /-- `sdma_inflight.emplace(start + len, rec)`, for a packet of `len` dwords at `start`. -/
  | sdmaPark (start len : Nat) (rec : SdmaRecord)
  /-- `dropped += n`, for the `n` positions from `pos` on. -/
  | drop (pos n : Nat)

/-! ## Reading a trace -/

/-- The record an event gives to `sink_`. -/
@[simp] def Event.sunk? : Event → Option PacketRecord
  | .sink rec => some rec
  | _ => none

/-- The record an event gives to `sdma_sink_`. -/
@[simp] def Event.sdmaSunk? : Event → Option SdmaRecord
  | .sdmaSink rec => some rec
  | _ => none

/-- The read pointer, where an event marks that both pointers were read. -/
@[simp] def Event.rptr? : Event → Option Nat
  | .pointers _ rptr => some rptr
  | _ => none

/-- The positions an event counts in `dropped`. -/
@[simp] def Event.droppedIds : Event → List Nat
  | .drop pos n => List.range' pos n
  | _ => []

/-- The records given to `sink_`, in order. -/
def sinkRecords (es : List Event) : List PacketRecord := es.filterMap Event.sunk?

/-- The ids given to `sink_`, in order. -/
def sinkIds (es : List Event) : List Nat := (sinkRecords es).map PacketRecord.dispatchId

/-- The records given to `sdma_sink_`, in order. -/
def sdmaRecords (es : List Event) : List SdmaRecord := es.filterMap Event.sdmaSunk?

/-- The write pointer a queue was primed at: that of the first poll that read both pointers. -/
def primingWptr (es : List Event) : Option Nat :=
  es.findSome? (fun | .pointers wptr _ => some wptr | _ => none)

/-- The positions counted in `dropped`. -/
def dropIds (es : List Event) : List Nat := es.flatMap Event.droppedIds

@[simp] theorem sinkRecords_nil : sinkRecords [] = [] := rfl

@[simp] theorem sinkRecords_cons (e : Event) (es : List Event) :
    sinkRecords (e :: es) = e.sunk?.toList ++ sinkRecords es := by
  cases e <;> rfl

@[simp] theorem sinkRecords_append (es fs : List Event) :
    sinkRecords (es ++ fs) = sinkRecords es ++ sinkRecords fs := List.filterMap_append

@[simp] theorem sinkIds_nil : sinkIds [] = [] := rfl

@[simp] theorem sinkIds_cons (e : Event) (es : List Event) :
    sinkIds (e :: es) = e.sunk?.toList.map PacketRecord.dispatchId ++ sinkIds es := by
  simp [sinkIds]

@[simp] theorem sinkIds_append (es fs : List Event) :
    sinkIds (es ++ fs) = sinkIds es ++ sinkIds fs := by
  simp [sinkIds]

@[simp] theorem sdmaRecords_nil : sdmaRecords [] = [] := rfl

@[simp] theorem sdmaRecords_cons (e : Event) (es : List Event) :
    sdmaRecords (e :: es) = e.sdmaSunk?.toList ++ sdmaRecords es := by
  cases e <;> rfl

@[simp] theorem sdmaRecords_append (es fs : List Event) :
    sdmaRecords (es ++ fs) = sdmaRecords es ++ sdmaRecords fs := List.filterMap_append

@[simp] theorem dropIds_nil : dropIds [] = [] := rfl

@[simp] theorem dropIds_cons (e : Event) (es : List Event) :
    dropIds (e :: es) = e.droppedIds ++ dropIds es := List.flatMap_cons

@[simp] theorem dropIds_append (es fs : List Event) :
    dropIds (es ++ fs) = dropIds es ++ dropIds fs := List.flatMap_append

theorem mem_sinkRecords {es : List Event} {rec : PacketRecord} :
    rec ∈ sinkRecords es ↔ Event.sink rec ∈ es := by
  simp only [sinkRecords, List.mem_filterMap]
  constructor
  · rintro ⟨e, he, hrec⟩
    cases e <;> simp at hrec
    exact hrec ▸ he
  · exact fun h => ⟨_, h, rfl⟩

theorem primingWptr_append_of_some {es fs : List Event} {w0 : Nat} (h : primingWptr es = some w0) :
    primingWptr (es ++ fs) = some w0 := by
  simp only [primingWptr, List.findSome?_append] at h ⊢
  rw [h]
  rfl

theorem primingWptr_append_of_none {es fs : List Event} (h : primingWptr es = none) :
    primingWptr (es ++ fs) = primingWptr fs := by
  simp only [primingWptr, List.findSome?_append] at h ⊢
  rw [h]
  rfl

/-! ## The remembered read pointer -/

section LastRptr

variable {poll : QueueState → PollObs → QueueState × List Event} {unit : Nat → Nat}

/-- A poll sets `last_rptr` to the read pointer it read, in its unit, or leaves a primed queue's
    alone. -/
def SetsLastRptr (poll : QueueState → PollObs → QueueState × List Event) (unit : Nat → Nat) : Prop :=
  ∀ qs o, (poll qs o).1.primed = true →
    (qs.primed = true ∧ (poll qs o).1.lastRptr = qs.lastRptr) ∨
      ∃ p, o.pointers? = some p ∧ (poll qs o).1.lastRptr = unit p.2

theorem SetsLastRptr.run_mem (h : SetsLastRptr poll unit) (q : QueueInfo) (os : List PollObs)
    (hp : (Trace.run poll (QueueState.new q) os).1.primed = true) :
    ∃ p ∈ os.filterMap PollObs.pointers?,
      (Trace.run poll (QueueState.new q) os).1.lastRptr = unit p.2 := by
  induction os using List.reverseRecOn with
  | nil => exact absurd hp (by simp [QueueState.new])
  | append_singleton os o ih =>
      rw [Trace.run_snoc] at hp ⊢
      rw [List.filterMap_append]
      rcases h _ o hp with ⟨hprimed, hsame⟩ | ⟨p, ho, hset⟩
      · obtain ⟨p, hmem, hlast⟩ := ih hprimed
        exact ⟨p, List.mem_append_left _ hmem, hsame.trans hlast⟩
      · exact ⟨p, List.mem_append_right _ (by simp [ho]), hset⟩

/-- Monotone pointers never fall behind the remembered read pointer. -/
theorem SetsLastRptr.along (h : SetsLastRptr poll unit) (hunit : Monotone unit)
    {os : List PollObs} (hmono : MonotonePointers os) (q : QueueInfo) :
    Trace.Along poll (fun qs o => qs.primed = true →
      ∀ p, o.pointers? = some p → qs.lastRptr ≤ unit p.2) (QueueState.new q) os := by
  intro pre o post hsplit hp p ho
  obtain ⟨p', hpre, hlast⟩ := h.run_mem q pre hp
  rw [MonotonePointers, hsplit, List.filterMap_append, List.filterMap_cons, ho] at hmono
  have hle := (List.pairwise_append.1 hmono).2.2 p' hpre p (List.mem_cons_self ..)
  rw [hlast]
  exact hunit hle.2

end LastRptr

/-! ## Pointer-read failures

Shared by both polls. -/

/-- Consecutive pointer-read failures after which a queue is evicted. -/
def kEvictThreshold : Nat := 50

/-- A poll that could not read both pointers: count it, and give up on the queue after sustained
    failures. -/
def QueueState.readFailed (qs : QueueState) : QueueState :=
  { qs with
    readFailCount := qs.readFailCount + 1
    evict := qs.evict || decide (kEvictThreshold ≤ qs.readFailCount + 1) }

/-! ## A small queue

For the instances that the results below are shown at. -/

/-- A process whose whole memory can be read, with a published dispatch in every 64-byte slot. -/
def dispatchEverywhere : ProcMem := .ofBytes (fun a => if a % 64 = 0 then 2 else 0)

/-- A two-slot ring. -/
def twoSlots : QueueInfo := { ringSize := 128, qtype := 2, uid := 1 }

end HsaSnoop
