import Mathlib.Data.List.Perm.Basic
import HsaSnoop.Parser.PollQueue

set_option autoImplicit false

/-! # Accounting of AQL packet ids

From the moment a queue is primed at `w0`, every id below `next_id` is in exactly one of three places:
it was given to `sink_`, it is a key of `inflight`, or it is counted in `dropped`. The invariant
(`Accounted`) is preserved by every move of a poll, hence by every sequence of polls, whatever the
pointers, the ring bytes and the read failures are. -/

namespace HsaSnoop

/-! ## Trace lemmas for the moves -/

@[simp] theorem sinkRecords_drain (l : List (Nat × PacketRecord)) (now : Time) :
    sinkRecords (l.map (fun e => Event.sink (e.2.complete now)))
      = l.map (fun e => e.2.complete now) := by
  simp [sinkRecords, List.filterMap_map, Function.comp_def]

@[simp] theorem sinkIds_drain (l : List (Nat × PacketRecord)) (now : Time) :
    sinkIds (l.map (fun e => Event.sink (e.2.complete now))) = l.map (fun e => e.2.dispatchId) := by
  simp [sinkIds, Function.comp_def]

@[simp] theorem dropIds_drain (l : List (Nat × PacketRecord)) (now : Time) :
    dropIds (l.map (fun e => Event.sink (e.2.complete now))) = [] := by
  simp [dropIds, List.flatMap_map]

/-- An interval of ids grows at its upper end. -/
theorem perm_range'_extend {l : List Nat} {a n : Nat} (k : Nat) (hn : a ≤ n)
    (h : l.Perm (List.range' a (n - a))) : (l ++ List.range' n k).Perm (List.range' a (n + k - a)) := by
  have hsplit : List.range' a (n + k - a) = List.range' a (n - a) ++ List.range' n k := by
    have happ := @List.range'_append a (n - a) k 1
    rw [Nat.one_mul, Nat.add_sub_cancel' hn] at happ
    rw [happ]
    congr 1
    omega
  rw [hsplit]
  exact h.append_right _

/-! ## The invariant -/

/-- The books of a queue primed at `w0`, after the events `es`. -/
structure Accounted (w0 : Nat) (qs : QueueState) (es : List Event) : Prop where
  bound : qs.nextId < 2 ^ 63
  base : w0 ≤ qs.nextId
  /-- A record in flight is filed under its own id. -/
  tagged : ∀ e ∈ qs.inflight.entries, e.2.dispatchId = e.1
  /-- Every id since priming is emitted, in flight or dropped, and only once. -/
  partition : (sinkIds es ++ qs.inflight.keys ++ dropIds es).Perm
    (List.range' w0 (qs.nextId - w0))
  counted : (dropIds es).length = qs.dropped

namespace Accounted

variable {w0 : Nat} {qs qs' : QueueState} {es fs : List Event}

theorem length_eq (h : Accounted w0 qs es) :
    qs.nextId - w0 = (sinkIds es).length + qs.inflight.size + qs.dropped := by
  have hlen := h.partition.length_eq
  simp only [List.length_append, OrdMap.length_keys, List.length_range', h.counted] at hlen
  omega

theorem mem_range (h : Accounted w0 qs es) {id : Nat}
    (hid : id ∈ sinkIds es ++ qs.inflight.keys ++ dropIds es) : w0 ≤ id ∧ id < qs.nextId := by
  have hmem := List.mem_range'_1.1 (h.partition.mem_iff.1 hid)
  have := h.base
  omega

theorem keys_lt (h : Accounted w0 qs es) : ∀ k ∈ qs.inflight.keys, k < qs.nextId := by
  intro k hk
  exact (h.mem_range (by simp [hk])).2

theorem nodup (h : Accounted w0 qs es) :
    (sinkIds es ++ qs.inflight.keys ++ dropIds es).Nodup :=
  h.partition.nodup_iff.2 (List.nodup_range' ..)

/-- Draining files every entry below the bound under the sink and keeps the rest. -/
theorem drain (h : Accounted w0 qs es) (rptr : Nat) (now : Time) :
    Accounted w0 { qs with inflight := (qs.inflight.splitBelow rptr).2 }
      (es ++ (qs.inflight.splitBelow rptr).1.map (fun e => .sink (e.2.complete now))) := by
  have hids : (qs.inflight.splitBelow rptr).1.map (fun e => e.2.dispatchId)
      = (qs.inflight.splitBelow rptr).1.map Prod.fst := by
    apply List.map_congr_left
    intro e he
    exact h.tagged e (OrdMap.mem_entries_of_mem_splitBelow_fst he)
  have hkeys := OrdMap.keys_splitBelow qs.inflight rptr
  refine ⟨h.bound, h.base, fun e he => ?_, ?_, ?_⟩
  · exact h.tagged e (OrdMap.mem_entries_of_mem_splitBelow_snd he)
  · have hperm := h.partition
    rw [← hkeys] at hperm
    simp only [sinkIds_append, dropIds_append, sinkIds_drain, dropIds_drain, hids,
      List.append_nil, List.append_assoc] at hperm ⊢
    exact hperm
  · simpa using h.counted

/-- **Every move keeps the books**, as long as the write pointer is below `2^63`. -/
theorem move {o : PollObs} {wptr rptr : Nat} (hw : wptr < 2 ^ 63) (h : Accounted w0 qs es)
    (hmove : PollMove o wptr rptr qs fs qs') : Accounted w0 qs' (es ++ fs) := by
  have hb := h.bound
  have hbase := h.base
  have hslots := qs.info.numSlots_lt
  have hlen := h.length_eq
  cases hmove with
  | start => exact ⟨hb, hbase, h.tagged, by simpa using h.partition, by simpa using h.counted⟩
  | skip wrapped =>
      rw [u64_of_lt (by omega)] at wrapped
      have hbehind : qs.nextId + qs.info.numSlots ≤ wptr := by omega
      obtain ⟨hgap, hnext⟩ := u64Sub_skip (by omega) hbehind
      rw [hgap, hnext]
      refine ⟨by simp only; omega, by simp only; omega, h.tagged, ?_, ?_⟩
      · have hext := perm_range'_extend (wptr - qs.nextId - qs.info.numSlots) hbase h.partition
        simpa using hext
      · have hcount := h.counted
        rw [u64_of_lt (by omega)]
        simp [hcount]
  | emit lt inRing consumed decoded =>
      obtain ⟨raw, -, hrec⟩ := decodeSlot_some decoded
      refine ⟨by simp only; omega, by simp only; omega, h.tagged, ?_, by simpa using h.counted⟩
      refine List.Perm.trans ?_ (perm_range'_extend 1 hbase h.partition)
      rw [List.perm_iff_count]
      intro a
      simp [hrec.dispatchId, List.count_append, List.count_cons]
      omega
  | park lt inRing waiting decoded =>
      obtain ⟨raw, -, hrec⟩ := decodeSlot_some decoded
      refine ⟨by simp only; omega, by simp only; omega, fun e he => ?_, ?_, by simpa using h.counted⟩
      · rcases OrdMap.mem_entries_emplace he with rfl | he
        · exact hrec.dispatchId
        · exact h.tagged e he
      · refine List.Perm.trans ?_ (perm_range'_extend 1 hbase h.partition)
        rw [OrdMap.keys_emplace_of_forall_lt h.keys_lt, List.perm_iff_count]
        intro a
        simp [List.count_append, List.count_cons]
  | miss lt inRing consumed undecoded =>
      refine ⟨by simp only; omega, by simp only; omega, h.tagged, ?_, ?_⟩
      · have hext := perm_range'_extend 1 hbase h.partition
        simpa using hext
      · have hcount := h.counted
        rw [u64_of_lt (by omega)]
        simp [hcount]
  | drain => exact h.drain rptr o.now
  | finish drained =>
      rw [List.append_nil]
      exact ⟨hb, hbase, h.tagged, h.partition, h.counted⟩

theorem steps {o : PollObs} {wptr rptr : Nat} (hw : wptr < 2 ^ 63) (h : Accounted w0 qs es)
    (hsteps : Trace.Steps (PollMove o wptr rptr) qs fs qs') : Accounted w0 qs' (es ++ fs) :=
  hsteps.invariant (Accounted w0) (fun _ _ _ _ ha hmove => ha.move hw hmove) h

end Accounted

/-! ## Whole runs -/

/-- Both observed pointers, where they were read, are below `b`. -/
def PollObs.PointersBelow (b : Nat) (o : PollObs) : Prop :=
  (∀ w, o.wptr = some w → w.toNat < b) ∧ (∀ r, o.rptr = some r → r.toNat < b)

/-- The state of a queue between polls: not primed and untouched, or primed with its books in order
    and nothing in flight below the last read pointer. -/
def Booked (qs : QueueState) (es : List Event) : Prop :=
  match primingWptr es with
  | none => qs.primed = false ∧ qs.inflight = ∅ ∧ qs.dropped = 0 ∧ sinkIds es = [] ∧ dropIds es = []
  | some w0 => qs.primed = true ∧ Accounted w0 qs es ∧ ∀ k ∈ qs.inflight.keys, qs.lastRptr ≤ k

theorem booked_new (q : QueueInfo) : Booked (QueueState.new q) [] := ⟨rfl, rfl, rfl, rfl, rfl⟩

theorem Booked.poll {qs : QueueState} {es : List Event} {o : PollObs}
    (ho : o.PointersBelow (2 ^ 63)) (h : Booked qs es) :
    Booked (pollQueue qs o).1 (es ++ (pollQueue qs o).2) := by
  refine pollQueue_elim qs o (fun qs' fs hcase => ?_)
  cases hcase with
  | failed unread =>
      rw [List.append_nil]
      unfold Booked at h ⊢
      split at h
      · exact h
      · obtain ⟨hp, ha, hl⟩ := h
        exact ⟨hp, ⟨ha.bound, ha.base, ha.tagged, ha.partition, ha.counted⟩, hl⟩
  | @primes w r hw hr fresh =>
      cases hprim : primingWptr es with
      | some w0 =>
          simp only [Booked, hprim] at h
          exact absurd h.1 (by simp [fresh])
      | none =>
          simp only [Booked, hprim] at h
          obtain ⟨-, hinfl, hdrop, hsink, hdrops⟩ := h
          have hw0 : primingWptr (es ++ [Event.pointers w.toNat r.toNat]) = some w.toNat := by
            rw [primingWptr_append_of_none hprim]
            rfl
          have hbound := ho.1 w hw
          simp only [Booked, hw0, hinfl, OrdMap.keys_empty, List.not_mem_nil, false_implies,
            implies_true, and_true, true_and]
          exact ⟨hbound, le_refl _, by simp, by simp [hsink, hdrops], by simp [hdrops, hdrop]⟩
  | @polled w r qs' fs hw hr primed steps drained last stopped =>
      cases hprim : primingWptr es with
      | none =>
          simp only [Booked, hprim] at h
          exact absurd h.1 (by simp [primed])
      | some w0 =>
          simp only [Booked, hprim] at h
          simp only [Booked, primingWptr_append_of_some hprim]
          refine ⟨(PollMove.frame_steps steps).2.1.trans primed, h.2.1.steps (ho.1 w hw) steps, ?_⟩
          rw [last]
          exact drained

/-- The books are in order after every sequence of polls. -/
theorem booked_run (q : QueueInfo) (os : List PollObs) (hos : ∀ o ∈ os, o.PointersBelow (2 ^ 63)) :
    Booked (Trace.run pollQueue (QueueState.new q) os).1
      (Trace.run pollQueue (QueueState.new q) os).2 :=
  Trace.run_invariant_along Booked (booked_new q) (fun _ _ _ h ho => h.poll ho)
    (Trace.Along.of_forall_mem hos)

/-- A move never takes `next_id` back. -/
theorem PollMove.nextId_le {o : PollObs} {wptr rptr : Nat} {qs qs' : QueueState} {es : List Event}
    (hw : wptr < 2 ^ 63) (hb : qs.nextId < 2 ^ 63) (h : PollMove o wptr rptr qs es qs') :
    qs.nextId ≤ qs'.nextId ∧ qs'.nextId < 2 ^ 63 := by
  have hslots := qs.info.numSlots_lt
  cases h with
  | skip wrapped =>
      rw [u64_of_lt (by omega)] at wrapped
      simp only
      rw [u64Sub_of_le (by omega) (by omega)]
      omega
  | _ => simp only; omega

theorem pollQueue_nextId_le {qs : QueueState} {o : PollObs} (ho : o.PointersBelow (2 ^ 63))
    (hp : qs.primed = true) (hb : qs.nextId < 2 ^ 63) :
    qs.nextId ≤ (pollQueue qs o).1.nextId ∧ (pollQueue qs o).1.nextId < 2 ^ 63 ∧
      (pollQueue qs o).1.primed = true := by
  refine pollQueue_elim qs o (fun qs' fs hcase => ?_)
  cases hcase with
  | failed unread => exact ⟨le_refl _, hb, hp⟩
  | primes hw hr fresh => exact absurd hp (by simp [fresh])
  | @polled w r qs' fs hw hr primed steps drained last stopped =>
      have hmono := steps.invariant_state (fun t => qs.nextId ≤ t.nextId ∧ t.nextId < 2 ^ 63)
        (fun s _ t hs hmove => by
          have := hmove.nextId_le (ho.1 w hw) hs.2
          omega) ⟨le_refl _, hb⟩
      exact ⟨hmono.1, hmono.2, (PollMove.frame_steps steps).2.1.trans primed⟩

/-- Once a queue is primed, `next_id` never decreases. -/
theorem run_nextId_le {qs : QueueState} (os : List PollObs)
    (hos : ∀ o ∈ os, o.PointersBelow (2 ^ 63)) (hp : qs.primed = true) (hb : qs.nextId < 2 ^ 63) :
    qs.nextId ≤ (Trace.run pollQueue qs os).1.nextId := by
  have hinv := Trace.run_invariant_state
    (fun t => qs.nextId ≤ t.nextId ∧ t.nextId < 2 ^ 63 ∧ t.primed = true)
    ⟨le_refl _, hb, hp⟩
    (fun t o ht ho => by
      have := pollQueue_nextId_le ho ht.2.2 ht.2.1
      exact ⟨ht.1.trans this.1, this.2⟩)
    (@Trace.Along.of_forall_mem _ _ _ pollQueue _ qs os hos)
  exact hinv.1

/-- **AQL accounting.** For every sequence of polls of a queue, with arbitrary pointers below `2^63`,
    ring bytes and read failures: once it is primed at `w0`, the ids from `w0` to `next_id` are
    partitioned into those given to the sink, those in flight and those counted as dropped;
    `next_id` never decreases; and what is in flight is at or above the last read pointer. -/
theorem pollQueue_accounting (q : QueueInfo) (os : List PollObs)
    (hos : ∀ o ∈ os, o.PointersBelow (2 ^ 63)) (w0 : Nat)
    (hprimed : primingWptr (Trace.run pollQueue (QueueState.new q) os).2 = some w0) :
    let qs := (Trace.run pollQueue (QueueState.new q) os).1
    let es := (Trace.run pollQueue (QueueState.new q) os).2
    (sinkIds es ++ qs.inflight.keys ++ dropIds es).Perm (List.range' w0 (qs.nextId - w0)) ∧
      (dropIds es).length = qs.dropped ∧ w0 ≤ qs.nextId ∧
      qs.nextId - w0 = (sinkIds es).length + qs.inflight.size + qs.dropped ∧
      (∀ pre post, os = pre ++ post →
        (primingWptr (Trace.run pollQueue (QueueState.new q) pre).2).isSome →
        (Trace.run pollQueue (QueueState.new q) pre).1.nextId ≤ qs.nextId) ∧
      (∀ k ∈ qs.inflight.keys, qs.lastRptr ≤ k ∧ k < qs.nextId) ∧
      (∀ id ∈ sinkIds es, w0 ≤ id) := by
  intro qs es
  have hbook := booked_run q os hos
  simp only [Booked, hprimed] at hbook
  obtain ⟨-, hacc, hlast⟩ := hbook
  refine ⟨hacc.partition, hacc.counted, hacc.base, hacc.length_eq, ?_, ?_, ?_⟩
  · intro pre post hsplit hpre
    subst hsplit
    obtain ⟨w1, hw1⟩ := Option.isSome_iff_exists.1 hpre
    have hbookPre := booked_run q pre (fun o ho => hos o (List.mem_append_left _ ho))
    simp only [Booked, hw1] at hbookPre
    have hmono := run_nextId_le post (fun o ho => hos o (List.mem_append_right _ ho))
      hbookPre.1 hbookPre.2.1.bound
    simpa [qs, Trace.run_append] using hmono
  · exact fun k hk => ⟨hlast k hk, hacc.keys_lt k hk⟩
  · exact fun id hid => (hacc.mem_range (by simp [es, hid])).1

/-- A ring that is primed at 0, gets a packet that is parked, and then a second one while
    the first is drained. -/
theorem pollQueue_accounting_twoSlots :
    let os : List PollObs :=
      [.still 1 0 0 dispatchEverywhere, .still 2 1 0 dispatchEverywhere,
        .still 3 2 1 dispatchEverywhere]
    let qs := (Trace.run pollQueue (QueueState.new twoSlots) os).1
    let es := (Trace.run pollQueue (QueueState.new twoSlots) os).2
    primingWptr es = some 0 ∧ sinkIds es = [0] ∧ qs.inflight.keys = [1] ∧
      qs.nextId - 0 = (sinkIds es).length + qs.inflight.size + qs.dropped :=
  ⟨by decide +kernel, by decide +kernel, by decide +kernel,
    (pollQueue_accounting _ _ (by simp [PollObs.PointersBelow, PollObs.still]) 0
      (by decide +kernel)).2.2.2.1⟩

end HsaSnoop
