import Mathlib.Algebra.Order.BigOperators.Group.List
import Mathlib.Algebra.Order.Group.Nat
import HsaSnoop.Writer.Perfetto

set_option autoImplicit false

/-! # What the viewer shows of a queue

The events of one track, read with the stack rule of `TYPE_SLICE_BEGIN` / `TYPE_SLICE_END`, against
the records the writer drew. The event list is one sort over the records of all tracks; as the sort is
stable, what it leaves of a track is the sort of that track's own records
(`Drawing.readTrack_packets`), and `SliceStack` says what that reads back as.

A queue with several packets in flight produces crossing slices (a packet is submitted while an
earlier one runs and completes after it). These are closed in the wrong order: the viewer gives the
earlier completion to the later packet. -/

namespace HsaSnoop

open SliceStack

/-! ## Reading a track -/

def trackMark? (uuid : Nat) : TracePacket → Option (Mark Bytes Time)
  | .trackDescriptor _ => none
  | .trackEvent ts te _ =>
      if te.trackUuid = uuid then
        match te.event with
        | .sliceBegin name _ => some (.opening name ts)
        | .sliceEnd => some (.closing ts)
      else none

/-- The slices the viewer makes of the track `uuid`. -/
def readTrack (uuid : Nat) (packets : List TracePacket) : Reading Bytes Time :=
  read [] (packets.filterMap (trackMark? uuid))

/-! ## The sort, track by track -/

variable {R : Type}

/-- An event as an edge without its record. -/
def Ev.key (e : Ev R) : Edge Unit Time := if e.begins then .opening ⟨(), e.ts, e.ts⟩ else .closing e.ts

theorem Ev.ts_key (e : Ev R) : e.key.ts = e.ts := by
  unfold Ev.key
  split <;> rfl

theorem Ev.begins_key (e : Ev R) : e.key.begins = e.begins := by
  unfold Ev.key
  split
  · next h => exact h.symm
  · next h => simpa [Edge.begins] using h

theorem Ev.before_key (a b : Ev R) : a.key.before b.key = a.before b := by
  simp only [Edge.before, Ev.before, Ev.ts_key, Ev.begins_key]

instance : Std.Total (fun a b : Ev R => (¬ b.before a : Prop)) where
  total a b := by
    rw [← Ev.before_key, ← Ev.before_key]
    exact Std.Total.total (r := Edge.le) a.key b.key

instance : IsTrans (Ev R) (fun a b => (¬ b.before a : Prop)) where
  trans a b c := by
    rw [← Ev.before_key, ← Ev.before_key, ← Ev.before_key]
    exact IsTrans.trans (r := Edge.le) a.key b.key c.key

namespace Drawing

variable (d : Drawing R) (uuid : Nat) (rs : List R)

/-- The slice drawn for a record. -/
def slice (r : R) : Slice Bytes Time :=
  ⟨d.name r, d.submitTs r, sliceEnd (d.submitTs r) (d.completeTs r)⟩

/-- The slice a record stands for. -/
def recorded (r : R) : Slice Bytes Time := ⟨d.name r, d.submitTs r, d.completeTs r⟩

def onTrack : List R := rs.filter (fun r => d.trackUuid r = uuid)

/-- An event as an edge of its record's slice. -/
def edge (e : Ev R) : Edge Bytes Time := if e.begins then .opening (d.slice e.r) else .closing e.ts

variable {d rs}

theorem mem_evs {e : Ev R} (h : e ∈ rs.flatMap d.evs) : e ∈ d.evs e.r := by
  obtain ⟨r, -, he⟩ := List.mem_flatMap.1 h
  have hr : e.r = r := by
    simp only [evs, List.mem_cons, List.not_mem_nil, or_false] at he
    rcases he with rfl | rfl <;> rfl
  rwa [hr]

/-- The edge of an event carries its time and its direction. -/
theorem edge_spec {e : Ev R} (h : e ∈ d.evs e.r) :
    (d.edge e).ts = e.ts ∧ (d.edge e).begins = e.begins := by
  simp only [evs, List.mem_cons, List.not_mem_nil, or_false] at h
  rcases h with h | h
  all_goals
    rw [h]
    exact ⟨rfl, rfl⟩

theorem trackMark?_packet {e : Ev R} (h : e ∈ d.evs e.r) :
    trackMark? uuid (d.packet e) =
      if d.trackUuid e.r = uuid then some (d.edge e).mark else none := by
  simp only [evs, List.mem_cons, List.not_mem_nil, or_false] at h
  rcases h with h | h
  all_goals
    rw [h]
    rfl

theorem filter_evs :
    (rs.flatMap d.evs).filter (fun e => d.trackUuid e.r = uuid) = (d.onTrack uuid rs).flatMap d.evs := by
  induction rs with
  | nil => rfl
  | cons r rs ih =>
      rw [List.flatMap_cons, List.filter_append, ih]
      by_cases h : d.trackUuid r = uuid <;> simp [evs, onTrack, h]

theorem map_edge_evs : (rs.flatMap d.evs).map d.edge = (rs.map d.slice).flatMap Slice.edges := by
  induction rs with
  | nil => rfl
  | cons r rs ih => exact congrArg (fun es => Edge.opening (d.slice r) :: .closing _ :: es) ih

/-- The events of a track are the sorted edges of the slices drawn on it. -/
theorem map_edge_filter_sortedEvs :
    ((d.sortedEvs rs).filter (fun e => d.trackUuid e.r = uuid)).map d.edge =
      sortedEdges ((d.onTrack uuid rs).map d.slice) := by
  rw [sortedEvs, filter_insertionSort, filter_evs, sortedEdges, ← map_edge_evs]
  refine List.map_insertionSort _ _ d.edge _ (fun a ha b hb => ?_)
  have ha := edge_spec (mem_evs ha)
  have hb := edge_spec (mem_evs hb)
  simp only [Edge.le, Edge.before, Ev.before, ha, hb]

/-- **One track of the trace** reads as the slices drawn on it, whatever else was sorted along. -/
theorem readTrack_packets :
    readTrack uuid (d.packets rs) = reading ((d.onTrack uuid rs).map d.slice) := by
  have hmarks : (d.packets rs).filterMap (trackMark? uuid) =
      (sortedEdges ((d.onTrack uuid rs).map d.slice)).map Edge.mark := by
    rw [← map_edge_filter_sortedEvs, List.map_map, packets, List.filterMap_map,
      ← List.filterMap_eq_map, List.filterMap_filter]
    refine List.filterMap_congr (fun e he => ?_)
    have hmem : e ∈ rs.flatMap d.evs := (List.perm_insertionSort _ _).mem_iff.1 he
    simpa using trackMark?_packet uuid (mem_evs hmem)
  rw [readTrack, hmarks]
  rfl

/-! ## Shown as drawn, drawn as recorded -/

theorem slice_positive : ∀ s ∈ (d.onTrack uuid rs).map d.slice, s.start < s.stop := by
  intro s hs
  obtain ⟨r, -, rfl⟩ := List.mem_map.1 hs
  exact lt_sliceEnd _ _

theorem readTrack_balanced :
    (readTrack uuid (d.packets rs)).unclosed = [] ∧ (readTrack uuid (d.packets rs)).orphans = 0 := by
  rw [readTrack_packets]
  exact reading_balanced (slice_positive uuid)

theorem readTrack_perm_slice_iff :
    (readTrack uuid (d.packets rs)).slices.Perm ((d.onTrack uuid rs).map d.slice) ↔
      Nested ((d.onTrack uuid rs).map d.slice) := by
  rw [readTrack_packets]
  exact reading_perm_iff (slice_positive uuid)

theorem slice_eq_recorded_iff {r : R} :
    d.slice r = d.recorded r ↔ d.submitTs r + kMinDur ≤ d.completeTs r := by
  rw [slice, recorded, Slice.mk.injEq, and_iff_right rfl, and_iff_right rfl]
  exact sliceEnd_eq_iff

/-- Widening short slices changes the sum of the stops, unless there are none. -/
theorem recorded_of_stops_perm {qs : List R}
    (h : ((qs.map d.slice).map Slice.stop).Perm ((qs.map d.recorded).map Slice.stop)) :
    ∀ r ∈ qs, d.slice r = d.recorded r := by
  rw [List.map_map, List.map_map] at h
  intro r hr
  by_contra hne
  refine (List.sum_lt_sum (Slice.stop ∘ d.recorded) (Slice.stop ∘ d.slice)
    (fun q _ => le_sliceEnd _ _) ⟨r, hr, ?_⟩).ne' h.sum_nat
  rw [slice_eq_recorded_iff, ← sliceEnd_eq_iff] at hne
  exact lt_of_le_of_ne (le_sliceEnd _ _) (Ne.symm hne)

theorem readTrack_perm_recorded_iff :
    (readTrack uuid (d.packets rs)).slices.Perm ((d.onTrack uuid rs).map d.recorded) ↔
      (∀ r ∈ d.onTrack uuid rs, d.submitTs r + kMinDur ≤ d.completeTs r) ∧
        Nested ((d.onTrack uuid rs).map d.recorded) := by
  have hsame : (∀ r ∈ d.onTrack uuid rs, d.slice r = d.recorded r) →
      (d.onTrack uuid rs).map d.slice = (d.onTrack uuid rs).map d.recorded := List.map_congr_left
  constructor
  · intro hperm
    have hstops := stops_reading_perm (@slice_positive R d uuid rs)
    rw [← readTrack_packets] at hstops
    have hall := recorded_of_stops_perm (hstops.symm.trans (hperm.map Slice.stop))
    refine ⟨fun r hr => slice_eq_recorded_iff.1 (hall r hr), ?_⟩
    rw [← hsame hall] at hperm ⊢
    exact (readTrack_perm_slice_iff uuid).1 hperm
  · rintro ⟨hlong, hnested⟩
    have hall := hsame (fun r hr => slice_eq_recorded_iff.2 (hlong r hr))
    rw [← hall] at hnested ⊢
    exact (readTrack_perm_slice_iff uuid).2 hnested

end Drawing

/-! ## Queue tracks -/

namespace TraceWriter

variable {w : TraceWriter} {uid : Nat}

/-- The AQL records of a queue. -/
def packetsOf (w : TraceWriter) (uid : Nat) : List PacketRecord :=
  w.records.filter (fun r => r.queueUid = uid)

/-- The SDMA records of a queue. -/
def sdmaOf (w : TraceWriter) (uid : Nat) : List SdmaRecord :=
  w.sdmaRecords.filter (fun r => r.queueUid = uid)

/-- Two uids never share a track. -/
theorem onTrack_packetDrawing (huid : uid < 2 ^ 64) (h : ∀ r ∈ w.records, r.queueUid < 2 ^ 64) :
    w.packetDrawing.onTrack (queueTrackUuid uid) w.records = w.packetsOf uid := by
  refine List.filter_congr (fun r hr => decide_eq_decide.2 ⟨?_, ?_⟩)
  · exact queueTrackUuid_inj (h r hr) huid
  · exact congrArg queueTrackUuid

theorem onTrack_sdmaDrawing (huid : uid < 2 ^ 64) (h : ∀ r ∈ w.sdmaRecords, r.queueUid < 2 ^ 64) :
    sdmaDrawing.onTrack (queueTrackUuid uid) w.sdmaRecords = w.sdmaOf uid := by
  refine List.filter_congr (fun r hr => decide_eq_decide.2 ⟨?_, ?_⟩)
  · exact queueTrackUuid_inj (h r hr) huid
  · exact congrArg queueTrackUuid

/-- What the viewer shows of the AQL packets of a queue. -/
def shownPackets (w : TraceWriter) (uid : Nat) : Reading Bytes Time :=
  readTrack (queueTrackUuid uid) (w.packetDrawing.packets w.records)

/-- What the viewer shows of the SDMA packets of a queue. -/
def shownSdma (w : TraceWriter) (uid : Nat) : Reading Bytes Time :=
  readTrack (queueTrackUuid uid) (sdmaDrawing.packets w.sdmaRecords)

/-- **Slices pair up exactly when they nest.** On every queue track every begin is closed and no end
    meets an empty stack. The slices shown are those drawn if and only if no two of the queue's slices
    cross and those with one begin are listed in an order that fits their ends; they are those
    recorded if and only if, besides, no record was widened. -/
theorem shown_perm_iff_nested (w : TraceWriter) (uid : Nat) (huid : uid < 2 ^ 64)
    (hrecords : ∀ r ∈ w.records, r.queueUid < 2 ^ 64)
    (hsdma : ∀ r ∈ w.sdmaRecords, r.queueUid < 2 ^ 64) :
    ((w.shownPackets uid).unclosed = [] ∧ (w.shownPackets uid).orphans = 0 ∧
      ((w.shownPackets uid).slices.Perm ((w.packetsOf uid).map w.packetDrawing.slice) ↔
        Nested ((w.packetsOf uid).map w.packetDrawing.slice)) ∧
      ((w.shownPackets uid).slices.Perm ((w.packetsOf uid).map w.packetDrawing.recorded) ↔
        (∀ r ∈ w.packetsOf uid, r.submitTs + kMinDur ≤ r.completeTs) ∧
          Nested ((w.packetsOf uid).map w.packetDrawing.recorded))) ∧
    ((w.shownSdma uid).unclosed = [] ∧ (w.shownSdma uid).orphans = 0 ∧
      ((w.shownSdma uid).slices.Perm ((w.sdmaOf uid).map sdmaDrawing.slice) ↔
        Nested ((w.sdmaOf uid).map sdmaDrawing.slice)) ∧
      ((w.shownSdma uid).slices.Perm ((w.sdmaOf uid).map sdmaDrawing.recorded) ↔
        (∀ r ∈ w.sdmaOf uid, r.submitTs + kMinDur ≤ r.completeTs) ∧
          Nested ((w.sdmaOf uid).map sdmaDrawing.recorded))) := by
  rw [← onTrack_packetDrawing huid hrecords, ← onTrack_sdmaDrawing huid hsdma]
  refine ⟨⟨?_, ?_, ?_, ?_⟩, ?_, ?_, ?_, ?_⟩
  · exact (Drawing.readTrack_balanced _).1
  · exact (Drawing.readTrack_balanced _).2
  · exact Drawing.readTrack_perm_slice_iff _
  · exact Drawing.readTrack_perm_recorded_iff _
  · exact (Drawing.readTrack_balanced _).1
  · exact (Drawing.readTrack_balanced _).2
  · exact Drawing.readTrack_perm_slice_iff _
  · exact Drawing.readTrack_perm_recorded_iff _

/-- One packet after another, then two inside the time of a third. -/
def nestedWriter : TraceWriter where
  records :=
    [{ queueUid := 1, kernelName := str "a", submitTs := 0, completeTs := 300 },
      { queueUid := 2, kernelName := str "x", submitTs := 200, completeTs := 900 },
      { queueUid := 1, kernelName := str "b", submitTs := 300, completeTs := 1000 },
      { queueUid := 1, kernelName := str "c", submitTs := 400, completeTs := 600 }]
  sdmaRecords :=
    [{ queueUid := 3, opName := str "copy", submitTs := 100, completeTs := 250 }]

theorem shown_nestedWriter :
    (nestedWriter.shownPackets 1).slices.Perm
        [⟨str "a", 0, 300⟩, ⟨str "b", 300, 1000⟩, ⟨str "c", 400, 600⟩] ∧
      (nestedWriter.shownPackets 1).unclosed = [] ∧ (nestedWriter.shownSdma 1).slices = [] := by
  have h := shown_perm_iff_nested nestedWriter 1 (by decide) (by decide) (by decide)
  refine ⟨h.1.2.2.2.2 (by decide), h.1.1, ?_⟩
  exact (h.2.2.2.1.2 (by decide)).eq_nil

/-- Two packets of one queue in flight at once: `b` is submitted while `a` runs, and completes
    after it. -/
def overlappingWriter : TraceWriter where
  records :=
    [{ queueUid := 1, kernelName := str "a", submitTs := 0, completeTs := 300 },
      { queueUid := 1, kernelName := str "b", submitTs := 100, completeTs := 400 }]

/-- The viewer gives `a` the completion of `b`, and `b` that of `a`. -/
theorem overlapping_packets_swapped :
    (overlappingWriter.packetsOf 1).map overlappingWriter.packetDrawing.recorded =
        [⟨str "a", 0, 300⟩, ⟨str "b", 100, 400⟩] ∧
      (overlappingWriter.packetsOf 1).map overlappingWriter.packetDrawing.slice =
        [⟨str "a", 0, 300⟩, ⟨str "b", 100, 400⟩] ∧
      (overlappingWriter.shownPackets 1).slices = [⟨str "b", 100, 300⟩, ⟨str "a", 0, 400⟩] ∧
      ¬ (overlappingWriter.shownPackets 1).slices.Perm
        [⟨str "a", 0, 300⟩, ⟨str "b", 100, 400⟩] := by
  decide

end TraceWriter

end HsaSnoop
