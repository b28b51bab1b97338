import Mathlib.Data.Nat.Bitwise
import HsaSnoop.Writer.Perfetto

set_option autoImplicit false

/-! # Track identities

Process, queue and AIS tracks share one space of uuids: a process track has its pid, a queue track its
uid behind an offset, and an AIS track the pid and a hash of the device put over a constant. The ranges
of the three kinds do not meet. Inside the AIS range the pid is put over the constant's own bits, so
two processes whose pids differ in those bits only (`aisBits`) share their tracks.

`Track` is what a uuid is meant to stand for; `tracks` are the tracks `writePerfetto` writes to. -/

namespace HsaSnoop

/-- What a uuid is meant to stand for. -/
inductive Track
  | process (pid : Int)
  | queue (uid : Nat)
  | ais (pid : Int) (pcieId : Bytes)
  deriving DecidableEq, Repr

def Track.uuid (hash : Bytes → Nat) : Track → Nat
  | .process pid => u64OfInt pid
  | .queue uid => queueTrackUuid uid
  | .ais pid pcieId => aisTrackUuid hash pid pcieId

/-- The tracks of a trace: those that are described, and those that have events. -/
def TraceWriter.tracks (w : TraceWriter) : List Track :=
  w.queues.entries.flatMap (fun e => [.process e.2.pid, .queue e.2.uid]) ++
    w.records.map (fun r => .queue r.queueUid) ++ w.sdmaRecords.map (fun r => .queue r.queueUid) ++
    w.aisRecords.flatMap (fun r => [.process r.pid, .ais r.pid r.pcieId])

/-! ## The tracks that are written -/

def TracePacket.trackUuid : TracePacket → Nat
  | .trackDescriptor td => td.uuid
  | .trackEvent _ te _ => te.trackUuid

theorem trackUuid_queueDescriptors {qs : List QueueInfo} {seenPid : List Int} {p : TracePacket}
    (hp : p ∈ (TraceWriter.queueDescriptors qs seenPid).1) :
    ∃ q ∈ qs, p.trackUuid = u64OfInt q.pid ∨ p.trackUuid = queueTrackUuid q.uid := by
  induction qs generalizing seenPid with
  | nil => cases hp
  | cons q qs ih =>
      simp only [TraceWriter.queueDescriptors, List.mem_append, List.mem_singleton] at hp
      rcases hp with (hp | rfl) | hp
      · split at hp
        · cases hp
        · rw [List.mem_singleton.1 hp]
          exact ⟨q, List.mem_cons_self .., .inl rfl⟩
      · exact ⟨q, List.mem_cons_self .., .inr rfl⟩
      · obtain ⟨q', hq', h⟩ := ih hp
        exact ⟨q', List.mem_cons_of_mem q hq', h⟩

theorem trackUuid_aisDescriptors {hash : Bytes → Nat} {rs : List AisRecord} {seenPid : List Int}
    {seenTrack : List Bytes} {p : TracePacket}
    (hp : p ∈ TraceWriter.aisDescriptors hash rs seenPid seenTrack) :
    ∃ r ∈ rs, p.trackUuid = u64OfInt r.pid ∨ p.trackUuid = aisTrackUuid hash r.pid r.pcieId := by
  induction rs generalizing seenPid seenTrack with
  | nil => cases hp
  | cons r rs ih =>
      simp only [TraceWriter.aisDescriptors] at hp
      split at hp
      · obtain ⟨r', hr', h⟩ := ih hp
        exact ⟨r', List.mem_cons_of_mem r hr', h⟩
      · rw [List.mem_append, List.mem_append, List.mem_singleton] at hp
        rcases hp with (hp | rfl) | hp
        · split at hp
          · cases hp
          · rw [List.mem_singleton.1 hp]
            exact ⟨r, List.mem_cons_self .., .inl rfl⟩
        · exact ⟨r, List.mem_cons_self .., .inr rfl⟩
        · obtain ⟨r', hr', h⟩ := ih hp
          exact ⟨r', List.mem_cons_of_mem r hr', h⟩

theorem Drawing.trackUuid_packets {R : Type} {d : Drawing R} {rs : List R} {p : TracePacket}
    (hp : p ∈ d.packets rs) : ∃ r ∈ rs, p.trackUuid = d.trackUuid r := by
  obtain ⟨e, he, rfl⟩ := List.mem_map.1 hp
  obtain ⟨r, hr, hev⟩ := List.mem_flatMap.1 ((List.perm_insertionSort _ _).mem_iff.1 he)
  refine ⟨r, hr, ?_⟩
  simp only [Drawing.evs, List.mem_cons, List.not_mem_nil, or_false] at hev
  rcases hev with rfl | rfl
  · rfl
  · rfl

/-- Every packet of the trace belongs to one of the tracks. -/
theorem trackUuid_writePerfetto {w : TraceWriter} {hash : Bytes → Nat} {p : TracePacket}
    (hp : p ∈ (w.writePerfetto hash).1) : ∃ t ∈ w.tracks, p.trackUuid = t.uuid hash := by
  simp only [TraceWriter.writePerfetto, List.mem_append] at hp
  simp only [TraceWriter.tracks, List.mem_append, List.mem_flatMap, List.mem_map]
  rcases hp with (((hp | hp) | hp) | hp) | hp
  · obtain ⟨q, hq, h⟩ := trackUuid_queueDescriptors hp
    obtain ⟨e, he, rfl⟩ := List.mem_map.1 hq
    rcases h with h | h
    · exact ⟨.process e.2.pid, .inl (.inl (.inl ⟨e, he, by simp⟩)), h⟩
    · exact ⟨.queue e.2.uid, .inl (.inl (.inl ⟨e, he, by simp⟩)), h⟩
  · obtain ⟨r, hr, h⟩ := Drawing.trackUuid_packets hp
    exact ⟨.queue r.queueUid, .inl (.inl (.inr ⟨r, hr, rfl⟩)), h⟩
  · obtain ⟨r, hr, h⟩ := Drawing.trackUuid_packets hp
    exact ⟨.queue r.queueUid, .inl (.inr ⟨r, hr, rfl⟩), h⟩
  · obtain ⟨r, hr, h⟩ := trackUuid_aisDescriptors hp
    rcases h with h | h
    · exact ⟨.process r.pid, .inr ⟨r, hr, by simp⟩, h⟩
    · exact ⟨.ais r.pid r.pcieId, .inr ⟨r, hr, by simp⟩, h⟩
  · obtain ⟨r, hr, h⟩ := Drawing.trackUuid_packets hp
    exact ⟨.ais r.pid r.pcieId, .inr ⟨r, hr, by simp⟩, h⟩

/-! ## One space of uuids -/

/-- The pid over the bits of the constant. -/
def aisBits (pid : Int) : Nat := 0xA150 ||| (pid % 2 ^ 32).toNat

/-- The hash does not reach the bits of the pid. -/
theorem aisTrackUuid_eq (hash : Bytes → Nat) (pid : Int) (pcieId : Bytes) :
    aisTrackUuid hash pid pcieId = aisBits pid * 2 ^ 16 + (hash pcieId &&& 0xFFFF) := by
  have hlow : hash pcieId &&& 0xFFFF < 2 ^ 16 := Nat.and_lt_two_pow _ (by decide)
  have hbase : 0xA1500000 = 0xA150 <<< 16 := by decide
  rw [aisTrackUuid, hbase, ← Nat.shiftLeft_or_distrib, ← Nat.shiftLeft_add_eq_or_of_lt hlow,
    Nat.shiftLeft_eq]
  rfl

theorem aisTrackUuid_inj {hash : Bytes → Nat} {pid pid' : Int} {pcieId pcieId' : Bytes} :
    aisTrackUuid hash pid pcieId = aisTrackUuid hash pid' pcieId' ↔
      aisBits pid = aisBits pid' ∧ hash pcieId &&& 0xFFFF = hash pcieId' &&& 0xFFFF := by
  have hlow : ∀ c, hash c &&& 0xFFFF < 2 ^ 16 := fun c => Nat.and_lt_two_pow _ (by decide)
  have h := hlow pcieId
  have h' := hlow pcieId'
  rw [aisTrackUuid_eq, aisTrackUuid_eq]
  constructor
  · intro heq
    omega
  · rintro ⟨hbits, hhash⟩
    rw [hbits, hhash]

/-- What a state is assumed to hold: pids of a Linux system, uids that were counted up. -/
structure TraceWriter.InRange (w : TraceWriter) : Prop where
  process : ∀ pid, .process pid ∈ w.tracks → 1 ≤ pid ∧ pid ≤ 4194304
  queue : ∀ uid, .queue uid ∈ w.tracks → uid < 2 ^ 24

/-- The range of uuids of each kind of track. -/
theorem Track.uuid_range {hash : Bytes → Nat} :
    (∀ pid : Int, 1 ≤ pid ∧ pid ≤ 4194304 →
        (Track.process pid).uuid hash = pid.toNat ∧ pid.toNat ≤ 4194304) ∧
      (∀ uid < 2 ^ 24, (Track.queue uid).uuid hash = 0x51000000 + uid) ∧
      ∀ pid pcieId, 0xA1500000 ≤ (Track.ais pid pcieId).uuid hash := by
  refine ⟨?_, ?_, ?_⟩
  · rintro pid ⟨hpos, hle⟩
    rw [uuid, u64OfInt]
    omega
  · intro uid huid
    rw [uuid, queueTrackUuid, u64]
    omega
  · intro pid pcieId
    have hbits : 0xA150 ≤ aisBits pid := Nat.left_le_or
    rw [uuid, aisTrackUuid_eq]
    omega

/-- Two tracks that may share a uuid: devices of one process, with the same low bits of their hash. -/
inductive Track.HashClash (hash : Bytes → Nat) : Track → Track → Prop
  | intro (pid : Int) {pcieId pcieId' : Bytes}
      (h : hash pcieId &&& 0xFFFF = hash pcieId' &&& 0xFFFF) :
      HashClash hash (.ais pid pcieId) (.ais pid pcieId')

/-- **Track identity**: different tracks have different uuids, up to the device's hash. -/
def TraceWriter.TracksIdentified (w : TraceWriter) (hash : Bytes → Nat) : Prop :=
  ∀ t ∈ w.tracks, ∀ t' ∈ w.tracks, t ≠ t' → t.uuid hash = t'.uuid hash → t.HashClash hash t'

/-- The bits of the constant AIS uuids start from. -/
def kAisBits : List Nat := [4, 6, 8, 13, 15]

theorem testBit_aisBase (i : Nat) : (0xA150).testBit i = decide (i ∈ kAisBits) := by
  by_cases hi : i < 16
  · have hsmall : ∀ i < 16, (0xA150).testBit i = decide (i ∈ kAisBits) := by decide
    exact hsmall i hi
  · have hpow : 2 ^ 16 ≤ 2 ^ i := Nat.pow_le_pow_right (by decide) (Nat.le_of_not_lt hi)
    rw [Nat.testBit_lt_two_pow (Nat.lt_of_lt_of_le (by decide) hpow)]
    refine (decide_eq_false ?_).symm
    intro hmem
    have hle : ∀ i ∈ kAisBits, i < 16 := by decide
    exact hi (hle i hmem)

/-- Pids are told apart by the other bits. -/
theorem aisBits_eq_iff {pid pid' : Int} :
    aisBits pid = aisBits pid' ↔
      ∀ i ∉ kAisBits, (pid % 2 ^ 32).toNat.testBit i = (pid' % 2 ^ 32).toNat.testBit i := by
  constructor
  · intro h i hi
    have hbit := congrArg (fun n => n.testBit i) h
    simpa [aisBits, Nat.testBit_or, testBit_aisBase, hi] using hbit
  · intro h
    refine Nat.eq_of_testBit_eq (fun i => ?_)
    rw [aisBits, aisBits, Nat.testBit_or, Nat.testBit_or, testBit_aisBase]
    by_cases hi : i ∈ kAisBits
    · simp [hi]
    · rw [h i hi]

/-- The bits of pids of a Linux system. -/
theorem aisBits_eq_iff_of_range {pid pid' : Int} (h : 1 ≤ pid ∧ pid ≤ 4194304)
    (h' : 1 ≤ pid' ∧ pid' ≤ 4194304) :
    aisBits pid = aisBits pid' ↔ ∀ i ∉ kAisBits, pid.toNat.testBit i = pid'.toNat.testBit i := by
  have hpid : (pid % 2 ^ 32).toNat = pid.toNat := by omega
  have hpid' : (pid' % 2 ^ 32).toNat = pid'.toNat := by omega
  rw [aisBits_eq_iff, hpid, hpid']

namespace TraceWriter

theorem ais_mem_tracks {w : TraceWriter} {pid : Int} {pcieId : Bytes} :
    .ais pid pcieId ∈ w.tracks ↔ ∃ r ∈ w.aisRecords, r.pid = pid ∧ r.pcieId = pcieId := by
  simp only [tracks, List.mem_append, List.mem_flatMap, List.mem_map, List.mem_cons,
    List.not_mem_nil, or_false, reduceCtorEq, false_or, and_false, exists_false, Track.ais.injEq]
  simp only [eq_comm]

theorem InRange.pid {w : TraceWriter} (hrange : w.InRange) {r : AisRecord} (hr : r ∈ w.aisRecords) :
    1 ≤ r.pid ∧ r.pid ≤ 4194304 := by
  refine hrange.process r.pid ?_
  exact List.mem_append_right _ (List.mem_flatMap.2 ⟨r, hr, by simp⟩)

/-- Tracks of different kinds have uuids in different ranges, and only AIS tracks can share one. -/
theorem InRange.eq_or_ais {w : TraceWriter} (hrange : w.InRange) {hash : Bytes → Nat} {t t' : Track}
    (ht : t ∈ w.tracks) (ht' : t' ∈ w.tracks) (huuid : t.uuid hash = t'.uuid hash) :
    t = t' ∨ ∃ pid pcieId pid' pcieId', t = .ais pid pcieId ∧ t' = .ais pid' pcieId' := by
  obtain ⟨hprocess, hqueue, hais⟩ := @Track.uuid_range hash
  cases t with
  | process pid =>
      have hp := hprocess pid (hrange.process pid ht)
      have hpos := (hrange.process pid ht).1
      cases t' with
      | process pid' =>
          have hp' := hprocess pid' (hrange.process pid' ht')
          have hpos' := (hrange.process pid' ht').1
          exact .inl (congrArg Track.process (by omega))
      | queue uid' =>
          have hq' := hqueue uid' (hrange.queue uid' ht')
          omega
      | ais pid' pcieId' =>
          have ha' := hais pid' pcieId'
          omega
  | queue uid =>
      have hq := hqueue uid (hrange.queue uid ht)
      have hlt := hrange.queue uid ht
      cases t' with
      | process pid' =>
          have hp' := hprocess pid' (hrange.process pid' ht')
          omega
      | queue uid' =>
          have hq' := hqueue uid' (hrange.queue uid' ht')
          exact .inl (congrArg Track.queue (by omega))
      | ais pid' pcieId' =>
          have ha' := hais pid' pcieId'
          omega
  | ais pid pcieId =>
      have ha := hais pid pcieId
      cases t' with
      | process pid' =>
          have hp' := hprocess pid' (hrange.process pid' ht')
          omega
      | queue uid' =>
          have hq' := hqueue uid' (hrange.queue uid' ht')
          have hlt' := hrange.queue uid' ht'
          omega
      | ais pid' pcieId' => exact .inr ⟨pid, pcieId, pid', pcieId', rfl, rfl⟩

end TraceWriter

theorem Track.HashClash.pid_eq {hash : Bytes → Nat} {pid pid' : Int} {pcieId pcieId' : Bytes}
    (h : HashClash hash (.ais pid pcieId) (.ais pid' pcieId')) : pid = pid' := by
  cases h
  rfl

/-- **When tracks are told apart**: exactly when no two processes whose pids differ in bits 4, 6, 8, 13
    and 15 only used devices with the same low bits of their hash. -/
theorem tracks_identified_iff (w : TraceWriter) (hash : Bytes → Nat) (hrange : w.InRange) :
    w.TracksIdentified hash ↔
      ∀ r ∈ w.aisRecords, ∀ r' ∈ w.aisRecords, r.pid ≠ r'.pid →
        hash r.pcieId &&& 0xFFFF = hash r'.pcieId &&& 0xFFFF →
          ∃ i ∉ kAisBits, r.pid.toNat.testBit i ≠ r'.pid.toNat.testBit i := by
  constructor
  · intro h r hr r' hr' hne hhash
    by_contra hnone
    have hbits : aisBits r.pid = aisBits r'.pid := by
      rw [aisBits_eq_iff_of_range (hrange.pid hr) (hrange.pid hr')]
      intro i hi
      by_contra hbit
      exact hnone ⟨i, hi, hbit⟩
    have hclash := h (.ais r.pid r.pcieId) (TraceWriter.ais_mem_tracks.2 ⟨r, hr, rfl, rfl⟩)
      (.ais r'.pid r'.pcieId) (TraceWriter.ais_mem_tracks.2 ⟨r', hr', rfl, rfl⟩)
      (fun heq => hne (Track.ais.inj heq).1) (aisTrackUuid_inj.2 ⟨hbits, hhash⟩)
    exact hne hclash.pid_eq
  · intro h t ht t' ht' hne huuid
    rcases hrange.eq_or_ais ht ht' huuid with heq | ⟨pid, pcieId, pid', pcieId', rfl, rfl⟩
    · exact absurd heq hne
    · obtain ⟨r, hr, rfl, rfl⟩ := TraceWriter.ais_mem_tracks.1 ht
      obtain ⟨r', hr', rfl, rfl⟩ := TraceWriter.ais_mem_tracks.1 ht'
      obtain ⟨hbits, hhash⟩ := aisTrackUuid_inj.1 huuid
      rw [aisBits_eq_iff_of_range (hrange.pid hr) (hrange.pid hr')] at hbits
      by_cases hsame : r.pid = r'.pid
      · rw [hsame]
        exact .intro r'.pid hhash
      · obtain ⟨i, hi, hbit⟩ := h r hr r' hr' hsame hhash
        exact absurd (hbits i hi) hbit

/-- A writer with reads of two processes from one device. -/
def twoReaders (pid pid' : Int) : TraceWriter where
  aisRecords := [{ pid := pid, pcieId := str "0000:03:00.0" },
    { pid := pid', pcieId := str "0000:03:00.0" }]

theorem tracks_twoReaders (pid pid' : Int) :
    (twoReaders pid pid').tracks = [.process pid, .ais pid (str "0000:03:00.0"), .process pid',
      .ais pid' (str "0000:03:00.0")] := rfl

theorem inRange_twoReaders {pid pid' : Int} (h : 1 ≤ pid ∧ pid ≤ 4194304)
    (h' : 1 ≤ pid' ∧ pid' ≤ 4194304) : (twoReaders pid pid').InRange := by
  constructor
  · intro p hp
    simp only [tracks_twoReaders, List.mem_cons, List.not_mem_nil, Track.process.injEq, reduceCtorEq,
      false_or, or_false] at hp
    rcases hp with rfl | rfl
    · exact h
    · exact h'
  · intro uid hu
    simp [tracks_twoReaders] at hu

/-- Pids that differ in bit 0. -/
theorem tracks_identified_twoReaders :
    (twoReaders 1040 1041).InRange ∧ (twoReaders 1040 1041).TracksIdentified fun _ => 0 := by
  have hrange : (twoReaders 1040 1041).InRange := inRange_twoReaders (by decide) (by decide)
  refine ⟨hrange, (tracks_identified_iff _ _ hrange).2 ?_⟩
  intro r hr r' hr' hne _
  refine ⟨0, by decide, ?_⟩
  simp only [twoReaders, List.mem_cons, List.not_mem_nil, or_false] at hr hr'
  rcases hr with rfl | rfl <;> rcases hr' with rfl | rfl
  · exact absurd rfl hne
  · decide
  · decide
  · exact absurd rfl hne

/-- Pids 1040 and 1088 differ in bits 4 and 6: their reads are on one track. -/
theorem tracks_shared_twoReaders :
    (twoReaders 1040 1088).InRange ∧ ¬ (twoReaders 1040 1088).TracksIdentified fun _ => 0 := by
  refine ⟨inRange_twoReaders (by decide) (by decide), ?_⟩
  intro h
  have hclash := h (.ais 1040 (str "0000:03:00.0")) (by decide) (.ais 1088 (str "0000:03:00.0"))
    (by decide) (by decide) (by decide)
  cases hclash

end HsaSnoop
