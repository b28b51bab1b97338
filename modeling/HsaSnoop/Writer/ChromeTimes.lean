import HsaSnoop.Writer.ChromeJson

set_option autoImplicit false

/-! # Times in both traces

`WriteJson` prints a record's submission and duration in microseconds, as the stream prints any `double`;
`WritePerfetto` writes both ends of the slice in nanoseconds. `eventTimes` reads the numbers of an event
back from its text, and `Drawn` puts a record's event beside its slice.

Six significant digits are enough for the first second of uptime. After that submissions are rounded,
so the traces disagree and distinct submissions can become one (`times_agree_iff`). -/

namespace HsaSnoop

/-! ## The times of an event -/

/-- The number behind a fixed text. -/
def readMember (key : String) (s : Bytes) : Option (Bytes × Bytes) :=
  if (str key).isPrefixOf s then Json.readNumber (s.drop (str key).length) else none

/-- `ts` and `dur` of a complete event, from its text. -/
def eventTimes (text : Bytes) : Option (ℚ × ℚ) := do
  let (_, s) ← readMember "\x7b\"ph\":\"X\",\"pid\":" text
  let (_, s) ← readMember ",\"tid\":" s
  let (ts, s) ← readMember ",\"ts\":" s
  let (dur, _) ← readMember ",\"dur\":" s
  return (← Json.numberValue ts, ← Json.numberValue dur)

/-- A number between two members is read, since the next member starts with a comma. -/
theorem readMember_append (key next : String) {text : Bytes} (h : Json.IsNumber text)
    (hnext : (str next).head? = some 44) (s : Bytes) :
    readMember key (str key ++ (text ++ (str next ++ s))) = some (text, str next ++ s) := by
  have hkey : (str key).isPrefixOf (str key ++ (text ++ (str next ++ s))) = true :=
    List.isPrefixOf_iff_prefix.2 ⟨_, rfl⟩
  have hdelimited : Json.Delimited (str next ++ s) := by
    intro c hc
    rw [List.head?_append, hnext, Option.some_or] at hc
    obtain rfl : 44 = c := Option.some.inj hc
    decide
  rw [readMember, if_pos hkey, List.drop_left, Json.readNumber_append h hdelimited]

/-- **What an event says about time**: both numbers are rounded. -/
theorem eventTimes_eventHead (pid : Int) (tid submitTs dur : Nat) (name rest : Bytes) :
    eventTimes (eventHead ostreamFormat pid tid submitTs dur name ++ rest) =
      some ((rounded submitTs : ℚ) / 1000, (rounded dur : ℚ) / 1000) := by
  have htext : eventHead ostreamFormat pid tid submitTs dur name ++ rest =
      str "\x7b\"ph\":\"X\",\"pid\":" ++ (signedDecimal pid ++ (str ",\"tid\":" ++ (decimal tid ++
        (str ",\"ts\":" ++ (ostreamMicros submitTs ++ (str ",\"dur\":" ++ (ostreamMicros dur ++
          (str ",\"name\":\"" ++ (jsonEscape name ++ (str "\",\"args\":\x7b" ++ rest)))))))))) := by
    simp only [eventHead, ostreamFormat, List.append_assoc]
  have hpid := readMember_append "\x7b\"ph\":\"X\",\"pid\":" ",\"tid\":"
    (isNumber_signedDecimal pid) (by decide)
  have htid := readMember_append ",\"tid\":" ",\"ts\":" (isNumber_decimal tid)
    (by decide)
  have hts := readMember_append ",\"ts\":" ",\"dur\":"
    (spells_ostreamMicros submitTs).isNumber (by decide)
  have hdur := readMember_append ",\"dur\":" ",\"name\":\""
    (spells_ostreamMicros dur).isNumber (by decide)
  rw [htext, eventTimes]
  simp only [hpid, htid, hts, hdur, numberValue_ostreamMicros, Option.bind_eq_bind, Option.bind_some,
    Option.pure_def]

theorem eventTimes_packetText (q : QueueInfo) (r : PacketRecord) :
    eventTimes (packetText ostreamFormat q r) =
      some ((rounded r.submitTs : ℚ) / 1000, (rounded (durNs r.submitTs r.completeTs) : ℚ) / 1000) := by
  simp only [packetText, List.append_assoc, eventTimes_eventHead]

theorem eventTimes_sdmaText (q : QueueInfo) (r : SdmaRecord) :
    eventTimes (sdmaText ostreamFormat q r) =
      some ((rounded r.submitTs : ℚ) / 1000, (rounded (durNs r.submitTs r.completeTs) : ℚ) / 1000) := by
  simp only [sdmaText, List.append_assoc, eventTimes_eventHead]

theorem eventTimes_aisText (hash : Bytes → Nat) (r : AisRecord) :
    eventTimes (aisText ostreamFormat hash r) =
      some ((rounded r.submitTs : ℚ) / 1000, (rounded (aisDurNs r) : ℚ) / 1000) := by
  simp only [aisText, List.append_assoc, eventTimes_eventHead]

/-! ## Records in both traces -/

/-- A record, with what the two writers make of it. -/
structure Drawn where
  submitTs : Time
  completeTs : Time
  /-- Its event in the Chrome trace. -/
  text : Bytes
  /-- The ends of its slice in the Perfetto trace: whether it begins there, and when. -/
  ends : List (Bool × Time)

def Drawing.drawn {R : Type} (d : Drawing R) (text : R → Bytes) (r : R) : Drawn where
  submitTs := d.submitTs r
  completeTs := d.completeTs r
  text := text r
  ends := (d.evs r).map (fun e => (e.begins, e.ts))

/-- Both ends of a record's slice are written. -/
theorem Drawing.ends_mem_packets {R : Type} (d : Drawing R) (text : R → Bytes) {rs : List R} {r : R}
    (hr : r ∈ rs) {e : Bool × Time} (he : e ∈ (d.drawn text r).ends) :
    ∃ te, .trackEvent e.2 te kSeq ∈ d.packets rs ∧ (te.event = .sliceEnd ↔ e.1 = false) := by
  obtain ⟨ev, hev, rfl⟩ := List.mem_map.1 he
  have hsorted : ev ∈ d.sortedEvs rs :=
    (List.perm_insertionSort _ _).mem_iff.2 (List.mem_flatMap.2 ⟨r, hr, hev⟩)
  refine ⟨_, List.mem_map.2 ⟨ev, hsorted, rfl⟩, ?_⟩
  cases ev.begins with
  | false => simp
  | true => simp

namespace TraceWriter

variable (w : TraceWriter) (hash : Bytes → Nat)

def drawn : List Drawn :=
  w.records.map (w.packetDrawing.drawn (fun r => packetText ostreamFormat (w.queue r.queueUid) r)) ++
    w.sdmaRecords.map (sdmaDrawing.drawn (fun r => sdmaText ostreamFormat (w.queue r.queueUid) r)) ++
    w.aisRecords.map ((aisDrawing hash).drawn (aisText ostreamFormat hash))

/-- The events `WriteJson` writes are those of the queues and of the drawn records. -/
theorem map_text_chromeEvents :
    (w.chromeEvents ostreamFormat hash).map ChromeEvent.text =
      w.queues.entries.flatMap (fun e => [processNameText e.2, threadNameText e.2]) ++
        (w.drawn hash).map Drawn.text := by
  simp only [chromeEvents, drawn, List.map_append, List.map_flatMap, List.map_map, List.map_cons,
    List.map_nil, List.append_assoc]
  rfl

/-- The ends of a drawn record are timestamps `WritePerfetto` writes. -/
theorem ends_written {a : Drawn} (ha : a ∈ w.drawn hash) {e : Bool × Time} (he : e ∈ a.ends) :
    ∃ te, .trackEvent e.2 te kSeq ∈ (w.writePerfetto hash).1 ∧ (te.event = .sliceEnd ↔ e.1 = false) := by
  simp only [drawn, List.mem_append, List.mem_map] at ha
  simp only [writePerfetto, List.mem_append]
  rcases ha with (⟨r, hr, rfl⟩ | ⟨r, hr, rfl⟩) | ⟨r, hr, rfl⟩
  · obtain ⟨te, hte, hevent⟩ := w.packetDrawing.ends_mem_packets _ hr he
    exact ⟨te, .inl (.inl (.inl (.inr hte))), hevent⟩
  · obtain ⟨te, hte, hevent⟩ := sdmaDrawing.ends_mem_packets _ hr he
    exact ⟨te, .inl (.inl (.inr hte)), hevent⟩
  · obtain ⟨te, hte, hevent⟩ := (aisDrawing hash).ends_mem_packets _ hr he
    exact ⟨te, .inr hte, hevent⟩

end TraceWriter

/-! ## Agreement -/

/-- **The traces agree on a record**: the event's numbers are the submission and the duration in
    microseconds, and a thousand times them are the ends of the slice. -/
structure Drawn.Agrees (a : Drawn) : Prop where
  times : eventTimes a.text =
    some ((a.submitTs : ℚ) / 1000, ((a.completeTs - a.submitTs : ℕ) : ℚ) / 1000)
  ends : ∀ ts dur, eventTimes a.text = some (ts, dur) →
    a.ends.map (fun e => (e.1, (e.2 : ℚ))) = [(true, 1000 * ts), (false, 1000 * (ts + dur))]

/-- Different submissions are told apart, the earlier first, in both traces. -/
structure Drawn.Precedes (a b : Drawn) : Prop where
  chrome : ∀ ts dur ts' dur', eventTimes a.text = some (ts, dur) →
    eventTimes b.text = some (ts', dur') → ts < ts'
  perfetto : ∀ t t', (true, t) ∈ a.ends → (true, t') ∈ b.ends → t < t'

structure TraceWriter.TimesAgree (w : TraceWriter) (hash : Bytes → Nat) : Prop where
  agrees : ∀ a ∈ w.drawn hash, a.Agrees
  ordered : ∀ a ∈ w.drawn hash, ∀ b ∈ w.drawn hash, a.submitTs < b.submitTs → a.Precedes b

/-- Whole microseconds, at least one from submission to completion. -/
structure Drawn.WholeMicros (a : Drawn) : Prop where
  submit : 1000 ∣ a.submitTs
  complete : 1000 ∣ a.completeTs
  duration : a.submitTs + 1000 ≤ a.completeTs

/-- Six digits are enough for the numbers of the event. -/
structure Drawn.Short (a : Drawn) : Prop where
  submit : SixDigits (a.submitTs / 1000)
  duration : SixDigits ((a.completeTs - a.submitTs) / 1000)

instance (a : Drawn) : Decidable a.WholeMicros :=
  decidable_of_iff
    (1000 ∣ a.submitTs ∧ 1000 ∣ a.completeTs ∧ a.submitTs + 1000 ≤ a.completeTs)
    ⟨fun h => ⟨h.1, h.2.1, h.2.2⟩, fun h => ⟨h.submit, h.complete, h.duration⟩⟩

instance (a : Drawn) : Decidable a.Short :=
  decidable_of_iff
    (SixDigits (a.submitTs / 1000) ∧ SixDigits ((a.completeTs - a.submitTs) / 1000))
    ⟨fun h => ⟨h.1, h.2⟩, fun h => ⟨h.submit, h.duration⟩⟩

theorem sixDigits_micros {n : Nat} (h : 1000 ∣ n) : SixDigits (n / 1000) ↔ SixDigits n := by
  obtain ⟨m, rfl⟩ := h
  rw [Nat.mul_div_cancel_left m (by decide), Nat.mul_comm]
  exact (sixDigits_mul_pow 3).symm

theorem thousandths_inj {m n : Nat} : (m : ℚ) / 1000 = (n : ℚ) / 1000 ↔ m = n := by
  rw [div_left_inj' (by norm_num)]
  exact Nat.cast_inj

/-- A record whose event holds its submission and `dur`, both rounded. -/
theorem Drawn.agrees_iff {a : Drawn} {dur : Nat} (hwhole : a.WholeMicros)
    (htimes : eventTimes a.text = some ((rounded a.submitTs : ℚ) / 1000, (rounded dur : ℚ) / 1000))
    (hends : a.ends = [(true, a.submitTs), (false, sliceEnd a.submitTs a.completeTs)]) :
    a.Agrees ↔ SixDigits (a.submitTs / 1000) ∧ rounded dur = a.completeTs - a.submitTs := by
  rw [sixDigits_micros hwhole.submit, ← rounded_eq_iff]
  constructor
  · intro h
    have heq := h.times.symm.trans htimes
    rw [Option.some.injEq, Prod.mk.injEq, thousandths_inj, thousandths_inj] at heq
    exact ⟨heq.1.symm, heq.2.symm⟩
  · rintro ⟨hsubmit, hdur⟩
    rw [hsubmit, hdur] at htimes
    refine ⟨htimes, ?_⟩
    intro ts dur h
    rw [htimes, Option.some.injEq, Prod.mk.injEq] at h
    obtain ⟨rfl, rfl⟩ := h
    have hle : (a.submitTs : ℕ) + 1000 ≤ a.completeTs := hwhole.duration
    have hend : sliceEnd a.submitTs a.completeTs = a.completeTs :=
      sliceEnd_eq_iff.2 (Nat.le_trans (Nat.add_le_add_left (by decide) _) hle)
    have hcomplete : (a.completeTs : ℚ) = a.submitTs + (a.completeTs - a.submitTs : ℕ) := by
      exact_mod_cast (Nat.add_sub_of_le (Nat.le_of_add_right_le hle)).symm
    have hts : 1000 * ((a.submitTs : ℚ) / 1000) = a.submitTs := mul_div_cancel₀ _ (by norm_num)
    have hsum : 1000 * ((a.submitTs : ℚ) / 1000 + ((a.completeTs - a.submitTs : ℕ) : ℚ) / 1000) =
        a.completeTs := by
      rw [hcomplete]
      ring
    rw [hends, hend, hts, hsum]
    rfl

theorem Drawn.WholeMicros.rounded_iff {a : Drawn} (h : a.WholeMicros) :
    rounded (a.completeTs - a.submitTs) = a.completeTs - a.submitTs ↔
      SixDigits ((a.completeTs - a.submitTs) / 1000) := by
  rw [rounded_eq_iff, sixDigits_micros (Nat.dvd_sub h.complete h.submit)]

theorem durNs_eq {submitTs completeTs : Time} (h : submitTs + 1000 ≤ completeTs) :
    durNs submitTs completeTs = completeTs - submitTs := by
  have hmin : kMinDur ≤ completeTs - submitTs := by
    unfold kMinDur
    exact Nat.le_sub_of_add_le' (Nat.le_trans (Nat.add_le_add_left (by decide) _) h)
  exact Nat.max_eq_left hmin

/-- Packets of a ring: the rendered duration is the record's. -/
theorem Drawing.agrees_drawn_iff {R : Type} (d : Drawing R) (text : R → Bytes) (r : R)
    (hwhole : (d.drawn text r).WholeMicros)
    (htimes : eventTimes (text r) = some ((rounded (d.submitTs r) : ℚ) / 1000,
      (rounded (durNs (d.submitTs r) (d.completeTs r)) : ℚ) / 1000)) :
    (d.drawn text r).Agrees ↔ (d.drawn text r).Short := by
  have hdur : durNs (d.submitTs r) (d.completeTs r) =
      (d.drawn text r).completeTs - (d.drawn text r).submitTs := durNs_eq hwhole.duration
  rw [Drawn.agrees_iff hwhole htimes rfl, hdur]
  constructor
  · rintro ⟨hsubmit, hdur⟩
    exact ⟨hsubmit, hwhole.rounded_iff.1 hdur⟩
  · intro h
    exact ⟨h.submit, hwhole.rounded_iff.2 h.duration⟩

/-- An ioctl that was not marked completed is drawn shorter than it was. -/
theorem agrees_ais_iff (hash : Bytes → Nat) (r : AisRecord)
    (hwhole : ((TraceWriter.aisDrawing hash).drawn (aisText ostreamFormat hash) r).WholeMicros) :
    ((TraceWriter.aisDrawing hash).drawn (aisText ostreamFormat hash) r).Agrees ↔
      ((TraceWriter.aisDrawing hash).drawn (aisText ostreamFormat hash) r).Short ∧
        r.completed = true := by
  by_cases hcompleted : r.completed = true
  · have htimes := eventTimes_aisText hash r
    rw [aisDurNs, if_pos hcompleted] at htimes
    rw [Drawing.agrees_drawn_iff _ _ r hwhole htimes]
    simp [hcompleted]
  · have htimes := eventTimes_aisText hash r
    rw [aisDurNs, if_neg hcompleted] at htimes
    have hmin : rounded kMinDur = 100 := by decide +kernel
    have hdur : 1000 ≤ ((TraceWriter.aisDrawing hash).drawn (aisText ostreamFormat hash) r).completeTs -
        ((TraceWriter.aisDrawing hash).drawn (aisText ostreamFormat hash) r).submitTs :=
      Nat.le_sub_of_add_le' hwhole.duration
    rw [Drawn.agrees_iff hwhole htimes rfl, hmin]
    constructor
    · rintro ⟨-, h⟩
      rw [← h] at hdur
      exact absurd hdur (by decide)
    · rintro ⟨-, h⟩
      exact absurd h hcompleted

/-- Records both traces agree on are ordered by both. -/
theorem Drawn.Agrees.precedes {a b : Drawn} (ha : a.Agrees) (hb : b.Agrees)
    (h : a.submitTs < b.submitTs) : a.Precedes b := by
  have hbegin : ∀ {c : Drawn}, c.Agrees → ∀ {t : Time}, (true, t) ∈ c.ends → t = c.submitTs := by
    intro c hc t ht
    have hmem : (true, (t : ℚ)) ∈ c.ends.map (fun e => (e.1, (e.2 : ℚ))) :=
      List.mem_map.2 ⟨(true, t), ht, rfl⟩
    rw [hc.ends _ _ hc.times] at hmem
    have ht' : (t : ℚ) = 1000 * ((c.submitTs : ℚ) / 1000) := by simpa using hmem
    rw [mul_div_cancel₀ _ (by norm_num)] at ht'
    exact_mod_cast ht'
  constructor
  · intro ts dur ts' dur' hts hts'
    obtain ⟨rfl, -⟩ := Prod.mk.inj (Option.some.inj (ha.times.symm.trans hts))
    obtain ⟨rfl, -⟩ := Prod.mk.inj (Option.some.inj (hb.times.symm.trans hts'))
    exact div_lt_div_of_pos_right (by exact_mod_cast h) (by norm_num)
  · intro t t' ht ht'
    rw [hbegin ha ht, hbegin hb ht']
    exact h

/-- **Times in both traces.** For records in whole microseconds, the traces agree exactly when six
    digits are enough for every submission and every duration, and every ioctl is marked completed. -/
theorem times_agree_iff (w : TraceWriter) (hash : Bytes → Nat)
    (hwhole : ∀ a ∈ w.drawn hash, a.WholeMicros) :
    w.TimesAgree hash ↔
      (∀ a ∈ w.drawn hash, a.Short) ∧ ∀ r ∈ w.aisRecords, r.completed = true := by
  have hagrees : (∀ a ∈ w.drawn hash, a.Agrees) ↔
      (∀ a ∈ w.drawn hash, a.Short) ∧ ∀ r ∈ w.aisRecords, r.completed = true := by
    simp only [TraceWriter.drawn, List.forall_mem_append, List.forall_mem_map] at hwhole ⊢
    obtain ⟨⟨hpacket, hsdma⟩, hais⟩ := hwhole
    rw [forall₂_congr (fun r hr => Drawing.agrees_drawn_iff _ _ r (hpacket r hr)
        (eventTimes_packetText _ r)),
      forall₂_congr (fun r hr => Drawing.agrees_drawn_iff _ _ r (hsdma r hr)
        (eventTimes_sdmaText _ r)),
      forall₂_congr (fun r hr => agrees_ais_iff hash r (hais r hr))]
    simp only [imp_and, forall_and, and_assoc]
  constructor
  · intro h
    exact hagrees.1 h.agrees
  · intro h
    have hall := hagrees.2 h
    exact ⟨hall, fun a ha b hb hlt => (hall a ha).precedes (hall b hb) hlt⟩

/-- One record of each kind, in the first second. -/
def earlyWriter : TraceWriter where
  records := [{ queueUid := 1, kernelName := str "k", submitTs := 5_001_000, completeTs := 5_013_000 }]
  sdmaRecords := [{ queueUid := 2, opName := str "copy", submitTs := 640_123_000, completeTs := 640_124_000 }]
  aisRecords :=
    [{ op := .read, submitTs := 999_999_000, completeTs := 1_999_998_000, completed := true }]

theorem times_agree_earlyWriter :
    (∀ a ∈ earlyWriter.drawn (fun _ => 0), a.WholeMicros) ∧ earlyWriter.TimesAgree (fun _ => 0) := by
  have hwhole : ∀ a ∈ earlyWriter.drawn (fun _ => 0), a.WholeMicros := by decide +kernel
  exact ⟨hwhole, (times_agree_iff earlyWriter _ hwhole).2 ⟨by decide +kernel, by decide⟩⟩

/-- Two packets, a microsecond apart, after more than a second. -/
def lateWriter : TraceWriter where
  records :=
    [{ queueUid := 1, kernelName := str "a", submitTs := 1_234_567_000, completeTs := 1_234_572_000 },
      { queueUid := 1, kernelName := str "b", submitTs := 1_234_568_000, completeTs := 1_234_573_000 }]

/-- Both are printed at `1.23457e+06`. -/
theorem late_times_collapse :
    (∀ a ∈ lateWriter.drawn (fun _ => 0), a.WholeMicros) ∧
      (lateWriter.drawn (fun _ => 0)).map (fun a => eventTimes a.text) =
        [some (1234570, 5), some (1234570, 5)] ∧
      (lateWriter.drawn (fun _ => 0)).map Drawn.ends =
        [[(true, 1_234_567_000), (false, 1_234_572_000)],
          [(true, 1_234_568_000), (false, 1_234_573_000)]] ∧
      ¬ lateWriter.TimesAgree (fun _ => 0) := by
  have htimes : (lateWriter.drawn (fun _ => 0)).map (fun a => eventTimes a.text) =
      [some (1234570, 5), some (1234570, 5)] := by
    decide +kernel
  refine ⟨by decide +kernel, htimes, by decide, ?_⟩
  intro h
  obtain ⟨hfirst, htail⟩ := List.cons.inj htimes
  obtain ⟨hsecond, -⟩ := List.cons.inj htail
  have horder := h.ordered _ (List.mem_cons_self ..) _ (List.mem_cons_of_mem _ (List.mem_cons_self ..))
    (show 1_234_567_000 < 1_234_568_000 by decide)
  exact lt_irrefl _ (horder.chrome _ _ _ _ hfirst hsecond)

end HsaSnoop
