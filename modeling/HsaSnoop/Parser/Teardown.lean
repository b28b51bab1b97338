import HsaSnoop.Parser.Run

set_option autoImplicit false

/-! # What becomes of packets in flight when a queue ends

A packet that is decoded before it is consumed waits in `inflight` or `sdma_inflight` until a poll
reads a pointer that has passed it. A queue can end before that: its process exits, its pointers
become unreadable, or the parser is stopped. Nothing looks at the two maps then. So no decoded packet
vanishes exactly in the runs in which every packet that was put in flight is passed by a read pointer
that a poll of its queue still gets to see.

Both polls are treated alike: all that matters of a poll is what it does to the packets in flight
(`Released`). -/

namespace HsaSnoop

/-! ## Packets in flight -/

/-- What identifies a packet on its queue. -/
inductive Tag
  | aql (id : Nat)
  | sdma (seq : Nat)
  deriving DecidableEq, Repr

/-- A packet that is put in flight: the first read pointer that has passed it, and its tag. -/
@[simp] def Event.parked? : Event → Option (Nat × Tag)
  | .park rec => some (rec.dispatchId + 1, .aql rec.dispatchId)
  | .sdmaPark start len rec => some (start + len, .sdma rec.seq)
  | _ => none

/-- The tag of a packet that is given to its sink. -/
@[simp] def Event.sunkTag? : Event → Option Tag
  | .sink rec => some (.aql rec.dispatchId)
  | .sdmaSink rec => some (.sdma rec.seq)
  | _ => none

def sunkTags (es : List Event) : List Tag := es.filterMap Event.sunkTag?

@[simp] theorem sunkTags_append (es fs : List Event) :
    sunkTags (es ++ fs) = sunkTags es ++ sunkTags fs := List.filterMap_append

/-- The read pointers seen in a trace, in order. -/
def rptrs (es : List Event) : List Nat := es.filterMap Event.rptr?

@[simp] theorem rptrs_append (es fs : List Event) : rptrs (es ++ fs) = rptrs es ++ rptrs fs :=
  List.filterMap_append

theorem rptrs_eq_nil {es : List Event} (h : ∀ e ∈ es, e.rptr? = none) : rptrs es = [] :=
  List.filterMap_eq_nil_iff.2 h

/-- What the two maps hold. -/
def QueueState.pending (qs : QueueState) : List (Nat × Tag) :=
  qs.inflight.entries.map (fun e => (e.1 + 1, .aql e.2.dispatchId)) ++
    qs.sdmaInflight.entries.map (fun e => (e.1, .sdma e.2.seq))

theorem pending_congr {qs qs' : QueueState} (h : qs'.inflight = qs.inflight)
    (h' : qs'.sdmaInflight = qs.sdmaInflight) : qs'.pending = qs.pending := by
  rw [QueueState.pending, h, h', QueueState.pending]

theorem pending_eq_nil {qs : QueueState} :
    qs.pending = [] ↔ qs.inflight = ∅ ∧ qs.sdmaInflight = ∅ := by
  simp only [QueueState.pending, List.append_eq_nil_iff, List.map_eq_nil_iff]
  exact ⟨fun h => ⟨OrdMap.ext h.1, OrdMap.ext h.2⟩, fun h => by simp [h.1, h.2]⟩

/-- A packet put in flight between `pre` and `post` has its own poll and the later ones to be passed:
    these are the read pointers they saw. -/
def SeenFor (pre post : List Event) (r : Nat) : Prop :=
  (rptrs pre).getLast? = some r ∨ r ∈ rptrs post

/-- Every packet that is put in flight is passed by a read pointer that its own or a later poll sees. -/
def Passed (es : List Event) : Prop :=
  ∀ pre e post x, es = pre ++ e :: post → e.parked? = some x → ∃ r, SeenFor pre post r ∧ x.1 ≤ r

/-- Every packet that was put in flight has been given to its sink or counted as dropped. -/
def Settled (es : List Event) : Prop :=
  (∀ rec, Event.park rec ∈ es →
    rec.dispatchId ∈ sinkIds es ∨ rec.dispatchId ∈ dropIds es) ∧
  (∀ start len rec, Event.sdmaPark start len rec ∈ es →
    rec.seq ∈ (sdmaRecords es).map SdmaRecord.seq ∨ start ∈ dropIds es)

theorem mem_sinkIds_of_sunkTags {es : List Event} {id : Nat} (h : Tag.aql id ∈ sunkTags es) :
    id ∈ sinkIds es := by
  obtain ⟨e, he, htag⟩ := List.mem_filterMap.1 h
  cases e with
  | sink rec =>
      obtain rfl := Tag.aql.inj (Option.some.inj htag)
      exact List.mem_map_of_mem (mem_sinkRecords.2 he)
  | _ => simp at htag

theorem mem_sdmaRecords_of_sunkTags {es : List Event} {seq : Nat} (h : Tag.sdma seq ∈ sunkTags es) :
    seq ∈ (sdmaRecords es).map SdmaRecord.seq := by
  obtain ⟨e, he, htag⟩ := List.mem_filterMap.1 h
  cases e with
  | sdmaSink rec =>
      obtain rfl := Tag.sdma.inj (Option.some.inj htag)
      exact List.mem_map_of_mem (List.mem_filterMap.2 ⟨_, he, rfl⟩)
  | _ => simp at htag

/-! ## What a poll does to them -/

/-- A poll that read `r` and performed `fs`: what was or is put in flight stays, or is given to its
    sink because `r` has passed it. -/
structure ReleasedUpTo (r : Nat) (before after : List (Nat × Tag)) (fs : List Event) : Prop where
  kept : ∀ x ∈ before, x ∈ after ∨ (x.2 ∈ sunkTags fs ∧ x.1 ≤ r)
  new : ∀ e ∈ fs, ∀ x, e.parked? = some x → x ∈ after ∨ (x.2 ∈ sunkTags fs ∧ x.1 ≤ r)
  origin : ∀ x ∈ after, x ∈ before ∨ ∃ e ∈ fs, e.parked? = some x

/-- What a poll does to the packets in flight. -/
inductive Released (before after : List (Nat × Tag)) : List Event → Prop
  /-- The pointers could not be read. -/
  | unread (same : after = before) : Released before after []
  | upTo {w r : Nat} {gs : List Event} (quiet : ∀ e ∈ gs, e.rptr? = none)
      (released : ReleasedUpTo r before after (.pointers w r :: gs))
      (drained : ∀ x ∈ after, r < x.1) : Released before after (.pointers w r :: gs)

/-- The history of the packets in flight: what was put in flight and not passed is still there,
    what was passed is delivered, and nothing else is there. -/
structure History (pending : List (Nat × Tag)) (es : List Event) : Prop where
  parked : ∀ pre e post x, es = pre ++ e :: post → e.parked? = some x →
    (x ∈ pending ∧ ∀ r, SeenFor pre post r → r < x.1) ∨
      (x.2 ∈ sunkTags es ∧ ∃ r, SeenFor pre post r ∧ x.1 ≤ r)
  origin : ∀ x ∈ pending, ∃ pre e post, es = pre ++ e :: post ∧ e.parked? = some x ∧
    ∀ r, SeenFor pre post r → r < x.1

theorem history_nil : History [] [] :=
  ⟨fun pre e post x h => absurd h (by simp), fun x hx => absurd hx (by simp)⟩

/-- A decomposition of a trace that grew lies in the old or in the new part. -/
theorem split_append {es fs pre post : List Event} {e : Event} (h : es ++ fs = pre ++ e :: post) :
    (∃ post', es = pre ++ e :: post' ∧ post = post' ++ fs) ∨
      ∃ pre', pre = es ++ pre' ∧ fs = pre' ++ e :: post := by
  rcases List.append_eq_append_iff.1 h with ⟨mid, hpre, hfs⟩ | ⟨mid, hes, hpost⟩
  · exact Or.inr ⟨mid, hpre, hfs⟩
  · cases mid with
    | nil =>
        rw [List.append_nil] at hes
        exact Or.inr ⟨[], by simp [hes], hpost.symm⟩
    | cons e' mid =>
        obtain ⟨rfl, htail⟩ := List.cons.inj hpost
        exact Or.inl ⟨mid, hes, htail⟩

/-- Inside a poll the only read pointer to be seen is the poll's own. -/
theorem seenFor_inside {es pre gs post : List Event} {e : Event} {w r r' : Nat}
    (hsplit : Event.pointers w r :: gs = pre ++ e :: post) (hquiet : ∀ e ∈ gs, e.rptr? = none)
    (hpark : e.rptr? = none) : SeenFor (es ++ pre) post r' ↔ r' = r := by
  cases pre with
  | nil =>
      obtain ⟨rfl, -⟩ := List.cons.inj hsplit
      simp at hpark
  | cons e' pre =>
      obtain ⟨rfl, rfl⟩ := List.cons.inj hsplit
      have hpre : rptrs pre = [] := rptrs_eq_nil (fun e he => hquiet e (by simp [he]))
      have hpost : rptrs post = [] := rptrs_eq_nil (fun e he => hquiet e (by simp [he]))
      have hlast : rptrs (es ++ .pointers w r :: pre) = rptrs es ++ [r] := by
        have hcons : rptrs (.pointers w r :: pre) = r :: rptrs pre := rfl
        rw [rptrs_append, hcons, hpre]
      simp [SeenFor, hlast, hpost, eq_comm]

theorem History.poll {before after : List (Nat × Tag)} {es fs : List Event} (h : History before es)
    (hpoll : Released before after fs) : History after (es ++ fs) := by
  cases hpoll with
  | unread same =>
      rw [List.append_nil, same]
      exact h
  | @upTo w r gs quiet released drained =>
      have hparkNone : ∀ {e : Event} {x}, e.parked? = some x → e.rptr? = none := by
        intro e x hx
        cases e <;> simp at hx ⊢
      have hnewPtr : rptrs (.pointers w r :: gs) = [r] := by
        have hcons : rptrs (.pointers w r :: gs) = r :: rptrs gs := rfl
        rw [hcons, rptrs_eq_nil quiet]
      have hseen : ∀ {pre post r'}, SeenFor pre (post ++ .pointers w r :: gs) r' ↔
          SeenFor pre post r' ∨ r' = r := by
        intro pre post r'
        simp [SeenFor, hnewPtr, or_assoc]
      constructor
      · intro pre e post x hsplit hx
        rcases split_append hsplit with ⟨post', hes, rfl⟩ | ⟨pre', rfl, hfs⟩
        · rcases h.parked pre e post' x hes hx with ⟨hin, hfew⟩ | ⟨hsunk, r', hr', hle⟩
          · rcases released.kept x hin with hstay | ⟨hsunk, hle⟩
            · refine Or.inl ⟨hstay, fun r' hr' => ?_⟩
              rcases hseen.1 hr' with hold | rfl
              · exact hfew r' hold
              · exact drained x hstay
            · exact Or.inr ⟨by simp [hsunk], r, hseen.2 (Or.inr rfl), hle⟩
          · exact Or.inr ⟨by simp [hsunk], r', hseen.2 (Or.inl hr'), hle⟩
        · have hiff := @seenFor_inside es pre' gs post e w r
          rcases released.new e (by rw [hfs]; simp) x hx with hin | ⟨hsunk, hle⟩
          · refine Or.inl ⟨hin, fun r' hr' => ?_⟩
            rw [(hiff hfs quiet (hparkNone hx)).1 hr']
            exact drained x hin
          · exact Or.inr ⟨by simp [hsunk], r, (hiff hfs quiet (hparkNone hx)).2 rfl, hle⟩
      · intro x hx
        rcases released.origin x hx with hold | ⟨e, he, hpark⟩
        · obtain ⟨pre, e, post, hes, hpark, hfew⟩ := h.origin x hold
          refine ⟨pre, e, post ++ .pointers w r :: gs, by simp [hes], hpark, fun r' hr' => ?_⟩
          rcases hseen.1 hr' with hold | rfl
          · exact hfew r' hold
          · exact drained x hx
        · obtain ⟨pre, post, hfs⟩ := List.append_of_mem he
          refine ⟨es ++ pre, e, post, by simp [hfs], hpark, fun r' hr' => ?_⟩
          rw [(seenFor_inside hfs quiet (hparkNone hpark)).1 hr']
          exact drained x hx

/-- Everything put in flight was passed exactly when nothing is left in flight. -/
theorem History.passed_iff {pending : List (Nat × Tag)} {es : List Event} (h : History pending es) :
    Passed es ↔ pending = [] := by
  constructor
  · intro hpassed
    by_contra hne
    obtain ⟨x, hx⟩ := List.exists_mem_of_ne_nil _ hne
    obtain ⟨pre, e, post, hes, hpark, hfew⟩ := h.origin x hx
    obtain ⟨r, hseen, hle⟩ := hpassed pre e post x hes hpark
    have := hfew r hseen
    omega
  · rintro rfl pre e post x hes hpark
    rcases h.parked pre e post x hes hpark with ⟨hin, -⟩ | ⟨-, hr⟩
    · simp at hin
    · exact hr

/-- What was passed has been delivered. -/
theorem History.settled {es : List Event} (h : History [] es) : Settled es := by
  have hsunk : ∀ e ∈ es, ∀ x, e.parked? = some x → x.2 ∈ sunkTags es := by
    intro e he x hx
    obtain ⟨pre, post, hes⟩ := List.append_of_mem he
    rcases h.parked pre e post x hes hx with ⟨hin, -⟩ | ⟨hsunk, -⟩
    · simp at hin
    · exact hsunk
  exact ⟨fun rec hrec => Or.inl (mem_sinkIds_of_sunkTags (hsunk _ hrec _ rfl)),
    fun start len rec hrec => Or.inl (mem_sdmaRecords_of_sunkTags (hsunk _ hrec _ rfl))⟩

/-! ## The two polls release -/

/-- Released packets compose over the moves of a poll. -/
theorem ReleasedUpTo.trans {r : Nat} {before mid after : List (Nat × Tag)} {es fs : List Event}
    (h : ReleasedUpTo r before mid es) (h' : ReleasedUpTo r mid after fs) :
    ReleasedUpTo r before after (es ++ fs) := by
  have hstep : ∀ x ∈ mid, x ∈ after ∨ (x.2 ∈ sunkTags (es ++ fs) ∧ x.1 ≤ r) := by
    intro x hx
    refine (h'.kept x hx).imp_right (fun hsunk => ⟨?_, hsunk.2⟩)
    rw [sunkTags_append]
    exact List.mem_append_right _ hsunk.1
  have hgrow : ∀ x : Nat × Tag, x ∈ mid ∨ (x.2 ∈ sunkTags es ∧ x.1 ≤ r) →
      x ∈ after ∨ (x.2 ∈ sunkTags (es ++ fs) ∧ x.1 ≤ r) := by
    rintro x (hx | ⟨hsunk, hle⟩)
    · exact hstep x hx
    · refine Or.inr ⟨?_, hle⟩
      rw [sunkTags_append]
      exact List.mem_append_left _ hsunk
  refine ⟨fun x hx => hgrow x (h.kept x hx), fun e he x hx => ?_, fun x hx => ?_⟩
  · rcases List.mem_append.1 he with he | he
    · exact hgrow x (h.new e he x hx)
    · refine (h'.new e he x hx).imp_right (fun hsunk => ⟨?_, hsunk.2⟩)
      rw [sunkTags_append]
      exact List.mem_append_right _ hsunk.1
  · rcases h'.origin x hx with hmid | ⟨e, he, hpark⟩
    · rcases h.origin x hmid with hold | ⟨e, he, hpark⟩
      · exact Or.inl hold
      · exact Or.inr ⟨e, List.mem_append_left _ he, hpark⟩
    · exact Or.inr ⟨e, List.mem_append_right _ he, hpark⟩

/-- Events that put nothing in flight leave it alone. -/
theorem releasedUpTo_same {r : Nat} {before after : List (Nat × Tag)} {es : List Event}
    (hsame : after = before) (h : ∀ e ∈ es, e.parked? = none) : ReleasedUpTo r before after es := by
  subst hsame
  exact ⟨fun x hx => Or.inl hx, fun e he x hx => absurd (hx.symm.trans (h e he)) (by simp),
    fun x hx => Or.inl hx⟩

/-- An AQL queue keeps nothing in the SDMA map and files its packets under their ids. -/
structure AqlFiled (qs : QueueState) : Prop where
  noSdma : qs.sdmaInflight = ∅
  tagged : ∀ e ∈ qs.inflight.entries, e.2.dispatchId = e.1

theorem AqlFiled.mem_pending {qs : QueueState} (h : AqlFiled qs) {x : Nat × Tag} :
    x ∈ qs.pending ↔ ∃ k ∈ qs.inflight.keys, x = (k + 1, .aql k) := by
  rw [QueueState.pending, h.noSdma, OrdMap.entries_empty, List.map_nil, List.append_nil]
  constructor
  · intro hx
    obtain ⟨e, he, rfl⟩ := List.mem_map.1 hx
    exact ⟨e.1, List.mem_map_of_mem he, by rw [h.tagged e he]⟩
  · rintro ⟨k, hk, rfl⟩
    obtain ⟨e, he, rfl⟩ := List.mem_map.1 hk
    exact List.mem_map.2 ⟨e, he, by rw [h.tagged e he]⟩

theorem PollMove.released {o : PollObs} {wptr rptr : Nat} {qs qs' : QueueState} {es : List Event}
    (h : AqlFiled qs) (hmove : PollMove o wptr rptr qs es qs') :
    AqlFiled qs' ∧ ReleasedUpTo rptr qs.pending qs'.pending es := by
  cases hmove with
  | start => exact ⟨⟨h.noSdma, h.tagged⟩, releasedUpTo_same (pending_congr rfl rfl) (by simp)⟩
  | skip wrapped => exact ⟨⟨h.noSdma, h.tagged⟩, releasedUpTo_same (pending_congr rfl rfl) (by simp)⟩
  | emit lt inRing consumed decoded =>
      exact ⟨⟨h.noSdma, h.tagged⟩, releasedUpTo_same (pending_congr rfl rfl) (by simp)⟩
  | miss lt inRing consumed undecoded =>
      exact ⟨⟨h.noSdma, h.tagged⟩, releasedUpTo_same (pending_congr rfl rfl) (by simp)⟩
  | finish drained => exact ⟨⟨h.noSdma, h.tagged⟩, releasedUpTo_same (pending_congr rfl rfl) (by simp)⟩
  | @park rec ksym lt inRing waiting decoded =>
      obtain ⟨raw, -, hfrom⟩ := decodeSlot_some decoded
      have hfiled : AqlFiled { qs with
          ksym := ksym
          inflight := qs.inflight.emplace qs.nextId { rec with submitTs := o.now }
          nextId := qs.nextId + 1 } := by
        refine ⟨h.noSdma, fun e he => ?_⟩
        rcases OrdMap.mem_entries_emplace he with rfl | he
        · exact hfrom.dispatchId
        · exact h.tagged e he
      refine ⟨hfiled, fun x hx => Or.inl ?_, fun e he x hx => Or.inl ?_, fun x hx => ?_⟩
      · obtain ⟨k, hk, rfl⟩ := h.mem_pending.1 hx
        exact hfiled.mem_pending.2 ⟨k, OrdMap.mem_keys_emplace.2 (Or.inr hk), rfl⟩
      · obtain rfl := List.mem_singleton.1 he
        obtain rfl := Option.some.inj hx
        exact hfiled.mem_pending.2
          ⟨qs.nextId, OrdMap.mem_keys_emplace.2 (Or.inl rfl), by simp [hfrom.dispatchId]⟩
      · obtain ⟨k, hk, rfl⟩ := hfiled.mem_pending.1 hx
        rcases OrdMap.mem_keys_emplace.1 hk with rfl | hk
        · exact Or.inr ⟨_, List.mem_singleton_self _, by simp [hfrom.dispatchId]⟩
        · exact Or.inl (h.mem_pending.2 ⟨k, hk, rfl⟩)
  | drain =>
      have hfiled : AqlFiled { qs with inflight := (qs.inflight.splitBelow rptr).2 } :=
        ⟨h.noSdma, fun e he => h.tagged e (OrdMap.mem_entries_of_mem_splitBelow_snd he)⟩
      refine ⟨hfiled, fun x hx => ?_, fun e he x hx => ?_, fun x hx => Or.inl ?_⟩
      · obtain ⟨k, hk, rfl⟩ := h.mem_pending.1 hx
        rw [← qs.inflight.keys_splitBelow rptr] at hk
        rcases List.mem_append.1 hk with hgone | hstay
        · obtain ⟨e, he, rfl⟩ := List.mem_map.1 hgone
          refine Or.inr ⟨?_, OrdMap.splitBelow_fst_lt he⟩
          refine List.mem_filterMap.2 ⟨_, List.mem_map_of_mem he, ?_⟩
          simp [h.tagged e (OrdMap.mem_entries_of_mem_splitBelow_fst he)]
        · exact Or.inl (hfiled.mem_pending.2 ⟨k, hstay, rfl⟩)
      · obtain ⟨y, -, rfl⟩ := List.mem_map.1 he
        simp at hx
      · obtain ⟨k, hk, rfl⟩ := hfiled.mem_pending.1 hx
        refine h.mem_pending.2 ⟨k, ?_, rfl⟩
        rw [← qs.inflight.keys_splitBelow rptr]
        exact List.mem_append_right _ hk

theorem pollQueue_released {qs : QueueState} (h : AqlFiled qs)
    (hfresh : qs.primed = false → qs.inflight = ∅) (o : PollObs) :
    AqlFiled (pollQueue qs o).1 ∧ ((pollQueue qs o).1.primed = false → (pollQueue qs o).1.inflight = ∅) ∧
      Released qs.pending (pollQueue qs o).1.pending (pollQueue qs o).2 := by
  refine pollQueue_elim qs o (fun qs' fs hcase => ?_)
  cases hcase with
  | failed unread => exact ⟨⟨h.noSdma, h.tagged⟩, hfresh, .unread (pending_congr rfl rfl)⟩
  | @primes w r hw hr fresh =>
      have hnone : qs.pending = [] := pending_eq_nil.2 ⟨hfresh fresh, h.noSdma⟩
      refine ⟨⟨h.noSdma, h.tagged⟩, fun hp => absurd hp (by simp), .upTo (by simp) ?_ ?_⟩
      · exact releasedUpTo_same (pending_congr rfl rfl) (by simp)
      · intro x hx
        have hx' : x ∈ qs.pending := (pending_congr rfl rfl : _ = qs.pending) ▸ hx
        simp [hnone] at hx'
  | @polled w r qs' fs hw hr primed steps drained last stopped trace =>
      have hinv := steps.invariant
        (fun t gs => AqlFiled t ∧ ReleasedUpTo r.toNat qs.pending t.pending gs)
        (fun s gs t gs' hs hmove => by
          have hmoved := hmove.released hs.1
          exact ⟨hmoved.1, hs.2.trans hmoved.2⟩)
        (show AqlFiled qs ∧ ReleasedUpTo r.toNat qs.pending qs.pending [] from
          ⟨h, releasedUpTo_same rfl (by simp)⟩)
      rw [List.nil_append] at hinv
      have hprimed := (PollMove.frame_steps steps).2.1.trans primed
      refine ⟨hinv.1, fun hp => absurd hprimed (by simp [hp]), ?_⟩
      obtain ⟨gs, rfl, hquiet⟩ := trace
      refine .upTo hquiet hinv.2 (fun x hx => ?_)
      obtain ⟨k, hk, rfl⟩ := hinv.1.mem_pending.1 hx
      exact Nat.lt_succ_of_le (drained k hk)

/-- An SDMA queue keeps nothing in the AQL map, and its packets end at or before the decode
    position. -/
structure SdmaFiled (qs : QueueState) : Prop where
  noAql : qs.inflight = ∅
  bound : qs.nextId < 2 ^ 62
  keys_le : ∀ k ∈ qs.sdmaInflight.keys, k ≤ qs.nextId

theorem SdmaFiled.mem_pending {qs : QueueState} (h : SdmaFiled qs) {x : Nat × Tag} :
    x ∈ qs.pending ↔ ∃ e ∈ qs.sdmaInflight.entries, x = (e.1, .sdma e.2.seq) := by
  rw [QueueState.pending, h.noAql, OrdMap.entries_empty, List.map_nil, List.nil_append,
    List.mem_map]
  exact ⟨fun ⟨e, he, hx⟩ => ⟨e, he, hx.symm⟩, fun ⟨e, he, hx⟩ => ⟨e, he, hx.symm⟩⟩

theorem SdmaMove.released {o : PollObs} {wptr rptr : Nat} {qs qs' : QueueState} {es : List Event}
    (hw : wptr < 2 ^ 62) (h : SdmaFiled qs) (hmove : SdmaMove o wptr rptr qs es qs') :
    SdmaFiled qs' ∧ ReleasedUpTo rptr qs.pending qs'.pending es := by
  obtain ⟨hle, hb⟩ := hmove.nextId_le hw h.bound
  have hkeys : ∀ k ∈ qs.sdmaInflight.keys, k ≤ qs'.nextId := fun k hk => (h.keys_le k hk).trans hle
  cases hmove with
  | start => exact ⟨⟨h.noAql, hb, hkeys⟩, releasedUpTo_same (pending_congr rfl rfl) (by simp)⟩
  | skip wrapped => exact ⟨⟨h.noAql, hb, hkeys⟩, releasedUpTo_same (pending_congr rfl rfl) (by simp)⟩
  | resync window unknown enough =>
      exact ⟨⟨h.noAql, hb, hkeys⟩, releasedUpTo_same (pending_congr rfl rfl) (by simp)⟩
  | finish drained => exact ⟨⟨h.noAql, hb, hkeys⟩, releasedUpTo_same (pending_congr rfl rfl) (by simp)⟩
  | @park dws rec pageHost window known whole made =>
      -- The end of the new packet is above every key, so it gets an entry of its own.
      have hentries : (qs.sdmaInflight.emplace (qs.nextId + windowLen wptr qs dws) rec).entries =
          qs.sdmaInflight.entries ++ [(qs.nextId + windowLen wptr qs dws, rec)] :=
        OrdMap.entries_emplace_of_forall_lt (fun k hk => by
          have := h.keys_le k hk
          omega)
      have hfiled : SdmaFiled { qs with
          sdmaSeq := qs.sdmaSeq + 1
          pageHost := pageHost
          sdmaInflight := qs.sdmaInflight.emplace (qs.nextId + windowLen wptr qs dws) rec
          nextId := qs.nextId + windowLen wptr qs dws } := by
        refine ⟨h.noAql, hb, fun k hk => ?_⟩
        rcases OrdMap.mem_keys_emplace.1 hk with rfl | hk
        · exact Nat.le_refl _
        · exact hkeys k hk
      refine ⟨hfiled, fun x hx => Or.inl ?_, fun e he x hx => Or.inl ?_, fun x hx => ?_⟩
      · obtain ⟨e, he, rfl⟩ := h.mem_pending.1 hx
        exact hfiled.mem_pending.2 ⟨e, by rw [hentries]; exact List.mem_append_left _ he, rfl⟩
      · obtain rfl := List.mem_singleton.1 he
        obtain rfl := Option.some.inj hx
        exact hfiled.mem_pending.2 ⟨(_, rec), by rw [hentries]; simp, rfl⟩
      · obtain ⟨e, he, rfl⟩ := hfiled.mem_pending.1 hx
        rw [hentries] at he
        rcases List.mem_append.1 he with hold | hnew
        · exact Or.inl (h.mem_pending.2 ⟨e, hold, rfl⟩)
        · obtain rfl := List.mem_singleton.1 hnew
          exact Or.inr ⟨_, List.mem_singleton_self _, rfl⟩
  | drain =>
      have hfiled : SdmaFiled
          { qs with sdmaInflight := (qs.sdmaInflight.splitBelow (rptr + 1)).2 } := by
        refine ⟨h.noAql, hb, fun k hk => h.keys_le k ?_⟩
        rw [← qs.sdmaInflight.keys_splitBelow (rptr + 1)]
        exact List.mem_append_right _ hk
      refine ⟨hfiled, fun x hx => ?_, fun e he x hx => ?_, fun x hx => Or.inl ?_⟩
      · obtain ⟨e, he, rfl⟩ := h.mem_pending.1 hx
        rw [← qs.sdmaInflight.splitBelow_append (rptr + 1)] at he
        rcases List.mem_append.1 he with hgone | hstay
        · have hlt : e.1 < rptr + 1 := OrdMap.splitBelow_fst_lt hgone
          refine Or.inr ⟨?_, Nat.le_of_lt_succ hlt⟩
          exact List.mem_filterMap.2 ⟨_, List.mem_map_of_mem hgone, rfl⟩
        · exact Or.inl (hfiled.mem_pending.2 ⟨e, hstay, rfl⟩)
      · obtain ⟨y, -, rfl⟩ := List.mem_map.1 he
        simp at hx
      · obtain ⟨e, he, rfl⟩ := hfiled.mem_pending.1 hx
        exact h.mem_pending.2 ⟨e, OrdMap.mem_entries_of_mem_splitBelow_snd he, rfl⟩

theorem pollSdmaQueue_released {qs : QueueState} (h : SdmaFiled qs)
    (hfresh : qs.primed = false → qs.sdmaInflight = ∅) (o : PollObs) :
    SdmaFiled (pollSdmaQueue qs o).1 ∧
      ((pollSdmaQueue qs o).1.primed = false → (pollSdmaQueue qs o).1.sdmaInflight = ∅) ∧
      Released qs.pending (pollSdmaQueue qs o).1.pending (pollSdmaQueue qs o).2 := by
  refine pollSdmaQueue_elim qs o (fun qs' fs hcase => ?_)
  cases hcase with
  | failed unread => exact ⟨⟨h.noAql, h.bound, h.keys_le⟩, hfresh, .unread (pending_congr rfl rfl)⟩
  | noRing none => exact ⟨⟨h.noAql, h.bound, h.keys_le⟩, hfresh, .unread (pending_congr rfl rfl)⟩
  | @primes w r read ring fresh =>
      have hempty := hfresh fresh
      have hnone : qs.pending = [] := pending_eq_nil.2 ⟨h.noAql, hempty⟩
      refine ⟨⟨h.noAql, (PollObs.dwords_lt read).1, by simp [hempty]⟩,
        fun hp => absurd hp (by simp), .upTo (by simp) ?_ ?_⟩
      · exact releasedUpTo_same (pending_congr rfl rfl) (by simp)
      · intro x hx
        have hx' : x ∈ qs.pending := (pending_congr rfl rfl : _ = qs.pending) ▸ hx
        simp [hnone] at hx'
  | @polled w r mid qs' fs gs read ring primed decode stopped drain nextId drained last trace =>
      have hinv := (decode.trans drain).invariant
        (fun t gs => SdmaFiled t ∧ ReleasedUpTo r qs.pending t.pending gs)
        (fun s gs t gs' hs hmove => by
          have hmoved := hmove.released (PollObs.dwords_lt read).1 hs.1
          exact ⟨hmoved.1, hs.2.trans hmoved.2⟩)
        (show SdmaFiled qs ∧ ReleasedUpTo r qs.pending qs.pending [] from
          ⟨h, releasedUpTo_same rfl (by simp)⟩)
      rw [List.nil_append] at hinv
      have hprimed := (SdmaMove.frame_steps (decode.trans drain)).2.1.trans primed
      refine ⟨hinv.1, fun hp => absurd hprimed (by simp [hp]), ?_⟩
      obtain ⟨gs', htrace, hquiet⟩ := trace
      rw [htrace] at hinv ⊢
      refine .upTo hquiet hinv.2 (fun x hx => ?_)
      obtain ⟨e, he, rfl⟩ := hinv.1.mem_pending.1 hx
      exact drained e.1 (List.mem_map_of_mem he)

/-! ## Runs of the parser -/

/-- What a visited queue satisfies: its packets are filed by its kind, none is there before priming,
    and they have a history. -/
structure Visited (qs : QueueState) (es : List Event) : Prop where
  filed : if qs.info.isSdma then SdmaFiled qs else AqlFiled qs
  fresh : qs.primed = false → qs.inflight = ∅ ∧ qs.sdmaInflight = ∅
  history : History qs.pending es

theorem visited_new (q : QueueInfo) : Visited (QueueState.new q) [] := by
  refine ⟨?_, fun _ => ⟨rfl, rfl⟩, history_nil⟩
  split
  · exact ⟨rfl, by simp [QueueState.new], by simp [QueueState.new]⟩
  · exact ⟨rfl, by simp [QueueState.new]⟩

theorem visited_visit {qs : QueueState} {es : List Event} (h : Visited qs es) (alive : Bool)
    (o : PollObs) : Visited (visit alive o qs).1 (es ++ (visit alive o qs).2) := by
  obtain ⟨hfiled, hfresh, hhist⟩ := h
  unfold visit
  split
  · rw [List.append_nil]
    exact ⟨hfiled, hfresh, hhist⟩
  · split
    · rw [List.append_nil]
      refine ⟨?_, hfresh, hhist⟩
      simp only
      split at hfiled
      · next hsdma =>
          rw [if_pos hsdma]
          exact ⟨hfiled.noAql, hfiled.bound, hfiled.keys_le⟩
      · next haql =>
          rw [if_neg haql]
          exact ⟨hfiled.noSdma, hfiled.tagged⟩
    · split
      · next hsdma =>
          rw [if_pos hsdma] at hfiled
          obtain ⟨hf, hfr, hrel⟩ := pollSdmaQueue_released hfiled (fun hp => (hfresh hp).2) o
          refine ⟨?_, fun hp => ⟨hf.noAql, hfr hp⟩, hhist.poll hrel⟩
          rwa [pollSdmaQueue_info, if_pos hsdma]
      · next haql =>
          rw [if_neg haql] at hfiled
          obtain ⟨hf, hfr, hrel⟩ := pollQueue_released hfiled (fun hp => (hfresh hp).1) o
          refine ⟨?_, fun hp => ⟨hfr hp, hf.noSdma⟩, hhist.poll hrel⟩
          rwa [pollQueue_info, if_neg haql]

/-- **No decoded packet vanishes, when every one is passed in time.** In every run of the parser,
    stopped at any point: the maps of all destroyed queue states are empty exactly when every packet
    that was put in flight is passed by a read pointer that a poll of its queue sees before the queue
    ends; and then every such packet has been given to its sink. -/
theorem run_none_vanish_iff (inputs : List ParserInput) :
    let p := (Trace.run RingParser.step {} inputs).1
    let es := (Trace.run RingParser.step {} inputs).2
    ((∀ t ∈ p.destroyed, t.state.inflight = ∅ ∧ t.state.sdmaInflight = ∅) ↔
        ∀ h, Passed (eventsOf h es)) ∧
      ((∀ h, Passed (eventsOf h es)) → ∀ h, Settled (eventsOf h es)) := by
  intro p es
  have hlift := run_queue_invariant Visited visited_new (fun qs fs alive o h => visited_visit h alive o)
    inputs
  -- A handle that no queue has, has no events.
  have hcases : ∀ h, (∃ t ∈ p.destroyed, t.handle = h) ∨ eventsOf h es = [] := by
    intro h
    by_cases hex : ∃ t ∈ p.destroyed, t.handle = h
    · exact Or.inl hex
    · refine Or.inr (eventsOf_eq_nil (fun x hx heq => hex ?_))
      obtain ⟨t, ht, hth⟩ := hlift.owned x hx
      exact ⟨t, ht, hth.trans heq⟩
  have hiff : ∀ t ∈ p.destroyed, Passed (eventsOf t.handle es) ↔ t.state.pending = [] :=
    fun t ht => (hlift.holds t ht).history.passed_iff
  refine ⟨⟨fun hempty h => ?_, fun hpassed t ht => ?_⟩, fun hpassed h => ?_⟩
  · rcases hcases h with ⟨t, ht, rfl⟩ | hnil
    · exact (hiff t ht).2 (pending_eq_nil.2 (hempty t ht))
    · rw [hnil]
      exact fun pre e post x hes => absurd hes (by simp)
  · exact pending_eq_nil.1 ((hiff t ht).1 (hpassed t.handle))
  · rcases hcases h with ⟨t, ht, rfl⟩ | hnil
    · have hhist := (hlift.holds t ht).history
      rw [(hiff t ht).1 (hpassed t.handle)] at hhist
      exact hhist.settled
    · rw [hnil]
      exact ⟨fun rec hrec => absurd hrec (by simp), fun start len rec hrec => absurd hrec (by simp)⟩

/-- A packet is put in flight, and the process exits before a poll sees it consumed: the queue is
    evicted with the packet in `inflight`, delivered nowhere and not counted. -/
theorem packet_vanishes_with_process :
    let polls (alive : Bool) (now : Time) (w r : UInt64) : ParserInput :=
      .iterate (fun _ => alive) (fun _ => .still now w r dispatchEverywhere)
    let inputs : List ParserInput :=
      [.addQueue twoSlots, polls true 1 0 0, polls true 2 1 0, polls false 3 1 1]
    let p := (Trace.run RingParser.step {} inputs).1
    let es := (Trace.run RingParser.step {} inputs).2
    p.destroyed.map (fun t => (t.state.inflight.keys, t.state.dropped)) = [([0], 0)] ∧
      ¬ Settled (eventsOf 0 es) := by
  intro polls inputs p es
  refine ⟨by decide +kernel, fun hsettled => ?_⟩
  have hparked : (eventsOf 0 es).findSome? (fun | .park rec => some rec.dispatchId | _ => none) =
      some 0 := by decide +kernel
  obtain ⟨e, he, hid⟩ := List.exists_of_findSome?_eq_some hparked
  have hsink : sinkIds (eventsOf 0 es) = [] := by decide +kernel
  have hdrop : dropIds (eventsOf 0 es) = [] := by decide +kernel
  cases e with
  | park rec =>
      rcases hsettled.1 rec he with hin | hin
      · simp [hsink] at hin
      · simp [hdrop] at hin
  | _ => simp at hid

end HsaSnoop
