import HsaSnoop.Library.Rounding
import HsaSnoop.Main.Exporter

set_option autoImplicit false

/-! # What two scrapes see

The HTTP endpoint is scraped at any time, and between two scrapes the exporter goes on. Counters may not
fall and no series may go away in between (`counters_never_fall`), which has to survive that the counters
are doubles: from `2 ^ 53` on an increment is rounded away, or up.

`hsa_last_kernel_launch_info` is the one family from which series are removed. It shows one series for
each GPU, that of its last dispatch (`last_kernel_current`). -/

namespace HsaSnoop

open Families PrometheusExporter

/-! ## Counters in doubles -/

theorem toDouble_eq_nearest (n : Nat) : toDouble n = Rounding.nearest 53 n := rfl

theorem fits_toDouble (n : Nat) : Rounding.Fits 53 (toDouble n) := by
  rw [toDouble_eq_nearest]
  exact Rounding.fits_nearest (by decide) n

theorem le_toDouble {r n : Nat} (hr : Rounding.Fits 53 r) (h : r ≤ n) : r ≤ toDouble n := by
  rw [toDouble_eq_nearest]
  exact Rounding.le_nearest (by decide) hr h

theorem fits_counted (increments : List Nat) : Rounding.Fits 53 (counted increments) := by
  induction increments using List.reverseRecOn with
  | nil => exact Rounding.fits_zero 53
  | append_singleton increments v _ =>
      rw [counted, List.foldl_append]
      exact fits_toDouble _

theorem counted_append_le (increments more : List Nat) :
    counted increments ≤ counted (increments ++ more) := by
  induction more using List.reverseRecOn with
  | nil => rw [List.append_nil]
  | append_singleton more v ih =>
      rw [← List.append_assoc]
      have hstep : counted (increments ++ more ++ [v]) =
          toDouble (counted (increments ++ more) + toDouble v) := by
        rw [counted, List.foldl_append]
        rfl
      rw [hstep]
      exact Nat.le_trans ih (le_toDouble (fits_counted _) (Nat.le_add_right _ _))

/-- As long as a double holds the sum, a counter is exact. -/
theorem counted_eq_sum {increments : List Nat} (h : increments.sum ≤ 2 ^ 53) :
    counted increments = increments.sum := by
  induction increments using List.reverseRecOn with
  | nil => rfl
  | append_singleton increments v ih =>
      rw [List.sum_append, List.sum_singleton] at h
      have hstep : counted (increments ++ [v]) = toDouble (counted increments + toDouble v) := by
        rw [counted, List.foldl_append]
        rfl
      rw [hstep, ih (by omega), toDouble_of_le (n := v) (by omega), toDouble_of_le h, List.sum_append,
        List.sum_singleton]

/-! ## Growing families -/

/-- Nothing of a counter family is lost, and no value falls. -/
def Grows {κ : Type} [DecidableEq κ] (f f' : Family κ Nat) : Prop :=
  ∀ k v, f.lookup k = some v → ∃ v', f'.lookup k = some v' ∧ v ≤ v'

theorem logOf_append {β : Type} (entries : List ExporterCall → ExporterCall → List β)
    (newer older : List ExporterCall) :
    ∃ more, logOf entries (newer ++ older) = logOf entries older ++ more := by
  induction newer with
  | nil => exact ⟨[], (List.append_nil _).symm⟩
  | cons c newer ih =>
      obtain ⟨more, hmore⟩ := ih
      exact ⟨more ++ entries (newer ++ older) c, by
        rw [List.cons_append, logOf, hmore, List.append_assoc]⟩

theorem collect_append {κ α : Type} [DecidableEq κ] {log : List (κ × α)} {k : κ} {vs : List α}
    (h : collect log k = some vs) (more : List (κ × α)) :
    ∃ vs', collect (log ++ more) k = some (vs ++ vs') := by
  induction more using List.reverseRecOn with
  | nil => exact ⟨[], by rw [List.append_nil, List.append_nil, h]⟩
  | append_singleton more e ih =>
      obtain ⟨vs', hvs⟩ := ih
      rw [← List.append_assoc, collect_concat]
      by_cases hk : k = e.1
      · subst hk
        rw [if_pos rfl, hvs]
        exact ⟨vs' ++ [e.2], by simp⟩
      · exact ⟨vs', by rw [if_neg hk, hvs]⟩

/-- A counter family that is read off a log grows with the history. -/
theorem grows_of_log {κ : Type} [DecidableEq κ] (family : PrometheusExporter → Family κ Nat)
    {entries : List ExporterCall → ExporterCall → List (κ × Nat)}
    (hread : ∀ history k, (family (after history)).lookup k =
      (collect (logOf entries history) k).map counted)
    (newer older : List ExporterCall) :
    Grows (family (after older)) (family (after (newer ++ older))) := by
  intro k v hv
  rw [hread] at hv
  obtain ⟨vs, hvs, rfl⟩ := Option.map_eq_some_iff.1 hv
  obtain ⟨more, hmore⟩ := logOf_append entries newer older
  obtain ⟨vs', hvs'⟩ := collect_append hvs more
  exact ⟨counted (vs ++ vs'), by rw [hread, hmore, hvs']; rfl, counted_append_le vs vs'⟩

/-- Histograms only gain observations. -/
theorem duration_grows (newer older : List ExporterCall) (k : KernelLabels) {ts : List Time}
    (h : (after older).packet.duration.lookup k = some ts) :
    ∃ ts', (after (newer ++ older)).packet.duration.lookup k = some (ts ++ ts') := by
  rw [lookup_duration] at h
  obtain ⟨more, hmore⟩ := logOf_append (ofPacket durationEntries) newer older
  obtain ⟨ts', hts⟩ := collect_append h more
  exact ⟨ts', by rw [lookup_duration, hmore, hts]⟩

/-! ## The AIS counters -/

/-- All values are doubles. -/
def Fitting {κ : Type} [DecidableEq κ] (f : Family κ Nat) : Prop :=
  ∀ k v, f.lookup k = some v → Rounding.Fits 53 v

theorem fitting_empty {κ : Type} [DecidableEq κ] : Fitting (∅ : Family κ Nat) := by
  intro k v h
  cases h

theorem Grows.refl {κ : Type} [DecidableEq κ] (f : Family κ Nat) : Grows f f :=
  fun _ v h => ⟨v, h, Nat.le_refl v⟩

theorem Grows.trans {κ : Type} [DecidableEq κ] {f g h : Family κ Nat} (hfg : Grows f g)
    (hgh : Grows g h) : Grows f h := by
  intro k v hv
  obtain ⟨v', hv', hle⟩ := hfg k v hv
  obtain ⟨v'', hv'', hle'⟩ := hgh k v' hv'
  exact ⟨v'', hv'', Nat.le_trans hle hle'⟩

theorem Fitting.incrementBy {κ : Type} [DecidableEq κ] {f : Family κ Nat} (h : Fitting f) (labels : κ)
    (d : Nat) : Fitting (incrementBy f labels d) ∧ Grows f (HsaSnoop.incrementBy f labels d) := by
  refine ⟨fun k v hv => ?_, fun k v hv => ?_⟩
  · rw [HsaSnoop.incrementBy, lookup_modify] at hv
    split at hv
    · rw [← Option.some.inj hv]
      exact fits_toDouble _
    · exact h k v hv
  · rw [HsaSnoop.incrementBy, lookup_modify]
    by_cases hk : k = labels
    · subst hk
      rw [if_pos rfl, hv]
      exact ⟨_, rfl, le_toDouble (h k v hv) (Nat.le_add_right _ _)⟩
    · rw [if_neg hk]
      exact ⟨v, hv, Nat.le_refl v⟩

/-- An increment that is only made under a condition. -/
theorem Fitting.incrementIf {κ : Type} [DecidableEq κ] {f : Family κ Nat} (h : Fitting f) (c : Prop)
    [Decidable c] (labels : κ) (d : Nat) :
    Fitting (if c then HsaSnoop.incrementBy f labels d else f) ∧
      Grows f (if c then HsaSnoop.incrementBy f labels d else f) := by
  split
  · exact h.incrementBy labels d
  · exact ⟨h, .refl f⟩

structure AisFamilies.Fitting (f : AisFamilies) : Prop where
  ops : HsaSnoop.Fitting f.ops
  bytes : HsaSnoop.Fitting f.bytes
  errors : HsaSnoop.Fitting f.errors

/-- The counters of a direction grow. -/
structure AisFamilies.Grows (f f' : AisFamilies) : Prop where
  ops : HsaSnoop.Grows f.ops f'.ops
  bytes : HsaSnoop.Grows f.bytes f'.bytes
  errors : HsaSnoop.Grows f.errors f'.errors

theorem AisFamilies.Fitting.add {f : AisFamilies} (h : f.Fitting) (gpuType : Bytes) (rec : AisRecord) :
    (f.add gpuType rec).Fitting ∧ f.Grows (f.add gpuType rec) := by
  obtain ⟨hops, hops'⟩ := h.ops.incrementBy
    { rec.labels gpuType with pid := signedDecimal rec.pid, comm := rec.comm } 1
  obtain ⟨hbytes, hbytes'⟩ := h.bytes.incrementIf (¬ rec.isError ∧ rec.sizeCopied > 0)
    (rec.labels gpuType) rec.sizeCopied
  obtain ⟨herrors, herrors'⟩ := h.errors.incrementIf rec.isError
    { rec.labels gpuType with errno := signedDecimal rec.error } 1
  exact ⟨⟨hops, hbytes, herrors⟩, ⟨hops', hbytes', herrors'⟩⟩

theorem ais_call (x : PrometheusExporter) (c : ExporterCall) :
    (x.call c).ais = x.ais ∨ ∃ gpuType rec, (x.call c).ais = x.ais.add gpuType rec := by
  cases c with
  | registerQueue q gpuType => exact .inl (registerQueue_frame x q gpuType).2.2.2.2.2
  | addPacket rec now =>
      left
      rw [call, addPacket]
      split <;> rfl
  | addSdma rec =>
      left
      rw [call, addSdma]
      split <;> rfl
  | addAis rec gpuType => exact .inr ⟨gpuType, rec, rfl⟩
  | addXnack rec => exact .inl rfl
  | addMem rec gpuType => exact .inl rfl

theorem ais_step (x : PrometheusExporter) (c : ExporterCall) (read : Bool)
    (h : (x.ais.side read).Fitting) :
    ((x.call c).ais.side read).Fitting ∧ (x.ais.side read).Grows ((x.call c).ais.side read) := by
  have hrefl : (x.ais.side read).Grows (x.ais.side read) := ⟨.refl _, .refl _, .refl _⟩
  rcases ais_call x c with heq | ⟨gpuType, rec, heq⟩
  · rw [heq]
    exact ⟨h, hrefl⟩
  · rw [heq, side_add]
    split
    · exact h.add gpuType rec
    · exact ⟨h, hrefl⟩

theorem fitting_ais (history : List ExporterCall) (read : Bool) :
    ((after history).ais.side read).Fitting := by
  induction history with
  | nil => cases read <;> exact ⟨fitting_empty, fitting_empty, fitting_empty⟩
  | cons c older ih => exact (ais_step (after older) c read ih).1

theorem ais_grows (newer older : List ExporterCall) (read : Bool) :
    ((after older).ais.side read).Grows ((after (newer ++ older)).ais.side read) := by
  induction newer with
  | nil => exact ⟨.refl _, .refl _, .refl _⟩
  | cons c newer ih =>
      have hstep := (ais_step (after (newer ++ older)) c read (fitting_ais _ read)).2
      exact ⟨ih.ops.trans hstep.ops, ih.bytes.trans hstep.bytes, ih.errors.trans hstep.errors⟩

/-- All counters of an exporter, against a later scrape. -/
structure PrometheusExporter.Grows (x x' : PrometheusExporter) : Prop where
  launches : HsaSnoop.Grows x.packet.launches x'.packet.launches
  barriers : HsaSnoop.Grows x.packet.barriers x'.packet.barriers
  sdmaPackets : HsaSnoop.Grows x.sdma.packets x'.sdma.packets
  sdmaCopies : HsaSnoop.Grows x.sdma.copies x'.sdma.copies
  sdmaBytes : HsaSnoop.Grows x.sdma.bytes x'.sdma.bytes
  errors : HsaSnoop.Grows x.errors x'.errors
  xnackTotal : HsaSnoop.Grows x.xnackTotal x'.xnackTotal
  mappedVramTotal : HsaSnoop.Grows x.mem.mappedVramTotal x'.mem.mappedVramTotal
  ais : ∀ read, (x.ais.side read).Grows (x'.ais.side read)
  duration : ∀ k ts, x.packet.duration.lookup k = some ts →
    ∃ ts', x'.packet.duration.lookup k = some (ts ++ ts')

/-- The kernels dispatched on a GPU. -/
def kernelsOn (gpuId : Nat) (m : QueueMeta) (rec : PacketRecord) : List Bytes :=
  if rec.isDispatch ∧ m.gpuId = gpuId then [rec.kernelName] else []

/-- What `last_kernel_state_` holds of a GPU. -/
def lastOf (states : OrdMap LastKernelState) (gpuId : Nat) : LastKernelState :=
  (states.find? gpuId).getD {}

theorem lastOf_insert (states : OrdMap LastKernelState) (gpuId gpuId' : Nat) (lks : LastKernelState) :
    lastOf (states.insert gpuId lks) gpuId' = if gpuId' = gpuId then lks else lastOf states gpuId' := by
  rw [lastOf, lastOf, OrdMap.find?_insert]
  split <;> rfl

/-- The state knows the last name of each GPU, and its gauge is the only series of the GPU. Names that are
    empty from the start on have no series. -/
structure LastKernels (info : Family KernelLabels Nat) (states : OrdMap LastKernelState)
    (names : Nat → List Bytes) : Prop where
  name : ∀ gpuId, (lastOf states gpuId).kernelName = (names gpuId).getLast?.getD []
  unset : ∀ gpuId, (lastOf states gpuId).gauge = none → ∀ n ∈ names gpuId, n = []
  set : ∀ gpuId labels, (lastOf states gpuId).gauge = some labels →
    labels.gpuId = decimal gpuId ∧ labels.kernelName = (lastOf states gpuId).kernelName ∧
      info.lookup labels = some 1 ∧ ∃ n ∈ names gpuId, n ≠ []
  owned : ∀ labels v, info.lookup labels = some v → ∃ gpuId, (lastOf states gpuId).gauge = some labels

theorem LastKernels.empty : LastKernels ∅ ∅ (fun _ => []) where
  name := fun _ => rfl
  unset := fun _ _ _ h => absurd h List.not_mem_nil
  set := fun _ _ h => nomatch h
  owned := fun _ _ h => nomatch h

/-- One more name on a GPU. -/
def addName (names : Nat → List Bytes) (gpuId : Nat) (name : Bytes) : Nat → List Bytes :=
  fun gpuId' => if gpuId' = gpuId then names gpuId' ++ [name] else names gpuId'

/-- The name is the one that is shown already. -/
theorem LastKernels.keep {info : Family KernelLabels Nat} {states : OrdMap LastKernelState}
    {names : Nat → List Bytes} (h : LastKernels info states names) {gpuId : Nat} {name : Bytes}
    (hname : (lastOf states gpuId).kernelName = name) :
    LastKernels info (states.insert gpuId (lastOf states gpuId)) (addName names gpuId name) := by
  have hlast : ∀ g, lastOf (states.insert gpuId (lastOf states gpuId)) g = lastOf states g := by
    intro g
    rw [lastOf_insert]
    split
    · next hg => rw [hg]
    · rfl
  refine ⟨fun g => ?_, fun g hunset n hn => ?_, fun g labels hset => ?_, fun labels v hv => ?_⟩
  · rw [hlast, addName]
    by_cases hg : g = gpuId
    · rw [if_pos hg, hg, hname, List.getLast?_concat]
      rfl
    · rw [if_neg hg, h.name]
  · rw [hlast] at hunset
    by_cases hg : g = gpuId
    · subst hg
      rw [addName, if_pos rfl, List.mem_append, List.mem_singleton] at hn
      rcases hn with hn | rfl
      · exact h.unset g hunset n hn
      · -- The name shown is the last one, and all are empty.
        rw [← hname, h.name]
        cases hg : (names g).getLast? with
        | none => rfl
        | some l => exact h.unset g hunset l (List.mem_of_getLast? hg)
    · rw [addName, if_neg hg] at hn
      exact h.unset g hunset n hn
  · rw [hlast] at hset ⊢
    obtain ⟨hgpu, hshown, hvalue, n, hn, hne⟩ := h.set g labels hset
    refine ⟨hgpu, hshown, hvalue, n, ?_, hne⟩
    rw [addName]
    split
    · exact List.mem_append_left _ hn
    · exact hn
  · obtain ⟨g, hg⟩ := h.owned labels v hv
    exact ⟨g, by rw [hlast, hg]⟩

/-- The series of a GPU is replaced. -/
theorem LastKernels.replace {info : Family KernelLabels Nat} {states : OrdMap LastKernelState}
    {names : Nat → List Bytes} (h : LastKernels info states names) {m : QueueMeta} {name : Bytes}
    (hname : (lastOf states m.gpuId).kernelName ≠ name) {kept : Family KernelLabels Nat}
    (hkept : ∀ labels, kept.lookup labels =
      if (lastOf states m.gpuId).gauge = some labels then none else info.lookup labels) :
    LastKernels (setGauge kept (m.kernelLabels name) 1)
      (states.insert m.gpuId ⟨name, some (m.kernelLabels name)⟩) (addName names m.gpuId name) := by
  have hone : toDouble 1 = 1 := toDouble_of_le (by decide)
  have hlookup : ∀ labels, (setGauge kept (m.kernelLabels name) 1).lookup labels =
      if labels = m.kernelLabels name then some 1 else kept.lookup labels := by
    intro labels
    rw [setGauge, lookup_modify, hone]
  refine ⟨fun g => ?_, fun g hunset n hn => ?_, fun g labels hset => ?_, fun labels v hv => ?_⟩
  · rw [lastOf_insert, addName]
    by_cases hg : g = m.gpuId
    · rw [if_pos hg, if_pos hg, List.getLast?_concat]
      rfl
    · rw [if_neg hg, if_neg hg, h.name]
  · rw [lastOf_insert] at hunset
    by_cases hg : g = m.gpuId
    · rw [if_pos hg] at hunset
      cases hunset
    · rw [if_neg hg] at hunset
      rw [addName, if_neg hg] at hn
      exact h.unset g hunset n hn
  · rw [lastOf_insert] at hset ⊢
    by_cases hg : g = m.gpuId
    · subst hg
      rw [if_pos rfl] at hset ⊢
      obtain rfl := Option.some.inj hset
      refine ⟨rfl, rfl, by rw [hlookup, if_pos rfl], ?_⟩
      rw [addName, if_pos rfl]
      by_cases hempty : name = []
      · -- The name before was not empty.
        rw [hempty, h.name] at hname
        cases hlast : (names m.gpuId).getLast? with
        | none => rw [hlast] at hname; exact absurd rfl hname
        | some l =>
            rw [hlast] at hname
            exact ⟨l, List.mem_append_left _ (List.mem_of_getLast? hlast), hname⟩
      · exact ⟨name, List.mem_append_right _ (List.mem_singleton_self name), hempty⟩
    · rw [if_neg hg] at hset ⊢
      obtain ⟨hgpu, hshown, hvalue, hnames⟩ := h.set g labels hset
      have hother : ∀ labels' : KernelLabels, labels'.gpuId = decimal m.gpuId → labels ≠ labels' := by
        rintro labels' hgpu' rfl
        exact hg (decimal_injective (hgpu.symm.trans hgpu'))
      refine ⟨hgpu, hshown, ?_, ?_⟩
      · rw [hlookup, if_neg (hother _ rfl), hkept, if_neg, hvalue]
        intro hgauge
        exact hother labels (h.set _ _ hgauge).1 rfl
      · rw [addName, if_neg hg]
        exact hnames
  · rw [hlookup] at hv
    by_cases hnew : labels = m.kernelLabels name
    · exact ⟨m.gpuId, by rw [lastOf_insert, if_pos rfl, hnew]⟩
    · rw [if_neg hnew, hkept] at hv
      split at hv
      · cases hv
      · next hgauge =>
          obtain ⟨g, hg⟩ := h.owned labels v hv
          have hother : g ≠ m.gpuId := fun heq => hgauge (heq ▸ hg)
          exact ⟨g, by rw [lastOf_insert, if_neg hother, hg]⟩

theorem LastKernels.setLastKernel {info : Family KernelLabels Nat} {states : OrdMap LastKernelState}
    {names : Nat → List Bytes} (h : LastKernels info states names) (m : QueueMeta) (name : Bytes) :
    LastKernels (setLastKernel info states m name).1 (HsaSnoop.setLastKernel info states m name).2
      (addName names m.gpuId name) := by
  by_cases hname : (lastOf states m.gpuId).kernelName = name
  · have hkeep : HsaSnoop.setLastKernel info states m name =
        (info, states.insert m.gpuId (lastOf states m.gpuId)) := if_neg (not_not.2 hname)
    rw [hkeep]
    exact h.keep hname
  · have hreplace : HsaSnoop.setLastKernel info states m name =
        (setGauge (removeGauge info (lastOf states m.gpuId).gauge) (m.kernelLabels name) 1,
          states.insert m.gpuId ⟨name, some (m.kernelLabels name)⟩) := if_pos hname
    rw [hreplace]
    refine h.replace hname (fun labels => ?_)
    cases (lastOf states m.gpuId).gauge with
    | none => rw [if_neg (by simp), removeGauge]
    | some gauge =>
        rw [removeGauge]
        by_cases hlabels : gauge = labels
        · rw [hlabels, if_pos rfl, AList.lookup_erase]
        · rw [if_neg (fun heq => hlabels (Option.some.inj heq)),
            AList.lookup_erase_ne (fun heq => hlabels heq.symm)]

/-- The names of the kernels a history dispatched, by GPU. -/
def dispatched (history : List ExporterCall) (gpuId : Nat) : List Bytes :=
  logOf (ofPacket (kernelsOn gpuId)) history

/-- `hsa_triggered` latches. -/
structure KernelGauges (f : PacketFamilies) (names : Nat → List Bytes) : Prop where
  last : LastKernels f.lastKernelInfo f.lastKernelState names
  triggered : ∀ gpuId, (f.triggered.find? gpuId).map GpuGauge.value =
    if names gpuId = [] then none else some 1

theorem KernelGauges.addDispatch {f : PacketFamilies} {names : Nat → List Bytes}
    (h : KernelGauges f names) (m : QueueMeta) (rec : PacketRecord) (now : Time) :
    KernelGauges (f.addDispatch m rec now) (addName names m.gpuId rec.kernelName) := by
  refine ⟨h.last.setLastKernel m rec.kernelName, fun g => ?_⟩
  have hold := h.triggered m.gpuId
  simp only [PacketFamilies.addDispatch]
  cases hfind : f.triggered.find? m.gpuId with
  | some gauge =>
      rw [hfind] at hold
      rw [addName]
      by_cases hg : g = m.gpuId
      · rw [hg, if_pos rfl, hfind, if_neg (by simp), hold, if_neg]
        intro hnil
        rw [hnil, if_pos rfl] at hold
        cases hold
      · rw [if_neg hg]
        exact h.triggered g
  | none =>
      rw [addName]
      simp only [OrdMap.find?_insert]
      by_cases hg : g = m.gpuId
      · rw [if_pos hg, if_pos hg, if_neg (by simp)]
        rfl
      · rw [if_neg hg, if_neg hg]
        exact h.triggered g

theorem addName_eq_append (names : Nat → List Bytes) (m : QueueMeta) {rec : PacketRecord}
    (hdispatch : rec.isDispatch = true) :
    addName names m.gpuId rec.kernelName = fun gpuId => names gpuId ++ kernelsOn gpuId m rec := by
  funext gpuId
  rw [addName, kernelsOn]
  by_cases hg : gpuId = m.gpuId
  · rw [if_pos hg, if_pos ⟨hdispatch, hg.symm⟩]
  · rw [if_neg hg, if_neg (fun h => hg h.2.symm), List.append_nil]

theorem kernelGauges_add {f : PacketFamilies} {names : Nat → List Bytes} (h : KernelGauges f names)
    (m : QueueMeta) (rec : PacketRecord) (now : Time) :
    KernelGauges (f.add m rec now) (fun gpuId => names gpuId ++ kernelsOn gpuId m rec) := by
  cases hdispatch : rec.isDispatch with
  | false =>
      have hnames : (fun gpuId => names gpuId ++ kernelsOn gpuId m rec) = names := by
        funext gpuId
        rw [kernelsOn, if_neg (by rw [hdispatch]; exact fun h => Bool.false_ne_true h.1), List.append_nil]
      rw [hnames, PacketFamilies.add, if_neg (by rw [hdispatch]; exact Bool.false_ne_true)]
      exact ⟨h.last, h.triggered⟩
  | true =>
      have hstep := h.addDispatch m rec now
      rw [addName_eq_append names m hdispatch] at hstep
      rw [PacketFamilies.add, if_pos hdispatch]
      exact ⟨hstep.last, hstep.triggered⟩

theorem kernelGauges_after (history : List ExporterCall) :
    KernelGauges (after history).packet (dispatched history) := by
  induction history with
  | nil => exact ⟨LastKernels.empty, fun _ => rfl⟩
  | cons c older ih =>
      -- A call that is no packet logs nothing.
      have hothers : ∀ {x : PacketFamilies}, x = (after older).packet →
          (∀ gpuId, ofPacket (kernelsOn gpuId) older c = []) →
          KernelGauges x (dispatched (c :: older)) := by
        intro x hx hnil
        have hnames : dispatched (c :: older) = dispatched older := by
          funext gpuId
          rw [dispatched, logOf, hnil, List.append_nil]
          rfl
        rw [hx, hnames]
        exact ih
      cases c with
      | registerQueue q gpuType => exact hothers (registerQueue_frame _ q gpuType).2.1 (fun _ => rfl)
      | addPacket rec now =>
          have hmeta := find?_queueMeta older rec.queueUid
          rw [after, call, addPacket]
          split
          · next hnone =>
              rw [hnone] at hmeta
              exact hothers rfl (fun _ => by rw [ofPacket, ← hmeta]; rfl)
          · next m hsome =>
              rw [hsome] at hmeta
              have hnames : dispatched (.addPacket rec now :: older) =
                  fun gpuId => dispatched older gpuId ++ kernelsOn gpuId m rec := by
                funext gpuId
                rw [dispatched, logOf, ofPacket, ← hmeta]
                rfl
              rw [hnames]
              exact kernelGauges_add ih m rec now
      | addSdma rec =>
          have hsame : ((after older).addSdma rec).packet = (after older).packet := by
            rw [addSdma]
            split <;> rfl
          exact hothers hsame (fun _ => rfl)
      | addAis rec gpuType => exact hothers rfl (fun _ => rfl)
      | addXnack rec => exact hothers rfl (fun _ => rfl)
      | addMem rec gpuType => exact hothers rfl (fun _ => rfl)

/-- **`hsa_last_kernel_launch_info` is current**: in any history, every series of a GPU names the kernel
    of the GPU's last dispatch and has the value 1, there is at most one, and there is one as soon as a
    dispatch had a name. `hsa_triggered` is 1 from the first dispatch on. -/
theorem last_kernel_current (history : List ExporterCall) (gpuId : Nat) :
    (∀ labels v, (after history).packet.lastKernelInfo.lookup labels = some v →
        labels.gpuId = decimal gpuId →
        v = 1 ∧ (dispatched history gpuId).getLast? = some labels.kernelName) ∧
      (∀ labels labels', labels ∈ (after history).packet.lastKernelInfo →
        labels' ∈ (after history).packet.lastKernelInfo → labels.gpuId = decimal gpuId →
        labels'.gpuId = decimal gpuId → labels = labels') ∧
      ((∃ labels ∈ (after history).packet.lastKernelInfo, labels.gpuId = decimal gpuId) ↔
        ∃ name ∈ dispatched history gpuId, name ≠ []) ∧
      ((after history).packet.triggered.find? gpuId).map GpuGauge.value =
        if dispatched history gpuId = [] then none else some 1 := by
  obtain ⟨h, htriggered⟩ := kernelGauges_after history
  -- A series with this label is the one the state points to.
  have hgauge : ∀ labels v, (after history).packet.lastKernelInfo.lookup labels = some v →
      labels.gpuId = decimal gpuId →
      (lastOf (after history).packet.lastKernelState gpuId).gauge = some labels := by
    intro labels v hv hgpu
    obtain ⟨g, hg⟩ := h.owned labels v hv
    obtain rfl : g = gpuId := decimal_injective ((h.set g labels hg).1.symm.trans hgpu)
    exact hg
  have hmem : ∀ {labels : KernelLabels}, labels ∈ (after history).packet.lastKernelInfo →
      ∃ v, (after history).packet.lastKernelInfo.lookup labels = some v := by
    intro labels hin
    exact Option.isSome_iff_exists.1 (AList.lookup_isSome.2 hin)
  refine ⟨fun labels v hv hgpu => ?_, fun labels labels' hin hin' hgpu hgpu' => ?_,
    ⟨fun hex => ?_, fun hex => ?_⟩, htriggered gpuId⟩
  · obtain ⟨-, hshown, hvalue, n, hn, -⟩ := h.set gpuId labels (hgauge labels v hv hgpu)
    refine ⟨Option.some.inj (hv.symm.trans hvalue), ?_⟩
    rw [hshown, h.name]
    cases hlast : (dispatched history gpuId).getLast? with
    | none => rw [List.getLast?_eq_none_iff.1 hlast] at hn; cases hn
    | some l => rfl
  · obtain ⟨v, hv⟩ := hmem hin
    obtain ⟨v', hv'⟩ := hmem hin'
    exact Option.some.inj ((hgauge labels v hv hgpu).symm.trans (hgauge labels' v' hv' hgpu'))
  · obtain ⟨labels, hin, hgpu⟩ := hex
    obtain ⟨v, hv⟩ := hmem hin
    exact (h.set gpuId labels (hgauge labels v hv hgpu)).2.2.2
  · obtain ⟨name, hname, hne⟩ := hex
    cases hset : (lastOf (after history).packet.lastKernelState gpuId).gauge with
    | none => exact absurd (h.unset gpuId hset name hname) hne
    | some labels =>
        obtain ⟨hgpu, -, hvalue, -⟩ := h.set gpuId labels hset
        exact ⟨labels, AList.lookup_isSome.1 (by rw [hvalue]; rfl), hgpu⟩

end HsaSnoop
