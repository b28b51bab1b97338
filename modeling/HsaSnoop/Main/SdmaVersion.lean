import HsaSnoop.Main.Registration
import HsaSnoop.Model.Scanf

set_option autoImplicit false

/-! # The version of an SDMA queue

Whether an SDMA queue is traced, and how its packets are read, is up to the generation of its GPU.
`DetectVersion` looks it up in the topology the driver publishes: a directory for each node, with names and
numbers in text files. `sdma_queues_traced` says for every such topology which queues are traced, and as
what. -/

namespace HsaSnoop

/-! ## Reading from a stream -/

/-- `in >> word`, and what is left of the stream. -/
def streamWord? (s : Bytes) : Option (Bytes × Bytes) :=
  let t := s.dropWhile isSpace
  if t = [] then none else some (t.takeWhile (fun c => !isSpace c), t.dropWhile (fun c => !isSpace c))

/-- `in >> n`, for an unsigned `n` of some width. A number that is too large fails. -/
def streamNumber? (width : Nat) (s : Bytes) : Option (Nat × Bytes) :=
  match skipNumber? s with
  | none => none
  | some rest =>
      let t := s.dropWhile isSpace
      let n := readDigits 10 0 (if t.head? = some 45 ∨ t.head? = some 43 then t.drop 1 else t)
      if 2 ^ width ≤ n then none
      else some (if t.head? = some 45 then (2 ^ width - n) % 2 ^ width else n, rest)

/-! ## DetectVersion -/

/-- A directory in `topology_root`, with the texts of its files. One that cannot be opened reads like an
    empty one. -/
structure NodeDir where
  name : Bytes
  gpuId : Bytes
  properties : Bytes

/-- The loop over the properties, for as many rounds. -/
def gfxTargetVersion? : Nat → Bytes → Option Nat
  | 0, _ => none
  | rounds + 1, s =>
      match streamWord? s with
      | none => none
      | some (key, s) =>
          match streamNumber? 64 s with
          | none => none
          | some (value, s) =>
              if key = str "gfx_target_version" then some value else gfxTargetVersion? rounds s

/-- The loop over the directory. Each round of the one inside takes two bytes at least. -/
def detectVersionIn (gpuId : Nat) : List NodeDir → Sdma.Version
  | [] => .unknown
  | ent :: ents =>
      if ent.name.head? = some 46 then detectVersionIn gpuId ents
      else
        match streamNumber? 32 ent.gpuId with
        | none => detectVersionIn gpuId ents
        | some (nodeGpuId, _) =>
            if nodeGpuId = gpuId then
              match gfxTargetVersion? ent.properties.length ent.properties with
              | none => .unknown
              | some value => Sdma.versionFromGfxTarget (u32 value)
            else detectVersionIn gpuId ents

/-- `DetectVersion`; the directory may not open. -/
def detectVersion (gpuId : Nat) : Option (List NodeDir) → Sdma.Version
  | none => .unknown
  | some ents => detectVersionIn gpuId ents

/-! ## What the driver publishes -/

/-- A line of a `properties` file. -/
structure KfdProperty where
  key : Bytes
  value : Nat
  key_ne_nil : key ≠ []
  key_word : ∀ c ∈ key, isSpace c = false
  value_lt : value < 2 ^ 64

structure KfdNode where
  gpuId : Nat
  properties : List KfdProperty
  gpuId_lt : gpuId < 2 ^ 32

/-- `"%s %llu\n"`. -/
def KfdProperty.line (p : KfdProperty) : Bytes := p.key ++ 32 :: (decimal p.value ++ [10])

def propertiesText (ps : List KfdProperty) : Bytes := ps.flatMap KfdProperty.line

def KfdNode.gfxTarget? (n : KfdNode) : Option Nat :=
  (n.properties.find? (fun p => p.key = str "gfx_target_version")).map KfdProperty.value

/-- A directory is the one of a node. -/
structure NodeDir.Shows (d : NodeDir) (n : KfdNode) : Prop where
  gpuId : d.gpuId = decimal n.gpuId ++ [10]
  properties : d.properties = propertiesText n.properties

/-- But for `.` and `..`, the directories are those of the nodes, in some order. -/
def Topology (ents : List NodeDir) (nodes : List KfdNode) : Prop :=
  List.Forall₂ NodeDir.Shows (ents.filter (fun d => d.name.head? ≠ some 46)) nodes

/-- The target of a GPU, at its first node. -/
def targetOf (nodes : List KfdNode) (gpuId : Nat) : Option Nat :=
  (nodes.find? (fun n => n.gpuId = gpuId)).bind KfdNode.gfxTarget?

/-! ## Reading what was published -/

theorem streamWord?_word {w : Bytes} (hw : w ≠ []) (hspace : ∀ c ∈ w, isSpace c = false) (s : Bytes) :
    streamWord? (w ++ 32 :: s) = some (w, 32 :: s) := by
  have hword : ∀ c ∈ w, (!isSpace c) = true := fun c hc => by rw [hspace c hc]; rfl
  have hstart : (w ++ 32 :: s).dropWhile isSpace = w ++ 32 :: s := by
    cases w with
    | nil => exact absurd rfl hw
    | cons c w => exact List.dropWhile_cons_of_neg (by simp [hspace c List.mem_cons_self])
  have htake : (w ++ 32 :: s).takeWhile (fun c => !isSpace c) = w := by
    rw [List.takeWhile_append_of_pos hword, List.takeWhile_cons_of_neg (by decide), List.append_nil]
  have hdrop : (w ++ 32 :: s).dropWhile (fun c => !isSpace c) = 32 :: s := by
    rw [List.dropWhile_append_of_pos hword, List.dropWhile_cons_of_neg (by decide)]
  unfold streamWord?
  simp only [hstart, htake, hdrop]
  exact if_neg (by simp)

theorem streamWord?_newline (s : Bytes) : streamWord? (10 :: s) = streamWord? s := by
  unfold streamWord?
  rw [List.dropWhile_cons_of_pos (by decide)]

theorem streamNumber?_blank (width : Nat) (s : Bytes) :
    streamNumber? width (32 :: s) = streamNumber? width s := by
  unfold streamNumber? skipNumber?
  rw [List.dropWhile_cons_of_pos (by decide)]

theorem streamNumber?_decimal {width n : Nat} (hn : n < 2 ^ width) (s : Bytes) :
    streamNumber? width (decimal n ++ 10 :: s) = some (n, 10 :: s) := by
  obtain ⟨d, hd, hhead, -⟩ := @head?_digitBytes 10 (by omega) n
  obtain ⟨-, hminus, hplus, -⟩ := digitByte_plain d (by omega)
  have hfirst : (decimal n ++ 10 :: s).head? = some (digitByte d) := by
    rw [decimal_eq, List.head?_append, hhead, Option.some_or]
  have hskip : skipNumber? (decimal n ++ 10 :: s) = some (10 :: s) := skipNumber?_decimal n rfl
  have hread : readDigits 10 0 (decimal n ++ 10 :: s) = n := by
    rw [decimal_eq]
    exact readDigits_numeral (by omega) (by omega) n (noDigit_cons (by decide))
  unfold streamNumber?
  rw [hskip]
  simp only [dropWhile_isSpace_of_digit (show d < 16 by omega) hfirst, hfirst, Option.some_inj, hminus, hplus,
    or_self, if_false, hread]
  exact if_neg (Nat.not_le_of_lt hn)

theorem gfxTargetVersion?_newline (rounds : Nat) (s : Bytes) :
    gfxTargetVersion? rounds (10 :: s) = gfxTargetVersion? rounds s := by
  cases rounds with
  | zero => rfl
  | succ rounds => rw [gfxTargetVersion?, streamWord?_newline, gfxTargetVersion?]

theorem gfxTargetVersion?_text (ps : List KfdProperty) {rounds : Nat} (h : ps.length ≤ rounds) :
    gfxTargetVersion? rounds (propertiesText ps) =
      (ps.find? (fun p => p.key = str "gfx_target_version")).map KfdProperty.value := by
  induction ps generalizing rounds with
  | nil => cases rounds <;> rfl
  | cons p ps ih =>
      obtain ⟨rounds, rfl⟩ := Nat.exists_eq_add_of_le' (Nat.le_trans (Nat.le_add_left 1 _) h)
      have htext : propertiesText (p :: ps) =
          p.key ++ 32 :: (decimal p.value ++ 10 :: propertiesText ps) := by
        simp [propertiesText, KfdProperty.line]
      rw [htext, gfxTargetVersion?, streamWord?_word p.key_ne_nil p.key_word]
      simp only [streamNumber?_blank, streamNumber?_decimal p.value_lt]
      by_cases hkey : p.key = str "gfx_target_version"
      · rw [if_pos hkey, List.find?_cons_of_pos (by simp [hkey])]
        rfl
      · rw [if_neg hkey, List.find?_cons_of_neg (by simp [hkey]), gfxTargetVersion?_newline]
        exact ih (Nat.le_of_succ_le_succ h)

theorem length_le_propertiesText (ps : List KfdProperty) : ps.length ≤ (propertiesText ps).length := by
  induction ps with
  | nil => exact Nat.le_refl 0
  | cons p ps ih =>
      have htext : propertiesText (p :: ps) = p.line ++ propertiesText ps := List.flatMap_cons
      rw [htext, List.length_append, List.length_cons, KfdProperty.line, List.length_append, List.length_cons]
      omega

/-- **The version found is that of the GPU's target.** -/
theorem detectVersion_topology {ents : List NodeDir} {nodes : List KfdNode} (h : Topology ents nodes)
    (gpuId : Nat) :
    detectVersion gpuId (some ents) =
      ((targetOf nodes gpuId).map (fun target => Sdma.versionFromGfxTarget (u32 target))).getD .unknown := by
  rw [detectVersion]
  induction ents generalizing nodes with
  | nil =>
      cases h
      rfl
  | cons d ents ih =>
      rw [detectVersionIn]
      by_cases hhidden : d.name.head? = some 46
      · rw [if_pos hhidden]
        rw [Topology, List.filter_cons_of_neg (by simp [hhidden])] at h
        exact ih h
      · rw [if_neg hhidden]
        rw [Topology, List.filter_cons_of_pos (by simp [hhidden])] at h
        cases h with
        | @cons _ n _ nodes hshows hrest =>
            have hid : streamNumber? 32 d.gpuId = some (n.gpuId, [10]) := by
              rw [hshows.gpuId]
              exact streamNumber?_decimal n.gpuId_lt []
            rw [hid]
            simp only
            by_cases hgpu : n.gpuId = gpuId
            · have htarget : gfxTargetVersion? d.properties.length d.properties = n.gfxTarget? := by
                rw [hshows.properties]
                exact gfxTargetVersion?_text n.properties (length_le_propertiesText n.properties)
              have hfirst : targetOf (n :: nodes) gpuId = n.gfxTarget? := by
                rw [targetOf, List.find?_cons_of_pos (by simp [hgpu])]
                rfl
              rw [if_pos hgpu, htarget, hfirst]
              cases n.gfxTarget? <;> rfl
            · have hother : targetOf (n :: nodes) gpuId = targetOf nodes gpuId := by
                rw [targetOf, List.find?_cons_of_neg (by simp [hgpu]), targetOf]
              rw [if_neg hgpu, hother]
              exact ih hrest

/-! ## Which queues are traced -/

/-- The generations whose packets are known. -/
def generations : List (Nat × Sdma.Version) := [(9, .v4), (11, .v6), (12, .v7)]

theorem mem_generations (target : Nat) (version : Sdma.Version) :
    (target / 10000, version) ∈ generations ↔
      Sdma.versionFromGfxTarget target = version ∧ Sdma.isSupportedVersion version = true := by
  rw [Sdma.versionFromGfxTarget]
  generalize target / 10000 = major
  constructor
  · intro h
    simp only [generations, List.mem_cons, Prod.mk.injEq, List.not_mem_nil, or_false] at h
    rcases h with ⟨rfl, rfl⟩ | ⟨rfl, rfl⟩ | ⟨rfl, rfl⟩ <;> exact ⟨rfl, rfl⟩
  · rintro ⟨rfl, hsupported⟩
    split at hsupported
    · exact List.mem_cons_self
    · cases hsupported
    · simp [generations]
    · simp [generations]
    · cases hsupported

/-- **Which SDMA queues are traced**: those of the GPUs that the topology has with a target of a known
    generation, and as queues of that generation. -/
theorem sdma_queues_traced {ents : List NodeDir} {nodes : List KfdNode} (h : Topology ents nodes)
    (q : QueueInfo) (hsdma : q.isSdma = true) (ringPhys : Nat) (traced : QueueInfo) :
    tracedQueue? q (detectVersion q.gpuId (some ents)) ringPhys = some traced ↔
      ∃ target version, targetOf nodes q.gpuId = some target ∧
        (u32 target / 10000, version) ∈ generations ∧
        traced = { q with sdmaVersion := version, ringPhys := ringPhys } := by
  have htraced : q.isTraced = true := by simp [QueueInfo.isTraced, hsdma]
  have hqueue : ∀ version, tracedQueue? q version ringPhys = some traced ↔
      Sdma.isSupportedVersion version = true ∧
        traced = { q with sdmaVersion := version, ringPhys := ringPhys } := by
    intro version
    rw [tracedQueue?, htraced, hsdma]
    cases hsupported : Sdma.isSupportedVersion version with
    | true => simp [eq_comm]
    | false => simp
  rw [hqueue, detectVersion_topology h]
  cases htarget : targetOf nodes q.gpuId with
  | none => simp [Sdma.isSupportedVersion]
  | some target =>
      simp only [Option.map_some, Option.getD_some]
      constructor
      · rintro ⟨hsupported, rfl⟩
        exact ⟨target, _, rfl, (mem_generations _ _).2 ⟨rfl, hsupported⟩, rfl⟩
      · rintro ⟨target', version, heq, hmem, rfl⟩
        obtain rfl := Option.some.inj heq
        obtain ⟨rfl, hsupported⟩ := (mem_generations _ _).1 hmem
        exact ⟨hsupported, rfl⟩

/-- A processor without a target, and a GPU of the ninth generation. -/
def someNodes : List KfdNode :=
  [⟨0, [⟨str "simd_count", 0, by decide, by decide +kernel, by decide⟩,
      ⟨str "gfx_target_version", 0, by decide, by decide +kernel, by decide⟩], by decide⟩,
    ⟨51234, [⟨str "simd_count", 304, by decide, by decide +kernel, by decide⟩,
      ⟨str "gfx_target_version", 90010, by decide, by decide +kernel, by decide⟩], by decide⟩]

/-- Their directories, and the one they are in. -/
def someDirs : List NodeDir :=
  ⟨str ".", [], []⟩ ::
    someNodes.map (fun n => ⟨str "node", decimal n.gpuId ++ [10], propertiesText n.properties⟩)

theorem topology_someDirs : Topology someDirs someNodes := by
  refine .cons ⟨rfl, rfl⟩ (.cons ⟨rfl, rfl⟩ .nil)

/-- A queue of the GPU. -/
theorem sdma_queue_of_someDirs :
    tracedQueue? { qtype := 1, gpuId := 51234 } (detectVersion 51234 (some someDirs)) 4096 =
      some { qtype := 1, gpuId := 51234, sdmaVersion := .v4, ringPhys := 4096 } :=
  (sdma_queues_traced topology_someDirs { qtype := 1, gpuId := 51234 } (by decide) 4096 _).2
    ⟨90010, .v4, by decide, by decide, rfl⟩

end HsaSnoop
