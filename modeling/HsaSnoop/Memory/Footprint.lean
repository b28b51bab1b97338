import Mathlib.Algebra.BigOperators.Group.Finset.Basic
import Mathlib.Algebra.Order.BigOperators.Group.Finset
import Mathlib.Data.Finset.Dedup
import Mathlib.Data.Nat.Bitwise
import HsaSnoop.Model.Text

set_option autoImplicit false

/-! # The footprint of a kernel's arguments

`scanKernargFootprint` looks for pointers among the words of a kernarg buffer: a word counts if a region
of the process starts there. `footprint` is the definition it is to compute, in terms of the set of
regions that are hit; `scanKernargFootprint_spec` is the agreement of the two, for every buffer and every
memory map. -/

namespace HsaSnoop

/-- A region of `/proc/<pid>/maps`: `[start, stop)`. -/
structure VmaRegion where
  start : Nat
  stop : Nat
  deriving DecidableEq, Repr

def VmaRegion.size (v : VmaRegion) : Nat := v.stop - v.start

/-- The process as a scan sees it: what both ways of reading its memory give, and its regions. -/
structure FootprintTarget where
  readProcMem : (va len : Nat) → Option (Nat → UInt8)
  readProcMemViaMem : (va len : Nat) → Option (Nat → UInt8)
  vmas : List VmaRegion

structure Footprint where
  mappedVramBytes : Nat := 0
  ptrCount : Nat := 0
  deriving DecidableEq, Repr

def kMaxKernargScanBytes : Nat := 4096

/-- The region that contains the address; the search ends at the first region above it. -/
def findVma : List VmaRegion → Nat → Option VmaRegion
  | [], _ => none
  | v :: vmas, addr =>
      if addr ≥ v.start ∧ addr < v.stop then some v
      else if v.start > addr then none
      else findVma vmas addr

/-- What the loop over the words carries. -/
structure FootprintScan where
  footprint : Footprint := {}
  seenStarts : List Nat := []

/-- One word. -/
def scanWord (vmas : List VmaRegion) (s : FootprintScan) (candidate : Nat) : FootprintScan :=
  if candidate < 2 ^ 32 ∨ candidate ≥ 2 ^ 48 then s
  else
    match findVma vmas candidate with
    | none => s
    | some v =>
        -- Only a pointer to the base of a region counts.
        if v.start ≠ candidate then s
        else if v.start ∈ s.seenStarts then
          { s with footprint.ptrCount := u32 (s.footprint.ptrCount + 1) }
        else
          { footprint :=
              { ptrCount := u32 (s.footprint.ptrCount + 1)
                mappedVramBytes := u64 (s.footprint.mappedVramBytes + (v.stop - v.start)) }
            seenStarts := v.start :: s.seenStarts }

/-- The words of a buffer at offsets `0, 8, …`. -/
def kernargWords (buf : Nat → UInt8) (scanBytes : Nat) : List Nat :=
  (List.range (scanBytes / 8)).map (fun i => leNat buf (8 * i) 8)

/-- The answer, and what the two out-parameters hold. -/
def scanKernargFootprint (p : FootprintTarget) (kernargVa kernargBytes : Nat) : Bool × Footprint :=
  if kernargVa = 0 ∨ kernargBytes < 8 then (true, {})
  else
    let scanBytes :=
      (if kernargBytes < kMaxKernargScanBytes then kernargBytes else kMaxKernargScanBytes) &&& 0xFFFFFFF8
    if scanBytes < 8 then (true, {})
    else
      match (p.readProcMem kernargVa scanBytes).or (p.readProcMemViaMem kernargVa scanBytes) with
      | none => (false, {})
      | some buf =>
          if p.vmas = [] then (false, {})
          else (true, ((kernargWords buf scanBytes).foldl (scanWord p.vmas) {}).footprint)

/-! ## The definition -/

/-- Regions in ascending order, disjoint, none of them empty, below `2 ^ 64`. -/
structure MemoryMap (vmas : List VmaRegion) : Prop where
  sorted : vmas.Pairwise (fun v w => v.stop ≤ w.start)
  nonempty : ∀ v ∈ vmas, v.start < v.stop
  fits : ∀ v ∈ vmas, v.stop < 2 ^ 64

/-- A plausible address at which a region starts. -/
def IsBase (vmas : List VmaRegion) (word : Nat) : Prop :=
  2 ^ 32 ≤ word ∧ word < 2 ^ 48 ∧ ∃ v ∈ vmas, v.start = word

instance (vmas : List VmaRegion) (word : Nat) : Decidable (IsBase vmas word) :=
  inferInstanceAs (Decidable (_ ∧ _ ∧ ∃ v ∈ vmas, v.start = word))

/-- The regions that are hit. -/
def hitRegions (vmas : List VmaRegion) (words : List Nat) : Finset VmaRegion :=
  vmas.toFinset.filter (fun v => v.start ∈ words ∧ IsBase vmas v.start)

/-- How many words hit a region, and the sizes of the regions that are hit. -/
def footprint (vmas : List VmaRegion) (words : List Nat) : Footprint where
  mappedVramBytes := ∑ v ∈ hitRegions vmas words, v.size
  ptrCount := words.countP (IsBase vmas ·)

/-- The first `min(kernarg_bytes, 4096)` bytes, rounded down to whole words. -/
def windowBytes (kernargBytes : Nat) : Nat := min kernargBytes 4096 / 8 * 8

/-- All that is mapped. -/
def mappedBytes (vmas : List VmaRegion) : Nat := (vmas.map VmaRegion.size).sum

/-! ## Searching a map -/

theorem mem_of_findVma {vmas : List VmaRegion} {addr : Nat} {v : VmaRegion}
    (h : findVma vmas addr = some v) : v ∈ vmas := by
  induction vmas with
  | nil => cases h
  | cons w vmas ih =>
      rw [findVma] at h
      split at h
      · rw [Option.some.inj h]
        exact List.mem_cons_self ..
      · split at h
        · cases h
        · exact List.mem_cons_of_mem w (ih h)

/-- Ending the search early misses nothing. -/
theorem MemoryMap.findVma_start {vmas : List VmaRegion} (h : MemoryMap vmas) {v : VmaRegion}
    (hv : v ∈ vmas) : findVma vmas v.start = some v := by
  obtain ⟨hsorted, hnonempty, -⟩ := h
  induction vmas with
  | nil => cases hv
  | cons w vmas ih =>
      obtain ⟨hhead, htail⟩ := List.pairwise_cons.1 hsorted
      have hw := hnonempty w (List.mem_cons_self ..)
      rw [findVma]
      rcases List.mem_cons.1 hv with rfl | hv
      · exact if_pos ⟨Nat.le_refl _, hw⟩
      · have habove := hhead v hv
        rw [if_neg (by omega), if_neg (by omega)]
        exact ih hv htail (fun u hu => hnonempty u (List.mem_cons_of_mem w hu))

theorem MemoryMap.eq_of_start_eq {vmas : List VmaRegion} (h : MemoryMap vmas) {v w : VmaRegion}
    (hv : v ∈ vmas) (hw : w ∈ vmas) (heq : v.start = w.start) : v = w := by
  have hfound := h.findVma_start hv
  rw [heq, h.findVma_start hw] at hfound
  exact (Option.some.inj hfound).symm

theorem MemoryMap.nodup {vmas : List VmaRegion} (h : MemoryMap vmas) : vmas.Nodup := by
  refine h.sorted.imp_of_mem ?_
  rintro v w hv - hle rfl
  have := h.nonempty v hv
  omega

/-- The regions fit below the end of the last one. -/
theorem MemoryMap.mappedBytes_lt {vmas : List VmaRegion} (h : MemoryMap vmas) :
    mappedBytes vmas < 2 ^ 64 := by
  have hbelow : ∀ {vmas : List VmaRegion} {low : Nat}, vmas.Pairwise (fun v w => v.stop ≤ w.start) →
      (∀ v ∈ vmas, v.start < v.stop) → (∀ v ∈ vmas, v.stop < 2 ^ 64) → (∀ v ∈ vmas, low ≤ v.start) →
      low < 2 ^ 64 → low + mappedBytes vmas < 2 ^ 64 := by
    intro vmas
    induction vmas with
    | nil => exact fun _ _ _ _ hlow => hlow
    | cons v vmas ih =>
        intro low hsorted hnonempty hfits hlow _
        obtain ⟨hhead, htail⟩ := List.pairwise_cons.1 hsorted
        have hrest := ih htail (fun u hu => hnonempty u (List.mem_cons_of_mem v hu))
          (fun u hu => hfits u (List.mem_cons_of_mem v hu)) hhead (hfits v (List.mem_cons_self ..))
        have hstart := hlow v (List.mem_cons_self ..)
        have hsize := hnonempty v (List.mem_cons_self ..)
        have hsum : mappedBytes (v :: vmas) = v.stop - v.start + mappedBytes vmas := rfl
        omega
  have hall := hbelow h.sorted h.nonempty h.fits (fun v _ => Nat.zero_le v.start) (Nat.two_pow_pos 64)
  rwa [Nat.zero_add] at hall

/-! ## The loop -/

theorem mem_hitRegions {vmas : List VmaRegion} {words : List Nat} {v : VmaRegion} :
    v ∈ hitRegions vmas words ↔ v ∈ vmas ∧ v.start ∈ words ∧ IsBase vmas v.start := by
  rw [hitRegions, Finset.mem_filter, List.mem_toFinset]

/-- What is hit is mapped. -/
theorem MemoryMap.footprint_le {vmas : List VmaRegion} (h : MemoryMap vmas) (words : List Nat) :
    (footprint vmas words).mappedVramBytes ≤ mappedBytes vmas := by
  have htotal : ∑ v ∈ vmas.toFinset, v.size = mappedBytes vmas := List.sum_toFinset _ h.nodup
  have hsub : hitRegions vmas words ⊆ vmas.toFinset := Finset.filter_subset _ _
  rw [← htotal]
  exact Finset.sum_le_sum_of_subset hsub

theorem hitRegions_snoc_of_not {vmas : List VmaRegion} {words : List Nat} {word : Nat}
    (h : ¬ IsBase vmas word) : hitRegions vmas (words ++ [word]) = hitRegions vmas words := by
  ext v
  rw [mem_hitRegions, mem_hitRegions, List.mem_append, List.mem_singleton]
  constructor
  · rintro ⟨hv, hword | hword, hbase⟩
    · exact ⟨hv, hword, hbase⟩
    · exact absurd (hword ▸ hbase) h
  · rintro ⟨hv, hword, hbase⟩
    exact ⟨hv, .inl hword, hbase⟩

theorem MemoryMap.hitRegions_snoc {vmas : List VmaRegion} (h : MemoryMap vmas) (words : List Nat)
    {v : VmaRegion} (hv : v ∈ vmas) (hbase : IsBase vmas v.start) :
    hitRegions vmas (words ++ [v.start]) = insert v (hitRegions vmas words) := by
  ext w
  rw [Finset.mem_insert, mem_hitRegions, mem_hitRegions, List.mem_append, List.mem_singleton]
  constructor
  · rintro ⟨hw, hword | hword, hwbase⟩
    · exact .inr ⟨hw, hword, hwbase⟩
    · exact .inl (h.eq_of_start_eq hw hv hword)
  · rintro (rfl | ⟨hw, hword, hwbase⟩)
    · exact ⟨hv, .inr rfl, hbase⟩
    · exact ⟨hw, .inl hword, hwbase⟩

/-- The loop has done these words. -/
structure FootprintScan.Done (vmas : List VmaRegion) (words : List Nat) (s : FootprintScan) : Prop where
  footprint : s.footprint = HsaSnoop.footprint vmas words
  seenStarts : ∀ a, a ∈ s.seenStarts ↔ a ∈ words ∧ IsBase vmas a

theorem scanWord_of_not {vmas : List VmaRegion} {word : Nat}
    (hnot : ¬ IsBase vmas word) (s : FootprintScan) : scanWord vmas s word = s := by
  rw [scanWord]
  split
  · rfl
  · next hfilter =>
      split
      · rfl
      · next v hfound =>
          refine if_pos (fun hstart => hnot ?_)
          exact ⟨by omega, by omega, v, mem_of_findVma hfound, hstart⟩

theorem MemoryMap.scanWord_start {vmas : List VmaRegion} (h : MemoryMap vmas) {v : VmaRegion}
    (hv : v ∈ vmas) (hbase : IsBase vmas v.start) (s : FootprintScan) :
    scanWord vmas s v.start =
      if v.start ∈ s.seenStarts then { s with footprint.ptrCount := u32 (s.footprint.ptrCount + 1) }
      else
        { footprint :=
            { ptrCount := u32 (s.footprint.ptrCount + 1)
              mappedVramBytes := u64 (s.footprint.mappedVramBytes + v.size) }
          seenStarts := v.start :: s.seenStarts } := by
  obtain ⟨hlow, hhigh, -⟩ := hbase
  rw [scanWord, if_neg (by omega), h.findVma_start hv]
  exact if_neg (not_not.2 rfl)

theorem FootprintScan.Done.snoc_of_not {vmas : List VmaRegion} {words : List Nat} {s : FootprintScan}
    (hs : s.Done vmas words) {word : Nat} (hnot : ¬ IsBase vmas word) : s.Done vmas (words ++ [word]) := by
  constructor
  · rw [hs.footprint, HsaSnoop.footprint, HsaSnoop.footprint, hitRegions_snoc_of_not hnot,
      List.countP_append, List.countP_singleton, if_neg (by simpa using hnot), Nat.add_zero]
  · intro a
    rw [hs.seenStarts, List.mem_append, List.mem_singleton]
    constructor
    · exact fun ha => ⟨.inl ha.1, ha.2⟩
    · rintro ⟨ha | rfl, hbase⟩
      · exact ⟨ha, hbase⟩
      · exact absurd hbase hnot

theorem ptrCount_snoc {vmas : List VmaRegion} {words : List Nat} {word : Nat}
    (hbase : IsBase vmas word) (hlen : words.length + 1 < 2 ^ 32) :
    u32 ((footprint vmas words).ptrCount + 1) = (footprint vmas (words ++ [word])).ptrCount := by
  have hle : words.countP (IsBase vmas ·) ≤ words.length := List.countP_le_length
  simp only [footprint]
  rw [List.countP_append, List.countP_singleton, if_pos (by simpa using hbase)]
  exact Nat.mod_eq_of_lt (by omega)

/-- One word more. -/
theorem MemoryMap.done_scanWord {vmas : List VmaRegion} (h : MemoryMap vmas) {words : List Nat}
    {s : FootprintScan} (hs : s.Done vmas words) {word : Nat} (hlen : words.length + 1 < 2 ^ 32) :
    (scanWord vmas s word).Done vmas (words ++ [word]) := by
  by_cases hbase : IsBase vmas word
  · obtain ⟨v, hv, rfl⟩ := hbase.2.2
    have hcount := ptrCount_snoc hbase hlen
    have hhit := h.hitRegions_snoc words hv hbase
    rw [h.scanWord_start hv hbase, hs.footprint]
    split
    · next hseen =>
        -- The region was hit before: the set of regions stays the same.
        obtain ⟨hmem, -⟩ := (hs.seenStarts v.start).1 hseen
        rw [Finset.insert_eq_of_mem (mem_hitRegions.2 ⟨hv, hmem, hbase⟩)] at hhit
        constructor
        · rw [hcount, footprint, footprint, hhit]
        · intro a
          rw [hs.seenStarts, List.mem_append, List.mem_singleton]
          constructor
          · exact fun ha => ⟨.inl ha.1, ha.2⟩
          · rintro ⟨ha | rfl, habase⟩
            · exact ⟨ha, habase⟩
            · exact ⟨hmem, habase⟩
    · next hnew =>
        have hnot : v ∉ hitRegions vmas words := by
          intro hmem
          exact hnew ((hs.seenStarts v.start).2 (mem_hitRegions.1 hmem).2)
        have hbytes : (footprint vmas words).mappedVramBytes + v.size =
            (footprint vmas (words ++ [v.start])).mappedVramBytes := by
          rw [footprint, footprint, hhit, Finset.sum_insert hnot, Nat.add_comm]
        have hfits := Nat.lt_of_le_of_lt (h.footprint_le (words ++ [v.start])) h.mappedBytes_lt
        constructor
        · rw [hcount, hbytes, u64_of_lt hfits]
        · intro a
          rw [List.mem_cons, hs.seenStarts, List.mem_append, List.mem_singleton]
          constructor
          · rintro (rfl | ⟨ha, habase⟩)
            · exact ⟨.inr rfl, hbase⟩
            · exact ⟨.inl ha, habase⟩
          · rintro ⟨ha | rfl, habase⟩
            · exact .inr ⟨ha, habase⟩
            · exact .inl rfl
  · rw [scanWord_of_not hbase]
    exact hs.snoc_of_not hbase

theorem MemoryMap.done_foldl {vmas : List VmaRegion} (h : MemoryMap vmas) {words : List Nat}
    (hlen : words.length < 2 ^ 32) : (words.foldl (scanWord vmas) {}).Done vmas words := by
  induction words using List.reverseRecOn with
  | nil =>
      constructor
      · simp [footprint, hitRegions]
      · simp
  | append_singleton words word ih =>
      rw [List.length_append, List.length_singleton] at hlen
      rw [List.foldl_append, List.foldl_cons, List.foldl_nil]
      exact h.done_scanWord (ih (Nat.lt_of_succ_lt hlen)) hlen

/-! ## Agreement -/

theorem land_not_seven {n : Nat} (h : n < 2 ^ 32) : n &&& 0xFFFFFFF8 = n / 8 * 8 := by
  have hmask : ∀ i < 32, (0xFFFFFFF8).testBit i = decide (3 ≤ i) := by decide
  have hshift : n / 8 * 8 = n >>> 3 <<< 3 := by rw [Nat.shiftRight_eq_div_pow, Nat.shiftLeft_eq]
  refine Nat.eq_of_testBit_eq (fun i => ?_)
  rw [hshift, Nat.testBit_and, Nat.testBit_shiftLeft, Nat.testBit_shiftRight]
  by_cases hi : i < 32
  · rw [hmask i hi]
    by_cases hlow : 3 ≤ i
    · simp [hlow]
    · simp [hlow]
  · have hpow : 2 ^ 32 ≤ 2 ^ i := Nat.pow_le_pow_right (by decide) (Nat.le_of_not_lt hi)
    have hzero : n.testBit i = false := Nat.testBit_lt_two_pow (Nat.lt_of_lt_of_le h hpow)
    have hindex : 3 + (i - 3) = i := by omega
    rw [hindex, hzero, Bool.false_and, Bool.and_false]

/-- Either way of reading gives these bytes. -/
def FootprintTarget.Reads (p : FootprintTarget) (va len : Nat) (contents : Nat → UInt8) : Prop :=
  ∃ buf, (p.readProcMem va len).or (p.readProcMemViaMem va len) = some buf ∧
    ∀ i < len, buf i = contents i

theorem kernargWords_congr {buf contents : Nat → UInt8} {len : Nat}
    (h : ∀ i < len, buf i = contents i) : kernargWords buf len = kernargWords contents len := by
  refine List.map_congr_left (fun i hi => ?_)
  have hlt := List.mem_range.1 hi
  exact leNat_congr (fun j _ hj => h j (by omega))

/-- A buffer that can be read is measured. -/
theorem MemoryMap.scanKernargFootprint {p : FootprintTarget} (h : MemoryMap p.vmas) (hne : p.vmas ≠ [])
    {va kernargBytes : Nat} (hva : va ≠ 0) {contents : Nat → UInt8}
    (hreads : p.Reads va (windowBytes kernargBytes) contents) :
    scanKernargFootprint p va kernargBytes =
      (true, footprint p.vmas (kernargWords contents (windowBytes kernargBytes))) := by
  obtain ⟨buf, hbuf, hcontents⟩ := hreads
  by_cases hsmall : kernargBytes < 8
  · have hwindow : windowBytes kernargBytes = 0 := by
      rw [windowBytes]
      omega
    rw [HsaSnoop.scanKernargFootprint, if_pos (.inr hsmall), hwindow]
    simp [kernargWords, footprint, hitRegions]
  · have hscan : (if kernargBytes < kMaxKernargScanBytes then kernargBytes else kMaxKernargScanBytes) &&&
        0xFFFFFFF8 = windowBytes kernargBytes := by
      have hmin : (if kernargBytes < kMaxKernargScanBytes then kernargBytes else kMaxKernargScanBytes) =
          min kernargBytes 4096 := by
        rw [kMaxKernargScanBytes]
        split <;> omega
      rw [hmin, land_not_seven (by omega), windowBytes]
    have hwindow : ¬ windowBytes kernargBytes < 8 ∧ windowBytes kernargBytes ≤ 4096 := by
      rw [windowBytes]
      omega
    have hlen : (kernargWords buf (windowBytes kernargBytes)).length < 2 ^ 32 := by
      rw [kernargWords, List.length_map, List.length_range]
      omega
    simp only [HsaSnoop.scanKernargFootprint, hscan, hbuf, if_neg hwindow.1, if_neg hne,
      if_neg (not_or.2 ⟨hva, hsmall⟩)]
    rw [(h.done_foldl hlen).footprint, kernargWords_congr hcontents]

/-- A failure reports nothing. -/
theorem eq_empty_of_scanKernargFootprint {p : FootprintTarget} {va kernargBytes : Nat} {f : Footprint}
    (h : scanKernargFootprint p va kernargBytes = (false, f)) : f = {} := by
  simp only [scanKernargFootprint] at h
  generalize (if kernargBytes < kMaxKernargScanBytes then kernargBytes else kMaxKernargScanBytes) &&&
    0xFFFFFFF8 = scanBytes at h
  split at h
  · cases h
  · split at h
    · cases h
    · split at h
      · exact (Prod.mk.inj h).2.symm
      · split at h
        · exact (Prod.mk.inj h).2.symm
        · cases h

theorem footprint_perm (vmas : List VmaRegion) {words words' : List Nat} (h : words.Perm words') :
    footprint vmas words = footprint vmas words' := by
  have hhit : hitRegions vmas words = hitRegions vmas words' := by
    ext v
    rw [mem_hitRegions, mem_hitRegions, h.mem_iff]
  rw [footprint, footprint, hhit, h.countP_eq]

/-- Fewer words, a smaller footprint. -/
theorem footprint_sublist (vmas : List VmaRegion) {words words' : List Nat} (h : words.Sublist words') :
    (footprint vmas words).mappedVramBytes ≤ (footprint vmas words').mappedVramBytes ∧
      (footprint vmas words).ptrCount ≤ (footprint vmas words').ptrCount := by
  have hsub : hitRegions vmas words ⊆ hitRegions vmas words' := by
    intro v hv
    obtain ⟨hmem, hword, hbase⟩ := mem_hitRegions.1 hv
    exact mem_hitRegions.2 ⟨hmem, h.subset hword, hbase⟩
  exact ⟨Finset.sum_le_sum_of_subset hsub, h.countP_le⟩

theorem kernargWords_sublist (contents : Nat → UInt8) {len len' : Nat} (h : len ≤ len') :
    (kernargWords contents len).Sublist (kernargWords contents len') :=
  (List.range_sublist.2 (Nat.div_le_div_right h)).map _

theorem windowBytes_mono {kernargBytes kernargBytes' : Nat} (h : kernargBytes ≤ kernargBytes') :
    windowBytes kernargBytes ≤ windowBytes kernargBytes' := by
  rw [windowBytes, windowBytes]
  omega

/-- **The footprint is what it is defined to be**: a buffer that can be read is measured by the words of
    its window, without overflow and within what is mapped; the order of the words does not matter, and a
    larger window gives no less; a failure reports nothing. -/
theorem scanKernargFootprint_spec (p : FootprintTarget) (hmap : MemoryMap p.vmas) (hne : p.vmas ≠ [])
    (va : Nat) (hva : va ≠ 0) :
    (∀ kernargBytes contents, p.Reads va (windowBytes kernargBytes) contents →
        scanKernargFootprint p va kernargBytes =
            (true, footprint p.vmas (kernargWords contents (windowBytes kernargBytes))) ∧
          (footprint p.vmas (kernargWords contents (windowBytes kernargBytes))).mappedVramBytes ≤
            mappedBytes p.vmas) ∧
      mappedBytes p.vmas < 2 ^ 64 ∧
      (∀ (p' : FootprintTarget) kernargBytes kernargBytes' contents contents', p'.vmas = p.vmas →
        p.Reads va (windowBytes kernargBytes) contents →
        p'.Reads va (windowBytes kernargBytes') contents' →
        (kernargWords contents (windowBytes kernargBytes)).Perm
          (kernargWords contents' (windowBytes kernargBytes')) →
        scanKernargFootprint p va kernargBytes = scanKernargFootprint p' va kernargBytes') ∧
      (∀ kernargBytes kernargBytes' contents, kernargBytes ≤ kernargBytes' →
        p.Reads va (windowBytes kernargBytes) contents →
        p.Reads va (windowBytes kernargBytes') contents →
        (scanKernargFootprint p va kernargBytes).2.mappedVramBytes ≤
            (scanKernargFootprint p va kernargBytes').2.mappedVramBytes ∧
          (scanKernargFootprint p va kernargBytes).2.ptrCount ≤
            (scanKernargFootprint p va kernargBytes').2.ptrCount) ∧
      ∀ (p' : FootprintTarget) va' kernargBytes f,
        scanKernargFootprint p' va' kernargBytes = (false, f) → f = {} := by
  refine ⟨?_, hmap.mappedBytes_lt, ?_, ?_, ?_⟩
  · intro kernargBytes contents hreads
    exact ⟨hmap.scanKernargFootprint hne hva hreads, hmap.footprint_le _⟩
  · intro p' kernargBytes kernargBytes' contents contents' hvmas hreads hreads' hperm
    have hmap' : MemoryMap p'.vmas := hvmas ▸ hmap
    rw [hmap.scanKernargFootprint hne hva hreads,
      hmap'.scanKernargFootprint (hvmas ▸ hne) hva hreads', hvmas, footprint_perm _ hperm]
  · intro kernargBytes kernargBytes' contents hle hreads hreads'
    rw [hmap.scanKernargFootprint hne hva hreads, hmap.scanKernargFootprint hne hva hreads']
    exact footprint_sublist _ (kernargWords_sublist contents (windowBytes_mono hle))
  · intro p' va' kernargBytes f h
    exact eq_empty_of_scanKernargFootprint h

/-- Two pointers to one buffer and one to the middle of it, in a process with two regions. -/
def twoRegions : FootprintTarget where
  readProcMem _ _ := none
  readProcMemViaMem va len :=
    if va + len ≤ 0x500000000018 then
      some fun i => if i % 8 = 5 then 0x70 else if i = 17 then 0x10 else 0
    else none
  vmas := [⟨0x500000000000, 0x500000001000⟩, ⟨0x700000000000, 0x700000200000⟩]

theorem scanKernargFootprint_twoRegions :
    scanKernargFootprint twoRegions 0x500000000000 24 = (true, ⟨0x200000, 2⟩) := by
  have hmap : MemoryMap twoRegions.vmas := ⟨by decide, by decide, by decide⟩
  have hspec := (scanKernargFootprint_spec twoRegions hmap (by decide) 0x500000000000 (by decide)).1 24 _
    ⟨_, rfl, fun _ _ => rfl⟩
  refine hspec.1.trans ?_
  decide +kernel

end HsaSnoop
