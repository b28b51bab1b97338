import HsaSnoop.Library.Lines
import HsaSnoop.Memory.Footprint
import HsaSnoop.Model.Numerals

set_option autoImplicit false

/-! # The memory map of a process

`ReadVmas` reads the regions of a process off the text of `/proc/<pid>/maps`, which has a line
`<start>-<stop> <rest>` for each. The numbers are hexadecimal, padded with zeros to eight digits.

Whatever the rest of the lines is, the regions are read back as they are (`readVmas_mapsText`). -/

namespace HsaSnoop

/-! ## Reading -/

/-- A hexadecimal digit. -/
def isHexDigit (c : UInt8) : Bool := (digitValue? c).any (· < 16)

/-- What follows a number that `%lx` converts; nothing when there is no number. A prefix `0x` is part of
    it, and must be followed by a digit. -/
def skipHex? (s : Bytes) : Option Bytes :=
  let s := s.dropWhile isSpace
  let s := if s.head? = some 45 ∨ s.head? = some 43 then s.drop 1 else s
  let s :=
    if s.head? = some 48 ∧ ((s.drop 1).head? = some 120 ∨ (s.drop 1).head? = some 88) then s.drop 2
    else s
  if s.head?.any isHexDigit then some (s.dropWhile isHexDigit) else none

/-- `sscanf(line, "%lx-%lx", &start, &end) == 2`. -/
def scanRange (line : Bytes) : Option VmaRegion :=
  match skipHex? line with
  | none => none
  | some rest =>
      if rest.head? ≠ some 45 then none
      else
        match skipHex? (rest.drop 1) with
        | none => none
        | some _ => some ⟨strtoull 16 line, strtoull 16 (rest.drop 1)⟩

/-- The lines `std::getline` gives: a last line need not be terminated. -/
def getlines (s : Bytes) : List Bytes :=
  let parts := s.splitOn 10
  if parts.getLast? = some [] then parts.dropLast else parts

/-- A line with a region that is not empty. -/
def regionOfLine (line : Bytes) : Option VmaRegion :=
  match scanRange (cStr line) with
  | none => none
  | some v => if v.stop > v.start then some v else none

/-- `ReadVmas`, for the text of the file, if it can be opened. -/
def readVmas (maps : Option Bytes) : List VmaRegion :=
  match maps with
  | none => []
  | some text => (getlines text).filterMap regionOfLine

/-! ## The text -/

/-- A number, padded with zeros to `width` digits. -/
def paddedHex (width n : Nat) : Bytes :=
  List.replicate (width - (hexadecimal n).length) 48 ++ hexadecimal n

/-- The line of a region, with what follows the addresses. -/
def mapsLine (entry : VmaRegion × Bytes) : Bytes :=
  paddedHex 8 entry.1.start ++ 45 :: (paddedHex 8 entry.1.stop ++ 32 :: entry.2)

def mapsText (entries : List (VmaRegion × Bytes)) : Bytes :=
  entries.flatMap (fun entry => mapsLine entry ++ [10])

/-! ## Padded numbers are read back -/

theorem mem_paddedHex {width n : Nat} {c : UInt8} (h : c ∈ paddedHex width n) :
    ∃ d < 16, c = digitByte d := by
  rcases List.mem_append.1 h with h | h
  · exact ⟨0, by decide, (List.eq_of_mem_replicate h).trans (by decide)⟩
  · obtain ⟨d, hd, hc⟩ := mem_digitBytes (by omega) h
    exact ⟨d, hd, hc⟩

theorem paddedHex_ne_nil (width n : Nat) : paddedHex width n ≠ [] := by
  intro h
  exact digitBytes_ne_nil 16 n (List.append_eq_nil_iff.1 h).2

theorem readDigits_zeros (k : Nat) (s : Bytes) :
    readDigits 16 0 (List.replicate k 48 ++ s) = readDigits 16 0 s := by
  induction k with
  | zero => rfl
  | succ k ih =>
      have hzero : (48 : UInt8) = digitByte 0 := by decide
      rw [List.replicate_succ, List.cons_append, hzero, readDigits_cons_digitByte (by omega) (by omega),
        Nat.zero_mul, Nat.zero_add, ← hzero, ih]

/-- The digits of a padded number, up to what follows. -/
theorem readDigits_paddedHex (width n : Nat) {rest : Bytes} (hrest : NoDigit 16 rest) :
    readDigits 16 0 (paddedHex width n ++ rest) = n := by
  rw [paddedHex, List.append_assoc, readDigits_zeros]
  exact readDigits_numeral (by omega) (by omega) n hrest

theorem digitByte_hex : ∀ d < 16,
    isHexDigit (digitByte d) = true ∧ digitByte d ≠ 120 ∧ digitByte d ≠ 88 ∧ digitByte d ≠ 10 ∧
      digitByte d ≠ 0 := by decide

/-- The second character of a number is no `x`. -/
theorem noPrefix_paddedHex (width n : Nat) {c : UInt8} (rest : Bytes) (hx : c ≠ 120) (hX : c ≠ 88) :
    ∃ d t, d < 16 ∧ paddedHex width n ++ c :: rest = digitByte d :: t ∧ t.head? ≠ some 120 ∧
      t.head? ≠ some 88 := by
  have hmem := fun e => @mem_paddedHex width n e
  cases hpad : paddedHex width n with
  | nil => exact absurd hpad (paddedHex_ne_nil width n)
  | cons a t =>
      rw [hpad] at hmem
      obtain ⟨d, hd, rfl⟩ := hmem a (List.mem_cons_self ..)
      refine ⟨d, t ++ c :: rest, hd, rfl, ?_⟩
      cases t with
      | nil => simpa using ⟨hx, hX⟩
      | cons b t =>
          obtain ⟨e, he, rfl⟩ := hmem b (by simp)
          obtain ⟨-, h120, h88, -⟩ := digitByte_hex e he
          simpa using ⟨h120, h88⟩

theorem strtoull_paddedHex (width : Nat) {n : Nat} (hn : n < 2 ^ 64) {c : UInt8} (rest : Bytes)
    (hx : c ≠ 120) (hX : c ≠ 88) (hc : digitValue? c = none) :
    strtoull 16 (paddedHex width n ++ c :: rest) = n := by
  obtain ⟨d, t, hd, htext, h120, h88⟩ := noPrefix_paddedHex width n rest hx hX
  have hstop : NoDigit 16 (c :: rest) := noDigit_cons hc
  have hread := readDigits_paddedHex width n hstop
  have hhex : hexPrefix (digitByte d :: t) = false := by
    cases t with
    | nil => unfold hexPrefix; split <;> simp_all
    | cons x t =>
        rw [List.head?_cons, ne_eq, Option.some_inj] at h120 h88
        unfold hexPrefix
        split
        · next heq =>
            obtain ⟨-, rfl, -⟩ := by simpa using heq
            simp [h120, h88]
        · rfl
  have hmag : magnitude 16 (paddedHex width n ++ c :: rest) = n := by
    rw [magnitude, htext, hhex, if_neg (by simp), if_neg (by simp), ← htext, hread]
  rw [strtoull_of_digit hd (by rw [htext]; rfl) 16 (hmag.trans_lt hn), hmag]

theorem skipHex?_paddedHex (width n : Nat) {c : UInt8} (rest : Bytes) (hx : c ≠ 120) (hX : c ≠ 88)
    (hc : digitValue? c = none) : skipHex? (paddedHex width n ++ c :: rest) = some (c :: rest) := by
  obtain ⟨d, t, hd, htext, h120, h88⟩ := noPrefix_paddedHex width n rest hx hX
  obtain ⟨-, hminus, hplus, -⟩ := digitByte_plain d hd
  have hdrop : (paddedHex width n ++ c :: rest).dropWhile isHexDigit = c :: rest := by
    rw [List.dropWhile_append_of_pos, List.dropWhile_cons_of_neg]
    · simp [isHexDigit, hc]
    · intro e he
      obtain ⟨d', hd', rfl⟩ := mem_paddedHex he
      exact (digitByte_hex d' hd').1
  have hspace : (digitByte d :: t).dropWhile isSpace = digitByte d :: t :=
    dropWhile_isSpace_of_digit hd rfl
  rw [htext] at hdrop ⊢
  unfold skipHex?
  simp only [hspace, List.head?_cons, Option.some_inj, hminus, hplus, or_self, if_false, List.drop_one,
    List.tail_cons, h120, h88, and_false, Option.any_some, (digitByte_hex d hd).1, if_true, hdrop]

/-! ## The regions are read back -/

theorem cStr_mapsLine (entry : VmaRegion × Bytes) :
    cStr (mapsLine entry) = mapsLine (entry.1, cStr entry.2) := by
  have hdigits : ∀ n, ∀ c ∈ paddedHex 8 n, (c ≠ 0) := by
    intro n c hc
    obtain ⟨d, hd, rfl⟩ := mem_paddedHex hc
    exact (digitByte_hex d hd).2.2.2.2
  have hpos : ∀ n, ∀ c ∈ paddedHex 8 n, decide (c ≠ 0) = true := fun n c hc => by
    simpa using hdigits n c hc
  simp only [cStr, mapsLine]
  rw [List.takeWhile_append_of_pos (hpos _), List.takeWhile_cons_of_pos (by decide),
    List.takeWhile_append_of_pos (hpos _), List.takeWhile_cons_of_pos (by decide)]

/-- One line. -/
theorem regionOfLine_mapsLine {entry : VmaRegion × Bytes} (hne : entry.1.start < entry.1.stop)
    (hfits : entry.1.stop < 2 ^ 64) : regionOfLine (mapsLine entry) = some entry.1 := by
  have hstart := strtoull_paddedHex 8 (hne.trans hfits)
    (paddedHex 8 entry.1.stop ++ 32 :: cStr entry.2) (c := 45) (by decide) (by decide) (by decide)
  have hskip := skipHex?_paddedHex 8 entry.1.start
    (paddedHex 8 entry.1.stop ++ 32 :: cStr entry.2) (c := 45) (by decide) (by decide) (by decide)
  have hstop := strtoull_paddedHex 8 hfits (cStr entry.2) (c := 32) (by decide) (by decide) (by decide)
  have hskip' := skipHex?_paddedHex 8 entry.1.stop (cStr entry.2) (c := 32) (by decide) (by decide)
    (by decide)
  have hscan : scanRange (mapsLine (entry.1, cStr entry.2)) = some entry.1 := by
    rw [mapsLine, scanRange, hskip]
    simp only [List.head?_cons, ne_eq, not_true_eq_false, if_false, List.drop_one, List.tail_cons, hskip',
      hstart, hstop]
  rw [regionOfLine, cStr_mapsLine, hscan]
  simp only [gt_iff_lt, hne, if_true]

theorem newline_notMem_mapsLine {entry : VmaRegion × Bytes} (h : (10 : UInt8) ∉ entry.2) :
    (10 : UInt8) ∉ mapsLine entry := by
  have hdigits : ∀ n, (10 : UInt8) ∉ paddedHex 8 n := by
    intro n hn
    obtain ⟨d, hd, heq⟩ := mem_paddedHex hn
    exact (digitByte_hex d hd).2.2.2.1 heq.symm
  simp [mapsLine, hdigits, h]

/-- Every line is terminated. -/
theorem getlines_mapsText {entries : List (VmaRegion × Bytes)}
    (h : ∀ entry ∈ entries, (10 : UInt8) ∉ entry.2) :
    getlines (mapsText entries) = entries.map mapsLine := by
  have hsplit : (mapsText entries).splitOn 10 = entries.map mapsLine ++ [[]] := by
    induction entries with
    | nil => rfl
    | cons entry entries ih =>
        rw [mapsText, List.flatMap_cons, List.append_assoc, List.singleton_append,
          List.splitOn_append_cons_self,
          List.splitOn_eq_singleton (newline_notMem_mapsLine (h entry (List.mem_cons_self ..)))]
        exact congrArg _ (ih (fun e he => h e (List.mem_cons_of_mem _ he)))
  rw [getlines, hsplit, if_pos List.getLast?_concat, List.dropLast_concat]

/-- **The regions of a process are read back**, whatever else the lines say. -/
theorem readVmas_mapsText {entries : List (VmaRegion × Bytes)}
    (hmap : MemoryMap (entries.map Prod.fst)) (h : ∀ entry ∈ entries, (10 : UInt8) ∉ entry.2) :
    readVmas (some (mapsText entries)) = entries.map Prod.fst := by
  have hlines : ∀ es : List (VmaRegion × Bytes), (∀ e ∈ es, e ∈ entries) →
      (es.map mapsLine).filterMap regionOfLine = es.map Prod.fst := by
    intro es hes
    induction es with
    | nil => rfl
    | cons e es ih =>
        have hmem : e.1 ∈ entries.map Prod.fst := List.mem_map_of_mem (hes e (List.mem_cons_self ..))
        rw [List.map_cons, List.map_cons,
          List.filterMap_cons_some (regionOfLine_mapsLine (hmap.nonempty _ hmem) (hmap.fits _ hmem)),
          ih (fun e' he' => hes e' (List.mem_cons_of_mem _ he'))]
  rw [readVmas, getlines_mapsText h]
  exact hlines entries (fun _ he => he)

end HsaSnoop
