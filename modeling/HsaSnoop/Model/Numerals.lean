import Mathlib.Data.List.TakeWhile
import HsaSnoop.Library.Fields
import HsaSnoop.Model.Text

set_option autoImplicit false

/-! # Numerals read back

A number that was printed with `%d`, `%u`, `%lu` or `0x%lx` and is read with `strtoull` or `atoi` comes
back, when what follows is no digit. Also how `find` relates to `Fields.after?`. -/

namespace HsaSnoop

/-! ## Digits -/

/-- The digits of a number, in ASCII. -/
def digitBytes (base n : Nat) : Bytes := str (String.ofList (Nat.toDigits base n))

/-- The ASCII code of a digit. -/
def digitByte (d : Nat) : UInt8 := UInt8.ofNat d.digitChar.toNat

theorem decimal_eq (n : Nat) : decimal n = digitBytes 10 n := by
  unfold decimal digitBytes
  rw [Nat.toString_eq_ofList_toDigits]

theorem digitBytes_of_lt {base n : Nat} (h : n < base) : digitBytes base n = [digitByte n] := by
  simp [digitBytes, str, Nat.toDigits_of_lt_base h, digitByte]

theorem digitBytes_of_le {base n : Nat} (hb : 1 < base) (h : base ≤ n) :
    digitBytes base n = digitBytes base (n / base) ++ [digitByte (n % base)] := by
  simp [digitBytes, str, Nat.toDigits_of_base_le hb h, digitByte]

/-- The digits of a number, one more at the end at a time. -/
theorem digitBytes_induction {base : Nat} (hb : 1 < base) {P : Nat → Bytes → Prop}
    (single : ∀ n, n < base → P n [digitByte n])
    (snoc : ∀ n, base ≤ n → P (n / base) (digitBytes base (n / base)) →
      P n (digitBytes base (n / base) ++ [digitByte (n % base)])) (n : Nat) :
    P n (digitBytes base n) := by
  induction n using Nat.strongRecOn with
  | ind n ih =>
      by_cases h : n < base
      · rw [digitBytes_of_lt h]
        exact single n h
      · have hle : base ≤ n := Nat.le_of_not_lt h
        rw [digitBytes_of_le hb hle]
        exact snoc n hle (ih (n / base) (Nat.div_lt_self (by omega) hb))

theorem digitValue?_digitByte : ∀ d < 16, digitValue? (digitByte d) = some d := by decide

theorem digitBytes_ne_nil (base n : Nat) : digitBytes base n ≠ [] := by
  simp [digitBytes, str, Nat.toDigits_ne_nil]

/-- Every digit of a number is one of its base. -/
theorem mem_digitBytes {base n : Nat} (hb : 1 < base) {c : UInt8} (h : c ∈ digitBytes base n) :
    ∃ d < base, c = digitByte d := by
  revert h
  refine digitBytes_induction hb (P := fun _ s => c ∈ s → ∃ d < base, c = digitByte d) ?_ ?_ n
  · intro n hn h
    exact ⟨n, hn, List.mem_singleton.1 h⟩
  · intro n _ ih h
    rcases List.mem_append.1 h with h | h
    · exact ih h
    · exact ⟨n % base, Nat.mod_lt _ (by omega), List.mem_singleton.1 h⟩

/-- A byte that is no digit up to `f` is in no numeral. -/
theorem notMem_digitBytes {base : Nat} (hb : 1 < base) (hb16 : base ≤ 16) (n : Nat) {c : UInt8}
    (hc : ∀ d < 16, c ≠ digitByte d) : c ∉ digitBytes base n := by
  intro h
  obtain ⟨d, hd, rfl⟩ := mem_digitBytes hb h
  exact hc d (by omega) rfl

theorem notMem_decimal {c : UInt8} (hc : ∀ d < 16, c ≠ digitByte d) (n : Nat) : c ∉ decimal n := by
  rw [decimal_eq]
  exact notMem_digitBytes (by omega) (by omega) n hc

theorem notMem_hexadecimal {c : UInt8} (hc : ∀ d < 16, c ≠ digitByte d) (n : Nat) :
    c ∉ hexadecimal n := notMem_digitBytes (by omega) (by omega) n hc

theorem notMem_signedDecimal {c : UInt8} (hc : ∀ d < 16, c ≠ digitByte d) (hminus : c ≠ 45) (n : Int) :
    c ∉ signedDecimal n := by
  unfold signedDecimal
  split
  · rw [List.mem_cons, not_or]
    exact ⟨hminus, notMem_decimal hc _⟩
  · exact notMem_decimal hc _

/-- The first digit of a number that is not 0 is not 0. -/
theorem head?_digitBytes {base : Nat} (hb : 1 < base) (n : Nat) :
    ∃ d < base, (digitBytes base n).head? = some (digitByte d) ∧ (d = 0 → n = 0) := by
  refine digitBytes_induction hb
    (P := fun n s => ∃ d < base, s.head? = some (digitByte d) ∧ (d = 0 → n = 0)) ?_ ?_ n
  · intro n hn
    exact ⟨n, hn, rfl, id⟩
  · intro n hle ⟨d, hd, hhead, hzero⟩
    refine ⟨d, hd, by rw [List.head?_append, hhead, Option.some_or], fun h => ?_⟩
    have hquot : 1 ≤ n / base := (Nat.one_le_div_iff (by omega)).2 hle
    have := hzero h
    omega

/-! ## Reading digits -/

/-- Nothing that could be taken for a further digit. -/
def NoDigit (base : Nat) (s : Bytes) : Prop :=
  ∀ c, s.head? = some c → ∀ v, digitValue? c = some v → base ≤ v

theorem noDigit_nil (base : Nat) : NoDigit base [] := fun _ h => by cases h

theorem noDigit_cons {base : Nat} {c : UInt8} {s : Bytes} (h : digitValue? c = none) :
    NoDigit base (c :: s) := by
  intro d hd v hv
  obtain rfl : c = d := Option.some.inj hd
  rw [h] at hv
  cases hv

theorem readDigits_of_noDigit {base : Nat} {s : Bytes} (h : NoDigit base s) (acc : Nat) :
    readDigits base acc s = acc := by
  cases s with
  | nil => rfl
  | cons c s =>
      unfold readDigits
      cases hv : digitValue? c with
      | none => rfl
      | some v => exact if_neg (Nat.not_lt_of_le (h c rfl v hv))

theorem readDigits_cons_digitByte {base d : Nat} (hb16 : base ≤ 16) (hd : d < base) (acc : Nat)
    (s : Bytes) : readDigits base acc (digitByte d :: s) = readDigits base (acc * base + d) s := by
  rw [readDigits, digitValue?_digitByte d (by omega)]
  exact if_pos hd

/-- Reading a numeral goes on behind it with its value. -/
theorem readDigits_digitBytes {base : Nat} (hb : 1 < base) (hb16 : base ≤ 16) (n : Nat)
    (rest : Bytes) : readDigits base 0 (digitBytes base n ++ rest) = readDigits base n rest := by
  refine digitBytes_induction hb
    (P := fun n s => ∀ rest, readDigits base 0 (s ++ rest) = readDigits base n rest) ?_ ?_ n rest
  · intro n hn rest
    rw [List.singleton_append, readDigits_cons_digitByte hb16 hn, Nat.zero_mul, Nat.zero_add]
  · intro n _ ih rest
    rw [List.append_assoc, ih, List.singleton_append,
      readDigits_cons_digitByte hb16 (Nat.mod_lt _ (by omega)), Nat.div_add_mod']

theorem readDigits_numeral {base : Nat} (hb : 1 < base) (hb16 : base ≤ 16) (n : Nat) {rest : Bytes}
    (hrest : NoDigit base rest) : readDigits base 0 (digitBytes base n ++ rest) = n := by
  rw [readDigits_digitBytes hb hb16, readDigits_of_noDigit hrest]

/-! ## strtoull and atoi -/

/-- What `strtoull` makes of the text behind blanks and sign. -/
def magnitude (base : Nat) (s : Bytes) : Nat :=
  if (base = 0 ∨ base = 16) ∧ hexPrefix s then readDigits 16 0 (s.drop 2)
  else if base = 0 then readDigits (if s.head? = some 48 then 8 else 10) 0 s
  else readDigits base 0 s

theorem digitByte_plain : ∀ d < 16,
    isSpace (digitByte d) = false ∧ digitByte d ≠ 45 ∧ digitByte d ≠ 43 ∧
      (digitByte d = 48 ↔ d = 0) := by decide

theorem dropWhile_isSpace_of_digit {s : Bytes} {d : Nat} (hd : d < 16)
    (hs : s.head? = some (digitByte d)) : s.dropWhile isSpace = s := by
  cases s with
  | nil => rfl
  | cons c s =>
      obtain rfl : c = digitByte d := Option.some.inj hs
      exact List.dropWhile_cons_of_neg (by simp [(digitByte_plain d hd).1])

/-- A text that starts with a digit has no sign. -/
theorem strtoull_of_digit {s : Bytes} {d : Nat} (hd : d < 16) (hs : s.head? = some (digitByte d))
    (base : Nat) (hlt : magnitude base s < 2 ^ 64) : strtoull base s = magnitude base s := by
  obtain ⟨-, hminus, hplus, -⟩ := digitByte_plain d hd
  have hneg : ¬ s.head? = some 45 := by simpa [hs] using hminus
  have hsign : ¬ (s.head? = some 45 ∨ s.head? = some 43) := by simpa [hs] using ⟨hminus, hplus⟩
  unfold strtoull
  simp only [dropWhile_isSpace_of_digit hd hs, if_neg hsign, if_neg hneg]
  exact if_neg (Nat.not_le_of_lt hlt)

/-- A minus sign in front negates modulo `2^64`. -/
theorem strtoull_minus {s : Bytes} (base : Nat) (hlt : magnitude base s < 2 ^ 64) :
    strtoull base (45 :: s) = u64Sub 0 (magnitude base s) := by
  have hspace : (45 :: s).dropWhile isSpace = 45 :: s :=
    List.dropWhile_cons_of_neg (by decide)
  unfold strtoull
  simp only [hspace, List.head?_cons, true_or, if_true, List.drop_one, List.tail_cons]
  exact if_neg (Nat.not_le_of_lt hlt)

theorem magnitude_decimal {base n : Nat} {rest : Bytes} (hbase : base = 0 ∨ base = 10)
    (hrest : NoDigit 10 rest) (hx : rest.head? ≠ some 120 ∧ rest.head? ≠ some 88) :
    magnitude base (decimal n ++ rest) = n := by
  obtain ⟨d, hd, hhead, hzero⟩ := @head?_digitBytes 10 (by omega) n
  have hread := @readDigits_numeral 10 (by omega) (by omega) n rest hrest
  rw [decimal_eq]
  rcases hbase with rfl | rfl
  · by_cases hn : n = 0
    · -- A single 0: no hexadecimal prefix, and octal reads it as 0.
      subst hn
      have hdigits : digitBytes 10 0 = [48] := by decide
      have hhex : hexPrefix (48 :: rest) = false := by
        cases rest with
        | nil => rfl
        | cons x rest =>
            cases rest with
            | nil => rfl
            | cons d rest =>
                simp only [List.head?_cons, ne_eq, Option.some_inj] at hx
                simp [hexPrefix, hx.1, hx.2]
      have hoct : readDigits 8 0 (48 :: rest) = readDigits 8 0 rest := rfl
      rw [hdigits, List.singleton_append, magnitude, hhex, if_neg (by simp), if_pos rfl,
        List.head?_cons, if_pos rfl, hoct]
      refine readDigits_of_noDigit (fun c hc v hv => ?_) 0
      have hten := hrest c hc v hv
      omega
    · have h48 : digitByte d ≠ 48 := fun h => hn (hzero ((digitByte_plain d (by omega)).2.2.2.1 h))
      have happ : (digitBytes 10 n ++ rest).head? = some (digitByte d) := by
        rw [List.head?_append, hhead, Option.some_or]
      have hhex : hexPrefix (digitBytes 10 n ++ rest) = false := by
        revert happ
        generalize digitBytes 10 n ++ rest = s
        intro happ
        unfold hexPrefix
        split
        · next x d' t =>
            exact absurd (Option.some.inj happ).symm h48
        · rfl
      rw [magnitude, hhex, if_neg (by simp), if_pos rfl, happ, if_neg (by simpa using h48), hread]
  · rw [magnitude, if_neg (by simp), if_neg (by simp), hread]

/-- **`%u`, `%lu` and `%d` of a value that is not negative**, read back. -/
theorem strtoull_decimal {base n : Nat} {rest : Bytes} (hbase : base = 0 ∨ base = 10)
    (hn : n < 2 ^ 64) (hrest : NoDigit 10 rest)
    (hx : rest.head? ≠ some 120 ∧ rest.head? ≠ some 88) :
    strtoull base (decimal n ++ rest) = n := by
  obtain ⟨d, hd, hhead, -⟩ := @head?_digitBytes 10 (by omega) n
  have hmag := magnitude_decimal (n := n) hbase hrest hx
  have hs : (decimal n ++ rest).head? = some (digitByte d) := by
    rw [decimal_eq, List.head?_append, hhead, Option.some_or]
  rw [strtoull_of_digit (by omega) hs base (hmag.trans_lt hn), hmag]

/-- **`0x%lx`**, read back. -/
theorem strtoull_hexadecimal {n : Nat} {rest : Bytes} (hn : n < 2 ^ 64) (hrest : NoDigit 16 rest) :
    strtoull 0 (48 :: 120 :: hexadecimal n ++ rest) = n := by
  obtain ⟨d, hd, hhead, -⟩ := @head?_digitBytes 16 (by omega) n
  have hread := @readDigits_numeral 16 (by omega) (by omega) n rest hrest
  have hhex : hexPrefix (48 :: 120 :: (hexadecimal n ++ rest)) = true := by
    have happ : (hexadecimal n ++ rest).head? = some (digitByte d) := by
      rw [List.head?_append]
      exact (congrArg (Option.or · _) hhead).trans rfl
    cases hl : hexadecimal n ++ rest with
    | nil =>
        rw [hl] at happ
        cases happ
    | cons c t =>
        rw [hl] at happ
        obtain rfl : c = digitByte d := Option.some.inj happ
        simp [hexPrefix, digitValue?_digitByte d hd, hd]
  have hmag : magnitude 0 (48 :: 120 :: (hexadecimal n ++ rest)) = n := by
    rw [magnitude, if_pos ⟨.inl rfl, hhex⟩]
    exact hread
  have h48 : (48 :: 120 :: (hexadecimal n ++ rest)).head? = some (digitByte 0) := by
    rw [List.head?_cons]
    exact congrArg some (by decide)
  rw [List.cons_append, List.cons_append, strtoull_of_digit (by omega) h48 0 (hmag.trans_lt hn), hmag]

/-- **`%d` of an `int`**, read back through `uint64_t`. -/
theorem toInt32_strtoull_signedDecimal {n : Int} {rest : Bytes} (hlo : -2 ^ 31 ≤ n)
    (hhi : n < 2 ^ 31) (hrest : NoDigit 10 rest)
    (hx : rest.head? ≠ some 120 ∧ rest.head? ≠ some 88) :
    toInt32 (strtoull 0 (signedDecimal n ++ rest)) = n := by
  have habs : n.natAbs < 2 ^ 64 := by omega
  unfold signedDecimal
  split
  · next hneg =>
      have hmag := magnitude_decimal (n := n.natAbs) (.inl rfl) hrest hx
      rw [List.cons_append, strtoull_minus 0 (hmag.trans_lt habs), hmag]
      have hsub : u64Sub 0 n.natAbs = 2 ^ 64 - n.natAbs := by
        unfold u64Sub u64
        omega
      rw [hsub]
      unfold toInt32
      rw [Int.bmod_def]
      omega
  · next hpos =>
      rw [strtoull_decimal (.inl rfl) habs hrest hx]
      unfold toInt32
      rw [Int.bmod_def]
      omega

/-- **`%d` of an `int`**, read back with `atoi`. -/
theorem atoi_signedDecimal {n : Int} {rest : Bytes} (hlo : -2 ^ 31 ≤ n) (hhi : n < 2 ^ 31)
    (hrest : NoDigit 10 rest) : atoi (signedDecimal n ++ rest) = n := by
  obtain ⟨d, hd, hhead, -⟩ := @head?_digitBytes 10 (by omega) n.natAbs
  obtain ⟨-, hminus, hplus, -⟩ := digitByte_plain d (by omega)
  have hread := @readDigits_numeral 10 (by omega) (by omega) n.natAbs rest hrest
  have hs : (digitBytes 10 n.natAbs ++ rest).head? = some (digitByte d) := by
    rw [List.head?_append, hhead, Option.some_or]
  unfold signedDecimal atoi
  rw [decimal_eq]
  split
  · next hneg =>
      have hspace : (45 :: digitBytes 10 n.natAbs ++ rest).dropWhile isSpace =
          45 :: (digitBytes 10 n.natAbs ++ rest) := List.dropWhile_cons_of_neg (by decide)
      simp only [hspace, List.head?_cons, true_or, if_true, List.drop_one, List.tail_cons, hread]
      rw [Int.bmod_def]
      omega
  · next hpos =>
      simp only [dropWhile_isSpace_of_digit (show d < 16 by omega) hs, hs, Option.some_inj, hminus,
        hplus, or_self, if_false, hread]
      rw [Int.bmod_def]
      omega

/-! ## What follows a blank is not read -/

theorem readDigits_append_space (base acc : Nat) (t s : Bytes) :
    readDigits base acc (t ++ 32 :: s) = readDigits base acc t := by
  induction t generalizing acc with
  | nil => exact readDigits_of_noDigit (noDigit_cons (by decide)) acc
  | cons c t ih =>
      rw [List.cons_append]
      unfold readDigits
      cases digitValue? c with
      | none => rfl
      | some v =>
          simp only
          split
          · exact ih _
          · rfl

theorem hexPrefix_append_space (t s : Bytes) : hexPrefix (t ++ 32 :: s) = hexPrefix t := by
  match t with
  | [] => rfl
  | [a] =>
      cases s with
      | nil => simp [hexPrefix]
      | cons d s =>
          by_cases ha : a = 48
          · simp [hexPrefix, ha]
          · simp [hexPrefix, ha]
  | [a, x] =>
      by_cases ha : a = 48
      · simp [hexPrefix, ha, show digitValue? 32 = none by decide]
      · simp [hexPrefix, ha]
  | a :: x :: d :: t =>
      by_cases ha : a = 48
      · simp [hexPrefix, ha]
      · simp [hexPrefix, ha]

theorem magnitude_append_space (base : Nat) (t s : Bytes) :
    magnitude base (t ++ 32 :: s) = magnitude base t := by
  unfold magnitude
  rw [hexPrefix_append_space, readDigits_append_space]
  cases t with
  | nil =>
      have hnone : ∀ b, readDigits b 0 (32 :: s) = 0 := fun b => readDigits_append_space b 0 [] s
      simp [hexPrefix, hnone, readDigits]
  | cons c t =>
      have hhead : (c :: t ++ 32 :: s).head? = (c :: t).head? := rfl
      have hdrop : ∀ hx : hexPrefix (c :: t) = true,
          readDigits 16 0 ((c :: t ++ 32 :: s).drop 2) = readDigits 16 0 ((c :: t).drop 2) := by
        intro hx
        cases t with
        | nil =>
            exact absurd hx (by simp [hexPrefix])
        | cons d t => exact readDigits_append_space 16 0 t s
      rw [hhead, readDigits_append_space]
      by_cases hhex : (base = 0 ∨ base = 16) ∧ hexPrefix (c :: t) = true
      · rw [if_pos hhex, if_pos hhex, hdrop hhex.2]
      · rw [if_neg hhex, if_neg hhex]

/-- A number ends at the next blank. -/
theorem strtoull_append_space {t : Bytes} (h : t.dropWhile isSpace ≠ []) (base : Nat) (s : Bytes) :
    strtoull base (t ++ 32 :: s) = strtoull base t := by
  have hdrop : (t ++ 32 :: s).dropWhile isSpace = t.dropWhile isSpace ++ 32 :: s := by
    rw [List.dropWhile_append, if_neg (by simpa using h)]
  have hmag := fun u => magnitude_append_space base u s
  unfold strtoull
  simp only [hdrop]
  cases hu : t.dropWhile isSpace with
  | nil => exact absurd hu h
  | cons c u =>
      have hhead : (c :: u ++ 32 :: s).head? = (c :: u).head? := rfl
      rw [hhead]
      by_cases hsign : (c :: u).head? = some 45 ∨ (c :: u).head? = some 43
      · rw [if_pos hsign, if_pos hsign]
        have hm := hmag u
        unfold magnitude at hm
        simp only [List.cons_append, List.drop_succ_cons, List.drop_zero, hm]
      · rw [if_neg hsign, if_neg hsign]
        have hm := hmag (c :: u)
        unfold magnitude at hm
        simp only [hm]

/-! ## find -/

/-- `find` by what follows the occurrence it finds. -/
theorem find?_map_drop (needle s : Bytes) :
    (find? needle s).map (fun p => s.drop (p + needle.length)) = Fields.after? needle s := by
  induction s with
  | nil =>
      unfold find? Fields.after?
      split
      · simp
      · simp
  | cons c s ih =>
      unfold find? Fields.after?
      by_cases h : needle <+: c :: s
      · rw [if_pos (List.isPrefixOf_iff_prefix.2 h), if_pos h]
        simp
      · rw [if_neg (mt List.isPrefixOf_iff_prefix.1 h), if_neg h, ← ih, Option.map_map]
        congr 1
        funext p
        simp [Nat.add_right_comm p 1]

/-! ## Fields behind a name -/

/-- A byte no number starts with. -/
def NotNumber (c : UInt8) : Prop :=
  isSpace c = false ∧ c ≠ 45 ∧ c ≠ 43 ∧ c ≠ 48 ∧ ∀ v, digitValue? c = some v → 10 ≤ v

theorem magnitude_notNumber {base : Nat} {c : UInt8} {s : Bytes} (hbase : base = 0 ∨ base = 10)
    (hc : NotNumber c) : magnitude base (c :: s) = 0 := by
  obtain ⟨-, -, -, hzero, hdigit⟩ := hc
  have hread : readDigits 10 0 (c :: s) = 0 := by
    refine readDigits_of_noDigit ?_ 0
    intro d hd v hv
    obtain rfl : c = d := Option.some.inj hd
    exact hdigit v hv
  have hhex : hexPrefix (c :: s) = false := by simp [hexPrefix, hzero]
  unfold magnitude
  rcases hbase with rfl | rfl
  · simp [hhex, hzero, hread]
  · simp [hread]

/-- Blanks with no number behind them. -/
theorem strtoull_blanks {base : Nat} {t s : Bytes} {c : UInt8} (hbase : base = 0 ∨ base = 10)
    (ht : t.dropWhile isSpace = []) (hc : NotNumber c) : strtoull base (t ++ c :: s) = 0 := by
  have hdrop : (t ++ c :: s).dropWhile isSpace = c :: s := by
    rw [List.dropWhile_append, if_pos (by simpa using ht), List.dropWhile_cons_of_neg (by simp [hc.1])]
  have hmag := @magnitude_notNumber base c s hbase hc
  unfold magnitude at hmag
  simp only [List.head?_cons, Option.some_inj] at hmag
  obtain ⟨-, hminus, hplus, -⟩ := hc
  unfold strtoull
  simp only [hdrop, List.head?_cons, Option.some_inj, hminus, hplus, or_self, if_false, hmag]
  rfl

theorem strtoull_nil (base : Nat) {t : Bytes} (ht : t.dropWhile isSpace = []) :
    strtoull base t = 0 := by
  unfold strtoull
  simp [ht, hexPrefix, readDigits]

/-- A number at the end of a text, with blanks and something else behind it. -/
theorem strtoull_append_blanks {base : Nat} {c : UInt8} (hbase : base = 0 ∨ base = 10)
    (hc : NotNumber c) (t : Bytes) (k : Nat) (s : Bytes) :
    strtoull base (t ++ 32 :: (List.replicate k 32 ++ c :: s)) = strtoull base t := by
  by_cases ht : t.dropWhile isSpace = []
  · have hblanks : (t ++ List.replicate (k + 1) 32).dropWhile isSpace = [] := by
      rw [List.dropWhile_append, if_pos (by simpa using ht)]
      exact List.dropWhile_eq_nil_iff.2 (fun c hc => by rw [List.eq_of_mem_replicate hc]; rfl)
    have hzero := @strtoull_blanks base (t ++ List.replicate (k + 1) 32) s c hbase hblanks hc
    rw [List.append_assoc, List.replicate_succ, List.cons_append] at hzero
    rw [hzero, strtoull_nil base ht]
  · exact strtoull_append_space ht base (List.replicate k 32 ++ c :: s)

/-- The number a text spells for a key, if it spells the key. -/
def spelled? (base : Nat) (text : Bytes) (key : String) : Option Nat :=
  (Fields.after? (Fields.needle 32 61 (str key)) text).map (strtoull base)

/-! ## Numerals as keys -/

theorem decimal_injective {m n : Nat} (h : decimal m = decimal n) : m = n := by
  have hread := fun k => @readDigits_numeral 10 (by decide) (by decide) k [] (noDigit_nil 10)
  rw [decimal_eq, decimal_eq] at h
  rw [← hread m, ← hread n, h]

theorem signedDecimal_injective {m n : Int} (h : signedDecimal m = signedDecimal n) : m = n := by
  have hminus : ∀ k : Nat, (45 : UInt8) ∉ decimal k := notMem_decimal (by decide)
  unfold signedDecimal at h
  split at h
  · split at h
    · have habs := decimal_injective (List.cons.inj h).2
      omega
    · exact absurd (h ▸ List.mem_cons_self ..) (hminus n.natAbs)
  · split at h
    · exact absurd (h ▸ List.mem_cons_self ..) (hminus m.natAbs)
    · have habs := decimal_injective h
      omega

/-- A number has no colon, so what stands in front of the first one can be told. -/
theorem signedDecimal_colon_inj {m n : Int} {s s' : Bytes} :
    signedDecimal m ++ 58 :: s = signedDecimal n ++ 58 :: s' ↔ m = n ∧ s = s' := by
  have hcolon : ∀ n : Int, ∀ c ∈ signedDecimal n, decide (c ≠ 58) = true := by
    intro n c hc
    refine decide_eq_true ?_
    rintro rfl
    exact notMem_signedDecimal (by decide) (by decide) n hc
  have htake : ∀ (n : Int) (s : Bytes),
      (signedDecimal n ++ 58 :: s).takeWhile (fun c => decide (c ≠ 58)) = signedDecimal n := by
    intro n s
    rw [List.takeWhile_append_of_pos (hcolon n), List.takeWhile_cons_of_neg (by decide),
      List.append_nil]
  constructor
  · intro h
    have hnum := congrArg (List.takeWhile (fun c => decide (c ≠ 58))) h
    rw [htake, htake] at hnum
    rw [hnum, List.append_cancel_left_eq] at h
    exact ⟨signedDecimal_injective hnum, (List.cons.inj h).2⟩
  · rintro ⟨rfl, rfl⟩
    rfl

end HsaSnoop
