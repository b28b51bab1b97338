import HsaSnoop.Library.JsonNumber
import HsaSnoop.Writer.JsonText

set_option autoImplicit false

/-! # Floating-point output of a stream

How `operator<<` prints a `double` in a stream that was not told otherwise: general notation, six
significant digits, no zeros at the end of a fraction. Here for a number of thousandths, which is what
microseconds are when time is counted in nanoseconds; rounding is exact, ties go to even.

The text is a JSON number and denotes the rounded value (`numberValue_ostreamMicros`), which is the value
itself exactly when six digits are enough for it (`rounded_eq_iff`). -/

namespace HsaSnoop

/-! ## Rounding -/

/-- The whole number nearest to `n / d`. -/
def roundHalfEven (n d : Nat) : Nat :=
  if 2 * (n % d) < d then n / d
  else if d < 2 * (n % d) then n / d + 1
  else if n / d % 2 = 0 then n / d else n / d + 1

/-- The digits beyond the sixth. -/
def excessDigits (n : Nat) : Nat := (decimal n).length - 6

/-- To six significant digits. -/
def rounded (n : Nat) : Nat := roundHalfEven n (10 ^ excessDigits n) * 10 ^ excessDigits n

/-- At most six significant digits. -/
def SixDigits (n : Nat) : Prop := ∃ a e, a < 10 ^ 6 ∧ n = a * 10 ^ e

/-! ## Printing -/

def pointText (ds : Bytes) : Bytes := if ds = [] then [] else 46 :: ds

def threeDigits (n : Nat) : Bytes :=
  [digitByte (n / 100 % 10), digitByte (n / 10 % 10), digitByte (n % 10)]

/-- At least two digits. -/
def exponentDigits (n : Nat) : Bytes := if n < 10 then [48, digitByte n] else decimal n

/-- `f << value`, where `n` is the value in thousandths. The exponent is below 6 when the rounded value
    is below a million: then it is written out. -/
def ostreamMicros (n : Nat) : Bytes :=
  let v := rounded n
  if v < 10 ^ 9 then
    decimal (v / 1000) ++ pointText (Json.stripZeros (threeDigits (v % 1000)))
  else
    (decimal v).take 1 ++ (pointText (Json.stripZeros ((decimal v).drop 1)) ++
      (str "e+" ++ exponentDigits ((decimal v).length - 4)))

/-! ## Digits -/

theorem toNat_digitByte : ∀ d < 10, (digitByte d).toNat - 48 = d := by decide

theorem digitsValue_decimal (n : Nat) : Json.digitsValue (decimal n) = n := by
  rw [decimal_eq]
  refine digitBytes_induction (by decide) (P := fun n s => Json.digitsValue s = n) ?_ ?_ n
  · intro n hn
    rw [Json.digitsValue_singleton, toNat_digitByte n hn]
  · intro n _ ih
    rw [Json.digitsValue_concat, ih, toNat_digitByte _ (Nat.mod_lt n (by decide)), Nat.div_add_mod]

theorem lt_pow_length_decimal (n : Nat) : n < 10 ^ (decimal n).length := by
  rw [decimal_eq]
  refine digitBytes_induction (by decide) (P := fun n s => n < 10 ^ s.length) ?_ ?_ n
  · intro n hn
    simpa using hn
  · intro n _ ih
    rw [List.length_append, List.length_singleton, pow_succ]
    omega

theorem pow_length_decimal_le {n : Nat} (h : 0 < n) : 10 ^ ((decimal n).length - 1) ≤ n := by
  revert h
  rw [decimal_eq]
  refine digitBytes_induction (by decide)
    (P := fun n s => 0 < n → 10 ^ (s.length - 1) ≤ n) ?_ ?_ n
  · intro n _ h
    exact h
  · intro n hn ih _
    have hlen : 0 < (digitBytes 10 (n / 10)).length := List.length_pos_of_ne_nil (digitBytes_ne_nil _ _)
    have hprev := ih (by omega)
    obtain ⟨l, hl⟩ := Nat.exists_eq_succ_of_ne_zero hlen.ne'
    rw [List.length_append, List.length_singleton, Nat.add_sub_cancel, hl, pow_succ]
    rw [hl, Nat.succ_sub_one] at hprev
    omega

/-! ## When rounding changes nothing -/

theorem roundHalfEven_mul_eq_iff {n d : Nat} (hd : 0 < d) : roundHalfEven n d * d = n ↔ d ∣ n := by
  constructor
  · intro h
    exact ⟨roundHalfEven n d, by rw [Nat.mul_comm, h]⟩
  · intro h
    have hmod : n % d = 0 := Nat.mod_eq_zero_of_dvd h
    rw [roundHalfEven, hmod, if_pos (by omega), Nat.div_mul_cancel h]

theorem excessDigits_le {n a e : Nat} (ha : a < 10 ^ 6) (hn : n = a * 10 ^ e) : excessDigits n ≤ e := by
  rcases Nat.eq_zero_or_pos n with h0 | hpos
  · subst h0
    exact Nat.zero_le e
  · -- The number has more than `length - 1` and at most `6 + e` digits.
    have hlt : 10 ^ ((decimal n).length - 1) < 10 ^ (6 + e) := by
      calc 10 ^ ((decimal n).length - 1)
          ≤ n := pow_length_decimal_le hpos
        _ = a * 10 ^ e := hn
        _ < 10 ^ 6 * 10 ^ e := Nat.mul_lt_mul_of_pos_right ha (Nat.pow_pos (by decide))
        _ = 10 ^ (6 + e) := (pow_add ..).symm
    have hlen := (Nat.pow_lt_pow_iff_right (by decide)).1 hlt
    unfold excessDigits
    omega

/-- **Six digits are enough** for the numbers rounding keeps. -/
theorem rounded_eq_iff (n : Nat) : rounded n = n ↔ SixDigits n := by
  rw [rounded, roundHalfEven_mul_eq_iff (Nat.pow_pos (by decide))]
  constructor
  · rintro ⟨q, hq⟩
    refine ⟨q, excessDigits n, ?_, hq.trans (Nat.mul_comm ..)⟩
    have hlt : 10 ^ excessDigits n * q < 10 ^ excessDigits n * 10 ^ 6 := by
      calc 10 ^ excessDigits n * q
          = n := hq.symm
        _ < 10 ^ (decimal n).length := lt_pow_length_decimal n
        _ ≤ 10 ^ (excessDigits n + 6) := Nat.pow_le_pow_right (by decide) (by unfold excessDigits; omega)
        _ = 10 ^ excessDigits n * 10 ^ 6 := pow_add ..
    exact Nat.lt_of_mul_lt_mul_left hlt
  · rintro ⟨a, e, ha, hn⟩
    have hdvd : 10 ^ excessDigits n ∣ 10 ^ e := pow_dvd_pow 10 (excessDigits_le ha hn)
    rw [hn] at hdvd ⊢
    exact hdvd.mul_left a

instance (n : Nat) : Decidable (SixDigits n) := decidable_of_iff (rounded n = n) (rounded_eq_iff n)

/-- Scaling by a power of ten changes no digit. -/
theorem sixDigits_mul_pow {n : Nat} (k : Nat) : SixDigits (n * 10 ^ k) ↔ SixDigits n := by
  constructor
  · rintro ⟨a, e, ha, h⟩
    rcases Nat.le_total k e with hk | hk
    · obtain ⟨j, rfl⟩ := Nat.exists_eq_add_of_le hk
      refine ⟨a, j, ha, ?_⟩
      have hpos : 0 < 10 ^ k := Nat.pow_pos (by decide)
      rw [pow_add, Nat.mul_left_comm, Nat.mul_comm n] at h
      exact Nat.eq_of_mul_eq_mul_left hpos h
    · obtain ⟨j, rfl⟩ := Nat.exists_eq_add_of_le hk
      have hpos : 0 < 10 ^ e := Nat.pow_pos (by decide)
      rw [pow_add, ← Nat.mul_assoc, Nat.mul_right_comm] at h
      have ha' : n * 10 ^ j = a := Nat.eq_of_mul_eq_mul_right hpos h
      have hle : n ≤ n * 10 ^ j := Nat.le_mul_of_pos_right n (Nat.pow_pos (by decide))
      exact ⟨n, 0, by omega, by simp⟩
  · rintro ⟨a, e, ha, rfl⟩
    exact ⟨a, e + k, ha, by rw [pow_add, Nat.mul_assoc]⟩

/-! ## What is printed -/

theorem isDigit_of_mem_decimal {n : Nat} {c : UInt8} (h : c ∈ decimal n) : Json.isDigit c = true :=
  (digits_decimal n).2 c h

theorem isFrac_pointText {ds : Bytes} (h : ∀ c ∈ ds, Json.isDigit c = true) :
    Json.IsFrac (pointText (Json.stripZeros ds)) := by
  unfold pointText
  split
  · exact .absent
  · next hne => exact .present ⟨hne, fun c hc => h c (Json.mem_of_mem_stripZeros hc)⟩

theorem fracValue_pointText (ds : Bytes) :
    Json.fracValue (pointText (Json.stripZeros ds)) = Json.fraction ds := by
  rw [← Json.fraction_stripZeros ds]
  unfold pointText
  split
  · next h => rw [h]; rfl
  · rfl

theorem isDigit_threeDigits (n : Nat) : ∀ c ∈ threeDigits n, Json.isDigit c = true := by
  simp only [threeDigits, List.forall_mem_cons]
  exact ⟨digitByte_isDigit _ (Nat.mod_lt _ (by decide)), digitByte_isDigit _ (Nat.mod_lt _ (by decide)),
    digitByte_isDigit _ (Nat.mod_lt _ (by decide)), List.forall_mem_nil _⟩

theorem digitsValue_threeDigits {n : Nat} (h : n < 1000) : Json.digitsValue (threeDigits n) = n := by
  have hvalue : Json.digitsValue (threeDigits n) =
      10 * (10 * (10 * 0 + (n / 100 % 10)) + n / 10 % 10) + n % 10 := by
    simp only [Json.digitsValue, threeDigits, List.foldl_cons, List.foldl_nil,
      toNat_digitByte _ (Nat.mod_lt _ (show 10 > 0 by decide))]
  omega

theorem digits_exponentDigits (n : Nat) : Json.Digits (exponentDigits n) := by
  unfold exponentDigits
  split
  · next h =>
      refine ⟨List.cons_ne_nil _ _, ?_⟩
      simp only [List.forall_mem_cons]
      exact ⟨by decide, digitByte_isDigit n h, List.forall_mem_nil _⟩
  · exact digits_decimal n

theorem digitsValue_exponentDigits (n : Nat) : Json.digitsValue (exponentDigits n) = n := by
  unfold exponentDigits
  split
  · next h => simp [Json.digitsValue, toNat_digitByte n h]
  · exact digitsValue_decimal n

/-- Small values: `v` thousandths, written out. -/
theorem spells_fixed (v : Nat) :
    Json.Spells (decimal (v / 1000) ++ pointText (Json.stripZeros (threeDigits (v % 1000))))
      (v / 1000) := by
  refine ⟨decimal (v / 1000), pointText (Json.stripZeros (threeDigits (v % 1000))), [], by simp,
    digits_decimal _, decimal_leading, isFrac_pointText (isDigit_threeDigits _), .absent, ?_⟩
  have hv : (v : ℚ) = 1000 * (v / 1000 : ℕ) + (v % 1000 : ℕ) := by
    exact_mod_cast (Nat.div_add_mod v 1000).symm
  have hlen : (threeDigits (v % 1000)).length = 3 := rfl
  have hexp : Json.expValue [] = 0 := rfl
  rw [digitsValue_decimal, fracValue_pointText, Json.fraction,
    digitsValue_threeDigits (Nat.mod_lt v (by decide)), hlen, hexp, zpow_zero, mul_one]
  nth_rewrite 1 [hv]
  ring

/-- Large values: one digit, a fraction and an exponent. -/
theorem spells_scientific {v : Nat} (hv : 3 < (decimal v).length) :
    Json.Spells ((decimal v).take 1 ++ (pointText (Json.stripZeros ((decimal v).drop 1)) ++
      (str "e+" ++ exponentDigits ((decimal v).length - 4)))) (v / 1000) := by
  obtain ⟨d, rest, hdigits⟩ := List.exists_cons_of_ne_nil (digits_decimal v).1
  have hmem : ∀ c ∈ d :: rest, Json.isDigit c = true := fun c hc =>
    isDigit_of_mem_decimal (by rwa [hdigits])
  have hvalue : v = Json.digitsValue [d] * 10 ^ rest.length + Json.digitsValue rest := by
    rw [← Json.digitsValue_append, List.singleton_append, ← hdigits, digitsValue_decimal]
  rw [hdigits, List.length_cons] at hv ⊢
  obtain ⟨j, hj⟩ := Nat.exists_eq_add_of_le (show 3 ≤ rest.length by omega)
  rw [show rest.length + 1 - 4 = j by omega]
  refine ⟨[d], pointText (Json.stripZeros rest), str "e+" ++ exponentDigits j, rfl,
    ⟨List.cons_ne_nil _ _, List.forall_mem_singleton.2 (hmem d (List.mem_cons_self ..))⟩,
    fun h => by rw [Option.some.inj h], isFrac_pointText (fun c hc => hmem c (List.mem_cons_of_mem d hc)),
    .present (.inl rfl) (.inr (.inl rfl)) (digits_exponentDigits j), ?_⟩
  have hexp : Json.expValue (str "e+" ++ exponentDigits j) = (j : ℤ) := by
    simp [Json.expValue, str, digitsValue_exponentDigits]
  have hpow : (10 : ℚ) ^ j ≠ 0 := pow_ne_zero _ (by norm_num)
  -- The exponent undoes the point, up to the thousandths.
  rw [fracValue_pointText, Json.fraction, hexp, zpow_natCast, hvalue, hj, pow_add]
  push_cast
  field_simp
  ring

theorem spells_ostreamMicros (n : Nat) : Json.Spells (ostreamMicros n) (rounded n / 1000) := by
  unfold ostreamMicros
  dsimp only
  split
  · exact spells_fixed (rounded n)
  · next h =>
      refine spells_scientific ?_
      by_contra hlen
      have hpow : 10 ^ (decimal (rounded n)).length ≤ 10 ^ 3 :=
        Nat.pow_le_pow_right (by decide) (Nat.le_of_not_lt hlen)
      have hlt := lt_pow_length_decimal (rounded n)
      omega

/-- **The number that is printed** is the value rounded to six digits. -/
theorem numberValue_ostreamMicros (n : Nat) :
    Json.numberValue (ostreamMicros n) = some ((rounded n : ℚ) / 1000) :=
  (spells_ostreamMicros n).numberValue

end HsaSnoop
