import Mathlib.Algebra.Order.Ring.Nat

set_option autoImplicit false

/-! # Rounding to nearest

Natural numbers rounded to `p` significant bits, ties to even. A number that needs no more bits is a
bound that rounding respects: what is above it stays above it (`le_nearest`). -/

namespace Rounding

/-- The nearest number with `p` significant bits; of two, the even one. -/
def nearest (p n : ℕ) : ℕ :=
  let ulp := 2 ^ (n.log2 - (p - 1))
  let below := n / ulp
  let rest := n % ulp
  if 2 * rest < ulp ∨ (2 * rest = ulp ∧ below % 2 = 0) then below * ulp else (below + 1) * ulp

/-- Numbers with `p` significant bits, and the powers of two. -/
def Fits (p r : ℕ) : Prop := ∃ m e, m ≤ 2 ^ p ∧ r = m * 2 ^ e

theorem fits_zero (p : ℕ) : Fits p 0 := ⟨0, 0, Nat.zero_le _, rfl⟩

theorem nearest_cases (p n : ℕ) :
    nearest p n = n / 2 ^ (n.log2 - (p - 1)) * 2 ^ (n.log2 - (p - 1)) ∨
      nearest p n = (n / 2 ^ (n.log2 - (p - 1)) + 1) * 2 ^ (n.log2 - (p - 1)) := by
  unfold nearest
  extract_lets
  split
  · exact .inl rfl
  · exact .inr rfl

theorem fits_nearest {p : ℕ} (hp : 0 < p) (n : ℕ) : Fits p (nearest p n) := by
  have hbelow : n / 2 ^ (n.log2 - (p - 1)) < 2 ^ p := by
    rw [Nat.div_lt_iff_lt_mul (Nat.two_pow_pos _), ← Nat.pow_add]
    exact Nat.lt_of_lt_of_le Nat.lt_log2_self (Nat.pow_le_pow_right (by decide) (by omega))
  rcases nearest_cases p n with h | h
  · exact ⟨_, _, hbelow.le, h⟩
  · exact ⟨_, _, hbelow, h⟩

/-- **Rounding does not pass below a number that fits.** -/
theorem le_nearest {p r n : ℕ} (hp : 0 < p) (hr : Fits p r) (h : r ≤ n) : r ≤ nearest p n := by
  obtain ⟨m, e, hm, rfl⟩ := hr
  have hdown : m * 2 ^ e ≤ n / 2 ^ (n.log2 - (p - 1)) * 2 ^ (n.log2 - (p - 1)) := by
    by_cases he : n.log2 - (p - 1) ≤ e
    · -- The number is a multiple of the unit in the last place.
      obtain ⟨d, rfl⟩ := Nat.exists_eq_add_of_le he
      rw [Nat.pow_add, Nat.mul_comm (2 ^ _) (2 ^ d), ← Nat.mul_assoc] at h ⊢
      exact Nat.mul_le_mul_right _ ((Nat.le_div_iff_mul_le (Nat.two_pow_pos _)).2 h)
    · -- It is at most the leading bit of `n`, which is kept.
      have hn : n ≠ 0 := by
        rintro rfl
        exact he (by simp)
      have hlead : 2 ^ p * 2 ^ e ≤ 2 ^ n.log2 := by
        rw [← Nat.pow_add]
        exact Nat.pow_le_pow_right (by decide) (by omega)
      have hkept : 2 ^ (p - 1) ≤ n / 2 ^ (n.log2 - (p - 1)) := by
        rw [Nat.le_div_iff_mul_le (Nat.two_pow_pos _), ← Nat.pow_add]
        exact Nat.le_trans (Nat.pow_le_pow_right (by decide) (by omega)) (Nat.log2_self_le hn)
      calc m * 2 ^ e ≤ 2 ^ p * 2 ^ e := Nat.mul_le_mul_right _ hm
        _ ≤ 2 ^ n.log2 := hlead
        _ = 2 ^ (p - 1) * 2 ^ (n.log2 - (p - 1)) := by
            rw [← Nat.pow_add]
            congr 1
            omega
        _ ≤ _ := Nat.mul_le_mul_right _ hkept
  rcases nearest_cases p n with hcase | hcase
  · rw [hcase]
    exact hdown
  · rw [hcase]
    exact Nat.le_trans hdown (Nat.mul_le_mul_right _ (Nat.le_succ _))

/-! ## The order -/

/-- Rounding to a multiple of a unit; of two, the even one. -/
def nearestMultiple (u n : ℕ) : ℕ :=
  if 2 * (n % u) < u ∨ (2 * (n % u) = u ∧ n / u % 2 = 0) then n / u * u else (n / u + 1) * u

theorem nearest_eq_nearestMultiple (p n : ℕ) : nearest p n = nearestMultiple (2 ^ (n.log2 - (p - 1))) n := rfl

theorem nearestMultiple_mem (u n : ℕ) :
    n / u * u ≤ nearestMultiple u n ∧ nearestMultiple u n ≤ (n / u + 1) * u := by
  have hle : n / u * u ≤ (n / u + 1) * u := Nat.mul_le_mul_right u (Nat.le_succ _)
  unfold nearestMultiple
  split
  · exact ⟨Nat.le_refl _, hle⟩
  · exact ⟨hle, Nat.le_refl _⟩

theorem nearestMultiple_of_dvd {u n : ℕ} (hu : 0 < u) (h : u ∣ n) : nearestMultiple u n = n := by
  have hrest := Nat.mod_eq_zero_of_dvd h
  rw [nearestMultiple, if_pos (.inl (by omega)), Nat.div_mul_cancel h]

theorem nearestMultiple_mono (u : ℕ) {m n : ℕ} (h : m ≤ n) : nearestMultiple u m ≤ nearestMultiple u n := by
  rcases Nat.lt_or_eq_of_le (Nat.div_le_div_right h : m / u ≤ n / u) with hlt | heq
  · calc nearestMultiple u m ≤ (m / u + 1) * u := (nearestMultiple_mem u m).2
      _ ≤ n / u * u := Nat.mul_le_mul_right u hlt
      _ ≤ _ := (nearestMultiple_mem u n).1
  · by_cases hdown : 2 * (m % u) < u ∨ (2 * (m % u) = u ∧ m / u % 2 = 0)
    · rw [nearestMultiple, if_pos hdown, heq]
      exact (nearestMultiple_mem u n).1
    · -- Between the same multiples, what is further up is rounded up too.
      have hrest : m % u ≤ n % u := by
        have hm := Nat.div_add_mod m u
        have hn := Nat.div_add_mod n u
        rw [← heq] at hn
        omega
      have hup : ¬ (2 * (n % u) < u ∨ (2 * (n % u) = u ∧ n / u % 2 = 0)) := by
        rw [← heq]
        omega
      rw [nearestMultiple, nearestMultiple, if_neg hdown, if_neg hup, heq]

/-- A number that fits stays as it is. -/
theorem nearest_of_fits {p r : ℕ} (hp : 0 < p) (hr : Fits p r) : nearest p r = r := by
  obtain ⟨m, e, hm, rfl⟩ := hr
  rw [nearest_eq_nearestMultiple]
  refine nearestMultiple_of_dvd (Nat.two_pow_pos _) ?_
  by_cases hzero : m * 2 ^ e = 0
  · rw [hzero]
    exact Nat.dvd_zero _
  · rcases Nat.lt_or_eq_of_le hm with hlt | rfl
    · have hlog : (m * 2 ^ e).log2 < p + e := by
        rw [Nat.log2_lt hzero, Nat.pow_add]
        exact Nat.mul_lt_mul_of_pos_right hlt (Nat.two_pow_pos e)
      exact Nat.dvd_trans (Nat.pow_dvd_pow 2 (by omega)) (Nat.dvd_mul_left _ m)
    · rw [← Nat.pow_add, Nat.log2_two_pow]
      exact Nat.pow_dvd_pow 2 (by omega)

theorem nearest_le_two_pow {p : ℕ} (hp : 0 < p) (n : ℕ) : nearest p n ≤ 2 ^ (n.log2 + 1) := by
  by_cases hlog : p - 1 ≤ n.log2
  · have hbelow : n / 2 ^ (n.log2 - (p - 1)) < 2 ^ p := by
      rw [Nat.div_lt_iff_lt_mul (Nat.two_pow_pos _), ← Nat.pow_add]
      exact Nat.lt_of_lt_of_le Nat.lt_log2_self (Nat.pow_le_pow_right (by decide) (by omega))
    calc nearest p n ≤ (n / 2 ^ (n.log2 - (p - 1)) + 1) * 2 ^ (n.log2 - (p - 1)) :=
          (nearestMultiple_mem _ n).2
      _ ≤ 2 ^ p * 2 ^ (n.log2 - (p - 1)) := Nat.mul_le_mul_right _ hbelow
      _ = 2 ^ (n.log2 + 1) := by
          rw [← Nat.pow_add]
          congr 1
          omega
  · -- So few bits are all kept.
    rw [nearest_eq_nearestMultiple, show n.log2 - (p - 1) = 0 by omega, Nat.pow_zero,
      nearestMultiple_of_dvd Nat.one_pos (Nat.one_dvd n)]
    exact Nat.lt_log2_self.le

/-- **Rounding keeps the order.** -/
theorem nearest_mono {p m n : ℕ} (hp : 0 < p) (h : m ≤ n) : nearest p m ≤ nearest p n := by
  by_cases hm : m = 0
  · rw [hm, nearest_of_fits hp (fits_zero p)]
    exact Nat.zero_le _
  · have hn : n ≠ 0 := by omega
    have hlog : m.log2 ≤ n.log2 := (Nat.le_log2 hn).2 (Nat.le_trans (Nat.log2_self_le hm) h)
    rcases Nat.lt_or_eq_of_le hlog with hlt | heq
    · -- A power of two lies in between.
      calc nearest p m ≤ 2 ^ (m.log2 + 1) := nearest_le_two_pow hp m
        _ ≤ 2 ^ n.log2 := Nat.pow_le_pow_right (by decide) hlt
        _ ≤ nearest p n := le_nearest hp ⟨1, n.log2, Nat.one_le_two_pow, (Nat.one_mul _).symm⟩
            (Nat.log2_self_le hn)
    · rw [nearest_eq_nearestMultiple, nearest_eq_nearestMultiple, heq]
      exact nearestMultiple_mono _ h

end Rounding
