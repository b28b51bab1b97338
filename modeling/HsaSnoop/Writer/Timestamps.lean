import HsaSnoop.Library.Calendar
import HsaSnoop.Library.FixedFields
import HsaSnoop.Library.Rounding
import HsaSnoop.Writer.DispatchLog
import Mathlib.Tactic.LinearCombination

set_option autoImplicit false

/-! # Timestamps of the dispatch log

`AppendTimestamp` turns a number of seconds, a double, into a date with microseconds. A point of the
monotonic clock has become a double twice before it gets there, once when it was read and once when the
offset to the wall clock was added, and the microseconds are split off in doubles too.

All of these steps keep the order (`shownMicros_mono`), and what is shown is off by at most a microsecond
(`shownMicros_close`). -/

namespace HsaSnoop

open Calendar

/-! ## Doubles

A finite double is a multiple of the least positive one, `2^-1074`, and is kept as that multiple. -/

/-- One. -/
def kOne : Nat := 2 ^ 1074

/-- What the result of an operation is rounded to. -/
def roundDouble (z : Int) : Int := z.sign * Rounding.nearest 53 z.natAbs

/-- The constant `1e-9`. -/
def kNano : Nat := 0x112E0BE826D695 * 2 ^ 992

/-- `ts.tv_sec + ts.tv_nsec * 1e-9`. -/
def clockSeconds (tvSec tvNsec : Nat) : Int :=
  roundDouble ((tvSec * kOne : Nat) + roundDouble (tvNsec * kNano : Nat))

/-- `MonoToUnix`. -/
def monoToUnix (monoToUnixOffset monoSec : Int) : Int := roundDouble (monoSec + monoToUnixOffset)

/-! ## AppendTimestamp -/

/-- What `gmtime_r` fills in, of what is printed. -/
structure Tm where
  date : Date
  hour : Nat
  min : Nat
  sec : Nat

def gmtime (secs : Int) : Tm where
  date := ofDay (secs / 86400)
  hour := (secs % 86400).toNat / 3600
  min := (secs % 86400).toNat / 60 % 60
  sec := (secs % 86400).toNat % 60

/-- `%0<w>d` of a number that is not negative. -/
def zeroPadded (w n : Nat) : Bytes := List.replicate (w - (decimal n).length) 48 ++ decimal n

/-- `strftime`, for `"%Y-%m-%dT%H:%M:%S"`. -/
def strftime (tm : Tm) : Bytes :=
  signedDecimal tm.date.year ++ str "-" ++ zeroPadded 2 tm.date.month ++ str "-" ++
    zeroPadded 2 tm.date.day ++ str "T" ++ zeroPadded 2 tm.hour ++ str ":" ++ zeroPadded 2 tm.min ++
    str ":" ++ zeroPadded 2 tm.sec

/-- The whole seconds, towards zero. -/
def wholeSeconds (unixSec : Int) : Int := unixSec.tdiv kOne

/-- The microseconds, kept within a second. -/
def microseconds (unixSec : Int) : Nat :=
  let secs := wholeSeconds unixSec
  let rest := roundDouble (unixSec - roundDouble (secs * kOne))
  let usec := (roundDouble (rest * 1000000)).tdiv kOne
  let usec := if usec < 0 then 0 else usec
  let usec := if usec > 999999 then 999999 else usec
  usec.toNat

/-- What `AppendTimestamp` appends. -/
def timestampText (unixSec : Int) : Bytes :=
  let buf := strftime (gmtime (wholeSeconds unixSec))
  buf ++ snprintf (64 - buf.length) (str "." ++ zeroPadded 6 (microseconds unixSec) ++ str "Z")

/-! ## Rounding -/

theorem roundDouble_natCast (n : Nat) : roundDouble n = Rounding.nearest 53 n := by
  rcases Nat.eq_zero_or_pos n with rfl | hn
  · rfl
  · rw [roundDouble, Int.natAbs_natCast, Int.sign_eq_one_of_pos (by omega), Int.one_mul]

theorem roundDouble_neg (z : Int) : roundDouble (-z) = -roundDouble z := by
  rw [roundDouble, roundDouble, Int.sign_neg, Int.natAbs_neg, Int.neg_mul]

theorem roundDouble_nonneg {z : Int} (h : 0 ≤ z) : 0 ≤ roundDouble z := by
  obtain ⟨n, rfl⟩ := Int.eq_ofNat_of_zero_le h
  rw [roundDouble_natCast]
  exact Int.natCast_nonneg _

theorem roundDouble_mono {z z' : Int} (h : z ≤ z') : roundDouble z ≤ roundDouble z' := by
  rcases Int.le_total 0 z with hz | hz
  · obtain ⟨n, rfl⟩ := Int.eq_ofNat_of_zero_le hz
    obtain ⟨n', rfl⟩ := Int.eq_ofNat_of_zero_le (Int.le_trans hz h)
    rw [roundDouble_natCast, roundDouble_natCast]
    exact Int.ofNat_le.2 (Rounding.nearest_mono (by decide) (Int.ofNat_le.1 h))
  · rcases Int.le_total 0 z' with hz' | hz'
    · have hneg := roundDouble_nonneg (show 0 ≤ -z by omega)
      rw [roundDouble_neg] at hneg
      have hpos := roundDouble_nonneg hz'
      omega
    · obtain ⟨n, hn⟩ := Int.eq_ofNat_of_zero_le (show 0 ≤ -z by omega)
      obtain ⟨n', hn'⟩ := Int.eq_ofNat_of_zero_le (show 0 ≤ -z' by omega)
      have hmono : Rounding.nearest 53 n' ≤ Rounding.nearest 53 n :=
        Rounding.nearest_mono (by decide) (by omega)
      rw [← Int.neg_neg z, ← Int.neg_neg z', hn, hn', roundDouble_neg, roundDouble_neg,
        roundDouble_natCast, roundDouble_natCast]
      omega

/-- A double. -/
def IsDouble (z : Int) : Prop := Rounding.Fits 53 z.natAbs

theorem isDouble_roundDouble (z : Int) : IsDouble (roundDouble z) := by
  rcases lt_trichotomy z 0 with hz | rfl | hz
  · rw [IsDouble, roundDouble, Int.sign_eq_neg_one_of_neg hz, Int.neg_one_mul, Int.natAbs_neg,
      Int.natAbs_natCast]
    exact Rounding.fits_nearest (by decide) _
  · exact Rounding.fits_zero 53
  · rw [IsDouble, roundDouble, Int.sign_eq_one_of_pos hz, Int.one_mul, Int.natAbs_natCast]
    exact Rounding.fits_nearest (by decide) _

theorem roundDouble_of_isDouble {z : Int} (h : IsDouble z) : roundDouble z = z := by
  rw [roundDouble, Rounding.nearest_of_fits (by decide) h]
  exact Int.sign_mul_natAbs z

/-! ## Splitting off the microseconds -/

theorem kOne_pos : 0 < kOne := Nat.two_pow_pos 1074

/-- Whole numbers are doubles. -/
theorem fits_mul_kOne {k : Nat} (h : k ≤ 2 ^ 53) : Rounding.Fits 53 (k * kOne) := ⟨k, 1074, h, rfl⟩

/-- Below one, nothing is lost. -/
theorem fits_mod_kOne {n : Nat} (h : Rounding.Fits 53 n) : Rounding.Fits 53 (n % kOne) := by
  obtain ⟨m, e, hm, rfl⟩ := h
  by_cases he : 1074 ≤ e
  · have hdvd : kOne ∣ m * 2 ^ e := Nat.dvd_trans (Nat.pow_dvd_pow 2 he) (Nat.dvd_mul_left _ m)
    rw [Nat.mod_eq_zero_of_dvd hdvd]
    exact Rounding.fits_zero 53
  · have hsplit : kOne = 2 ^ (1074 - e) * 2 ^ e := by
      rw [kOne, ← Nat.pow_add, Nat.sub_add_cancel (by omega)]
    rw [hsplit, Nat.mul_mod_mul_right]
    exact ⟨m % 2 ^ (1074 - e), e, Nat.le_trans (Nat.mod_le _ _) hm, rfl⟩

/-- How far seconds are whole numbers that a double can count. -/
def kExactSeconds : Nat := 2 ^ 53

theorem wholeSeconds_natCast (n : Nat) : wholeSeconds n = (n / kOne : Nat) := by
  rw [wholeSeconds, Int.tdiv_eq_ediv_of_nonneg (Int.natCast_nonneg n), Int.natCast_ediv]

/-- The two comparisons, for what is not negative. -/
theorem clamp_natCast (k : Nat) :
    (if (if (k : Int) < 0 then (0 : Int) else k) > 999999 then (999999 : Int)
      else (if (k : Int) < 0 then (0 : Int) else k)).toNat = min 999999 k := by
  split_ifs <;> omega

/-- The microseconds of a double, in natural numbers. -/
theorem microseconds_natCast {n : Nat} (h : Rounding.Fits 53 n) (hlt : n < kExactSeconds * kOne) :
    microseconds n = min 999999 (Rounding.nearest 53 (n % kOne * 1000000) / kOne) := by
  have hsecs : n / kOne ≤ 2 ^ 53 := ((Nat.div_lt_iff_lt_mul kOne_pos).2 hlt).le
  have hwhole : roundDouble (wholeSeconds n * kOne) = (n / kOne * kOne : Nat) := by
    rw [wholeSeconds_natCast, ← Int.natCast_mul, roundDouble_natCast,
      Rounding.nearest_of_fits (by decide) (fits_mul_kOne hsecs)]
  have hrest : (n : Int) - (n / kOne * kOne : Nat) = (n % kOne : Nat) := by
    have hdiv := Nat.div_add_mod' n kOne
    generalize n / kOne * kOne = whole at *
    omega
  have hround : roundDouble (n % kOne : Nat) = (n % kOne : Nat) := by
    rw [roundDouble_natCast, Rounding.nearest_of_fits (by decide) (fits_mod_kOne h)]
  have husec : (roundDouble ((n % kOne : Nat) * 1000000)).tdiv kOne =
      (Rounding.nearest 53 (n % kOne * 1000000) / kOne : Nat) := by
    rw [show ((n % kOne : Nat) : Int) * 1000000 = (n % kOne * 1000000 : Nat) by push_cast; rfl,
      roundDouble_natCast, Int.tdiv_eq_ediv_of_nonneg (Int.natCast_nonneg _), Int.natCast_ediv]
  unfold microseconds
  simp only [hwhole, hrest, hround, husec]
  exact clamp_natCast _

/-- The microseconds that a text shows. -/
def shownMicros (unixSec : Int) : Int := wholeSeconds unixSec * 1000000 + microseconds unixSec

theorem microseconds_lt {n : Nat} (h : Rounding.Fits 53 n) (hlt : n < kExactSeconds * kOne) :
    microseconds n < 1000000 := by
  rw [microseconds_natCast h hlt]
  exact Nat.lt_of_le_of_lt (Nat.min_le_left _ _) (by decide)

/-- **Later points are shown later, or the same.** -/
theorem shownMicros_mono {m n : Nat} (hm : Rounding.Fits 53 m) (hn : Rounding.Fits 53 n)
    (hlt : n < kExactSeconds * kOne) (h : m ≤ n) : shownMicros m ≤ shownMicros n := by
  have hsecs : m / kOne ≤ n / kOne := Nat.div_le_div_right h
  have hmlt := microseconds_lt hm (Nat.lt_of_le_of_lt h hlt)
  rw [shownMicros, shownMicros, wholeSeconds_natCast, wholeSeconds_natCast]
  rcases Nat.lt_or_eq_of_le hsecs with hlater | hsame
  · generalize m / kOne = secs at *
    generalize n / kOne = secs' at *
    omega
  · -- Within a second.
    have hrest : m % kOne ≤ n % kOne := by
      have hdivM := Nat.div_add_mod' m kOne
      have hdivN := Nat.div_add_mod' n kOne
      rw [← hsame] at hdivN
      generalize m / kOne * kOne = whole at *
      omega
    have hround : Rounding.nearest 53 (m % kOne * 1000000) / kOne ≤
        Rounding.nearest 53 (n % kOne * 1000000) / kOne :=
      Nat.div_le_div_right (Rounding.nearest_mono (by decide) (Nat.mul_le_mul_right _ hrest))
    rw [microseconds_natCast hm (Nat.lt_of_le_of_lt h hlt), microseconds_natCast hn hlt, hsame]
    exact Int.add_le_add_left (Int.ofNat_le.2 (min_le_min_left _ hround)) _

/-- Rounding does not leave the whole numbers around a number. -/
theorem nearest_div_kOne {x : Nat} (h : x / kOne < kExactSeconds) :
    x / kOne ≤ Rounding.nearest 53 x / kOne ∧ Rounding.nearest 53 x / kOne ≤ x / kOne + 1 := by
  constructor
  · rw [Nat.le_div_iff_mul_le kOne_pos]
    exact Rounding.le_nearest (by decide) (fits_mul_kOne h.le) (Nat.div_mul_le_self _ _)
  · have hle : x ≤ (x / kOne + 1) * kOne := by
      calc x = x / kOne * kOne + x % kOne := (Nat.div_add_mod' x kOne).symm
        _ ≤ x / kOne * kOne + kOne := Nat.add_le_add_left (Nat.mod_lt x kOne_pos).le _
        _ = (x / kOne + 1) * kOne := (Nat.succ_mul _ _).symm
    have hnearest := @Rounding.nearest_mono 53 _ _ (by decide) hle
    rw [Rounding.nearest_of_fits (by decide) (fits_mul_kOne h)] at hnearest
    exact Nat.div_le_of_le_mul (by rwa [Nat.mul_comm])

/-- A number between two multiples of one, and the multiples that are shown for it. -/
theorem micros_close {one secs rest usec k part n : Nat} (hn : secs * one + rest = n)
    (hrest : k * one + part = rest * 1000000) (hpart : part < one) (husec : usec = k ∨ usec = k + 1) :
    |((secs : Int) * 1000000 + usec) * one - n * 1000000| ≤ one := by
  have hn' : (secs : Int) * one + rest = n := by exact_mod_cast hn
  have hrest' : (k : Int) * one + part = rest * 1000000 := by exact_mod_cast hrest
  rcases husec with rfl | rfl
  · have hshown : ((secs : Int) * 1000000 + usec) * one - n * 1000000 = -part := by
      linear_combination 1000000 * hn' + hrest'
    rw [hshown, abs_neg, Nat.abs_cast]
    exact Int.ofNat_le.2 hpart.le
  · have hshown : ((secs : Int) * 1000000 + (k + 1 : Nat)) * one - n * 1000000 = one - part := by
      push_cast
      linear_combination 1000000 * hn' + hrest'
    rw [hshown, abs_of_nonneg (by omega)]
    omega

/-- **What is shown is off by a microsecond at most.** -/
theorem shownMicros_close {n : Nat} (h : Rounding.Fits 53 n) (hlt : n < kExactSeconds * kOne) :
    |shownMicros n * kOne - n * 1000000| ≤ kOne := by
  have hk : n % kOne * 1000000 / kOne < 1000000 := by
    rw [Nat.div_lt_iff_lt_mul kOne_pos, Nat.mul_comm 1000000]
    exact Nat.mul_lt_mul_of_pos_right (Nat.mod_lt n kOne_pos) (by decide)
  obtain ⟨hlow, hhigh⟩ := nearest_div_kOne (Nat.lt_trans hk (by decide))
  have husec : microseconds n = n % kOne * 1000000 / kOne ∨
      microseconds n = n % kOne * 1000000 / kOne + 1 := by
    rw [microseconds_natCast h hlt]
    generalize Rounding.nearest 53 (n % kOne * 1000000) / kOne = usec at *
    generalize n % kOne * 1000000 / kOne = k at *
    omega
  rw [shownMicros, wholeSeconds_natCast]
  exact micros_close (Nat.div_add_mod' n kOne) (Nat.div_add_mod' (n % kOne * 1000000) kOne)
    (Nat.mod_lt _ kOne_pos) husec

/-! ## The text -/

/-- `YYYY-MM-DDThh:mm:ss.ffffffZ`. -/
def stampShape : FixedFields.Shape := [(4, 45), (2, 45), (2, 84), (2, 58), (2, 58), (2, 46), (6, 90)]

/-- The numbers in a timestamp. -/
def stampFields (secs : Int) (usec : Nat) : List Nat :=
  let tm := gmtime secs
  [tm.date.year.toNat, tm.date.month, tm.date.day, tm.hour, tm.min, tm.sec, usec]

/-- The first second that needs five digits for its year. -/
def kYear10000 : Int := 253402300800

theorem year_of_secs {secs : Int} (hfrom : 0 ≤ secs) (hto : secs < kYear10000) :
    1970 ≤ (ofDay (secs / 86400)).year ∧ (ofDay (secs / 86400)).year < 10000 := by
  have hfirst : ofDay 0 = ⟨1970, 1, 1, by decide, by decide, by decide, by decide⟩ := by decide +kernel
  have hlast : ofDay 2932897 = ⟨10000, 1, 1, by decide, by decide, by decide, by decide⟩ := by
    decide +kernel
  have hbefore := (ofDay_lt_iff (secs / 86400) 0).not.2 (by omega)
  have hafter := (ofDay_lt_iff (secs / 86400) 2932897).2 (by rw [kYear10000] at hto; omega)
  have hmonth := (ofDay (secs / 86400)).month_pos
  have hday := (ofDay (secs / 86400)).day_pos
  rw [hfirst] at hbefore
  rw [hlast] at hafter
  unfold Date.Before at hbefore hafter
  simp only at hbefore hafter
  omega

theorem day_le_31 (d : Date) : d.day ≤ 31 := by
  have hmonths : ∀ leap : Bool, ∀ m < 12, monthLength leap m ≤ 31 := by decide
  have hmonth := d.month_le
  have hpos := d.month_pos
  exact Nat.le_trans d.day_le (hmonths _ _ (by omega))

theorem stampFields_fit {secs : Int} {usec : Nat} (hfrom : 0 ≤ secs) (hto : secs < kYear10000)
    (husec : usec < 1000000) : FixedFields.Fit stampShape (stampFields secs usec) := by
  have hyear := year_of_secs hfrom hto
  have hmonth := (ofDay (secs / 86400)).month_le
  have hday := day_le_31 (ofDay (secs / 86400))
  refine .cons ?_ (.cons ?_ (.cons ?_ (.cons ?_ (.cons ?_ (.cons ?_ (.cons ?_ .nil)))))) <;>
    simp only [gmtime] <;> omega

/-! ## Digits -/

theorem digitByte_mod_ten (n : Nat) : digitByte (n % 10) = FixedFields.digit n := by
  have hdigits : ∀ d < 10, digitByte d = UInt8.ofNat (48 + d) := by decide
  exact hdigits _ (Nat.mod_lt _ (by decide))

/-- `%0<w>d` of a number that fits. -/
theorem zeroPadded_eq_padded {w n : Nat} (hw : 0 < w) (h : n < 10 ^ w) :
    zeroPadded w n = FixedFields.padded w n := by
  obtain ⟨w, rfl⟩ := Nat.exists_eq_succ_of_ne_zero (Nat.pos_iff_ne_zero.1 hw)
  induction w generalizing n with
  | zero =>
      rw [Nat.succ_eq_add_one, Nat.zero_add, Nat.pow_one] at h
      rw [zeroPadded, decimal_eq, digitBytes_of_lt h, FixedFields.padded, FixedFields.padded,
        ← digitByte_mod_ten, Nat.mod_eq_of_lt h]
      rfl
  | succ w ih =>
      rw [Nat.succ_eq_add_one, Nat.pow_succ] at h
      rw [FixedFields.padded, ← ih (Nat.succ_pos w) (by omega), ← digitByte_mod_ten, zeroPadded, zeroPadded,
        decimal_eq, decimal_eq]
      by_cases hn : n < 10
      · rw [digitBytes_of_lt hn, digitBytes_of_lt (show n / 10 < 10 by omega), Nat.div_eq_of_lt hn,
          Nat.mod_eq_of_lt hn]
        show List.replicate (w + 1) 48 ++ [digitByte n] = List.replicate w 48 ++ [48] ++ [digitByte n]
        rw [List.replicate_succ']
      · rw [digitBytes_of_le (by decide) (by omega), List.length_append, List.length_singleton,
          List.append_assoc]
        congr 2
        omega

/-- A year of four digits. -/
theorem decimal_eq_padded {n : Nat} (hlow : 1000 ≤ n) (hhigh : n < 10000) :
    decimal n = FixedFields.padded 4 n := by
  have hlen : 4 ≤ (decimal n).length := by
    by_contra hlen
    have hshort : (Nat.toDigits 10 n).length ≤ 3 := by
      rw [decimal_eq, digitBytes, str, List.length_map, String.toList_ofList] at hlen
      omega
    have hlt := (Nat.length_toDigits_le_iff (by decide) (by decide)).1 hshort
    omega
  rw [← zeroPadded_eq_padded (by decide) hhigh, zeroPadded, show 4 - (decimal n).length = 0 by omega]
  rfl

theorem strftime_gmtime {secs : Int} (hfrom : 0 ≤ secs) (hto : secs < kYear10000) (usec : Nat) :
    strftime (gmtime secs) ++ str "." ++ FixedFields.padded 6 usec ++ str "Z" =
      FixedFields.text stampShape (stampFields secs usec) := by
  obtain ⟨hyearLow, hyearHigh⟩ := year_of_secs hfrom hto
  have hmonth := (ofDay (secs / 86400)).month_le
  have hday := day_le_31 (ofDay (secs / 86400))
  have hyear : signedDecimal (gmtime secs).date.year =
      FixedFields.padded 4 (gmtime secs).date.year.toNat := by
    show signedDecimal (ofDay (secs / 86400)).year = FixedFields.padded 4 (ofDay (secs / 86400)).year.toNat
    rw [signedDecimal, if_neg (by omega), show (ofDay (secs / 86400)).year.natAbs =
      (ofDay (secs / 86400)).year.toNat by omega]
    exact decimal_eq_padded (by omega) (by omega)
  have htwo : ∀ {k : Nat}, k < 100 → zeroPadded 2 k = FixedFields.padded 2 k := fun hk =>
    zeroPadded_eq_padded (by decide) hk
  rw [strftime, hyear, htwo (k := (gmtime secs).date.month) (by simp only [gmtime]; omega),
    htwo (k := (gmtime secs).date.day) (by simp only [gmtime]; omega),
    htwo (k := (gmtime secs).hour) (by simp only [gmtime]; omega),
    htwo (k := (gmtime secs).min) (by simp only [gmtime]; omega),
    htwo (k := (gmtime secs).sec) (by simp only [gmtime]; omega)]
  simp [FixedFields.text, stampShape, stampFields, str]

/-- The whole seconds of a double before the year 10000 can all be counted. -/
theorem lt_exactSeconds {n : Nat} (h : ((n / kOne : Nat) : Int) < kYear10000) : n < kExactSeconds * kOne := by
  rw [← Nat.div_lt_iff_lt_mul kOne_pos]
  generalize n / kOne = secs at *
  rw [kYear10000] at h
  rw [kExactSeconds]
  omega

/-- **The text is that of its fields.** -/
theorem timestampText_eq {n : Nat} (h : Rounding.Fits 53 n) (hto : ((n / kOne : Nat) : Int) < kYear10000) :
    timestampText n =
      FixedFields.text stampShape (stampFields (n / kOne : Nat) (microseconds n)) := by
  have husec := microseconds_lt h (lt_exactSeconds hto)
  have hfields := strftime_gmtime (Int.natCast_nonneg (n / kOne)) hto (microseconds n)
  have hlen : (strftime (gmtime (n / kOne : Nat)) ++ str "." ++
      FixedFields.padded 6 (microseconds n) ++ str "Z").length = 27 := by
    rw [hfields]
    simp only [FixedFields.text, stampShape, stampFields, List.length_append, List.length_cons,
      List.length_nil, FixedFields.length_padded]
  rw [timestampText, wholeSeconds_natCast, zeroPadded_eq_padded (by decide) husec, ← hfields]
  simp only [List.length_append, FixedFields.length_padded, show (str ".").length = 1 by decide,
    show (str "Z").length = 1 by decide] at hlen
  rw [snprintf, List.take_of_length_le, List.append_assoc, List.append_assoc, List.append_assoc]
  simp only [List.length_append, FixedFields.length_padded, show (str ".").length = 1 by decide,
    show (str "Z").length = 1 by decide]
  omega

/-! ## The order of texts -/

theorem stampFields_lt_iff {secs secs' : Int} {usec usec' : Nat} (hfrom : 0 ≤ secs) (hto : secs < kYear10000)
    (hfrom' : 0 ≤ secs') (hto' : secs' < kYear10000) :
    stampFields secs usec < stampFields secs' usec' ↔ secs < secs' ∨ (secs = secs' ∧ usec < usec') := by
  have hyear := year_of_secs hfrom hto
  have hyear' := year_of_secs hfrom' hto'
  have hlt := ofDay_lt_iff (secs / 86400) (secs' / 86400)
  have hgt := ofDay_lt_iff (secs' / 86400) (secs / 86400)
  unfold Date.Before at hlt hgt
  simp only [stampFields, gmtime, List.cons_lt_cons_iff, List.lt_irrefl, and_false, or_false]
  rcases lt_trichotomy (secs / 86400) (secs' / 86400) with h | h | h
  · have hbefore := hlt.2 h
    exact iff_of_true (by omega) (by omega)
  · rw [h]
    omega
  · have hafter := hgt.2 h
    exact iff_of_false (by omega) (by omega)

/-! ## Reading -/

/-- The microseconds since 1970 that a timestamp means, if it is one. -/
def readTimestamp (s : Bytes) : Option Int :=
  match FixedFields.read stampShape s with
  | some [year, month, day, hour, min, sec, usec] =>
      if hour < 24 ∧ min < 60 ∧ sec < 60 then
        (Date.ofNumbers? year month day).map (fun date =>
          (date.dayNumber * 86400 + (hour * 3600 + min * 60 + sec : Nat)) * 1000000 + usec)
      else none
  | _ => none

theorem readTimestamp_text {secs : Int} {usec : Nat} (hfrom : 0 ≤ secs) (hto : secs < kYear10000)
    (husec : usec < 1000000) :
    readTimestamp (FixedFields.text stampShape (stampFields secs usec)) = some (secs * 1000000 + usec) := by
  have hyear := year_of_secs hfrom hto
  have hread := FixedFields.read_text (stampFields_fit hfrom hto husec)
  have hdate : Date.ofNumbers? ((gmtime secs).date.year.toNat : Int) (gmtime secs).date.month
      (gmtime secs).date.day = some (ofDay (secs / 86400)) := by
    rw [show ((gmtime secs).date.year.toNat : Int) = (ofDay (secs / 86400)).year by
      show ((ofDay (secs / 86400)).year.toNat : Int) = (ofDay (secs / 86400)).year
      omega]
    exact Date.ofNumbers?_self _
  have hclock : (gmtime secs).hour < 24 ∧ (gmtime secs).min < 60 ∧ (gmtime secs).sec < 60 := by
    simp only [gmtime]
    omega
  have hsecs : secs / 86400 * 86400 +
      ((gmtime secs).hour * 3600 + (gmtime secs).min * 60 + (gmtime secs).sec : Nat) = secs := by
    simp only [gmtime]
    omega
  unfold readTimestamp
  rw [hread, stampFields]
  simp only
  rw [if_pos hclock, hdate, Option.map_some, dayNumber_ofDay, hsecs]

theorem div_kOne_lt {n : Nat} {secs : Int} (h : (n : Int) < secs * kOne) : ((n / kOne : Nat) : Int) < secs := by
  have hpos : (0 : Int) < kOne := Int.natCast_pos.2 kOne_pos
  rw [Int.natCast_ediv]
  exact Int.ediv_lt_of_lt_mul hpos h

theorem readTimestamp_timestampText {n : Nat} (h : Rounding.Fits 53 n)
    (hto : ((n / kOne : Nat) : Int) < kYear10000) :
    readTimestamp (timestampText n) = some (shownMicros n) := by
  rw [timestampText_eq h hto, readTimestamp_text (Int.natCast_nonneg _) hto
    (microseconds_lt h (lt_exactSeconds hto)), shownMicros, wholeSeconds_natCast]

/-- **Later points have later texts, or the same.** -/
theorem timestampText_mono {m n : Nat} (hm : Rounding.Fits 53 m) (hn : Rounding.Fits 53 n)
    (hto : ((n / kOne : Nat) : Int) < kYear10000) (h : m ≤ n) : ¬ timestampText n < timestampText m := by
  have hsecs : ((m / kOne : Nat) : Int) ≤ (n / kOne : Nat) := Int.ofNat_le.2 (Nat.div_le_div_right h)
  have htom := Int.lt_of_le_of_lt hsecs hto
  have husec := microseconds_lt hm (lt_exactSeconds htom)
  have husec' := microseconds_lt hn (lt_exactSeconds hto)
  have hmono := shownMicros_mono hm hn (lt_exactSeconds hto) h
  rw [shownMicros, shownMicros, wholeSeconds_natCast, wholeSeconds_natCast] at hmono
  rw [timestampText_eq hm htom, timestampText_eq hn hto,
    FixedFields.text_lt_iff (stampFields_fit (Int.natCast_nonneg _) hto husec')
      (stampFields_fit (Int.natCast_nonneg _) htom husec),
    stampFields_lt_iff (Int.natCast_nonneg _) hto (Int.natCast_nonneg _) htom]
  generalize m / kOne = secs at *
  generalize n / kOne = secs' at *
  omega

/-! ## From the monotonic clock to the text -/

theorem mul_kNano_le {nsec : Nat} (h : nsec ≤ 999999999) : nsec * kNano ≤ kOne := by
  have hmantissa : nsec * 0x112E0BE826D695 ≤ 2 ^ 82 :=
    Nat.le_trans (Nat.mul_le_mul_right _ h) (by decide)
  calc nsec * kNano = nsec * 0x112E0BE826D695 * 2 ^ 992 := (Nat.mul_assoc _ _ _).symm
    _ ≤ 2 ^ 82 * 2 ^ 992 := Nat.mul_le_mul_right _ hmantissa
    _ = kOne := by rw [kOne, ← Nat.pow_add]

theorem roundDouble_kOne : roundDouble kOne = kOne := by
  have hone := @fits_mul_kOne 1 (by decide)
  rw [Nat.one_mul] at hone
  rw [roundDouble_natCast, Rounding.nearest_of_fits (by decide) hone]

/-- **The clock is read in order.** -/
theorem clockSeconds_mono {sec nsec sec' nsec' : Nat} (hnsec : nsec ≤ 999999999)
    (h : sec < sec' ∨ (sec = sec' ∧ nsec ≤ nsec')) : clockSeconds sec nsec ≤ clockSeconds sec' nsec' := by
  refine roundDouble_mono ?_
  rcases h with hlater | ⟨rfl, hle⟩
  · -- The nanoseconds make one second at most.
    have hone := roundDouble_mono (Int.ofNat_le.2 (mul_kNano_le hnsec))
    rw [roundDouble_kOne] at hone
    have hnonneg := roundDouble_nonneg (Int.natCast_nonneg (nsec' * kNano))
    have hnext : sec * kOne + kOne ≤ sec' * kOne := by
      rw [← Nat.succ_mul]
      exact Nat.mul_le_mul_right _ hlater
    generalize sec * kOne = whole at *
    generalize sec' * kOne = whole' at *
    omega
  · exact Int.add_le_add_left (roundDouble_mono (Int.ofNat_le.2 (Nat.mul_le_mul_right _ hle))) _

/-- The wall clock's seconds for a point of the monotonic clock, as the log reckons them. -/
def unixSec (monoToUnixOffset : Int) (t : Time) : Int :=
  monoToUnix monoToUnixOffset (clockSeconds (t / 1000000000) (t % 1000000000))

theorem unixSec_mono (monoToUnixOffset : Int) {t t' : Nat} (h : t ≤ t') :
    unixSec monoToUnixOffset t ≤ unixSec monoToUnixOffset t' := by
  have hsplit : t / 1000000000 < t' / 1000000000 ∨
      (t / 1000000000 = t' / 1000000000 ∧ t % 1000000000 ≤ t' % 1000000000) := by omega
  exact roundDouble_mono (Int.add_le_add_right (clockSeconds_mono (by omega) hsplit) _)

/-- A time that is not negative is a double in natural numbers. -/
theorem unixSec_eq_natCast {monoToUnixOffset : Int} {t : Time} (h : 0 ≤ unixSec monoToUnixOffset t) :
    ∃ n : Nat, unixSec monoToUnixOffset t = n ∧ Rounding.Fits 53 n := by
  obtain ⟨n, hn⟩ := Int.eq_ofNat_of_zero_le h
  have hdouble : IsDouble (unixSec monoToUnixOffset t) := isDouble_roundDouble _
  rw [hn] at hdouble
  exact ⟨n, hn, hdouble⟩

/-- What the log is given to print. -/
inductive LogItem
  | queue (q : QueueInfo) (kind : Bytes)
  | dispatch (r : PacketRecord) (c : LogCtx)
  | sdma (r : SdmaRecord) (c : LogCtx)

namespace LogItem

def line (env : LogText) : LogItem → Bytes
  | .queue q kind => logQueue env q kind
  | .dispatch r c => logDispatch env r c
  | .sdma r c => logSdma env r c

def time : LogItem → Time
  | .queue q _ => q.createTs
  | .dispatch r _ => r.submitTs
  | .sdma r _ => r.submitTs

/-- Names are C strings, and addresses have 64 bits. -/
def Plain : LogItem → Prop
  | .queue q kind => (0 : UInt8) ∉ q.comm ∧ (0 : UInt8) ∉ kind ∧ q.ringPhys < 2 ^ 64
  | .dispatch r c => (0 : UInt8) ∉ c.comm ∧ (0 : UInt8) ∉ r.kernelName
  | .sdma r c => (0 : UInt8) ∉ c.comm ∧ (0 : UInt8) ∉ r.opName

instance (x : LogItem) : Decidable x.Plain :=
  match x with
  | .queue _ _ => inferInstanceAs (Decidable (_ ∧ _ ∧ _))
  | .dispatch _ _ => inferInstanceAs (Decidable (_ ∧ _))
  | .sdma _ _ => inferInstanceAs (Decidable (_ ∧ _))

end LogItem

/-- The timestamp of a line, for what reads the log. -/
def stampOf (line : Bytes) : Option Bytes :=
  match Json.parse line with
  | some (.obj ms) =>
      match ms.lookup (str "ts") with
      | some (.str s) => some s
      | _ => none
  | _ => none

theorem noNul_timestampText (unixSec : Int) : (0 : UInt8) ∉ timestampText unixSec := by
  have hdigit : ∀ d < 16, (0 : UInt8) ≠ digitByte d := by decide
  have hpadded : ∀ w n, (0 : UInt8) ∉ zeroPadded w n := by
    intro w n h
    rcases List.mem_append.1 h with h | h
    · exact absurd (List.eq_of_mem_replicate h) (by decide)
    · exact notMem_decimal hdigit n h
  have hsigned := fun n => @notMem_signedDecimal 0 hdigit (by decide) n
  have htext : (0 : UInt8) ∉ str "." ++ zeroPadded 6 (microseconds unixSec) ++ str "Z" := by
    simp only [List.mem_append, not_or]
    exact ⟨⟨by decide, hpadded 6 _⟩, by decide⟩
  rw [timestampText]
  simp only [List.mem_append, not_or, strftime]
  refine ⟨?_, fun h => htext (List.mem_of_mem_take h)⟩
  exact ⟨⟨⟨⟨⟨⟨⟨⟨⟨⟨hsigned _, by decide⟩, hpadded 2 _⟩, by decide⟩, hpadded 2 _⟩, by decide⟩, hpadded 2 _⟩,
    by decide⟩, hpadded 2 _⟩, by decide⟩, hpadded 2 _⟩

/-- The texts of the times, with this offset to the wall clock. -/
def clockText (monoToUnixOffset : Int) (micros : Nat → Bytes) (hmicros : ∀ n, Json.IsNumber (micros n)) :
    LogText where
  date t := timestampText (unixSec monoToUnixOffset t)
  date_noNul _ := noNul_timestampText _
  micros := micros
  micros_number := hmicros

theorem stampOf_line (env : LogText) {x : LogItem} (h : x.Plain) :
    stampOf (x.line env) = some (env.date x.time) := by
  unfold stampOf
  cases x with
  | queue q kind =>
      rw [LogItem.line, (logQueue_object env h.1 h.2.1 h.2.2).parse]
      rfl
  | dispatch r c =>
      rw [LogItem.line, (logDispatch_object env h.1 h.2).parse]
      rfl
  | sdma r c =>
      rw [LogItem.line, (logSdma_object env h.1 h.2).parse]
      rfl

/-- **The log sorts by time.** Of two lines the later one never has the smaller timestamp, compared as text;
    and read as a date, each is within a microsecond of the time that was logged. -/
theorem log_sorts_by_time (monoToUnixOffset : Int) (micros : Nat → Bytes)
    (hmicros : ∀ n, Json.IsNumber (micros n)) {x y : LogItem} (hx : x.Plain) (hy : y.Plain)
    (hle : x.time ≤ y.time) (hfrom : 0 ≤ unixSec monoToUnixOffset x.time)
    (hto : unixSec monoToUnixOffset y.time < kYear10000 * kOne) :
    ∃ s s', stampOf (x.line (clockText monoToUnixOffset micros hmicros)) = some s ∧
      stampOf (y.line (clockText monoToUnixOffset micros hmicros)) = some s' ∧ ¬ s' < s ∧
      (∃ i, readTimestamp s = some i ∧
        |i * kOne - unixSec monoToUnixOffset x.time * 1000000| ≤ kOne) ∧
      ∃ i, readTimestamp s' = some i ∧
        |i * kOne - unixSec monoToUnixOffset y.time * 1000000| ≤ kOne := by
  have hmono := unixSec_mono monoToUnixOffset hle
  obtain ⟨m, hm, hmfits⟩ := unixSec_eq_natCast hfrom
  obtain ⟨n, hn, hnfits⟩ := unixSec_eq_natCast (Int.le_trans hfrom hmono)
  rw [hn] at hto
  rw [hm, hn] at hmono
  have hmn : m ≤ n := Int.ofNat_le.1 hmono
  have hnsecs := div_kOne_lt hto
  have hmsecs : ((m / kOne : Nat) : Int) < kYear10000 :=
    Int.lt_of_le_of_lt (Int.ofNat_le.2 (Nat.div_le_div_right hmn)) hnsecs
  refine ⟨_, _, stampOf_line _ hx, stampOf_line _ hy, ?_, ?_, ?_⟩
  · show ¬ timestampText (unixSec _ _) < timestampText (unixSec _ _)
    rw [hm, hn]
    exact timestampText_mono hmfits hnfits hnsecs hmn
  · show ∃ i, readTimestamp (timestampText (unixSec _ _)) = some i ∧ _
    rw [hm]
    exact ⟨_, readTimestamp_timestampText hmfits hmsecs, shownMicros_close hmfits (lt_exactSeconds hmsecs)⟩
  · show ∃ i, readTimestamp (timestampText (unixSec _ _)) = some i ∧ _
    rw [hn]
    exact ⟨_, readTimestamp_timestampText hnfits hnsecs, shownMicros_close hnfits (lt_exactSeconds hnsecs)⟩

/-- An offset of whole seconds. -/
def someOffset : Int := 1788300268 * kOne

/-- A queue, and a dispatch on it a millisecond later. -/
def someQueueItem : LogItem := .queue { createTs := 392511042, comm := str "vadd" } (str "aql")

def someDispatchItem : LogItem := .dispatch { submitTs := 393511042, kernelName := str "vadd" } {}

/-- What the lines say. -/
theorem log_sorts_two :
    stampOf (someQueueItem.line (clockText someOffset fixed3 isNumber_fixed3)) =
        some (str "2026-09-01T22:04:28.392511Z") ∧
      ∃ s s', stampOf (someQueueItem.line (clockText someOffset fixed3 isNumber_fixed3)) = some s ∧
        stampOf (someDispatchItem.line (clockText someOffset fixed3 isNumber_fixed3)) = some s' ∧ ¬ s' < s ∧
        (∃ i, readTimestamp s = some i ∧
          |i * kOne - unixSec someOffset someQueueItem.time * 1000000| ≤ kOne) ∧
        ∃ i, readTimestamp s' = some i ∧
          |i * kOne - unixSec someOffset someDispatchItem.time * 1000000| ≤ kOne :=
  ⟨by decide +kernel, log_sorts_by_time someOffset fixed3 isNumber_fixed3 (by decide) (by decide)
    (by decide) (by decide +kernel) (by decide +kernel)⟩

end HsaSnoop
