import Mathlib.Data.List.TakeWhile
import HsaSnoop.Model.Numerals

set_option autoImplicit false

/-! # sscanf

The conversions the program scans text with, as the C standard has them: a blank in the format skips
any amount of blanks, every other character must stand there, and a conversion skips blanks of its
own. Scanning stops at the first that fails; the values converted before it are the result. -/

namespace HsaSnoop

/-- One item of a format. -/
inductive Directive
  | blank
  | literal (c : UInt8)
  /-- `%d`. -/
  | int
  /-- `%u`. -/
  | uint
  /-- `%lu`. -/
  | ulong
  /-- `%<width>s`. -/
  | word (width : Nat)
  deriving DecidableEq, Repr

inductive ScanValue
  | int (n : Int)
  | uint (n : Nat)
  | word (s : Bytes)
  deriving DecidableEq, Repr

/-- What follows a number at the front, behind blanks; nothing when there is no number. -/
def skipNumber? (s : Bytes) : Option Bytes :=
  let isDigit (c : UInt8) : Bool := 48 ≤ c && c ≤ 57
  let s := s.dropWhile isSpace
  let s := if s.head? = some 45 ∨ s.head? = some 43 then s.drop 1 else s
  if s.head?.any isDigit then some (s.dropWhile isDigit) else none

/-- The values a format converts from a text; their number is what `sscanf` returns. -/
def sscanf : List Directive → Bytes → List ScanValue
  | [], _ => []
  | .blank :: ds, s => sscanf ds (s.dropWhile isSpace)
  | .literal c :: ds, s => if s.head? = some c then sscanf ds (s.drop 1) else []
  | .int :: ds, s =>
      match skipNumber? s with
      | none => []
      | some rest => .int (atoi s) :: sscanf ds rest
  | .uint :: ds, s =>
      match skipNumber? s with
      | none => []
      | some rest => .uint (u32 (strtoull 10 s)) :: sscanf ds rest
  | .ulong :: ds, s =>
      match skipNumber? s with
      | none => []
      | some rest => .uint (strtoull 10 s) :: sscanf ds rest
  | .word width :: ds, s =>
      let w := ((s.dropWhile isSpace).takeWhile (fun c => !isSpace c)).take width
      if w = [] then [] else .word w :: sscanf ds ((s.dropWhile isSpace).drop w.length)

/-! ## Scanning what was printed -/

theorem sscanf_literals (lits s : Bytes) (ds : List Directive) :
    sscanf (lits.map .literal ++ ds) (lits ++ s) = sscanf ds s := by
  induction lits with
  | nil => rfl
  | cons c lits ih =>
      rw [List.map_cons, List.cons_append, List.cons_append, sscanf, List.head?_cons, if_pos rfl]
      exact ih

/-- A word has no blank in it. -/
theorem noSpace_of_mem_sscanf {ds : List Directive} {s w : Bytes} (h : .word w ∈ sscanf ds s) :
    ∀ c ∈ w, isSpace c = false := by
  induction ds generalizing s with
  | nil => cases h
  | cons d ds ih =>
      cases d with
      | blank => exact ih h
      | literal c =>
          rw [sscanf] at h
          split at h
          · exact ih h
          · cases h
      | int =>
          rw [sscanf] at h
          split at h
          · cases h
          · rcases List.mem_cons.1 h with h | h
            · cases h
            · exact ih h
      | uint =>
          rw [sscanf] at h
          split at h
          · cases h
          · rcases List.mem_cons.1 h with h | h
            · cases h
            · exact ih h
      | ulong =>
          rw [sscanf] at h
          split at h
          · cases h
          · rcases List.mem_cons.1 h with h | h
            · cases h
            · exact ih h
      | word width =>
          rw [sscanf] at h
          split at h
          · cases h
          · rcases List.mem_cons.1 h with h | h
            · obtain rfl := ScanValue.word.inj h
              intro c hc
              simpa using List.mem_takeWhile_imp (List.mem_of_mem_take hc)
            · exact ih h

/-- No decimal digit at the front. -/
def NoDecimal (s : Bytes) : Prop := s.head?.any (fun c => 48 ≤ c && c ≤ 57) = false

theorem digitByte_decimal : ∀ d < 10, (48 ≤ digitByte d && digitByte d ≤ 57) = true := by decide

theorem skipNumber?_signedDecimal (n : Int) {rest : Bytes} (hrest : NoDecimal rest) :
    skipNumber? (signedDecimal n ++ rest) = some rest := by
  have hall : ∀ c ∈ digitBytes 10 n.natAbs, (48 ≤ c && c ≤ 57) = true := by
    intro c hc
    obtain ⟨d, hd, rfl⟩ := mem_digitBytes (by omega) hc
    exact digitByte_decimal d hd
  obtain ⟨d, hd, hhead, -⟩ := @head?_digitBytes 10 (by omega) n.natAbs
  obtain ⟨-, hminus, hplus, -⟩ := digitByte_plain d (by omega)
  have hs : (digitBytes 10 n.natAbs ++ rest).head? = some (digitByte d) := by
    rw [List.head?_append, hhead, Option.some_or]
  have hdrop : (digitBytes 10 n.natAbs ++ rest).dropWhile (fun c => 48 ≤ c && c ≤ 57) = rest := by
    rw [List.dropWhile_append_of_pos hall]
    cases rest with
    | nil => rfl
    | cons c rest => exact List.dropWhile_cons_of_neg (by simpa [NoDecimal] using hrest)
  unfold skipNumber? signedDecimal
  rw [decimal_eq]
  split
  · have hspace : (45 :: digitBytes 10 n.natAbs ++ rest).dropWhile isSpace =
        45 :: (digitBytes 10 n.natAbs ++ rest) := List.dropWhile_cons_of_neg (by decide)
    simp only [hspace, List.head?_cons, true_or, if_true, List.drop_one, List.tail_cons, hs,
      Option.any_some, digitByte_decimal d hd, hdrop]
  · simp only [dropWhile_isSpace_of_digit (show d < 16 by omega) hs, hs, Option.some_inj, hminus,
      hplus, or_self, if_false, Option.any_some, digitByte_decimal d hd, if_true, hdrop]

/-- A word up to the next blank. -/
theorem sscanf_word {w : Bytes} {width : Nat} (hw : w ≠ []) (hspace : ∀ c ∈ w, isSpace c = false)
    (hlen : w.length ≤ width) (s : Bytes) (ds : List Directive) :
    sscanf (.word width :: ds) (w ++ 32 :: s) = .word w :: sscanf ds (32 :: s) := by
  have hdrop : (w ++ 32 :: s).dropWhile isSpace = w ++ 32 :: s := by
    cases w with
    | nil => exact absurd rfl hw
    | cons c w =>
        exact List.dropWhile_cons_of_neg (by simp [hspace c (List.mem_cons_self ..)])
  have htake : (w ++ 32 :: s).takeWhile (fun c => !isSpace c) = w := by
    rw [List.takeWhile_append_of_pos (by simpa using hspace), List.takeWhile_cons_of_neg (by decide),
      List.append_nil]
  rw [sscanf]
  simp only [hdrop, htake, List.take_of_length_le hlen, if_neg hw, List.drop_left]

theorem sscanf_blank {s : Bytes} (h : s.head?.any isSpace = false) (ds : List Directive) :
    sscanf (.blank :: ds) (32 :: s) = sscanf ds s := by
  rw [sscanf, List.dropWhile_cons_of_pos (by decide)]
  cases s with
  | nil => rfl
  | cons c s => rw [List.dropWhile_cons_of_neg (by simpa using h)]

theorem sscanf_int {n : Int} {rest : Bytes} (hlo : -2 ^ 31 ≤ n) (hhi : n < 2 ^ 31)
    (hdigit : NoDigit 10 rest) (hrest : NoDecimal rest) (ds : List Directive) :
    sscanf (.int :: ds) (signedDecimal n ++ rest) = .int n :: sscanf ds rest := by
  rw [sscanf, skipNumber?_signedDecimal n hrest, atoi_signedDecimal hlo hhi hdigit]

theorem skipNumber?_decimal (n : Nat) {rest : Bytes} (hrest : NoDecimal rest) :
    skipNumber? (decimal n ++ rest) = some rest := by
  have hsigned := skipNumber?_signedDecimal n hrest
  rwa [signedDecimal, if_neg (by omega), Int.natAbs_natCast] at hsigned

theorem sscanf_uint {n : Nat} {rest : Bytes} (hn : n < 2 ^ 32) (hdigit : NoDigit 10 rest)
    (hrest : NoDecimal rest) (hx : rest.head? ≠ some 120 ∧ rest.head? ≠ some 88)
    (ds : List Directive) :
    sscanf (.uint :: ds) (decimal n ++ rest) = .uint n :: sscanf ds rest := by
  rw [sscanf, skipNumber?_decimal n hrest,
    strtoull_decimal (.inr rfl) (Nat.lt_trans hn (by decide)) hdigit hx]
  simp only
  rw [u32, Nat.mod_eq_of_lt hn]

theorem sscanf_ulong {n : Nat} {rest : Bytes} (hn : n < 2 ^ 64) (hdigit : NoDigit 10 rest)
    (hrest : NoDecimal rest) (hx : rest.head? ≠ some 120 ∧ rest.head? ≠ some 88)
    (ds : List Directive) :
    sscanf (.ulong :: ds) (decimal n ++ rest) = .uint n :: sscanf ds rest := by
  rw [sscanf, skipNumber?_decimal n hrest, strtoull_decimal (.inr rfl) hn hdigit hx]

end HsaSnoop
