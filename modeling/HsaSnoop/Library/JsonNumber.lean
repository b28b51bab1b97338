import Mathlib.Algebra.Order.Field.Rat
import Mathlib.Data.List.DropRight
import Mathlib.Tactic.FieldSimp
import Mathlib.Tactic.Ring
import HsaSnoop.Library.Json

set_option autoImplicit false

/-! # What a JSON number denotes

The parser keeps numbers as they are spelled; `numberValue` is the rational number a spelling stands
for. Zeros at the end of a fraction do not change it. -/

namespace Json

/-! ## Digits -/

/-- The number some digits are. -/
def digitsValue (ds : List UInt8) : Nat := ds.foldl (fun n c => 10 * n + (c.toNat - 48)) 0

theorem digitsValue_concat (ds : List UInt8) (c : UInt8) :
    digitsValue (ds ++ [c]) = 10 * digitsValue ds + (c.toNat - 48) := by
  simp [digitsValue]

theorem digitsValue_singleton (c : UInt8) : digitsValue [c] = c.toNat - 48 := by
  simp [digitsValue]

theorem digitsValue_append (xs ys : List UInt8) :
    digitsValue (xs ++ ys) = digitsValue xs * 10 ^ ys.length + digitsValue ys := by
  induction ys using List.reverseRecOn with
  | nil => simp [digitsValue]
  | append_singleton ys c ih =>
      rw [← List.append_assoc, digitsValue_concat, digitsValue_concat, ih, List.length_append,
        List.length_singleton, pow_succ]
      ring

/-- Digits behind the point. -/
def fraction (ds : List UInt8) : ℚ := digitsValue ds / 10 ^ ds.length

theorem fraction_concat_zero (ds : List UInt8) : fraction (ds ++ [48]) = fraction ds := by
  have hpow : (10 : ℚ) ^ ds.length ≠ 0 := pow_ne_zero _ (by norm_num)
  rw [fraction, fraction, digitsValue_concat, List.length_append, List.length_singleton, pow_succ]
  push_cast
  field_simp
  simp

/-- Without the zeros at the end. -/
def stripZeros (ds : List UInt8) : List UInt8 := ds.rdropWhile (fun c => c = 48)

theorem fraction_stripZeros (ds : List UInt8) : fraction (stripZeros ds) = fraction ds := by
  induction ds using List.reverseRecOn with
  | nil => rfl
  | append_singleton ds c ih =>
      by_cases hc : c = 48
      · subst hc
        rw [stripZeros, List.rdropWhile_concat_pos _ _ _ (by simp), fraction_concat_zero]
        exact ih
      · rw [stripZeros, List.rdropWhile_concat_neg _ _ _ (by simpa using hc)]

theorem mem_of_mem_stripZeros {ds : List UInt8} {c : UInt8} (h : c ∈ stripZeros ds) : c ∈ ds :=
  List.IsPrefix.subset ( List.rdropWhile_prefix _ _) h

/-! ## Numbers -/

def fracValue (frac : List UInt8) : ℚ := fraction (frac.drop 1)

def expValue (exp : List UInt8) : ℤ :=
  let s := exp.drop 1
  if s.head? = some 45 then -(digitsValue (s.drop 1) : ℤ)
  else if s.head? = some 43 then digitsValue (s.drop 1)
  else digitsValue s

/-- The number a text denotes, if it is one. -/
def numberValue (text : List UInt8) : Option ℚ :=
  let sign := if text.head? = some 45 then [45] else []
  match readInt (text.drop sign.length) with
  | none => none
  | some (int, s) =>
      match readFrac s with
      | none => none
      | some (frac, s) =>
          match readExp s with
          | some (exp, []) =>
              some ((if sign = [] then 1 else -1) * (digitsValue int + fracValue frac) *
                10 ^ expValue exp)
          | _ => none

/-- An unsigned number and its value, by the parts of its spelling. -/
structure Spells (text : List UInt8) (x : ℚ) : Prop where
  parts : ∃ int frac exp, text = int ++ (frac ++ exp) ∧ Digits int ∧
    (int.head? = some 48 → int = [48]) ∧ IsFrac frac ∧ IsExp exp ∧
    x = (digitsValue int + fracValue frac) * 10 ^ expValue exp

theorem Spells.isNumber {text : List UInt8} {x : ℚ} (h : Spells text x) : IsNumber text := by
  obtain ⟨int, frac, exp, rfl, hint, hzero, hfrac, hexp, -⟩ := h.parts
  exact ⟨[], int, frac, exp, rfl, .inl rfl, hint, hzero, hfrac, hexp⟩

theorem Spells.numberValue {text : List UInt8} {x : ℚ} (h : Spells text x) :
    numberValue text = some x := by
  obtain ⟨int, frac, exp, rfl, hint, hzero, hfrac, hexp, rfl⟩ := h.parts
  have hhead : ∀ c, exp.head? = some c → isDigit c = false ∧ c ≠ 46 := by
    intro c hc
    exact hexp.head delimited_nil c (by rwa [List.append_nil])
  have hInt := readInt_append hint hzero (fun c hc => hfrac.head hhead c hc)
  have hFrac := readFrac_append hfrac hhead
  have hExp := readExp_append hexp delimited_nil
  rw [List.append_nil] at hExp
  have hminus := hint.head_ne_minus (frac ++ exp)
  simp only [Json.numberValue, if_neg hminus, List.length_nil, List.drop_zero, hInt, hFrac, hExp,
    if_true, one_mul]

end Json
