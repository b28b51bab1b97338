import Mathlib.Algebra.Order.Ring.Nat
import Mathlib.Data.List.Forall2

set_option autoImplicit false

/-! # Fields of a fixed width

Numbers printed with leading zeros, each in a field of its own width that ends in a separator. Such a text
is read back to its numbers (`read_text`), and texts of one shape are ordered as bytes the way their numbers
are (`text_lt_iff`): no number needs to be read to sort them. -/

namespace FixedFields

def digit (n : ℕ) : UInt8 := UInt8.ofNat (48 + n % 10)

/-- The last `w` decimal digits of a number. -/
def padded : (w n : ℕ) → List UInt8
  | 0, _ => []
  | w + 1, n => padded w (n / 10) ++ [digit n]

/-- The width and the separator of every field. -/
abbrev Shape : Type := List (ℕ × UInt8)

def text : Shape → List ℕ → List UInt8
  | f :: shape, n :: ns => padded f.1 n ++ f.2 :: text shape ns
  | _, _ => []

/-- Every number has room in its field. -/
def Fit (shape : Shape) (ns : List ℕ) : Prop := List.Forall₂ (fun f n => n < 10 ^ f.1) shape ns

/-! ## The order -/

/-- Behind beginnings of one length, the order is that of the beginnings first. -/
theorem append_lt_append_iff {α : Type} [LT α] {as bs cs ds : List α}
    (h : as.length = bs.length) : as ++ cs < bs ++ ds ↔ as < bs ∨ (as = bs ∧ cs < ds) := by
  induction as generalizing bs with
  | nil =>
      obtain rfl := List.length_eq_zero_iff.1 h.symm
      simp
  | cons a as ih =>
      cases bs with
      | nil => simp at h
      | cons b bs =>
          rw [List.cons_append, List.cons_append, List.cons_lt_cons_iff, List.cons_lt_cons_iff,
            ih (Nat.succ.inj h), List.cons_eq_cons]
          constructor
          · rintro (hab | ⟨hab, hlt | ⟨heq, hlt⟩⟩)
            · exact .inl (.inl hab)
            · exact .inl (.inr ⟨hab, hlt⟩)
            · exact .inr ⟨⟨hab, heq⟩, hlt⟩
          · rintro ((hab | ⟨hab, hlt⟩) | ⟨⟨hab, heq⟩, hlt⟩)
            · exact .inl hab
            · exact .inr ⟨hab, .inl hlt⟩
            · exact .inr ⟨hab, .inr ⟨heq, hlt⟩⟩

theorem toNat_digit (n : ℕ) : (digit n).toNat = 48 + n % 10 := by
  rw [digit, UInt8.toNat_ofNat']
  omega

theorem digit_lt_iff (m n : ℕ) : digit m < digit n ↔ m % 10 < n % 10 := by
  rw [UInt8.lt_iff_toNat_lt, toNat_digit, toNat_digit]
  omega

@[simp] theorem length_padded (w n : ℕ) : (padded w n).length = w := by
  induction w generalizing n with
  | zero => rfl
  | succ w ih => rw [padded, List.length_append, ih, List.length_singleton]

theorem padded_inj {w m n : ℕ} (hm : m < 10 ^ w) (hn : n < 10 ^ w) (h : padded w m = padded w n) :
    m = n := by
  induction w generalizing m n with
  | zero =>
      rw [Nat.pow_zero] at hm hn
      omega
  | succ w ih =>
      rw [Nat.pow_succ] at hm hn
      obtain ⟨hhigh, hlow⟩ := List.append_inj' h rfl
      have hdigit := congrArg UInt8.toNat (List.singleton_inj.1 hlow)
      rw [toNat_digit, toNat_digit] at hdigit
      have hdiv := ih (by omega) (by omega) hhigh
      omega

theorem padded_lt_iff {w m n : ℕ} (hm : m < 10 ^ w) (hn : n < 10 ^ w) :
    padded w m < padded w n ↔ m < n := by
  induction w generalizing m n with
  | zero =>
      rw [Nat.pow_zero] at hm hn
      rw [padded, padded]
      simp
      omega
  | succ w ih =>
      rw [Nat.pow_succ] at hm hn
      rw [padded, padded, append_lt_append_iff (by rw [length_padded, length_padded]),
        ih (by omega) (by omega), List.cons_lt_cons_iff, digit_lt_iff]
      constructor
      · rintro (hlt | ⟨heq, hlt | ⟨-, hlt⟩⟩)
        · omega
        · have hdiv := padded_inj (w := w) (by omega) (by omega) heq
          omega
        · simp at hlt
      · intro hlt
        by_cases hdiv : m / 10 = n / 10
        · exact .inr ⟨by rw [hdiv], .inl (by omega)⟩
        · exact .inl (by omega)

/-- **Texts sort like their numbers.** -/
theorem text_lt_iff {shape : Shape} {ms ns : List ℕ} (hm : Fit shape ms) (hn : Fit shape ns) :
    text shape ms < text shape ns ↔ ms < ns := by
  unfold Fit at hm hn
  induction hm generalizing ns with
  | nil =>
      cases hn
      simp [text]
  | @cons f m shape ms hfm _ ih =>
      cases hn with
      | @cons _ n _ ns hfn hns =>
          rw [text, text, append_lt_append_iff (by rw [length_padded, length_padded]),
            padded_lt_iff hfm hfn, List.cons_lt_cons_iff, List.cons_lt_cons_iff, ih hns]
          constructor
          · rintro (hlt | ⟨heq, hlt | ⟨-, hlt⟩⟩)
            · exact .inl hlt
            · exact absurd hlt (UInt8.lt_irrefl _)
            · exact .inr ⟨padded_inj hfm hfn heq, hlt⟩
          · rintro (hlt | ⟨rfl, hlt⟩)
            · exact .inl hlt
            · exact .inr ⟨rfl, .inr ⟨rfl, hlt⟩⟩

/-! ## Reading -/

/-- The number that digits spell. -/
def number? : List UInt8 → ℕ → Option ℕ
  | [], n => some n
  | c :: s, n => if 48 ≤ c ∧ c ≤ 57 then number? s (10 * n + (c.toNat - 48)) else none

/-- The numbers of a text of a shape. -/
def read : Shape → List UInt8 → Option (List ℕ)
  | [], s => if s = [] then some [] else none
  | f :: shape, s =>
      if (s.drop f.1).head? = some f.2 then
        (number? (s.take f.1) 0).bind (fun n => (read shape (s.drop (f.1 + 1))).map (n :: ·))
      else none

theorem number?_append (s t : List UInt8) (n : ℕ) :
    number? (s ++ t) n = (number? s n).bind (number? t) := by
  induction s generalizing n with
  | nil => rfl
  | cons c s ih =>
      rw [List.cons_append, number?, number?]
      split
      · exact ih _
      · rfl

theorem number?_padded (w n m : ℕ) : number? (padded w n) m = some (10 ^ w * m + n % 10 ^ w) := by
  induction w generalizing n with
  | zero => simp [padded, number?, Nat.mod_one]
  | succ w ih =>
      have hdigit : 48 ≤ digit n ∧ digit n ≤ 57 := by
        rw [UInt8.le_iff_toNat_le, UInt8.le_iff_toNat_le, toNat_digit]
        exact ⟨Nat.le_add_right 48 _, by show 48 + n % 10 ≤ 57; omega⟩
      rw [padded, number?_append, ih, Option.bind_some, number?, if_pos hdigit, number?, toNat_digit,
        Nat.add_sub_cancel_left, Nat.pow_succ, Nat.mul_comm (10 ^ w) 10, Nat.mod_mul]
      congr 1
      rw [Nat.mul_add, Nat.mul_assoc]
      omega

/-- **Texts are read back.** -/
theorem read_text {shape : Shape} {ns : List ℕ} (h : Fit shape ns) : read shape (text shape ns) = some ns := by
  unfold Fit at h
  induction h with
  | nil => rfl
  | @cons f n shape ns hfn _ ih =>
      have hdrop : (text (f :: shape) (n :: ns)).drop f.1 = f.2 :: text shape ns := by
        rw [text]
        exact List.drop_left' (length_padded f.1 n)
      have htake : (text (f :: shape) (n :: ns)).take f.1 = padded f.1 n := by
        rw [text]
        exact List.take_left' (length_padded f.1 n)
      rw [read, hdrop, List.head?_cons, if_pos rfl, htake, number?_padded, Nat.mod_eq_of_lt hfn,
        Nat.mul_zero, Nat.zero_add, Option.bind_some, ← List.drop_drop, hdrop, List.drop_one, List.tail_cons,
        ih, Option.map_some]

end FixedFields
