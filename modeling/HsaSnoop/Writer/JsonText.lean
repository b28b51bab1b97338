import HsaSnoop.Library.Json
import HsaSnoop.Model.Numerals

set_option autoImplicit false

/-! # Printed numbers are JSON numbers -/

namespace HsaSnoop

/-- A number, as a value. -/
def number (n : Nat) : Json.Value := .num (decimal n)

theorem digitByte_isDigit : ∀ d < 10, Json.isDigit (digitByte d) = true := by decide

theorem digits_decimal (n : Nat) : Json.Digits (decimal n) := by
  rw [decimal_eq]
  refine ⟨digitBytes_ne_nil 10 n, ?_⟩
  intro c hc
  obtain ⟨d, hd, rfl⟩ := mem_digitBytes (by decide) hc
  exact digitByte_isDigit d hd

/-- Only zero starts with a zero. -/
theorem decimal_leading {n : Nat} (h : (decimal n).head? = some 48) : decimal n = [48] := by
  obtain ⟨d, hd, hhead, hd0⟩ := @head?_digitBytes 10 (by decide) n
  rw [decimal_eq, hhead] at h
  have hd' : d = 0 := ((digitByte_plain d (by omega)).2.2.2).1 (Option.some.inj h)
  rw [hd0 hd']
  decide

theorem isNumber_decimal (n : Nat) : Json.IsNumber (decimal n) :=
  ⟨[], decimal n, [], [], by simp, .inl rfl, digits_decimal n, decimal_leading, .absent, .absent⟩

theorem isNumber_signedDecimal (n : Int) : Json.IsNumber (signedDecimal n) := by
  unfold signedDecimal
  split
  · exact ⟨[45], decimal n.natAbs, [], [], by simp, .inr rfl, digits_decimal _, decimal_leading,
      .absent, .absent⟩
  · exact isNumber_decimal n.natAbs

end HsaSnoop
