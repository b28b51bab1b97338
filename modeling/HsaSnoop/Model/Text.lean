import HsaSnoop.Model.Machine

set_option autoImplicit false

/-! # Text

The parts of `std::string` and of the C library the program prints and parses with. A position that
is not found (`npos`) is `none`; conversions follow the standard, wrap-around and saturation
included. -/

namespace HsaSnoop

/-! ## Printing -/

def decimal (n : Nat) : Bytes := str (toString n)

/-- `%d`. -/
def signedDecimal (n : Int) : Bytes := if n < 0 then 45 :: decimal n.natAbs else decimal n.natAbs

/-- `%lx`. -/
def hexadecimal (n : Nat) : Bytes := str (String.ofList (Nat.toDigits 16 n))

/-- `snprintf` into a buffer of `size` bytes. -/
def snprintf (size : Nat) (s : Bytes) : Bytes := s.take (size - 1)

/-- What `%s` prints of a string: up to its first NUL. -/
def cStr (s : Bytes) : Bytes := s.takeWhile (· ≠ 0)

/-- What `List.all` finds of every element, as a check that computes. -/
theorem forall_mem_of_all {α : Type*} {p : α → Prop} [DecidablePred p] {s : List α}
    (h : s.all (fun c => decide (p c)) = true) : ∀ c ∈ s, p c :=
  fun c hc => of_decide_eq_true (List.all_eq_true.1 h c hc)

/-! ## Conversions between integers -/

/-- The value an `int` has as a `uint64_t`. -/
def u64OfInt (n : Int) : Nat := (n % 2 ^ 64).toNat

/-- `static_cast<int>`. -/
def toInt32 (n : Nat) : Int := Int.bmod n (2 ^ 32)

/-- `static_cast<uint32_t>`. -/
def u32 (n : Nat) : Nat := n % 2 ^ 32

/-! ## Searching -/

/-- `s.find(needle)`: where the first occurrence starts. -/
def find? (needle : Bytes) : Bytes → Option Nat
  | [] => if needle = [] then some 0 else none
  | c :: s => if needle.isPrefixOf (c :: s) then some 0 else (find? needle s).map (· + 1)

/-- `s.find(needle) != npos`. -/
def contains (s needle : Bytes) : Bool := (find? needle s).isSome

/-- `s.rfind(c)`: where the last occurrence is. -/
def rfind? (c : UInt8) : Bytes → Option Nat
  | [] => none
  | b :: s =>
      match rfind? c s with
      | some i => some (i + 1)
      | none => if b = c then some 0 else none

/-! ## Parsing numbers -/

def isSpace (c : UInt8) : Bool := c = 32 || (9 ≤ c && c ≤ 13)

def digitValue? (c : UInt8) : Option Nat :=
  if 48 ≤ c ∧ c ≤ 57 then some (c.toNat - 48)
  else if 97 ≤ c ∧ c ≤ 122 then some (c.toNat - 97 + 10)
  else if 65 ≤ c ∧ c ≤ 90 then some (c.toNat - 65 + 10)
  else none

/-- The digits of a base at the front of a string, on top of what was read already. -/
def readDigits (base : Nat) : Nat → Bytes → Nat
  | acc, [] => acc
  | acc, c :: s =>
      match digitValue? c with
      | some v => if v < base then readDigits base (acc * base + v) s else acc
      | none => acc

/-- Whether a hexadecimal digit follows `0x`. -/
def hexPrefix : Bytes → Bool
  | 48 :: x :: d :: _ => (x = 120 || x = 88) && (digitValue? d).any (· < 16)
  | _ => false

/-- `strtoull(s, nullptr, base)`, for the bases 0 (by prefix), 10 and 16. -/
def strtoull (base : Nat) (s : Bytes) : Nat :=
  let s := s.dropWhile isSpace
  let negative := s.head? = some 45
  let s := if s.head? = some 45 ∨ s.head? = some 43 then s.drop 1 else s
  let value :=
    if (base = 0 ∨ base = 16) ∧ hexPrefix s then readDigits 16 0 (s.drop 2)
    else if base = 0 then readDigits (if s.head? = some 48 then 8 else 10) 0 s
    else readDigits base 0 s
  if 2 ^ 64 ≤ value then 2 ^ 64 - 1 else if negative then u64Sub 0 value else value

/-- `atoi`, which is `strtol` to base 10 cut down to an `int`. -/
def atoi (s : Bytes) : Int :=
  let s := s.dropWhile isSpace
  let negative := s.head? = some 45
  let s := if s.head? = some 45 ∨ s.head? = some 43 then s.drop 1 else s
  let value : Int := readDigits 10 0 s
  Int.bmod (max (-2 ^ 63) (min (2 ^ 63 - 1) (if negative then -value else value))) (2 ^ 32)

end HsaSnoop
