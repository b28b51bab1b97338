import Mathlib.Algebra.Order.Ring.Nat
import Mathlib.Data.List.Basic

set_option autoImplicit false

/-! # Machine words, byte strings and the observed process

The parser works on 64-bit counters and on memory of another process. Counters are `Nat`s, with the
wrap-around of `uint64_t` written out where the code computes one (`u64`, `u64Sub`). Byte strings are
lists of bytes, so that names from the outside need not be UTF-8. A `ProcMem` is what the observed
process looks like at one instant: the parser never writes to it. -/

namespace HsaSnoop

/-- `std::string`: any bytes. -/
abbrev Bytes := List UInt8

/-- A string literal of the source (ASCII). -/
def str (s : String) : Bytes := s.toList.map (fun c => UInt8.ofNat c.toNat)

/-! ## 64-bit arithmetic -/

/-- The value a `uint64_t` holds after a computation whose exact result is `n`. -/
def u64 (n : Nat) : Nat := n % 2 ^ 64

/-- `a - b` on `uint64_t`. -/
def u64Sub (a b : Nat) : Nat := u64 (a + 2 ^ 64 - b)

theorem u64_of_lt {n : Nat} (h : n < 2 ^ 64) : u64 n = n := Nat.mod_eq_of_lt h

theorem u64_le (n : Nat) : u64 n ≤ n := Nat.mod_le _ _

theorem u64Sub_of_le {a b : Nat} (hab : b ≤ a) (ha : a < 2 ^ 64) : u64Sub a b = a - b := by
  unfold u64Sub u64
  omega

/-- A reader at `next` that is more than a ring of `size` behind: how much it skips, and where to. -/
theorem u64Sub_skip {w next size : Nat} (hw : w < 2 ^ 64) (hbehind : next + size ≤ w) :
    u64Sub (u64Sub w next) size = w - next - size ∧ u64Sub w size = next + (w - next - size) := by
  rw [u64Sub_of_le (by omega : next ≤ w) hw, u64Sub_of_le (by omega) (by omega),
    u64Sub_of_le (by omega) hw]
  omega

/-- Subtracting and adding back can only grow a value that fits. -/
theorem le_u64Sub_add {a b : Nat} (ha : a < 2 ^ 64) : a ≤ u64Sub a b + b := by
  by_cases hab : b ≤ a
  · rw [u64Sub_of_le hab ha]
    exact Nat.le_add_of_sub_le (Nat.le_refl (a - b))
  · exact Nat.le_trans (Nat.le_of_not_le hab) (Nat.le_add_left b (u64Sub a b))

/-! ## Little-endian fields -/

/-- The `w`-byte little-endian number at offset `off` of a buffer. -/
def leNat (raw : Nat → UInt8) (off : Nat) : Nat → Nat
  | 0 => 0
  | w + 1 => (raw off).toNat + 256 * leNat raw (off + 1) w

/-- A field only depends on the bytes it covers. -/
theorem leNat_congr {raw raw' : Nat → UInt8} {off w : Nat}
    (h : ∀ i, off ≤ i → i < off + w → raw i = raw' i) : leNat raw off w = leNat raw' off w := by
  induction w generalizing off with
  | zero => rfl
  | succ w ih =>
      simp only [leNat]
      rw [h off (Nat.le_refl off) (by omega), ih (fun i hlo hhi => h i (by omega) (by omega))]

theorem leNat_lt (raw : Nat → UInt8) (off w : Nat) : leNat raw off w < 256 ^ w := by
  induction w generalizing off with
  | zero => exact Nat.one_pos
  | succ w ih =>
      have hbyte := (raw off).toNat_lt
      have hrest := ih (off + 1)
      rw [leNat, Nat.pow_succ]
      omega

/-! ## The observed process -/

/-- The observed process at one instant. -/
structure ProcMem where
  /-- Contents of the address space. -/
  byte : Nat → UInt8
  /-- Whether `process_vm_readv` of `len` bytes at `va` transfers all of them. -/
  readable : (va len : Nat) → Bool
  /-- No transfer runs over the end of the address space. -/
  readable_fits : ∀ va len, readable va len = true → va + len ≤ 2 ^ 64
  /-- The frame `/proc/<pid>/pagemap` gives for an address, 0 when it gives none
      (`VirtToPhys`). -/
  phys : Nat → Nat
  /-- The `(runtime address, demangled name)` pairs of the `.kd` symbols of the loaded code
      objects, in the order a scan visits them. -/
  codeObjects : List (Nat × Bytes)

/-- A process whose whole address space can be read, without frames or code objects. -/
def ProcMem.ofBytes (byte : Nat → UInt8) : ProcMem where
  byte := byte
  readable va len := decide (va + len ≤ 2 ^ 64)
  readable_fits _ _ h := of_decide_eq_true h
  phys _ := 0
  codeObjects := []

/-- `ReadProcMem`: the `len` bytes at `va` as a buffer, or nothing. -/
def readProcMem (m : ProcMem) (va len : Nat) : Option (Nat → UInt8) :=
  if m.readable va len then some (fun i => m.byte (va + i)) else none

end HsaSnoop
