import Mathlib.Data.List.Basic

set_option autoImplicit false

/-! # The protobuf wire format

A message is a sequence of fields, each a tag (field number and wire type) and a value: a number in
base-128 digits (`varint`), or a length and that many bytes. `encode` writes fields, `parse` reads them
back, and whatever was written is read (`parse_encode`): digits and lengths tell by themselves where
they end, so nothing in a payload can be taken for the field behind it. Fixed-width wire types are not
read.

Numbers are unbounded; a number below 2^64 has at most ten digits. -/

namespace Wire

/-! ## Numbers -/

/-- Seven bits a byte, lowest first, the high bit set on all but the last. -/
def varint (n : Nat) : List UInt8 :=
  if n < 128 then [UInt8.ofNat n] else UInt8.ofNat (n % 128 + 128) :: varint (n / 128)
termination_by n
decreasing_by omega

/-- The number at the front, and what follows it. -/
def readVarint : List UInt8 → Option (Nat × List UInt8)
  | [] => none
  | c :: s =>
      if c.toNat < 128 then some (c.toNat, s)
      else
        match readVarint s with
        | none => none
        | some (n, rest) => some (c.toNat - 128 + 128 * n, rest)

theorem readVarint_varint (n : Nat) (s : List UInt8) : readVarint (varint n ++ s) = some (n, s) := by
  induction n using Nat.strongRecOn with
  | ind n ih =>
      rw [varint]
      split
      · next hlt =>
          have hbyte : (UInt8.ofNat n).toNat = n :=
            UInt8.toNat_ofNat_of_lt' (show n < 256 by omega)
          rw [List.singleton_append, readVarint, hbyte, if_pos hlt]
      · next hge =>
          have hbyte : (UInt8.ofNat (n % 128 + 128)).toNat = n % 128 + 128 :=
            UInt8.toNat_ofNat_of_lt' (show n % 128 + 128 < 256 by omega)
          have hdigits : n % 128 + 128 - 128 + 128 * (n / 128) = n := by omega
          rw [List.cons_append, readVarint, hbyte, if_neg (by omega), ih (n / 128) (by omega)]
          simp only [hdigits]

theorem varint_ne_nil (n : Nat) : varint n ≠ [] := by
  rw [varint]
  split
  · exact List.cons_ne_nil _ _
  · exact List.cons_ne_nil _ _

/-- What is left of a read is shorter. -/
theorem length_of_readVarint {s rest : List UInt8} {n : Nat} (h : readVarint s = some (n, rest)) :
    rest.length < s.length := by
  induction s generalizing n with
  | nil => cases h
  | cons c s ih =>
      rw [readVarint] at h
      split at h
      · obtain ⟨-, rfl⟩ := Prod.mk.injEq .. ▸ Option.some.inj h
        exact Nat.lt_succ_self _
      · cases hs : readVarint s with
        | none =>
            rw [hs] at h
            cases h
        | some p =>
            obtain ⟨m, rest'⟩ := p
            rw [hs] at h
            obtain ⟨-, rfl⟩ := Prod.mk.injEq .. ▸ Option.some.inj h
            exact Nat.lt_succ_of_lt (ih hs)

/-! ## Fields -/

inductive Value
  | varint (n : Nat)
  /-- A length-delimited payload: a string, or a message inside the message. -/
  | bytes (s : List UInt8)
  deriving DecidableEq, Repr

structure Field where
  number : Nat
  value : Value
  deriving DecidableEq, Repr

/-- Tag, then value. -/
def Field.encode (f : Field) : List UInt8 :=
  match f.value with
  | .varint n => Wire.varint (8 * f.number) ++ Wire.varint n
  | .bytes s => Wire.varint (8 * f.number + 2) ++ Wire.varint s.length ++ s

def encode (fs : List Field) : List UInt8 := fs.flatMap Field.encode

/-- The field at the front, and what follows it. -/
def readField (s : List UInt8) : Option (Field × List UInt8) :=
  match readVarint s with
  | none => none
  | some (tag, s) =>
      match readVarint s with
      | none => none
      | some (n, s) =>
          if tag % 8 = 0 then some (⟨tag / 8, .varint n⟩, s)
          else if tag % 8 = 2 ∧ n ≤ s.length then some (⟨tag / 8, .bytes (s.take n)⟩, s.drop n)
          else none

theorem readField_encode (f : Field) (s : List UInt8) :
    readField (f.encode ++ s) = some (f, s) := by
  obtain ⟨number, value⟩ := f
  cases value with
  | varint n =>
      have htag : 8 * number % 8 = 0 := by omega
      have hnumber : 8 * number / 8 = number := by omega
      simp only [Field.encode, List.append_assoc, readField, readVarint_varint, if_pos htag, hnumber]
  | bytes payload =>
      have hvarint : ¬ (8 * number + 2) % 8 = 0 := by omega
      have htag : (8 * number + 2) % 8 = 2 := by omega
      have hnumber : (8 * number + 2) / 8 = number := by omega
      have hlen : payload.length ≤ (payload ++ s).length := by simp
      simp only [Field.encode, List.append_assoc, readField, readVarint_varint, if_neg hvarint,
        if_pos (And.intro htag hlen), hnumber, List.take_left, List.drop_left]

theorem length_of_readField {s rest : List UInt8} {f : Field} (h : readField s = some (f, rest)) :
    rest.length < s.length := by
  unfold readField at h
  cases htag : readVarint s with
  | none =>
      rw [htag] at h
      cases h
  | some p =>
      obtain ⟨tag, s'⟩ := p
      rw [htag] at h
      have hs := length_of_readVarint htag
      cases hvalue : readVarint s' with
      | none =>
          simp only [hvalue] at h
          cases h
      | some p =>
          obtain ⟨n, s''⟩ := p
          simp only [hvalue] at h
          have hs' := length_of_readVarint hvalue
          split at h
          · obtain ⟨-, rfl⟩ := Prod.mk.injEq .. ▸ Option.some.inj h
            omega
          · split at h
            · obtain ⟨-, rfl⟩ := Prod.mk.injEq .. ▸ Option.some.inj h
              rw [List.length_drop]
              omega
            · cases h

/-- The fields of a message; nothing when the bytes end inside one. -/
def parse (s : List UInt8) : Option (List Field) :=
  if s = [] then some []
  else
    match h : readField s with
    | none => none
    | some (f, rest) => (parse rest).map (f :: ·)
termination_by s.length
decreasing_by exact length_of_readField h

theorem encode_ne_nil (f : Field) : f.encode ≠ [] := by
  unfold Field.encode
  cases f.value with
  | varint n => simp [varint_ne_nil]
  | bytes s => simp [varint_ne_nil]

/-- **What was written is read**, whole and in order. -/
theorem parse_encode (fs : List Field) : parse (encode fs) = some fs := by
  induction fs with
  | nil =>
      rw [encode, List.flatMap_nil, parse, if_pos rfl]
  | cons f fs ih =>
      have hread := readField_encode f (encode fs)
      have hne : f.encode ++ encode fs ≠ [] := by simp [encode_ne_nil]
      rw [encode, List.flatMap_cons, ← encode, parse, if_neg hne]
      split
      · next h =>
          rw [hread] at h
          cases h
      · next f' rest h =>
          obtain ⟨rfl, rfl⟩ := Prod.mk.injEq .. ▸ Option.some.inj (hread.symm.trans h)
          rw [ih, Option.map_some]

/-! ## Looking fields up

A scalar that occurs more than once has its last value, a repeated field all of them in order. -/

def Value.varint? : Value → Option Nat
  | .varint n => some n
  | .bytes _ => none

def Value.bytes? : Value → Option (List UInt8)
  | .varint _ => none
  | .bytes s => some s

/-- The values of the fields with a number. -/
def valuesOf (number : Nat) (fs : List Field) : List Value :=
  (fs.filter (fun f => f.number = number)).map Field.value

def varint? (number : Nat) (fs : List Field) : Option Nat :=
  (valuesOf number fs).getLast?.bind Value.varint?

def bytes? (number : Nat) (fs : List Field) : Option (List UInt8) :=
  (valuesOf number fs).getLast?.bind Value.bytes?

def repeated (number : Nat) (fs : List Field) : List (List UInt8) :=
  (valuesOf number fs).filterMap Value.bytes?

/-- Every field has one of these numbers. -/
def Known (numbers : List Nat) (fs : List Field) : Prop := ∀ f ∈ fs, f.number ∈ numbers

instance (numbers : List Nat) (fs : List Field) : Decidable (Known numbers fs) :=
  inferInstanceAs (Decidable (∀ f ∈ fs, f.number ∈ numbers))

@[simp] theorem valuesOf_nil (number : Nat) : valuesOf number [] = [] := rfl

@[simp] theorem valuesOf_cons (number : Nat) (f : Field) (fs : List Field) :
    valuesOf number (f :: fs) =
      if f.number = number then f.value :: valuesOf number fs else valuesOf number fs := by
  unfold valuesOf
  rw [List.filter_cons]
  split
  · next h => rw [if_pos (of_decide_eq_true h), List.map_cons]
  · next h => rw [if_neg (fun hn => h (decide_eq_true hn))]

@[simp] theorem valuesOf_append (number : Nat) (fs fs' : List Field) :
    valuesOf number (fs ++ fs') = valuesOf number fs ++ valuesOf number fs' := by
  unfold valuesOf
  rw [List.filter_append, List.map_append]

/-- Fields that all have one number. -/
@[simp] theorem valuesOf_map {α : Type} (number number' : Nat) (value : α → Value) (l : List α) :
    valuesOf number (l.map (fun a => ⟨number', value a⟩)) =
      if number' = number then l.map value else [] := by
  induction l with
  | nil => simp
  | cons a l ih =>
      rw [List.map_cons, valuesOf_cons, ih]
      split
      · rfl
      · rfl

/-! ## Reading a list of messages -/

/-- Decoding every element of a list that was encoded element by element. -/
theorem mapM_map {α β : Type} {enc : α → β} {dec : β → Option α} (h : ∀ a, dec (enc a) = some a)
    (l : List α) : (l.map enc).mapM dec = some l := by
  induction l with
  | nil => rfl
  | cons a l ih => rw [List.map_cons, List.mapM_cons, h a, ih]; rfl

end Wire
