import Mathlib.Data.List.TakeWhile

set_option autoImplicit false

/-! # JSON texts

A parser for the grammar of RFC 8259 over bytes: values with white space around structural characters,
strings with escapes, numbers kept as they are spelled. Bytes from 0x80 on are passed through.

`Parses text o` says what the parser makes of a text in front of anything that may follow a value: the
value `o`, or its refusal (`none`). Objects and arrays are put together from what is parsed inside them
(`parses_object`, `parses_array`); one refused part refuses the whole.

Generic; recursion is bounded by the length of the text. -/

namespace Json

inductive Value
  | null
  | bool (b : Bool)
  /-- By its spelling. -/
  | num (text : List UInt8)
  | str (s : List UInt8)
  | arr (vs : List Value)
  | obj (ms : List (List UInt8 × Value))

/-! ## White space -/

def isWs (c : UInt8) : Bool := c = 32 || c = 9 || c = 10 || c = 13

def skipWs (s : List UInt8) : List UInt8 := s.dropWhile isWs

theorem skipWs_append {ws : List UInt8} (h : ∀ c ∈ ws, isWs c = true) (s : List UInt8) :
    skipWs (ws ++ s) = skipWs s := List.dropWhile_append_of_pos h

theorem skipWs_cons {c : UInt8} (h : isWs c = false) (s : List UInt8) : skipWs (c :: s) = c :: s :=
  List.dropWhile_cons_of_neg (by simp [h])

/-! ## Strings -/

def hexDigit? (c : UInt8) : Option Nat :=
  if 48 ≤ c ∧ c ≤ 57 then some (c.toNat - 48)
  else if 97 ≤ c ∧ c ≤ 102 then some (c.toNat - 87)
  else if 65 ≤ c ∧ c ≤ 70 then some (c.toNat - 55)
  else none

/-- Four hexadecimal digits. -/
def readHex4 : List UInt8 → Option (Nat × List UInt8)
  | a :: b :: c :: d :: s =>
      match hexDigit? a, hexDigit? b, hexDigit? c, hexDigit? d with
      | some a, some b, some c, some d => some (((a * 16 + b) * 16 + c) * 16 + d, s)
      | _, _, _, _ => none
  | _ => none

/-- What follows `\u`: a code point, or two halves of one. -/
def readUnicode (s : List UInt8) : Option (List UInt8 × List UInt8) :=
  match readHex4 s with
  | none => none
  | some (u, s) =>
      if u < 0xD800 ∨ 0xE000 ≤ u then some (String.utf8EncodeChar (Char.ofNat u), s)
      else if 0xDC00 ≤ u then none
      else
        match s with
        | 92 :: 117 :: s =>
            match readHex4 s with
            | none => none
            | some (l, s) =>
                if 0xDC00 ≤ l ∧ l < 0xE000 then
                  some (String.utf8EncodeChar
                    (Char.ofNat (0x10000 + (u - 0xD800) * 0x400 + (l - 0xDC00))), s)
                else none
        | _ => none

/-- The escapes of one letter. -/
def escape? (c : UInt8) : Option UInt8 :=
  if c = 34 ∨ c = 92 ∨ c = 47 then some c
  else if c = 98 then some 8
  else if c = 102 then some 12
  else if c = 110 then some 10
  else if c = 114 then some 13
  else if c = 116 then some 9
  else none

/-- What follows a backslash. -/
def readEscape : List UInt8 → Option (List UInt8 × List UInt8)
  | [] => none
  | e :: s => if e = 117 then readUnicode s else (escape? e).map (fun b => ([b], s))

/-- One character of a string. -/
def readChar : List UInt8 → Option (List UInt8 × List UInt8)
  | [] => none
  | c :: s =>
      if c = 92 then readEscape s
      else if c < 32 ∨ c = 34 then none
      else some ([c], s)

theorem length_of_readHex4 {s rest : List UInt8} {n : Nat} (h : readHex4 s = some (n, rest)) :
    rest.length < s.length := by
  unfold readHex4 at h
  split at h
  · split at h
    · obtain ⟨-, rfl⟩ := Prod.mk.injEq .. ▸ Option.some.inj h
      simp only [List.length_cons]
      omega
    · cases h
  · cases h

theorem length_of_readUnicode {s rest b : List UInt8} (h : readUnicode s = some (b, rest)) :
    rest.length < s.length := by
  unfold readUnicode at h
  cases hu : readHex4 s with
  | none =>
      rw [hu] at h
      cases h
  | some p =>
      obtain ⟨u, s'⟩ := p
      have hlen := length_of_readHex4 hu
      simp only [hu] at h
      split at h
      · obtain ⟨-, rfl⟩ := Prod.mk.injEq .. ▸ Option.some.inj h
        exact hlen
      · split at h
        · cases h
        · split at h
          · next s'' =>
              split at h
              · cases h
              · next l rest' hl =>
                  have hlen' := length_of_readHex4 hl
                  split at h
                  · obtain ⟨-, rfl⟩ := Prod.mk.injEq .. ▸ Option.some.inj h
                    simp only [List.length_cons] at hlen
                    omega
                  · cases h
          · cases h

theorem length_of_readEscape {s rest b : List UInt8} (h : readEscape s = some (b, rest)) :
    rest.length < s.length := by
  cases s with
  | nil => cases h
  | cons e s =>
      rw [readEscape] at h
      split at h
      · exact Nat.lt_succ_of_lt (length_of_readUnicode h)
      · obtain ⟨b', -, heq⟩ := Option.map_eq_some_iff.1 h
        obtain ⟨-, rfl⟩ := Prod.mk.injEq .. ▸ heq
        exact Nat.lt_succ_self _

theorem length_of_readChar {s rest b : List UInt8} (h : readChar s = some (b, rest)) :
    rest.length < s.length := by
  cases s with
  | nil => cases h
  | cons c s =>
      rw [readChar] at h
      split at h
      · exact Nat.lt_succ_of_lt (length_of_readEscape h)
      · split at h
        · cases h
        · obtain ⟨-, rfl⟩ := Prod.mk.injEq .. ▸ Option.some.inj h
          exact Nat.lt_succ_self _

/-- A string, from behind its opening quote. -/
def readString (s : List UInt8) : Option (List UInt8 × List UInt8) :=
  if s.head? = some 34 then some ([], s.drop 1)
  else
    match h : readChar s with
    | none => none
    | some (b, rest) => (readString rest).map (fun p => (b ++ p.1, p.2))
termination_by s.length
decreasing_by exact length_of_readChar h

theorem readString_quote (s : List UInt8) : readString (34 :: s) = some ([], s) := by
  rw [readString, List.head?_cons, if_pos rfl]
  rfl

/-- A string goes on behind a character that is read. -/
theorem readString_of_readChar {s rest b : List UInt8} (hs : s.head? ≠ some 34)
    (h : readChar s = some (b, rest)) :
    readString s = (readString rest).map (fun p => (b ++ p.1, p.2)) := by
  rw [readString, if_neg hs]
  split
  · next h' =>
      rw [h] at h'
      cases h'
  · next b' rest' h' =>
      obtain ⟨rfl, rfl⟩ := Prod.mk.injEq .. ▸ Option.some.inj (h.symm.trans h')
      rfl

theorem readString_of_readChar_none {s : List UInt8} (hs : s.head? ≠ some 34)
    (h : readChar s = none) : readString s = none := by
  rw [readString, if_neg hs]
  split
  · rfl
  · next b' rest' h' =>
      rw [h] at h'
      cases h'

/-- Bytes that stand for themselves in a string. -/
def Plain (s : List UInt8) : Prop := ∀ c ∈ s, 32 ≤ c ∧ c ≠ 34 ∧ c ≠ 92

instance (s : List UInt8) : Decidable (Plain s) := List.decidableBAll _ s

theorem readChar_plain {c : UInt8} (h : 32 ≤ c ∧ c ≠ 34 ∧ c ≠ 92) (s : List UInt8) :
    readChar (c :: s) = some ([c], s) := by
  rw [readChar, if_neg h.2.2, if_neg]
  rw [not_or]
  exact ⟨UInt8.not_lt.2 h.1, h.2.1⟩

theorem readString_plain {key : List UInt8} (h : Plain key) (s : List UInt8) :
    readString (key ++ 34 :: s) = some (key, s) := by
  induction key with
  | nil => exact readString_quote s
  | cons c key ih =>
      have hc := h c (List.mem_cons_self ..)
      have hhead : (c :: (key ++ 34 :: s)).head? ≠ some 34 := by simpa using hc.2.1
      rw [List.cons_append, readString_of_readChar hhead (readChar_plain hc _),
        ih (fun d hd => h d (List.mem_cons_of_mem c hd))]
      rfl

/-! ## Numbers -/

def isDigit (c : UInt8) : Bool := 48 ≤ c && c ≤ 57

/-- One digit or more. -/
def readDigits (s : List UInt8) : Option (List UInt8 × List UInt8) :=
  if s.takeWhile isDigit = [] then none else some (s.takeWhile isDigit, s.dropWhile isDigit)

/-- No leading zero, except for zero itself. -/
def readInt (s : List UInt8) : Option (List UInt8 × List UInt8) :=
  match readDigits s with
  | none => none
  | some (ds, rest) => if ds.head? = some 48 ∧ ds ≠ [48] then none else some (ds, rest)

def readFrac : List UInt8 → Option (List UInt8 × List UInt8)
  | [] => some ([], [])
  | c :: s => if c = 46 then (readDigits s).map (fun p => (46 :: p.1, p.2)) else some ([], c :: s)

def readExp : List UInt8 → Option (List UInt8 × List UInt8)
  | [] => some ([], [])
  | c :: s =>
      if c = 101 ∨ c = 69 then
        let sign := if s.head? = some 43 ∨ s.head? = some 45 then s.take 1 else []
        (readDigits (s.drop sign.length)).map (fun p => (c :: (sign ++ p.1), p.2))
      else some ([], c :: s)

/-- A number, by its spelling. -/
def readNumber (s : List UInt8) : Option (List UInt8 × List UInt8) :=
  let sign := if s.head? = some 45 then [45] else []
  match readInt (s.drop sign.length) with
  | none => none
  | some (int, s) =>
      match readFrac s with
      | none => none
      | some (frac, s) => (readExp s).map (fun p => (sign ++ (int ++ (frac ++ p.1)), p.2))

def Digits (ds : List UInt8) : Prop := ds ≠ [] ∧ ∀ c ∈ ds, isDigit c = true

inductive IsFrac : List UInt8 → Prop
  | absent : IsFrac []
  | present {ds : List UInt8} (h : Digits ds) : IsFrac (46 :: ds)

inductive IsExp : List UInt8 → Prop
  | absent : IsExp []
  | present {c : UInt8} {sign ds : List UInt8} (hc : c = 101 ∨ c = 69)
      (hsign : sign = [] ∨ sign = [43] ∨ sign = [45]) (h : Digits ds) : IsExp (c :: (sign ++ ds))

/-- `[ minus ] int [ frac ] [ exp ]`. -/
structure IsNumber (text : List UInt8) : Prop where
  parts : ∃ sign int frac exp, text = sign ++ (int ++ (frac ++ exp)) ∧
    (sign = [] ∨ sign = [45]) ∧ Digits int ∧ (int.head? = some 48 → int = [48]) ∧
    IsFrac frac ∧ IsExp exp

/-- What may follow a number without becoming part of it. -/
def Delimited (rest : List UInt8) : Prop :=
  ∀ c, rest.head? = some c → isDigit c = false ∧ c ≠ 46 ∧ c ≠ 101 ∧ c ≠ 69

theorem delimited_nil : Delimited [] := fun _ h => by cases h

theorem delimited_cons {c : UInt8} {s : List UInt8}
    (h : isDigit c = false ∧ c ≠ 46 ∧ c ≠ 101 ∧ c ≠ 69) : Delimited (c :: s) := by
  intro d hd
  obtain rfl : c = d := Option.some.inj hd
  exact h

theorem readDigits_append {ds rest : List UInt8} (h : Digits ds)
    (hrest : ∀ c, rest.head? = some c → isDigit c = false) :
    readDigits (ds ++ rest) = some (ds, rest) := by
  have htake : rest.takeWhile isDigit = [] ∧ rest.dropWhile isDigit = rest := by
    cases rest with
    | nil => exact ⟨rfl, rfl⟩
    | cons c rest =>
        have hc := hrest c rfl
        exact ⟨List.takeWhile_cons_of_neg (by simp [hc]), List.dropWhile_cons_of_neg (by simp [hc])⟩
  rw [readDigits, List.takeWhile_append_of_pos h.2, List.dropWhile_append_of_pos h.2, htake.1,
    htake.2, List.append_nil, if_neg h.1]

theorem readExp_append {exp rest : List UInt8} (h : IsExp exp) (hrest : Delimited rest) :
    readExp (exp ++ rest) = some (exp, rest) := by
  cases h with
  | absent =>
      cases rest with
      | nil => rfl
      | cons c rest =>
          obtain ⟨-, -, he, hE⟩ := hrest c rfl
          exact if_neg (not_or.2 ⟨he, hE⟩)
  | @present c sign ds hc hsign h =>
      have hread := readDigits_append h (fun c hc => (hrest c hc).1)
      have hhead : ∃ d t, ds = d :: t ∧ isDigit d = true := by
        cases ds with
        | nil => exact absurd rfl h.1
        | cons d t => exact ⟨d, t, rfl, h.2 d (List.mem_cons_self ..)⟩
      rw [List.cons_append, readExp, if_pos hc]
      rcases hsign with rfl | rfl | rfl
      · obtain ⟨d, t, rfl, hd⟩ := hhead
        have hplus : d ≠ 43 ∧ d ≠ 45 := by
          refine ⟨?_, ?_⟩ <;> rintro rfl <;> exact absurd hd (by decide)
        have hsign : ¬ ((d :: t ++ rest).head? = some 43 ∨ (d :: t ++ rest).head? = some 45) := by
          simpa using hplus
        simp only [List.nil_append, if_neg hsign, List.length_nil, List.drop_zero, hread,
          Option.map_some]
      · simp [hread]
      · simp [hread]

theorem readFrac_append {frac rest : List UInt8} (h : IsFrac frac)
    (hrest : ∀ c, rest.head? = some c → isDigit c = false ∧ c ≠ 46) :
    readFrac (frac ++ rest) = some (frac, rest) := by
  cases h with
  | absent =>
      cases rest with
      | nil => rfl
      | cons c rest => exact if_neg (hrest c rfl).2
  | present h =>
      rw [List.cons_append, readFrac, if_pos rfl, readDigits_append h (fun c hc => (hrest c hc).1)]
      rfl

theorem IsExp.head {exp rest : List UInt8} (h : IsExp exp) (hrest : Delimited rest) (c : UInt8)
    (hc : (exp ++ rest).head? = some c) : isDigit c = false ∧ c ≠ 46 := by
  cases h with
  | absent => exact ⟨(hrest c hc).1, (hrest c hc).2.1⟩
  | present he hsign h =>
      obtain rfl := Option.some.inj hc
      rcases he with rfl | rfl
      · exact ⟨by decide, by decide⟩
      · exact ⟨by decide, by decide⟩

theorem IsFrac.head {frac rest : List UInt8} (h : IsFrac frac)
    (hrest : ∀ c, rest.head? = some c → isDigit c = false ∧ c ≠ 46) (c : UInt8)
    (hc : (frac ++ rest).head? = some c) : isDigit c = false := by
  cases h with
  | absent => exact (hrest c hc).1
  | present h =>
      obtain rfl := Option.some.inj hc
      decide

theorem readInt_append {int rest : List UInt8} (h : Digits int)
    (hzero : int.head? = some 48 → int = [48])
    (hrest : ∀ c, rest.head? = some c → isDigit c = false) :
    readInt (int ++ rest) = some (int, rest) := by
  rw [readInt, readDigits_append h hrest]
  exact if_neg (fun hc => hc.2 (hzero hc.1))

theorem Digits.head_ne_minus {int : List UInt8} (h : Digits int) (rest : List UInt8) :
    ¬ (int ++ rest).head? = some 45 := by
  obtain ⟨hne, hdigits⟩ := h
  cases int with
  | nil => exact absurd rfl hne
  | cons d int =>
      intro hd
      obtain rfl := Option.some.inj hd
      exact absurd (hdigits 45 (List.mem_cons_self ..)) (by decide)

/-- A number is read up to what delimits it. -/
theorem readNumber_append {text rest : List UInt8} (h : IsNumber text) (hrest : Delimited rest) :
    readNumber (text ++ rest) = some (text, rest) := by
  obtain ⟨sign, int, frac, exp, rfl, hsign, hint, hzero, hfrac, hexp⟩ := h.parts
  have hhead := fun c hc => hexp.head hrest c hc
  have hInt := readInt_append hint hzero (fun c hc => hfrac.head hhead c hc)
  have hFrac := readFrac_append hfrac hhead
  have hExp := readExp_append hexp hrest
  rcases hsign with rfl | rfl
  · have hminus := hint.head_ne_minus (frac ++ (exp ++ rest))
    simp only [List.nil_append, List.append_assoc, readNumber, if_neg hminus, List.length_nil,
      List.drop_zero, hInt, hFrac, hExp, Option.map_some]
  · simp [readNumber, hInt, hFrac, hExp]

/-! ## Values -/

/-- A structural character, with white space in front. -/
def expect (c : UInt8) (s : List UInt8) : Option (List UInt8) :=
  match skipWs s with
  | [] => none
  | d :: s => if d = c then some s else none

/-- A literal name. -/
def literal (word : List UInt8) (v : Value) (s : List UInt8) : Option (Value × List UInt8) :=
  if word.isPrefixOf s then some (v, s.drop word.length) else none

mutual

def value : (fuel : Nat) → List UInt8 → Option (Value × List UInt8)
  | 0, _ => none
  | fuel + 1, s =>
      match skipWs s with
      | [] => none
      | c :: s =>
          if c = 34 then (readString s).map (fun p => (.str p.1, p.2))
          else if c = 123 then
            if (skipWs s).head? = some 125 then some (.obj [], (skipWs s).drop 1)
            else (members fuel s).map (fun p => (.obj p.1, p.2))
          else if c = 91 then
            if (skipWs s).head? = some 93 then some (.arr [], (skipWs s).drop 1)
            else (elements fuel s).map (fun p => (.arr p.1, p.2))
          else if c = 116 then literal [116, 114, 117, 101] (.bool true) (c :: s)
          else if c = 102 then literal [102, 97, 108, 115, 101] (.bool false) (c :: s)
          else if c = 110 then literal [110, 117, 108, 108] .null (c :: s)
          else (readNumber (c :: s)).map (fun p => (.num p.1, p.2))

/-- The members of an object that has some, and its closing brace. -/
def members : (fuel : Nat) → List UInt8 → Option (List (List UInt8 × Value) × List UInt8)
  | 0, _ => none
  | fuel + 1, s =>
      match (expect 34 s).bind readString with
      | none => none
      | some (key, s) =>
          match (expect 58 s).bind (value fuel) with
          | none => none
          | some (v, s) =>
              match expect 44 s with
              | some s => (members fuel s).map (fun p => ((key, v) :: p.1, p.2))
              | none => (expect 125 s).map (fun s => ([(key, v)], s))

/-- The elements of an array that has some, and its closing bracket. -/
def elements : (fuel : Nat) → List UInt8 → Option (List Value × List UInt8)
  | 0, _ => none
  | fuel + 1, s =>
      match value fuel s with
      | none => none
      | some (v, s) =>
          match expect 44 s with
          | some s => (elements fuel s).map (fun p => (v :: p.1, p.2))
          | none => (expect 93 s).map (fun s => ([v], s))

end

/-- A whole text. -/
def parse (text : List UInt8) : Option Value :=
  match value text.length text with
  | none => none
  | some (v, rest) => if skipWs rest = [] then some v else none

/-! ## What is made of a text -/

/-- The parser makes `o` of a text, whatever may follow a value behind it. -/
structure Parses (text : List UInt8) (o : Option Value) : Prop where
  starts : ∃ c s, text = c :: s ∧ isWs c = false ∧ c ≠ 93
  value : ∀ fuel rest, text.length ≤ fuel → Delimited rest →
    value fuel (text ++ rest) = o.map (fun v => (v, rest))

theorem expect_cons {c : UInt8} (h : isWs c = false) (s : List UInt8) :
    expect c (c :: s) = some s := by
  rw [expect, skipWs_cons h]
  exact if_pos rfl

theorem expect_cons_of_ne {c d : UInt8} (h : isWs d = false) (hne : d ≠ c) (s : List UInt8) :
    expect c (d :: s) = none := by
  rw [expect, skipWs_cons h]
  exact if_neg hne

theorem expect_ws {ws : List UInt8} (h : ∀ c ∈ ws, isWs c = true) (c : UInt8) (s : List UInt8) :
    expect c (ws ++ s) = expect c s := by
  rw [expect, skipWs_append h, expect]

theorem value_ws {ws : List UInt8} (h : ∀ c ∈ ws, isWs c = true) (fuel : Nat) (s : List UInt8) :
    Json.value fuel (ws ++ s) = Json.value fuel s := by
  cases fuel with
  | zero => rw [Json.value, Json.value]
  | succ fuel => rw [Json.value, Json.value, skipWs_append h]

/-- A string, by what its quoted part is read as. -/
theorem parses_string {quoted : List UInt8} {o : Option (List UInt8)}
    (h : ∀ rest, readString (quoted ++ 34 :: rest) = o.map (fun s => (s, rest))) :
    Parses (34 :: (quoted ++ [34])) (o.map .str) := by
  refine ⟨⟨34, _, rfl, by decide, by decide⟩, ?_⟩
  intro fuel rest hfuel _
  cases fuel with
  | zero => exact absurd hfuel (by simp)
  | succ fuel =>
      rw [List.cons_append, List.append_assoc, List.singleton_append, Json.value,
        skipWs_cons (by decide)]
      simp only [if_true, h, Option.map_map]
      rfl

theorem IsNumber.starts {text : List UInt8} (h : IsNumber text) :
    ∃ c s, text = c :: s ∧ (c = 45 ∨ isDigit c = true) := by
  obtain ⟨sign, int, frac, exp, rfl, hsign, hint, -⟩ := h.parts
  rcases hsign with rfl | rfl
  · obtain ⟨hne, hdigits⟩ := hint
    cases int with
    | nil => exact absurd rfl hne
    | cons d int => exact ⟨d, _, rfl, .inr (hdigits d (List.mem_cons_self ..))⟩
  · exact ⟨45, _, rfl, .inl rfl⟩

/-- A number starts no other value. -/
theorem number_start : ∀ c : UInt8, c = 45 ∨ isDigit c = true →
    isWs c = false ∧ c ≠ 93 ∧ c ≠ 34 ∧ c ≠ 123 ∧ c ≠ 91 ∧ c ≠ 116 ∧ c ≠ 102 ∧ c ≠ 110 := by
  intro c hc
  have hrange : 45 ≤ c.toNat ∧ c.toNat ≤ 57 := by
    rcases hc with rfl | hc
    · decide
    · rw [isDigit, Bool.and_eq_true, decide_eq_true_eq, decide_eq_true_eq, UInt8.le_iff_toNat_le,
        UInt8.le_iff_toNat_le] at hc
      exact ⟨Nat.le_trans (by decide) hc.1, hc.2⟩
  have hne : ∀ d : UInt8, (d.toNat < 45 ∨ 57 < d.toNat) → c ≠ d := by
    rintro d hd rfl
    omega
  refine ⟨?_, hne _ (by decide), hne _ (by decide), hne _ (by decide), hne _ (by decide),
    hne _ (by decide), hne _ (by decide), hne _ (by decide)⟩
  simp only [isWs, hne 32 (by decide), hne 9 (by decide), hne 10 (by decide), hne 13 (by decide),
    decide_false, Bool.or_self]

theorem parses_number {text : List UInt8} (h : IsNumber text) : Parses text (some (.num text)) := by
  obtain ⟨c, s, rfl, hc⟩ := h.starts
  obtain ⟨hws, h93, h34, h123, h91, h116, h102, h110⟩ := number_start c hc
  refine ⟨⟨c, s, rfl, hws, h93⟩, ?_⟩
  intro fuel rest hfuel hrest
  have hread := readNumber_append h hrest
  cases fuel with
  | zero => exact absurd hfuel (by simp)
  | succ fuel =>
      rw [List.cons_append] at hread ⊢
      rw [Json.value, skipWs_cons hws]
      simp only [if_neg h34, if_neg h123, if_neg h91, if_neg h116, if_neg h102, if_neg h110, hread,
        Option.map_some]

theorem parses_bool (b : Bool) :
    Parses (if b then [116, 114, 117, 101] else [102, 97, 108, 115, 101]) (some (.bool b)) := by
  cases b with
  | true =>
      refine ⟨⟨116, _, rfl, by decide, by decide⟩, ?_⟩
      intro fuel rest hfuel _
      cases fuel with
      | zero => exact absurd hfuel (by simp)
      | succ fuel =>
          simp [Json.value, skipWs_cons (show isWs 116 = false by decide), literal]
  | false =>
      refine ⟨⟨102, _, rfl, by decide, by decide⟩, ?_⟩
      intro fuel rest hfuel _
      cases fuel with
      | zero => exact absurd hfuel (by simp)
      | succ fuel =>
          simp [Json.value, skipWs_cons (show isWs 102 = false by decide), literal]

/-! ## Objects -/

/-- A member: its key, the text of its value and what the parser makes of it. -/
structure Member where
  key : List UInt8
  text : List UInt8
  value : Option Value

/-- A member that can be read, or is refused for its value. -/
structure Member.Ok (m : Member) : Prop where
  key : Plain m.key
  value : Parses m.text m.value

def Member.written (m : Member) : List UInt8 := 34 :: (m.key ++ 34 :: 58 :: m.text)

/-- Members with commas between them. -/
def membersText : List Member → List UInt8
  | [] => []
  | m :: ms => m.written ++ ms.flatMap (fun m => 44 :: m.written)

/-- What the parser makes of members: nothing, if one is refused. -/
def memberValues (ms : List Member) : Option (List (List UInt8 × Value)) :=
  ms.mapM (fun m => m.value.map (fun v => (m.key, v)))

theorem delimited_comma (s : List UInt8) : Delimited (44 :: s) :=
  delimited_cons ⟨by decide, by decide, by decide, by decide⟩

theorem delimited_brace (s : List UInt8) : Delimited (125 :: s) :=
  delimited_cons ⟨by decide, by decide, by decide, by decide⟩

/-- One member is read up to what follows it. -/
theorem readMember {m : Member} (h : m.Ok) {fuel : Nat} {rest : List UInt8}
    (hfuel : m.text.length ≤ fuel) (hrest : Delimited rest) :
    (expect 34 (m.written ++ rest)).bind readString = some (m.key, 58 :: (m.text ++ rest)) ∧
      (expect 58 (58 :: (m.text ++ rest))).bind (Json.value fuel) =
        m.value.map (fun v => (v, rest)) := by
  constructor
  · rw [Member.written, List.cons_append, expect_cons (by decide), Option.bind_some, List.append_assoc,
      List.cons_append, List.cons_append, readString_plain h.key]
  · rw [expect_cons (by decide), Option.bind_some, h.value.value fuel rest hfuel hrest]

theorem Member.length_written (m : Member) : m.text.length < m.written.length := by
  simp only [Member.written, List.length_cons, List.length_append]
  omega

theorem memberValues_cons (m : Member) (ms : List Member) :
    memberValues (m :: ms) =
      m.value.bind (fun v => (memberValues ms).map (fun vs => (m.key, v) :: vs)) := by
  rw [memberValues, List.mapM_cons, ← memberValues]
  cases m.value with
  | none => rfl
  | some v =>
      cases memberValues ms with
      | none => rfl
      | some vs => rfl

/-- Members are read one by one up to the closing brace. -/
theorem members_membersText (m : Member) (ms : List Member) (h : ∀ m' ∈ m :: ms, m'.Ok) (fuel : Nat)
    (rest : List UInt8) (hfuel : (membersText (m :: ms)).length ≤ fuel) :
    members fuel (membersText (m :: ms) ++ 125 :: rest) =
      (memberValues (m :: ms)).map (fun vs => (vs, rest)) := by
  induction ms generalizing m fuel with
  | nil =>
      have hlen := m.length_written
      rw [membersText, List.flatMap_nil, List.append_nil] at hfuel ⊢
      cases fuel with
      | zero => exact absurd hfuel (by omega)
      | succ fuel =>
          obtain ⟨hkey, hvalue⟩ := readMember (h m (List.mem_cons_self ..))
            (show m.text.length ≤ fuel by omega) (delimited_brace rest)
          rw [members, hkey, memberValues_cons]
          simp only [hvalue]
          cases m.value with
          | none => rfl
          | some v =>
              simp only [Option.map_some, Option.bind_some,
                expect_cons_of_ne (show isWs 125 = false by decide) (show 125 ≠ 44 by decide),
                expect_cons (show isWs 125 = false by decide)]
              rfl
  | cons m' ms ih =>
      have hlen := m.length_written
      have htail : membersText (m :: m' :: ms) = m.written ++ 44 :: membersText (m' :: ms) := by
        simp [membersText]
      rw [htail] at hfuel ⊢
      rw [List.length_append, List.length_cons] at hfuel
      cases fuel with
      | zero => exact absurd hfuel (by omega)
      | succ fuel =>
          obtain ⟨hkey, hvalue⟩ := readMember (h m (List.mem_cons_self ..))
            (show m.text.length ≤ fuel by omega)
            (delimited_comma (membersText (m' :: ms) ++ 125 :: rest))
          have hrest := ih m' (fun m'' hm'' => h m'' (List.mem_cons_of_mem m hm'')) fuel (by omega)
          rw [List.append_assoc, List.cons_append, members, hkey, memberValues_cons]
          simp only [hvalue]
          cases m.value with
          | none => rfl
          | some v =>
              simp only [Option.map_some, Option.bind_some,
                expect_cons (show isWs 44 = false by decide), hrest, Option.map_map]
              rfl

/-- **Objects**, from what is made of their members. -/
theorem parses_object (ms : List Member) (h : ∀ m ∈ ms, m.Ok) :
    Parses (123 :: (membersText ms ++ [125])) ((memberValues ms).map .obj) := by
  refine ⟨⟨123, _, rfl, by decide, by decide⟩, ?_⟩
  intro fuel rest hfuel _
  rw [List.length_cons, List.length_append] at hfuel
  cases fuel with
  | zero => exact absurd hfuel (by omega)
  | succ fuel =>
      rw [List.cons_append, List.append_assoc, List.singleton_append, Json.value,
        skipWs_cons (by decide)]
      simp only [if_neg (show (123 : UInt8) ≠ 34 by decide), if_true]
      cases ms with
      | nil =>
          have hbrace : skipWs (membersText [] ++ 125 :: rest) = 125 :: rest :=
            skipWs_cons (by decide) rest
          rw [hbrace]
          rfl
      | cons m ms =>
          have hquote : (skipWs (membersText (m :: ms) ++ 125 :: rest)).head? ≠ some 125 := by
            rw [membersText, Member.written, List.cons_append, List.cons_append,
              skipWs_cons (by decide)]
            simp
          rw [if_neg hquote, members_membersText m ms h fuel rest (by omega), Option.map_map,
            Option.map_map]
          rfl

/-! ## Arrays -/

/-- An element: its text and what the parser makes of it. -/
structure Element where
  text : List UInt8
  value : Option Value

/-- Elements with commas between them, and white space behind these. -/
def elementsText (ws : List UInt8) : List Element → List UInt8
  | [] => []
  | e :: es => e.text ++ es.flatMap (fun e => 44 :: (ws ++ e.text))

def elementValues (es : List Element) : Option (List Value) := es.mapM Element.value

theorem elementValues_cons (e : Element) (es : List Element) :
    elementValues (e :: es) =
      e.value.bind (fun v => (elementValues es).map (fun vs => v :: vs)) := by
  rw [elementValues, List.mapM_cons, ← elementValues]
  cases e.value with
  | none => rfl
  | some v =>
      cases elementValues es with
      | none => rfl
      | some vs => rfl

theorem delimited_ws {ws : List UInt8} (hws : ∀ c ∈ ws, isWs c = true) (s : List UInt8) :
    Delimited (ws ++ 93 :: s) := by
  have hall : ∀ c : UInt8, isWs c = true → isDigit c = false ∧ c ≠ 46 ∧ c ≠ 101 ∧ c ≠ 69 := by
    intro c hc
    simp only [isWs, Bool.or_eq_true, decide_eq_true_eq] at hc
    rcases hc with ((rfl | rfl) | rfl) | rfl <;> decide
  cases ws with
  | nil => exact delimited_cons ⟨by decide, by decide, by decide, by decide⟩
  | cons c ws => exact delimited_cons (hall c (hws c (List.mem_cons_self ..)))

section

variable {ws : List UInt8} (hws : ∀ c ∈ ws, isWs c = true)

include hws

/-- Elements are read one by one up to the closing bracket. -/
theorem elements_elementsText (e : Element) (es : List Element)
    (h : ∀ e' ∈ e :: es, Parses e'.text e'.value) (fuel : Nat) (rest : List UInt8)
    (hfuel : (elementsText ws (e :: es)).length < fuel) :
    elements fuel (ws ++ (elementsText ws (e :: es) ++ (ws ++ 93 :: rest))) =
      (elementValues (e :: es)).map (fun vs => (vs, rest)) := by
  induction es generalizing e fuel with
  | nil =>
      have he := h e (List.mem_cons_self ..)
      rw [elementsText, List.flatMap_nil, List.append_nil] at hfuel ⊢
      cases fuel with
      | zero => exact absurd hfuel (by omega)
      | succ fuel =>
          rw [elements, value_ws hws, he.value fuel _ (by omega) (delimited_ws hws rest),
            elementValues_cons]
          cases e.value with
          | none => rfl
          | some v =>
              simp only [Option.map_some, Option.bind_some, expect_ws hws,
                expect_cons_of_ne (show isWs 93 = false by decide) (show 93 ≠ 44 by decide),
                expect_cons (show isWs 93 = false by decide)]
              rfl
  | cons e' es ih =>
      have he := h e (List.mem_cons_self ..)
      have htail : elementsText ws (e :: e' :: es) =
          e.text ++ 44 :: (ws ++ elementsText ws (e' :: es)) := by
        simp [elementsText]
      obtain ⟨c, s, htext, -, -⟩ := he.starts
      have hpos : 0 < e.text.length := by simp [htext]
      rw [htail] at hfuel ⊢
      rw [List.length_append, List.length_cons, List.length_append] at hfuel
      cases fuel with
      | zero => exact absurd hfuel (by omega)
      | succ fuel =>
          have hrest := ih e' (fun e'' he'' => h e'' (List.mem_cons_of_mem e he'')) fuel (by omega)
          rw [List.append_assoc, List.cons_append, List.append_assoc, elements, value_ws hws,
            he.value fuel _ (by omega) (delimited_comma _), elementValues_cons]
          cases e.value with
          | none => rfl
          | some v =>
              simp only [Option.map_some, Option.bind_some,
                expect_cons (show isWs 44 = false by decide), hrest, Option.map_map]
              rfl

/-- **Arrays**, from what is made of their elements. -/
theorem parses_array (es : List Element) (h : ∀ e ∈ es, Parses e.text e.value) :
    Parses (91 :: (ws ++ (elementsText ws es ++ (ws ++ [93])))) ((elementValues es).map .arr) := by
  refine ⟨⟨91, _, rfl, by decide, by decide⟩, ?_⟩
  intro fuel rest hfuel _
  simp only [List.length_cons, List.length_append] at hfuel
  cases fuel with
  | zero => exact absurd hfuel (by omega)
  | succ fuel =>
      simp only [List.cons_append, List.append_assoc, List.nil_append]
      rw [Json.value, skipWs_cons (by decide)]
      simp only [if_neg (show (91 : UInt8) ≠ 34 by decide), if_neg (show (91 : UInt8) ≠ 123 by decide),
        if_true]
      cases es with
      | nil =>
          have hbracket : skipWs (ws ++ (elementsText ws [] ++ (ws ++ 93 :: rest))) = 93 :: rest := by
            rw [skipWs_append hws, elementsText, List.nil_append, skipWs_append hws,
              skipWs_cons (by decide)]
          rw [hbracket]
          rfl
      | cons e es =>
          obtain ⟨c, s, htext, hc, hc93⟩ := (h e (List.mem_cons_self ..)).starts
          have hopen : (skipWs (ws ++ (elementsText ws (e :: es) ++ (ws ++ 93 :: rest)))).head? ≠
              some 93 := by
            rw [skipWs_append hws, elementsText, htext, List.cons_append, List.cons_append,
              skipWs_cons hc]
            simpa using hc93
          rw [if_neg hopen, elements_elementsText hws e es h fuel rest (by omega), Option.map_map,
            Option.map_map]
          rfl

/-- A whole text: a value and white space behind it. -/
theorem parse_append_ws {text : List UInt8} {o : Option Value} (h : Parses text o) :
    parse (text ++ ws) = o := by
  have hrest : Delimited ws := by
    intro c hc
    cases ws with
    | nil => cases hc
    | cons d ws =>
        exact (delimited_ws hws []) c hc
  have hvalue := h.value (text ++ ws).length ws (by simp) hrest
  have hskip : skipWs ws = [] := List.dropWhile_eq_nil_iff.2 hws
  rw [parse, hvalue]
  cases o with
  | none => rfl
  | some v => exact if_pos hskip

end

end Json
