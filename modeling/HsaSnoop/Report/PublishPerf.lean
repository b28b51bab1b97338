import Mathlib.Algebra.Order.Monoid.Unbundled.WithTop
import Mathlib.Data.List.DropRight
import HsaSnoop.Library.Families
import HsaSnoop.Library.Fields
import HsaSnoop.Library.Regex

set_option autoImplicit false

/-! # The report of counters

`publish-perf.py` reads the metrics of a run from their text form: a regular expression takes a line's
series and value, a dictionary keeps one value per series, and a metric is the sum of the series whose
key starts with its name.

`reMatch_eq` says without backtracking what the expression takes from a line. -/

namespace HsaSnoop

open Families

/-! ## Strings -/

/-- `str.isspace`, which is also `\s`. -/
def pySpace (c : Char) : Bool :=
  let n := c.toNat
  (9 ≤ n && n ≤ 13) || (28 ≤ n && n ≤ 32) || n = 0x85 || n = 0xa0 || n = 0x1680 ||
    (0x2000 ≤ n && n ≤ 0x200a) || n = 0x2028 || n = 0x2029 || n = 0x202f || n = 0x205f || n = 0x3000

/-- The characters that end a line for `splitlines`. -/
def lineBreak (c : Char) : Bool :=
  let n := c.toNat
  (10 ≤ n && n ≤ 13) || (28 ≤ n && n ≤ 30) || n = 0x85 || n = 0x2028 || n = 0x2029

/-- The lines that are ended, and what follows them. -/
def cutLines : List Char → List (List Char) × List Char
  | [] => ([], [])
  | c :: s =>
      let r := cutLines s
      -- The two characters end one line.
      if c = '\r' ∧ s.head? = some '\n' then r
      else if lineBreak c then ([] :: r.1, r.2)
      else
        match r.1 with
        | [] => ([], c :: r.2)
        | l :: ls => ((c :: l) :: ls, r.2)

def splitlines (s : List Char) : List (List Char) :=
  let r := cutLines s
  if r.2 = [] then r.1 else r.1 ++ [r.2]

def strip (s : List Char) : List Char := (s.dropWhile pySpace).rdropWhile pySpace

/-! ## The expression -/

def isNameStart (c : Char) : Bool := c.isAlpha || c = '_' || c = ':'

def isNameChar (c : Char) : Bool := c.isAlphanum || c = '_' || c = ':'

def isSign (c : Char) : Bool := c = '-' || c = '+'

/-- `[0-9.eE+\-]`. -/
def isNumberChar (c : Char) : Bool := c.isDigit || c = '.' || c = 'e' || c = 'E' || isSign c

/-- `\{[^}]*\}`. -/
def bracesRegex : Regex Char :=
  .seq (.char (· = '{')) (.seq (.many (· ≠ '}')) (.char (· = '}')))

/-- `[a-zA-Z_:][a-zA-Z0-9_:]*(?:\{[^}]*\})?`. -/
def seriesRegex : Regex Char :=
  .seq (.seq (.char isNameStart) (.many isNameChar)) (.opt bracesRegex)

/-- `[-+]?[0-9.eE+\-]+|NaN|[+-]?Inf`. -/
def valueRegex : Regex Char :=
  .alt (.seq (.opt (.char isSign)) (.many1 isNumberChar))
    (.alt (.literal "NaN".toList) (.seq (.opt (.char isSign)) (.literal "Inf".toList)))

/-- The two groups of the whole expression: the series, blanks, the value, blanks. -/
def reMatch (line : List Char) : Option (List Char × List Char) :=
  ((seriesRegex.runs line).flatMap (fun key =>
    ((Regex.many1 pySpace).runs key.2).flatMap (fun blanks =>
      (valueRegex.runs blanks.2).flatMap (fun value =>
        ((Regex.many pySpace).runs value.2).map (fun _ => (key.1, value.1)))))).head?

/-! ## The script -/

section
variable {V : Type} [AddCommMonoid V] (float : List Char → Option (WithTop V))

/-- What a line of the text assigns: a key, and the text of its value. -/
def readLine? (line : List Char) : Option (List Char × List Char) :=
  let line := strip line
  if line = [] ∨ line.head? = some '#' then none else reMatch line

/-- The value of a text. `float` raises an error for some texts, and gives an infinite value for others. -/
def tokenValue (token : List Char) : Option (WithTop V) :=
  if token ∈ ["NaN".toList, "+Inf".toList, "-Inf".toList] then some 0 else float token

def parseLine (values : Family (List Char) (WithTop V)) (line : List Char) :
    Option (Family (List Char) (WithTop V)) :=
  match readLine? line with
  | none => some values
  | some (key, token) => (tokenValue float token).map (fun value => values.insert key value)

/-- `parse_prometheus`, unless it raises an error. -/
def parsePrometheus (text : List Char) : Option (Family (List Char) (WithTop V)) :=
  (splitlines text).foldlM (parseLine float) ∅

/-- `key.split("{", 1)[0]`. -/
def base (key : List Char) : List Char := key.takeWhile (· ≠ '{')

/-- `extract_metric`. -/
def extractMetric (values : Family (List Char) (WithTop V)) (metric : List Char)
    (labelFilter : Option (List Char)) : WithTop V :=
  ((values.entries.filter (fun e =>
    base e.1 = metric && labelFilter.all (fun l => decide (l <:+: e.1)))).map (fun e => e.2)).sum

end

/-! ## What the expression takes from a line -/

/-- The series at the front of a line, and what follows it. -/
def readKey? : List Char → Option (List Char × List Char)
  | [] => none
  | c :: s =>
      if isNameStart c then
        let name := c :: s.takeWhile isNameChar
        match s.dropWhile isNameChar with
        | [] => some (name, [])
        | d :: t =>
            if d = '{' then
              match t.dropWhile (· ≠ '}') with
              | [] => none
              | _ :: rest => some (name ++ '{' :: t.takeWhile (· ≠ '}') ++ ['}'], rest)
            else some (name, d :: t)
      else none

/-- The value at the front of a line. -/
def readValue? (s : List Char) : Option (List Char) :=
  if s.head?.any isNumberChar then some (s.takeWhile isNumberChar)
  else if "NaN".toList <+: s then some "NaN".toList
  else if "Inf".toList <+: s then some "Inf".toList
  else none

theorem isNumberChar_of_isSign {c : Char} (h : isSign c = true) : isNumberChar c = true := by
  simp [isNumberChar, h]

/-- `[-+]?` before a run of characters that hold the sign makes no difference. -/
theorem head?_runs_signed (s : List Char) :
    ((Regex.seq (.opt (.char isSign)) (.many1 isNumberChar)).runs s).head? =
      if s.head?.any isNumberChar then some (s.takeWhile isNumberChar, s.dropWhile isNumberChar)
      else none := by
  cases s with
  | nil => rfl
  | cons c s =>
      have hrun := @Regex.head?_runs_many1 _ isNumberChar (c :: s)
      have hrest := @Regex.head?_runs_many1 _ isNumberChar s
      by_cases hsign : isSign c = true
      · have hnumber := isNumberChar_of_isSign hsign
        have hruns : (Regex.seq (.opt (.char isSign)) (.many1 isNumberChar)).runs (c :: s) =
            ((Regex.many1 isNumberChar).runs s).map (fun m => (c :: m.1, m.2)) ++
              (Regex.many1 isNumberChar).runs (c :: s) := by
          simp [Regex.runs, Regex.opt, hsign]
        rw [hruns, List.head?_append, List.head?_map, hrun, hrest]
        by_cases hs : s.head?.any isNumberChar = true
        · simp [hs, hnumber]
        · simp [hs]
      · have hruns : (Regex.seq (.opt (.char isSign)) (.many1 isNumberChar)).runs (c :: s) =
            (Regex.many1 isNumberChar).runs (c :: s) := by
          simp [Regex.runs, Regex.opt, hsign]
        rw [hruns, hrun]

/-- The value the expression takes. -/
theorem head?_runs_valueRegex (s : List Char) :
    (valueRegex.runs s).head?.map Prod.fst = readValue? s := by
  have hsigned := head?_runs_signed s
  unfold valueRegex readValue?
  rw [Regex.runs, List.head?_append, hsigned]
  by_cases hs : s.head?.any isNumberChar = true
  · rw [if_pos hs, if_pos hs]
    rfl
  · rw [if_neg hs, if_neg hs, Option.none_or, Regex.runs, List.head?_append, Regex.runs_literal]
    by_cases hN : "NaN".toList <+: s
    · rw [if_pos hN, if_pos hN]
      rfl
    · -- A sign would have been a number.
      have hsign : (Regex.char isSign).runs s = [] := by
        cases s with
        | nil => rfl
        | cons c s =>
            rw [List.head?_cons, Option.any_some] at hs
            exact if_neg (fun h => hs (isNumberChar_of_isSign h))
      rw [if_neg hN, if_neg hN, List.head?_nil, Option.none_or, Regex.runs, Regex.opt, Regex.runs, hsign,
        List.nil_append, Regex.runs, List.flatMap_singleton, Regex.runs_literal]
      by_cases hI : "Inf".toList <+: s
      · rw [if_pos hI, if_pos hI]
        rfl
      · rw [if_neg hI, if_neg hI]
        rfl

/-- No blank lies between `!` and DEL. -/
theorem not_pySpace_of_range {c : Char} (h : 33 ≤ c.toNat ∧ c.toNat ≤ 127) : pySpace c = false := by
  unfold pySpace
  simp only [Bool.or_eq_false_iff, Bool.and_eq_false_iff, decide_eq_false_iff_not]
  omega

theorem range_of_isAlphanum {c : Char} (h : c.isAlphanum = true) : 33 ≤ c.toNat ∧ c.toNat ≤ 127 := by
  have hval : c.toNat = c.val.toNat := rfl
  change ((decide ('A'.val ≤ c.val ∧ c.val ≤ 'Z'.val) ||
    decide ('a'.val ≤ c.val) && decide (c.val ≤ 'z'.val)) ||
    decide ('0'.val ≤ c.val) && decide (c.val ≤ '9'.val)) = true at h
  simp only [Bool.or_eq_true, Bool.and_eq_true, decide_eq_true_eq, UInt32.le_iff_toNat_le] at h
  have hA : 'A'.val.toNat = 65 := rfl
  have hZ : 'Z'.val.toNat = 90 := rfl
  have ha : 'a'.val.toNat = 97 := rfl
  have hz : 'z'.val.toNat = 122 := rfl
  have h0 : '0'.val.toNat = 48 := rfl
  have h9 : '9'.val.toNat = 57 := rfl
  omega

theorem range_of_isNameChar {c : Char} (h : isNameChar c = true) : 33 ≤ c.toNat ∧ c.toNat ≤ 127 := by
  simp only [isNameChar, Bool.or_eq_true, decide_eq_true_eq] at h
  rcases h with (h | rfl) | rfl
  · exact range_of_isAlphanum h
  · decide
  · decide

theorem range_of_isNumberChar {c : Char} (h : isNumberChar c = true) :
    33 ≤ c.toNat ∧ c.toNat ≤ 127 := by
  simp only [isNumberChar, isSign, Bool.or_eq_true, decide_eq_true_eq] at h
  rcases h with (((h | rfl) | rfl) | rfl) | rfl | rfl
  · exact range_of_isAlphanum (by simp [Char.isAlphanum, h])
  · decide
  · decide
  · decide
  · decide
  · decide

/-- No value starts with a blank. -/
theorem runs_valueRegex_of_pySpace {c : Char} (h : pySpace c = true) (s : List Char) :
    valueRegex.runs (c :: s) = [] := by
  have hvalue : readValue? (c :: s) = none := by
    have hnumber : ¬ isNumberChar c = true := by
      intro hc
      rw [not_pySpace_of_range (range_of_isNumberChar hc)] at h
      cases h
    have hnot : ∀ d t, pySpace d = false → ¬ d :: t <+: c :: s := by
      intro d t hd hp
      rw [(List.cons_prefix_cons.1 hp).1, h] at hd
      cases hd
    have hNaN : ¬ "NaN".toList <+: c :: s := hnot 'N' "aN".toList (by decide)
    have hInf : ¬ "Inf".toList <+: c :: s := hnot 'I' "nf".toList (by decide)
    rw [readValue?, List.head?_cons, Option.any_some, if_neg hnumber, if_neg hNaN, if_neg hInf]
  rw [← head?_runs_valueRegex, Option.map_eq_none_iff, List.head?_eq_none_iff] at hvalue
  exact hvalue

/-- What the expression takes behind the series. -/
def readRest (key rest : List Char) : Option (List Char × List Char) :=
  if rest.head?.any pySpace then (readValue? (rest.dropWhile pySpace)).map (fun value => (key, value))
  else none

/-- The runs of the expression behind its first group. -/
def restRuns (key : List Char × List Char) : List (List Char × List Char) :=
  ((Regex.many1 pySpace).runs key.2).flatMap (fun blanks =>
    (valueRegex.runs blanks.2).flatMap (fun value =>
      ((Regex.many pySpace).runs value.2).map (fun _ => (key.1, value.1))))

theorem restRuns_of_not_pySpace {rest : List Char} (h : ¬ rest.head?.any pySpace = true)
    (key : List Char) : restRuns (key, rest) = [] := by
  cases rest with
  | nil => rfl
  | cons c rest =>
      rw [List.head?_cons, Option.any_some] at h
      simp [restRuns, Regex.many1, Regex.runs, h]

theorem head?_restRuns (key rest : List Char) : (restRuns (key, rest)).head? = readRest key rest := by
  unfold restRuns readRest
  rw [Regex.flatMap_runs_many1]
  · by_cases h : rest.head?.any pySpace = true
    · rw [if_pos h, if_pos h, ← head?_runs_valueRegex, Option.map_map]
      refine Regex.head?_flatMap_of_some (fun value => ?_)
      rw [List.head?_map, Regex.head?_runs_many]
      rfl
    · rw [if_neg h, if_neg h]
      rfl
  · intro a c s hc
    rw [runs_valueRegex_of_pySpace hc]
    rfl

theorem runs_bracesRegex_of_ne {d : Char} (h : d ≠ '{') (t : List Char) :
    bracesRegex.runs (d :: t) = [] := by
  simp [bracesRegex, Regex.runs, h]

/-- Labels end at their first closing brace. -/
theorem flatMap_runs_bracesRegex (f : List Char × List Char → List (List Char × List Char))
    (t : List Char) :
    (bracesRegex.runs ('{' :: t)).flatMap f =
      match t.dropWhile (· ≠ '}') with
      | [] => []
      | _ :: rest => f ('{' :: t.takeWhile (· ≠ '}') ++ ['}'], rest) := by
  have hruns : (bracesRegex.runs ('{' :: t)).flatMap f =
      ((Regex.many (· ≠ '}')).runs t).flatMap (fun m =>
        ((Regex.char (· = '}')).runs m.2).flatMap (fun m' => f ('{' :: m.1 ++ m'.1, m'.2))) := by
    simp [bracesRegex, Regex.runs, List.flatMap_assoc, List.flatMap_map]
  rw [hruns, Regex.flatMap_runs_many]
  · cases hrest : t.dropWhile (· ≠ '}') with
    | nil => rfl
    | cons d rest =>
        have hd : d = '}' := by
          have hnot := List.head?_dropWhile_not (fun c => decide (c ≠ '}')) t
          rw [hrest] at hnot
          simpa using hnot
        simp [Regex.runs, hd]
  · intro a d t hd
    simp [Regex.runs, of_decide_eq_true hd]

/-- **What the expression takes from a line**: a series, up to the first closing brace if it has labels,
    and behind blanks the longest number. -/
theorem reMatch_eq (line : List Char) :
    reMatch line = (readKey? line).bind (fun key => readRest key.1 key.2) := by
  show ((seriesRegex.runs line).flatMap restRuns).head? = _
  cases line with
  | nil => rfl
  | cons c s =>
      by_cases hc : isNameStart c = true
      · have hruns : (seriesRegex.runs (c :: s)).flatMap restRuns =
            ((Regex.many isNameChar).runs s).flatMap (fun m =>
              (bracesRegex.runs m.2).flatMap (fun m' => restRuns (c :: m.1 ++ m'.1, m'.2)) ++
                restRuns (c :: m.1, m.2)) := by
          simp [seriesRegex, bracesRegex, Regex.runs, Regex.opt, hc, List.flatMap_assoc,
            List.flatMap_map]
        rw [hruns, Regex.flatMap_runs_many]
        · simp only [readKey?, hc, if_true]
          cases hrest : s.dropWhile isNameChar with
          | nil =>
              rw [restRuns_of_not_pySpace (by simp), List.append_nil]
              rfl
          | cons d t =>
              simp only
              by_cases hd : d = '{'
              · subst hd
                rw [flatMap_runs_bracesRegex, restRuns_of_not_pySpace (by simp [pySpace]), List.append_nil,
                  if_pos rfl]
                cases t.dropWhile (· ≠ '}') with
                | nil => rfl
                | cons e rest =>
                    simp only [Option.bind_some]
                    rw [head?_restRuns, List.append_assoc, List.cons_append]
              · rw [runs_bracesRegex_of_ne hd, if_neg hd, List.flatMap_nil, List.nil_append,
                  head?_restRuns]
                rfl
        · -- A name goes on as long as it can: neither labels nor blanks start like it.
          intro a d t hd
          have hbrace : d ≠ '{' := by
            rintro rfl
            exact absurd hd (by decide)
          have hblank : pySpace d = false := not_pySpace_of_range (range_of_isNameChar hd)
          rw [runs_bracesRegex_of_ne hbrace, restRuns_of_not_pySpace (by simp [hblank])]
          rfl
      · simp [seriesRegex, Regex.runs, readKey?, hc]

/-! ## Behind a closing brace

A text that ends in a closing brace is read no further than to it. -/

section
variable {α : Type} {p : α → Bool} {a : α} {l : List α}

/-- A run that ends inside a text ends there whatever follows. -/
theorem while_append_of_mem (ha : a ∈ l) (hp : p a = false) (s : List α) :
    (l ++ s).takeWhile p = l.takeWhile p ∧ (l ++ s).dropWhile p = l.dropWhile p ++ s := by
  induction l with
  | nil => cases ha
  | cons b l ih =>
      cases hb : p b with
      | false => simp [hb]
      | true =>
          have hl : a ∈ l := by
            rcases List.mem_cons.1 ha with rfl | hl
            · rw [hp] at hb
              cases hb
            · exact hl
          obtain ⟨htake, hdrop⟩ := ih hl
          simp [hb, htake, hdrop]

/-- What a run leaves ends like the text. -/
theorem getLast?_dropWhile (ha : l.getLast? = some a) (hp : p a = false) :
    (l.dropWhile p).getLast? = some a := by
  induction l with
  | nil => cases ha
  | cons b l ih =>
      cases hb : p b with
      | false => rwa [List.dropWhile_cons_of_neg (by simp [hb])]
      | true =>
          rw [List.dropWhile_cons_of_pos hb]
          cases l with
          | nil =>
              obtain rfl : b = a := Option.some.inj ha
              rw [hp] at hb
              cases hb
          | cons c l => exact ih (by rwa [List.getLast?_cons_cons] at ha)

end

theorem readValue?_append {s : List Char} (hs : s.getLast? = some '}') (t : List Char) :
    readValue? (s ++ t) = readValue? s := by
  have hmem : '}' ∈ s := List.mem_of_getLast? hs
  have hhead : (s ++ t).head? = s.head? := by
    rw [List.head?_append]
    cases s with
    | nil => cases hs
    | cons c s => rfl
  have hprefix : ∀ needle, '}' ∉ needle → (needle <+: s ++ t ↔ needle <+: s) := by
    intro needle hneedle
    obtain ⟨q, rfl⟩ := List.getLast?_eq_some_iff.1 hs
    rw [List.append_assoc, List.singleton_append, Fields.prefix_append_sep hneedle,
      Fields.prefix_append_sep hneedle]
  have hNaN := hprefix "NaN".toList (by decide)
  have hInf := hprefix "Inf".toList (by decide)
  rw [readValue?, readValue?, hhead, (while_append_of_mem hmem (by decide) t).1]
  simp only [hNaN, hInf]

theorem readRest_append {rest : List Char} (hrest : rest.getLast? = some '}') (key t : List Char) :
    readRest key (rest ++ t) = readRest key rest := by
  have hmem : '}' ∈ rest := List.mem_of_getLast? hrest
  have hhead : (rest ++ t).head? = rest.head? := by
    rw [List.head?_append]
    cases rest with
    | nil => cases hrest
    | cons c rest => rfl
  rw [readRest, readRest, hhead, (while_append_of_mem hmem (by decide) t).2,
    readValue?_append (getLast?_dropWhile hrest (by decide))]

/-- A series and what follows it are the line. -/
theorem readKey?_split {line key rest : List Char} (h : readKey? line = some (key, rest)) :
    line = key ++ rest := by
  cases line with
  | nil => cases h
  | cons c s =>
      have hs := @List.takeWhile_append_dropWhile _ isNameChar s
      simp only [readKey?] at h
      split at h
      · cases hrest : s.dropWhile isNameChar with
        | nil =>
            rw [hrest] at h hs
            obtain ⟨rfl, rfl⟩ := Prod.mk.inj (Option.some.inj h)
            rw [List.cons_append, hs]
        | cons d t =>
            rw [hrest] at h hs
            simp only at h
            split at h
            · next hd =>
                subst hd
                have ht := @List.takeWhile_append_dropWhile _ (fun c => decide (c ≠ '}')) t
                have hnot := List.head?_dropWhile_not (fun c => decide (c ≠ '}')) t
                split at h
                · cases h
                · next e rest' hdrop =>
                    rw [hdrop] at ht hnot
                    obtain rfl : e = '}' := by simpa using hnot
                    obtain ⟨rfl, rfl⟩ := Prod.mk.inj (Option.some.inj h)
                    have hline : s = s.takeWhile isNameChar ++
                        '{' :: (t.takeWhile (fun c => decide (c ≠ '}')) ++ '}' :: rest') := by
                      rw [ht, hs]
                    conv_lhs => rw [hline]
                    simp
            · obtain ⟨rfl, rfl⟩ := Prod.mk.inj (Option.some.inj h)
              rw [List.cons_append, hs]
      · cases h

theorem readKey?_append {line : List Char} (hline : line.getLast? = some '}') (t : List Char) :
    readKey? (line ++ t) = (readKey? line).map (fun key => (key.1, key.2 ++ t)) := by
  cases line with
  | nil => cases hline
  | cons c s =>
      by_cases hc : isNameStart c = true
      · have hs : s.getLast? = some '}' := by
          cases s with
          | nil =>
              obtain rfl : c = '}' := Option.some.inj hline
              exact absurd hc (by decide)
          | cons d s => rwa [List.getLast?_cons_cons] at hline
        obtain ⟨htake, hdrop⟩ := while_append_of_mem (List.mem_of_getLast? hs)
          (show isNameChar '}' = false by decide) t
        have hlast := getLast?_dropWhile hs (show isNameChar '}' = false by decide)
        simp only [readKey?, List.cons_append, hc, if_true, htake, hdrop]
        cases hrest : s.dropWhile isNameChar with
        | nil =>
            rw [hrest] at hlast
            cases hlast
        | cons d u =>
            rw [hrest] at hlast
            simp only [List.cons_append]
            by_cases hd : d = '{'
            · subst hd
              have hu : u.getLast? = some '}' := by
                cases u with
                | nil => exact absurd (Option.some.inj hlast) (by decide)
                | cons e u => rwa [List.getLast?_cons_cons] at hlast
              obtain ⟨htake', hdrop'⟩ := @while_append_of_mem _ (fun c => decide (c ≠ '}')) '}' u
                (List.mem_of_getLast? hu) (by decide) t
              rw [if_pos rfl, if_pos rfl, htake', hdrop']
              cases hend : u.dropWhile (fun c => decide (c ≠ '}')) with
              | nil =>
                  have hlast' := @getLast?_dropWhile _ (fun c => decide (c ≠ '}')) '}' u hu (by decide)
                  rw [hend] at hlast'
                  cases hlast'
              | cons e rest => rfl
            · rw [if_neg hd, if_neg hd]
              rfl
      · simp [readKey?, hc]

/-- A line is whole if all of it is read as a series. -/
def Whole (line : List Char) : Prop := readKey? line = some (line, [])

instance (line : List Char) : Decidable (Whole line) := inferInstanceAs (Decidable (_ = _))

/-- A text that a number is printed as. -/
structure NumberToken (token : List Char) : Prop where
  nonempty : token ≠ []
  all : ∀ c ∈ token, isNumberChar c = true

theorem readValue?_token {token : List Char} (h : NumberToken token) : readValue? token = some token := by
  have hhead : token.head?.any isNumberChar = true := by
    cases token with
    | nil => exact absurd rfl h.nonempty
    | cons c token => exact h.all c (List.mem_cons_self ..)
  rw [readValue?, if_pos hhead, List.takeWhile_eq_self_iff.2 h.all]

theorem readRest_token {token : List Char} (h : NumberToken token) (key : List Char) :
    readRest key (' ' :: token) = some (key, token) := by
  have hdrop : (' ' :: token).dropWhile pySpace = token := by
    rw [List.dropWhile_cons_of_pos (by decide)]
    cases token with
    | nil => rfl
    | cons c token =>
        have hc := not_pySpace_of_range (range_of_isNumberChar (h.all c (List.mem_cons_self ..)))
        exact List.dropWhile_cons_of_neg (by simp [hc])
  have hblank : (' ' :: token).head?.any pySpace = true := by simp [pySpace]
  rw [readRest, if_pos hblank, hdrop, readValue?_token h]
  rfl

/-- **A number behind a text that ends in a closing brace** is the value of the text if that is whole.
    Otherwise the number is not read at all. -/
theorem reMatch_append {line token : List Char} (hline : line.getLast? = some '}')
    (htoken : NumberToken token) :
    reMatch (line ++ ' ' :: token) = if Whole line then some (line, token) else reMatch line := by
  rw [reMatch_eq, reMatch_eq, readKey?_append hline]
  cases hkey : readKey? line with
  | none =>
      have hwhole : ¬ Whole line := by
        rw [Whole, hkey]
        exact fun h => nomatch h
      rw [if_neg hwhole]
      rfl
  | some k =>
      obtain ⟨key, rest⟩ := k
      have hsplit := readKey?_split hkey
      simp only [Option.map_some, Option.bind_some]
      by_cases hrest : rest = []
      · subst hrest
        rw [List.append_nil] at hsplit
        subst hsplit
        rw [if_pos (show Whole line from hkey), List.nil_append, readRest_token htoken]
      · have hwhole : ¬ Whole line := by
          rw [Whole, hkey]
          exact fun h => hrest (congrArg Prod.snd (Option.some.inj h))
        have hlast : rest.getLast? = some '}' := by
          rwa [hsplit, List.getLast?_append_of_ne_nil key hrest] at hline
        rw [if_neg hwhole, readRest_append hlast]

/-- A name without labels. -/
theorem reMatch_name {c : Char} {s token : List Char} (hc : isNameStart c = true)
    (hs : ∀ d ∈ s, isNameChar d = true) (htoken : NumberToken token) :
    Whole (c :: s) ∧ reMatch (c :: s ++ ' ' :: token) = some (c :: s, token) := by
  have hall : s.takeWhile isNameChar = s := List.takeWhile_eq_self_iff.2 hs
  have hrest : s.dropWhile isNameChar = [] := List.dropWhile_eq_nil_iff.2 hs
  have htake : (s ++ ' ' :: token).takeWhile isNameChar = s := by
    rw [List.takeWhile_append_of_pos hs, List.takeWhile_cons_of_neg (by decide), List.append_nil]
  have hdrop : (s ++ ' ' :: token).dropWhile isNameChar = ' ' :: token := by
    rw [List.dropWhile_append_of_pos hs, List.dropWhile_cons_of_neg (by decide)]
  constructor
  · simp only [Whole, readKey?, hc, if_true, hall, hrest]
  · rw [reMatch_eq]
    simp only [readKey?, List.cons_append, hc, if_true, htake, hdrop, Option.bind_some,
      if_neg (show ' ' ≠ '{' by decide)]
    exact readRest_token htoken (c :: s)

/-! ## Cutting lines -/

/-- A newline ends a line whatever follows. -/
theorem cutLines_newline (s : List Char) :
    ∃ l ls, cutLines (s ++ ['\n']) = (l :: ls, []) ∧ ∀ t,
      cutLines (s ++ '\n' :: t) = (l :: ls ++ (cutLines t).1, (cutLines t).2) := by
  induction s with
  | nil => exact ⟨[], [], rfl, fun t => rfl⟩
  | cons c s ih =>
      obtain ⟨l, ls, hone, hmore⟩ := ih
      have hhead : ∀ t, (s ++ '\n' :: t).head? = (s ++ ['\n']).head? := by
        intro t
        cases s with
        | nil => rfl
        | cons d s => rfl
      simp only [List.cons_append, cutLines, hone, hmore, hhead]
      by_cases hcr : c = '\r' ∧ (s ++ ['\n']).head? = some '\n'
      · simp only [if_pos hcr]
        exact ⟨l, ls, rfl, fun t => rfl⟩
      · simp only [if_neg hcr]
        by_cases hbreak : lineBreak c = true
        · simp only [if_pos hbreak]
          exact ⟨[], l :: ls, rfl, fun t => rfl⟩
        · simp only [if_neg hbreak]
          exact ⟨c :: l, ls, rfl, fun t => rfl⟩

/-- A text without line breaks is one line. -/
theorem cutLines_of_no_break {t : List Char} (h : ∀ c ∈ t, lineBreak c = false) :
    cutLines t = ([], t) ∧ cutLines (t ++ ['\n']) = ([t], []) := by
  induction t with
  | nil => exact ⟨rfl, rfl⟩
  | cons c t ih =>
      rw [List.forall_mem_cons] at h
      obtain ⟨hopen, hended⟩ := ih h.2
      have hcr : c ≠ '\r' := by
        rintro rfl
        exact absurd h.1 (by decide)
      constructor
      · simp [cutLines, hopen, hcr, h.1]
      · simp [cutLines, hended, hcr, h.1]

/-- A text without line breaks goes on the line that it follows. -/
theorem cutLines_append {t : List Char} (hne : t ≠ []) (h : ∀ c ∈ t, lineBreak c = false)
    (s : List Char) :
    cutLines (s ++ t) = ((cutLines s).1, (cutLines s).2 ++ t) ∧
      cutLines (s ++ t ++ ['\n']) = ((cutLines s).1 ++ [(cutLines s).2 ++ t], []) := by
  induction s with
  | nil => exact cutLines_of_no_break h
  | cons c s ih =>
      obtain ⟨hopen, hended⟩ := ih
      have hhead : ∀ u, (s ++ t ++ u).head? = some '\n' ↔ s.head? = some '\n' := by
        intro u
        cases s with
        | nil =>
            cases t with
            | nil => exact absurd rfl hne
            | cons d t =>
                have hd : d ≠ '\n' := by
                  rintro rfl
                  exact absurd (h _ (List.mem_cons_self ..)) (by decide)
                simp [hd]
        | cons d s => rfl
      have hhead' := hhead []
      rw [List.append_nil] at hhead'
      simp only [List.cons_append, cutLines, hopen, hended, hhead, hhead']
      by_cases hcr : c = '\r' ∧ s.head? = some '\n'
      · simp only [if_pos hcr, and_self]
      · simp only [if_neg hcr]
        by_cases hbreak : lineBreak c = true
        · simp only [if_pos hbreak, List.cons_append, and_self]
        · simp only [if_neg hbreak]
          cases (cutLines s).1 with
          | nil => exact ⟨rfl, rfl⟩
          | cons l ls => exact ⟨rfl, rfl⟩

end HsaSnoop
