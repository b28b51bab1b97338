import HsaSnoop.Report.PublishPerf

set_option autoImplicit false

/-! # The history of a metric

The metrics of a run are served as text, one line per series: its name, its labels in braces and quotes,
and its value. The values of labels are escaped, but the report does not know about quotes: for it the
labels end at the first closing brace, and a line at any of the characters that `splitlines` cuts at.

`perf_history_sums_iff` says for which labels the total of a metric is the sum of its series, whatever
their values are: `Summed`, a condition on the pieces that the lines fall into. It holds whenever no
label has a closing brace or a line break (`summed_of_plain`). -/

namespace HsaSnoop

open Families

/-! ## The text -/

/-- A name, and labels with any values. -/
@[ext] structure Series where
  name : List Char
  labels : List (List Char × List Char)
  name_start : name.head?.any isNameStart = true
  name_chars : ∀ c ∈ name, isNameChar c = true
  labels_chars : ∀ l ∈ labels, ∀ c ∈ l.1, isNameChar c = true
  deriving DecidableEq

/-- Backslash, newline and quote are escaped. -/
def escapeChar (c : Char) : List Char :=
  if c = '\\' then ['\\', '\\'] else if c = '\n' then ['\\', 'n'] else if c = '"' then ['\\', '"']
  else [c]

def escape (s : List Char) : List Char := s.flatMap escapeChar

/-- `name="value"`. -/
def labelText (l : List Char × List Char) : List Char := l.1 ++ '=' :: '"' :: (escape l.2 ++ ['"'])

/-- Everything in front of the value. -/
def Series.text (s : Series) : List Char :=
  if s.labels = [] then s.name
  else s.name ++ '{' :: (List.intercalate [','] (s.labels.map labelText) ++ ['}'])

/-- How values are printed and read back. -/
structure NumberText (V : Type) where
  print : V → List Char
  float : List Char → Option (WithTop V)
  print_token : ∀ v, NumberToken (print v)
  float_print : ∀ v, float (print v) = some (v : WithTop V)

/-- A line of the text. -/
inductive Item
  /-- The line of a series with a finite value. -/
  | series (s : Series)
  /-- Any other: a comment, or a value that is not finite. -/
  | other (line : List Char)
  deriving DecidableEq

section
variable {V : Type} (N : NumberText V)

def Item.text (values : Series → V) : Item → List Char
  | .series s => s.text ++ ' ' :: N.print (values s)
  | .other line => line

/-- The text, when the series have these values. -/
def exposition (values : Series → V) (items : List Item) : List Char :=
  items.flatMap (fun x => x.text N values ++ ['\n'])

end

def Item.series? : Item → Option Series
  | .series s => some s
  | .other _ => none

/-- The series of the text. -/
def seriesOf (items : List Item) : List Series := items.filterMap Item.series?

/-! ## The pieces -/

/-- Where a value comes from: it is written there, or it is that of a series. -/
inductive Source
  | token (t : List Char)
  | series (s : Series)
  deriving DecidableEq

/-- What lines assign that do not show the value of a series. -/
def writtenReads (lines : List (List Char)) : List (List Char × Source) :=
  (lines.filterMap readLine?).map (fun r => (r.1, .token r.2))

/-- What stands in front of a series' value on the line that shows it. -/
def Series.lastPiece (s : Series) : List Char := (cutLines s.text).2.dropWhile pySpace

/-- What a line of the text assigns, whatever the values are. -/
def Item.reads : Item → List (List Char × Source)
  | .series s =>
      writtenReads (cutLines s.text).1 ++
        if Whole s.lastPiece then [(s.lastPiece, .series s)] else writtenReads [(cutLines s.text).2]
  | .other line => writtenReads (cutLines (line ++ ['\n'])).1

/-- What is in the dictionary in the end under the keys of a metric. -/
def finalReads (items : List Item) (metric : List Char) : List (List Char × Source) :=
  (lasts (items.flatMap Item.reads)).filter (fun r => base r.1 = metric)

/-- What is written there is a number. -/
def Source.isNumber {V : Type} [AddCommMonoid V] (N : NumberText V) : Source → Bool
  | .token t => (tokenValue N.float t).isSome
  | .series _ => true

/-- The number a source has as it is written; 0 for a series. -/
def Source.written {V : Type} [AddCommMonoid V] (N : NumberText V) : Source → WithTop V
  | .token t => (tokenValue N.float t).getD 0
  | .series _ => 0

/-- **When a metric is summed right**: no piece of the text is taken for a number that is none, every
    series of the metric is read under a key of the metric that nothing behind it replaces, no series of
    another metric is, and what pieces of lines add to the metric amounts to nothing. -/
structure Summed {V : Type} [AddCommMonoid V] (N : NumberText V) (items : List Item)
    (metric : List Char) : Prop where
  numbers : ∀ r ∈ items.flatMap Item.reads, r.2.isNumber N
  own : ∀ s ∈ seriesOf items, s.name = metric → (s.lastPiece, .series s) ∈ finalReads items metric
  others : ∀ s ∈ seriesOf items, s.name ≠ metric → (s.lastPiece, .series s) ∉ finalReads items metric
  strays : ((finalReads items metric).map (fun r => r.2.written N)).sum = 0

/-! ## What the lines are read for -/

section
variable {V : Type} (N : NumberText V)

/-- The text a value is read from. -/
def Source.text (values : Series → V) : Source → List Char
  | .token t => t
  | .series s => N.print (values s)

theorem rdropWhile_of_getLast? {α : Type} {p : α → Bool} {l : List α} {c : α}
    (h : l.getLast? = some c) (hc : p c = false) : l.rdropWhile p = l := by
  rw [List.rdropWhile_eq_self_iff]
  intro hl
  rw [List.getLast?_eq_some_getLast hl] at h
  rw [Option.some.inj h, hc]
  exact Bool.false_ne_true

theorem not_whole_comment {s : List Char} (h : s.head? = some '#') : ¬ Whole s := by
  cases s with
  | nil => cases h
  | cons c s =>
      obtain rfl : c = '#' := Option.some.inj h
      exact fun h => nomatch (show none = some ('#' :: s, []) from h)

/-- A number behind a piece that does not end in a blank. -/
theorem readLine?_append {piece token : List Char} {c : Char} (hlast : piece.getLast? = some c)
    (hc : pySpace c = false) (htoken : NumberToken token)
    (hmatch : reMatch (piece.dropWhile pySpace ++ ' ' :: token) =
      if Whole (piece.dropWhile pySpace) then some (piece.dropWhile pySpace, token)
      else reMatch (piece.dropWhile pySpace)) :
    readLine? (piece ++ ' ' :: token) =
      if Whole (piece.dropWhile pySpace) then some (piece.dropWhile pySpace, token)
      else readLine? piece := by
  have hpiece := getLast?_dropWhile hlast hc
  have hdrop := (while_append_of_mem (List.mem_of_getLast? hlast) hc (' ' :: token)).2
  obtain ⟨d, hd, hnumber⟩ : ∃ d, (piece.dropWhile pySpace ++ ' ' :: token).getLast? = some d ∧
      isNumberChar d = true := by
    have hd := List.getLast?_eq_some_getLast htoken.nonempty
    refine ⟨token.getLast htoken.nonempty, ?_, htoken.all _ (List.getLast_mem htoken.nonempty)⟩
    rw [← List.singleton_append, ← List.append_assoc, List.getLast?_append, hd]
    rfl
  have hstrip : strip (piece ++ ' ' :: token) = piece.dropWhile pySpace ++ ' ' :: token := by
    rw [strip, hdrop, rdropWhile_of_getLast? hd (not_pySpace_of_range (range_of_isNumberChar hnumber))]
  have hstrip' : strip piece = piece.dropWhile pySpace := by
    rw [strip, rdropWhile_of_getLast? hpiece hc]
  obtain ⟨e, rest, hne⟩ : ∃ e rest, piece.dropWhile pySpace = e :: rest := by
    cases hp : piece.dropWhile pySpace with
    | nil =>
        rw [hp] at hpiece
        cases hpiece
    | cons e rest => exact ⟨e, rest, rfl⟩
  simp only [readLine?, hstrip, hstrip']
  rw [hmatch]
  by_cases hcomment : e = '#'
  · have hnot : ¬ Whole ('#' :: rest) := not_whole_comment rfl
    have hskip : ∀ s : List Char, '#' :: s = [] ∨ ('#' :: s).head? = some '#' := fun s => .inr rfl
    rw [hne, hcomment, List.cons_append, if_pos (hskip _), if_neg hnot, if_pos (hskip _)]
  · simp [hne, hcomment]

/-- How the text of a series ends: with its name, or with a closing brace. -/
theorem text_cases (s : Series) :
    s.text = s.name ∨ ∃ t, s.text = t ++ ['}'] := by
  unfold Series.text
  by_cases h : s.labels = []
  · exact .inl (if_pos h)
  · exact .inr ⟨s.name ++ '{' :: List.intercalate [','] (s.labels.map labelText), by simp [h]⟩

theorem name_eq_cons (s : Series) :
    ∃ c rest, s.name = c :: rest ∧ isNameStart c = true ∧ ∀ d ∈ rest, isNameChar d = true := by
  have hstart := s.name_start
  have hchars := s.name_chars
  cases hname : s.name with
  | nil =>
      rw [hname] at hstart
      cases hstart
  | cons c rest =>
      rw [hname] at hstart hchars
      exact ⟨c, rest, rfl, hstart, fun d hd => hchars d (List.mem_cons_of_mem c hd)⟩

theorem not_lineBreak_of_range {c : Char} (h : 33 ≤ c.toNat ∧ c.toNat ≤ 127) : lineBreak c = false := by
  unfold lineBreak
  simp only [Bool.or_eq_false_iff, Bool.and_eq_false_iff, decide_eq_false_iff_not]
  omega

/-- **The line that shows a value** is read for the value exactly if what stands in front of it is a
    whole series; otherwise the value makes no difference. -/
theorem readLine?_series (s : Series) {token : List Char} (htoken : NumberToken token) :
    readLine? ((cutLines s.text).2 ++ ' ' :: token) =
      if Whole s.lastPiece then some (s.lastPiece, token) else readLine? (cutLines s.text).2 := by
  unfold Series.lastPiece
  rcases text_cases s with htext | ⟨t, htext⟩
  · obtain ⟨c, rest, hname, hc, hrest⟩ := name_eq_cons s
    have hbreak : ∀ d ∈ s.name, lineBreak d = false :=
      fun d hd => not_lineBreak_of_range (range_of_isNameChar (s.name_chars d hd))
    have hcut : (cutLines s.text).2 = s.name := by rw [htext, (cutLines_of_no_break hbreak).1]
    have hne : s.name ≠ [] := by
      rw [hname]
      exact List.cons_ne_nil c rest
    have hd := List.getLast?_eq_some_getLast hne
    have hspace := fun d hd => not_pySpace_of_range (range_of_isNameChar (s.name_chars d hd))
    have hdrop : s.name.dropWhile pySpace = s.name := by
      rw [hname, List.dropWhile_cons_of_neg]
      rw [hspace c (by rw [hname]; exact List.mem_cons_self ..)]
      exact Bool.false_ne_true
    obtain ⟨hwhole, hmatch⟩ := reMatch_name hc hrest htoken
    rw [← hname] at hwhole hmatch
    rw [hcut]
    refine readLine?_append hd (hspace _ (List.getLast_mem hne)) htoken ?_
    rw [hdrop, if_pos hwhole, hmatch]
  · have hcut : (cutLines s.text).2 = (cutLines t).2 ++ ['}'] := by
      rw [htext, (cutLines_append (List.cons_ne_nil _ _) (by simp [lineBreak]) t).1]
    have hlast : (cutLines s.text).2.getLast? = some '}' := by
      rw [hcut, List.getLast?_append]
      rfl
    have hspace : pySpace '}' = false := by decide
    exact readLine?_append hlast hspace htoken (reMatch_append (getLast?_dropWhile hlast hspace) htoken)

/-- The lines of an item are read for what it assigns. -/
theorem filterMap_readLine?_text (values : Series → V) (x : Item) :
    (cutLines (x.text N values ++ ['\n'])).1.filterMap readLine? =
      x.reads.map (fun r => (r.1, r.2.text N values)) := by
  have hwritten : ∀ lines : List (List Char), lines.filterMap readLine? =
      (writtenReads lines).map (fun r => (r.1, r.2.text N values)) := by
    intro lines
    rw [writtenReads, List.map_map]
    exact (List.map_id _).symm
  cases x with
  | other line => exact hwritten _
  | series s =>
      have htoken := N.print_token (values s)
      have hbreak : ∀ c ∈ ' ' :: N.print (values s), lineBreak c = false := by
        rw [List.forall_mem_cons]
        exact ⟨by decide, fun c hc => not_lineBreak_of_range (range_of_isNumberChar (htoken.all c hc))⟩
      have hcut := (cutLines_append (List.cons_ne_nil _ _) hbreak s.text).2
      rw [Item.text, hcut, List.filterMap_append, hwritten, Item.reads, List.map_append]
      congr 1
      rw [List.filterMap_cons, readLine?_series s htoken]
      by_cases hwhole : Whole s.lastPiece
      · rw [if_pos hwhole, if_pos hwhole]
        rfl
      · rw [if_neg hwhole, if_neg hwhole, ← hwritten, List.filterMap_cons]

/-- The lines of the text are those of its items. -/
theorem splitlines_exposition (values : Series → V) (items : List Item) :
    splitlines (exposition N values items) =
      items.flatMap (fun x => (cutLines (x.text N values ++ ['\n'])).1) := by
  have hcut : cutLines (exposition N values items) =
      (items.flatMap (fun x => (cutLines (x.text N values ++ ['\n'])).1), []) := by
    induction items with
    | nil => rfl
    | cons x items ih =>
        obtain ⟨l, ls, hone, hmore⟩ := cutLines_newline (x.text N values)
        have htext : exposition N values (x :: items) =
            x.text N values ++ '\n' :: exposition N values items := by
          rw [exposition, List.flatMap_cons, List.append_assoc]
          rfl
        rw [htext, hmore, ih, List.flatMap_cons, hone]
  rw [splitlines, hcut]
  exact if_pos rfl

end

/-! ## What is in the dictionary -/

section
variable {V : Type} [AddCommMonoid V] (N : NumberText V)

theorem foldlM_parseLine (lines : List (List Char)) (values : Family (List Char) (WithTop V)) :
    lines.foldlM (parseLine N.float) values =
      (lines.filterMap readLine?).foldlM
        (fun values r => (tokenValue N.float r.2).map (fun value => values.insert r.1 value)) values := by
  induction lines generalizing values with
  | nil => rfl
  | cons line lines ih =>
      rw [List.foldlM_cons, List.filterMap_cons]
      cases hline : readLine? line with
      | none =>
          simp only [parseLine, hline, Option.bind_eq_bind, Option.bind_some]
          exact ih values
      | some r =>
          rw [List.foldlM_cons]
          simp only [parseLine, hline, Option.bind_eq_bind]
          cases tokenValue N.float r.2 with
          | none => rfl
          | some value => exact ih _

/-- Assignments of what may be no number. -/
theorem foldlM_insert {κ τ ν : Type} [DecidableEq κ] (val : τ → Option ν) (init : ν)
    (as : List (κ × τ)) (m : Family κ ν) :
    as.foldlM (fun m a => (val a.2).map (fun v => m.insert a.1 v)) m =
      if ∀ a ∈ as, (val a.2).isSome then
        some (assign (as.map (fun a => (a.1, (val a.2).getD init))) m)
      else none := by
  induction as generalizing m with
  | nil => rfl
  | cons a as ih =>
      rw [List.foldlM_cons]
      cases hval : val a.2 with
      | none => simp [hval]
      | some v =>
          have hstep := ih (m.insert a.1 v)
          simp only [Option.map_some, Option.bind_eq_bind, Option.bind_some, List.forall_mem_cons, hval,
            Option.isSome_some, true_and, List.map_cons, Option.getD_some] at hstep ⊢
          exact hstep

/-- The value a source has. -/
def Source.value (values : Series → V) : Source → WithTop V
  | .token t => (tokenValue N.float t).getD 0
  | .series s => values s

theorem tokenValue_print (v : V) : tokenValue N.float (N.print v) = some (v : WithTop V) := by
  have htoken := N.print_token v
  have hspecial : N.print v ∉ ["NaN".toList, "+Inf".toList, "-Inf".toList] := by
    intro h
    have hall : (N.print v).all isNumberChar = true := List.all_eq_true.2 htoken.all
    simp only [List.mem_cons, List.not_mem_nil, or_false] at h
    rcases h with h | h | h <;> rw [h] at hall <;> exact absurd hall (by decide)
  rw [tokenValue, if_neg hspecial, N.float_print]

/-- **What the script keeps of the text**: nothing if a piece is not a number, and else what its items
    assign. -/
theorem parsePrometheus_exposition (values : Series → V) (items : List Item) :
    parsePrometheus N.float (exposition N values items) =
      if ∀ r ∈ items.flatMap Item.reads, r.2.isNumber N then
        some (assign ((items.flatMap Item.reads).map (fun r => (r.1, r.2.value N values))) ∅)
      else none := by
  have hlines : (splitlines (exposition N values items)).filterMap readLine? =
      (items.flatMap Item.reads).map (fun r => (r.1, r.2.text N values)) := by
    rw [splitlines_exposition, List.filterMap_flatMap, List.map_flatMap]
    congr 1
    funext x
    exact filterMap_readLine?_text N values x
  have hvalue : ∀ src : Source, (tokenValue N.float (src.text N values)).isSome = src.isNumber N ∧
      (tokenValue N.float (src.text N values)).getD 0 = src.value N values := by
    intro src
    cases src with
    | token t => exact ⟨rfl, rfl⟩
    | series s => simp [Source.text, Source.value, Source.isNumber, tokenValue_print]
  rw [parsePrometheus, foldlM_parseLine, hlines, foldlM_insert (tokenValue N.float) 0, List.map_map]
  simp only [List.forall_mem_map, hvalue, Function.comp_def]

theorem extractMetric_assign (as : List (List Char × WithTop V)) (metric : List Char) :
    extractMetric (assign as ∅) metric none =
      (((lasts as).filter (fun a => base a.1 = metric)).map Prod.snd).sum := by
  have hperm := (entries_assign as ∅).filter (fun e => base e.1 = metric)
  have hsum := (hperm.map (fun e => e.2)).sum_eq
  rw [AList.empty_entries, List.filter_nil, List.nil_append, List.filter_map, List.map_map] at hsum
  simp only [extractMetric, Option.all_none, Bool.and_true]
  exact hsum

/-! ## Sums over all values -/

def Source.series? : Source → Option Series
  | .token _ => none
  | .series s => some s

/-- The series that are in the dictionary under the keys of a metric. -/
def finalSeries (items : List Item) (metric : List Char) : List Series :=
  (finalReads items metric).filterMap (fun r => r.2.series?)

/-- A sum is what is written and what the series show. -/
theorem sum_value (values : Series → V) (reads : List (List Char × Source)) :
    (reads.map (fun r => r.2.value N values)).sum =
      (reads.map (fun r => r.2.written N)).sum +
        ((((reads.filterMap (fun r => r.2.series?)).map values).sum : V) : WithTop V) := by
  induction reads with
  | nil => simp
  | cons r reads ih =>
      obtain ⟨key, src⟩ := r
      cases src with
      | token t =>
          rw [List.map_cons, List.sum_cons, List.map_cons, List.sum_cons, ih, add_assoc]
          rfl
      | series s =>
          rw [List.map_cons, List.sum_cons, List.map_cons, List.sum_cons, ih]
          simp only [Source.value, Source.written, Source.series?, List.filterMap_cons, List.map_cons,
            List.sum_cons, WithTop.coe_add, zero_add]
          rw [add_left_comm]

theorem series?_writtenReads (lines : List (List Char)) :
    (writtenReads lines).filterMap (fun r => r.2.series?) = [] := by
  rw [List.filterMap_eq_nil_iff]
  intro r hr
  obtain ⟨r', -, rfl⟩ := List.mem_map.1 hr
  rfl

/-- The series that are read are those whose last piece is whole, once each. -/
theorem filterMap_reads (items : List Item) :
    (items.flatMap Item.reads).filterMap (fun r => r.2.series?) =
      (seriesOf items).filter (fun s => decide (Whole s.lastPiece)) := by
  induction items with
  | nil => rfl
  | cons x items ih =>
      have hseries : seriesOf (x :: items) = x.series?.toList ++ seriesOf items := by
        cases x with
        | other line => rfl
        | series s => rfl
      rw [List.flatMap_cons, List.filterMap_append, ih, hseries]
      cases x with
      | other line => rw [Item.reads, series?_writtenReads]; rfl
      | series s =>
          rw [Item.reads, List.filterMap_append, series?_writtenReads, List.nil_append]
          simp only [Item.series?, Option.toList_some, List.singleton_append]
          by_cases hwhole : Whole s.lastPiece
          · rw [if_pos hwhole, List.filter_cons_of_pos (by simpa using hwhole)]
            rfl
          · rw [if_neg hwhole, List.filter_cons_of_neg (by simpa using hwhole), series?_writtenReads]
            rfl

theorem finalReads_sublist (items : List Item) (metric : List Char) :
    (finalReads items metric).Sublist (items.flatMap Item.reads) :=
  List.filter_sublist.trans (lasts_sublist _)

theorem finalSeries_sublist (items : List Item) (metric : List Char) :
    (finalSeries items metric).Sublist (seriesOf items) := by
  have hsub := (finalReads_sublist items metric).filterMap (fun r => r.2.series?)
  rw [filterMap_reads] at hsub
  exact hsub.trans List.filter_sublist

/-- A series is read under its last piece, if at all. -/
theorem key_of_mem_reads {items : List Item} {key : List Char} {s : Series}
    (h : (key, .series s) ∈ items.flatMap Item.reads) : key = s.lastPiece := by
  have hwritten : ∀ lines, (key, Source.series s) ∉ writtenReads lines := by
    intro lines hr
    obtain ⟨r', -, hr'⟩ := List.mem_map.1 hr
    cases hr'
  obtain ⟨x, -, hx⟩ := List.mem_flatMap.1 h
  cases x with
  | other line => exact absurd hx (hwritten _)
  | series s' =>
      rcases List.mem_append.1 hx with hx | hx
      · exact absurd hx (hwritten _)
      · split at hx
        · cases List.mem_singleton.1 hx
          rfl
        · exact absurd hx (hwritten _)

theorem mem_finalSeries {items : List Item} {metric : List Char} {s : Series} :
    s ∈ finalSeries items metric ↔ (s.lastPiece, .series s) ∈ finalReads items metric := by
  constructor
  · intro h
    obtain ⟨⟨key, src⟩, hr, hs⟩ := List.mem_filterMap.1 h
    cases src with
    | token t => cases hs
    | series s' =>
        obtain rfl : s' = s := Option.some.inj hs
        rwa [key_of_mem_reads ((finalReads_sublist items metric).subset hr)] at hr
  · exact fun h => List.mem_filterMap.2 ⟨_, h, rfl⟩

/-- A value that only one series has. -/
theorem sum_single {l : List Series} (hl : l.Nodup) (s : Series) (v : V) :
    (l.map (fun x => if x = s then v else 0)).sum = if s ∈ l then v else 0 := by
  induction l with
  | nil => rfl
  | cons x l ih =>
      obtain ⟨hx, hl⟩ := List.nodup_cons.1 hl
      rw [List.map_cons, List.sum_cons, ih hl]
      by_cases h : x = s
      · subst h
        simp [hx]
      · have h' : ¬ s = x := fun h' => h h'.symm
        simp [h, h']

/-- **Two lists of series have the same sum for all values** exactly if they have the same series. -/
theorem sums_eq_iff [Nontrivial V] {l m : List Series} (hl : l.Nodup) (hm : m.Nodup)
    (written : WithTop V) :
    (∀ values : Series → V,
        written + (((l.map values).sum : V) : WithTop V) = (((m.map values).sum : V) : WithTop V)) ↔
      written = 0 ∧ ∀ s, s ∈ l ↔ s ∈ m := by
  constructor
  · intro h
    have hzero : written = 0 := by simpa using h (fun _ => 0)
    refine ⟨hzero, fun s => ?_⟩
    obtain ⟨v, hv⟩ := exists_ne (0 : V)
    have hsum := h (fun x => if x = s then v else 0)
    rw [hzero, zero_add, WithTop.coe_inj, sum_single hl, sum_single hm] at hsum
    by_cases hsl : s ∈ l
    · by_cases hsm : s ∈ m
      · simp [hsl, hsm]
      · rw [if_pos hsl, if_neg hsm] at hsum
        exact absurd hsum hv
    · by_cases hsm : s ∈ m
      · rw [if_neg hsl, if_pos hsm] at hsum
        exact absurd hsum.symm hv
      · simp [hsl, hsm]
  · rintro ⟨rfl, hmem⟩ values
    rw [zero_add, (((List.perm_ext_iff_of_nodup hl hm).2 hmem).map values).sum_eq]

/-- **The history sums every series**: whatever the finite values of the series are, the total of a
    metric is the sum over its series, exactly when their labels leave the lines of the text readable. -/
theorem perf_history_sums_iff [Nontrivial V] (items : List Item) (hdistinct : (seriesOf items).Nodup)
    (metric : List Char) :
    (∀ values : Series → V,
        (parsePrometheus N.float (exposition N values items)).map
            (fun kept => extractMetric kept metric none) =
          some (((((seriesOf items).filter (fun s => s.name = metric)).map values).sum : V) :
            WithTop V)) ↔
      Summed N items metric := by
  have hextract : ∀ values : Series → V,
      extractMetric (assign ((items.flatMap Item.reads).map (fun r => (r.1, r.2.value N values))) ∅)
          metric none =
        ((finalReads items metric).map (fun r => r.2.written N)).sum +
          ((((finalSeries items metric).map values).sum : V) : WithTop V) := by
    intro values
    rw [extractMetric_assign, lasts_map, List.filter_map, List.map_map, finalSeries, ← sum_value]
    rfl
  have hnodup : (finalSeries items metric).Nodup := hdistinct.sublist (finalSeries_sublist items metric)
  have hsums := sums_eq_iff hnodup (hdistinct.filter (fun s => s.name = metric))
    ((finalReads items metric).map (fun r => r.2.written N)).sum
  have hmem : (∀ s, s ∈ finalSeries items metric ↔
      s ∈ (seriesOf items).filter (fun s => s.name = metric)) ↔
      (∀ s ∈ seriesOf items, s.name = metric → (s.lastPiece, .series s) ∈ finalReads items metric) ∧
        ∀ s ∈ seriesOf items, s.name ≠ metric →
          (s.lastPiece, .series s) ∉ finalReads items metric := by
    simp only [List.mem_filter, decide_eq_true_iff, mem_finalSeries]
    constructor
    · intro h
      exact ⟨fun s hs hname => (h s).2 ⟨hs, hname⟩, fun s _ hname hs => hname ((h s).1 hs).2⟩
    · rintro ⟨hown, hothers⟩ s
      constructor
      · intro hs
        have hof := (finalSeries_sublist items metric).subset (mem_finalSeries.2 hs)
        exact ⟨hof, by_contra (fun hname => hothers s hof hname hs)⟩
      · exact fun hs => hown s hs.1 hs.2
  simp only [parsePrometheus_exposition]
  constructor
  · intro h
    have hnumbers : ∀ r ∈ items.flatMap Item.reads, r.2.isNumber N = true := by
      by_contra hnot
      have hnone := h (fun _ => 0)
      rw [if_neg hnot] at hnone
      cases hnone
    simp only [if_pos hnumbers, Option.map_some, Option.some.injEq, hextract] at h
    obtain ⟨hstrays, hsame⟩ := hsums.1 h
    obtain ⟨hown, hothers⟩ := hmem.1 hsame
    exact ⟨hnumbers, hown, hothers, hstrays⟩
  · intro h values
    rw [if_pos h.numbers, Option.map_some, hextract]
    exact congrArg some (hsums.2 ⟨h.strays, hmem.2 ⟨h.own, h.others⟩⟩ values)

end

/-! ## Texts -/

/-- Natural numbers, in decimal. -/
def naturals : NumberText ℕ where
  print := Nat.toDigits 10
  float token :=
    if token ≠ [] ∧ token.all Char.isDigit then some (WithTop.some (Nat.ofDigitChars 10 token 0)) else none
  print_token n := by
    refine ⟨Nat.toDigits_ne_nil, fun c hc => ?_⟩
    have hdigit := Nat.isDigit_of_mem_toDigits (by decide) (by decide) hc
    simp [isNumberChar, hdigit]
  float_print n := by
    have hdigits : (Nat.toDigits 10 n).all Char.isDigit = true :=
      List.all_eq_true.2 (fun c hc => Nat.isDigit_of_mem_toDigits (by decide) (by decide) hc)
    rw [if_pos ⟨Nat.toDigits_ne_nil, hdigits⟩, Nat.ofDigitChars_ten_toDigits]

/-- The launches of a kernel. -/
def launchesOf (kernelName : String) : Series where
  name := "hsa_kernel_launches_total".toList
  labels := [("gpu_id".toList, "51110".toList), ("kernel_name".toList, kernelName.toList)]
  name_start := by decide
  name_chars := List.all_eq_true.1 (by decide)
  labels_chars := by
    simp only [List.forall_mem_cons]
    exact ⟨List.all_eq_true.1 (by decide), List.all_eq_true.1 (by decide), List.forall_mem_nil _⟩

/-- The queues of a task. -/
def queuesOf (comm : String) : Series where
  name := "hsa_queue_info".toList
  labels := [("comm".toList, comm.toList)]
  name_start := by decide
  name_chars := List.all_eq_true.1 (by decide)
  labels_chars := by
    simp only [List.forall_mem_cons]
    exact ⟨List.all_eq_true.1 (by decide), List.forall_mem_nil _⟩

/-- The total of the launches that the history shows; none if the script ends with an error. -/
def launchHistory (items : List Item) (values : Series → ℕ) : Option (WithTop ℕ) :=
  (parsePrometheus naturals.float (exposition naturals values items)).map
    (fun kept => extractMetric kept "hsa_kernel_launches_total".toList none)

/-- Two kernels, with quotes, a backslash and blanks in their names, and a task. -/
def someItems : List Item :=
  [.other "# TYPE hsa_kernel_launches_total counter".toList,
    .series (launchesOf "void fill<int>(int*, \"x\\n\") [clone .kd]"),
    .series (launchesOf "gemm 128 64"), .series (queuesOf "python3")]

/-- All quotes and blanks notwithstanding, both kernels are counted. -/
theorem launchHistory_someItems :
    launchHistory someItems (fun s => s.text.length) = some 165 := by
  have hsummed : Summed naturals someItems "hsa_kernel_launches_total".toList :=
    ⟨by decide +kernel, by decide +kernel, by decide +kernel, by decide +kernel⟩
  have hsum := (perf_history_sums_iff naturals someItems (by decide +kernel)
    "hsa_kernel_launches_total".toList).2 hsummed (fun s => s.text.length)
  have htotal : (((seriesOf someItems).filter (fun s =>
      s.name = "hsa_kernel_launches_total".toList)).map (fun s => s.text.length)).sum = 165 := by
    decide +kernel
  rw [htotal] at hsum
  exact hsum

/-- The launches of a lambda are not counted, nor those of a kernel with a carriage return in its name,
    and a task can make the script fail. -/
theorem launchHistory_incomplete :
    launchHistory [.series (launchesOf "run\x7blambda(int)#1\x7d(int)")] (fun _ => 5) ≠
        some 5 ∧
      launchHistory [.series (launchesOf "a\rb")] (fun _ => 5) ≠ some 5 ∧
      launchHistory [.series (launchesOf "fill"), .series (queuesOf "x\x7d e")] (fun _ => 5) ≠
        some 5 := by
  decide +kernel

end HsaSnoop
