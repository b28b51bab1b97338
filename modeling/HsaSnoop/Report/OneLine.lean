import HsaSnoop.Report.PerfHistory

set_option autoImplicit false

/-! # Series on one line

In a text whose labels hold no line break but newlines, which are escaped, every series stays on the line
it was printed on. There the closing brace is all that matters (`summed_iff_of_oneLine`): a metric is
summed right exactly if none of its labels holds one, and no label of any other metric makes the script
fail. Behind that stands that the text of a series determines it, and is no beginning of another
(`text_append_injective`). -/

namespace HsaSnoop

open Families

/-! ## Texts of series -/

/-- A character is escaped by a backslash, or stands for itself. -/
theorem escapeChar_cases (c : Char) :
    (c = '\\' ∧ escapeChar c = ['\\', '\\']) ∨ (c = '\n' ∧ escapeChar c = ['\\', 'n']) ∨
      (c = '"' ∧ escapeChar c = ['\\', '"']) ∨
        (c ≠ '\\' ∧ c ≠ '\n' ∧ c ≠ '"' ∧ escapeChar c = [c]) := by
  unfold escapeChar
  by_cases hback : c = '\\'
  · exact .inl ⟨hback, if_pos hback⟩
  · by_cases hnewline : c = '\n'
    · exact .inr (.inl ⟨hnewline, by rw [if_neg hback, if_pos hnewline]⟩)
    · by_cases hquote : c = '"'
      · exact .inr (.inr (.inl ⟨hquote, by rw [if_neg hback, if_neg hnewline, if_pos hquote]⟩))
      · exact .inr (.inr (.inr ⟨hback, hnewline, hquote,
          by rw [if_neg hback, if_neg hnewline, if_neg hquote]⟩))

/-- No character is escaped to a quote of its own. -/
theorem escapeChar_ne_quote {c : Char} {s s' : List Char} : escapeChar c ++ s ≠ '"' :: s' := by
  intro h
  rcases escapeChar_cases c with ⟨-, hc⟩ | ⟨-, hc⟩ | ⟨-, hc⟩ | ⟨-, -, hquote, hc⟩
  · rw [hc] at h
    cases h
  · rw [hc] at h
    cases h
  · rw [hc] at h
    cases h
  · rw [hc] at h
    exact hquote (List.cons_eq_cons.1 h).1

theorem escapeChar_inj {c c' : Char} {s s' : List Char} (h : escapeChar c ++ s = escapeChar c' ++ s') :
    c = c' ∧ s = s' := by
  rcases escapeChar_cases c with ⟨hself, hc⟩ | ⟨hself, hc⟩ | ⟨hself, hc⟩ | ⟨hback, -, -, hc⟩ <;>
    rcases escapeChar_cases c' with ⟨hself', hc'⟩ | ⟨hself', hc'⟩ | ⟨hself', hc'⟩ | ⟨hback', -, -, hc'⟩ <;>
    rw [hc, hc'] at h <;> simp only [List.cons_append, List.nil_append, List.cons.injEq] at h <;> grind

/-- Escaping makes no characters but its own, and leaves no newline. -/
theorem mem_escape {d : Char} {s : List Char} (h : d ∈ escape s) :
    d = '\\' ∨ d = 'n' ∨ d = '"' ∨ (d ∈ s ∧ d ≠ '\n') := by
  obtain ⟨c, hmem, hd⟩ := List.mem_flatMap.1 h
  rcases escapeChar_cases c with ⟨-, hc⟩ | ⟨-, hc⟩ | ⟨-, hc⟩ | ⟨-, hnewline, -, hc⟩
  · rw [hc] at hd
    simp only [List.mem_cons, List.not_mem_nil, or_false, or_self] at hd
    exact .inl hd
  · rw [hc, List.mem_pair] at hd
    exact hd.imp_right .inl
  · rw [hc, List.mem_pair] at hd
    exact hd.imp_right (fun hd => .inr (.inl hd))
  · rw [hc, List.mem_singleton] at hd
    subst hd
    exact .inr (.inr (.inr ⟨hmem, hnewline⟩))

theorem brace_mem_escape {s : List Char} : '}' ∈ escape s ↔ '}' ∈ s := by
  constructor
  · intro h
    rcases mem_escape h with h | h | h | h
    · exact absurd h (by decide)
    · exact absurd h (by decide)
    · exact absurd h (by decide)
    · exact h.1
  · intro h
    exact List.mem_flatMap.2 ⟨'}', h, by decide⟩

/-- A quote that is not escaped ends a value. -/
theorem escape_inj {v v' s s' : List Char} (h : escape v ++ '"' :: s = escape v' ++ '"' :: s') :
    v = v' ∧ s = s' := by
  induction v generalizing v' with
  | nil =>
      cases v' with
      | nil => exact ⟨rfl, (List.cons_eq_cons.1 h).2⟩
      | cons c v' =>
          rw [escape, escape, List.flatMap_cons, List.append_assoc] at h
          exact absurd h.symm escapeChar_ne_quote
  | cons c v ih =>
      rw [escape, List.flatMap_cons, List.append_assoc] at h
      cases v' with
      | nil => exact absurd h escapeChar_ne_quote
      | cons c' v' =>
          rw [escape, List.flatMap_cons, List.append_assoc] at h
          obtain ⟨rfl, hrest⟩ := escapeChar_inj h
          obtain ⟨rfl, hs⟩ := ih hrest
          exact ⟨rfl, hs⟩

/-- Before a separator that none of them holds, two texts are the same. -/
theorem append_sep_inj {α : Type} {a : α} {l l' s s' : List α} (hl : a ∉ l) (hl' : a ∉ l')
    (h : l ++ a :: s = l' ++ a :: s') : l = l' ∧ s = s' := by
  induction l generalizing l' with
  | nil =>
      cases l' with
      | nil => exact ⟨rfl, (List.cons_eq_cons.1 h).2⟩
      | cons b l' =>
          rw [List.mem_cons, not_or] at hl'
          exact absurd (List.cons_eq_cons.1 h).1 hl'.1
  | cons b l ih =>
      rw [List.mem_cons, not_or] at hl
      cases l' with
      | nil => exact absurd (List.cons_eq_cons.1 h).1.symm hl.1
      | cons b' l' =>
          rw [List.mem_cons, not_or] at hl'
          obtain ⟨rfl, hrest⟩ := List.cons_eq_cons.1 h
          obtain ⟨rfl, hs⟩ := ih hl.2 hl'.2 hrest
          exact ⟨rfl, hs⟩

theorem notMem_of_nameChars {s : List Char} (h : ∀ c ∈ s, isNameChar c = true) {d : Char}
    (hd : isNameChar d = false) : d ∉ s := by
  intro hmem
  rw [h d hmem] at hd
  cases hd

/-- A label ends with its quote. -/
theorem labelText_inj {l l' : List Char × List Char} (hl : ∀ c ∈ l.1, isNameChar c = true)
    (hl' : ∀ c ∈ l'.1, isNameChar c = true) {s s' : List Char}
    (h : labelText l ++ s = labelText l' ++ s') : l = l' ∧ s = s' := by
  have hequals : isNameChar '=' = false := by decide
  simp only [labelText, List.append_assoc, List.cons_append, List.nil_append] at h
  obtain ⟨hname, hrest⟩ :=
    append_sep_inj (notMem_of_nameChars hl hequals) (notMem_of_nameChars hl' hequals) h
  obtain ⟨hvalue, hs⟩ := escape_inj (List.cons_eq_cons.1 hrest).2
  exact ⟨Prod.ext hname hvalue, hs⟩

/-- Labels end with their closing brace. -/
theorem labelsText_inj {ls ls' : List (List Char × List Char)}
    (hls : ∀ l ∈ ls, ∀ c ∈ l.1, isNameChar c = true) (hls' : ∀ l ∈ ls', ∀ c ∈ l.1, isNameChar c = true)
    (hne : ls ≠ []) (hne' : ls' ≠ []) {s s' : List Char}
    (h : List.intercalate [','] (ls.map labelText) ++ '}' :: s =
      List.intercalate [','] (ls'.map labelText) ++ '}' :: s') : ls = ls' ∧ s = s' := by
  induction ls generalizing ls' with
  | nil => exact absurd rfl hne
  | cons l ls ih =>
      cases ls' with
      | nil => exact absurd rfl hne'
      | cons l' ls' =>
          rw [List.forall_mem_cons] at hls hls'
          cases ls with
          | nil =>
              cases ls' with
              | nil =>
                  obtain ⟨rfl, hs⟩ := labelText_inj hls.1 hls'.1 (by simpa using h)
                  exact ⟨rfl, (List.cons_eq_cons.1 hs).2⟩
              | cons m' ls' =>
                  rw [List.map_cons, List.map_nil, List.intercalate_singleton, List.map_cons, List.map_cons,
                    List.intercalate_cons_cons, List.append_assoc, List.append_assoc] at h
                  cases (labelText_inj hls.1 hls'.1 h).2
          | cons m ls =>
              cases ls' with
              | nil =>
                  rw [List.map_cons, List.map_cons, List.intercalate_cons_cons, List.append_assoc,
                    List.append_assoc, List.map_cons, List.map_nil, List.intercalate_singleton] at h
                  cases (labelText_inj hls.1 hls'.1 h).2
              | cons m' ls' =>
                  rw [List.map_cons, List.map_cons, List.intercalate_cons_cons, List.append_assoc,
                    List.append_assoc, List.map_cons, List.map_cons, List.intercalate_cons_cons,
                    List.append_assoc, List.append_assoc] at h
                  obtain ⟨rfl, hrest⟩ := labelText_inj hls.1 hls'.1 h
                  obtain ⟨htail, hs⟩ := ih hls.2 hls'.2 (List.cons_ne_nil _ _) (List.cons_ne_nil _ _)
                    (List.cons_eq_cons.1 hrest).2
                  exact ⟨by rw [htail], hs⟩

/-- What stands between the braces. -/
def Series.labelsText (s : Series) : List Char := List.intercalate [','] (s.labels.map labelText)

theorem text_of_labels {s : Series} (h : s.labels ≠ []) :
    s.text = s.name ++ '{' :: (s.labelsText ++ ['}']) := if_neg h

theorem text_of_no_labels {s : Series} (h : s.labels = []) : s.text = s.name := if_pos h

theorem brace_notMem_name (s : Series) : '{' ∉ s.name := notMem_of_nameChars s.name_chars (by decide)

/-- A key that starts with the name of a series and a brace is a key of its metric. -/
theorem base_name_append (s : Series) (t : List Char) : base (s.name ++ '{' :: t) = s.name := by
  have hname : ∀ c ∈ s.name, decide (c ≠ '{') = true := by
    intro c hc
    exact decide_eq_true (fun heq => brace_notMem_name s (heq ▸ hc))
  rw [base, List.takeWhile_append_of_pos hname, List.takeWhile_cons_of_neg (by simp), List.append_nil]

theorem base_text (s : Series) : base s.text = s.name := by
  by_cases h : s.labels = []
  · rw [text_of_no_labels h, base, List.takeWhile_eq_self_iff]
    intro c hc
    exact decide_eq_true (fun heq => brace_notMem_name s (heq ▸ hc))
  · rw [text_of_labels h, base_name_append]

/-- **Series are told apart by their texts**, also where one is followed by anything but a name's end. -/
theorem text_append_injective {s s' : Series} (hs : s.labels ≠ []) {t : List Char}
    (h : s.text ++ t = s'.text) : s = s' := by
  have hlabels' : s'.labels ≠ [] := by
    intro hnil
    have hmem : '{' ∈ s.text ++ t := by rw [text_of_labels hs]; simp
    rw [h, text_of_no_labels hnil] at hmem
    exact brace_notMem_name s' hmem
  rw [text_of_labels hs, text_of_labels hlabels', List.append_assoc, List.cons_append,
    List.append_assoc, List.singleton_append] at h
  obtain ⟨hname, hrest⟩ := append_sep_inj (brace_notMem_name s) (brace_notMem_name s') h
  exact Series.ext hname (labelsText_inj s.labels_chars s'.labels_chars hs hlabels' hrest).1

theorem text_injective {s s' : Series} (h : s.text = s'.text) : s = s' := by
  by_cases hs : s.labels = []
  · by_cases hs' : s'.labels = []
    · rw [text_of_no_labels hs, text_of_no_labels hs'] at h
      exact Series.ext h (hs.trans hs'.symm)
    · exact (text_append_injective hs' ((List.append_nil _).trans h.symm)).symm
  · exact text_append_injective hs ((List.append_nil _).trans h)

/-! ## Whole series -/

theorem brace_mem_labelText {l : List Char × List Char} (hl : ∀ c ∈ l.1, isNameChar c = true) :
    '}' ∈ labelText l ↔ '}' ∈ l.2 := by
  have hname : '}' ∉ l.1 := notMem_of_nameChars hl (by decide)
  simp [labelText, hname, brace_mem_escape]

/-- Between the braces stand labels and commas. -/
theorem mem_labelsText {s : Series} {d : Char} (hd : d ≠ ',') :
    d ∈ s.labelsText ↔ ∃ l ∈ s.labels, d ∈ labelText l := by
  unfold Series.labelsText
  induction s.labels with
  | nil => simp
  | cons l ls ih =>
      rw [List.exists_mem_cons_iff, ← ih]
      cases ls with
      | nil => simp
      | cons m ls => simp [List.intercalate_cons_cons, hd]

theorem brace_mem_labelsText (s : Series) : '}' ∈ s.labelsText ↔ ∃ l ∈ s.labels, '}' ∈ l.2 := by
  rw [mem_labelsText (by decide)]
  refine exists_congr (fun l => and_congr_right (fun hl => ?_))
  exact brace_mem_labelText (s.labels_chars l hl)

/-- What is read of a series with labels. -/
theorem readKey?_text {s : Series} (hlabels : s.labels ≠ []) :
    readKey? s.text =
      some (s.name ++ '{' :: ((s.labelsText ++ ['}']).takeWhile (fun d => decide (d ≠ '}')) ++ ['}']),
        ((s.labelsText ++ ['}']).dropWhile (fun d => decide (d ≠ '}'))).tail) := by
  obtain ⟨c, rest, hname, hc, hrest⟩ := name_eq_cons s
  have htake : (rest ++ '{' :: (s.labelsText ++ ['}'])).takeWhile isNameChar = rest := by
    rw [List.takeWhile_append_of_pos hrest, List.takeWhile_cons_of_neg (by decide), List.append_nil]
  have hdrop : (rest ++ '{' :: (s.labelsText ++ ['}'])).dropWhile isNameChar =
      '{' :: (s.labelsText ++ ['}']) := by
    rw [List.dropWhile_append_of_pos hrest, List.dropWhile_cons_of_neg (by decide)]
  rw [text_of_labels hlabels, hname, List.cons_append]
  simp only [readKey?, hc, if_true, htake, hdrop]
  cases hend : (s.labelsText ++ ['}']).dropWhile (fun d => decide (d ≠ '}')) with
  | nil =>
      rw [List.dropWhile_eq_nil_iff] at hend
      exact absurd (hend '}' (by simp)) (by decide)
  | cons d u => simp

/-- A series is whole if none of its labels holds a closing brace. -/
theorem whole_text_iff (s : Series) : Whole s.text ↔ ∀ l ∈ s.labels, '}' ∉ l.2 := by
  have hbrace := brace_mem_labelsText s
  by_cases hlabels : s.labels = []
  · obtain ⟨c, rest, hname, hc, hrest⟩ := name_eq_cons s
    have hwhole := (reMatch_name hc hrest (naturals.print_token 0)).1
    rw [text_of_no_labels hlabels, hname, hlabels]
    exact ⟨fun _ => List.forall_mem_nil _, fun _ => hwhole⟩
  · have hiff : Whole s.text ↔ '}' ∉ s.labelsText := by
      rw [Whole, readKey?_text hlabels]
      constructor
      · intro h hmem
        obtain ⟨-, hrest⟩ := @while_append_of_mem _ (fun d => decide (d ≠ '}')) '}' s.labelsText hmem
          (by decide) ['}']
        have htail := congrArg Prod.snd (Option.some.inj h)
        rw [hrest] at htail
        cases hu : s.labelsText.dropWhile (fun d => decide (d ≠ '}')) with
        | nil =>
            rw [List.dropWhile_eq_nil_iff] at hu
            exact absurd (hu '}' hmem) (by decide)
        | cons d u =>
            rw [hu] at htail
            simp at htail
      · intro hmem
        have hall : ∀ d ∈ s.labelsText, decide (d ≠ '}') = true := by
          intro d hd
          exact decide_eq_true (fun heq => hmem (heq ▸ hd))
        rw [List.takeWhile_append_of_pos hall, List.dropWhile_append_of_pos hall, text_of_labels hlabels]
        simp
    rw [hiff, hbrace]
    simp

/-! ## Texts of one line a series -/

/-- Every series stays on its line, and every other line is a comment. -/
structure OneLine (items : List Item) : Prop where
  labels : ∀ s ∈ seriesOf items, ∀ l ∈ s.labels, ∀ c ∈ l.2, c = '\n' ∨ lineBreak c = false
  comments : ∀ line, .other line ∈ items → line.head? = some '#' ∧ ∀ c ∈ line, lineBreak c = false

theorem not_lineBreak_text {s : Series}
    (h : ∀ l ∈ s.labels, ∀ c ∈ l.2, c = '\n' ∨ lineBreak c = false) :
    ∀ c ∈ s.text, lineBreak c = false := by
  have hname : ∀ c, isNameChar c = true → lineBreak c = false :=
    fun c hc => not_lineBreak_of_range (range_of_isNameChar hc)
  have hlabel : ∀ l ∈ s.labels, ∀ c ∈ labelText l, lineBreak c = false := by
    intro l hl c hc
    simp only [labelText, List.mem_append, List.mem_cons, List.not_mem_nil, or_false] at hc
    rcases hc with hc | rfl | rfl | hc | rfl
    · exact hname c (s.labels_chars l hl c hc)
    · decide
    · decide
    · rcases mem_escape hc with rfl | rfl | rfl | ⟨hc, hnewline⟩
      · decide
      · decide
      · decide
      · exact (h l hl c hc).resolve_left hnewline
    · decide
  intro c hc
  by_cases hlabels : s.labels = []
  · rw [text_of_no_labels hlabels] at hc
    exact hname c (s.name_chars c hc)
  · rw [text_of_labels hlabels] at hc
    simp only [List.mem_append, List.mem_cons, List.not_mem_nil, or_false] at hc
    rcases hc with hc | rfl | hc | rfl
    · exact hname c (s.name_chars c hc)
    · decide
    · by_cases hcomma : c = ','
      · rw [hcomma]
        decide
      · obtain ⟨l, hl, hcl⟩ := (mem_labelsText hcomma).1 hc
        exact hlabel l hl c hcl
    · decide

/-- A series on its line is its own last piece. -/
theorem lastPiece_eq_text {s : Series}
    (h : ∀ l ∈ s.labels, ∀ c ∈ l.2, c = '\n' ∨ lineBreak c = false) :
    cutLines s.text = ([], s.text) ∧ s.lastPiece = s.text := by
  have hcut := (cutLines_of_no_break (not_lineBreak_text h)).1
  refine ⟨hcut, ?_⟩
  obtain ⟨c, rest, hname, hc, -⟩ := name_eq_cons s
  have hspace : pySpace c = false :=
    not_pySpace_of_range (range_of_isNameChar (s.name_chars c (by rw [hname]; exact List.mem_cons_self ..)))
  obtain ⟨tail, htail⟩ : ∃ tail, s.text = c :: tail := by
    by_cases hlabels : s.labels = []
    · exact ⟨rest, by rw [text_of_no_labels hlabels, hname]⟩
    · exact ⟨_, by rw [text_of_labels hlabels, hname, List.cons_append]⟩
  rw [Series.lastPiece, hcut, htail]
  exact List.dropWhile_cons_of_neg (by simp [hspace])

/-- The text of a series has no blanks at its ends. -/
theorem strip_text {s : Series} (h : s.lastPiece = s.text) (hcut : cutLines s.text = ([], s.text)) :
    strip s.text = s.text := by
  have hdrop : s.text.dropWhile pySpace = s.text := by
    rwa [Series.lastPiece, hcut] at h
  rw [strip, hdrop]
  rcases text_cases s with htext | ⟨t, htext⟩
  · obtain ⟨c, rest, hname, -, -⟩ := name_eq_cons s
    have hne : s.name ≠ [] := by
      rw [hname]
      exact List.cons_ne_nil c rest
    rw [htext]
    exact rdropWhile_of_getLast? (List.getLast?_eq_some_getLast hne)
      (not_pySpace_of_range (range_of_isNameChar (s.name_chars _ (List.getLast_mem hne))))
  · have hlast : s.text.getLast? = some '}' := by
      rw [htext, List.getLast?_append]
      rfl
    exact rdropWhile_of_getLast? hlast (by decide)

/-- What a series that is not whole is read for: a key of its metric, which is a beginning of its
    text. -/
theorem readLine?_text {s : Series} (hcut : cutLines s.text = ([], s.text)) (hlast : s.lastPiece = s.text)
    (hwhole : ¬ Whole s.text) {read : List Char × List Char} (h : readLine? s.text = some read) :
    base read.1 = s.name ∧ '{' ∈ read.1 ∧ ∃ rest, s.text = read.1 ++ rest := by
  have hlabels : s.labels ≠ [] := by
    intro hnil
    exact hwhole ((whole_text_iff s).2 (by rw [hnil]; exact List.forall_mem_nil _))
  have hkey := readKey?_text hlabels
  have hsplit := readKey?_split hkey
  simp only [readLine?, strip_text hlast hcut] at h
  split at h
  · cases h
  · rw [reMatch_eq, hkey, Option.bind_some, readRest] at h
    split at h
    · obtain ⟨value, -, rfl⟩ := Option.map_eq_some_iff.1 h
      exact ⟨base_name_append s _, by simp, _, hsplit⟩
    · cases h

theorem readLine?_comment {line : List Char} (h : line.head? = some '#') : readLine? line = none := by
  cases line with
  | nil => cases h
  | cons c t =>
      obtain rfl : c = '#' := Option.some.inj h
      have hdrop : ('#' :: t).dropWhile pySpace = '#' :: t := List.dropWhile_cons_of_neg (by decide)
      have hhead : (('#' :: t).rdropWhile pySpace).head? = some '#' := by
        cases hstrip : ('#' :: t).rdropWhile pySpace with
        | nil =>
            rw [List.rdropWhile_eq_nil_iff] at hstrip
            exact absurd (hstrip '#' (List.mem_cons_self ..)) (by decide)
        | cons d u =>
            have hfirst := List.rdropWhile_prefix pySpace ('#' :: t)
            rw [hstrip, List.cons_prefix_cons] at hfirst
            rw [hfirst.1]
            rfl
      simp only [readLine?, strip, hdrop]
      exact if_pos (.inr hhead)

theorem mem_seriesOf {items : List Item} {s : Series} : s ∈ seriesOf items ↔ .series s ∈ items := by
  constructor
  · intro h
    obtain ⟨x, hx, hs⟩ := List.mem_filterMap.1 h
    cases x with
    | other line => cases hs
    | series s' =>
        obtain rfl : s' = s := Option.some.inj hs
        exact hx
  · exact fun h => List.mem_filterMap.2 ⟨_, h, rfl⟩

/-- What the lines assign: whole series, and what the others are read for. -/
theorem mem_reads_of_oneLine {items : List Item} (h : OneLine items) {r : List Char × Source} :
    r ∈ items.flatMap Item.reads ↔
      ∃ s ∈ seriesOf items, (Whole s.text ∧ r = (s.text, .series s)) ∨
        (¬ Whole s.text ∧ ∃ read, readLine? s.text = some read ∧ r = (read.1, .token read.2)) := by
  have hseries : ∀ s ∈ seriesOf items, (r ∈ (Item.series s).reads ↔
      (Whole s.text ∧ r = (s.text, .series s)) ∨
        (¬ Whole s.text ∧ ∃ read, readLine? s.text = some read ∧ r = (read.1, .token read.2))) := by
    intro s hs
    obtain ⟨hcut, hlast⟩ := lastPiece_eq_text (h.labels s hs)
    rw [Item.reads, hcut, hlast]
    by_cases hwhole : Whole s.text
    · rw [if_pos hwhole]
      simp [writtenReads, hwhole]
    · rw [if_neg hwhole]
      cases hread : readLine? s.text with
      | none => simp [writtenReads, hread, hwhole]
      | some read => simp [writtenReads, hread, hwhole]
  constructor
  · intro hr
    obtain ⟨x, hx, hrx⟩ := List.mem_flatMap.1 hr
    cases x with
    | other line =>
        obtain ⟨hhash, hbreak⟩ := h.comments line hx
        rw [Item.reads, (cutLines_of_no_break hbreak).2] at hrx
        simp [writtenReads, readLine?_comment hhash] at hrx
    | series s =>
        have hs := mem_seriesOf.2 hx
        exact ⟨s, hs, (hseries s hs).1 hrx⟩
  · rintro ⟨s, hs, hrx⟩
    exact List.mem_flatMap.2 ⟨.series s, mem_seriesOf.1 hs, (hseries s hs).2 hrx⟩

/-- **On one line each, only closing braces matter**: a metric is summed right exactly if no label of its
    series holds one, and what is read of the series that have one is a number. -/
theorem summed_iff_of_oneLine {V : Type} [AddCommMonoid V] (N : NumberText V) {items : List Item}
    (h : OneLine items) (metric : List Char) :
    Summed N items metric ↔
      (∀ s ∈ seriesOf items, s.name = metric → ∀ l ∈ s.labels, '}' ∉ l.2) ∧
        ∀ s ∈ seriesOf items, (∃ l ∈ s.labels, '}' ∈ l.2) → ∀ read, readLine? s.text = some read →
          (tokenValue N.float read.2).isSome := by
  have hnotWhole : ∀ s : Series, (∃ l ∈ s.labels, '}' ∈ l.2) ↔ ¬ Whole s.text := by
    intro s
    rw [whole_text_iff]
    simp
  have hreads := fun r => @mem_reads_of_oneLine items h r
  have hpiece := fun s hs => (lastPiece_eq_text (h.labels s hs)).2
  constructor
  · intro hsummed
    refine ⟨fun s hs hname => ?_, fun s hs hbrace read hread => ?_⟩
    · have hmem := (finalReads_sublist items metric).subset (hsummed.own s hs hname)
      obtain ⟨s', -, ⟨hwhole, heq⟩ | ⟨-, read, -, heq⟩⟩ := (hreads _).1 hmem
      · obtain rfl : s = s' := Source.series.inj (congrArg Prod.snd heq)
        exact (whole_text_iff s).1 hwhole
      · cases congrArg Prod.snd heq
    · exact hsummed.numbers _
        ((hreads (read.1, .token read.2)).2 ⟨s, hs, .inr ⟨(hnotWhole s).1 hbrace, read, hread, rfl⟩⟩)
  · rintro ⟨hbraces, hnumbers⟩
    have hbase : ∀ s ∈ seriesOf items, ¬ Whole s.text → ∀ read, readLine? s.text = some read →
        base read.1 = s.name ∧ '{' ∈ read.1 ∧ ∃ rest, s.text = read.1 ++ rest := by
      intro s hs hwhole read hread
      obtain ⟨hcut, hlast⟩ := lastPiece_eq_text (h.labels s hs)
      exact readLine?_text hcut hlast hwhole hread
    refine ⟨fun r hr => ?_, fun s hs hname => ?_, fun s hs hname hmem => ?_, ?_⟩
    · obtain ⟨s, hs, ⟨-, rfl⟩ | ⟨hwhole, read, hread, rfl⟩⟩ := (hreads r).1 hr
      · rfl
      · exact hnumbers s hs ((hnotWhole s).2 hwhole) read hread
    · -- No other line is read under the text of this series.
      have hwhole := (whole_text_iff s).2 (hbraces s hs hname)
      have hmem : (s.text, Source.series s) ∈ items.flatMap Item.reads :=
        (hreads _).2 ⟨s, hs, .inl ⟨hwhole, rfl⟩⟩
      rw [hpiece s hs, finalReads, List.mem_filter, decide_eq_true_iff, base_text]
      refine ⟨mem_lasts hmem ?_, hname⟩
      intro r hr hkey
      obtain ⟨s', hs', ⟨-, rfl⟩ | ⟨hwhole', read, hread, rfl⟩⟩ := (hreads r).1 hr
      · obtain rfl := text_injective hkey
        rfl
      · obtain ⟨-, hopen, rest, hrest⟩ := hbase s' hs' hwhole' read hread
        have hkey' : read.1 = s.text := hkey
        have hlabels : s.labels ≠ [] := by
          intro hnil
          rw [hkey', text_of_no_labels hnil] at hopen
          exact brace_notMem_name s hopen
        rw [hkey'] at hrest
        obtain rfl := text_append_injective hlabels hrest.symm
        exact absurd hwhole hwhole'
    · rw [hpiece s hs, finalReads, List.mem_filter, decide_eq_true_iff, base_text] at hmem
      exact hname hmem.2
    · refine List.sum_eq_zero (fun x hx => ?_)
      obtain ⟨r, hr, rfl⟩ := List.mem_map.1 hx
      have hkey := of_decide_eq_true (List.mem_filter.1 hr).2
      obtain ⟨s, hs, ⟨-, rfl⟩ | ⟨hwhole, read, hread, rfl⟩⟩ :=
        (hreads r).1 ((finalReads_sublist items metric).subset hr)
      · rfl
      · have hname : s.name = metric := (hbase s hs hwhole read hread).1.symm.trans hkey
        exact absurd ((whole_text_iff s).2 (hbraces s hs hname)) hwhole

end HsaSnoop
