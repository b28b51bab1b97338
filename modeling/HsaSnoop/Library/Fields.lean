import Mathlib.Data.List.Basic
import Mathlib.Data.List.Infix

set_option autoImplicit false

/-! # Searching a line for fields

`after? needle s` is what follows the first occurrence of `needle` in `s`. A line is a head followed by
fields ` key=value` (`fieldsText`), and a reader looks for a field by searching the whole line for
` key=`. It finds the field if nothing in front of it spells the same (`after?_fieldsText`); a head
that does spell it hides the field (`after?_append_sep`). Both rest on the separator occurring in a
needle only as its first element, so that an occurrence cannot straddle the start of a field.

Generic over the element type; `sep` and `eq` stand for the blank and the equals sign. -/

namespace Fields

universe u

variable {α : Type u} [DecidableEq α]

/-! ## Searching -/

/-- What follows the first occurrence of `needle`. -/
def after? (needle : List α) : List α → Option (List α)
  | [] => if needle = [] then some [] else none
  | c :: s => if needle <+: c :: s then some ((c :: s).drop needle.length) else after? needle s

theorem after?_append_self (needle s : List α) : after? needle (needle ++ s) = some s := by
  cases hl : needle ++ s with
  | nil =>
      obtain ⟨rfl, rfl⟩ := List.append_eq_nil_iff.1 hl
      exact if_pos rfl
  | cons c t =>
      rw [after?, if_pos (hl ▸ List.prefix_append needle s), ← hl, List.drop_left]

theorem after?_isSome {needle s : List α} : (after? needle s).isSome ↔ needle <:+: s := by
  induction s with
  | nil =>
      unfold after?
      by_cases h : needle = []
      · simp [h]
      · simp [h]
  | cons c s ih =>
      unfold after?
      rw [List.infix_cons_iff, ← ih]
      by_cases h : needle <+: c :: s
      · simp [h]
      · simp [h]

theorem after?_eq_none {needle s : List α} : after? needle s = none ↔ ¬ needle <:+: s := by
  rw [← after?_isSome]
  simp

/-- A needle that starts with `c` is not found where there is no `c`. -/
theorem after?_append_of_notMem {c : α} {pre : List α} (h : c ∉ pre) (needle s : List α) :
    after? (c :: needle) (pre ++ s) = after? (c :: needle) s := by
  induction pre with
  | nil => rfl
  | cons d pre ih =>
      rw [List.mem_cons, not_or] at h
      rw [List.cons_append, after?, if_neg, ih h.2]
      rw [List.cons_prefix_cons]
      exact fun hd => h.1 hd.1

theorem after?_of_notMem {c : α} {l : List α} (h : c ∉ l) (needle : List α) :
    after? (c :: needle) l = none := by
  have hnil := after?_append_of_notMem h needle []
  rwa [List.append_nil] at hnil

/-! ## A separator that starts the needle -/

variable {sep eq : α}

omit [DecidableEq α] in
/-- An occurrence does not run into a separator. -/
theorem prefix_append_sep {needle l s : List α} (h : sep ∉ needle) :
    needle <+: l ++ sep :: s ↔ needle <+: l := by
  constructor
  · intro hp
    rcases List.prefix_or_prefix_of_prefix hp (List.prefix_append l (sep :: s)) with hn | hl
    · exact hn
    · -- Otherwise the needle covers `l`, and its next element is the separator.
      obtain ⟨rest, rfl⟩ := hl
      rw [List.prefix_append_right_inj] at hp
      cases rest with
      | nil => simp
      | cons c rest =>
          rw [List.cons_prefix_cons] at hp
          exact absurd (by simp [hp.1]) h
  · exact fun hp => hp.trans (List.prefix_append l (sep :: s))

/-- What stands in front of a separator either holds the needle, and then hides what follows, or is
    passed over. -/
theorem after?_append_sep {needle : List α} (h : sep ∉ needle) (l s : List α) :
    after? (sep :: needle) (l ++ sep :: s) =
      match after? (sep :: needle) l with
      | some t => some (t ++ sep :: s)
      | none => after? (sep :: needle) (sep :: s) := by
  induction l with
  | nil => rfl
  | cons c l ih =>
      have hiff : sep :: needle <+: c :: (l ++ sep :: s) ↔ sep :: needle <+: c :: l := by
        rw [List.cons_prefix_cons, List.cons_prefix_cons, prefix_append_sep h]
      rw [List.cons_append, after?, after?]
      by_cases hp : sep :: needle <+: c :: l
      · rw [if_pos (hiff.2 hp), if_pos hp]
        have hlen := hp.length_le
        rw [List.length_cons, List.length_cons] at hlen
        simp only [List.length_cons, List.drop_succ_cons]
        rw [List.drop_append_of_le_length (by omega)]
      · rw [if_neg (mt hiff.1 hp), if_neg hp]
        exact ih

/-- The same for a separator the needle does not hold at all. -/
theorem after?_append_cons {needle : List α} (hne : needle ≠ []) (h : sep ∉ needle) (l s : List α) :
    after? needle (l ++ sep :: s) =
      match after? needle l with
      | some t => some (t ++ sep :: s)
      | none => after? needle (sep :: s) := by
  induction l with
  | nil =>
      rw [List.nil_append]
      conv_rhs => rw [after?, if_neg hne]
  | cons c l ih =>
      have hiff : needle <+: c :: (l ++ sep :: s) ↔ needle <+: c :: l :=
        @prefix_append_sep _ sep needle (c :: l) s h
      rw [List.cons_append, after?, after?]
      by_cases hp : needle <+: c :: l
      · rw [if_pos (hiff.2 hp), if_pos hp, ← List.cons_append,
          List.drop_append_of_le_length hp.length_le]
      · rw [if_neg (mt hiff.1 hp), if_neg hp]
        exact ih

/-! ## Fields -/

/-- Fields ` key=value`, one behind the other. -/
def fieldsText (sep eq : α) : List (List α × List α) → List α
  | [] => []
  | (key, value) :: fields => sep :: (key ++ eq :: value ++ fieldsText sep eq fields)

/-- What a reader searches for. -/
def needle (sep eq : α) (key : List α) : List α := sep :: (key ++ [eq])

/-- A field that can be told apart from the next: no separator in it, no equals sign in its key. -/
structure Plain (sep eq : α) (field : List α × List α) : Prop where
  key : sep ∉ field.1
  keyEq : eq ∉ field.1
  value : sep ∉ field.2

/-- Fields that can be told apart: each is plain, and no key occurs twice. -/
structure Distinct (sep eq : α) (fields : List (List α × List α)) : Prop where
  plain : ∀ f ∈ fields, Plain sep eq f
  nodup : (fields.map Prod.fst).Nodup

omit [DecidableEq α] in
/-- The keys are known beforehand; only the values vary. -/
theorem Distinct.of_keys (keys : List (List α)) {fields : List (List α × List α)}
    (hkeys : fields.map Prod.fst = keys) (hplain : ∀ k ∈ keys, sep ∉ k ∧ eq ∉ k)
    (hnodup : keys.Nodup) (hvalues : ∀ f ∈ fields, sep ∉ f.2) : Distinct sep eq fields := by
  subst hkeys
  refine ⟨?_, hnodup⟩
  intro f hf
  obtain ⟨hsep, heq⟩ := hplain f.1 (List.mem_map_of_mem hf)
  exact ⟨hsep, heq, hvalues f hf⟩

omit [DecidableEq α] in
/-- In front of a field stand only fields with other keys. -/
theorem Distinct.split {fields : List (List α × List α)} (h : Distinct sep eq fields)
    {key value : List α} (hmem : (key, value) ∈ fields) :
    ∃ before later, fields = before ++ (key, value) :: later ∧
      ∀ f ∈ before, Plain sep eq f ∧ f.1 ≠ key := by
  obtain ⟨before, later, rfl⟩ := List.append_of_mem hmem
  have hnodup := h.nodup
  rw [List.map_append, List.map_cons, List.nodup_append] at hnodup
  refine ⟨before, later, rfl, ?_⟩
  intro f hf
  exact ⟨h.plain f (List.mem_append_left _ hf),
    hnodup.2.2 f.1 (List.mem_map_of_mem hf) key (List.mem_cons_self ..)⟩

omit [DecidableEq α] in
theorem fieldsText_eq_nil_or_sep (fields : List (List α × List α)) :
    fieldsText sep eq fields = [] ∨ ∃ s, fieldsText sep eq fields = sep :: s := by
  cases fields with
  | nil => exact .inl rfl
  | cons f fields => exact .inr ⟨_, rfl⟩

omit [DecidableEq α] in
theorem notMem_fieldsText {c : α} (hsep : c ≠ sep) (heq : c ≠ eq) {fields : List (List α × List α)}
    (h : ∀ f ∈ fields, c ∉ f.1 ∧ c ∉ f.2) : c ∉ fieldsText sep eq fields := by
  induction fields with
  | nil => exact List.not_mem_nil
  | cons f fields ih =>
      obtain ⟨⟨hkey, hvalue⟩, hrest⟩ := List.forall_mem_cons.1 h
      simp only [fieldsText, List.mem_cons, List.mem_append, not_or]
      exact ⟨hsep, ⟨hkey, heq, hvalue⟩, ih hrest⟩

omit [DecidableEq α] in
/-- A key is recognised by its equals sign. -/
theorem key_eq_of_isPrefix {key key' s : List α} (h : eq ∉ key) (h' : eq ∉ key')
    (hp : key ++ [eq] <+: key' ++ eq :: s) : key = key' := by
  induction key generalizing key' with
  | nil =>
      cases key' with
      | nil => rfl
      | cons c key' =>
          rw [List.nil_append, List.cons_append, List.cons_prefix_cons] at hp
          exact absurd (by simp [hp.1]) h'
  | cons c key ih =>
      cases key' with
      | nil =>
          rw [List.cons_append, List.nil_append, List.cons_prefix_cons] at hp
          exact absurd (by simp [hp.1]) h
      | cons d key' =>
          rw [List.cons_append, List.cons_append, List.cons_prefix_cons] at hp
          rw [List.mem_cons, not_or] at h h'
          rw [hp.1, ih h.2 h'.2 hp.2]

variable (hne : sep ≠ eq)

include hne

omit [DecidableEq α] in
theorem sep_notMem_needle {key : List α} (h : sep ∉ key) : sep ∉ key ++ [eq] := by
  rw [List.mem_append, not_or]
  exact ⟨h, by simpa using hne⟩

/-- A field with another key is passed over, up to its value. -/
theorem after?_skip_key {key key' : List α} (h : eq ∉ key) (hsep : sep ∉ key') (h' : eq ∉ key')
    (hdiff : key' ≠ key) (s : List α) :
    after? (needle sep eq key) (sep :: (key' ++ eq :: s)) = after? (needle sep eq key) s := by
  rw [after?, if_neg]
  · rw [← List.singleton_append, ← List.append_assoc]
    exact after?_append_of_notMem (sep_notMem_needle hne hsep) _ s
  · rw [needle, List.cons_prefix_cons]
    exact fun hp => hdiff (key_eq_of_isPrefix h h' hp.2).symm

/-- **A field is found** behind fields with other keys. -/
theorem after?_fieldsText {before later : List (List α × List α)} {key value : List α}
    (hbefore : ∀ f ∈ before, Plain sep eq f ∧ f.1 ≠ key) (hkeyEq : eq ∉ key) :
    after? (needle sep eq key) (fieldsText sep eq (before ++ (key, value) :: later)) =
      some (value ++ fieldsText sep eq later) := by
  induction before with
  | nil =>
      have hhit := after?_append_self (needle sep eq key) (value ++ fieldsText sep eq later)
      simpa [needle, fieldsText] using hhit
  | cons f before ih =>
      obtain ⟨hplain, hdiff⟩ := hbefore f (List.mem_cons_self ..)
      have hrest := ih (fun f hf => hbefore f (List.mem_cons_of_mem _ hf))
      rw [List.cons_append, fieldsText, List.append_assoc, List.cons_append,
        after?_skip_key hne hkeyEq hplain.key hplain.keyEq hdiff, needle,
        after?_append_of_notMem hplain.value]
      exact hrest

/-- A head that does not spell a field's ` key=` does not hide it. -/
theorem after?_head_fieldsText {head : List α} {before later : List (List α × List α)}
    {key value : List α} (hbefore : ∀ f ∈ before, Plain sep eq f ∧ f.1 ≠ key) (hkey : sep ∉ key)
    (hkeyEq : eq ∉ key) :
    after? (needle sep eq key) (head ++ fieldsText sep eq (before ++ (key, value) :: later)) =
      match after? (needle sep eq key) head with
      | some t => some (t ++ fieldsText sep eq (before ++ (key, value) :: later))
      | none => some (value ++ fieldsText sep eq later) := by
  obtain hnil | ⟨s, hs⟩ := @fieldsText_eq_nil_or_sep α sep eq (before ++ (key, value) :: later)
  · exact absurd hnil (by cases before <;> simp [fieldsText])
  · have hfields : after? (needle sep eq key) (fieldsText sep eq (before ++ (key, value) :: later)) =
        some (value ++ fieldsText sep eq later) := after?_fieldsText hne hbefore hkeyEq
    rw [hs] at hfields ⊢
    rw [needle, after?_append_sep (sep_notMem_needle hne hkey)]
    rw [needle] at hfields
    rw [hfields]

/-- **A field is found** behind a head, unless the head spells its key. -/
theorem Distinct.after?_head {fields : List (List α × List α)} (h : Distinct sep eq fields)
    {key value : List α} (hmem : (key, value) ∈ fields) (head : List α) :
    ∃ later, after? (needle sep eq key) (head ++ fieldsText sep eq fields) =
      match after? (needle sep eq key) head with
      | some t => some (t ++ fieldsText sep eq fields)
      | none => some (value ++ fieldsText sep eq later) := by
  have hplain := h.plain _ hmem
  obtain ⟨before, later, rfl, hbefore⟩ := h.split hmem
  exact ⟨later, after?_head_fieldsText hne hbefore hplain.key hplain.keyEq⟩

end Fields
