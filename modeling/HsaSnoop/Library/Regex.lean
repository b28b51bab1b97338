import Mathlib.Data.List.TakeWhile

set_option autoImplicit false

/-! # Backtracking regular expressions

`runs r s` lists what `r` can match at the front of `s`, each with what follows it, in the order in which
a backtracking matcher tries them: the left side of an alternative first, a repetition as long as
possible. What such a matcher finds is the first run that the rest of the pattern accepts. A repetition
before which nothing but its own end can go on is as long as it can be (`flatMap_runs_many`).

Generic over the characters; repetitions are of single characters. -/

universe u

inductive Regex (α : Type u)
  | empty
  | char (p : α → Bool)
  /-- `p*`, greedy. -/
  | many (p : α → Bool)
  | seq (r s : Regex α)
  | alt (r s : Regex α)

namespace Regex

variable {α : Type u}

/-- `p+`, greedy. -/
def many1 (p : α → Bool) : Regex α := .seq (.char p) (.many p)

/-- `r?`, greedy. -/
def opt (r : Regex α) : Regex α := .alt r .empty

/-- A text. -/
def literal [DecidableEq α] (s : List α) : Regex α := s.foldr (fun c r => .seq (.char (· = c)) r) .empty

/-! ## Runs -/

def manyRuns (p : α → Bool) : List α → List (List α × List α)
  | [] => [([], [])]
  | c :: s =>
      if p c then (manyRuns p s).map (fun m => (c :: m.1, m.2)) ++ [([], c :: s)] else [([], c :: s)]

/-- What a pattern matches, in the order it is tried. -/
def runs : Regex α → List α → List (List α × List α)
  | .empty, s => [([], s)]
  | .char _, [] => []
  | .char p, c :: s => if p c then [([c], s)] else []
  | .many p, s => manyRuns p s
  | .seq r r', s => (r.runs s).flatMap (fun m => (r'.runs m.2).map (fun m' => (m.1 ++ m'.1, m'.2)))
  | .alt r r', s => r.runs s ++ r'.runs s

variable {β : Type u} {p : α → Bool}

/-- A continuation that does not start with a character of the repetition sees its longest run only. -/
theorem flatMap_runs_many {f : List α × List α → List β} (hf : ∀ a c s, p c = true → f (a, c :: s) = [])
    (s : List α) : ((many p).runs s).flatMap f = f (s.takeWhile p, s.dropWhile p) := by
  show (manyRuns p s).flatMap f = _
  induction s generalizing f with
  | nil => simp [manyRuns]
  | cons c s ih =>
      rw [manyRuns]
      by_cases hc : p c = true
      · rw [if_pos hc, List.flatMap_append, List.flatMap_map, List.flatMap_singleton, hf [] c s hc,
          List.append_nil, List.takeWhile_cons_of_pos hc, List.dropWhile_cons_of_pos hc]
        exact ih (fun a d t hd => hf (c :: a) d t hd)
      · rw [if_neg hc, List.flatMap_singleton, List.takeWhile_cons_of_neg hc,
          List.dropWhile_cons_of_neg hc]

/-- The longest run is tried first. -/
theorem head?_runs_many (s : List α) :
    ((many p).runs s).head? = some (s.takeWhile p, s.dropWhile p) := by
  show (manyRuns p s).head? = _
  induction s with
  | nil => rfl
  | cons c s ih =>
      rw [manyRuns]
      by_cases hc : p c = true
      · rw [if_pos hc, List.head?_append, List.head?_map, ih, List.takeWhile_cons_of_pos hc,
          List.dropWhile_cons_of_pos hc]
        rfl
      · rw [if_neg hc, List.takeWhile_cons_of_neg hc, List.dropWhile_cons_of_neg hc]
        rfl

theorem head?_runs_many1 (s : List α) :
    ((many1 p).runs s).head? =
      if s.head?.any p then some (s.takeWhile p, s.dropWhile p) else none := by
  cases s with
  | nil => rfl
  | cons c s =>
      by_cases hc : p c = true
      · have hmany := @head?_runs_many α p s
        simp only [many1, runs, hc, if_true, List.flatMap_singleton, List.head?_map, List.head?_cons,
          Option.any_some, List.takeWhile_cons_of_pos hc, List.dropWhile_cons_of_pos hc]
        rw [show (manyRuns p s).head? = some (s.takeWhile p, s.dropWhile p) from hmany]
        rfl
      · simp [many1, runs, hc]

/-- The first run of a pattern is taken if what follows it accepts anything. -/
theorem head?_flatMap_of_some {γ : Type u} {l : List β} {f : β → List γ} {g : β → γ}
    (h : ∀ b, (f b).head? = some (g b)) : (l.flatMap f).head? = l.head?.map g := by
  cases l with
  | nil => rfl
  | cons b l => rw [List.flatMap_cons, List.head?_append, h b, List.head?_cons, Option.some_or,
      Option.map_some]

theorem runs_literal [DecidableEq α] (t s : List α) :
    (literal t).runs s = if t <+: s then [(t, s.drop t.length)] else [] := by
  induction t generalizing s with
  | nil => rfl
  | cons c t ih =>
      show (seq (.char (· = c)) (literal t)).runs s = _
      cases s with
      | nil => rfl
      | cons d s =>
          by_cases hd : d = c
          · subst hd
            simp only [runs, decide_true, if_true, List.flatMap_singleton, ih]
            by_cases ht : t <+: s
            · simp [ht]
            · simp [ht]
          · have hnot : ¬ c :: t <+: d :: s := by
              rw [List.cons_prefix_cons]
              exact fun h => hd h.1.symm
            simp [runs, hd, hnot]

/-- The same for at least one. -/
theorem flatMap_runs_many1 {f : List α × List α → List β} (hf : ∀ a c s, p c = true → f (a, c :: s) = [])
    (s : List α) :
    ((many1 p).runs s).flatMap f =
      if s.head?.any p then f (s.takeWhile p, s.dropWhile p) else [] := by
  cases s with
  | nil => rfl
  | cons c s =>
      by_cases hc : p c = true
      · have hmany := @flatMap_runs_many α β p (fun m => f (c :: m.1, m.2))
          (fun a d t hd => hf (c :: a) d t hd) s
        simp only [many1, runs, hc, if_true, List.flatMap_singleton, List.head?_cons, Option.any_some,
          List.takeWhile_cons_of_pos hc, List.dropWhile_cons_of_pos hc]
        rw [← hmany]
        simp [List.flatMap_map, runs]
      · simp [many1, runs, hc]

end Regex
