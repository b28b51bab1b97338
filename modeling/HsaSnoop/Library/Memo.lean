import HsaSnoop.Library.Trace

set_option autoImplicit false

/-! # A memo table that is never invalidated

A function is asked about arguments, while what it depends on changes (the environment of the call). Once
there is an answer in the table, under the key of the argument, it is given again. Then every key keeps
its first answer (`answers_eq`), and the table is invisible exactly if first answers stay right
(`answers_eq_fresh_iff`).

Generic over environments, arguments, keys and answers. -/

namespace Memo

universe u v w x

variable {E : Type u} {K : Type v} {κ : Type w} {V : Type x} [BEq κ] [LawfulBEq κ]

/-- One call: the answer in the table; or else a new one, which is kept. -/
def step (f : E → K → V) (key : K → κ) (table : List (κ × V)) (call : E × K) : List (κ × V) × List V :=
  match table.lookup (key call.2) with
  | some v => (table, [v])
  | none => ((key call.2, f call.1 call.2) :: table, [f call.1 call.2])

/-- The answers to some calls, from an empty table. -/
def answers (f : E → K → V) (key : K → κ) (calls : List (E × K)) : List V :=
  (Trace.run (step f key) [] calls).2

/-- The first call with the key of a call. -/
def firstCall (key : K → κ) (calls : List (E × K)) (call : E × K) : E × K :=
  (calls.find? (fun c => key c.2 == key call.2)).getD call

variable {f : E → K → V} {key : K → κ}

theorem lookup_run (calls : List (E × K)) (k : κ) :
    (Trace.run (step f key) [] calls).1.lookup k =
      (calls.find? (fun c => key c.2 == k)).map (fun c => f c.1 c.2) := by
  induction calls using List.reverseRecOn with
  | nil => rfl
  | append_singleton calls call ih =>
      rw [Trace.run_snoc, List.find?_append]
      by_cases hk : key call.2 = k
      · subst hk
        simp only [step]
        cases hfound : calls.find? (fun c => key c.2 == key call.2) with
        | some c =>
            rw [hfound, Option.map_some] at ih
            simp [ih]
        | none =>
            rw [hfound, Option.map_none] at ih
            simp [ih]
      · have hkeep : (step f key (Trace.run (step f key) [] calls).1 call).1.lookup k =
            (Trace.run (step f key) [] calls).1.lookup k := by
          simp only [step]
          split
          · rfl
          · rw [List.lookup_cons, beq_false_of_ne (Ne.symm hk)]
        rw [hkeep, ih]
        simp [hk]

/-- **Every key keeps its first answer.** -/
theorem answers_eq (calls : List (E × K)) :
    answers f key calls =
      calls.map (fun call => f (firstCall key calls call).1 (firstCall key calls call).2) := by
  induction calls using List.reverseRecOn with
  | nil => rfl
  | append_singleton calls call ih =>
      have hold : ∀ c ∈ calls, firstCall key (calls ++ [call]) c = firstCall key calls c := by
        intro c hc
        have hsome : (calls.find? (fun d => key d.2 == key c.2)).isSome = true :=
          List.find?_isSome.2 ⟨c, hc, beq_self_eq_true _⟩
        obtain ⟨d, hd⟩ := Option.isSome_iff_exists.1 hsome
        rw [firstCall, firstCall, List.find?_append, hd, Option.some_or]
      have hnew : (step f key (Trace.run (step f key) [] calls).1 call).2 =
          [f (firstCall key (calls ++ [call]) call).1 (firstCall key (calls ++ [call]) call).2] := by
        simp only [step, lookup_run, firstCall, List.find?_append]
        cases calls.find? (fun c => key c.2 == key call.2) with
        | some c => rfl
        | none => simp
      rw [answers, Trace.run_snoc, List.map_append, List.map_singleton, ← hnew]
      refine congrArg (· ++ _) (ih.trans (List.map_congr_left (fun c hc => ?_)))
      rw [hold c hc]

/-- **The table is invisible** exactly if the first answer for the key of a call is still right. -/
theorem answers_eq_fresh_iff (calls : List (E × K)) :
    answers f key calls = calls.map (fun call => f call.1 call.2) ↔
      ∀ call ∈ calls, f (firstCall key calls call).1 (firstCall key calls call).2 = f call.1 call.2 := by
  rw [answers_eq, List.map_inj_left]

end Memo
