import HsaSnoop.Library.Firsts
import HsaSnoop.Library.Trace
import HsaSnoop.Model.Ksym

set_option autoImplicit false

/-! # What a memoising resolver answers

Both tables of a `KernelSymbolResolver` are functions of two things: the symbols its scans have visited
so far, in order, and the fallback answers it has remembered (`Reflects`). One lemma says what a call of
`resolve` does to them (`Reflects.resolve`).

If the process does not change, memoisation is invisible (`resolveAll_eq`). If code objects are added,
a remembered name outlives the collision that would have made it ambiguous, and `neverGuessed_iff` says
exactly when this shows. -/

namespace HsaSnoop

namespace KernelSymbolResolver

/-! ## The tables as functions of the scanned symbols -/

/-- The name of the last symbol at the address. -/
def lastName (syms : List (Nat × Bytes)) (k : Nat) : Option Bytes :=
  (syms.filter (fun s => s.1 = k)).getLast?.map Prod.snd

/-- The names of the symbols with the given low bits. -/
def namesAt (syms : List (Nat × Bytes)) (low : Nat) : List Bytes :=
  (syms.filter (fun s => s.1 &&& kOffsetMask = low)).map Prod.snd

/-- The name that all of them are; the empty name if they differ. -/
def common : List Bytes → Option Bytes
  | [] => none
  | n :: ns => if ∀ n' ∈ ns, n' = n then some n else some []

/-- The answer for an address without a symbol. -/
def fallback (syms : List (Nat × Bytes)) (k : Nat) : Bytes :=
  match common (namesAt syms (k &&& kOffsetMask)) with
  | some name => if name ≠ [] then name else hexLabel k
  | none => hexLabel k

theorem lastName_append (syms syms' : List (Nat × Bytes)) (k : Nat) :
    lastName (syms ++ syms') k = (lastName syms' k).or (lastName syms k) := by
  rw [lastName, List.filter_append, List.getLast?_append, Option.map_or]
  rfl

theorem lastName_singleton (sym : Nat × Bytes) (k : Nat) :
    lastName [sym] k = if k = sym.1 then some sym.2 else none := by
  by_cases h : k = sym.1
  · simp [lastName, h]
  · simp [lastName, h, Ne.symm h]

theorem lastName_eq_none_iff {syms : List (Nat × Bytes)} {k : Nat} :
    lastName syms k = none ↔ ∀ s ∈ syms, s.1 ≠ k := by
  simp [lastName]

theorem namesAt_append (syms syms' : List (Nat × Bytes)) (low : Nat) :
    namesAt (syms ++ syms') low = namesAt syms low ++ namesAt syms' low := by
  simp [namesAt]

theorem mem_namesAt {syms : List (Nat × Bytes)} {low : Nat} {n : Bytes} :
    n ∈ namesAt syms low ↔ ∃ s ∈ syms, s.1 &&& kOffsetMask = low ∧ s.2 = n := by
  simp [namesAt, and_assoc]

/-- One more name. -/
theorem common_snoc (ns : List Bytes) (n : Bytes) :
    common (ns ++ [n]) =
      match common ns with
      | none => some n
      | some c => if c ≠ n ∧ c ≠ [] then some [] else some c := by
  cases ns with
  | nil => simp [common]
  | cons a as =>
      simp only [List.cons_append, common, List.forall_mem_append, List.forall_mem_singleton]
      by_cases hall : ∀ n' ∈ as, n' = a
      · rw [if_pos hall]
        by_cases hn : n = a
        · rw [if_pos ⟨hall, hn⟩]
          simp [hn]
        · rw [if_neg (fun h => hn h.2)]
          by_cases ha : a = []
          · simp [ha]
          · simp [Ne.symm hn, ha]
      · rw [if_neg hall, if_neg (fun h => hall h.1)]
        simp

/-- Only which names there are matters, not their order. -/
theorem common_congr {ns ns' : List Bytes} (h : ∀ n, n ∈ ns ↔ n ∈ ns') : common ns = common ns' := by
  have hall : ∀ {a b : Bytes} {as bs : List Bytes}, (∀ n, n ∈ a :: as ↔ n ∈ b :: bs) →
      (∀ n' ∈ as, n' = a) → b = a ∧ ∀ n' ∈ bs, n' = a := by
    intro a b as bs hmem has
    have hone : ∀ n ∈ b :: bs, n = a := by
      intro n hn
      rcases List.mem_cons.1 ((hmem n).2 hn) with rfl | hn
      · rfl
      · exact has n hn
    exact ⟨hone b (List.mem_cons_self ..), fun n' hn' => hone n' (List.mem_cons_of_mem b hn')⟩
  cases ns with
  | nil =>
      cases ns' with
      | nil => rfl
      | cons b bs => exact absurd ((h b).2 (List.mem_cons_self ..)) List.not_mem_nil
  | cons a as =>
      cases ns' with
      | nil => exact absurd ((h a).1 (List.mem_cons_self ..)) List.not_mem_nil
      | cons b bs =>
          simp only [common]
          by_cases has : ∀ n' ∈ as, n' = a
          · obtain ⟨rfl, hbs⟩ := hall h has
            rw [if_pos has, if_pos hbs]
          · have hbs : ¬ ∀ n' ∈ bs, n' = b := by
              intro hbs
              obtain ⟨rfl, has'⟩ := hall (fun n => (h n).symm) hbs
              exact has has'
            rw [if_neg has, if_neg hbs]

theorem fallback_congr {syms syms' : List (Nat × Bytes)} (h : ∀ s, s ∈ syms ↔ s ∈ syms') (k : Nat) :
    fallback syms k = fallback syms' k := by
  have hnames : ∀ n, n ∈ namesAt syms (k &&& kOffsetMask) ↔ n ∈ namesAt syms' (k &&& kOffsetMask) := by
    intro n
    simp only [mem_namesAt, h]
  rw [fallback, fallback, common_congr hnames]

/-! ## One call -/

/-- The tables hold what the scans visited, and remembered answers where they visited nothing. -/
structure Reflects (r : KernelSymbolResolver) (scanned : List (Nat × Bytes))
    (memo : Nat → Option Bytes) : Prop where
  cache : ∀ k, r.cache.find? k = (lastName scanned k).or (memo k)
  offset : ∀ low, r.offsetCache.find? low = common (namesAt scanned low)

theorem Reflects.empty : Reflects {} [] fun _ => none := ⟨fun _ => rfl, fun _ => rfl⟩

variable {r : KernelSymbolResolver} {scanned : List (Nat × Bytes)} {memo : Nat → Option Bytes}

theorem offsetCache_scanSymbol_of_none {sym : Nat × Bytes}
    (hnone : r.offsetCache.find? (sym.1 &&& kOffsetMask) = none) :
    (r.scanSymbol sym).offsetCache = r.offsetCache.emplace (sym.1 &&& kOffsetMask) sym.2 := by
  simp only [KernelSymbolResolver.scanSymbol, hnone]

theorem offsetCache_scanSymbol_of_some {sym : Nat × Bytes} {name : Bytes}
    (hsome : r.offsetCache.find? (sym.1 &&& kOffsetMask) = some name) :
    (r.scanSymbol sym).offsetCache =
      if name ≠ sym.2 ∧ name ≠ [] then r.offsetCache.insert (sym.1 &&& kOffsetMask) []
      else r.offsetCache := by
  simp only [KernelSymbolResolver.scanSymbol, hsome]

/-- The entry of the low bits becomes what `common` makes of one more name. -/
theorem find?_offsetCache_scanSymbol (sym : Nat × Bytes) :
    (r.scanSymbol sym).offsetCache.find? (sym.1 &&& kOffsetMask) =
      match r.offsetCache.find? (sym.1 &&& kOffsetMask) with
      | none => some sym.2
      | some c => if c ≠ sym.2 ∧ c ≠ [] then some [] else some c := by
  cases hfind : r.offsetCache.find? (sym.1 &&& kOffsetMask) with
  | none => rw [offsetCache_scanSymbol_of_none hfind, OrdMap.find?_emplace_of_none hfind, if_pos rfl]
  | some name =>
      rw [offsetCache_scanSymbol_of_some hfind]
      change _ = if name ≠ sym.2 ∧ name ≠ [] then some [] else some name
      by_cases hdiff : name ≠ sym.2 ∧ name ≠ []
      · rw [if_pos hdiff, if_pos hdiff, OrdMap.find?_insert, if_pos rfl]
      · rw [if_neg hdiff, if_neg hdiff, hfind]

/-- Other entries stay. -/
theorem find?_offsetCache_scanSymbol_of_ne {sym : Nat × Bytes} {low : Nat}
    (hne : low ≠ sym.1 &&& kOffsetMask) :
    (r.scanSymbol sym).offsetCache.find? low = r.offsetCache.find? low := by
  cases hfind : r.offsetCache.find? (sym.1 &&& kOffsetMask) with
  | none => rw [offsetCache_scanSymbol_of_none hfind, OrdMap.find?_emplace_of_none hfind, if_neg hne]
  | some name =>
      rw [offsetCache_scanSymbol_of_some hfind]
      split
      · rw [OrdMap.find?_insert, if_neg hne]
      · rfl

theorem Reflects.scanSymbol (h : Reflects r scanned memo) (sym : Nat × Bytes) :
    Reflects (r.scanSymbol sym) (scanned ++ [sym]) memo := by
  constructor
  · intro k
    rw [lastName_append, lastName_singleton]
    refine (OrdMap.find?_insert ..).trans ?_
    split
    · rfl
    · rw [h.cache, Option.none_or]
  · intro low
    rw [namesAt_append]
    by_cases heq : sym.1 &&& kOffsetMask = low
    · have hone : namesAt [sym] low = [sym.2] := by simp [namesAt, heq]
      subst heq
      rw [hone, common_snoc, ← h.offset, find?_offsetCache_scanSymbol]
    · have hnil : namesAt [sym] low = [] := by simp [namesAt, heq]
      rw [hnil, List.append_nil, ← h.offset low]
      exact find?_offsetCache_scanSymbol_of_ne (Ne.symm heq)

theorem Reflects.scanCodeObjects (h : Reflects r scanned memo) (m : ProcMem) :
    Reflects (r.scanCodeObjects m) (scanned ++ m.codeObjects) memo := by
  have hfold : ∀ (syms : List (Nat × Bytes)) {r : KernelSymbolResolver} {scanned},
      Reflects r scanned memo →
        Reflects (syms.foldl KernelSymbolResolver.scanSymbol r) (scanned ++ syms) memo := by
    intro syms
    induction syms with
    | nil =>
        intro r scanned h
        rwa [List.append_nil]
    | cons sym syms ih =>
        intro r scanned h
        have hnext := ih (h.scanSymbol sym)
        rwa [List.append_assoc, List.singleton_append] at hnext
  exact hfold m.codeObjects h

/-- What a call can do: answer from the table; or scan, and find the address; or scan in vain, and
    remember the fallback. -/
theorem Reflects.resolve (h : Reflects r scanned memo) (m : ProcMem) (k : Nat) :
    (∃ name, (lastName scanned k).or (memo k) = some name ∧ r.resolve m k = (name, r)) ∨
      (lastName scanned k).or (memo k) = none ∧
        ((∃ name, lastName (scanned ++ m.codeObjects) k = some name ∧ (r.resolve m k).1 = name ∧
            Reflects (r.resolve m k).2 (scanned ++ m.codeObjects) memo) ∨
          lastName (scanned ++ m.codeObjects) k = none ∧
            (r.resolve m k).1 = fallback (scanned ++ m.codeObjects) k ∧
            Reflects (r.resolve m k).2 (scanned ++ m.codeObjects)
              (Function.update memo k (some (fallback (scanned ++ m.codeObjects) k)))) := by
  cases hhit : r.cache.find? k with
  | some name =>
      refine .inl ⟨name, by rw [← h.cache, hhit], ?_⟩
      simp only [KernelSymbolResolver.resolve, hhit]
  | none =>
      have hmiss : (lastName scanned k).or (memo k) = none := by rw [← h.cache, hhit]
      have hmemo : memo k = none := (Option.or_eq_none_iff.1 hmiss).2
      have hscan := h.scanCodeObjects m
      refine .inr ⟨hmiss, ?_⟩
      cases hfound : lastName (scanned ++ m.codeObjects) k with
      | some name =>
          have hcache : (r.scanCodeObjects m).cache.find? k = some name := by
            rw [hscan.cache, hfound, Option.some_or]
          refine .inl ⟨name, rfl, ?_⟩
          simp only [KernelSymbolResolver.resolve, hhit, hcache]
          exact ⟨trivial, hscan⟩
      | none =>
          have hcache : (r.scanCodeObjects m).cache.find? k = none := by
            rw [hscan.cache, hfound, hmemo, Option.none_or]
          refine .inr ⟨rfl, ?_⟩
          simp only [KernelSymbolResolver.resolve, hhit, hcache, hscan.offset]
          refine ⟨rfl, ?_, hscan.offset⟩
          intro j
          refine (OrdMap.find?_insert ..).trans ?_
          by_cases hj : j = k
          · subst hj
            rw [if_pos rfl, Function.update_self, hfound, Option.none_or]
            rfl
          · rw [if_neg hj, Function.update_of_ne hj, hscan.cache]

/-! ## A process that does not change -/

/-- The answers to a sequence of calls. -/
def resolveAll (m : ProcMem) (ks : List Nat) : List Bytes :=
  (Trace.run (fun (r : KernelSymbolResolver) k => ((r.resolve m k).2, [(r.resolve m k).1])) {} ks).2

/-- Resolution without tables: the last symbol at the address; or else the one name that all symbols
    with its low bits have; or else the label. -/
def statelessResolve (syms : List (Nat × Bytes)) (k : Nat) : Bytes :=
  match lastName syms k with
  | some name => name
  | none =>
      match namesAt syms (k &&& kOffsetMask) with
      | [] => hexLabel k
      | n :: ns => if ∀ n' ∈ ns, n' = n then n else hexLabel k

theorem statelessResolve_of_lastName {syms : List (Nat × Bytes)} {k : Nat} {name : Bytes}
    (h : lastName syms k = some name) : statelessResolve syms k = name := by
  rw [statelessResolve, h]

theorem statelessResolve_of_unknown {syms : List (Nat × Bytes)} {k : Nat}
    (hnames : ∀ s ∈ syms, s.2 ≠ []) (h : lastName syms k = none) :
    statelessResolve syms k = fallback syms k := by
  rw [statelessResolve, h, fallback]
  cases hat : namesAt syms (k &&& kOffsetMask) with
  | nil => rfl
  | cons n ns =>
      have hn : n ≠ [] := by
        obtain ⟨s, hs, -, rfl⟩ := mem_namesAt.1 (hat ▸ List.mem_cons_self ..)
        exact hnames s hs
      by_cases hall : ∀ n' ∈ ns, n' = n
      · simp only [common, if_pos hall]
        exact (if_pos hn).symm
      · simp only [common, if_neg hall]
        rfl

/-- The tables of a resolver that has only ever seen `syms`. -/
def Agrees (syms : List (Nat × Bytes)) (r : KernelSymbolResolver) : Prop :=
  ∃ scanned memo, Reflects r scanned memo ∧ (∀ s ∈ scanned, s ∈ syms) ∧
    (∀ k name, lastName scanned k = some name → lastName syms k = some name) ∧
    ∀ k name, memo k = some name → lastName syms k = none ∧ name = fallback syms k

theorem Agrees.empty (syms : List (Nat × Bytes)) : Agrees syms {} :=
  ⟨[], fun _ => none, .empty, by simp, by simp [lastName], by simp⟩

theorem Agrees.resolve {m : ProcMem} (h : Agrees m.codeObjects r)
    (hnames : ∀ s ∈ m.codeObjects, s.2 ≠ []) (k : Nat) :
    (r.resolve m k).1 = statelessResolve m.codeObjects k ∧ Agrees m.codeObjects (r.resolve m k).2 := by
  obtain ⟨scanned, memo, hr, hsub, hlast, hmemo⟩ := h
  have hlast' : ∀ k, lastName (scanned ++ m.codeObjects) k = lastName m.codeObjects k := by
    intro k
    rw [lastName_append]
    cases hk : lastName m.codeObjects k with
    | some name => rw [Option.some_or]
    | none =>
        rw [Option.none_or, lastName_eq_none_iff]
        intro s hs
        exact lastName_eq_none_iff.1 hk s (hsub s hs)
  have hmem : ∀ s, s ∈ scanned ++ m.codeObjects ↔ s ∈ m.codeObjects := by
    intro s
    rw [List.mem_append]
    exact ⟨fun hs => hs.elim (hsub s) id, .inr⟩
  have hnext : ∀ {r' memo'}, Reflects r' (scanned ++ m.codeObjects) memo' →
      (∀ k name, memo' k = some name →
        lastName m.codeObjects k = none ∧ name = fallback m.codeObjects k) →
      Agrees m.codeObjects r' := by
    intro r' memo' hr' hmemo'
    refine ⟨_, memo', hr', fun s hs => (hmem s).1 hs, ?_, hmemo'⟩
    intro k name hk
    rwa [← hlast']
  rcases hr.resolve m k with ⟨name, hhit, heq⟩ | ⟨hmiss, ⟨name, hfound, hname, hr'⟩ | ⟨hnone, hname, hr'⟩⟩
  · rw [heq]
    refine ⟨?_, scanned, memo, hr, hsub, hlast, hmemo⟩
    rcases Option.or_eq_some_iff.1 hhit with hk | ⟨-, hk⟩
    · exact (statelessResolve_of_lastName (hlast k name hk)).symm
    · obtain ⟨hunknown, hfallback⟩ := hmemo k name hk
      exact hfallback.trans (statelessResolve_of_unknown hnames hunknown).symm
  · rw [hlast'] at hfound
    exact ⟨hname.trans (statelessResolve_of_lastName hfound).symm, hnext hr' hmemo⟩
  · rw [hlast'] at hnone
    rw [fallback_congr hmem] at hname hr'
    refine ⟨hname.trans (statelessResolve_of_unknown hnames hnone).symm, hnext hr' ?_⟩
    intro j name hj
    by_cases hjk : j = k
    · subst hjk
      rw [Function.update_self, Option.some.injEq] at hj
      exact ⟨hnone, hj.symm⟩
    · rw [Function.update_of_ne hjk] at hj
      exact hmemo j name hj

/-- **Memoisation is invisible**: as long as the process does not change, every call is answered as
    without tables, whatever was asked before. -/
theorem resolveAll_eq (m : ProcMem) (hnames : ∀ s ∈ m.codeObjects, s.2 ≠ []) (ks : List Nat) :
    resolveAll m ks = ks.map (statelessResolve m.codeObjects) := by
  have hrun : ∀ (ks : List Nat) (r : KernelSymbolResolver), Agrees m.codeObjects r →
      (Trace.run (fun (r : KernelSymbolResolver) k => ((r.resolve m k).2, [(r.resolve m k).1]))
        r ks).2 = ks.map (statelessResolve m.codeObjects) := by
    intro ks
    induction ks with
    | nil =>
        intro r _
        rfl
    | cons k ks ih =>
        intro r hr
        obtain ⟨hanswer, hnext⟩ := hr.resolve hnames k
        rw [Trace.run, List.map_cons, ← hanswer, ← ih _ hnext]
        rfl
  exact hrun ks {} (.empty _)

/-- Two kernels with the same low bits, and an address without a symbol. -/
theorem resolveAll_eq_two :
    resolveAll { ProcMem.ofBytes fun _ => 0 with
        codeObjects := [(0x100040, str "add"), (0x300040, str "scale")] } [0x500040, 0x300040, 0x500040] =
      [hexLabel 0x500040, str "scale", hexLabel 0x500040] :=
  resolveAll_eq _ (by decide) _

/-! ## A process that loads more code objects

A call sees the process as it is then. `scannedBy` are the symbols visited so far: those of the code
objects loaded at the calls that missed. -/

/-- What a call does: visit symbols, if it misses. -/
def resolveStep (r : KernelSymbolResolver) (call : ProcMem × Nat) :
    KernelSymbolResolver × List (Nat × Bytes) :=
  ((r.resolve call.1 call.2).2,
    if (r.cache.find? call.2).isSome then [] else call.1.codeObjects)

/-- The resolver after some calls. -/
def after (calls : List (ProcMem × Nat)) : KernelSymbolResolver :=
  (Trace.run resolveStep {} calls).1

/-- The symbols visited during some calls. -/
def scannedBy (calls : List (ProcMem × Nat)) : List (Nat × Bytes) :=
  (Trace.run resolveStep {} calls).2

/-- The address of no symbol. -/
def Unknown (syms : List (Nat × Bytes)) (k : Nat) : Prop := ∀ s ∈ syms, s.1 ≠ k

instance (syms : List (Nat × Bytes)) (k : Nat) : Decidable (Unknown syms k) :=
  inferInstanceAs (Decidable (∀ s ∈ syms, s.1 ≠ k))

/-- Differently named symbols have its low bits. -/
def Ambiguous (syms : List (Nat × Bytes)) (k : Nat) : Prop :=
  ∃ n ∈ namesAt syms (k &&& kOffsetMask), ∃ n' ∈ namesAt syms (k &&& kOffsetMask), n ≠ n'

/-- Symbols have its low bits, all of them with this name. -/
def OneName (syms : List (Nat × Bytes)) (k : Nat) (name : Bytes) : Prop :=
  name ∈ namesAt syms (k &&& kOffsetMask) ∧ ∀ n ∈ namesAt syms (k &&& kOffsetMask), n = name

/-- Code objects are only ever added. -/
def Growing (calls : List (ProcMem × Nat)) : Prop :=
  calls.Pairwise (fun c c' => c.1.codeObjects.Sublist c'.1.codeObjects)

/-- **Ambiguous low bits are never guessed**: an address without a symbol, with low bits that differently
    named symbols have, is answered by its label. -/
def NeverGuessed (calls : List (ProcMem × Nat)) : Prop :=
  ∀ pre m k post, calls = pre ++ (m, k) :: post →
    Unknown (scannedBy (pre ++ [(m, k)])) k → Ambiguous (scannedBy (pre ++ [(m, k)])) k →
      ((after pre).resolve m k).1 = hexLabel k

/-- The first call for the address was at a time when its low bits had one name. -/
def FirstNamed (calls : List (ProcMem × Nat)) (k : Nat) : Prop :=
  ∃ pre m post, calls = pre ++ (m, k) :: post ∧ k ∉ pre.map Prod.snd ∧
    ∃ name, OneName (scannedBy (pre ++ [(m, k)])) k name ∧ name ≠ [] ∧ name ≠ hexLabel k

theorem common_eq_some_iff {ns : List Bytes} {name : Bytes} (h : name ≠ []) :
    common ns = some name ↔ name ∈ ns ∧ ∀ n ∈ ns, n = name := by
  cases ns with
  | nil => simp [common]
  | cons a as =>
      simp only [common, List.forall_mem_cons]
      split
      · next hall =>
          rw [Option.some.injEq]
          constructor
          · rintro rfl
            exact ⟨List.mem_cons_self .., rfl, hall⟩
          · exact fun hname => hname.2.1
      · next hall =>
          rw [Option.some.injEq]
          constructor
          · exact fun hnil => absurd hnil.symm h
          · rintro ⟨-, rfl, hname⟩
            exact absurd hname hall

theorem fallback_eq_hexLabel_iff {syms : List (Nat × Bytes)} {k : Nat} :
    fallback syms k = hexLabel k ↔ ¬ ∃ name, OneName syms k name ∧ name ≠ [] ∧ name ≠ hexLabel k := by
  rw [fallback]
  constructor
  · rintro hlabel ⟨name, hone, hnonempty, hother⟩
    rw [(common_eq_some_iff hnonempty).2 hone] at hlabel
    exact hother ((if_pos hnonempty).symm.trans hlabel)
  · intro hnone
    cases hcommon : common (namesAt syms (k &&& kOffsetMask)) with
    | none => rfl
    | some name =>
        by_cases hnil : name = []
        · subst hnil
          rfl
        · have hone := (common_eq_some_iff hnil).1 hcommon
          refine (if_pos hnil).trans ?_
          by_contra hother
          exact hnone ⟨name, hone, hnil, hother⟩

theorem fallback_of_ambiguous {syms : List (Nat × Bytes)} {k : Nat} (h : Ambiguous syms k) :
    fallback syms k = hexLabel k := by
  rw [fallback_eq_hexLabel_iff]
  rintro ⟨name, hone, -⟩
  obtain ⟨n, hn, n', hn', hne⟩ := h
  exact hne ((hone.2 n hn).trans (hone.2 n' hn').symm)

theorem after_snoc (calls : List (ProcMem × Nat)) (call : ProcMem × Nat) :
    after (calls ++ [call]) = ((after calls).resolve call.1 call.2).2 := by
  rw [after, Trace.run_snoc]
  rfl

theorem scannedBy_snoc (calls : List (ProcMem × Nat)) (call : ProcMem × Nat) :
    scannedBy (calls ++ [call]) =
      scannedBy calls ++ if ((after calls).cache.find? call.2).isSome then [] else call.1.codeObjects := by
  rw [scannedBy, Trace.run_snoc]
  rfl

/-- After any calls: an address is remembered only if it was asked for, and then with the fallback of the
    symbols visited by its first call. -/
def Remembers (calls : List (ProcMem × Nat)) (memo : Nat → Option Bytes) : Prop :=
  (∀ k ∉ calls.map Prod.snd, memo k = none) ∧
    ∀ pre m k post, calls = pre ++ (m, k) :: post → k ∉ pre.map Prod.snd →
      Unknown (scannedBy (pre ++ [(m, k)])) k → memo k = some (fallback (scannedBy (pre ++ [(m, k)])) k)

theorem Remembers.snoc {calls : List (ProcMem × Nat)} {memo memo' : Nat → Option Bytes} {m : ProcMem}
    {k : Nat} (h : Remembers calls memo) (hkeep : ∀ j name, memo j = some name → memo' j = some name)
    (hother : ∀ j ≠ k, memo' j = memo j)
    (hlast : k ∉ calls.map Prod.snd → Unknown (scannedBy (calls ++ [(m, k)])) k →
      memo' k = some (fallback (scannedBy (calls ++ [(m, k)])) k)) :
    Remembers (calls ++ [(m, k)]) memo' := by
  constructor
  · intro j hj
    rw [List.map_append, List.mem_append, not_or] at hj
    have hjk : j ≠ k := by simpa using hj.2
    rw [hother j hjk, h.1 j hj.1]
  · intro pre m' j post hsplit hfirst hunknown
    rcases List.eq_nil_or_concat post with rfl | ⟨post', c, rfl⟩
    · obtain ⟨rfl, heq⟩ := List.append_inj' hsplit rfl
      obtain ⟨rfl, rfl⟩ := Prod.mk.inj (List.singleton_inj.1 heq)
      exact hlast hfirst hunknown
    · rw [List.concat_eq_append, ← List.cons_append, ← List.append_assoc] at hsplit
      obtain ⟨rfl, -⟩ := List.append_inj' hsplit rfl
      exact hkeep j _ (h.2 pre m' j post' rfl hfirst hunknown)

theorem reflects_after (calls : List (ProcMem × Nat)) :
    ∃ memo, Reflects (after calls) (scannedBy calls) memo ∧ Remembers calls memo := by
  induction calls using List.reverseRecOn with
  | nil => exact ⟨fun _ => none, .empty, fun _ _ => rfl, by simp⟩
  | append_singleton calls call ih =>
      obtain ⟨m, k⟩ := call
      obtain ⟨memo, hr, hmemo⟩ := ih
      rw [after_snoc, scannedBy_snoc, hr.cache]
      rcases hr.resolve m k with ⟨name, hhit, heq⟩ | ⟨hmiss, hcall⟩
      · -- Nothing is visited: an address that is asked for the first time would be a symbol's.
        rw [heq, hhit, Option.isSome_some, if_pos rfl, List.append_nil]
        refine ⟨memo, hr, hmemo.snoc (fun _ _ hj => hj) (fun _ _ => rfl) ?_⟩
        intro hfirst hunknown
        rw [scannedBy_snoc, hr.cache, hhit, Option.isSome_some, if_pos rfl, List.append_nil] at hunknown
        rw [lastName_eq_none_iff.2 hunknown, hmemo.1 k hfirst] at hhit
        cases hhit
      · have hscan : scannedBy (calls ++ [(m, k)]) = scannedBy calls ++ m.codeObjects := by
          rw [scannedBy_snoc, hr.cache, hmiss]
          rfl
        rw [hmiss, Option.isSome_none, if_neg Bool.false_ne_true]
        rcases hcall with ⟨name, hfound, -, hr'⟩ | ⟨-, -, hr'⟩
        · refine ⟨memo, hr', hmemo.snoc (fun _ _ hj => hj) (fun _ _ => rfl) ?_⟩
          intro _ hunknown
          rw [hscan] at hunknown
          rw [lastName_eq_none_iff.2 hunknown] at hfound
          cases hfound
        · refine ⟨_, hr', hmemo.snoc ?_ (fun j hj => Function.update_of_ne hj _ _) ?_⟩
          · intro j name hj
            by_cases hjk : j = k
            · subst hjk
              rw [(Option.or_eq_none_iff.1 hmiss).2] at hj
              cases hj
            · rwa [Function.update_of_ne hjk]
          · intro _ _
            rw [hscan, Function.update_self]

/-- An address without a symbol is answered as it was by its first call. -/
theorem resolve_of_unknown {pre : List (ProcMem × Nat)} {m : ProcMem} {k : Nat}
    (h : Unknown (scannedBy (pre ++ [(m, k)])) k) :
    (k ∉ pre.map Prod.snd →
        ((after pre).resolve m k).1 = fallback (scannedBy (pre ++ [(m, k)])) k) ∧
      ∀ pre' m' post, pre = pre' ++ (m', k) :: post → k ∉ pre'.map Prod.snd →
        ((after pre).resolve m k).1 = fallback (scannedBy (pre' ++ [(m', k)])) k := by
  obtain ⟨memo, hr, hmemo⟩ := reflects_after pre
  have hsub : ∀ s ∈ scannedBy pre, s ∈ scannedBy (pre ++ [(m, k)]) := by
    intro s hs
    rw [scannedBy_snoc]
    exact List.mem_append_left _ hs
  have hnone : lastName (scannedBy pre) k = none :=
    lastName_eq_none_iff.2 (fun s hs => h s (hsub s hs))
  constructor
  · intro hfirst
    have hmiss : (lastName (scannedBy pre) k).or (memo k) = none := by
      rw [hnone, hmemo.1 k hfirst, Option.none_or]
    have hscan : scannedBy (pre ++ [(m, k)]) = scannedBy pre ++ m.codeObjects := by
      rw [scannedBy_snoc, hr.cache, hmiss]
      rfl
    rw [hscan] at h ⊢
    rcases hr.resolve m k with ⟨name, hhit, -⟩ | ⟨-, ⟨name, hfound, -⟩ | ⟨-, hname, -⟩⟩
    · rw [hmiss] at hhit
      cases hhit
    · rw [lastName_eq_none_iff.2 h] at hfound
      cases hfound
    · exact hname
  · rintro pre' m' post rfl hfirst
    have hsub' : ∀ s ∈ scannedBy (pre' ++ [(m', k)]), s ∈ scannedBy (pre' ++ (m', k) :: post) := by
      intro s hs
      rw [← List.singleton_append, ← List.append_assoc, scannedBy, Trace.run_append]
      exact List.mem_append_left _ hs
    have hmem := hmemo.2 pre' m' k post rfl hfirst (fun s hs => h s (hsub s (hsub' s hs)))
    rcases hr.resolve m k with ⟨name, hhit, heq⟩ | ⟨hmiss, -⟩
    · rw [hnone, hmem, Option.none_or, Option.some.injEq] at hhit
      rw [heq, hhit]
    · rw [hnone, hmem] at hmiss
      cases hmiss

/-- **When ambiguous low bits are not guessed**: exactly when no such address was first asked for at a
    time when the symbols visited by then with its low bits all had one name. -/
theorem neverGuessed_iff (calls : List (ProcMem × Nat)) :
    NeverGuessed calls ↔ ∀ pre m k post, calls = pre ++ (m, k) :: post →
      Unknown (scannedBy (pre ++ [(m, k)])) k → Ambiguous (scannedBy (pre ++ [(m, k)])) k →
        ¬ FirstNamed pre k := by
  refine forall₄_congr (fun pre m k post => ?_)
  refine imp_congr_right (fun _ => imp_congr_right (fun hunknown => imp_congr_right (fun hamb => ?_)))
  obtain ⟨hnew, hagain⟩ := resolve_of_unknown hunknown
  constructor
  · rintro hlabel ⟨pre', m', post', rfl, hfirst, hnamed⟩
    rw [hagain pre' m' post' rfl hfirst] at hlabel
    exact fallback_eq_hexLabel_iff.1 hlabel hnamed
  · intro hnamed
    by_cases hasked : k ∈ pre.map Prod.snd
    · obtain ⟨call, hcall, rfl⟩ := List.mem_map.1 hasked
      obtain ⟨pre', ⟨m', k'⟩, post', rfl, hk, hfirst⟩ := Firsts.exists_first hcall Prod.snd
      subst hk
      rw [hagain pre' m' post' rfl hfirst, fallback_eq_hexLabel_iff]
      intro hone
      exact hnamed ⟨pre', m', post', rfl, hfirst, hone⟩
    · rw [hnew hasked, fallback_of_ambiguous hamb]

/-- Two processes: one that has loaded a first code object, and the same after a second one, whose kernel
    has the low bits of the first one's. -/
def oneLoaded : ProcMem := { ProcMem.ofBytes fun _ => 0 with codeObjects := [(0x100040, str "add")] }

def twoLoaded : ProcMem :=
  { ProcMem.ofBytes fun _ => 0 with codeObjects := [(0x100040, str "add"), (0x300040, str "scale")] }

/-- The name given to `0x500040` stays after `0x300040` has been visited. -/
theorem guessed_after_load :
    Growing [(oneLoaded, 0x500040), (twoLoaded, 0x300040), (twoLoaded, 0x500040)] ∧
      ¬ NeverGuessed [(oneLoaded, 0x500040), (twoLoaded, 0x300040), (twoLoaded, 0x500040)] := by
  refine ⟨by simp [Growing, oneLoaded, twoLoaded], ?_⟩
  intro h
  have hlabel := h [(oneLoaded, 0x500040), (twoLoaded, 0x300040)] twoLoaded 0x500040 [] rfl
    (by decide) ⟨str "add", by decide, str "scale", by decide, by decide⟩
  exact absurd hlabel (by decide)

end KernelSymbolResolver

end HsaSnoop
