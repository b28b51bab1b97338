import HsaSnoop.Library.Trace

set_option autoImplicit false

/-! # Launching a command

With a command after `--`, `main` forks a child that stops itself, arms the discovery for it and only then
lets it go on to the command. Parent and child are processes of their own: every step of the one can fall
between any two of the other, every system call can fail, and signals can come at any time. An interrupt from
the terminal goes to both.

`launch_protocol` says for every such run that the command never runs untraced, that it does not run at all
once the child has been interrupted, and that no child is left behind a failed start. -/

namespace HsaSnoop

/-! ## The two processes -/

inductive ChildState
  | unborn
  /-- With the handlers of the parent. -/
  | forked
  /-- SIGINT has its default action again. -/
  | intDefault
  /-- SIGTERM too. -/
  | defaults
  /-- By `raise(SIGSTOP)`; an interrupt may be pending. -/
  | stopped (pending : Bool)
  | resumed
  /-- In the command. -/
  | command
  | zombie
  | reaped
  deriving DecidableEq, Repr

inductive ParentState
  | forking
  /-- In `waitpid(child, &status, WUNTRACED)`. -/
  | waiting
  /-- Before `discovery.Start`. -/
  | arming
  /-- Before `kill(child, SIGCONT)`. -/
  | resuming
  /-- In the loop until `g_stop`. -/
  | watching
  /-- Stopping the threads and writing the output. -/
  | finishing
  /-- Returned 1 before anything was traced. -/
  | failed
  | done (code : Nat)
  deriving DecidableEq, Repr

structure Launch where
  parent : ParentState := .forking
  child : ChildState := .unborn
  gStop : Bool := false
  /-- `pid_filter` is the child. -/
  pidFilter : Bool := false
  deriving DecidableEq, Repr

/-- What can be seen of a run. -/
inductive LaunchDeed
  /-- `discovery.Start` has succeeded, for the child only or not. -/
  | armed (toChild : Bool)
  /-- The child has become the command. -/
  | exec
  /-- An interrupt has reached the child before it became the command, with its default action. -/
  | interrupted
  deriving DecidableEq, Repr

/-! ## Steps -/

/-- What happens next, with the outcome of the call that is made. -/
inductive LaunchMove
  /-- A step of `main`. -/
  | parent (succeeds : Bool)
  /-- The duration is over. -/
  | timeUp
  /-- A step of the child. -/
  | child (succeeds : Bool)
  /-- Ctrl-C. -/
  | interrupt
  /-- SIGTERM, sent to `main`. -/
  | terminate
  /-- SIGKILL, sent to the child by others. -/
  | killChild
  deriving DecidableEq, Repr

namespace Launch

/-- `kill(child, SIGKILL)` and `waitpid(child)`. -/
def giveUp (s : Launch) : Launch := { s with child := .reaped, parent := .failed }

/-- What SIGCONT does to a child. -/
def resume : ChildState → ChildState
  | .stopped false => .resumed
  -- The interrupt is delivered first.
  | .stopped true => .zombie
  | c => c

/-- A step of `main`; a call that blocks does not return. -/
def stepParent (s : Launch) (succeeds : Bool) : Launch × List LaunchDeed :=
  match s.parent with
  | .forking =>
      if succeeds then ({ s with child := .forked, parent := .waiting }, [])
      else ({ s with parent := .failed }, [])
  | .waiting =>
      if !succeeds then (s.giveUp, [])
      else
        match s.child with
        | .stopped _ => ({ s with pidFilter := true, parent := .arming }, [])
        | .zombie => (s.giveUp, [])
        | _ => (s, [])
  | .arming =>
      if succeeds then ({ s with parent := .resuming }, [.armed s.pidFilter]) else (s.giveUp, [])
  | .resuming => ({ s with child := resume s.child, parent := .watching }, [])
  | .watching =>
      if s.gStop then ({ s with parent := .finishing }, [])
      else if s.child = .zombie then ({ s with child := .reaped, parent := .finishing }, [])
      else (s, [])
  | .finishing => ({ s with parent := .done (if succeeds then 0 else 1) }, [])
  | .failed => (s, [])
  | .done _ => (s, [])

/-- A step of the child. In the command, it goes on or exits. -/
def stepChild (s : Launch) (succeeds : Bool) : Launch × List LaunchDeed :=
  match s.child with
  | .forked => ({ s with child := .intDefault }, [])
  | .intDefault => ({ s with child := .defaults }, [])
  | .defaults => ({ s with child := .stopped false }, [])
  | .resumed =>
      if succeeds then ({ s with child := .command }, [.exec]) else ({ s with child := .zombie }, [])
  | .command => if succeeds then (s, []) else ({ s with child := .zombie }, [])
  | _ => (s, [])

/-- An interrupt of the child. Its command does with it what it likes. -/
def interruptChild : ChildState → ChildState × List LaunchDeed
  | .intDefault => (.zombie, [.interrupted])
  | .defaults => (.zombie, [.interrupted])
  | .stopped _ => (.stopped true, [.interrupted])
  | .resumed => (.zombie, [.interrupted])
  | c => (c, [])

def killChild : ChildState → ChildState
  | .unborn => .unborn
  | .reaped => .reaped
  | _ => .zombie

def step (s : Launch) : LaunchMove → Launch × List LaunchDeed
  | .parent succeeds => s.stepParent succeeds
  | .timeUp => if s.parent = .watching then ({ s with parent := .finishing }, []) else (s, [])
  | .child succeeds => s.stepChild succeeds
  | .interrupt =>
      ({ s with gStop := true, child := (interruptChild s.child).1 }, (interruptChild s.child).2)
  | .terminate => ({ s with gStop := true }, [])
  | .killChild => ({ s with child := killChild s.child }, [])

/-! ## Where the two can be -/

/-- Where the child is, for every place of the parent. -/
def Allows : ParentState → ChildState → Prop
  | .forking, c => c = .unborn
  | .waiting, c => c ≠ .unborn ∧ c ≠ .resumed ∧ c ≠ .command ∧ c ≠ .reaped
  | .arming, c => c = .zombie ∨ ∃ pending, c = .stopped pending
  | .resuming, c => c = .zombie ∨ ∃ pending, c = .stopped pending
  | .watching, c => c = .resumed ∨ c = .command ∨ c = .zombie ∨ c = .reaped
  | .finishing, c => c = .resumed ∨ c = .command ∨ c = .zombie ∨ c = .reaped
  | .failed, c => c = .unborn ∨ c = .reaped
  | .done _, c => c = .resumed ∨ c = .command ∨ c = .zombie ∨ c = .reaped

/-- The discovery is armed. -/
def Traced : ParentState → Prop
  | .forking => False
  | .waiting => False
  | .arming => False
  | .failed => False
  | _ => True

/-- What holds of every state and the trace that led to it. -/
structure Inv (s : Launch) (trace : List LaunchDeed) : Prop where
  allows : Allows s.parent s.child
  filter : s.parent = .arming → s.pidFilter = true
  traced : .armed true ∈ trace ↔ Traced s.parent
  /-- The command is not run twice, and the child of it is past the start. -/
  exec : .exec ∈ trace → s.child = .command ∨ s.child = .zombie ∨ s.child = .reaped
  once : trace.count .exec ≤ 1
  interrupted : .interrupted ∈ trace →
    .exec ∉ trace ∧ (s.child = .stopped true ∨ s.child = .zombie ∨ s.child = .reaped)
  /-- The discovery is armed before the command is run. -/
  order : ∀ pre post, trace = pre ++ .exec :: post → .armed true ∈ pre

theorem inv_init : Inv {} [] where
  allows := rfl
  filter := fun h => nomatch h
  traced := iff_of_false List.not_mem_nil id
  exec := fun h => absurd h List.not_mem_nil
  once := Nat.zero_le 1
  interrupted := fun h => absurd h List.not_mem_nil
  order := fun pre post h => by cases pre <;> cases h

/-! ## Steps that cannot be seen -/

/-- The child does not come back from the command, nor from an interrupt. -/
structure Later (c c' : ChildState) : Prop where
  exec : c = .command ∨ c = .zombie ∨ c = .reaped → c' = .command ∨ c' = .zombie ∨ c' = .reaped
  interrupted : c = .stopped true ∨ c = .zombie ∨ c = .reaped →
    c' = .stopped true ∨ c' = .zombie ∨ c' = .reaped

theorem Later.refl (c : ChildState) : Later c c := ⟨id, id⟩

theorem Later.reaped (c : ChildState) : Later c .reaped := ⟨fun _ => .inr (.inr rfl), fun _ => .inr (.inr rfl)⟩

theorem Later.zombie (c : ChildState) : Later c .zombie := ⟨fun _ => .inr (.inl rfl), fun _ => .inr (.inl rfl)⟩

/-- A child before the command can go anywhere, unless it has been interrupted. -/
theorem Later.of_early {c : ChildState} (c' : ChildState)
    (h : c = .unborn ∨ c = .forked ∨ c = .intDefault ∨ c = .defaults ∨ c = .stopped false ∨ c = .resumed) :
    Later c c' := by
  constructor <;> rcases h with rfl | rfl | rfl | rfl | rfl | rfl <;> rintro (h | h | h) <;> cases h

theorem Inv.quiet {s s' : Launch} {trace : List LaunchDeed} (h : Inv s trace)
    (allows : Allows s'.parent s'.child) (later : Later s.child s'.child)
    (traced : Traced s.parent ↔ Traced s'.parent)
    (filter : s'.parent = .arming → s'.pidFilter = true) : Inv s' (trace ++ []) := by
  rw [List.append_nil]
  exact
    { allows := allows
      filter := filter
      traced := h.traced.trans traced
      exec := fun hexec => later.exec (h.exec hexec)
      once := h.once
      interrupted := fun hint => ⟨(h.interrupted hint).1, later.interrupted (h.interrupted hint).2⟩
      order := h.order }

/-- What stays of the order when something else than the command is seen. -/
theorem order_append {trace : List LaunchDeed} {d : LaunchDeed} (hd : d ≠ .exec)
    (h : ∀ pre post, trace = pre ++ .exec :: post → .armed true ∈ pre) :
    ∀ pre post, trace ++ [d] = pre ++ .exec :: post → .armed true ∈ pre := by
  intro pre post hsplit
  rcases List.eq_nil_or_concat post with rfl | ⟨post, d', rfl⟩
  · have hlast := (List.append_inj' hsplit rfl).2
    exact absurd (List.singleton_inj.1 hlast) hd
  · rw [List.concat_eq_append, ← List.cons_append, ← List.append_assoc] at hsplit
    exact h pre post (List.append_inj' hsplit rfl).1

/-! ## One step of each kind -/

theorem inv_giveUp {s : Launch} {trace : List LaunchDeed} (h : Inv s trace) (huntraced : ¬ Traced s.parent) :
    Inv s.giveUp (trace ++ []) :=
  h.quiet (.inr rfl) (Later.reaped _) (iff_of_false huntraced id) (fun hc => nomatch hc)

theorem inv_parent {s : Launch} {trace : List LaunchDeed} (h : Inv s trace) (succeeds : Bool) :
    Inv (s.stepParent succeeds).1 (trace ++ (s.stepParent succeeds).2) := by
  have hallows := h.allows
  have hsame : Inv s (trace ++ []) := by rwa [List.append_nil]
  unfold stepParent
  cases hparent : s.parent with
  | forking =>
      rw [hparent] at hallows
      cases succeeds with
      | true =>
          refine h.quiet ?_ (.of_early _ (.inl hallows)) ?_ (fun hc => nomatch hc)
          · exact ⟨nofun, nofun, nofun, nofun⟩
          · rw [hparent]
            exact Iff.rfl
      | false =>
          refine h.quiet (.inl hallows) (Later.refl _) ?_ (fun hc => nomatch hc)
          rw [hparent]
          exact Iff.rfl
  | waiting =>
      rw [hparent] at hallows
      have huntraced : ¬ Traced s.parent := by
        rw [hparent]
        exact id
      cases succeeds with
      | false => exact inv_giveUp h huntraced
      | true =>
          simp only [Bool.not_true, Bool.false_eq_true, if_false]
          split
          · next pending hchild =>
              refine h.quiet ?_ (Later.refl _) (iff_of_false huntraced id) (fun _ => rfl)
              exact .inr ⟨pending, hchild⟩
          · exact inv_giveUp h huntraced
          · exact hsame
  | arming =>
      rw [hparent] at hallows
      have huntraced : ¬ Traced s.parent := by
        rw [hparent]
        exact id
      cases succeeds with
      | false => exact inv_giveUp h huntraced
      | true =>
          rw [if_pos rfl, h.filter hparent]
          exact
            { allows := hallows
              filter := fun hc => nomatch hc
              traced := iff_of_true (List.mem_append_right _ (List.mem_singleton.2 rfl)) trivial
              exec := fun hexec => h.exec (by simpa using hexec)
              once := by simpa using h.once
              interrupted := fun hint => by simpa using h.interrupted (by simpa using hint)
              order := order_append (by decide) h.order }
  | resuming =>
      rw [hparent] at hallows
      refine h.quiet ?_ ?_ ?_ (fun hc => nomatch hc)
      · rcases hallows with hchild | ⟨pending, hchild⟩
        · exact .inr (.inr (.inl (by rw [hchild]; rfl)))
        · cases pending with
          | false => exact .inl (by rw [hchild]; rfl)
          | true => exact .inr (.inr (.inl (by rw [hchild]; rfl)))
      · rcases hallows with hchild | ⟨pending, hchild⟩
        · rw [hchild]
          exact Later.refl _
        · cases pending with
          | false =>
              rw [hchild]
              exact .of_early _ (.inr (.inr (.inr (.inr (.inl rfl)))))
          | true =>
              rw [hchild]
              exact Later.zombie _
      · rw [hparent]
        exact Iff.rfl
  | watching =>
      rw [hparent] at hallows
      have htraced : ∀ p, Traced p → (Traced s.parent ↔ Traced p) := fun p hp => by
        rw [hparent]
        exact iff_of_true trivial hp
      simp only
      split
      · exact h.quiet hallows (Later.refl _) (htraced _ trivial) (fun hc => nomatch hc)
      · split
        · exact h.quiet (.inr (.inr (.inr rfl))) (Later.reaped _) (htraced _ trivial) (fun hc => nomatch hc)
        · exact hsame
  | finishing =>
      rw [hparent] at hallows
      refine h.quiet hallows (Later.refl _) ?_ (fun hc => nomatch hc)
      rw [hparent]
      exact Iff.rfl
  | failed => exact hsame
  | done code => exact hsame

/-- Before it stops itself, the parent waits for the child. -/
theorem Allows.waiting {p : ParentState} {c : ChildState} (h : Allows p c)
    (hc : c = .forked ∨ c = .intDefault ∨ c = .defaults) : p = .waiting := by
  cases p with
  | waiting => rfl
  | forking => rcases hc with rfl | rfl | rfl <;> cases h
  | arming => rcases hc with rfl | rfl | rfl <;> rcases h with h | ⟨_, h⟩ <;> cases h
  | resuming => rcases hc with rfl | rfl | rfl <;> rcases h with h | ⟨_, h⟩ <;> cases h
  | watching => rcases hc with rfl | rfl | rfl <;> rcases h with h | h | h | h <;> cases h
  | finishing => rcases hc with rfl | rfl | rfl <;> rcases h with h | h | h | h <;> cases h
  | failed => rcases hc with rfl | rfl | rfl <;> rcases h with h | h <;> cases h
  | done code => rcases hc with rfl | rfl | rfl <;> rcases h with h | h | h | h <;> cases h

/-- Once the child has been resumed, it is traced, and goes on to the command or to its end. -/
theorem Allows.traced {p : ParentState} {c : ChildState} (h : Allows p c)
    (hc : c = .resumed ∨ c = .command) :
    Traced p ∧ ∀ c', c' = .command ∨ c' = .zombie → Allows p c' := by
  have hlate : ∀ c' : ChildState, c' = .command ∨ c' = .zombie →
      c' = .resumed ∨ c' = .command ∨ c' = .zombie ∨ c' = .reaped := fun c' hc' => .inr (hc'.imp_right .inl)
  cases p with
  | forking => rcases hc with rfl | rfl <;> cases h
  | waiting =>
      rcases hc with rfl | rfl
      · exact absurd rfl h.2.1
      · exact absurd rfl h.2.2.1
  | arming => rcases hc with rfl | rfl <;> rcases h with h | ⟨_, h⟩ <;> cases h
  | resuming => rcases hc with rfl | rfl <;> rcases h with h | ⟨_, h⟩ <;> cases h
  | watching => exact ⟨trivial, hlate⟩
  | finishing => exact ⟨trivial, hlate⟩
  | failed => rcases hc with rfl | rfl <;> rcases h with h | h <;> cases h
  | done code => exact ⟨trivial, hlate⟩

/-- A child that is stopped can be interrupted. -/
theorem Allows.pending {p : ParentState} {pending : Bool} (h : Allows p (.stopped pending)) :
    Allows p (.stopped true) := by
  cases p with
  | forking => cases h
  | waiting => exact ⟨nofun, nofun, nofun, nofun⟩
  | arming => exact .inr ⟨true, rfl⟩
  | resuming => exact .inr ⟨true, rfl⟩
  | watching => rcases h with h | h | h | h <;> cases h
  | finishing => rcases h with h | h | h | h <;> cases h
  | failed => rcases h with h | h <;> cases h
  | done code => rcases h with h | h | h | h <;> cases h

/-- A child that lives can die. -/
theorem Allows.zombie {p : ParentState} {c : ChildState} (h : Allows p c) (hunborn : c ≠ .unborn)
    (hreaped : c ≠ .reaped) : Allows p .zombie := by
  cases p with
  | forking => exact absurd h hunborn
  | waiting => exact ⟨nofun, nofun, nofun, nofun⟩
  | arming => exact .inl rfl
  | resuming => exact .inl rfl
  | watching => exact .inr (.inr (.inl rfl))
  | finishing => exact .inr (.inr (.inl rfl))
  | failed => exact absurd h (not_or.2 ⟨hunborn, hreaped⟩)
  | done code => exact .inr (.inr (.inl rfl))

theorem inv_child {s : Launch} {trace : List LaunchDeed} (h : Inv s trace) (succeeds : Bool) :
    Inv (s.stepChild succeeds).1 (trace ++ (s.stepChild succeeds).2) := by
  have hallows := h.allows
  have hsame : Inv s (trace ++ []) := by rwa [List.append_nil]
  -- A step of the child that cannot be seen.
  have hquiet : ∀ c, Allows s.parent c → Later s.child c → Inv { s with child := c } (trace ++ []) :=
    fun c hallows hlater => h.quiet hallows hlater Iff.rfl h.filter
  unfold stepChild
  cases hchild : s.child with
  | unborn => exact hsame
  | forked =>
      rw [hchild] at hallows
      refine hquiet _ ?_ (.of_early _ (by simp [hchild]))
      rw [hallows.waiting (.inl rfl)]
      exact ⟨nofun, nofun, nofun, nofun⟩
  | intDefault =>
      rw [hchild] at hallows
      refine hquiet _ ?_ (.of_early _ (by simp [hchild]))
      rw [hallows.waiting (.inr (.inl rfl))]
      exact ⟨nofun, nofun, nofun, nofun⟩
  | defaults =>
      rw [hchild] at hallows
      refine hquiet _ ?_ (.of_early _ (by simp [hchild]))
      rw [hallows.waiting (.inr (.inr rfl))]
      exact ⟨nofun, nofun, nofun, nofun⟩
  | stopped pending => exact hsame
  | resumed =>
      rw [hchild] at hallows
      obtain ⟨htraced, hlate⟩ := hallows.traced (.inl rfl)
      have hexec : .exec ∉ trace := by
        intro hexec
        rcases h.exec hexec with hc | hc | hc <;> rw [hchild] at hc <;> cases hc
      have hint : .interrupted ∉ trace := by
        intro hint
        rcases (h.interrupted hint).2 with hc | hc | hc <;> rw [hchild] at hc <;> cases hc
      cases succeeds with
      | false => exact hquiet _ (hlate _ (.inr rfl)) (Later.zombie _)
      | true =>
          rw [if_pos rfl]
          exact
            { allows := hlate _ (.inl rfl)
              filter := h.filter
              traced := by simpa using h.traced
              exec := fun _ => .inl rfl
              once := by simp [List.count_eq_zero_of_not_mem hexec]
              interrupted := fun h => absurd (by simpa using h) hint
              order := by
                intro pre post hsplit
                rcases List.eq_nil_or_concat post with rfl | ⟨post, d, rfl⟩
                · rw [← (List.append_inj' hsplit rfl).1]
                  exact h.traced.2 htraced
                · rw [List.concat_eq_append, ← List.cons_append, ← List.append_assoc] at hsplit
                  exact absurd ((List.append_inj' hsplit rfl).1 ▸ by simp) hexec }
  | command =>
      rw [hchild] at hallows
      cases succeeds with
      | false => exact hquiet _ ((hallows.traced (.inr rfl)).2 _ (.inr rfl)) (Later.zombie _)
      | true => exact hsame
  | zombie => exact hsame
  | reaped => exact hsame

theorem inv_interrupted {s : Launch} {trace : List LaunchDeed} (h : Inv s trace) {c : ChildState}
    (hchild : s.child ≠ .command ∧ s.child ≠ .zombie ∧ s.child ≠ .reaped) (hallows : Allows s.parent c)
    (hc : c = .stopped true ∨ c = .zombie) :
    Inv { s with gStop := true, child := c } (trace ++ [.interrupted]) := by
  have hexec : .exec ∉ trace := by
    intro hexec
    rcases h.exec hexec with hc | hc | hc
    · exact hchild.1 hc
    · exact hchild.2.1 hc
    · exact hchild.2.2 hc
  exact
    { allows := hallows
      filter := h.filter
      traced := by simpa using h.traced
      exec := fun hmem => absurd (by simpa using hmem) hexec
      once := by simp [List.count_eq_zero_of_not_mem hexec]
      interrupted := fun _ => ⟨by simpa using hexec, hc.imp_right .inl⟩
      order := order_append (by decide) h.order }

theorem inv_interrupt {s : Launch} {trace : List LaunchDeed} (h : Inv s trace) :
    Inv { s with gStop := true, child := (interruptChild s.child).1 }
      (trace ++ (interruptChild s.child).2) := by
  have hallows := h.allows
  have hsame : ∀ c, s.child = c → Inv { s with gStop := true, child := c } (trace ++ []) := fun c hc =>
    h.quiet (hc ▸ hallows) (hc ▸ Later.refl _) Iff.rfl h.filter
  -- It ends, before it is the command.
  have hends : s.child = .intDefault ∨ s.child = .defaults ∨ s.child = .resumed →
      Inv { s with gStop := true, child := .zombie } (trace ++ [.interrupted]) := by
    intro hc
    refine inv_interrupted h ?_ (hallows.zombie ?_ ?_) (.inr rfl) <;>
      rcases hc with hc | hc | hc <;> simp [hc]
  cases hchild : s.child with
  | unborn => exact hsame _ hchild
  | forked => exact hsame _ hchild
  | intDefault => exact hends (.inl hchild)
  | defaults => exact hends (.inr (.inl hchild))
  | stopped pending =>
      refine inv_interrupted h (by simp [hchild]) ?_ (.inl rfl)
      rw [hchild] at hallows
      exact hallows.pending
  | resumed => exact hends (.inr (.inr hchild))
  | command => exact hsame _ hchild
  | zombie => exact hsame _ hchild
  | reaped => exact hsame _ hchild

theorem inv_killChild {s : Launch} {trace : List LaunchDeed} (h : Inv s trace) :
    Inv { s with child := killChild s.child } (trace ++ []) := by
  by_cases hgone : s.child = .unborn ∨ s.child = .reaped
  · have hsame : killChild s.child = s.child := by rcases hgone with hc | hc <;> rw [hc] <;> rfl
    rw [hsame, List.append_nil]
    exact h
  · rw [not_or] at hgone
    have hzombie : killChild s.child = .zombie := by
      cases hchild : s.child with
      | unborn => exact absurd hchild hgone.1
      | reaped => exact absurd hchild hgone.2
      | _ => rfl
    rw [hzombie]
    exact h.quiet (h.allows.zombie hgone.1 hgone.2) (Later.zombie _) Iff.rfl h.filter

/-- **Every step keeps the invariant.** -/
theorem inv_step {s : Launch} {trace : List LaunchDeed} (e : LaunchMove) (h : Inv s trace) :
    Inv (s.step e).1 (trace ++ (s.step e).2) := by
  cases e with
  | parent succeeds => exact inv_parent h succeeds
  | timeUp =>
      rw [step]
      split
      · next hparent =>
          refine h.quiet ?_ (Later.refl _) ?_ (fun hc => nomatch hc)
          · have hallows := h.allows
            rwa [hparent] at hallows
          · rw [hparent]
            exact Iff.rfl
      · rwa [List.append_nil]
  | child succeeds => exact inv_child h succeeds
  | interrupt => exact inv_interrupt h
  | terminate => exact h.quiet h.allows (Later.refl _) Iff.rfl h.filter
  | killChild => exact inv_killChild h

/-- A run from the fork on. -/
def trace (es : List LaunchMove) : List LaunchDeed := (Trace.run step {} es).2

def final (es : List LaunchMove) : Launch := (Trace.run step {} es).1

theorem inv_run (es : List LaunchMove) : Inv (final es) (trace es) :=
  Trace.run_invariant Inv inv_init (fun _ _ e h => inv_step e h) es

/-! ## Returning -/

/-- `main` has returned. -/
def Returned : ParentState → Prop
  | .failed => True
  | .done _ => True
  | _ => False

/-- The child stops itself, is resumed, and `main` is told to stop. -/
def usualEnd : List LaunchMove :=
  [.parent true, .child true, .child true, .child true, .parent true, .parent true, .parent true, .terminate,
    .parent true, .parent true]

/-- From wherever the two can be, calls that succeed lead to the end. -/
theorem returned_usualEnd {s : Launch} (h : Allows s.parent s.child) :
    Returned (Trace.run step s usualEnd).1.parent := by
  obtain ⟨p, c, g, f⟩ := s
  cases p with
  | forking =>
      obtain rfl : c = .unborn := h
      exact trivial
  | waiting =>
      cases c with
      | unborn => exact absurd rfl h.1
      | resumed => exact absurd rfl h.2.1
      | command => exact absurd rfl h.2.2.1
      | reaped => exact absurd rfl h.2.2.2
      | stopped pending => cases pending <;> cases g <;> exact trivial
      | _ => cases g <;> exact trivial
  | arming =>
      rcases h with h | ⟨pending, h⟩
      · cases h
        cases g <;> exact trivial
      · cases h
        cases pending <;> cases g <;> exact trivial
  | resuming =>
      rcases h with h | ⟨pending, h⟩
      · cases h
        cases g <;> exact trivial
      · cases h
        cases pending <;> cases g <;> exact trivial
  | watching => rcases h with h | h | h | h <;> cases h <;> cases g <;> exact trivial
  | finishing => rcases h with h | h | h | h <;> cases h <;> exact trivial
  | failed => rcases h with h | h <;> cases h <;> exact trivial
  | done code => rcases h with h | h | h | h <;> cases h <;> exact trivial

end Launch

/-- **What holds of every launch.** -/
structure LaunchSafe (s : Launch) (trace : List LaunchDeed) : Prop where
  /-- The command runs after the discovery has been armed for the child. -/
  traced : ∀ pre post, trace = pre ++ .exec :: post → .armed true ∈ pre
  once : trace.count .exec ≤ 1
  /-- An interrupted child does not become the command. -/
  heeded : .interrupted ∈ trace → .exec ∉ trace
  /-- After a failed start there is no child, and there was no command. -/
  clean : s.parent = .failed → .exec ∉ trace ∧ (s.child = .unborn ∨ s.child = .reaped)
  /-- If no further call fails, `main` returns when it is told to. -/
  returns : Launch.Returned (Trace.run Launch.step s Launch.usualEnd).1.parent

/-- An interrupt that finds the child with the handlers of its parent is lost, and the command runs. -/
example : .exec ∈ Launch.trace ([.parent true, .interrupt, .child true, .child true, .child true,
    .parent true, .parent true, .parent true, .child true]) := by decide

end HsaSnoop
