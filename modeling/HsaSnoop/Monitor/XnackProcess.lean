import HsaSnoop.Library.Trace

set_option autoImplicit false

/-! # Stopping the XNACK monitor

`Start` forks bpftrace and a thread that reads its output, `Stop` is to end both, and may find either of them
ended already. Three parties act: the owner, which calls `Start` and `Stop`, bpftrace, and the reading thread.
Every step of the one can fall between any two of the others.

`xnack_monitor_stops` says for every such run what is left when `Stop` returns, what is still reported, which
process the signals go to, and when `Stop` returns at all. -/

namespace HsaSnoop

/-! ## The three parties -/

/-- The process of `bpftrace_pid_`. -/
inductive Bpftrace
  /-- `bpftrace_pid_` is -1. -/
  | absent
  | alive
  /-- It lives on without its end of the pipe. -/
  | silent
  | zombie
  /-- Waited for, with `bpftrace_pid_` still set. -/
  | reaped
  deriving DecidableEq, Repr

/-- Where `ReadLoop` is. -/
inductive XnackReader
  /-- `reader_thread_` is not joinable. -/
  | absent
  /-- Before `fdopen`. -/
  | opening
  /-- In `fgets`. -/
  | reading
  /-- With a line that came while `running_` was set. -/
  | handling
  /-- Behind the loop. -/
  | leaving
  /-- Before `running_ = false`. -/
  | closed
  | finished
  deriving DecidableEq, Repr

/-- Where the owner is. -/
inductive XnackOwner
  /-- In no call. -/
  | outside
  /-- Before SIGTERM. -/
  | terminating
  /-- Before `waitpid` with `WNOHANG`. -/
  | napping
  /-- Before SIGKILL. -/
  | killing
  /-- In `waitpid`. -/
  | waiting
  /-- In `join`. -/
  | joining
  /-- A thread was started over one that is joinable, which ends the program. -/
  | aborted
  deriving DecidableEq, Repr

structure XnackMonitor where
  owner : XnackOwner := .outside
  child : Bpftrace := .absent
  reader : XnackReader := .absent
  running : Bool := false
  /-- Read ends of pipes that are open. -/
  descriptors : Nat := 0
  deriving DecidableEq, Repr

/-- What can be seen of a run. -/
inductive XnackDeed
  /-- `Start` has returned true. -/
  | started
  /-- `Stop` was called, and found `running_` so. -/
  | stopping (wasRunning : Bool)
  /-- `Stop` has returned. -/
  | stopped
  /-- A record went to the sink. -/
  | reported
  /-- `fdopen` has failed. -/
  | unread
  /-- SIGTERM, to bpftrace or to the process that has its number now. -/
  | sigterm (toChild : Bool)
  /-- The answer of `waitpid` with `WNOHANG`. -/
  | polled (reaped : Bool)
  | sigkill (toChild : Bool)
  deriving DecidableEq, Repr

/-! ## Steps -/

inductive XnackMove
  /-- `Start` is called, and its system calls succeed or not. -/
  | start (succeeds : Bool)
  | stop
  /-- A step of the owner in `Stop`. -/
  | owner
  /-- A step of the thread: it gets a line, or has a record; or not. -/
  | reader (succeeds : Bool)
  /-- bpftrace closes its output. -/
  | closesOutput
  | exits
  deriving DecidableEq, Repr

/-- It has not been waited for. -/
def Bpftrace.isOwn : Bpftrace → Bool
  | .alive => true
  | .silent => true
  | .zombie => true
  | _ => false

def Bpftrace.Lives (b : Bpftrace) : Prop := b = .alive ∨ b = .silent

/-- After its end, by SIGKILL or its own. -/
def Bpftrace.ended : Bpftrace → Bpftrace
  | .alive => .zombie
  | .silent => .zombie
  | b => b

namespace XnackMonitor

def start (s : XnackMonitor) (succeeds : Bool) : XnackMonitor × List XnackDeed :=
  match s.owner with
  | .outside =>
      if succeeds then
        if s.reader = .absent then
          ({ s with child := .alive, reader := .opening, running := true, descriptors := s.descriptors + 1 },
            [.started])
        else ({ s with owner := .aborted }, [])
      else (s, [])
  | _ => (s, [])

/-- The beginning of `Stop`. -/
def stop (s : XnackMonitor) : XnackMonitor × List XnackDeed :=
  match s.owner with
  | .outside =>
      ({ s with
          running := false
          owner := if s.child = .absent then .joining else if s.running then .terminating else .waiting },
        [.stopping s.running])
  | _ => (s, [])

/-- The rest of `Stop`; a call that blocks does not return. -/
def stepOwner (s : XnackMonitor) : XnackMonitor × List XnackDeed :=
  match s.owner with
  | .terminating => ({ s with owner := .napping }, [.sigterm s.child.isOwn])
  | .napping =>
      if s.child = .zombie then ({ s with owner := .killing, child := .reaped }, [.polled true])
      else ({ s with owner := .killing }, [.polled false])
  | .killing => ({ s with owner := .waiting, child := s.child.ended }, [.sigkill s.child.isOwn])
  | .waiting =>
      if s.child = .alive ∨ s.child = .silent then (s, [])
      else ({ s with owner := .joining, child := .absent }, [])
  | .joining =>
      if s.reader = .absent ∨ s.reader = .finished then
        ({ s with owner := .outside, reader := .absent }, [.stopped])
      else (s, [])
  | .outside => (s, [])
  | .aborted => (s, [])

/-- `ReadLoop`. A line can come after the end of bpftrace too, out of the pipe. -/
def stepReader (s : XnackMonitor) (succeeds : Bool) : XnackMonitor × List XnackDeed :=
  match s.reader with
  | .absent => (s, [])
  | .opening =>
      if succeeds then ({ s with reader := .reading }, []) else ({ s with reader := .closed }, [.unread])
  | .reading =>
      if succeeds then ({ s with reader := if s.running then .handling else .leaving }, [])
      -- No end of the output before its last writer is gone.
      else if s.child = .alive then (s, [])
      else ({ s with reader := .leaving }, [])
  | .handling => ({ s with reader := .reading }, if succeeds then [.reported] else [])
  | .leaving => ({ s with reader := .closed, descriptors := s.descriptors - 1 }, [])
  | .closed => ({ s with reader := .finished, running := false }, [])
  | .finished => (s, [])

def move (s : XnackMonitor) : XnackMove → XnackMonitor × List XnackDeed
  | .start succeeds => s.start succeeds
  | .stop => s.stop
  | .owner => s.stepOwner
  | .reader succeeds => s.stepReader succeeds
  | .closesOutput => ({ s with child := if s.child = .alive then .silent else s.child }, [])
  | .exits => ({ s with child := s.child.ended }, [])

def step (s : XnackMonitor) (m : XnackMove) : XnackMonitor × List XnackDeed :=
  match s.owner with
  | .aborted => (s, [])
  | _ => s.move m

/-! ## What holds at all times -/

/-- What bpftrace can be, for every place of the owner. -/
def Place : XnackOwner → Bpftrace → Prop
  | .outside, c => c = .absent ∨ c.isOwn = true
  | .terminating, c => c.isOwn = true
  | .napping, c => c.isOwn = true
  | .killing, c => c ≠ .absent
  | .waiting, _ => True
  | .joining, c => c = .absent
  | .aborted, _ => True

/-- The thread has the read end open. -/
def held : XnackReader → Nat
  | .opening => 1
  | .reading => 1
  | .handling => 1
  | .leaving => 1
  | _ => 0

/-- What the thread may report before it looks at `running_` again. -/
def owed : XnackReader → Nat
  | .handling => 1
  | _ => 0

/-- The answer that the next SIGKILL does not heed. -/
def unsent (s : XnackMonitor) : List Bool :=
  if s.owner = .killing then [decide (s.child = .reaped)] else []

def polled? : XnackDeed → Option Bool
  | .polled reaped => some reaped
  | _ => none

/-- Whether a SIGKILL goes to another process. -/
def stray? : XnackDeed → Option Bool
  | .sigkill toChild => some !toChild
  | _ => none

def IsStopping (d : XnackDeed) : Prop := ∃ wasRunning, d = .stopping wasRunning

/-- The owner is in a `Stop` that does not depend on bpftrace. -/
structure Ending (s : XnackMonitor) : Prop where
  inside : s.owner ≠ .outside ∧ s.owner ≠ .aborted
  free : s.owner = .waiting → ¬ s.child.Lives

/-- What holds of every state and the trace that led to it. -/
structure Inv (s : XnackMonitor) (trace : List XnackDeed) : Prop where
  place : Place s.owner s.child
  descriptors : s.descriptors = trace.count .unread + held s.reader
  stopped : ∀ mid, Trace.Since (· = .stopped) (· = .started) trace mid →
    s.child = .absent ∧ s.reader = .absent ∧ .reported ∉ mid
  late : ∀ mid, Trace.Since IsStopping (· = .started) trace mid →
    s.running = false ∧ mid.count .reported + owed s.reader ≤ 1
  ending : ∀ mid, Trace.Since (· = .stopping true) (· = .stopped) trace mid → s.Ending
  toChild : .sigterm false ∉ trace
  answered : trace.filterMap polled? = trace.filterMap stray? ++ s.unsent
  joinable : s.reader ≠ .absent → ∃ mid, Trace.Since (· = .started) (· = .stopped) trace mid
  aborted : s.owner = .aborted → s.reader ≠ .absent

theorem inv_init : Inv {} [] where
  place := .inl rfl
  descriptors := rfl
  stopped := fun _ h => absurd h Trace.not_since_nil
  late := fun _ h => absurd h Trace.not_since_nil
  ending := fun _ h => absurd h Trace.not_since_nil
  toChild := List.not_mem_nil
  answered := rfl
  joinable := fun h => absurd rfl h
  aborted := nofun

/-! ## Steps within a call -/

/-- Neither `Start` nor `Stop` begins or ends with it. -/
def Within (d : XnackDeed) : Prop := d ≠ .started ∧ d ≠ .stopped ∧ ¬ IsStopping d

/-- From one state to the next, with what can be seen of it. -/
structure Keeps (s s' : XnackMonitor) (ds : List XnackDeed) : Prop where
  within : ∀ d ∈ ds, Within d
  place : Place s'.owner s'.child
  descriptors : s'.descriptors + held s.reader = s.descriptors + ds.count .unread + held s'.reader
  child : s.child = .absent → s'.child = .absent
  reader : s'.reader = .absent ↔ s.reader = .absent
  silent : s.reader = .absent → .reported ∉ ds
  late : s.running = false → s'.running = false ∧ ds.count .reported + owed s'.reader ≤ owed s.reader
  ending : s.Ending → s'.Ending
  toChild : .sigterm false ∉ ds
  answered : s.unsent ++ ds.filterMap polled? = ds.filterMap stray? ++ s'.unsent
  aborted : s'.owner = .aborted → s'.reader ≠ .absent

theorem Inv.seen {s s' : XnackMonitor} {trace ds : List XnackDeed} (h : Inv s trace)
    (hkeeps : Keeps s s' ds) : Inv s' (trace ++ ds) where
  place := hkeeps.place
  descriptors := by
    have hbefore := h.descriptors
    have hstep := hkeeps.descriptors
    rw [List.count_append]
    omega
  stopped := by
    intro mid hmid
    obtain ⟨mid', rfl, hbefore⟩ := hmid.of_append fun d hd => (hkeeps.within d hd).2.1
    obtain ⟨hchild, hreader, hreported⟩ := h.stopped mid' hbefore
    refine ⟨hkeeps.child hchild, hkeeps.reader.2 hreader, fun hmem => ?_⟩
    exact (List.mem_append.1 hmem).elim hreported (hkeeps.silent hreader)
  late := by
    intro mid hmid
    obtain ⟨mid', rfl, hbefore⟩ := hmid.of_append fun d hd => (hkeeps.within d hd).2.2
    obtain ⟨hrunning, hcount⟩ := h.late mid' hbefore
    obtain ⟨hrunning', howed⟩ := hkeeps.late hrunning
    rw [List.count_append]
    exact ⟨hrunning', by omega⟩
  ending := by
    intro mid hmid
    obtain ⟨mid', rfl, hbefore⟩ := hmid.of_append fun d hd heq => (hkeeps.within d hd).2.2 ⟨true, heq⟩
    exact hkeeps.ending (h.ending mid' hbefore)
  toChild := fun hmem => (List.mem_append.1 hmem).elim h.toChild hkeeps.toChild
  answered := by
    rw [List.filterMap_append, List.filterMap_append, h.answered, List.append_assoc, hkeeps.answered,
      List.append_assoc]
  joinable := by
    intro hreader
    obtain ⟨mid, hmid⟩ := h.joinable fun habsent => hreader (hkeeps.reader.2 habsent)
    exact ⟨mid ++ ds, hmid.append fun d hd => (hkeeps.within d hd).2.1⟩
  aborted := hkeeps.aborted

theorem Keeps.refl {s : XnackMonitor} (hplace : Place s.owner s.child)
    (haborted : s.owner = .aborted → s.reader ≠ .absent) : Keeps s s [] where
  within := nofun
  place := hplace
  descriptors := rfl
  child := id
  reader := Iff.rfl
  silent := fun _ => List.not_mem_nil
  late := fun hrunning => ⟨hrunning, Nat.le_of_eq (Nat.zero_add _)⟩
  ending := id
  toChild := List.not_mem_nil
  answered := List.append_nil _
  aborted := haborted

/-! ### bpftrace -/

/-- What bpftrace does by itself. -/
theorem keeps_child {s : XnackMonitor} {c : Bpftrace} (hplace : Place s.owner c)
    (habsent : s.child = .absent → c = .absent) (hlives : c.Lives → s.child.Lives)
    (hreaped : c = .reaped ↔ s.child = .reaped) (haborted : s.owner = .aborted → s.reader ≠ .absent) :
    Keeps s { s with child := c } [] where
  within := nofun
  place := hplace
  descriptors := rfl
  child := habsent
  reader := Iff.rfl
  silent := fun _ => List.not_mem_nil
  late := fun hrunning => ⟨hrunning, Nat.le_of_eq (Nat.zero_add _)⟩
  ending := fun h => ⟨h.inside, fun hwaiting hlive => h.free hwaiting (hlives hlive)⟩
  toChild := List.not_mem_nil
  answered := by simp [unsent, hreaped]
  aborted := haborted

theorem not_lives_ended (c : Bpftrace) : ¬ c.ended.Lives := by
  cases c <;> rintro (h | h) <;> cases h

theorem ended_eq_reaped {c : Bpftrace} : c.ended = .reaped ↔ c = .reaped := by
  cases c <;> simp [Bpftrace.ended]

theorem ended_eq_absent {c : Bpftrace} : c.ended = .absent ↔ c = .absent := by
  cases c <;> simp [Bpftrace.ended]

theorem isOwn_ended (c : Bpftrace) : c.ended.isOwn = c.isOwn := by
  cases c <;> rfl

theorem Place.ended {o : XnackOwner} {c : Bpftrace} (h : Place o c) : Place o c.ended := by
  cases o with
  | outside => exact h.imp ended_eq_absent.2 fun hown => (isOwn_ended c).trans hown
  | terminating => exact (isOwn_ended c).trans h
  | napping => exact (isOwn_ended c).trans h
  | killing => exact fun habsent => h (ended_eq_absent.1 habsent)
  | waiting => trivial
  | joining => exact ended_eq_absent.2 h
  | aborted => trivial

theorem keeps_exits {s : XnackMonitor} {trace : List XnackDeed} (h : Inv s trace) :
    Keeps s { s with child := s.child.ended } [] :=
  keeps_child h.place.ended ended_eq_absent.2 (fun hlives => absurd hlives (not_lives_ended _))
    ended_eq_reaped h.aborted

theorem keeps_closesOutput {s : XnackMonitor} {trace : List XnackDeed} (h : Inv s trace) :
    Keeps s { s with child := if s.child = .alive then .silent else s.child } [] := by
  by_cases halive : s.child = .alive
  · rw [if_pos halive]
    have hplace := h.place
    rw [halive] at hplace
    refine keeps_child ?_ (by simp [halive]) (fun _ => .inl halive) (by simp [halive]) h.aborted
    cases howner : s.owner <;> rw [howner] at hplace
    · exact .inr rfl
    · rfl
    · rfl
    · exact nofun
    · trivial
    · cases hplace
    · trivial
  · rw [if_neg halive]
    exact Keeps.refl h.place h.aborted

/-! ### The thread -/

/-- The thread goes on, without `running_`. -/
theorem keeps_reader {s : XnackMonitor} {trace : List XnackDeed} (h : Inv s trace) {r : XnackReader}
    {n : Nat} {ds : List XnackDeed} (hds : ∀ d ∈ ds, d = .unread ∨ d = .reported)
    (hreader : s.reader ≠ .absent) (hr : r ≠ .absent)
    (hheld : n + held s.reader = s.descriptors + ds.count .unread + held r)
    (howed : s.running = false → ds.count .reported + owed r ≤ owed s.reader) :
    Keeps s { s with reader := r, descriptors := n } ds where
  within := by
    intro d hd
    rcases hds d hd with rfl | rfl <;> exact ⟨nofun, nofun, fun ⟨_, heq⟩ => nomatch heq⟩
  place := h.place
  descriptors := hheld
  child := id
  reader := iff_of_false hr hreader
  silent := fun habsent => absurd habsent hreader
  late := fun hrunning => ⟨hrunning, howed hrunning⟩
  ending := fun hending => ⟨hending.inside, hending.free⟩
  toChild := by
    intro hmem
    rcases hds _ hmem with heq | heq <;> cases heq
  answered := by
    have hpolled : ds.filterMap polled? = [] := List.filterMap_eq_nil_iff.2 fun d hd => by
      rcases hds d hd with rfl | rfl <;> rfl
    have hstray : ds.filterMap stray? = [] := List.filterMap_eq_nil_iff.2 fun d hd => by
      rcases hds d hd with rfl | rfl <;> rfl
    rw [hpolled, hstray, List.append_nil, List.nil_append]
    rfl
  aborted := fun _ => hr

theorem keeps_stepReader {s : XnackMonitor} {trace : List XnackDeed} (h : Inv s trace) (succeeds : Bool) :
    Keeps s (s.stepReader succeeds).1 (s.stepReader succeeds).2 := by
  have hrefl := Keeps.refl h.place h.aborted
  unfold stepReader
  cases hreader : s.reader with
  | absent => exact hrefl
  | opening =>
      cases succeeds with
      | true =>
          exact keeps_reader h nofun (by simp [hreader]) nofun (by simp [hreader, held])
            (by simp [owed])
      | false =>
          exact keeps_reader h (by simp) (by simp [hreader]) nofun (by simp [hreader, held])
            (by simp [owed])
  | reading =>
      cases succeeds with
      | true =>
          show Keeps s { s with reader := if s.running then .handling else .leaving } []
          refine keeps_reader h nofun (by simp [hreader]) ?_ ?_ ?_
          · split <;> exact nofun
          · rw [hreader]
            split <;> rfl
          · intro hrunning
            simp [hrunning, owed]
      | false =>
          simp only [Bool.false_eq_true, if_false]
          split
          · exact hrefl
          · exact keeps_reader h nofun (by simp [hreader]) nofun (by simp [hreader, held])
              (by simp [owed])
  | handling =>
      cases succeeds with
      | true =>
          exact keeps_reader h (by simp) (by simp [hreader]) nofun (by simp [hreader, held])
            (by simp [hreader, owed])
      | false =>
          exact keeps_reader h nofun (by simp [hreader]) nofun (by simp [hreader, held])
            (by simp [owed])
  | leaving =>
      have hdescriptors := h.descriptors
      rw [hreader, held] at hdescriptors
      refine keeps_reader h nofun (by simp [hreader]) nofun ?_ (by simp [owed])
      rw [hreader]
      show s.descriptors - 1 + 1 = s.descriptors + 0 + 0
      omega
  | closed =>
      exact
        { within := nofun
          place := h.place
          descriptors := by rw [hreader]; rfl
          child := id
          reader := iff_of_false nofun (by simp [hreader])
          silent := fun _ => List.not_mem_nil
          late := fun _ => ⟨rfl, Nat.zero_le _⟩
          ending := fun hending => ⟨hending.inside, hending.free⟩
          toChild := List.not_mem_nil
          answered := List.append_nil _
          aborted := fun _ => nofun }
  | finished => exact hrefl

/-! ### The owner -/

/-- What the owner does to the process. -/
def IsSignal (d : XnackDeed) : Prop := d = .sigterm true ∨ (∃ b, d = .polled b) ∨ ∃ b, d = .sigkill b

theorem IsSignal.within {d : XnackDeed} (h : IsSignal d) : Within d := by
  rcases h with rfl | ⟨b, rfl⟩ | ⟨b, rfl⟩ <;> exact ⟨nofun, nofun, fun ⟨_, heq⟩ => nomatch heq⟩

theorem IsSignal.ne {d : XnackDeed} (h : IsSignal d) : d ≠ .unread ∧ d ≠ .reported ∧ d ≠ .sigterm false := by
  rcases h with rfl | ⟨b, rfl⟩ | ⟨b, rfl⟩ <;> exact ⟨nofun, nofun, nofun⟩

/-- The owner goes on in `Stop`. -/
theorem keeps_owner {s : XnackMonitor} {o : XnackOwner} {c : Bpftrace} {ds : List XnackDeed}
    (hds : ∀ d ∈ ds, IsSignal d)
    (ho : o ≠ .outside ∧ o ≠ .aborted) (hplace : Place o c) (habsent : s.child = .absent → c = .absent)
    (hfree : o = .waiting → ¬ c.Lives)
    (hanswered : s.unsent ++ ds.filterMap polled? =
      ds.filterMap stray? ++ unsent { s with owner := o, child := c }) :
    Keeps s { s with owner := o, child := c } ds where
  within := fun d hd => (hds d hd).within
  place := hplace
  descriptors := by
    rw [List.count_eq_zero_of_not_mem fun hmem => (hds _ hmem).ne.1 rfl]
    rfl
  child := habsent
  reader := Iff.rfl
  silent := fun _ hmem => (hds _ hmem).ne.2.1 rfl
  late := fun hrunning => by
    rw [List.count_eq_zero_of_not_mem fun hmem => (hds _ hmem).ne.2.1 rfl]
    exact ⟨hrunning, Nat.le_of_eq (Nat.zero_add _)⟩
  ending := fun _ => ⟨ho, hfree⟩
  toChild := fun hmem => (hds _ hmem).ne.2.2 rfl
  answered := hanswered
  aborted := fun haborted => absurd haborted ho.2

theorem unsent_eq_nil {s : XnackMonitor} (h : s.owner ≠ .killing) : s.unsent = [] := if_neg h

theorem keeps_stepOwner {s : XnackMonitor} {trace : List XnackDeed} (h : Inv s trace)
    (howner : s.owner ≠ .joining) : Keeps s s.stepOwner.1 s.stepOwner.2 := by
  have hplace := h.place
  have hrefl := Keeps.refl h.place h.aborted
  unfold stepOwner
  cases hown : s.owner with
  | outside => exact hrefl
  | terminating =>
      rw [hown] at hplace
      have hchild : s.child.isOwn = true := hplace
      simp only [hchild]
      refine keeps_owner (c := s.child) (by simp [IsSignal]) ⟨nofun, nofun⟩ hchild id nofun ?_
      rw [unsent_eq_nil (by simp [hown])]
      rfl
  | napping =>
      rw [hown] at hplace
      have hnone : s.unsent = [] := unsent_eq_nil (by simp [hown])
      have hchild : s.child.isOwn = true := hplace
      simp only
      split
      · next hzombie =>
          refine keeps_owner (by simp [IsSignal]) ⟨nofun, nofun⟩ nofun (by simp [hzombie]) nofun ?_
          rw [hnone]
          rfl
      · next hzombie =>
          refine keeps_owner (c := s.child) (by simp [IsSignal]) ⟨nofun, nofun⟩ ?_ id nofun ?_
          · intro habsent
            rw [habsent] at hchild
            cases hchild
          · have hnot : s.child ≠ .reaped := by
              intro hreaped
              rw [hreaped] at hchild
              cases hchild
            rw [hnone]
            show [false] = [decide (s.child = .reaped)]
            rw [decide_eq_false hnot]
  | killing =>
      rw [hown] at hplace
      have hstray : (!s.child.isOwn) = decide (s.child = .reaped) := by
        cases hchild : s.child with
        | absent => exact absurd hchild hplace
        | alive => rfl
        | silent => rfl
        | zombie => rfl
        | reaped => rfl
      refine keeps_owner (by simp [IsSignal]) ⟨nofun, nofun⟩ trivial ended_eq_absent.2
        (fun _ => not_lives_ended _) ?_
      rw [unsent, if_pos hown]
      show [decide (s.child = .reaped)] = [!s.child.isOwn]
      rw [hstray]
  | waiting =>
      simp only
      split
      · exact hrefl
      · refine keeps_owner nofun ⟨nofun, nofun⟩ rfl (fun _ => rfl) nofun ?_
        rw [unsent_eq_nil (by simp [hown])]
        rfl
  | joining => exact absurd hown howner
  | aborted => exact hrefl

/-! ## The beginning and the end of a call -/

theorem Inv.answered_snoc {s s' : XnackMonitor} {trace : List XnackDeed} {d : XnackDeed} (h : Inv s trace)
    (howner : s.owner ≠ .killing) (howner' : s'.owner ≠ .killing) (hd : polled? d = none ∧ stray? d = none) :
    (trace ++ [d]).filterMap polled? = (trace ++ [d]).filterMap stray? ++ s'.unsent := by
  have hanswered := h.answered
  rw [unsent_eq_nil howner, List.append_nil] at hanswered
  rw [unsent_eq_nil howner', List.append_nil, List.filterMap_append, List.filterMap_append, hanswered,
    List.filterMap_cons_none hd.1, List.filterMap_cons_none hd.2]
  rfl

theorem inv_joined {s : XnackMonitor} {trace : List XnackDeed} (h : Inv s trace)
    (howner : s.owner = .joining) (hreader : s.reader = .absent ∨ s.reader = .finished) :
    Inv { s with owner := .outside, reader := .absent } (trace ++ [.stopped]) where
  place := by
    have hplace := h.place
    rw [howner] at hplace
    exact .inl hplace
  descriptors := by
    have hdescriptors := h.descriptors
    have hheld : held s.reader = 0 := by rcases hreader with hr | hr <;> rw [hr] <;> rfl
    rw [hheld] at hdescriptors
    simpa [held] using hdescriptors
  stopped := by
    intro mid hmid
    have hplace := h.place
    rw [howner] at hplace
    refine ⟨hplace, rfl, fun hreported => ?_⟩
    rcases Trace.since_append.1 hmid with hmid | ⟨mid, rfl, hmid, -⟩
    · rw [(Trace.since_singleton.1 hmid).2] at hreported
      cases hreported
    · exact (h.stopped mid hmid).2.2 (by simpa using hreported)
  late := by
    intro mid hmid
    obtain ⟨mid', rfl, hbefore⟩ := hmid.of_append (by simp [IsStopping])
    obtain ⟨hrunning, hcount⟩ := h.late mid' hbefore
    exact ⟨hrunning, by simpa [owed] using Nat.le_of_add_right_le hcount⟩
  ending := by
    intro mid hmid
    rcases Trace.since_append.1 hmid with hmid | ⟨_, -, -, hreset⟩
    · exact nomatch (Trace.since_singleton.1 hmid).1
    · exact absurd rfl (hreset _ List.mem_cons_self)
  toChild := by simpa using h.toChild
  answered := h.answered_snoc (by simp [howner]) (by simp) ⟨rfl, rfl⟩
  joinable := fun hr => absurd rfl hr
  aborted := nofun

theorem inv_started {s : XnackMonitor} {trace : List XnackDeed} (h : Inv s trace)
    (howner : s.owner = .outside) (hreader : s.reader = .absent) :
    Inv { s with child := .alive, reader := .opening, running := true, descriptors := s.descriptors + 1 }
      (trace ++ [.started]) where
  place := by
    rw [howner]
    exact .inr rfl
  descriptors := by
    have hdescriptors := h.descriptors
    rw [hreader] at hdescriptors
    simpa [held] using hdescriptors
  stopped := by
    intro mid hmid
    rcases Trace.since_append.1 hmid with hmid | ⟨_, -, -, hreset⟩
    · exact nomatch (Trace.since_singleton.1 hmid).1
    · exact absurd rfl (hreset _ List.mem_cons_self)
  late := by
    intro mid hmid
    rcases Trace.since_append.1 hmid with hmid | ⟨_, -, -, hreset⟩
    · obtain ⟨_, heq⟩ := (Trace.since_singleton.1 hmid).1
      cases heq
    · exact absurd rfl (hreset _ List.mem_cons_self)
  ending := by
    intro mid hmid
    obtain ⟨mid', rfl, hbefore⟩ := hmid.of_append (by simp)
    exact absurd howner (h.ending mid' hbefore).inside.1
  toChild := by simpa using h.toChild
  answered := h.answered_snoc (by simp [howner]) (by simp [howner]) ⟨rfl, rfl⟩
  joinable := fun _ => ⟨[], Trace.since_append.2 (.inl (Trace.since_singleton.2 ⟨rfl, rfl⟩))⟩
  aborted := fun _ => nofun

theorem inv_aborted {s : XnackMonitor} {trace : List XnackDeed} (h : Inv s trace)
    (howner : s.owner = .outside) (hreader : s.reader ≠ .absent) :
    Inv { s with owner := .aborted } (trace ++ []) := by
  rw [List.append_nil]
  exact
    { place := trivial
      descriptors := h.descriptors
      stopped := h.stopped
      late := h.late
      ending := fun mid hmid => absurd howner (h.ending mid hmid).inside.1
      toChild := h.toChild
      answered := by rw [h.answered, unsent_eq_nil (by simp [howner]), unsent_eq_nil (by simp)]
      joinable := h.joinable
      aborted := fun _ => hreader }

theorem inv_start {s : XnackMonitor} {trace : List XnackDeed} (h : Inv s trace) (succeeds : Bool) :
    Inv (s.start succeeds).1 (trace ++ (s.start succeeds).2) := by
  have hsame := h.seen (Keeps.refl h.place h.aborted)
  unfold start
  split
  · next howner =>
      cases succeeds with
      | false => exact hsame
      | true =>
          rw [if_pos rfl]
          split
          · next hreader => exact inv_started h howner hreader
          · next hreader => exact inv_aborted h howner hreader
  · exact hsame

theorem inv_stopping {s : XnackMonitor} {trace : List XnackDeed} (h : Inv s trace)
    (howner : s.owner = .outside) {o : XnackOwner} (hplace : Place o s.child)
    (ho : o ≠ .outside ∧ o ≠ .aborted ∧ o ≠ .killing)
    (hwaiting : s.running = true → o ≠ .waiting) (hlate : owed s.reader ≤ 1) :
    Inv { s with running := false, owner := o } (trace ++ [.stopping s.running]) where
  place := hplace
  descriptors := by simpa using h.descriptors
  stopped := by
    intro mid hmid
    obtain ⟨mid', rfl, hbefore⟩ := hmid.of_append (by simp)
    simpa using h.stopped mid' hbefore
  late := by
    intro mid hmid
    refine ⟨rfl, ?_⟩
    rcases Trace.since_append.1 hmid with hmid | ⟨mid, rfl, hmid, -⟩
    · rw [(Trace.since_singleton.1 hmid).2]
      simpa using hlate
    · simpa using (h.late mid hmid).2
  ending := by
    intro mid hmid
    rcases Trace.since_append.1 hmid with hmid | ⟨mid, rfl, hmid, -⟩
    · have hrunning : s.running = true := by simpa using (Trace.since_singleton.1 hmid).1
      exact ⟨⟨ho.1, ho.2.1⟩, fun hw => absurd hw (hwaiting hrunning)⟩
    · exact absurd howner (h.ending mid hmid).inside.1
  toChild := by simpa using h.toChild
  answered := h.answered_snoc (by simp [howner]) ho.2.2 ⟨rfl, rfl⟩
  joinable := by
    intro hreader
    obtain ⟨mid, hmid⟩ := h.joinable hreader
    exact ⟨_, hmid.append (by simp)⟩
  aborted := fun haborted => absurd haborted ho.2.1

theorem owed_le (r : XnackReader) : owed r ≤ 1 := by
  cases r <;> decide

theorem inv_stop {s : XnackMonitor} {trace : List XnackDeed} (h : Inv s trace) :
    Inv s.stop.1 (trace ++ s.stop.2) := by
  unfold stop
  split
  · next howner =>
      have hplace := h.place
      rw [howner] at hplace
      refine inv_stopping h howner ?_ ?_ ?_ (owed_le _)
      · split
        · next habsent => exact habsent
        · next hchild =>
            split
            · exact hplace.resolve_left hchild
            · trivial
      · split_ifs <;> exact ⟨nofun, nofun, nofun⟩
      · intro hrunning
        rw [if_pos hrunning]
        split <;> exact nofun
  · exact h.seen (Keeps.refl h.place h.aborted)

theorem inv_stepOwner {s : XnackMonitor} {trace : List XnackDeed} (h : Inv s trace) :
    Inv s.stepOwner.1 (trace ++ s.stepOwner.2) := by
  by_cases howner : s.owner = .joining
  · unfold stepOwner
    rw [howner]
    simp only
    split
    · next hreader => exact inv_joined h howner hreader
    · exact h.seen (Keeps.refl h.place h.aborted)
  · exact h.seen (keeps_stepOwner h howner)

/-- **Every step keeps the invariant.** -/
theorem inv_step {s : XnackMonitor} {trace : List XnackDeed} (m : XnackMove) (h : Inv s trace) :
    Inv (s.step m).1 (trace ++ (s.step m).2) := by
  unfold step
  split
  · exact h.seen (Keeps.refl h.place h.aborted)
  · cases m with
    | start succeeds => exact inv_start h succeeds
    | stop => exact inv_stop h
    | owner => exact inv_stepOwner h
    | reader succeeds => exact h.seen (keeps_stepReader h succeeds)
    | closesOutput => exact h.seen (keeps_closesOutput h)
    | exits => exact h.seen (keeps_exits h)

/-- A run of a new monitor. -/
def trace (ms : List XnackMove) : List XnackDeed := (Trace.run step {} ms).2

def final (ms : List XnackMove) : XnackMonitor := (Trace.run step {} ms).1

theorem inv_run (ms : List XnackMove) : Inv (final ms) (trace ms) :=
  Trace.run_invariant Inv inv_init (fun _ _ m h => inv_step m h) ms

/-! ## Returning -/

/-- `Stop` goes on, the thread comes to the end of the output, and is joined. -/
def finish : List XnackMove :=
  List.replicate 4 .owner ++ (List.replicate 4 (.reader false) ++ [.owner])

/-- How far `Stop` is from the join, when bpftrace is not what it waits for. -/
def StepsToJoin : Nat → XnackMonitor → Prop
  | 0, s => s.owner = .outside ∨ s.owner = .joining ∧ s.child = .absent
  | 1, s => s.owner = .waiting ∧ ¬ s.child.Lives
  | 2, s => s.owner = .killing
  | 3, s => s.owner = .napping
  | 4, s => s.owner = .terminating
  | _, _ => False

/-- How far the thread is from its end, when the output has ended. -/
def StepsToEnd : Nat → XnackReader → Prop
  | 0, r => r = .absent ∨ r = .finished
  | 1, r => r = .closed
  | 2, r => r = .leaving ∨ r = .opening
  | 3, r => r = .reading
  | 4, r => r = .handling
  | _, _ => False

/-- In `join`, with the thread so far from its end. -/
def Joining (n : Nat) (s : XnackMonitor) : Prop :=
  s.owner = .joining ∧ s.child = .absent ∧ StepsToEnd n s.reader

theorem stepsToJoin_owner {n : Nat} {s : XnackMonitor} (h : StepsToJoin (n + 1) s) :
    StepsToJoin n (s.step .owner).1 := by
  match n, h with
  | 0, ⟨howner, hfree⟩ =>
      have hlives : ¬ (s.child = .alive ∨ s.child = .silent) := hfree
      have hstep : (s.step .owner).1 = { s with owner := .joining, child := .absent } := by
        simp only [step, move, stepOwner, howner, if_neg hlives]
      rw [hstep]
      exact .inr ⟨rfl, rfl⟩
  | 1, howner =>
      have howner : s.owner = .killing := howner
      simp only [step, move, stepOwner, howner]
      exact ⟨rfl, not_lives_ended _⟩
  | 2, howner =>
      have howner : s.owner = .napping := howner
      simp only [step, move, stepOwner, howner]
      split <;> rfl
  | 3, howner =>
      have howner : s.owner = .terminating := howner
      simp only [step, move, stepOwner, howner]
      rfl
  | n + 4, hfalse => exact False.elim hfalse

theorem stepsToJoin_zero {s : XnackMonitor} (h : StepsToJoin 0 s) : StepsToJoin 0 (s.step .owner).1 := by
  rcases h with howner | ⟨howner, hchild⟩
  · left
    simp only [step, move, stepOwner, howner]
  · simp only [step, move, stepOwner, howner]
    split
    · exact .inl rfl
    · exact .inr ⟨howner, hchild⟩

theorem joining_reader {n : Nat} {s : XnackMonitor} (h : Joining (n + 1) s) :
    Joining n (s.step (.reader false)).1 := by
  obtain ⟨howner, hchild, hreader⟩ := h
  have halive : s.child ≠ .alive := by simp [hchild]
  match n, hreader with
  | 0, hreader =>
      have hreader : s.reader = .closed := hreader
      simp only [step, move, stepReader, howner, hreader]
      exact ⟨rfl, hchild, .inr rfl⟩
  | 1, hreader =>
      rcases hreader with hreader | hreader
      · simp only [step, move, stepReader, howner, hreader]
        exact ⟨rfl, hchild, rfl⟩
      · simp only [step, move, stepReader, howner, hreader, Bool.false_eq_true, if_false]
        exact ⟨rfl, hchild, rfl⟩
  | 2, hreader =>
      have hreader : s.reader = .reading := hreader
      simp only [step, move, stepReader, howner, hreader, Bool.false_eq_true, if_false, if_neg halive]
      exact ⟨rfl, hchild, .inl rfl⟩
  | 3, hreader =>
      have hreader : s.reader = .handling := hreader
      simp only [step, move, stepReader, howner, hreader]
      exact ⟨rfl, hchild, rfl⟩
  | n + 4, hfalse => exact False.elim hfalse

theorem joining_zero {s : XnackMonitor} (h : Joining 0 s) : Joining 0 (s.step (.reader false)).1 := by
  obtain ⟨howner, hchild, hreader⟩ := h
  rcases hreader with hreader | hreader
  · simp only [step, move, stepReader, howner, hreader]
    exact ⟨howner, hchild, .inl hreader⟩
  · simp only [step, move, stepReader, howner, hreader]
    exact ⟨howner, hchild, .inr hreader⟩

/-- The thread is alone with its own place, the pipe and `running_`. -/
theorem stepReader_frame (s : XnackMonitor) (succeeds : Bool) :
    (s.stepReader succeeds).1.owner = s.owner ∧ (s.stepReader succeeds).1.child = s.child := by
  unfold stepReader
  cases s.reader with
  | opening => cases succeeds <;> exact ⟨rfl, rfl⟩
  | reading =>
      cases succeeds with
      | true => exact ⟨rfl, rfl⟩
      | false =>
          simp only [Bool.false_eq_true, if_false]
          split <;> exact ⟨rfl, rfl⟩
  | _ => exact ⟨rfl, rfl⟩

theorem outside_reader {s : XnackMonitor} (h : s.owner = .outside) :
    (s.step (.reader false)).1.owner = .outside := by
  simp only [step, move, h]
  rw [(s.stepReader_frame false).1, h]

/-- Every thread has its distance. -/
theorem exists_stepsToEnd (r : XnackReader) : ∃ n ≤ 4, StepsToEnd n r := by
  cases r with
  | absent => exact ⟨0, by omega, .inl rfl⟩
  | opening => exact ⟨2, by omega, .inr rfl⟩
  | reading => exact ⟨3, by omega, rfl⟩
  | handling => exact ⟨4, by omega, rfl⟩
  | leaving => exact ⟨2, by omega, .inl rfl⟩
  | closed => exact ⟨1, by omega, rfl⟩
  | finished => exact ⟨0, by omega, .inr rfl⟩

/-- So has every `Stop` that does not wait for bpftrace. -/
theorem exists_stepsToJoin {s : XnackMonitor} (hplace : Place s.owner s.child) (haborted : s.owner ≠ .aborted)
    (hfree : s.owner = .waiting → ¬ s.child.Lives) : ∃ n ≤ 4, StepsToJoin n s := by
  cases howner : s.owner with
  | outside => exact ⟨0, by omega, .inl howner⟩
  | terminating => exact ⟨4, by omega, howner⟩
  | napping => exact ⟨3, by omega, howner⟩
  | killing => exact ⟨2, by omega, howner⟩
  | waiting => exact ⟨1, by omega, howner, hfree howner⟩
  | joining =>
      rw [howner] at hplace
      exact ⟨0, by omega, .inr ⟨howner, hplace⟩⟩
  | aborted => exact absurd howner haborted

theorem outside_finish {s : XnackMonitor} (hplace : Place s.owner s.child) (haborted : s.owner ≠ .aborted)
    (hfree : s.owner = .waiting → ¬ s.child.Lives) : (Trace.run step s finish).1.owner = .outside := by
  obtain ⟨n, hn, hsteps⟩ := exists_stepsToJoin hplace haborted hfree
  have hjoin := Trace.run_replicate_rank StepsToJoin (fun _ _ h => stepsToJoin_owner h)
    (fun _ h => stepsToJoin_zero h) hsteps hn
  rw [finish, Trace.run_append, Trace.run_snoc]
  generalize (Trace.run step s (List.replicate 4 .owner)).1 = t at hjoin
  rcases hjoin with howner | ⟨howner, hchild⟩
  · have houtside := Trace.run_replicate_rank (fun _ (t : XnackMonitor) => t.owner = .outside)
      (fun _ _ h => outside_reader h) (fun _ h => outside_reader h) howner (Nat.zero_le 4)
    simp only [step, move, stepOwner, houtside]
  · obtain ⟨k, hk, hreader⟩ := exists_stepsToEnd t.reader
    obtain ⟨howner, hchild, hreader⟩ := Trace.run_replicate_rank Joining (fun _ _ h => joining_reader h)
      (fun _ h => joining_zero h) ⟨howner, hchild, hreader⟩ hk
    have hends : _ ∨ _ := hreader
    simp only [step, move, stepOwner, howner, if_pos hends]

/-- As long as bpftrace lives, a `Stop` that waits for it goes on waiting. -/
theorem run_waiting {s : XnackMonitor} (howner : s.owner = .waiting) (hlives : s.child.Lives)
    {ms : List XnackMove} (hms : .exits ∉ ms) : (Trace.run step s ms).1.owner = .waiting := by
  have halong : Trace.Along step (fun _ m => m ≠ .exits) s ms :=
    Trace.Along.of_forall_mem fun m hm heq => hms (heq ▸ hm)
  refine (Trace.run_invariant_state (fun t => t.owner = .waiting ∧ t.child.Lives) ⟨howner, hlives⟩ ?_
    halong).1
  rintro t m ⟨ht, hlive⟩ hm
  cases m with
  | start succeeds =>
      simp only [step, move, start, ht]
      exact ⟨trivial, hlive⟩
  | stop =>
      simp only [step, move, stop, ht]
      exact ⟨trivial, hlive⟩
  | owner =>
      have hif : t.child = .alive ∨ t.child = .silent := hlive
      simp only [step, move, stepOwner, ht, if_pos hif]
      exact ⟨trivial, hlive⟩
  | reader succeeds =>
      obtain ⟨howner, hchild⟩ := t.stepReader_frame succeeds
      simp only [step, move, ht]
      rw [howner, hchild]
      exact ⟨ht, hlive⟩
  | closesOutput =>
      simp only [step, move, ht]
      refine ⟨trivial, ?_⟩
      split
      · exact .inr rfl
      · exact hlive
  | exits => exact absurd rfl hm

end XnackMonitor

/-- **What holds of every run.** -/
structure XnackSafe (s : XnackMonitor) (trace : List XnackDeed) : Prop where
  /-- When `Stop` has returned, there is no bpftrace and no thread, no read end but for those that `fdopen`
      refused, and nothing is reported any more. -/
  released : ∀ mid, Trace.Since (· = .stopped) (· = .started) trace mid →
    s.child = .absent ∧ s.reader = .absent ∧ s.descriptors = trace.count .unread ∧ .reported ∉ mid
  /-- From the call of `Stop` on, at most the line is reported that was read before. -/
  late : ∀ mid, Trace.Since XnackMonitor.IsStopping (· = .started) trace mid → mid.count .reported ≤ 1
  sigterm : .sigterm false ∉ trace
  /-- A SIGKILL follows each answer of `waitpid`, and goes to another process if that was bpftrace. -/
  sigkill : trace.filterMap XnackMonitor.polled? = trace.filterMap XnackMonitor.stray? ++ s.unsent
  /-- A `Stop` that found the monitor running returns. -/
  ends : ∀ mid, Trace.Since (· = .stopping true) (· = .stopped) trace mid →
    (Trace.run XnackMonitor.step s XnackMonitor.finish).1.owner = .outside
  /-- Another returns once bpftrace has exited, -/
  returns : s.owner ≠ .aborted →
    (Trace.run XnackMonitor.step s (.exits :: XnackMonitor.finish)).1.owner = .outside
  /-- and, if it waits for it, not before. -/
  waits : s.owner = .waiting → s.child.Lives → ∀ ms, .exits ∉ ms →
    (Trace.run XnackMonitor.step s ms).1.owner = .waiting
  /-- The program is ended only by a `Start` between a `Start` and its `Stop`. -/
  aborts : s.owner = .aborted → ∃ mid, Trace.Since (· = .started) (· = .stopped) trace mid

/-- Where bpftrace ends by itself between two steps of `Stop`, SIGKILL goes to whichever process has its
    number by then. -/
example : .sigkill false ∈ XnackMonitor.trace
    [.start true, .stop, .owner, .exits, .owner, .owner] := by decide

end HsaSnoop
