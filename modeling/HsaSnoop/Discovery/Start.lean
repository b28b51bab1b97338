import HsaSnoop.Discovery.Reassembly

set_option autoImplicit false

/-! # Starting discovery, and what a failed start leaves behind

`Discovery::Start` acquires resources step by step, in a different order in each mode: a kprobe and the
tracing switch, or a script, a pipe and a bpftrace child. Every step can fail. `Stop`, which the destructor
calls, does nothing unless discovery is running, so a start that fails has to release what it has acquired.

`StartCalls` says how each system call of a start turns out; calls that clean up succeed.
`failedStart_clean_iff` says for which of them nothing is left. -/

namespace HsaSnoop

inductive DiscoveryMode
  | kprobe
  | bpftrace
  | kfdUprobe
  deriving DecidableEq, Repr

/-! ## Resources -/

/-- What a start can leave in the system. -/
structure Acquired where
  /-- The kprobe is defined. -/
  kprobe : Bool := false
  /-- What `tracing_on` holds. -/
  tracingOn : Bytes
  /-- The bpftrace script is on disk. -/
  script : Bool := false
  /-- There is a child, running or not, that was not waited for. -/
  child : Bool := false
  /-- Open descriptors of pipes. -/
  pipes : Nat := 0
  deriving DecidableEq, Repr

/-- Nothing is left, and the switch is as it was. -/
structure Acquired.Clean (a : Acquired) (tracingOn : Bytes) : Prop where
  kprobe : a.kprobe = false
  tracingOn : a.tracingOn = tracingOn
  script : a.script = false
  child : a.child = false
  pipes : a.pipes = 0

/-- `Discovery`: what it was made with, and what `Start` and `Stop` work on. Of the descriptor, the child
    and the path of the script it matters whether there is one. -/
structure Discovery where
  mode : DiscoveryMode
  librocdxgPath : Bytes := []
  libhsaPath : Bytes := []
  running : Bool := false
  pipeFd : Bool := false
  bpfPid : Bool := false
  bpfOutpath : Bool := false
  bpfPrebuf : Bytes := []
  tracingOnChanged : Bool := false
  /-- The system. -/
  acquired : Acquired

/-- How the system calls of a start turn out. -/
structure StartCalls where
  /-- Writing the definition of the kprobe. -/
  define : Bool
  enable : Bool
  readTracingOn : Bool
  writeTracingOn : Bool
  openTracePipe : Bool
  /-- The library to be probed is there. -/
  fileExists : Bool
  mkstemps : Bool
  /-- Writing the script. -/
  write : Bool
  pipe : Bool
  fork : Bool
  /-- The turns of the arm loop of `StartKfdUprobe`, until the deadline. -/
  polls : List ArmPoll
  /-- The turns of the arm loop of `StartBpftrace`, until the deadline. -/
  turns : List ArmTurn

namespace Discovery

/-! ## kprobe mode -/

def removeKprobe (d : Discovery) : Discovery :=
  let d := { d with acquired.kprobe := false }
  -- Restore the switch only if it was turned on here.
  if d.tracingOnChanged then { d with acquired.tracingOn := str "0", tracingOnChanged := false } else d

def installKprobe (d : Discovery) (calls : StartCalls) : Bool × Discovery :=
  let d := { d with acquired.kprobe := false }
  if !calls.define then (false, d)
  else
    let d := { d with acquired.kprobe := true }
    if !calls.enable then (false, d.removeKprobe)
    else if (if calls.readTracingOn then d.acquired.tracingOn else []) = str "0" then
      if calls.writeTracingOn then
        (true, { d with acquired.tracingOn := str "1", tracingOnChanged := true })
      else (true, d)
    else (true, d)

/-! ## bpftrace modes -/

def startKfdUprobe (d : Discovery) (calls : StartCalls) : Bool × Discovery :=
  if d.libhsaPath = [] then (false, d)
  else if !calls.fileExists then (false, d)
  else if !calls.mkstemps then (false, d)
  else
    let d := { d with acquired.script := true }
    if !calls.write then (false, { d with acquired.script := false })
    else
      let d := { d with bpfOutpath := true }
      if !calls.pipe then (false, { d with acquired.script := false })
      else
        let d := { d with acquired.pipes := d.acquired.pipes + 2 }
        if !calls.fork then
          (false, { d with acquired.pipes := d.acquired.pipes - 2, acquired.script := false,
                           bpfPid := false })
        else
          let d := { d with acquired.child := true, bpfPid := true }
          let d := { d with acquired.pipes := d.acquired.pipes - 1, pipeFd := true }
          match armKfdUprobe calls.polls [] with
          | none => (false, { d with acquired.pipes := d.acquired.pipes - 1, pipeFd := false })
          | some pre => (true, { d with bpfPrebuf := pre })

def startBpftrace (d : Discovery) (calls : StartCalls) : Bool × Discovery :=
  if d.librocdxgPath = [] then (false, d)
  else if !calls.fileExists then (false, d)
  else if !calls.mkstemps then (false, d)
  else
    let d := { d with acquired.script := true }
    if !calls.write then (false, { d with acquired.script := false })
    else if !calls.pipe then (false, { d with acquired.script := false })
    else
      let d := { d with acquired.pipes := d.acquired.pipes + 2 }
      if !calls.fork then
        (false, { d with acquired.pipes := d.acquired.pipes - 2, acquired.script := false, bpfPid := false })
      else
        let d := { d with acquired.child := true, bpfPid := true }
        let d := { d with acquired.pipes := d.acquired.pipes - 1, pipeFd := true }
        match armBpftrace calls.turns d.bpfPrebuf with
        | none =>
            -- The child has exited, and was waited for.
            (false, { d with acquired.child := false, acquired.pipes := d.acquired.pipes - 1,
                             acquired.script := false, pipeFd := false, bpfPid := false })
        | some pre => (true, { d with acquired.script := false, bpfPrebuf := pre })

/-! ## Starting and stopping -/

def start (d : Discovery) (calls : StartCalls) : Bool × Discovery :=
  match d.mode with
  | .bpftrace =>
      let r := d.startBpftrace calls
      if !r.1 then (false, r.2) else (true, { r.2 with running := true })
  | .kfdUprobe =>
      let r := d.startKfdUprobe calls
      if !r.1 then (false, r.2) else (true, { r.2 with running := true })
  | .kprobe =>
      let r := d.installKprobe calls
      if !r.1 then (false, r.2)
      else if !calls.openTracePipe then (false, r.2.removeKprobe)
      else
        (true, { r.2 with pipeFd := true, acquired.pipes := r.2.acquired.pipes + 1, running := true })

def stop (d : Discovery) : Discovery :=
  if !d.running then d
  else
    let d := { d with running := false }
    let d :=
      match d.mode with
      | .kprobe => d.removeKprobe
      | _ =>
          let d := if d.bpfPid then { d with acquired.child := false, bpfPid := false } else d
          if d.bpfOutpath then { d with acquired.script := false, bpfOutpath := false } else d
    if d.pipeFd then { d with acquired.pipes := d.acquired.pipes - 1, pipeFd := false } else d

/-! ## What is left -/

/-- A new object, in a system where nothing was acquired for it. -/
def new (mode : DiscoveryMode) (librocdxgPath libhsaPath tracingOn : Bytes) : Discovery :=
  { mode := mode, librocdxgPath := librocdxgPath, libhsaPath := libhsaPath,
    acquired := { tracingOn := tracingOn } }

/-- **A failed start leaves nothing behind**, once the object is destroyed. -/
def LeavesNothing (d : Discovery) (calls : StartCalls) : Prop :=
  (d.start calls).1 = false → (d.start calls).2.stop.acquired.Clean d.acquired.tracingOn

/-- Nothing to stop, and nothing left. -/
def Released (d : Discovery) (tracingOn : Bytes) : Prop :=
  d.running = false ∧ d.acquired.Clean tracingOn

variable {librocdxgPath libhsaPath tracingOn : Bytes}

theorem stop_of_not_running {d : Discovery} (h : d.running = false) : d.stop = d := by
  rw [stop, h]
  rfl

theorem Released.clean_stop {d : Discovery} (h : d.Released tracingOn) : d.stop.acquired.Clean tracingOn := by
  rw [stop_of_not_running h.1]
  exact h.2

theorem released_new (mode : DiscoveryMode) :
    (new mode librocdxgPath libhsaPath tracingOn).Released tracingOn :=
  ⟨rfl, rfl, rfl, rfl, rfl, rfl⟩

/-- What installing can do: fail to define the kprobe; define it, fail to enable it and remove it; or
    succeed, and perhaps turn the switch on. -/
theorem installKprobe_cases (d : Discovery) (calls : StartCalls) :
    d.installKprobe calls = (false, { d with acquired.kprobe := false }) ∨
      d.installKprobe calls = (false, removeKprobe { d with acquired.kprobe := true }) ∨
      d.installKprobe calls = (true, { d with acquired.kprobe := true }) ∨
      d.acquired.tracingOn = str "0" ∧
        d.installKprobe calls =
          (true, { d with acquired.kprobe := true, acquired.tracingOn := str "1",
                          tracingOnChanged := true }) := by
  have hread : ∀ {token : Bytes},
      (if calls.readTracingOn then token else []) = str "0" → token = str "0" := by
    intro token htoken
    split at htoken
    · exact htoken
    · exact absurd htoken (by decide)
  by_cases hdefine : calls.define = true
  · by_cases henable : calls.enable = true
    · by_cases hoff : (if calls.readTracingOn then d.acquired.tracingOn else []) = str "0"
      · by_cases hwrite : calls.writeTracingOn = true
        · refine .inr (.inr (.inr ⟨hread hoff, ?_⟩))
          simp only [installKprobe, hdefine, henable, hoff, hwrite, if_true, Bool.not_true,
            if_neg Bool.false_ne_true]
        · refine .inr (.inr (.inl ?_))
          simp only [installKprobe, hdefine, henable, hoff, if_neg hwrite, if_true, Bool.not_true,
            if_neg Bool.false_ne_true]
      · refine .inr (.inr (.inl ?_))
        simp only [installKprobe, hdefine, henable, if_neg hoff, Bool.not_true, if_neg Bool.false_ne_true]
    · refine .inr (.inl ?_)
      simp [installKprobe, hdefine, henable]
  · refine .inl ?_
    simp [installKprobe, hdefine]

theorem released_installKprobe (mode : DiscoveryMode) {calls : StartCalls}
    (h : ((new mode librocdxgPath libhsaPath tracingOn).installKprobe calls).1 = false) :
    ((new mode librocdxgPath libhsaPath tracingOn).installKprobe calls).2.Released tracingOn := by
  rcases installKprobe_cases (new mode librocdxgPath libhsaPath tracingOn) calls with
    heq | heq | heq | ⟨-, heq⟩
  · rw [heq]
    exact ⟨rfl, rfl, rfl, rfl, rfl, rfl⟩
  · rw [heq]
    exact ⟨rfl, rfl, rfl, rfl, rfl, rfl⟩
  · rw [heq] at h
    cases h
  · rw [heq] at h
    cases h

/-- Removing the kprobe undoes what was installed, also if the switch was turned on. -/
theorem released_removeKprobe (mode : DiscoveryMode) (calls : StartCalls) :
    ((new mode librocdxgPath libhsaPath tracingOn).installKprobe calls).2.removeKprobe.Released
      tracingOn := by
  rcases installKprobe_cases (new mode librocdxgPath libhsaPath tracingOn) calls with
    heq | heq | heq | ⟨hoff, heq⟩
  · rw [heq]
    exact ⟨rfl, rfl, rfl, rfl, rfl, rfl⟩
  · rw [heq]
    exact ⟨rfl, rfl, rfl, rfl, rfl, rfl⟩
  · rw [heq]
    exact ⟨rfl, rfl, rfl, rfl, rfl, rfl⟩
  · rw [heq]
    exact ⟨rfl, rfl, hoff.symm, rfl, rfl, rfl⟩

theorem released_startBpftrace {calls : StartCalls}
    (h : ((new .bpftrace librocdxgPath libhsaPath tracingOn).startBpftrace calls).1 = false) :
    ((new .bpftrace librocdxgPath libhsaPath tracingOn).startBpftrace calls).2.Released tracingOn := by
  generalize hr : (new .bpftrace librocdxgPath libhsaPath tracingOn).startBpftrace calls = r at h ⊢
  simp only [startBpftrace] at hr
  repeat' split at hr
  all_goals
    subst hr
    first
      | exact ⟨rfl, rfl, rfl, rfl, rfl, rfl⟩
      | cases h

/-- bpftrace was started, and closed its output before the deadline without having said that it is
    attaching. -/
structure ClosedEarly (libhsaPath : Bytes) (calls : StartCalls) : Prop where
  path : libhsaPath ≠ []
  fileExists : calls.fileExists = true
  mkstemps : calls.mkstemps = true
  write : calls.write = true
  pipe : calls.pipe = true
  fork : calls.fork = true
  closed : ∃ before after, calls.polls = before ++ .closed :: after ∧ .closed ∉ before ∧
    ¬ contains (before.filterMap ArmPoll.byte?) (str "Attaching")

theorem armKfdUprobe_eq_none_iff {polls : List ArmPoll} {pre : Bytes}
    (hpre : ¬ contains pre (str "Attaching")) :
    armKfdUprobe polls pre = none ↔
      ∃ before after, polls = before ++ .closed :: after ∧ .closed ∉ before ∧
        ¬ contains (pre ++ before.filterMap ArmPoll.byte?) (str "Attaching") := by
  induction polls generalizing pre with
  | nil => simp [armKfdUprobe]
  | cons poll polls ih =>
      -- The turns before the end either are none, or begin with this one.
      cases poll with
      | closed =>
          refine ⟨fun _ => ⟨[], polls, rfl, List.not_mem_nil, ?_⟩, fun _ => rfl⟩
          rwa [List.filterMap_nil, List.append_nil]
      | idle =>
          rw [armKfdUprobe, ih hpre]
          constructor
          · rintro ⟨before, after, rfl, hclosed, hnot⟩
            exact ⟨.idle :: before, after, rfl, by simpa using hclosed, hnot⟩
          · rintro ⟨before, after, heq, hclosed, hnot⟩
            cases before with
            | nil => cases heq
            | cons p before =>
                obtain ⟨rfl, rfl⟩ := List.cons.inj heq
                exact ⟨before, after, rfl, fun h => hclosed (List.mem_cons_of_mem _ h), hnot⟩
      | byte c =>
          rw [armKfdUprobe]
          constructor
          · intro h
            split at h
            · cases h
            · next hc =>
                obtain ⟨before, after, rfl, hclosed, hnot⟩ := (ih hc).1 h
                refine ⟨.byte c :: before, after, rfl, by simpa using hclosed, ?_⟩
                rwa [List.append_assoc] at hnot
          · rintro ⟨before, after, heq, hclosed, hnot⟩
            cases before with
            | nil => cases heq
            | cons p before =>
                obtain ⟨rfl, rfl⟩ := List.cons.inj heq
                have hread : pre ++ (ArmPoll.byte c :: before).filterMap ArmPoll.byte? =
                    pre ++ [c] ++ before.filterMap ArmPoll.byte? := by
                  rw [List.append_assoc]
                  rfl
                rw [hread] at hnot
                have hc : ¬ contains (pre ++ [c]) (str "Attaching") := by
                  intro h
                  exact hnot (contains_iff.2 ((contains_iff.1 h).trans (List.prefix_append _ _).isInfix))
                rw [if_neg hc]
                exact (ih hc).2 ⟨before, after, rfl, fun h => hclosed (List.mem_cons_of_mem _ h), hnot⟩

/-- A start that fails before bpftrace runs has released everything; once it runs, the start fails exactly
    if the arm loop reads the end of the output, and then keeps the child. -/
theorem startKfdUprobe_cases {calls : StartCalls} {ok : Bool} {d : Discovery}
    (h : (new .kfdUprobe librocdxgPath libhsaPath tracingOn).startKfdUprobe calls = (ok, d)) :
    (ok = false ∧ d.Released tracingOn ∧ ¬ ClosedEarly libhsaPath calls) ∨
      (ok = false ∧ d.running = false ∧ d.acquired.child = true ∧ ClosedEarly libhsaPath calls) ∨
      (ok = true ∧ ¬ ClosedEarly libhsaPath calls) := by
  simp only [startKfdUprobe] at h
  split at h
  · next hpath =>
      obtain ⟨rfl, rfl⟩ := Prod.mk.inj h
      exact .inl ⟨rfl, released_new _, fun hearly => hearly.path hpath⟩
  · next hpath =>
  split at h
  · next hexists =>
      obtain ⟨rfl, rfl⟩ := Prod.mk.inj h
      exact .inl ⟨rfl, released_new _, fun hearly => by simp [hearly.fileExists] at hexists⟩
  · next hexists =>
  split at h
  · next hmkstemps =>
      obtain ⟨rfl, rfl⟩ := Prod.mk.inj h
      exact .inl ⟨rfl, released_new _, fun hearly => by simp [hearly.mkstemps] at hmkstemps⟩
  · next hmkstemps =>
  split at h
  · next hwrite =>
      obtain ⟨rfl, rfl⟩ := Prod.mk.inj h
      exact .inl ⟨rfl, released_new _, fun hearly => by simp [hearly.write] at hwrite⟩
  · next hwrite =>
  split at h
  · next hpipe =>
      obtain ⟨rfl, rfl⟩ := Prod.mk.inj h
      exact .inl ⟨rfl, ⟨rfl, rfl, rfl, rfl, rfl, rfl⟩, fun hearly => by simp [hearly.pipe] at hpipe⟩
  · next hpipe =>
  split at h
  · next hfork =>
      obtain ⟨rfl, rfl⟩ := Prod.mk.inj h
      exact .inl ⟨rfl, ⟨rfl, rfl, rfl, rfl, rfl, rfl⟩, fun hearly => by simp [hearly.fork] at hfork⟩
  · next hfork =>
  -- bpftrace runs. What follows depends on the arm loop only.
  have hnothing : ¬ contains [] (str "Attaching") := by decide
  have hclosed : armKfdUprobe calls.polls [] = none ↔ _ := armKfdUprobe_eq_none_iff hnothing
  split at h
  · next harm =>
      obtain ⟨rfl, rfl⟩ := Prod.mk.inj h
      refine .inr (.inl ⟨rfl, rfl, rfl, ?_⟩)
      exact ⟨hpath, by simpa using hexists, by simpa using hmkstemps, by simpa using hwrite,
        by simpa using hpipe, by simpa using hfork, hclosed.1 harm⟩
  · next harm =>
      obtain ⟨rfl, rfl⟩ := Prod.mk.inj h
      refine .inr (.inr ⟨rfl, fun hearly => ?_⟩)
      rw [hclosed.2 hearly.closed] at harm
      cases harm

/-! ## Failed starts -/

theorem leavesNothing_kprobe (calls : StartCalls) :
    (new .kprobe librocdxgPath libhsaPath tracingOn).LeavesNothing calls := by
  intro hfail
  refine Released.clean_stop ?_
  change (if !_ then _ else _ : Bool × Discovery).1 = false at hfail
  change Released (if !_ then _ else _ : Bool × Discovery).2 tracingOn
  split at hfail
  · next hinstall =>
      rw [if_pos hinstall]
      exact released_installKprobe .kprobe (by simpa using hinstall)
  · next hinstall =>
      rw [if_neg hinstall]
      split at hfail
      · next hopen =>
          rw [if_pos hopen]
          exact released_removeKprobe .kprobe calls
      · cases hfail

theorem leavesNothing_bpftrace (calls : StartCalls) :
    (new .bpftrace librocdxgPath libhsaPath tracingOn).LeavesNothing calls := by
  intro hfail
  refine Released.clean_stop ?_
  change (if !_ then _ else _ : Bool × Discovery).1 = false at hfail
  change Released (if !_ then _ else _ : Bool × Discovery).2 tracingOn
  split at hfail
  · next hstart =>
      rw [if_pos hstart]
      exact released_startBpftrace (by simpa using hstart)
  · cases hfail

theorem start_kfdUprobe {calls : StartCalls} {ok : Bool} {d : Discovery}
    (h : (new .kfdUprobe librocdxgPath libhsaPath tracingOn).startKfdUprobe calls = (ok, d)) :
    (new .kfdUprobe librocdxgPath libhsaPath tracingOn).start calls =
      if !ok then (false, d) else (true, { d with running := true }) := by
  change (if !_ then _ else _ : Bool × Discovery) = _
  rw [h]

theorem leavesNothing_kfdUprobe_iff (calls : StartCalls) :
    (new .kfdUprobe librocdxgPath libhsaPath tracingOn).LeavesNothing calls ↔
      ¬ ClosedEarly libhsaPath calls := by
  obtain ⟨⟨ok, d⟩, h⟩ : ∃ r, (new .kfdUprobe librocdxgPath libhsaPath tracingOn).startKfdUprobe calls = r :=
    ⟨_, rfl⟩
  rw [LeavesNothing, start_kfdUprobe h]
  rcases startKfdUprobe_cases h with ⟨rfl, hreleased, hnot⟩ | ⟨rfl, hrunning, hchild, hearly⟩ | ⟨rfl, hnot⟩
  · exact iff_of_true (fun _ => hreleased.clean_stop) hnot
  · refine iff_of_false (fun hclean => ?_) (not_not_intro hearly)
    -- Discovery does not run, so the destructor leaves the child as it is.
    have hleft := (hclean rfl).child
    change d.stop.acquired.child = false at hleft
    rw [stop_of_not_running hrunning, hchild] at hleft
    cases hleft
  · exact iff_of_true (fun hfail => by cases hfail) hnot

/-- **When a failed start leaves nothing behind**: always, except in kfd-uprobe mode when bpftrace was
    started and closed its output before it said that it is attaching. -/
theorem failedStart_clean_iff (mode : DiscoveryMode) (librocdxgPath libhsaPath tracingOn : Bytes)
    (calls : StartCalls) :
    (new mode librocdxgPath libhsaPath tracingOn).LeavesNothing calls ↔
      ¬ (mode = .kfdUprobe ∧ ClosedEarly libhsaPath calls) := by
  cases mode with
  | kprobe => exact iff_of_true (leavesNothing_kprobe calls) (fun h => by cases h.1)
  | bpftrace => exact iff_of_true (leavesNothing_bpftrace calls) (fun h => by cases h.1)
  | kfdUprobe =>
      rw [leavesNothing_kfdUprobe_iff]
      exact not_congr ⟨fun hearly => ⟨rfl, hearly⟩, And.right⟩

/-- Every call succeeds, but the child cannot run bpftrace and exits. -/
def bpftraceMissing : StartCalls where
  define := true
  enable := true
  readTracingOn := true
  writeTracingOn := true
  openTracePipe := true
  fileExists := true
  mkstemps := true
  write := true
  pipe := true
  fork := true
  polls := [.idle, .closed]
  turns := []

/-- The script is left on disk, and the child was not waited for. -/
theorem failedStart_leaves_child :
    ((new .kfdUprobe [] (str "/opt/rocm/lib/libhsa-runtime64.so") (str "1")).start
        bpftraceMissing).1 = false ∧
      ((new .kfdUprobe [] (str "/opt/rocm/lib/libhsa-runtime64.so") (str "1")).start
        bpftraceMissing).2.stop.acquired =
          { tracingOn := str "1", script := true, child := true } ∧
      ¬ (new .kfdUprobe [] (str "/opt/rocm/lib/libhsa-runtime64.so") (str "1")).LeavesNothing
        bpftraceMissing := by
  have hleft : ((new .kfdUprobe [] (str "/opt/rocm/lib/libhsa-runtime64.so") (str "1")).start
      bpftraceMissing).2.stop.acquired = { tracingOn := str "1", script := true, child := true } := by
    decide +kernel
  refine ⟨by decide +kernel, hleft, fun hclean => ?_⟩
  have hchild := (hclean (by decide +kernel)).child
  rw [hleft] at hchild
  cases hchild

end Discovery

end HsaSnoop
