import HsaSnoop.Discovery.Start
import HsaSnoop.Library.Trace

set_option autoImplicit false

/-! # Starting and stopping discovery

A `Discovery` can be started and stopped again and again; the destructor stops it once more. Between the
calls it is either idle, and then nothing of it is left in the system (`Idle`), or started, and then it
holds what `Stop` releases in its mode (`Started`).

So after any sequence of calls, the destructor leaves the system as it was found
(`discovery_releases`), if no start was one of those that `failedStart_clean_iff` excepts. -/

namespace HsaSnoop

namespace Discovery

/-! ## Idle and started -/

/-- Not running, and nothing held. -/
structure Idle (d : Discovery) (tracingOn : Bytes) : Prop where
  running : d.running = false
  pipeFd : d.pipeFd = false
  bpfPid : d.bpfPid = false
  tracingOnChanged : d.tracingOnChanged = false
  clean : d.acquired.Clean tracingOn

/-- In kprobe mode only the kprobe and the switch are held, and it is known how the switch was. -/
structure HoldsKprobe (d : Discovery) (tracingOn : Bytes) : Prop where
  bpfPid : d.bpfPid = false
  script : d.acquired.script = false
  child : d.acquired.child = false
  switch : if d.tracingOnChanged then tracingOn = str "0" else d.acquired.tracingOn = tracingOn

/-- In the other modes the child is held, and the script if its path is known. -/
structure HoldsChild (d : Discovery) (tracingOn : Bytes) : Prop where
  bpfPid : d.bpfPid = true
  kprobe : d.acquired.kprobe = false
  script : d.bpfOutpath = false → d.acquired.script = false
  tracingOnChanged : d.tracingOnChanged = false
  tracingOn : d.acquired.tracingOn = tracingOn

/-- Running, with one pipe open, and what the mode needs. -/
structure Started (d : Discovery) (tracingOn : Bytes) : Prop where
  running : d.running = true
  pipeFd : d.pipeFd = true
  pipes : d.acquired.pipes = 1
  holds :
    match d.mode with
    | .kprobe => d.HoldsKprobe tracingOn
    | _ => d.HoldsChild tracingOn

variable {d : Discovery} {tracingOn : Bytes}

theorem idle_new (mode : DiscoveryMode) (librocdxgPath libhsaPath tracingOn : Bytes) :
    (new mode librocdxgPath libhsaPath tracingOn).Idle tracingOn :=
  ⟨rfl, rfl, rfl, rfl, rfl, rfl, rfl, rfl, rfl⟩

/-- Stopping what is not running does nothing. -/
theorem Idle.stop (h : d.Idle tracingOn) : d.stop.Idle tracingOn := by
  rw [stop_of_not_running h.running]
  exact h

/-- The part of `Stop` for the modes with a child. -/
theorem HoldsChild.stop (h : d.HoldsChild tracingOn) (hmode : d.mode ≠ .kprobe)
    (hrunning : d.running = true) (hpipeFd : d.pipeFd = true) (hpipes : d.acquired.pipes = 1) :
    d.stop.Idle tracingOn := by
  have hstop : d.stop =
      { d with
        running := false
        bpfPid := false
        bpfOutpath := false
        pipeFd := false
        acquired := { d.acquired with child := false, script := false, pipes := 0 } } := by
    cases houtpath : d.bpfOutpath with
    | false =>
        have hscript := h.script houtpath
        cases hm : d.mode with
        | kprobe => exact absurd hm hmode
        | bpftrace => simp [Discovery.stop, hrunning, hm, h.bpfPid, houtpath, hpipeFd, hpipes, hscript]
        | kfdUprobe => simp [Discovery.stop, hrunning, hm, h.bpfPid, houtpath, hpipeFd, hpipes, hscript]
    | true =>
        cases hm : d.mode with
        | kprobe => exact absurd hm hmode
        | bpftrace => simp [Discovery.stop, hrunning, hm, h.bpfPid, houtpath, hpipeFd, hpipes]
        | kfdUprobe => simp [Discovery.stop, hrunning, hm, h.bpfPid, houtpath, hpipeFd, hpipes]
  rw [hstop]
  exact ⟨rfl, rfl, rfl, h.tracingOnChanged, h.kprobe, h.tracingOn, rfl, rfl, rfl⟩

/-- The part of `Stop` for kprobe mode. -/
theorem HoldsKprobe.stop (h : d.HoldsKprobe tracingOn) (hmode : d.mode = .kprobe)
    (hrunning : d.running = true) (hpipeFd : d.pipeFd = true) (hpipes : d.acquired.pipes = 1) :
    d.stop.Idle tracingOn := by
  have hswitch := h.switch
  unfold Discovery.stop
  rw [if_neg (by simp [hrunning])]
  simp only [hmode, removeKprobe]
  split at hswitch
  · next hchanged =>
      simp only [hchanged, hpipeFd, if_true]
      exact ⟨rfl, rfl, h.bpfPid, rfl, rfl, hswitch.symm, h.script, h.child, by simp [hpipes]⟩
  · next hchanged =>
      simp only [if_neg hchanged, hpipeFd, if_true]
      exact ⟨rfl, rfl, h.bpfPid, by simpa using hchanged, rfl, hswitch, h.script, h.child,
        by simp [hpipes]⟩

/-- **Stop releases what is held**, in every mode. -/
theorem Started.stop (h : d.Started tracingOn) : d.stop.Idle tracingOn := by
  have hholds := h.holds
  cases hmode : d.mode with
  | kprobe =>
      rw [hmode] at hholds
      exact hholds.stop hmode h.running h.pipeFd h.pipes
  | bpftrace =>
      rw [hmode] at hholds
      exact hholds.stop (by simp [hmode]) h.running h.pipeFd h.pipes
  | kfdUprobe =>
      rw [hmode] at hholds
      exact hholds.stop (by simp [hmode]) h.running h.pipeFd h.pipes

/-! ## Starting -/

/-- What a start leaves: a started discovery, or an idle one if it fails. -/
def Settled (tracingOn : Bytes) (r : Bool × Discovery) : Prop :=
  if r.1 then r.2.Started tracingOn else r.2.Idle tracingOn

theorem Idle.start_kprobe (h : d.Idle tracingOn) (hmode : d.mode = .kprobe) (calls : StartCalls) :
    Settled tracingOn (d.start calls) := by
  have hpipes := h.clean.pipes
  simp only [start, hmode]
  rcases installKprobe_cases d calls with heq | heq | heq | ⟨hoff, heq⟩
  · rw [heq]
    exact ⟨h.running, h.pipeFd, h.bpfPid, h.tracingOnChanged, rfl, h.clean.tracingOn, h.clean.script,
      h.clean.child, hpipes⟩
  · rw [heq]
    simp only [removeKprobe, h.tracingOnChanged, if_neg Bool.false_ne_true]
    exact ⟨h.running, h.pipeFd, h.bpfPid, rfl, rfl, h.clean.tracingOn, h.clean.script,
      h.clean.child, hpipes⟩
  · -- The switch was not touched.
    rw [heq]
    simp only [Bool.not_true, if_neg Bool.false_ne_true]
    split
    · simp only [removeKprobe, h.tracingOnChanged, if_neg Bool.false_ne_true]
      exact ⟨h.running, h.pipeFd, h.bpfPid, rfl, rfl, h.clean.tracingOn, h.clean.script,
        h.clean.child, hpipes⟩
    · refine ⟨rfl, rfl, by simp [hpipes], ?_⟩
      simp only [hmode]
      exact ⟨h.bpfPid, h.clean.script, h.clean.child, by simp [h.tracingOnChanged, h.clean.tracingOn]⟩
  · -- The switch was off, and was turned on.
    have hswitch : tracingOn = str "0" := h.clean.tracingOn.symm.trans hoff
    rw [heq]
    simp only [Bool.not_true, if_neg Bool.false_ne_true]
    split
    · exact ⟨h.running, h.pipeFd, h.bpfPid, rfl, rfl, hswitch.symm, h.clean.script, h.clean.child, hpipes⟩
    · refine ⟨rfl, rfl, by simp [hpipes], ?_⟩
      simp only [hmode]
      exact ⟨h.bpfPid, h.clean.script, h.clean.child, by simpa using hswitch⟩

/-- What a start leaves in the modes with a child, before it is marked as running. -/
def SettledChild (tracingOn : Bytes) (r : Bool × Discovery) : Prop :=
  if r.1 then
    r.2.HoldsChild tracingOn ∧ r.2.mode ≠ .kprobe ∧ r.2.pipeFd = true ∧ r.2.acquired.pipes = 1
  else r.2.Idle tracingOn

theorem Idle.settledChild_bpftrace (h : d.Idle tracingOn) (hmode : d.mode ≠ .kprobe) (calls : StartCalls) :
    SettledChild tracingOn (d.startBpftrace calls) := by
  have hclean := h.clean
  generalize hr : d.startBpftrace calls = r
  simp only [startBpftrace] at hr
  repeat' split at hr
  all_goals subst hr
  · exact h
  · exact h
  · exact h
  · exact ⟨h.running, h.pipeFd, h.bpfPid, h.tracingOnChanged, hclean.kprobe, hclean.tracingOn, rfl,
      hclean.child, hclean.pipes⟩
  · exact ⟨h.running, h.pipeFd, h.bpfPid, h.tracingOnChanged, hclean.kprobe, hclean.tracingOn, rfl,
      hclean.child, hclean.pipes⟩
  · exact ⟨h.running, h.pipeFd, rfl, h.tracingOnChanged, hclean.kprobe, hclean.tracingOn, rfl,
      hclean.child, by simp [hclean.pipes]⟩
  · exact ⟨h.running, rfl, rfl, h.tracingOnChanged, hclean.kprobe, hclean.tracingOn, rfl, rfl,
      by simp [hclean.pipes]⟩
  · exact ⟨⟨rfl, hclean.kprobe, fun _ => rfl, h.tracingOnChanged, hclean.tracingOn⟩, hmode, rfl,
      by simp [hclean.pipes]⟩

/-- The script stays, with its path. -/
theorem Idle.settledChild_kfdUprobe (h : d.Idle tracingOn) (hmode : d.mode ≠ .kprobe)
    {calls : StartCalls} (hearly : ¬ ClosedEarly d.libhsaPath calls) :
    SettledChild tracingOn (d.startKfdUprobe calls) := by
  have hclean := h.clean
  generalize hr : d.startKfdUprobe calls = r
  simp only [startKfdUprobe] at hr
  split at hr
  · subst hr; exact h
  · next hpath =>
  split at hr
  · subst hr; exact h
  · next hexists =>
  split at hr
  · subst hr; exact h
  · next hmkstemps =>
  split at hr
  · subst hr
    exact ⟨h.running, h.pipeFd, h.bpfPid, h.tracingOnChanged, hclean.kprobe, hclean.tracingOn, rfl,
      hclean.child, hclean.pipes⟩
  · next hwrite =>
  split at hr
  · subst hr
    exact ⟨h.running, h.pipeFd, h.bpfPid, h.tracingOnChanged, hclean.kprobe, hclean.tracingOn, rfl,
      hclean.child, hclean.pipes⟩
  · next hpipe =>
  split at hr
  · subst hr
    exact ⟨h.running, h.pipeFd, rfl, h.tracingOnChanged, hclean.kprobe, hclean.tracingOn, rfl,
      hclean.child, by simp [hclean.pipes]⟩
  · next hfork =>
  split at hr
  · next harm =>
      have hnothing : ¬ contains [] (str "Attaching") := by decide
      exact absurd ⟨hpath, by simpa using hexists, by simpa using hmkstemps, by simpa using hwrite,
        by simpa using hpipe, by simpa using hfork, (armKfdUprobe_eq_none_iff hnothing).1 harm⟩ hearly
  · subst hr
    refine ⟨⟨rfl, hclean.kprobe, fun hout => ?_, h.tracingOnChanged, hclean.tracingOn⟩, hmode, rfl,
      by simp [hclean.pipes]⟩
    cases hout

/-- A start in a mode with a child. -/
theorem SettledChild.settled {r : Bool × Discovery} (h : SettledChild tracingOn r) :
    Settled tracingOn (if !r.1 then (false, r.2) else (true, { r.2 with running := true })) := by
  obtain ⟨ok, d⟩ := r
  cases ok with
  | false => exact h
  | true =>
      obtain ⟨hholds, hmode, hpipeFd, hpipes⟩ := h
      refine ⟨rfl, hpipeFd, hpipes, ?_⟩
      cases hm : d.mode with
      | kprobe => exact absurd hm hmode
      | bpftrace => simp only [hm]; exact ⟨hholds.1, hholds.2, hholds.3, hholds.4, hholds.5⟩
      | kfdUprobe => simp only [hm]; exact ⟨hholds.1, hholds.2, hholds.3, hholds.4, hholds.5⟩

/-- **A start from idle** leaves a started discovery or an idle one. -/
theorem Idle.start (h : d.Idle tracingOn) {calls : StartCalls}
    (hearly : ¬ (d.mode = .kfdUprobe ∧ ClosedEarly d.libhsaPath calls)) :
    Settled tracingOn (d.start calls) := by
  cases hmode : d.mode with
  | kprobe => exact h.start_kprobe hmode calls
  | bpftrace =>
      have hsettled := (h.settledChild_bpftrace (by simp [hmode]) calls).settled
      simp only [Discovery.start, hmode]
      exact hsettled
  | kfdUprobe =>
      have hsettled := (h.settledChild_kfdUprobe (by simp [hmode]) (fun he => hearly ⟨hmode, he⟩)).settled
      simp only [Discovery.start, hmode]
      exact hsettled

/-! ## Runs -/

/-- A call on the object. -/
inductive LifecycleCall
  | start (calls : StartCalls)
  | stop

/-- One call, with the answers of `Start`. -/
def call (d : Discovery) : LifecycleCall → Discovery × List Bool
  | .start calls => ((d.start calls).2, [(d.start calls).1])
  | .stop => (d.stop, [])

/-- Discovery is started only when it is not running, and not so that bpftrace closes its output early. -/
def MayCall (d : Discovery) : LifecycleCall → Prop
  | .start calls => d.running = false ∧ ¬ (d.mode = .kfdUprobe ∧ ClosedEarly d.libhsaPath calls)
  | .stop => True

/-- Between two calls. -/
def IdleOrStarted (tracingOn : Bytes) (d : Discovery) : Prop := d.Idle tracingOn ∨ d.Started tracingOn

/-- **Each call leads from idle or started to idle or started.** -/
theorem IdleOrStarted.call (h : IdleOrStarted tracingOn d) {c : LifecycleCall} (hmay : d.MayCall c) :
    IdleOrStarted tracingOn (d.call c).1 := by
  cases c with
  | stop =>
      rcases h with h | h
      · exact .inl h.stop
      · exact .inl h.stop
  | start calls =>
      rcases h with h | h
      · have hsettled := h.start hmay.2
        rw [Settled] at hsettled
        split at hsettled
        · exact .inr hsettled
        · exact .inl hsettled
      · have hrunning := hmay.1
        rw [h.running] at hrunning
        cases hrunning

/-- A start that turns the switch on, a stop, and a start that cannot open the pipe. -/
def startedTwice : List LifecycleCall :=
  [.start bpftraceMissing, .stop, .start { bpftraceMissing with openTracePipe := false }]

end Discovery

end HsaSnoop
