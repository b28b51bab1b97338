import HsaSnoop.Model.Records
import HsaSnoop.Model.Text

set_option autoImplicit false

/-! # The bpftrace readers

In the two bpftrace modes the observed queues arrive as lines of text on a pipe. Starting waits until
bpftrace says it is attaching and leaves what it read in `bpf_prebuf_` (`armKfdUprobe`, byte by byte,
and `armBpftrace`, in chunks); `runKfdUprobe` and `runBpftrace` then reassemble lines from that prefix
and from further reads, and report queues.

Both run loops have one shape, `LineReader.turn`: read when the buffer is empty, then handle every
complete line in it. A loop that has not ended after `fuel` turns gives `none`.

The host enters through a `HostView` per handled line: what `/proc/<pid>/comm` says and what the clock
shows while that line is handled. -/

namespace HsaSnoop

/-! ## The line loop -/

def newline : UInt8 := 10

/-- One `read()` from the pipe that does not end the loop. -/
inductive ReadResult
  | data (chunk : Bytes) (nonempty : chunk ≠ [])
  | eintr

/-- A reader between two turns of its loop. -/
structure LineReader (σ : Type) where
  buf : Bytes
  /-- What `read()` returns from here on; then it returns 0 or fails, which both leave the loop. -/
  reads : List ReadResult
  /-- The lines handled so far. -/
  handled : List Bytes := []
  /-- What handling them has computed. -/
  state : σ

namespace LineReader

variable {σ : Type} (handle : σ → Bytes → σ)

/-- The inner loop: handle and erase complete lines. -/
def drainLines (r : LineReader σ) : LineReader σ :=
  match h : r.buf.idxOf? newline with
  | none => r
  | some nl =>
      drainLines
        { r with
          buf := r.buf.drop (nl + 1)
          handled := r.handled ++ [r.buf.take nl]
          state := handle r.state (r.buf.take nl) }
termination_by r.buf.length
decreasing_by
  obtain ⟨hlt, -⟩ := List.idxOf?_eq_some_iff.1 h
  simp only [List.length_drop]
  omega

/-- One turn of the outer loop, or `none` where the loop is left. -/
def turn (r : LineReader σ) : Option (LineReader σ) :=
  if r.buf = [] then
    match r.reads with
    | [] => none
    | .eintr :: reads => some { r with reads := reads }
    | .data chunk _ :: reads => some (drainLines handle { r with buf := chunk, reads := reads })
  else some (drainLines handle r)

/-- The loop, for at most `fuel` turns. -/
def run : (fuel : Nat) → LineReader σ → Option (LineReader σ)
  | 0, _ => none
  | fuel + 1, r =>
      match turn handle r with
      | none => some r
      | some r => run fuel r

end LineReader

/-! ## Fields of a line -/

/-- `get_u64`: the number after ` key=`, 0 when there is none. -/
def getU64 (line : Bytes) (key : String) : Nat :=
  let needle := str " " ++ str key ++ str "="
  match find? needle line with
  | none => 0
  | some p => strtoull 0 (line.drop (p + needle.length))

/-- `get_str`: the word after ` key=`. -/
def getStr (line : Bytes) (key : String) : Bytes :=
  let needle := str " " ++ str key ++ str "="
  match find? needle line with
  | none => []
  | some p => (line.drop (p + needle.length)).takeWhile (· ≠ 32)

/-- The host, while one line is handled. -/
structure HostView where
  /-- The first line of `/proc/<pid>/comm`, when there is one. -/
  procComm : Int → Option Bytes
  now : Time

/-! ## bpftrace mode -/

/-- The first line of `/proc/<pid>/comm`, unless it is empty. -/
def HostView.comm? (host : HostView) (pid : Int) : Option Bytes :=
  (host.procComm pid).filter (· ≠ [])

/-- Whether a reported name and the filtered process's name contain neither the other's first 15
    bytes. -/
def commMismatch (comm targetComm : Bytes) : Bool :=
  !contains comm (targetComm.take 15) && !contains targetComm (comm.take 15)

/-- The process a reported (host-level) pid stands for: the filtered one, or the first within the
    pid offset range whose name contains the reported one, or the pid itself. -/
def namespacePid (host : HostView) (pidFilter pid : Int) (comm : Bytes) : Int :=
  if pidFilter ≠ 0 then pidFilter
  else
    let candidates := (List.range 200001).map (fun i => pid - 200000 + (i : Int))
    (candidates.find? (fun candidate => 0 < candidate &&
      (host.comm? candidate).any (fun c => contains c (comm.take 15)))).getD pid

/-- The queue a line reports, before it gets its uid. -/
def bpftraceQueue? (host : HostView) (pidFilter : Int) (line : Bytes) : Option QueueInfo :=
  if line = [] ∨ ¬ (str "QUEUE ").isPrefixOf line then none
  else
    let pid := toInt32 (getU64 line "pid")
    let comm := getStr line "comm"
    let ring := getU64 line "ring"
    let size := getU64 line "size"
    if ring = 0 ∨ size = 0 then none
    else if pidFilter ≠ 0 ∧ (host.comm? pidFilter).any (commMismatch comm) then none
    else
      let nsPid := namespacePid host pidFilter pid comm
      some
        { pid := nsPid
          comm := (host.comm? nsPid).getD comm
          ringBase := UInt64.ofNat ring
          wptrAddr := UInt64.ofNat (getU64 line "wptr")
          rptrAddr := UInt64.ofNat (getU64 line "rptr")
          ringSize := UInt32.ofNat size
          gpuId := u32 (getU64 line "node")
          qtype := 21
          createTs := host.now }

structure BpftraceState where
  nextUid : Nat := 1
  lineNo : Nat := 0
  /-- The queues passed to the callback. -/
  reported : List QueueInfo := []

/-- The body of the line loop of `RunBpftrace`. -/
def handleBpftraceLine (host : Nat → HostView) (pidFilter : Int) (st : BpftraceState)
    (line : Bytes) : BpftraceState :=
  match bpftraceQueue? (host st.lineNo) pidFilter line with
  | none => { st with lineNo := st.lineNo + 1 }
  | some q =>
      { nextUid := st.nextUid + 1
        lineNo := st.lineNo + 1
        reported := st.reported ++ [{ q with uid := st.nextUid }] }

/-- `RunBpftrace`, for at most `fuel` turns of its loop. -/
def runBpftrace (host : Nat → HostView) (pidFilter : Int) (prebuf : Bytes)
    (reads : List ReadResult) (fuel : Nat) : Option (LineReader BpftraceState) :=
  LineReader.run (handleBpftraceLine host pidFilter) fuel
    { buf := prebuf, reads := reads, state := {} }

/-! ## kfd-uprobe mode -/

structure KfdUprobeState where
  /-- A static: it survives the loop. -/
  nextUid : Nat := 1
  lineNo : Nat := 0
  /-- Ring addresses reported already. -/
  seen : List Nat := []
  /-- The queues passed to the callback. -/
  reported : List QueueInfo := []

/-- The body of the line loop of `RunKfdUprobe`: the first dispatch on a ring reports its queue.
    Pointer addresses and GPU are not known to this hook. -/
def handleKfdUprobeLine (host : Nat → HostView) (pidFilter : Int) (st : KfdUprobeState)
    (line : Bytes) : KfdUprobeState :=
  let skipped := { st with lineNo := st.lineNo + 1 }
  if ¬ (str "DISPATCH ").isPrefixOf line then skipped
  else
    let ring := getU64 line "ring"
    let slots := u32 (getU64 line "slots")
    if ring = 0 ∨ slots = 0 then skipped
    else if ring ∈ st.seen then skipped
    else
      let q : QueueInfo :=
        { pid := toInt32 (getU64 line "pid")
          comm := getStr line "comm"
          ringBase := UInt64.ofNat ring
          ringSize := UInt32.ofNat (slots * 64)
          wptrAddr := 0
          rptrAddr := 0
          qtype := 2
          gpuId := 0
          uid := st.nextUid
          createTs := (host st.lineNo).now }
      { nextUid := st.nextUid + 1
        lineNo := st.lineNo + 1
        seen := ring :: st.seen
        reported :=
          if pidFilter ≠ 0 ∧ q.pid ≠ pidFilter then st.reported else st.reported ++ [q] }

/-- `RunKfdUprobe`, for at most `fuel` turns of its loop. -/
def runKfdUprobe (host : Nat → HostView) (pidFilter : Int) (nextUid : Nat) (prebuf : Bytes)
    (reads : List ReadResult) (fuel : Nat) : Option (LineReader KfdUprobeState) :=
  LineReader.run (handleKfdUprobeLine host pidFilter) fuel
    { buf := prebuf, reads := reads, state := { nextUid := nextUid } }

/-! ## Arming -/

/-- One turn of the arm loop of `StartKfdUprobe`. -/
inductive ArmPoll
  /-- Nothing to read, or the read failed. -/
  | idle
  | byte (c : UInt8)
  /-- The pipe was closed. -/
  | closed
  deriving DecidableEq, Repr

/-- The arm loop of `StartKfdUprobe`, over the turns until its deadline: what it leaves in
    `bpf_prebuf_`, or nothing when bpftrace exits before. -/
def armKfdUprobe : List ArmPoll → (pre : Bytes) → Option Bytes
  | [], pre => some pre
  | .idle :: polls, pre => armKfdUprobe polls pre
  | .byte c :: polls, pre =>
      if contains (pre ++ [c]) (str "Attaching") then some (pre ++ [c])
      else armKfdUprobe polls (pre ++ [c])
  | .closed :: _, _ => none

/-- One turn of the arm loop of `StartBpftrace`: what was read (if anything), and whether the child
    has exited. -/
structure ArmTurn where
  chunk : Bytes
  exited : Bool
  deriving DecidableEq, Repr

/-- The arm loop of `StartBpftrace`. A deadline that passes is reported, but goes on. -/
def armBpftrace : List ArmTurn → (pre : Bytes) → Option Bytes
  | [], pre => some pre
  | t :: turns, pre =>
      if t.chunk ≠ [] ∧ contains (pre ++ t.chunk) (str "Attaching") then some (pre ++ t.chunk)
      else if t.exited then none
      else armBpftrace turns (pre ++ t.chunk)

end HsaSnoop
