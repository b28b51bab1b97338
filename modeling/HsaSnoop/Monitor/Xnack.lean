import HsaSnoop.Model.Records
import HsaSnoop.Model.Scanf

set_option autoImplicit false

/-! # The XNACK monitor

`XnackMonitor::ReadLoop`: lines from a bpftrace child, scanned with `sscanf`. Everything before the
ready line is ignored. -/

namespace HsaSnoop

/-- One page fault. -/
structure XnackRecord where
  seq : Nat := 0
  pid : Int := 0
  comm : Bytes := []
  pasid : Nat := 0
  timestamp : Time := 0
  deriving DecidableEq, Repr

/-! ## fgets -/

/-- The line `fgets` reads into a buffer with room for `room` bytes. -/
def fgetsLine : (room : Nat) → Bytes → Bytes
  | _, [] => []
  | 0, _ => []
  | room + 1, c :: s => if c = 10 then [c] else c :: fgetsLine room s

/-- `sizeof(line) - 1`. -/
def kXnackLine : Nat := 511

theorem fgetsLine_length (room : Nat) (c : UInt8) (s : Bytes) :
    0 < (fgetsLine (room + 1) (c :: s)).length := by
  unfold fgetsLine
  split <;> simp

/-- What successive calls of `fgets` read of a stream. -/
def fgetsLines : Bytes → List Bytes
  | [] => []
  | c :: s =>
      fgetsLine kXnackLine (c :: s) ::
        fgetsLines ((c :: s).drop (fgetsLine kXnackLine (c :: s)).length)
termination_by s => s.length
decreasing_by
  have hpos : 0 < (fgetsLine kXnackLine (c :: s)).length := fgetsLine_length 510 c s
  simp only [List.length_drop, List.length_cons]
  omega

/-! ## The loop -/

/-- `"XNACK pid=%d comm=%255s pasid=%u"`. -/
def xnackFormat : List Directive :=
  (str "XNACK").map .literal ++ .blank :: (str "pid=").map .literal ++ .int :: .blank ::
    (str "comm=").map .literal ++ .word 255 :: .blank :: (str "pasid=").map .literal ++ [.uint]

structure XnackState where
  ready : Bool := false
  seq : Nat := 0
  lineNo : Nat := 0
  /-- The records passed to the sink. -/
  reported : List XnackRecord := []
  deriving DecidableEq, Repr

/-- The body of the loop, for one line at a time when the clock shows `now`. -/
def handleXnackLine (now : Nat → Time) (st : XnackState) (buf : Bytes) : XnackState :=
  let line := cStr buf
  let st' := { st with lineNo := st.lineNo + 1 }
  if !st.ready then { st' with ready := contains line (str "XNACK_MONITOR_READY") }
  else if ¬ (str "XNACK ").isPrefixOf line then st'
  else
    match sscanf xnackFormat line with
    | [.int pid, .word comm, .uint pasid] =>
        { st' with
          seq := st.seq + 1
          reported := st.reported ++
            [{ seq := st.seq + 1, pid := pid, comm := comm, pasid := pasid
               timestamp := now st.lineNo }] }
    | _ => { st' with seq := st.seq + 1 }

/-- `XnackMonitor::ReadLoop`, until the stream ends. -/
def xnackReadLoop (now : Nat → Time) (stream : Bytes) : XnackState :=
  (fgetsLines stream).foldl (handleXnackLine now) {}

/-! ## Whole lines -/

theorem fgetsLine_of_length {room : Nat} {l : Bytes} (hl : (10 : UInt8) ∉ l) (hroom : l.length < room)
    (s : Bytes) : fgetsLine room (l ++ 10 :: s) = l ++ [10] := by
  induction l generalizing room with
  | nil =>
      obtain ⟨room, rfl⟩ := Nat.exists_eq_add_of_lt hroom
      rfl
  | cons c l ih =>
      rw [List.mem_cons, not_or] at hl
      cases room with
      | zero => exact absurd hroom (Nat.not_lt_zero _)
      | succ room =>
          rw [List.cons_append, fgetsLine, if_neg (fun h => hl.1 h.symm),
            ih hl.2 (Nat.lt_of_succ_lt_succ hroom)]
          rfl

/-- Lines that fit the buffer are read one by one. -/
theorem fgetsLines_cons {l : Bytes} (hl : (10 : UInt8) ∉ l) (hroom : l.length < kXnackLine)
    (s : Bytes) : fgetsLines (l ++ 10 :: s) = (l ++ [10]) :: fgetsLines s := by
  have hline := fgetsLine_of_length hl hroom s
  cases hls : l ++ 10 :: s with
  | nil => simp at hls
  | cons c t =>
      rw [hls] at hline
      rw [fgetsLines, hline, ← hls]
      congr 1
      simp

/-- A record's name has no blank in it. -/
theorem noSpace_of_xnackScan {line comm : Bytes} {pid : Int} {pasid : Nat}
    (h : sscanf xnackFormat line = [.int pid, .word comm, .uint pasid]) :
    ∀ c ∈ comm, isSpace c = false :=
  @noSpace_of_mem_sscanf xnackFormat line comm (by simp [h])

end HsaSnoop
