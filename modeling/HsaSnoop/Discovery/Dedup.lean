import HsaSnoop.Discovery.Reassembly
import HsaSnoop.Library.Firsts

set_option autoImplicit false

/-! # One report per queue

The kfd-uprobe hook fires on every dispatch, and `RunKfdUprobe` is to report each queue once, at its
first dispatch. A queue is a ring of one process: two processes can have rings at the same address.
The loop however keeps the ring addresses only, and keeps them before it looks at the pid filter
(`reported_foldl`), so what it reports is what it should exactly when no other process came first on
the ring of a queue that passes the filter. -/

namespace HsaSnoop

open Lines Firsts

/-! ## Dispatches -/

/-- The dispatch a line reports, as the queue it is on; its uid is not chosen here. -/
def dispatchOf? (host : HostView) (line : Bytes) : Option QueueInfo :=
  if (str "DISPATCH ").isPrefixOf line ∧ getU64 line "ring" ≠ 0 ∧ u32 (getU64 line "slots") ≠ 0 then
    some
      { pid := toInt32 (getU64 line "pid")
        comm := getStr line "comm"
        ringBase := UInt64.ofNat (getU64 line "ring")
        ringSize := UInt32.ofNat (u32 (getU64 line "slots") * 64)
        qtype := 2
        createTs := host.now }
  else none

/-- The dispatches of a list of lines, the first of which is line `lineNo`. -/
def dispatches (host : Nat → HostView) : (lineNo : Nat) → List Bytes → List QueueInfo
  | _, [] => []
  | lineNo, line :: ls => (dispatchOf? (host lineNo) line).toList ++ dispatches host (lineNo + 1) ls

/-- Whether a pid passes `pid_filter_`. -/
def passes (pidFilter : Int) (q : QueueInfo) : Bool := pidFilter = 0 || q.pid = pidFilter

/-- What tells queues apart. -/
def QueueInfo.key (q : QueueInfo) : Int × UInt64 := (q.pid, q.ringBase)

/-- What kfd-uprobe discovery is to report: of every queue whose process passes the filter, its first
    dispatch. -/
def firstDispatches (pidFilter : Int) (ds : List QueueInfo) : List QueueInfo :=
  (firsts QueueInfo.key [] ds).filter (passes pidFilter)

/-! ## What the loop reports -/

theorem strtoull_lt (base : Nat) (s : Bytes) : strtoull base s < 2 ^ 64 := by
  unfold strtoull
  extract_lets s negative s value
  split
  · exact Nat.sub_lt (Nat.two_pow_pos 64) Nat.one_pos
  · next h =>
      split
      · exact Nat.mod_lt _ (Nat.two_pow_pos 64)
      · exact Nat.lt_of_not_le h

theorem getU64_lt (line : Bytes) (key : String) : getU64 line key < 2 ^ 64 := by
  unfold getU64
  extract_lets needle
  split
  · exact Nat.two_pow_pos 64
  · exact strtoull_lt 0 _

/-- A queue before its uid is chosen. -/
def QueueInfo.anonymous (q : QueueInfo) : QueueInfo := { q with uid := 0 }

theorem QueueInfo.anonymous_of_uid {q : QueueInfo} (h : q.uid = 0) : q.anonymous = q := by
  cases q
  cases h
  rfl

/-- What the loop does with a dispatch: skip a ring it has seen, else remember it and report the
    queue if the filter lets it through. -/
theorem handleKfdUprobeLine_eq (host : Nat → HostView) (pidFilter : Int) (st : KfdUprobeState)
    (line : Bytes) :
    handleKfdUprobeLine host pidFilter st line =
      match dispatchOf? (host st.lineNo) line with
      | none => { st with lineNo := st.lineNo + 1 }
      | some d =>
          if d.ringBase.toNat ∈ st.seen then { st with lineNo := st.lineNo + 1 }
          else
            { nextUid := st.nextUid + 1
              lineNo := st.lineNo + 1
              seen := d.ringBase.toNat :: st.seen
              reported := st.reported ++
                if passes pidFilter d then [{ d with uid := st.nextUid }] else [] } := by
  have hring : (UInt64.ofNat (getU64 line "ring")).toNat = getU64 line "ring" :=
    UInt64.toNat_ofNat_of_lt' (getU64_lt line "ring")
  unfold handleKfdUprobeLine dispatchOf?
  dsimp only
  by_cases hdispatch : (str "DISPATCH ").isPrefixOf line
  · by_cases hzero : getU64 line "ring" = 0 ∨ u32 (getU64 line "slots") = 0
    · have hnot : ¬ (getU64 line "ring" ≠ 0 ∧ u32 (getU64 line "slots") ≠ 0) := by tauto
      simp only [hdispatch, not_true_eq_false, if_false, if_pos hzero, true_and, if_neg hnot]
    · have hpos : getU64 line "ring" ≠ 0 ∧ u32 (getU64 line "slots") ≠ 0 := by tauto
      simp only [hdispatch, not_true_eq_false, if_false, if_neg hzero, true_and, if_pos hpos, hring]
      by_cases hseen : getU64 line "ring" ∈ st.seen
      · simp only [if_pos hseen]
      · simp only [if_neg hseen]
        by_cases hfilter : pidFilter ≠ 0 ∧ toInt32 (getU64 line "pid") ≠ pidFilter
        · simp only [if_pos hfilter, passes, hfilter.1, hfilter.2, decide_false, Bool.or_self,
            Bool.false_eq_true, if_false, List.append_nil]
        · have hpass : pidFilter = 0 ∨ toInt32 (getU64 line "pid") = pidFilter := by
            simpa only [not_and_or, not_not] using hfilter
          simp only [if_neg hfilter, passes, ← Bool.decide_or, decide_eq_true_eq, if_pos hpass]
  · simp only [hdispatch, if_true, if_false, false_and, not_false_eq_true, Bool.false_eq_true]

/-- What is reported of a list of lines, on top of what was: of every ring its first dispatch, if
    that passes the filter. -/
theorem reported_foldl (host : Nat → HostView) (pidFilter : Int) (ls : List Bytes)
    (st : KfdUprobeState) (pre : List QueueInfo)
    (hseen : ∀ ring, ring ∈ st.seen ↔ ring ∈ pre.map (fun q => q.ringBase.toNat)) :
    (ls.foldl (handleKfdUprobeLine host pidFilter) st).reported.map QueueInfo.anonymous =
      st.reported.map QueueInfo.anonymous ++
        (firsts QueueInfo.ringBase pre (dispatches host st.lineNo ls)).filter (passes pidFilter) := by
  induction ls generalizing st pre with
  | nil => simp [dispatches, firsts]
  | cons line ls ih =>
      rw [List.foldl_cons, dispatches, handleKfdUprobeLine_eq]
      cases hd : dispatchOf? (host st.lineNo) line with
      | none => exact ih _ pre hseen
      | some d =>
          have hmem : d.ringBase.toNat ∈ st.seen ↔ d.ringBase ∈ pre.map QueueInfo.ringBase := by
            rw [hseen]
            simp [UInt64.toNat_inj]
          have huid : QueueInfo.anonymous d = d := by
            refine QueueInfo.anonymous_of_uid ?_
            unfold dispatchOf? at hd
            split at hd
            · exact congrArg QueueInfo.uid (Option.some.inj hd).symm
            · exact absurd hd (by simp)
          simp only [Option.toList_some, List.singleton_append]
          by_cases hold : d.ringBase.toNat ∈ st.seen
          · rw [if_pos hold, firsts_cons_of_mem (hmem.1 hold)]
            refine ih { st with lineNo := st.lineNo + 1 } (d :: pre) (fun ring => ?_)
            rw [List.map_cons, List.mem_cons, ← hseen ring]
            exact ⟨.inr, fun h => h.elim (fun heq => heq ▸ hold) id⟩
          · rw [if_neg hold, firsts_cons_of_notMem (mt hmem.2 hold), List.filter_cons]
            rw [ih _ (d :: pre) (fun ring => by
              rw [List.mem_cons, List.map_cons, List.mem_cons, hseen ring])]
            by_cases hpass : passes pidFilter d
            · rw [if_pos hpass, if_pos hpass, List.map_append, List.append_assoc]
              exact congrArg (fun q => _ ++ q :: _) huid
            · rw [if_neg hpass, if_neg hpass, List.append_nil]

/-! ## When every queue is reported -/

/-- **One report per queue**: for every stream, split in any way, and every pid filter, `RunKfdUprobe`
    ends and has reported exactly the first dispatch of every queue whose process passes the filter,
    in order, if and only if every piece of the stream ends in a newline, and the first dispatch on
    the ring of every dispatch that passes the filter is by the same process. -/
theorem kfdUprobe_reports_once_iff (host : Nat → HostView) (pidFilter : Int) (nextUid : Nat)
    (prebuf : Bytes) (reads : List ReadResult) :
    let ds := dispatches host 0 (lines newline (stream prebuf reads))
    (∃ fuel r, runKfdUprobe host pidFilter nextUid prebuf reads fuel = some r ∧
        r.state.reported.map QueueInfo.anonymous = firstDispatches pidFilter ds) ↔
      SplitAtNewlines prebuf reads ∧
        ∀ d ∈ ds, passes pidFilter d = true →
          (ds.find? (fun first => first.ringBase = d.ringBase)).map QueueInfo.pid = some d.pid := by
  intro ds
  have hreported := reported_foldl host pidFilter (lines newline (stream prebuf reads))
    { nextUid := nextUid } [] (fun _ => Iff.rfl)
  have hkey : ∀ d : QueueInfo,
      (ds.find? (fun first => decide (first.ringBase = d.ringBase))).map QueueInfo.key = some d.key ↔
      (ds.find? (fun first => decide (first.ringBase = d.ringBase))).map QueueInfo.pid = some d.pid := by
    intro d
    cases hfind : ds.find? (fun first => decide (first.ringBase = d.ringBase)) with
    | none => simp
    | some first =>
        have hring : first.ringBase = d.ringBase := by simpa using List.find?_some hfind
        simp [QueueInfo.key, hring]
  have hring : ∀ a b : QueueInfo, a.key = b.key → a.ringBase = b.ringBase :=
    fun a b h => congrArg Prod.snd h
  have hpid : ∀ a b : QueueInfo, a.key = b.key → passes pidFilter a = passes pidFilter b := by
    intro a b h
    simp only [passes, show a.pid = b.pid from congrArg Prod.fst h]
  have hiff := filter_firsts_eq_iff hring (passes pidFilter) hpid ds
  simp only [hkey] at hiff
  rw [← hiff]
  refine (LineReader.run_state_iff (handleKfdUprobeLine host pidFilter) prebuf reads
    { nextUid := nextUid }
    (fun st => st.reported.map QueueInfo.anonymous = firstDispatches pidFilter ds)).trans ?_
  rw [hreported]
  rfl

/-- Two processes dispatch on rings at the same address. -/
def sharedAddress : Bytes :=
  str "DISPATCH pid=7 comm=a ring=0x1000 slots=64\nDISPATCH pid=8 comm=b ring=0x1000 slots=64\n"

/-- Each of the two processes has a queue, and only that of the first is reported. -/
theorem second_process_unreported :
    let host : Nat → HostView := fun _ => ⟨fun _ => none, 0⟩
    let reads : List ReadResult := [.data sharedAddress (by decide)]
    (firstDispatches 0 (dispatches host 0 (lines newline (stream [] reads)))).map QueueInfo.pid = [7, 8] ∧
      (runKfdUprobe host 0 1 [] reads 3).map (fun r => r.state.reported.map QueueInfo.pid) =
        some [7] ∧
      ¬ ∃ fuel r, runKfdUprobe host 0 1 [] reads fuel = some r ∧
        r.state.reported.map QueueInfo.anonymous =
          firstDispatches 0 (dispatches host 0 (lines newline (stream [] reads))) := by
  intro host reads
  refine ⟨by decide +kernel, by decide +kernel, fun hex => ?_⟩
  have hall := ((LineReader.run_state_iff (handleKfdUprobeLine host 0) [] reads { nextUid := 1 }
    (fun st => st.reported.map QueueInfo.anonymous =
      firstDispatches 0 (dispatches host 0 (lines newline (stream [] reads))))).1 hex).2
  exact absurd (congrArg List.length hall) (by decide +kernel)

end HsaSnoop
