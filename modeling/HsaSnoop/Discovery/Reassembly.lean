import HsaSnoop.Discovery.Readers
import HsaSnoop.Library.Lines

set_option autoImplicit false

/-! # Line reassembly

What the line loop of the bpftrace readers makes of a stream, for every way the stream is split into
the start-up prefix and the chunks that follow. A turn reads only when the buffer is empty and erases
only complete lines. So a piece that does not end in a newline leaves the loop with a buffer it will
neither add to nor take from (`LineReader.run_of_stuck`): it turns forever. Otherwise every piece is
used up before the next is read, and the lines handled are those of the whole stream. -/

namespace HsaSnoop

open Lines

/-! ## The stream -/

def ReadResult.chunk? : ReadResult → Option Bytes
  | .data chunk _ => some chunk
  | .eintr => none

/-- The chunks the reads return. -/
def chunks (reads : List ReadResult) : List Bytes := reads.filterMap ReadResult.chunk?

@[simp] theorem chunks_data (chunk : Bytes) (h : chunk ≠ []) (reads : List ReadResult) :
    chunks (.data chunk h :: reads) = chunk :: chunks reads := rfl

@[simp] theorem chunks_eintr (reads : List ReadResult) : chunks (.eintr :: reads) = chunks reads := rfl

/-- What the child wrote: the prefix and everything read after it. -/
def stream (prebuf : Bytes) (reads : List ReadResult) : Bytes := prebuf ++ (chunks reads).flatten

/-- Every piece of the stream ends in a newline (the prefix may be empty). -/
def SplitAtNewlines (prebuf : Bytes) (reads : List ReadResult) : Prop :=
  Closed newline prebuf ∧ ∀ chunk ∈ chunks reads, Closed newline chunk

namespace LineReader

variable {σ : Type} {handle : σ → Bytes → σ} {r : LineReader σ}

/-! ## The inner loop -/

/-- A reader that has handled `ls` on top of what it had. -/
def handling (handle : σ → Bytes → σ) (r : LineReader σ) (ls : List Bytes) (buf : Bytes)
    (reads : List ReadResult) : LineReader σ where
  buf := buf
  reads := reads
  handled := r.handled ++ ls
  state := ls.foldl handle r.state

theorem handling_nil (buf : Bytes) (reads : List ReadResult) :
    r.handling handle [] buf reads = { r with buf := buf, reads := reads } := by
  simp [handling]

theorem handling_handling (ls ls' : List Bytes) (buf buf' : Bytes) (reads reads' : List ReadResult) :
    (r.handling handle ls buf reads).handling handle ls' buf' reads' =
      r.handling handle (ls ++ ls') buf' reads' := by
  simp [handling]

/-- The inner loop handles the complete lines of the buffer and leaves what follows them, which is
    where the lines of what is read next begin. -/
theorem drainLines_spec (handle : σ → Bytes → σ) (r : LineReader σ) :
    ∃ rest, newline ∉ rest ∧ (Closed newline r.buf ↔ rest = []) ∧
      r.drainLines handle = r.handling handle (lines newline r.buf) rest r.reads ∧
      ∀ more, lines newline (r.buf ++ more) = lines newline r.buf ++ lines newline (rest ++ more) := by
  induction r using LineReader.drainLines.induct handle with
  | case1 r hnone =>
      have hmem : newline ∉ r.buf := List.idxOf?_eq_none_iff.1 hnone
      refine ⟨r.buf, hmem, closed_iff_nil_of_notMem hmem, ?_, ?_⟩
      · rw [lines_of_notMem hmem, handling_nil, drainLines]
        split
        · rfl
        · next nl h =>
            rw [hnone] at h
            cases h
      · intro more
        rw [lines_of_notMem hmem, List.nil_append]
  | case2 r nl hsome ih =>
      obtain ⟨hline, hbuf⟩ := take_append_drop_of_idxOf? hsome
      obtain ⟨rest, hrest, hclosed, heq, hmore⟩ := ih
      refine ⟨rest, hrest, ?_, ?_, ?_⟩
      · rw [hbuf, closed_append_cons]
        exact hclosed
      · rw [drainLines]
        split
        · next h =>
            rw [hsome] at h
            cases h
        · next nl' h =>
            obtain rfl : nl = nl' := Option.some.inj (hsome.symm.trans h)
            rw [heq]
            conv_rhs => rw [hbuf, lines_append_cons hline]
            simp [handling]
      · intro more
        rw [hbuf, List.append_assoc, List.cons_append, lines_append_cons hline,
          lines_append_cons hline, hmore more, List.cons_append]

/-! ## The outer loop -/

/-- A buffer without a newline is never read past. -/
theorem run_of_stuck (hne : r.buf ≠ []) (hmem : newline ∉ r.buf) (fuel : Nat) :
    run handle fuel r = none := by
  induction fuel with
  | zero => rfl
  | succ fuel ih =>
      have hdrain : r.drainLines handle = r := by
        rw [drainLines]
        split
        · rfl
        · next nl h =>
            exact absurd (List.isSome_idxOf?.1 (Option.isSome_of_eq_some h)) hmem
      rw [run, turn, if_neg hne, hdrain]
      exact ih

theorem run_succ {r' : LineReader σ} (h : turn handle r = some r') (fuel : Nat) :
    run handle (fuel + 1) r = run handle fuel r' := by
  rw [run, h]

theorem drainLines_of_closed (h : Closed newline r.buf) :
    r.drainLines handle = r.handling handle (lines newline r.buf) [] r.reads := by
  obtain ⟨rest, -, hclosed, heq, -⟩ := drainLines_spec handle r
  rw [heq, hclosed.1 h]

/-- After a piece that does not end in a newline the loop never ends. -/
theorem run_drainLines_of_not_closed (h : ¬ Closed newline r.buf) (fuel : Nat) :
    run handle fuel (r.drainLines handle) = none := by
  obtain ⟨rest, hrest, hclosed, heq, -⟩ := drainLines_spec handle r
  rw [heq]
  exact run_of_stuck (fun hnil => h (hclosed.2 hnil)) hrest fuel

/-- Chunks that end in newlines are used up one by one. -/
theorem run_of_closed (handle : σ → Bytes → σ) {reads : List ReadResult} (r : LineReader σ)
    (h : ∀ chunk ∈ chunks reads, Closed newline chunk) :
    ∃ fuel, run handle fuel { r with buf := [], reads := reads } =
      some (r.handling handle (lines newline (chunks reads).flatten) [] []) := by
  induction reads generalizing r with
  | nil => exact ⟨1, congrArg some (@handling_nil σ handle r [] []).symm⟩
  | cons read reads ih =>
      cases read with
      | eintr =>
          obtain ⟨fuel, hfuel⟩ := ih r h
          exact ⟨fuel + 1, hfuel⟩
      | data chunk hne =>
          have hchunk : Closed newline chunk := h chunk (List.mem_cons_self ..)
          let read : LineReader σ := { r with buf := chunk, reads := reads }
          obtain ⟨fuel, hfuel⟩ := ih (r.handling handle (lines newline chunk) [] reads)
            (fun c hc => h c (List.mem_cons_of_mem chunk hc))
          refine ⟨fuel + 1, ?_⟩
          rw [run_succ (show turn handle _ = some (read.drainLines handle) from rfl),
            drainLines_of_closed (show Closed newline read.buf from hchunk)]
          rw [handling_handling] at hfuel
          rw [chunks_data, List.flatten_cons, lines_append hchunk]
          exact hfuel

/-- A chunk that does not end in a newline stops the progress of the loop for good. -/
theorem run_of_not_closed (handle : σ → Bytes → σ) {reads : List ReadResult} (r : LineReader σ)
    (h : ¬ ∀ chunk ∈ chunks reads, Closed newline chunk) (fuel : Nat) :
    run handle fuel { r with buf := [], reads := reads } = none := by
  induction reads generalizing r fuel with
  | nil => exact absurd (fun chunk hc => by cases hc) h
  | cons read reads ih =>
      cases fuel with
      | zero => rfl
      | succ fuel =>
          cases read with
          | eintr => exact ih r h fuel
          | data chunk hne =>
              let read : LineReader σ := { r with buf := chunk, reads := reads }
              rw [run_succ (show turn handle _ = some (read.drainLines handle) from rfl)]
              by_cases hchunk : Closed newline chunk
              · rw [drainLines_of_closed (show Closed newline read.buf from hchunk)]
                refine ih (r.handling handle (lines newline chunk) [] reads) (fun hall => h ?_) fuel
                simpa [hchunk] using hall
              · exact run_drainLines_of_not_closed hchunk fuel

/-- The loop works through a closed prefix in one turn, or in none when it is empty. -/
theorem run_of_prefix_closed (handle : σ → Bytes → σ) (r : LineReader σ)
    (h : Closed newline r.buf) :
    ∃ turns, (∀ fuel, run handle (turns + fuel) r =
      run handle fuel (r.handling handle (lines newline r.buf) [] r.reads)) ∧
      ∀ fuel < turns, run handle fuel r = none := by
  by_cases hbuf : r.buf = []
  · refine ⟨0, fun fuel => ?_, fun fuel hlt => absurd hlt (Nat.not_lt_zero fuel)⟩
    rw [← drainLines_of_closed h, Nat.zero_add, drainLines]
    split
    · rfl
    · next nl hsome => simp [hbuf] at hsome
  · refine ⟨1, fun fuel => ?_, fun fuel hlt => ?_⟩
    · rw [Nat.add_comm, run_succ (show turn handle r = some (r.drainLines handle) from if_neg hbuf),
        drainLines_of_closed h]
    · obtain rfl : fuel = 0 := by omega
      rfl

theorem run_of_prefix_not_closed (handle : σ → Bytes → σ) (r : LineReader σ)
    (h : ¬ Closed newline r.buf) (fuel : Nat) : run handle fuel r = none := by
  have hne : r.buf ≠ [] := fun hnil => h (.inl hnil)
  cases fuel with
  | zero => rfl
  | succ fuel =>
      rw [run_succ (show turn handle r = some (r.drainLines handle) from if_neg hne)]
      exact run_drainLines_of_not_closed h fuel

/-- A loop that ends has been given pieces that end in newlines. -/
theorem splitAtNewlines_of_run {prebuf : Bytes} {reads : List ReadResult} {init : σ} {fuel : Nat}
    (hrun : run handle fuel { buf := prebuf, reads := reads, state := init } = some r) :
    SplitAtNewlines prebuf reads := by
  let start : LineReader σ := { buf := prebuf, reads := reads, state := init }
  have hpre : Closed newline prebuf := by
    by_contra hopen
    exact absurd ((run_of_prefix_not_closed handle start hopen fuel).symm.trans hrun) (by simp)
  refine ⟨hpre, ?_⟩
  by_contra hopen
  obtain ⟨turns, hafter, hbefore⟩ := run_of_prefix_closed handle start hpre
  by_cases hfuel : fuel < turns
  · exact absurd ((hbefore fuel hfuel).symm.trans hrun) (by simp)
  · obtain ⟨fuel, rfl⟩ := Nat.exists_eq_add_of_le (Nat.le_of_not_lt hfuel)
    have hnone := run_of_not_closed handle
      (start.handling handle (lines newline prebuf) [] reads) hopen fuel
    exact absurd (hnone.symm.trans ((hafter fuel).symm.trans hrun)) (by simp)

/-- **What the loop makes of a split stream**: it ends, having handled the lines of the stream,
    exactly when every piece ends in a newline. -/
theorem run_iff_splitAtNewlines (handle : σ → Bytes → σ) (prebuf : Bytes)
    (reads : List ReadResult) (init : σ) :
    (∃ fuel r, run handle fuel { buf := prebuf, reads := reads, state := init } = some r ∧
      r.handled = lines newline (stream prebuf reads) ∧
      r.state = (lines newline (stream prebuf reads)).foldl handle init) ↔
    SplitAtNewlines prebuf reads := by
  let start : LineReader σ := { buf := prebuf, reads := reads, state := init }
  constructor
  · rintro ⟨fuel, r, hrun, -⟩
    exact splitAtNewlines_of_run hrun
  · rintro ⟨hpre, hreads⟩
    obtain ⟨turns, hafter, -⟩ := run_of_prefix_closed handle start hpre
    obtain ⟨fuel, hfuel⟩ := run_of_closed handle
      (start.handling handle (lines newline prebuf) [] reads) hreads
    refine ⟨turns + fuel, _, (hafter fuel).trans hfuel, ?_, ?_⟩
    · rw [handling_handling, ← lines_append hpre]
      rfl
    · rw [handling_handling, ← lines_append hpre]
      rfl

/-- More turns than it takes change nothing. -/
theorem run_add {r' : LineReader σ} {fuel : Nat} (h : run handle fuel r = some r') (more : Nat) :
    run handle (fuel + more) r = some r' := by
  induction fuel generalizing r with
  | zero => cases h
  | succ fuel ih =>
      rw [Nat.add_right_comm]
      unfold run at h ⊢
      cases hturn : turn handle r with
      | none =>
          rw [hturn] at h
          exact h
      | some next =>
          rw [hturn] at h
          exact ih h

/-- What the loop has computed when it ends. -/
theorem run_state_iff (handle : σ → Bytes → σ) (prebuf : Bytes) (reads : List ReadResult) (init : σ)
    (P : σ → Prop) :
    (∃ fuel r, run handle fuel { buf := prebuf, reads := reads, state := init } = some r ∧
      P r.state) ↔
    SplitAtNewlines prebuf reads ∧ P ((lines newline (stream prebuf reads)).foldl handle init) := by
  constructor
  · rintro ⟨fuel, r, hrun, hr⟩
    have hsplit := splitAtNewlines_of_run hrun
    obtain ⟨fuel', r', hrun', -, hstate⟩ := (run_iff_splitAtNewlines handle prebuf reads init).2 hsplit
    -- Both runs have ended by the sum of their turns, in the same reader.
    have heq := (run_add hrun fuel').symm.trans
      ((congrArg (run handle · _) (Nat.add_comm fuel fuel')).trans (run_add hrun' fuel))
    rw [Option.some_inj] at heq
    subst heq
    exact ⟨hsplit, hstate ▸ hr⟩
  · rintro ⟨hsplit, hP⟩
    obtain ⟨fuel, r, hrun, -, hstate⟩ := (run_iff_splitAtNewlines handle prebuf reads init).2 hsplit
    exact ⟨fuel, r, hrun, hstate ▸ hP⟩

end LineReader

/-! ## The two readers -/

/-- **Reassembly in the readers**: for every stream and every split of it, `RunBpftrace` and
    `RunKfdUprobe` end and handle exactly the newline-terminated lines of the stream, in order, if and
    only if the prefix and every chunk end in a newline. -/
theorem readers_reassemble_iff (host : Nat → HostView) (pidFilter : Int) (nextUid : Nat)
    (prebuf : Bytes) (reads : List ReadResult) :
    ((∃ fuel r, runBpftrace host pidFilter prebuf reads fuel = some r ∧
        r.handled = lines newline (stream prebuf reads) ∧
        r.state = (lines newline (stream prebuf reads)).foldl
          (handleBpftraceLine host pidFilter) {}) ↔
      SplitAtNewlines prebuf reads) ∧
    ((∃ fuel r, runKfdUprobe host pidFilter nextUid prebuf reads fuel = some r ∧
        r.handled = lines newline (stream prebuf reads) ∧
        r.state = (lines newline (stream prebuf reads)).foldl
          (handleKfdUprobeLine host pidFilter) { nextUid := nextUid }) ↔
      SplitAtNewlines prebuf reads) :=
  ⟨LineReader.run_iff_splitAtNewlines _ prebuf reads _,
    LineReader.run_iff_splitAtNewlines _ prebuf reads _⟩

/-! ## What arming leaves behind -/

theorem contains_iff {s needle : Bytes} : contains s needle ↔ needle <:+: s := by
  induction s with
  | nil =>
      by_cases h : needle = [] <;> simp [contains, find?, h]
  | cons c s ih =>
      rw [List.infix_cons_iff, ← List.isPrefixOf_iff_prefix, ← ih]
      by_cases h : needle.isPrefixOf (c :: s) <;> simp [contains, find?, h]

def ArmPoll.byte? : ArmPoll → Option UInt8
  | .byte c => some c
  | _ => none

/-- Arming keeps what it reads: the prefix is what the turns taken have read, in order. -/
theorem armKfdUprobe_prefix {polls : List ArmPoll} {pre prebuf : Bytes}
    (h : armKfdUprobe polls pre = some prebuf) :
    ∃ taken, taken <+: polls ∧ prebuf = pre ++ taken.filterMap ArmPoll.byte? := by
  induction polls generalizing pre with
  | nil =>
      cases h
      exact ⟨[], List.nil_prefix, (List.append_nil _).symm⟩
  | cons poll polls ih =>
      cases poll with
      | idle =>
          obtain ⟨taken, htaken, rfl⟩ := ih h
          exact ⟨.idle :: taken, List.cons_prefix_cons.2 ⟨rfl, htaken⟩, rfl⟩
      | closed => cases h
      | byte c =>
          rw [armKfdUprobe] at h
          split at h
          · cases h
            exact ⟨[.byte c], List.cons_prefix_cons.2 ⟨rfl, List.nil_prefix⟩, rfl⟩
          · obtain ⟨taken, htaken, rfl⟩ := ih h
            refine ⟨.byte c :: taken, List.cons_prefix_cons.2 ⟨rfl, htaken⟩, ?_⟩
            exact List.append_assoc ..

theorem armBpftrace_prefix {turns : List ArmTurn} {pre prebuf : Bytes}
    (h : armBpftrace turns pre = some prebuf) :
    ∃ taken, taken <+: turns ∧ prebuf = pre ++ (taken.map ArmTurn.chunk).flatten := by
  induction turns generalizing pre with
  | nil =>
      cases h
      exact ⟨[], List.nil_prefix, (List.append_nil _).symm⟩
  | cons t turns ih =>
      rw [armBpftrace] at h
      split at h
      · cases h
        exact ⟨[t], List.cons_prefix_cons.2 ⟨rfl, List.nil_prefix⟩, by simp⟩
      · split at h
        · cases h
        · obtain ⟨taken, htaken, rfl⟩ := ih h
          exact ⟨t :: taken, List.cons_prefix_cons.2 ⟨rfl, htaken⟩, by simp⟩

/-- The arm loop of `StartKfdUprobe` stops at the very byte that completes `Attaching`. -/
theorem armKfdUprobe_suffix {polls : List ArmPoll} {pre prebuf : Bytes}
    (h : armKfdUprobe polls pre = some prebuf) (hpre : ¬ contains pre (str "Attaching"))
    (harmed : contains prebuf (str "Attaching")) : str "Attaching" <:+ prebuf := by
  induction polls generalizing pre with
  | nil =>
      cases h
      exact absurd harmed hpre
  | cons poll polls ih =>
      cases poll with
      | idle => exact ih h hpre
      | closed => cases h
      | byte c =>
          rw [armKfdUprobe] at h
          split at h
          · cases h
            rcases List.infix_concat_iff.1 (contains_iff.1 harmed) with hsuffix | hinfix
            · exact hsuffix
            · exact absurd (contains_iff.2 hinfix) hpre
          · next hnot => exact ih h hnot

/-- Once armed, kfd-uprobe discovery never handles a line: its prefix ends in `Attaching`. -/
theorem armed_kfdUprobe_never_ends {polls : List ArmPoll} {prebuf : Bytes}
    (h : armKfdUprobe polls [] = some prebuf) (harmed : contains prebuf (str "Attaching"))
    (host : Nat → HostView) (pidFilter : Int) (nextUid : Nat) (reads : List ReadResult)
    (fuel : Nat) : runKfdUprobe host pidFilter nextUid prebuf reads fuel = none := by
  obtain ⟨before, rfl⟩ := armKfdUprobe_suffix h (by decide) harmed
  refine LineReader.run_of_prefix_not_closed _ _ ?_ fuel
  have hg : (str "Attaching").getLast? = some 103 := by decide
  rintro (hnil | hlast)
  · simp [str] at hnil
  · rw [List.getLast?_append, hg, Option.some_or] at hlast
    exact absurd (Option.some.inj hlast) (by decide)

/-- bpftrace as it starts: it attaches, then reports a dispatch. -/
def attachingOutput : List ArmPoll := (str "Attaching").map ArmPoll.byte

def dispatchOutput : Bytes := str " 1 probe...\nDISPATCH pid=7 comm=a ring=0x1000 slots=64\n"

/-- Arming stops at the prefix `Attaching`; the stream has two lines, and the loop handles none of
    them in any number of turns. -/
theorem attaching_prefix_spins :
    armKfdUprobe attachingOutput [] = some (str "Attaching") ∧
      lines newline (stream (str "Attaching") [.data dispatchOutput (by decide)]) =
        [str "Attaching 1 probe...", str "DISPATCH pid=7 comm=a ring=0x1000 slots=64"] ∧
      ¬ ∃ fuel r, runKfdUprobe (fun _ => ⟨fun _ => none, 0⟩) 0 1 (str "Attaching")
        [.data dispatchOutput (by decide)] fuel = some r := by
  refine ⟨by decide +kernel, by decide +kernel, ?_⟩
  rintro ⟨fuel, r, hrun⟩
  have harm : armKfdUprobe attachingOutput [] = some (str "Attaching") := by decide +kernel
  rw [armed_kfdUprobe_never_ends harm (by decide +kernel)] at hrun
  cases hrun

end HsaSnoop
