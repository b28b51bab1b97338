import HsaSnoop.Discovery.Reassembly
import HsaSnoop.Discovery.TextProtocol

set_option autoImplicit false

/-! # kprobe mode

`RunKprobe` reads the lines of the ftrace pipe: a head `<comm>-<pid>`, the CPU in brackets, more of
ftrace's own, and the six fields of the probe. It takes the head up to the first ` [` of the line, the
pid from behind the head's last dash, and every field from behind its first ` key=`. All three
searches start at the front of the line, where the task's name stands, so a name can answer them.

`kprobeLine` is the line ftrace prints. `KprobeName` says which names leave it readable. -/

namespace HsaSnoop

open Fields Lines

/-! ## The loop -/

/-- `FindU64`: the number after ` key=`, 0 when there is none. -/
def findU64 (line : Bytes) (key : String) : Nat :=
  let needle := str " " ++ str key ++ str "="
  match find? needle line with
  | none => 0
  | some p => strtoull 10 (line.drop (p + needle.length))

/-- The bytes trimmed off a name. -/
def isBlank (c : UInt8) : Bool := c = 32 || c = 9

/-- `hsasnoop_cq_<pid of the snoop>`. -/
def probeName (self : Nat) : Bytes := str "hsasnoop_cq_" ++ decimal self

structure KprobeState where
  nextUid : Nat := 1
  lineNo : Nat := 0
  /-- The queues passed to the callback. -/
  reported : List QueueInfo := []

/-- The body of the line loop of `RunKprobe`. -/
def handleKprobeLine (host : Nat → HostView) (probe : Bytes) (pidFilter : Int) (st : KprobeState)
    (line : Bytes) : KprobeState :=
  let skipped := { st with lineNo := st.lineNo + 1 }
  if line = [] ∨ line.head? = some 35 then skipped
  else if ¬ contains line probe then skipped
  else
    match find? (str " [") line with
    | none => skipped
    | some cpu =>
        let head := line.take cpu
        match rfind? 45 head with
        | none => skipped
        | some dash =>
            let pid := atoi (head.drop (dash + 1))
            let comm := head.take dash
            -- A name of blanks only is left as it is.
            let comm := if comm.all isBlank then comm else comm.dropWhile isBlank
            if pidFilter ≠ 0 ∧ pid ≠ pidFilter then skipped
            else
              let q : QueueInfo :=
                { pid := pid
                  comm := ((host st.lineNo).comm? pid).getD comm
                  ringBase := UInt64.ofNat (findU64 line "ring_base")
                  wptrAddr := UInt64.ofNat (findU64 line "wptr")
                  rptrAddr := UInt64.ofNat (findU64 line "rptr")
                  ringSize := UInt32.ofNat (findU64 line "ring_size")
                  gpuId := u32 (findU64 line "gpu_id")
                  qtype := u32 (findU64 line "qtype")
                  createTs := (host st.lineNo).now
                  uid := st.nextUid }
              { nextUid := st.nextUid + 1
                lineNo := st.lineNo + 1
                reported :=
                  if q.ringBase ≠ 0 ∧ q.ringSize ≠ 0 then st.reported ++ [q] else st.reported }

/-- `RunKprobe`, over the chunks its reads return until it is stopped: each is appended to the buffer,
    whose complete lines are then handled. -/
def runKprobe (host : Nat → HostView) (probe : Bytes) (pidFilter : Int) (chunks : List Bytes) :
    LineReader KprobeState :=
  chunks.foldl
    (fun r chunk =>
      LineReader.drainLines (handleKprobeLine host probe pidFilter) { r with buf := r.buf ++ chunk })
    { buf := [], reads := [], state := {} }

/-- However the stream is split, its lines are handled one by one. -/
theorem foldl_drainLines_state {σ : Type} (handle : σ → Bytes → σ) (chunks : List Bytes)
    {r : LineReader σ} (hr : newline ∉ r.buf) :
    (chunks.foldl (fun r chunk => LineReader.drainLines handle { r with buf := r.buf ++ chunk })
        r).state =
      (lines newline (r.buf ++ chunks.flatten)).foldl handle r.state := by
  induction chunks generalizing r with
  | nil =>
      rw [List.flatten_nil, List.append_nil, lines_of_notMem hr]
      rfl
  | cons chunk chunks ih =>
      obtain ⟨rest, hrest, -, hdrain, hmore⟩ :=
        LineReader.drainLines_spec handle { r with buf := r.buf ++ chunk }
      rw [List.foldl_cons, hdrain, ih hrest, List.flatten_cons, ← List.append_assoc,
        hmore chunks.flatten, List.foldl_append]
      rfl

/-- A stream of one line. -/
theorem runKprobe_line (host : Nat → HostView) (probe : Bytes) (pidFilter : Int) {chunks : List Bytes}
    {line : Bytes} (hline : newline ∉ line) (hchunks : chunks.flatten = line ++ [newline]) :
    (runKprobe host probe pidFilter chunks).state = handleKprobeLine host probe pidFilter {} line := by
  have hnil : newline ∉ ({ buf := [], reads := [], state := {} } : LineReader KprobeState).buf :=
    List.not_mem_nil
  have hstate := foldl_drainLines_state (handleKprobeLine host probe pidFilter) chunks hnil
  rw [List.nil_append, hchunks, lines_append_cons hline, lines_of_notMem List.not_mem_nil] at hstate
  exact hstate

/-! ## The line ftrace prints -/

/-- The creation of a queue that has a ring. -/
structure KprobeEvent where
  pid : Int32
  ringBase : UInt64
  wptr : UInt64
  rptr : UInt64
  ringSize : UInt32
  gpuId : UInt32
  qtype : UInt32
  pid_pos : 0 < pid.toInt
  ringBase_ne : ringBase ≠ 0
  ringSize_ne : ringSize ≠ 0

/-- A text of ftrace's own: no newline, and no field in it. -/
structure TraceText where
  bytes : Bytes
  noNewline : (10 : UInt8) ∉ bytes
  noEquals : (61 : UInt8) ∉ bytes

/-- What ftrace adds to an event. -/
structure TraceContext where
  /-- The blanks that fill up the pid's column. -/
  fill : Nat
  cpu : Nat
  flags : TraceText
  timestamp : TraceText
  function : TraceText

/-- `%16s`. -/
def column (comm : Bytes) : Bytes := List.replicate (16 - comm.length) 32 ++ comm

/-- `%03d`. -/
def cpuText (cpu : Nat) : Bytes := List.replicate (3 - (decimal cpu).length) 48 ++ decimal cpu

/-- `<comm>-<pid>`. -/
def kprobeHead (comm : Bytes) (pid : Int) : Bytes := column comm ++ 45 :: signedDecimal pid

/-- What stands between the pid and the fields, from behind the bracket on. -/
def contextText (probe : Bytes) (ctx : TraceContext) : Bytes :=
  cpuText ctx.cpu ++ str "] " ++ ctx.flags.bytes ++ str " " ++ ctx.timestamp.bytes ++ str ": " ++
    probe ++ str ": (" ++ ctx.function.bytes ++ str ")"

def kprobeNumbers (e : KprobeEvent) : List (Bytes × Bytes) :=
  [(str "ring_base", decimal e.ringBase.toNat), (str "wptr", decimal e.wptr.toNat),
    (str "rptr", decimal e.rptr.toNat), (str "ring_size", decimal e.ringSize.toNat),
    (str "gpu_id", decimal e.gpuId.toNat), (str "qtype", decimal e.qtype.toNat)]

/-- `<comm>-<pid> [cpu] flags timestamp: probe: (function) ring_base=.. wptr=.. …`. -/
def kprobeLine (probe comm : Bytes) (ctx : TraceContext) (e : KprobeEvent) : Bytes :=
  kprobeHead comm e.pid.toInt ++ List.replicate ctx.fill 32 ++ str " [" ++ contextText probe ctx ++
    fieldsText 32 61 (kprobeNumbers e)

/-! ## Searching the head -/

/-- A text in front of a byte the needle does not have. -/
theorem find?_append_cons {needle : Bytes} {c : UInt8} (hne : needle ≠ []) (hc : c ∉ needle)
    (l s : Bytes) :
    find? needle (l ++ c :: s) =
      match find? needle l with
      | some i => some i
      | none => (find? needle (c :: s)).map (· + l.length) := by
  induction l with
  | nil =>
      rw [find?, if_neg hne]
      simp
  | cons b l ih =>
      have hiff : needle <+: b :: (l ++ c :: s) ↔ needle <+: b :: l :=
        @prefix_append_sep _ c needle (b :: l) s hc
      rw [List.cons_append]
      unfold find?
      by_cases h : needle <+: b :: l
      · rw [if_pos (List.isPrefixOf_iff_prefix.2 (hiff.2 h)), if_pos (List.isPrefixOf_iff_prefix.2 h)]
      · rw [if_neg (mt List.isPrefixOf_iff_prefix.1 (mt hiff.1 h)),
          if_neg (mt List.isPrefixOf_iff_prefix.1 h), ih]
        cases find? needle l with
        | some i => rfl
        | none =>
            rw [Option.map_none, Option.map_map]
            congr 1

theorem find?_le {needle l : Bytes} {i : Nat} (h : find? needle l = some i) : i ≤ l.length := by
  induction l generalizing i with
  | nil =>
      unfold find? at h
      split at h
      · exact Nat.le_of_eq (Option.some.inj h).symm
      · cases h
  | cons c l ih =>
      unfold find? at h
      split at h
      · rw [← Option.some.inj h]
        exact Nat.zero_le _
      · obtain ⟨j, hj, rfl⟩ := Option.map_eq_some_iff.1 h
        exact Nat.succ_le_succ (ih hj)

/-- The bracket behind a run of blanks. -/
theorem find?_bracket {l : Bytes} (hl : 32 ∉ l) (k : Nat) (s : Bytes) :
    find? (str " [") (l ++ (List.replicate k 32 ++ 32 :: 91 :: s)) = some (l.length + k) := by
  have hneedle : str " [" = [32, 91] := by decide
  rw [hneedle]
  induction l with
  | nil =>
      rw [List.nil_append, List.length_nil, Nat.zero_add]
      induction k with
      | zero => simp [find?]
      | succ k ih =>
          -- A blank with a blank behind it is not yet the bracket's.
          have hnot : ¬ [32, 91] <+: 32 :: (List.replicate k 32 ++ 32 :: 91 :: s) := by
            cases k with
            | zero => simp
            | succ k => simp [List.replicate_succ]
          rw [List.replicate_succ, List.cons_append, find?,
            if_neg (mt List.isPrefixOf_iff_prefix.1 hnot), ih]
          rfl
  | cons c l ih =>
      rw [List.mem_cons, not_or] at hl
      have hnot : ¬ [32, 91] <+: c :: (l ++ (List.replicate k 32 ++ 32 :: 91 :: s)) := by
        rw [List.cons_prefix_cons]
        exact fun h => hl.1 h.1
      rw [List.cons_append, find?, if_neg (mt List.isPrefixOf_iff_prefix.1 hnot), ih hl.2,
        Option.map_some, List.length_cons, Nat.add_right_comm]

theorem rfind?_eq_none {c : UInt8} {s : Bytes} (h : c ∉ s) : rfind? c s = none := by
  induction s with
  | nil => rfl
  | cons b s ih =>
      rw [List.mem_cons, not_or] at h
      rw [rfind?, ih h.2]
      exact if_neg (fun hb => h.1 hb.symm)

theorem rfind?_append_cons {c : UInt8} {s : Bytes} (h : c ∉ s) (l : Bytes) :
    rfind? c (l ++ c :: s) = some l.length := by
  induction l with
  | nil =>
      rw [List.nil_append, rfind?, rfind?_eq_none h]
      exact if_pos rfl
  | cons b l ih =>
      rw [List.cons_append, rfind?, ih]
      rfl

/-- The pid a head is read for: the number behind its last dash. -/
def headPid? (head : Bytes) : Option Int := (rfind? 45 head).map (fun dash => atoi (head.drop (dash + 1)))

theorem noDigit_blanks (base k : Nat) : NoDigit base (List.replicate k 32) := by
  cases k with
  | zero => exact noDigit_nil base
  | succ k => exact noDigit_cons (by decide)

theorem signedDecimal_of_pos {n : Int} (h : 0 < n) : signedDecimal n = decimal n.natAbs :=
  if_neg (by omega)

/-- A whole head is read for the pid printed into it. -/
theorem headPid?_kprobeHead (comm : Bytes) (e : KprobeEvent) (k : Nat) :
    headPid? (kprobeHead comm e.pid.toInt ++ List.replicate k 32) = some e.pid.toInt := by
  have hdash : (45 : UInt8) ∉ signedDecimal e.pid.toInt ++ List.replicate k 32 := by
    rw [signedDecimal_of_pos e.pid_pos, List.mem_append, not_or]
    refine ⟨notMem_decimal (by decide) _, ?_⟩
    intro h
    exact absurd (List.eq_of_mem_replicate h) (by decide)
  unfold headPid? kprobeHead
  rw [List.append_assoc, List.cons_append, rfind?_append_cons hdash, Option.map_some,
    ← List.drop_drop, List.drop_left, List.drop_succ_cons, List.drop_zero,
    atoi_signedDecimal e.pid.le_toInt e.pid.toInt_lt (noDigit_blanks 10 k)]

/-- Where the head of a line ends, and what it is read for: the name's doing if it holds ` [`. -/
theorem head_kprobeLine (probe comm : Bytes) (ctx : TraceContext) (e : KprobeEvent) :
    ∃ cpu, find? (str " [") (kprobeLine probe comm ctx e) = some cpu ∧
      headPid? ((kprobeLine probe comm ctx e).take cpu) =
        match find? (str " [") (column comm) with
        | some i => headPid? ((column comm).take i)
        | none => some e.pid.toInt := by
  obtain ⟨s, hs⟩ : ∃ s, kprobeLine probe comm ctx e = column comm ++ 45 :: (signedDecimal e.pid.toInt ++
      (List.replicate ctx.fill 32 ++ 32 :: 91 :: s)) := by
    refine ⟨contextText probe ctx ++ fieldsText 32 61 (kprobeNumbers e), ?_⟩
    simp [kprobeLine, kprobeHead, show str " [" = [32, 91] by decide]
  rw [hs, find?_append_cons (by decide) (by decide)]
  cases hi : find? (str " [") (column comm) with
  | some i =>
      refine ⟨i, rfl, ?_⟩
      rw [List.take_append_of_le_length (find?_le hi)]
  | none =>
      have hblank : 32 ∉ 45 :: signedDecimal e.pid.toInt := by
        rw [List.mem_cons, not_or]
        exact ⟨by decide, blank_notMem_signedDecimal _⟩
      have hfind := find?_bracket hblank ctx.fill s
      rw [List.cons_append] at hfind
      refine ⟨_, by rw [hfind]; rfl, ?_⟩
      have hhead := headPid?_kprobeHead comm e ctx.fill
      rw [← hhead]
      congr 1
      have hsplit : column comm ++ 45 :: (signedDecimal e.pid.toInt ++
          (List.replicate ctx.fill 32 ++ 32 :: 91 :: s)) =
          (kprobeHead comm e.pid.toInt ++ List.replicate ctx.fill 32) ++ 32 :: 91 :: s := by
        simp [kprobeHead]
      rw [hsplit, List.take_left' (by simp [kprobeHead]; omega)]

/-! ## The fields -/

theorem findU64_eq_spelled? (line : Bytes) (key : String) :
    findU64 line key = (spelled? 10 line key).getD 0 := by
  have hneedle : str " " ++ str key ++ str "=" = needle 32 61 (str key) := by
    rw [show str " " = [32] by decide, show str "=" = [61] by decide]
    rfl
  unfold findU64 spelled?
  rw [hneedle, ← find?_map_drop]
  dsimp only
  cases find? (needle 32 61 (str key)) line with
  | none => rfl
  | some p => rfl

theorem findU64_lt (line : Bytes) (key : String) : findU64 line key < 2 ^ 64 := by
  unfold findU64
  extract_lets needle
  split
  · decide
  · exact strtoull_lt 10 _

/-- A byte of none of the parts of ftrace's own text. -/
theorem notMem_contextText {c : UInt8} {self : Nat} {ctx : TraceContext}
    (hdigit : ∀ d < 16, c ≠ digitByte d)
    (htexts : c ∉ str "hsasnoop_cq_" ∧ c ∉ str "] " ∧ c ∉ str " " ∧ c ∉ str ": " ∧ c ∉ str ": (" ∧
      c ∉ str ")")
    (hctx : c ∉ ctx.flags.bytes ∧ c ∉ ctx.timestamp.bytes ∧ c ∉ ctx.function.bytes) :
    c ∉ contextText (probeName self) ctx := by
  obtain ⟨hname, hbracket, hblank, hcolon, hopen, hclose⟩ := htexts
  obtain ⟨hflags, htimestamp, hfunction⟩ := hctx
  have hcpu : c ∉ cpuText ctx.cpu := by
    rw [cpuText, List.mem_append, not_or]
    refine ⟨?_, notMem_decimal hdigit ctx.cpu⟩
    intro h
    exact hdigit 0 (by decide) (List.eq_of_mem_replicate h)
  have hprobe : c ∉ probeName self := by
    rw [probeName, List.mem_append, not_or]
    exact ⟨hname, notMem_decimal hdigit self⟩
  unfold contextText
  simp only [List.mem_append, not_or]
  exact ⟨⟨⟨⟨⟨⟨⟨⟨⟨hcpu, hbracket⟩, hflags⟩, hblank⟩, htimestamp⟩, hcolon⟩, hprobe⟩, hopen⟩, hfunction⟩,
    hclose⟩

/-- ftrace's own part of the line holds no equals sign. -/
theorem equals_notMem_contextText (self : Nat) (ctx : TraceContext) :
    (61 : UInt8) ∉ contextText (probeName self) ctx :=
  notMem_contextText (by decide) (by decide)
    ⟨ctx.flags.noEquals, ctx.timestamp.noEquals, ctx.function.noEquals⟩

/-- What stands in front of the fields spells a key exactly where the head does. -/
theorem spelled?_context {key : String} (hkey : 32 ∉ str key) (head : Bytes) (self : Nat)
    (ctx : TraceContext) :
    spelled? 10 (head ++ (List.replicate ctx.fill 32 ++ 32 :: 91 :: contextText (probeName self) ctx))
        key = spelled? 10 head key := by
  have hbracket : NotNumber 91 := ⟨by decide, by decide, by decide, by decide, by simp [digitValue?]⟩
  have hblanks : List.replicate ctx.fill 32 ++ 32 :: 91 :: contextText (probeName self) ctx =
      32 :: (List.replicate ctx.fill 32 ++ 91 :: contextText (probeName self) ctx) := by
    rw [← List.singleton_append, ← List.append_assoc, ← List.replicate_succ',
      List.replicate_succ, List.cons_append]
  have hnone : after? (needle 32 61 (str key))
      (32 :: (List.replicate ctx.fill 32 ++ 91 :: contextText (probeName self) ctx)) = none := by
    rw [after?_eq_none]
    intro h
    have hmem : (61 : UInt8) ∈
        32 :: (List.replicate ctx.fill 32 ++ 91 :: contextText (probeName self) ctx) :=
      h.subset (by simp [needle])
    rw [List.mem_cons, List.mem_append, List.mem_cons] at hmem
    rcases hmem with hmem | hmem | hmem | hmem
    · exact absurd hmem (by decide)
    · exact absurd (List.eq_of_mem_replicate hmem) (by decide)
    · exact absurd hmem (by decide)
    · exact equals_notMem_contextText self ctx hmem
  unfold spelled?
  rw [hblanks, needle, after?_append_sep (sep_notMem_needle blank_ne_equals hkey), ← needle, hnone]
  cases after? (needle 32 61 (str key)) head with
  | none => rfl
  | some t =>
      simp only [Option.map_some]
      rw [strtoull_append_blanks (.inr rfl) hbracket]

theorem kprobeNumbers_first (e : KprobeEvent) :
    ∃ c s, fieldsText 32 61 (kprobeNumbers e) = 32 :: c :: s ∧ NotNumber c := by
  refine ⟨114, _, rfl, by decide, by decide, by decide, by decide, ?_⟩
  intro v hv
  rw [← Option.some.inj (show some 27 = some v from hv)]
  decide

theorem kprobeNumbers_distinct (e : KprobeEvent) : Distinct 32 61 (kprobeNumbers e) := by
  refine .of_keys [str "ring_base", str "wptr", str "rptr", str "ring_size", str "gpu_id",
    str "qtype"] rfl (by decide) (by decide) ?_
  simp only [kprobeNumbers, List.forall_mem_cons]
  exact ⟨blank_notMem_decimal _, blank_notMem_decimal _, blank_notMem_decimal _,
    blank_notMem_decimal _, blank_notMem_decimal _, blank_notMem_decimal _, List.forall_mem_nil _⟩

/-- A number of the line: the head's, if it spells the key. -/
theorem findU64_kprobeLine {self : Nat} {comm : Bytes} {ctx : TraceContext} {e : KprobeEvent}
    {key : String} {n : Nat} (hmem : (str key, decimal n) ∈ kprobeNumbers e) (hn : n < 2 ^ 64) :
    findU64 (kprobeLine (probeName self) comm ctx e) key =
      (spelled? 10 (kprobeHead comm e.pid.toInt) key).getD n := by
  have hline : kprobeLine (probeName self) comm ctx e =
      (kprobeHead comm e.pid.toInt ++ (List.replicate ctx.fill 32 ++ 32 :: 91 ::
        contextText (probeName self) ctx)) ++ fieldsText 32 61 (kprobeNumbers e) := by
    simp [kprobeLine, str]
  have hkey : 32 ∉ str key := ((kprobeNumbers_distinct e).plain _ hmem).key
  obtain ⟨later, hfound⟩ := number_behind_head (.inr rfl) (kprobeHead comm e.pid.toInt ++
    (List.replicate ctx.fill 32 ++ 32 :: 91 :: contextText (probeName self) ctx))
    (kprobeNumbers_distinct e) (kprobeNumbers_first e) hmem
  obtain ⟨hdigit, hx⟩ := follows_fieldsText later
  rw [findU64_eq_spelled?, hline, hfound, Option.getD_some, spelled?_context hkey,
    strtoull_decimal (.inr rfl) hn (hdigit 10) hx]

/-- The numbers of the line. -/
theorem numbers_kprobeLine (self : Nat) (comm : Bytes) (ctx : TraceContext) (e : KprobeEvent) :
    let line := kprobeLine (probeName self) comm ctx e
    let head := kprobeHead comm e.pid.toInt
    findU64 line "ring_base" = (spelled? 10 head "ring_base").getD e.ringBase.toNat ∧
      findU64 line "wptr" = (spelled? 10 head "wptr").getD e.wptr.toNat ∧
      findU64 line "rptr" = (spelled? 10 head "rptr").getD e.rptr.toNat ∧
      findU64 line "ring_size" = (spelled? 10 head "ring_size").getD e.ringSize.toNat ∧
      findU64 line "gpu_id" = (spelled? 10 head "gpu_id").getD e.gpuId.toNat ∧
      findU64 line "qtype" = (spelled? 10 head "qtype").getD e.qtype.toNat := by
  have hlt : ∀ n : UInt32, n.toNat < 2 ^ 64 := fun n => Nat.lt_trans n.toNat_lt (by decide)
  intro line head
  refine ⟨?_, ?_, ?_, ?_, ?_, ?_⟩
  · exact findU64_kprobeLine (by simp [kprobeNumbers]) e.ringBase.toNat_lt
  · exact findU64_kprobeLine (by simp [kprobeNumbers]) e.wptr.toNat_lt
  · exact findU64_kprobeLine (by simp [kprobeNumbers]) e.rptr.toNat_lt
  · exact findU64_kprobeLine (by simp [kprobeNumbers]) (hlt e.ringSize)
  · exact findU64_kprobeLine (by simp [kprobeNumbers]) (hlt e.gpuId)
  · exact findU64_kprobeLine (by simp [kprobeNumbers]) (hlt e.qtype)

/-! ## Decoding -/

/-- A reported queue is the event's. -/
structure Decodes (q : QueueInfo) (e : KprobeEvent) : Prop where
  pid : q.pid = e.pid.toInt
  ringBase : q.ringBase = e.ringBase
  wptr : q.wptrAddr = e.wptr
  rptr : q.rptrAddr = e.rptr
  ringSize : q.ringSize = e.ringSize
  gpuId : q.gpuId = e.gpuId.toNat
  qtype : q.qtype = e.qtype.toNat

/-- The names that leave a line readable: a ` [` in the name's column must stand behind another
    `-<pid>`, and what the head spells as a field must be the field. -/
structure KprobeName (comm : Bytes) (e : KprobeEvent) : Prop where
  head : ∀ i ∈ find? (str " [") (column comm), headPid? ((column comm).take i) = some e.pid.toInt
  ringBase : ∀ n ∈ spelled? 10 (kprobeHead comm e.pid.toInt) "ring_base", n = e.ringBase.toNat
  wptr : ∀ n ∈ spelled? 10 (kprobeHead comm e.pid.toInt) "wptr", n = e.wptr.toNat
  rptr : ∀ n ∈ spelled? 10 (kprobeHead comm e.pid.toInt) "rptr", n = e.rptr.toNat
  ringSize : ∀ n ∈ spelled? 10 (kprobeHead comm e.pid.toInt) "ring_size", u32 n = e.ringSize.toNat
  gpuId : ∀ n ∈ spelled? 10 (kprobeHead comm e.pid.toInt) "gpu_id", u32 n = e.gpuId.toNat
  qtype : ∀ n ∈ spelled? 10 (kprobeHead comm e.pid.toInt) "qtype", u32 n = e.qtype.toNat

/-- What the loop reports of a line with a head. -/
theorem reported_iff (host : Nat → HostView) {probe line : Bytes} {cpu : Nat} (e : KprobeEvent)
    (hfirst : line.head? = some 32) (hprobe : contains line probe = true)
    (hcpu : find? (str " [") line = some cpu) :
    (∃ q, (handleKprobeLine host probe 0 {} line).reported = [q] ∧ Decodes q e) ↔
      headPid? (line.take cpu) = some e.pid.toInt ∧ findU64 line "ring_base" = e.ringBase.toNat ∧
        findU64 line "wptr" = e.wptr.toNat ∧ findU64 line "rptr" = e.rptr.toNat ∧
        u32 (findU64 line "ring_size") = e.ringSize.toNat ∧
        u32 (findU64 line "gpu_id") = e.gpuId.toNat ∧ u32 (findU64 line "qtype") = e.qtype.toNat := by
  have hu64 : ∀ key (x : UInt64), UInt64.ofNat (findU64 line key) = x ↔ findU64 line key = x.toNat := by
    intro key x
    rw [← UInt64.toNat_inj, UInt64.toNat_ofNat_of_lt' (findU64_lt line key)]
  have hu32 : ∀ n (x : UInt32), UInt32.ofNat n = x ↔ u32 n = x.toNat := by
    intro n x
    rw [← UInt32.toNat_inj, UInt32.toNat_ofNat']
    rfl
  have hskip : ¬ (line = [] ∨ line.head? = some 35) := by
    rw [hfirst, not_or]
    refine ⟨?_, by simp⟩
    rintro rfl
    cases hfirst
  unfold handleKprobeLine headPid?
  simp only [if_neg hskip, hprobe, not_true_eq_false, if_false, hcpu]
  cases rfind? 45 (line.take cpu) with
  | none => simp
  | some dash =>
      simp only [ne_eq, not_true_eq_false, false_and, if_false, List.nil_append, Option.map_some,
        Option.some.injEq]
      constructor
      · rintro ⟨q, hq, hd⟩
        split at hq
        · obtain rfl := List.singleton_inj.1 hq
          exact ⟨hd.pid, (hu64 _ _).1 hd.ringBase, (hu64 _ _).1 hd.wptr, (hu64 _ _).1 hd.rptr,
            (hu32 _ _).1 hd.ringSize, hd.gpuId, hd.qtype⟩
        · cases hq
      · rintro ⟨hpid, hbase, hwptr, hrptr, hsize, hgpu, hqtype⟩
        have hbase' := (hu64 _ _).2 hbase
        have hsize' := (hu32 _ _).2 hsize
        refine ⟨_, if_pos ?_, hpid, hbase', (hu64 _ _).2 hwptr, (hu64 _ _).2 hrptr, hsize', hgpu,
          hqtype⟩
        rw [hbase', hsize']
        exact ⟨e.ringBase_ne, e.ringSize_ne⟩

/-- A line starts with a blank, names its probe and is one line. -/
theorem kprobeLine_shape (self : Nat) (comm : TaskName) (ctx : TraceContext) (e : KprobeEvent) :
    let line := kprobeLine (probeName self) comm.bytes ctx e
    line.head? = some 32 ∧ contains line (probeName self) = true ∧ newline ∉ line := by
  intro line
  have hcolumn : column comm.bytes = 32 :: (List.replicate (15 - comm.bytes.length) 32 ++ comm.bytes) := by
    have hshort := comm.short
    rw [column, show 16 - comm.bytes.length = 15 - comm.bytes.length + 1 by omega,
      List.replicate_succ, List.cons_append]
  have hdigit : ∀ d < 16, newline ≠ digitByte d := by decide
  have hreplicate : ∀ k (c : UInt8), newline ≠ c → newline ∉ List.replicate k c := by
    intro k c hc h
    exact hc (List.eq_of_mem_replicate h)
  refine ⟨?_, ?_, ?_⟩
  · simp [line, kprobeLine, kprobeHead, hcolumn]
  · have hcontext : probeName self <:+: contextText (probeName self) ctx := by
      refine ⟨cpuText ctx.cpu ++ str "] " ++ ctx.flags.bytes ++ str " " ++ ctx.timestamp.bytes ++
        str ": ", str ": (" ++ ctx.function.bytes ++ str ")", ?_⟩
      simp only [contextText, List.append_assoc]
    have hline : contextText (probeName self) ctx <:+: line := ⟨_, _, rfl⟩
    exact contains_iff.2 (hcontext.trans hline)
  · have hhead : newline ∉ kprobeHead comm.bytes e.pid.toInt := by
      rw [kprobeHead, hcolumn, signedDecimal_of_pos e.pid_pos]
      simp only [List.mem_append, List.mem_cons, not_or]
      exact ⟨⟨by decide, hreplicate _ _ (by decide), comm.noNewline⟩, by decide, notMem_decimal hdigit _⟩
    have hcontext : newline ∉ contextText (probeName self) ctx :=
      notMem_contextText hdigit (by decide)
        ⟨ctx.flags.noNewline, ctx.timestamp.noNewline, ctx.function.noNewline⟩
    have hfields : newline ∉ fieldsText 32 61 (kprobeNumbers e) := by
      have hkeys : ∀ k ∈ (kprobeNumbers e).map Prod.fst, newline ∉ k :=
        show ∀ k ∈ [str "ring_base", str "wptr", str "rptr", str "ring_size", str "gpu_id",
          str "qtype"], newline ∉ k by decide
      refine notMem_fieldsText (by decide) (by decide) ?_
      intro f hf
      refine ⟨hkeys f.1 (List.mem_map_of_mem hf), ?_⟩
      simp only [kprobeNumbers, List.mem_cons, List.not_mem_nil, or_false] at hf
      rcases hf with rfl | rfl | rfl | rfl | rfl | rfl
      all_goals exact notMem_decimal hdigit _
    simp only [line, kprobeLine, List.mem_append, not_or]
    exact ⟨⟨⟨⟨hhead, hreplicate _ _ (by decide)⟩, by decide⟩, hcontext⟩, hfields⟩

/-- **The kprobe line decodes** into one report of the event, however the reads split it, exactly when
    the task's name leaves it readable. -/
theorem runKprobe_decodes_iff (host : Nat → HostView) (self : Nat) (comm : TaskName)
    (ctx : TraceContext) (e : KprobeEvent) (chunks : List Bytes)
    (hchunks : chunks.flatten = kprobeLine (probeName self) comm.bytes ctx e ++ [newline]) :
    (∃ q, (runKprobe host (probeName self) 0 chunks).state.reported = [q] ∧ Decodes q e) ↔
      KprobeName comm.bytes e := by
  obtain ⟨hfirst, hprobe, hline⟩ := kprobeLine_shape self comm ctx e
  obtain ⟨cpu, hcpu, hpid⟩ := head_kprobeLine (probeName self) comm.bytes ctx e
  obtain ⟨hbase, hwptr, hrptr, hsize, hgpu, hqtype⟩ := numbers_kprobeLine self comm.bytes ctx e
  rw [runKprobe_line host (probeName self) 0 hline hchunks, reported_iff host e hfirst hprobe hcpu,
    hpid, hbase, hwptr, hrptr, hsize, hgpu, hqtype, getD_eq_iff, getD_eq_iff, getD_eq_iff,
    u32_getD_eq_iff e.ringSize.toNat_lt, u32_getD_eq_iff e.gpuId.toNat_lt,
    u32_getD_eq_iff e.qtype.toNat_lt]
  have hhead : (match find? (str " [") (column comm.bytes) with
      | some i => headPid? ((column comm.bytes).take i)
      | none => some e.pid.toInt) = some e.pid.toInt ↔
        ∀ i ∈ find? (str " [") (column comm.bytes),
          headPid? ((column comm.bytes).take i) = some e.pid.toInt := by
    cases find? (str " [") (column comm.bytes) with
    | none => simp
    | some i => simp
  rw [hhead]
  constructor
  · rintro ⟨h1, h2, h3, h4, h5, h6, h7⟩
    exact ⟨h1, h2, h3, h4, h5, h6, h7⟩
  · intro h
    exact ⟨h.head, h.ringBase, h.wptr, h.rptr, h.ringSize, h.gpuId, h.qtype⟩

/-! ## Names -/

def someEvent : KprobeEvent where
  pid := 4242
  ringBase := 139637976727552
  wptr := 139637976731648
  rptr := 139637976731656
  ringSize := 65536
  gpuId := 51110
  qtype := 2
  pid_pos := by decide
  ringBase_ne := by decide
  ringSize_ne := by decide

def someContext : TraceContext where
  fill := 3
  cpu := 7
  flags := ⟨str "d..1.", by decide, by decide⟩
  timestamp := ⟨str "  815.162342", by decide, by decide⟩
  function := ⟨str "kfd_ioctl_create_queue+0x0/0x420", by decide, by decide⟩

/-- An ordinary name. -/
def plainName : TaskName where
  bytes := str "rocm-bandwidth"
  nonempty := by decide
  short := by decide
  noNewline := by decide
  noNul := by decide

def bracketName : TaskName where
  bytes := str "[helper]"
  nonempty := by decide
  short := by decide
  noNewline := by decide
  noNul := by decide

def wptrName : TaskName where
  bytes := str "x wptr=1"
  nonempty := by decide
  short := by decide
  noNewline := by decide
  noNul := by decide

/-- An ordinary name leaves the line readable, also when it is read in two pieces. -/
theorem decodes_plainName :
    ∃ q, (runKprobe (fun _ => ⟨fun _ => none, 0⟩) (probeName 77) 0
        [(kprobeLine (probeName 77) plainName.bytes someContext someEvent).take 40,
          (kprobeLine (probeName 77) plainName.bytes someContext someEvent).drop 40 ++
            [newline]]).state.reported = [q] ∧ Decodes q someEvent := by
  have hname : KprobeName plainName.bytes someEvent := by
    refine ⟨?_, ?_, ?_, ?_, ?_, ?_, ?_⟩ <;> decide +kernel
  refine (runKprobe_decodes_iff _ 77 plainName someContext someEvent _ ?_).2 hname
  rw [List.flatten_cons, List.flatten_cons, List.flatten_nil, List.append_nil, ← List.append_assoc,
    List.take_append_drop]

/-- The queue of a task called `[helper]` is not reported, and that of a task called `x wptr=1` has a
    wrong write pointer address. -/
theorem names_break_kprobe :
    (runKprobe (fun _ => ⟨fun _ => none, 0⟩) (probeName 77) 0
        [kprobeLine (probeName 77) bracketName.bytes someContext someEvent ++
          [newline]]).state.reported = [] ∧
      (runKprobe (fun _ => ⟨fun _ => none, 0⟩) (probeName 77) 0
        [kprobeLine (probeName 77) wptrName.bytes someContext someEvent ++
          [newline]]).state.reported.map QueueInfo.wptrAddr = [1] := by
  decide +kernel

end HsaSnoop
