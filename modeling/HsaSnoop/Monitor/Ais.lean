import HsaSnoop.Discovery.Kprobe
import HsaSnoop.Monitor.Pcie

set_option autoImplicit false

/-! # The AIS monitor

`AisMonitor::ReadLoop` takes one record from every line of its entry probe. The fields start behind the
parenthesis that closes behind the second `": "` of the line, the thread stands between the first bracket
and the last dash in front of it. Both searches start at the task's name: `AisName` are the names that
neither can take for the rest of the line, and a line of such a task is read for the operation it was
printed for (`handleAisLine_aisLine`). -/

namespace HsaSnoop

open Fields Lines

/-! ## The loop -/

/-- The host, while one line is handled. -/
structure AisHost where
  now : Time
  sys : SysView

/-- `hsasnoop_ais_e_<pid of the snoop>`. -/
def aisProbeEntry (self : Nat) : Bytes := str "hsasnoop_ais_e_" ++ decimal self

/-- `"gpu_id=%u size_req=%lu op=%u fd=%d"`. -/
def aisFormat : List Directive :=
  (str "gpu_id=").map .literal ++ .uint :: .blank :: (str "size_req=").map .literal ++ .ulong ::
    .blank :: (str "op=").map .literal ++ .uint :: .blank :: (str "fd=").map .literal ++ [.int]

/-- The variables of the scan; one that is not converted keeps its value. -/
structure AisFields where
  gpuIdVal : Nat := 0
  sizeReq : Nat := 0
  opVal : Nat := 0
  fileFd : Int := -1
  deriving DecidableEq, Repr

def AisFields.ofValues : List ScanValue → AisFields
  | [.uint gpuId] => { gpuIdVal := gpuId }
  | [.uint gpuId, .uint size] => { gpuIdVal := gpuId, sizeReq := size }
  | [.uint gpuId, .uint size, .uint op] => { gpuIdVal := gpuId, sizeReq := size, opVal := op }
  | [.uint gpuId, .uint size, .uint op, .int fd] =>
      { gpuIdVal := gpuId, sizeReq := size, opVal := op, fileFd := fd }
  | _ => {}

/-- The direction of an `op`. -/
def aisOpOf (opVal : Nat) : AisOp :=
  if opVal = 1 then .read else if opVal = 2 then .write else .unknown

/-- Where the fields of a line begin. -/
def aisFields? (line : Bytes) : Option Bytes :=
  match find? (str ": ") line with
  | none => none
  | some p1 =>
      match find? (str ": ") (line.drop (p1 + 2)) with
      | none => none
      | some p2 =>
          let fieldsRaw := (line.drop (p1 + 2)).drop (p2 + 2)
          match fieldsRaw.idxOf? 41 with
          | none => some fieldsRaw
          | some parenEnd => some (fieldsRaw.drop (parenEnd + 2))

/-- The thread and its name: around the rightmost dash in front of the first bracket. -/
def aisTask? (line : Bytes) : Option (Int × Bytes) :=
  match line.idxOf? 91 with
  | none => none
  | some bracket =>
      match rfind? 45 (line.take (bracket + 1)) with
      | none => none
      | some dash =>
          let comm := line.take dash
          some (atoi (line.drop (dash + 1)),
            if comm.all (· = 32) then comm else comm.dropWhile (· = 32))

structure AisState where
  seq : Nat := 0
  lineNo : Nat := 0
  /-- The table of `ResolvePcieDeviceInfo`. -/
  pcieCache : List (Bytes × PcieDeviceInfo) := []
  /-- The records passed to the sink. -/
  reported : List AisRecord := []

/-- The record of a line, taken when the device behind the descriptor is the given one. -/
def aisRecordOf (seq : Nat) (task : Int × Bytes) (v : AisFields) (now : Time) (info : PcieDeviceInfo) :
    AisRecord where
  seq := seq
  pid := task.1
  comm := task.2
  op := aisOpOf v.opVal
  gpuId := v.gpuIdVal
  pcieId := info.bdf
  pcieInfo := info
  sizeReq := v.sizeReq
  -- What is copied is not known at entry.
  sizeCopied := v.sizeReq
  error := 0
  submitTs := now
  completeTs := now
  completed := true

/-- The body of the line loop of `ReadLoop`. -/
def handleAisLine (host : Nat → AisHost) (pciIds : List Bytes) (probeEntry : Bytes) (st : AisState)
    (line : Bytes) : AisState :=
  let skipped := { st with lineNo := st.lineNo + 1 }
  if ¬ contains line probeEntry then skipped
  else
    match aisFields? line, aisTask? line with
    | some fields, some task =>
        let v := AisFields.ofValues (sscanf aisFormat fields)
        let resolved :=
          if task.1 > 0 ∧ v.fileFd ≥ 0 then
            resolvePcieDeviceInfo pciIds st.pcieCache (host st.lineNo).sys task.1 v.fileFd
          else ({}, st.pcieCache)
        { seq := st.seq + 1
          lineNo := st.lineNo + 1
          pcieCache := resolved.2
          reported := st.reported ++
            [aisRecordOf (st.seq + 1) task v (host st.lineNo).now resolved.1] }
    | _, _ => skipped

/-- `AisMonitor::ReadLoop`, over the chunks its reads return until it is stopped. A chunk is appended as
    a C string. -/
def aisReadLoop (host : Nat → AisHost) (pciIds : List Bytes) (probeEntry : Bytes) (chunks : List Bytes) :
    LineReader AisState :=
  chunks.foldl
    (fun r chunk =>
      LineReader.drainLines (handleAisLine host pciIds probeEntry) { r with buf := r.buf ++ cStr chunk })
    { buf := [], reads := [], state := {} }

/-! ## The lines of the entry probe -/

/-- What ftrace adds to an event: no colon in its columns, and no closing parenthesis. -/
structure AisContext extends TraceContext where
  flags_plain : ∀ c ∈ flags.bytes, c ≠ 0 ∧ c ≠ 41 ∧ c ≠ 58
  timestamp_plain : ∀ c ∈ timestamp.bytes, c ≠ 0 ∧ c ≠ 41 ∧ c ≠ 58
  function_plain : ∀ c ∈ function.bytes, c ≠ 0 ∧ c ≠ 41

/-- The entry of an AIS ioctl. -/
structure AisEvent where
  pid : Int32
  gpuId : UInt32
  sizeReq : UInt64
  op : UInt32
  fd : Int32

def aisNumbers (e : AisEvent) : List (Bytes × Bytes) :=
  [(str "gpu_id", decimal e.gpuId.toNat), (str "size_req", decimal e.sizeReq.toNat),
    (str "op", decimal e.op.toNat), (str "fd", signedDecimal e.fd.toInt)]

/-- `<comm>-<pid> [cpu] flags timestamp: probe: (function) gpu_id=.. size_req=.. op=.. fd=..`. -/
def aisLine (probeEntry comm : Bytes) (ctx : AisContext) (e : AisEvent) : Bytes :=
  kprobeHead comm e.pid.toInt ++ List.replicate ctx.fill 32 ++ str " [" ++
    contextText probeEntry ctx.toTraceContext ++ fieldsText 32 61 (aisNumbers e)

/-- What follows the second `": "`. -/
def behindColons? (s : Bytes) : Option Bytes := (after? (str ": ") s).bind (after? (str ": "))

/-- A name that leaves its line readable: a dash stands in front of its first bracket, and no
    parenthesis is closed behind its second `": "`. -/
structure AisName (comm : Bytes) : Prop where
  bracket : 91 ∈ comm → 45 ∈ comm.takeWhile (· ≠ 91)
  parenthesis : ∀ s ∈ behindColons? comm, 41 ∉ s

/-- The record of an operation. -/
structure AisRecord.Describes (rec : AisRecord) (e : AisEvent) : Prop where
  op : rec.op = aisOpOf e.op.toNat
  gpuId : rec.gpuId = e.gpuId.toNat
  sizeReq : rec.sizeReq = e.sizeReq.toNat
  sizeCopied : rec.sizeCopied = e.sizeReq.toNat
  noError : rec.error = 0

/-! ## Finding the fields -/

/-- The columns between the dash behind the name and the first colon of ftrace's own. -/
def aisColumns (ctx : AisContext) (e : AisEvent) : Bytes :=
  signedDecimal e.pid.toInt ++ List.replicate ctx.fill 32 ++ str " [" ++ cpuText ctx.cpu ++ str "] " ++
    ctx.flags.bytes ++ str " " ++ ctx.timestamp.bytes

/-- A line at its colons and parentheses. -/
theorem aisLine_eq (probeEntry comm : Bytes) (ctx : AisContext) (e : AisEvent) :
    aisLine probeEntry comm ctx e =
      column comm ++ 45 :: (aisColumns ctx e ++ 58 :: 32 :: (probeEntry ++ 58 :: 32 :: 40 ::
        (ctx.function.bytes ++ 41 :: fieldsText 32 61 (aisNumbers e)))) := by
  simp [aisLine, kprobeHead, contextText, aisColumns, show str ": " = [58, 32] by decide,
    show str ": (" = [58, 32, 40] by decide, show str ")" = [41] by decide]

theorem notMem_aisProbeEntry {c : UInt8} (hdigit : ∀ d < 16, c ≠ digitByte d)
    (hname : c ∉ str "hsasnoop_ais_e_") (self : Nat) : c ∉ aisProbeEntry self := by
  rw [aisProbeEntry, List.mem_append, not_or]
  exact ⟨hname, notMem_decimal hdigit self⟩

/-- A byte that no column has. -/
theorem notMem_aisColumns {c : UInt8} {ctx : AisContext} (hdigit : ∀ d < 16, c ≠ digitByte d)
    (hminus : c ≠ 45) (htexts : c ∉ str " [" ∧ c ∉ str "] " ∧ c ∉ str " ")
    (hctx : c ∉ ctx.flags.bytes ∧ c ∉ ctx.timestamp.bytes) (e : AisEvent) : c ∉ aisColumns ctx e := by
  obtain ⟨hopen, hclose, hblank⟩ := htexts
  have hfill : c ∉ List.replicate ctx.fill 32 := by
    intro h
    rw [List.eq_of_mem_replicate h] at hblank
    exact hblank (by decide)
  have hcpu : c ∉ cpuText ctx.cpu := by
    rw [cpuText, List.mem_append, not_or]
    exact ⟨fun h => hdigit 0 (by decide) (List.eq_of_mem_replicate h), notMem_decimal hdigit ctx.cpu⟩
  unfold aisColumns
  simp only [List.mem_append, not_or]
  exact ⟨⟨⟨⟨⟨⟨⟨notMem_signedDecimal hdigit hminus _, hfill⟩, hopen⟩, hcpu⟩, hclose⟩, hctx.1⟩, hblank⟩,
    hctx.2⟩

theorem colon_notMem_aisColumns (ctx : AisContext) (e : AisEvent) : 58 ∉ aisColumns ctx e :=
  notMem_aisColumns (by decide) (by decide) (by decide)
    ⟨fun h => (ctx.flags_plain _ h).2.2 rfl, fun h => (ctx.timestamp_plain _ h).2.2 rfl⟩ e

theorem parenthesis_notMem_aisColumns (ctx : AisContext) (e : AisEvent) : 41 ∉ aisColumns ctx e :=
  notMem_aisColumns (by decide) (by decide) (by decide)
    ⟨fun h => (ctx.flags_plain _ h).2.1 rfl, fun h => (ctx.timestamp_plain _ h).2.1 rfl⟩ e

/-- `": "` behind a text without colons. -/
theorem after?_colon {l : Bytes} (h : 58 ∉ l) (s : Bytes) :
    after? (str ": ") (l ++ 58 :: 32 :: s) = some s := by
  rw [show str ": " = [58, 32] by decide, after?_append_of_notMem h]
  exact after?_append_self [58, 32] s

/-- Behind a name comes a dash, which no `": "` runs into. -/
theorem after?_colon_dash (l s : Bytes) :
    after? (str ": ") (l ++ 45 :: s) =
      match after? (str ": ") l with
      | some t => some (t ++ 45 :: s)
      | none => after? (str ": ") (45 :: s) := by
  have hneedle : str ": " ≠ [] := by decide
  have hdash : (45 : UInt8) ∉ str ": " := by decide
  rw [after?_append_cons hneedle hdash l s]
  cases after? (str ": ") l with
  | none => rfl
  | some t => rfl

/-- Behind the second `": "` the first parenthesis that closes is that of the function, whether the name
    has none, one or both of the two. -/
theorem behindColons?_aisLine {comm : Bytes} (hcomm : AisName comm) (self : Nat) (ctx : AisContext)
    (e : AisEvent) :
    ∃ head, 41 ∉ head ∧ behindColons? (aisLine (aisProbeEntry self) comm ctx e) =
      some (head ++ 41 :: fieldsText 32 61 (aisNumbers e)) := by
  have hcolumns := colon_notMem_aisColumns ctx e
  have hprobe : 58 ∉ aisProbeEntry self := notMem_aisProbeEntry (by decide) (by decide) self
  have hprobe' : 41 ∉ aisProbeEntry self := notMem_aisProbeEntry (by decide) (by decide) self
  have hfunction : 41 ∉ 40 :: ctx.function.bytes := by
    rw [List.mem_cons, not_or]
    exact ⟨by decide, fun h => (ctx.function_plain _ h).2 rfl⟩
  have hcolumn : after? (str ": ") (column comm) = after? (str ": ") comm := by
    rw [show str ": " = [58, 32] by decide, column, after?_append_of_notMem]
    exact fun h => absurd (List.eq_of_mem_replicate h) (by decide)
  have hdash : 58 ∉ 45 :: aisColumns ctx e := by
    rw [List.mem_cons, not_or]
    exact ⟨by decide, hcolumns⟩
  obtain ⟨tail, htail⟩ : ∃ tail, tail = 58 :: 32 :: 40 ::
    (ctx.function.bytes ++ 41 :: fieldsText 32 61 (aisNumbers e)) := ⟨_, rfl⟩
  have hfirst := after?_colon hdash (aisProbeEntry self ++ tail)
  rw [List.cons_append] at hfirst
  rw [behindColons?, aisLine_eq, ← htail, after?_colon_dash, hcolumn, hfirst]
  cases hone : after? (str ": ") comm with
  | none =>
      refine ⟨40 :: ctx.function.bytes, hfunction, ?_⟩
      rw [Option.bind_some, htail, after?_colon hprobe, List.cons_append]
  | some t =>
      rw [Option.bind_some, after?_colon_dash, hfirst]
      cases htwo : after? (str ": ") t with
      | none =>
          refine ⟨aisProbeEntry self ++ 58 :: 32 :: 40 :: ctx.function.bytes, ?_, ?_⟩
          · rw [List.mem_append, List.mem_cons, List.mem_cons, not_or, not_or, not_or]
            exact ⟨hprobe', by decide, by decide, hfunction⟩
          · rw [htail, List.append_assoc]
            rfl
      | some t' =>
          have hname : behindColons? comm = some t' := by rw [behindColons?, hone, Option.bind_some, htwo]
          refine ⟨t' ++ 45 :: (aisColumns ctx e ++ 58 :: 32 ::
            (aisProbeEntry self ++ 58 :: 32 :: 40 :: ctx.function.bytes)), ?_, ?_⟩
          · simp only [List.mem_append, List.mem_cons, not_or]
            rw [List.mem_cons, not_or] at hfunction
            exact ⟨hcomm.parenthesis t' hname, by decide, parenthesis_notMem_aisColumns ctx e, by decide,
              by decide, hprobe', by decide, by decide, hfunction⟩
          · rw [htail]
            simp only [List.append_assoc, List.cons_append]

/-- The search for the fields, by what follows the second `": "`. -/
theorem aisFields?_eq {line head fields : Bytes} (h : behindColons? line = some (head ++ 41 :: fields))
    (hhead : 41 ∉ head) : aisFields? line = some (fields.drop 1) := by
  unfold behindColons? at h
  rw [← find?_map_drop] at h
  unfold aisFields?
  cases hp1 : find? (str ": ") line with
  | none =>
      rw [hp1] at h
      cases h
  | some p1 =>
      rw [hp1, Option.map_some, Option.bind_some, ← find?_map_drop] at h
      obtain ⟨p2, hp2, hraw⟩ := Option.map_eq_some_iff.1 h
      have hp2' : find? (str ": ") (line.drop (p1 + 2)) = some p2 := hp2
      have hraw' : (line.drop (p1 + 2)).drop (p2 + 2) = head ++ 41 :: fields := hraw
      simp only [hp2', hraw', idxOf?_append_cons hhead]
      rw [← List.drop_drop, List.drop_left]
      rfl

/-! ## Finding the thread -/

theorem rfind?_of_mem {c : UInt8} {s : Bytes} (h : c ∈ s) : ∃ i, rfind? c s = some i := by
  induction s with
  | nil => cases h
  | cons b s ih =>
      rw [rfind?]
      cases hs : rfind? c s with
      | some i => exact ⟨i + 1, rfl⟩
      | none =>
          rcases List.mem_cons.1 h with rfl | h
          · exact ⟨0, if_pos rfl⟩
          · obtain ⟨i, hi⟩ := ih h
            rw [hs] at hi
            cases hi

/-- A dash in front of the first bracket. -/
theorem aisTask?_of_dash {head : Bytes} (hbracket : 91 ∉ head) (hdash : 45 ∈ head) (tail : Bytes) :
    ∃ task, aisTask? (head ++ 91 :: tail) = some task := by
  obtain ⟨dash, hdash⟩ := rfind?_of_mem (List.mem_append_left [91] hdash)
  have htake : (head ++ 91 :: tail).take (head.length + 1) = head ++ [91] := List.take_length_add_append 1
  unfold aisTask?
  simp only [idxOf?_append_cons hbracket, htake, hdash]
  exact ⟨_, rfl⟩

/-- The first bracket is ftrace's own, or one in the name with a dash in front of it. -/
theorem aisTask?_aisLine {comm : Bytes} (hcomm : AisName comm) (probeEntry : Bytes) (ctx : AisContext)
    (e : AisEvent) : ∃ task, aisTask? (aisLine probeEntry comm ctx e) = some task := by
  have hblanks : ∀ k, (91 : UInt8) ∉ List.replicate k 32 :=
    fun k h => absurd (List.eq_of_mem_replicate h) (by decide)
  by_cases hbracket : 91 ∈ comm
  · -- The name up to its first bracket.
    obtain ⟨before, behind, hsplit, hbefore⟩ := List.eq_append_cons_of_mem hbracket
    have hne : ∀ c ∈ before, decide (c ≠ 91) = true := by
      intro c hc
      exact decide_eq_true (fun heq => hbefore (heq ▸ hc))
    have hdash := hcomm.bracket hbracket
    rw [hsplit, List.takeWhile_append_of_pos hne,
      List.takeWhile_cons_of_neg (by simp), List.append_nil] at hdash
    obtain ⟨tail, htail⟩ : ∃ tail, aisLine probeEntry comm ctx e = column comm ++ tail :=
      ⟨_, aisLine_eq probeEntry comm ctx e⟩
    have hline : aisLine probeEntry comm ctx e =
        (List.replicate (16 - comm.length) 32 ++ before) ++ 91 :: (behind ++ tail) := by
      rw [htail, column, hsplit]
      simp only [List.append_assoc, List.cons_append]
    rw [hline]
    refine aisTask?_of_dash ?_ (List.mem_append_right _ hdash) (behind ++ tail)
    rw [List.mem_append, not_or]
    exact ⟨hblanks _, hbefore⟩
  · have hline : ∃ tail, aisLine probeEntry comm ctx e =
        (column comm ++ 45 :: (signedDecimal e.pid.toInt ++ List.replicate ctx.fill 32 ++ [32])) ++
          91 :: tail := by
      refine ⟨contextText probeEntry ctx.toTraceContext ++ fieldsText 32 61 (aisNumbers e), ?_⟩
      simp [aisLine, kprobeHead, show str " [" = [32, 91] by decide]
    obtain ⟨tail, hline⟩ := hline
    rw [hline]
    refine aisTask?_of_dash ?_ (by simp) tail
    simp only [column, List.mem_append, List.mem_cons, not_or]
    exact ⟨⟨hblanks _, hbracket⟩, by decide,
      ⟨notMem_signedDecimal (by decide) (by decide) _, hblanks _⟩, by decide, List.not_mem_nil⟩

/-! ## Reading a line -/

/-- The fields, as the format has them. -/
theorem aisNumbers_text (e : AisEvent) :
    (fieldsText 32 61 (aisNumbers e)).drop 1 =
      str "gpu_id=" ++ (decimal e.gpuId.toNat ++ 32 :: (str "size_req=" ++ (decimal e.sizeReq.toNat ++
        32 :: (str "op=" ++ (decimal e.op.toNat ++ 32 :: (str "fd=" ++
          (signedDecimal e.fd.toInt ++ []))))))) := by
  simp [fieldsText, aisNumbers, str]

theorem sscanf_aisNumbers (e : AisEvent) :
    sscanf aisFormat ((fieldsText 32 61 (aisNumbers e)).drop 1) =
      [.uint e.gpuId.toNat, .uint e.sizeReq.toNat, .uint e.op.toNat, .int e.fd.toInt] := by
  rw [aisNumbers_text, aisFormat]
  simp only [List.append_assoc, List.cons_append]
  rw [sscanf_literals,
    sscanf_uint e.gpuId.toNat_lt (noDigit_cons (by decide)) (by rfl) (by simp), sscanf_blank (by rfl),
    sscanf_literals, sscanf_ulong e.sizeReq.toNat_lt (noDigit_cons (by decide)) (by rfl) (by simp),
    sscanf_blank (by rfl), sscanf_literals,
    sscanf_uint e.op.toNat_lt (noDigit_cons (by decide)) (by rfl) (by simp), sscanf_blank (by rfl),
    sscanf_literals, sscanf_int e.fd.le_toInt e.fd.toInt_lt (noDigit_nil 10) (by rfl)]
  rfl

/-- The probe names itself in its lines. -/
theorem contains_aisLine (probeEntry comm : Bytes) (ctx : AisContext) (e : AisEvent) :
    contains (aisLine probeEntry comm ctx e) probeEntry = true := by
  rw [contains_iff, aisLine_eq]
  refine ⟨column comm ++ 45 :: (aisColumns ctx e ++ [58, 32]), 58 :: 32 :: 40 ::
    (ctx.function.bytes ++ 41 :: fieldsText 32 61 (aisNumbers e)), ?_⟩
  simp

/-- **A line is read for the operation it was printed for**, if the name leaves it readable. -/
theorem handleAisLine_aisLine (host : Nat → AisHost) (pciIds : List Bytes) {comm : Bytes}
    (hcomm : AisName comm) (self : Nat) (ctx : AisContext) (e : AisEvent) (st : AisState) :
    ∃ rec, (handleAisLine host pciIds (aisProbeEntry self) st
        (aisLine (aisProbeEntry self) comm ctx e)).reported = st.reported ++ [rec] ∧
      rec.Describes e := by
  obtain ⟨head, hhead, hbehind⟩ := behindColons?_aisLine hcomm self ctx e
  obtain ⟨task, htask⟩ := aisTask?_aisLine hcomm (aisProbeEntry self) ctx e
  have hfields := aisFields?_eq hbehind hhead
  have hcontains := contains_aisLine (aisProbeEntry self) comm ctx e
  unfold handleAisLine
  simp only [hcontains, not_true_eq_false, if_false, hfields, htask, sscanf_aisNumbers,
    AisFields.ofValues]
  exact ⟨_, rfl, rfl, rfl, rfl, rfl, rfl⟩

/-! ## Reading the stream -/

/-- What ftrace prints for one operation. -/
structure AisEntry where
  comm : TaskName
  ctx : AisContext
  event : AisEvent

def AisEntry.line (self : Nat) (x : AisEntry) : Bytes :=
  aisLine (aisProbeEntry self) x.comm.bytes x.ctx x.event

/-- Everything ftrace prints for some operations. -/
def aisStream (self : Nat) (entries : List AisEntry) : Bytes :=
  entries.flatMap (fun x => x.line self ++ [newline])

/-- A line is one line, and a C string. -/
theorem notMem_line {c : UInt8} (hc : c = newline ∨ c = 0) (self : Nat) (x : AisEntry) :
    c ∉ x.line self := by
  have hdigit : ∀ d < 16, c ≠ digitByte d := by
    rcases hc with rfl | rfl
    · decide
    · decide
  have hother : c ≠ 45 ∧ c ≠ 58 ∧ c ≠ 32 ∧ c ≠ 40 ∧ c ≠ 41 ∧ c ≠ 61 := by
    rcases hc with rfl | rfl
    · decide
    · decide
  have hcomm : c ∉ x.comm.bytes := by
    rcases hc with rfl | rfl
    · exact x.comm.noNewline
    · exact x.comm.noNul
  have hflags : c ∉ x.ctx.flags.bytes := by
    rcases hc with rfl | rfl
    · exact x.ctx.flags.noNewline
    · exact fun h => (x.ctx.flags_plain _ h).1 rfl
  have htimestamp : c ∉ x.ctx.timestamp.bytes := by
    rcases hc with rfl | rfl
    · exact x.ctx.timestamp.noNewline
    · exact fun h => (x.ctx.timestamp_plain _ h).1 rfl
  have hfunction : c ∉ x.ctx.function.bytes := by
    rcases hc with rfl | rfl
    · exact x.ctx.function.noNewline
    · exact fun h => (x.ctx.function_plain _ h).1 rfl
  have htexts : c ∉ str " [" ∧ c ∉ str "] " ∧ c ∉ str " " ∧ c ∉ str "hsasnoop_ais_e_" := by
    rcases hc with rfl | rfl
    · decide
    · decide
  have hkeys : c ∉ str "gpu_id" ∧ c ∉ str "size_req" ∧ c ∉ str "op" ∧ c ∉ str "fd" := by
    rcases hc with rfl | rfl
    · decide
    · decide
  obtain ⟨hdash, hcolon, hblank, hopen, hclose, hequals⟩ := hother
  obtain ⟨hbracket, hbracket', hblank', hprobe⟩ := htexts
  have hfields : c ∉ fieldsText 32 61 (aisNumbers x.event) := by
    refine notMem_fieldsText hblank hequals ?_
    simp only [aisNumbers, List.forall_mem_cons]
    exact ⟨⟨hkeys.1, notMem_decimal hdigit _⟩, ⟨hkeys.2.1, notMem_decimal hdigit _⟩,
      ⟨hkeys.2.2.1, notMem_decimal hdigit _⟩, ⟨hkeys.2.2.2, notMem_signedDecimal hdigit hdash _⟩,
      List.forall_mem_nil _⟩
  rw [AisEntry.line, aisLine_eq, column]
  simp only [List.mem_append, List.mem_cons, not_or]
  exact ⟨⟨fun h => hblank (List.eq_of_mem_replicate h), hcomm⟩, hdash,
    notMem_aisColumns hdigit hdash ⟨hbracket, hbracket', hblank'⟩ ⟨hflags, htimestamp⟩ x.event, hcolon,
    hblank, notMem_aisProbeEntry hdigit hprobe self, hcolon, hblank, hopen, hfunction, hclose, hfields⟩

/-- A read that returns no NUL is appended as it is. -/
theorem cStr_eq_self {s : Bytes} (h : 0 ∉ s) : cStr s = s := by
  refine List.takeWhile_eq_self_iff.2 ?_
  intro c hc
  exact decide_eq_true (fun heq => h (heq ▸ hc))

theorem nul_notMem_aisStream (self : Nat) (entries : List AisEntry) : 0 ∉ aisStream self entries := by
  intro h
  obtain ⟨x, -, hx⟩ := List.mem_flatMap.1 h
  rcases List.mem_append.1 hx with hx | hx
  · exact notMem_line (.inr rfl) self x hx
  · exact absurd (List.mem_singleton.1 hx) (by decide)

/-- The lines of the stream are handled one by one. -/
theorem aisReadLoop_state (host : Nat → AisHost) (pciIds : List Bytes) (self : Nat)
    {entries : List AisEntry} {chunks : List Bytes} (hchunks : chunks.flatten = aisStream self entries) :
    (aisReadLoop host pciIds (aisProbeEntry self) chunks).state =
      (entries.map (AisEntry.line self)).foldl (handleAisLine host pciIds (aisProbeEntry self)) {} := by
  have hchunk : ∀ chunk ∈ chunks, cStr chunk = chunk := by
    intro chunk hmem
    refine cStr_eq_self (fun h => nul_notMem_aisStream self entries ?_)
    rw [← hchunks]
    exact List.mem_flatten_of_mem hmem h
  have hmap : chunks.map cStr = chunks := by
    conv_rhs => rw [← List.map_id chunks]
    exact List.map_congr_left hchunk
  have hnil : newline ∉ ({ buf := [], reads := [], state := {} } : LineReader AisState).buf :=
    List.not_mem_nil
  have hstate := foldl_drainLines_state (handleAisLine host pciIds (aisProbeEntry self)) chunks hnil
  rw [List.nil_append, hchunks, aisStream, lines_flatMap (notMem_line (.inl rfl) self)] at hstate
  rw [← hstate, aisReadLoop]
  conv_rhs => rw [← hmap, List.foldl_map]

/-- **One record per line**, in order, however the reads split the stream. -/
theorem aisReadLoop_describes (host : Nat → AisHost) (pciIds : List Bytes) (self : Nat)
    {entries : List AisEntry} (hnames : ∀ x ∈ entries, AisName x.comm.bytes) {chunks : List Bytes}
    (hchunks : chunks.flatten = aisStream self entries) :
    List.Forall₂ (fun rec (x : AisEntry) => AisRecord.Describes rec x.event)
      (aisReadLoop host pciIds (aisProbeEntry self) chunks).state.reported entries := by
  have hrun : ∀ st : AisState, ∃ recs,
      ((entries.map (AisEntry.line self)).foldl (handleAisLine host pciIds (aisProbeEntry self))
        st).reported = st.reported ++ recs ∧
      List.Forall₂ (fun rec (x : AisEntry) => AisRecord.Describes rec x.event) recs entries := by
    clear hchunks
    induction entries with
    | nil => exact fun st => ⟨[], (List.append_nil _).symm, .nil⟩
    | cons x entries ih =>
        intro st
        rw [List.forall_mem_cons] at hnames
        obtain ⟨rec, hrec, hdescribes⟩ :=
          handleAisLine_aisLine host pciIds hnames.1 self x.ctx x.event st
        obtain ⟨recs, hrecs, hall⟩ := ih hnames.2
          (handleAisLine host pciIds (aisProbeEntry self) st (x.line self))
        refine ⟨rec :: recs, ?_, .cons hdescribes hall⟩
        rw [List.map_cons, List.foldl_cons, hrecs]
        show (handleAisLine host pciIds (aisProbeEntry self) st
          (aisLine (aisProbeEntry self) x.comm.bytes x.ctx x.event)).reported ++ recs = _
        rw [hrec, List.append_assoc, List.singleton_append]
  obtain ⟨recs, hrecs, hall⟩ := hrun {}
  rw [aisReadLoop_state host pciIds self hchunks, hrecs]
  exact hall

end HsaSnoop
