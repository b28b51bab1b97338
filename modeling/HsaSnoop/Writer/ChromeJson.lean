import HsaSnoop.Writer.Ostream
import HsaSnoop.Writer.Perfetto

set_option autoImplicit false

/-! # The Chrome trace

`WriteJson` writes the buffered records as one JSON object: two metadata events per queue and one
complete event per record, in four loops that share a flag for the comma. Names are quoted by
`JsonEscape`, which knows quotes, backslashes and newlines only: any other control character goes into
the string as it is, where the grammar does not allow it.

`writeJson` is the text; `traceEvents` are the events it is meant to hold. The text is put together from
members and elements of which it is known what the parser makes of them, refusals included, so one
equation (`parse_writeJson`) covers all names. -/

namespace HsaSnoop

/-! ## Event texts -/

/-- `JsonEscape`, for one character. -/
def jsonEscapeByte (c : UInt8) : Bytes :=
  if c = 34 ∨ c = 92 then [92, c] else if c = 10 then str "\\n" else [c]

def jsonEscape (s : Bytes) : Bytes := s.flatMap jsonEscapeByte

/-- How a stream prints a number of microseconds, given in nanoseconds. -/
structure MicrosFormat where
  micros : Nat → Bytes
  isNumber : ∀ n, Json.IsNumber (micros n)

/-- The format of the stream `WriteJson` opens. -/
def ostreamFormat : MicrosFormat := ⟨ostreamMicros, fun n => (spells_ostreamMicros n).isNumber⟩

/-- The rendered duration, not below `kMinDurSec`. -/
def durNs (submitTs completeTs : Time) : Nat := max (completeTs - submitTs) kMinDur

def queueLabel (q : QueueInfo) : Bytes :=
  snprintf 128 (str (if q.isSdma then "sdma" else "aql") ++ str " queue " ++ decimal q.uid ++
    str " (gpu " ++ decimal q.gpuId ++ str ")")

def processNameText (q : QueueInfo) : Bytes :=
  str "\x7b\"ph\":\"M\",\"name\":\"process_name\",\"pid\":" ++ signedDecimal q.pid ++
    str ",\"tid\":0,\"args\":\x7b\"name\":\"" ++ jsonEscape q.comm ++ str " (" ++
    signedDecimal q.pid ++ str ")\"\x7d\x7d"

def threadNameText (q : QueueInfo) : Bytes :=
  str "\x7b\"ph\":\"M\",\"name\":\"thread_name\",\"pid\":" ++ signedDecimal q.pid ++
    str ",\"tid\":" ++ decimal q.uid ++ str ",\"args\":\x7b\"name\":\"" ++ queueLabel q ++
    str "\"\x7d\x7d"

/-- What the events of all records begin with. -/
def eventHead (fmt : MicrosFormat) (pid : Int) (tid submitTs dur : Nat) (name : Bytes) : Bytes :=
  str "\x7b\"ph\":\"X\",\"pid\":" ++ signedDecimal pid ++ str ",\"tid\":" ++ decimal tid ++
    str ",\"ts\":" ++ fmt.micros submitTs ++ str ",\"dur\":" ++ fmt.micros dur ++
    str ",\"name\":\"" ++ jsonEscape name ++ str "\",\"args\":\x7b"

/-- The physical address of the ring, when it is known. -/
def ringPhysText (q : QueueInfo) : Bytes :=
  if q.ringPhys ≠ 0 then str ",\"ring_phys\":\"0x" ++ hexadecimal q.ringPhys ++ str "\"" else []

def packetText (fmt : MicrosFormat) (q : QueueInfo) (r : PacketRecord) : Bytes :=
  eventHead fmt q.pid r.queueUid r.submitTs (durNs r.submitTs r.completeTs) r.kernelName ++
    str "\"type\":\"" ++ Aql.packetTypeName r.type ++ str "\"" ++
    str ",\"dispatch_id\":" ++ decimal r.dispatchId ++
    str ",\"barrier\":" ++ str (if r.barrier then "true" else "false") ++
    (if r.type = .kernelDispatch ∨ r.type = .vendorSpecific then
      str ",\"grid\":\"" ++ dims r.gridX r.gridY r.gridZ ++ str "\"" ++
        str ",\"workgroup\":\"" ++ dims r.wgX r.wgY r.wgZ ++ str "\"" ++
        str ",\"kernel_object\":\"0x" ++ hexadecimal r.kernelObject ++
        str "\",\"private_seg\":" ++ decimal r.privateSeg ++
        str ",\"group_seg\":" ++ decimal r.groupSeg ++
        str ",\"completion_signal\":\"0x" ++ hexadecimal r.completionSignal ++ str "\""
    else []) ++
    ringPhysText q ++ str "\x7d\x7d"

def sdmaText (fmt : MicrosFormat) (q : QueueInfo) (r : SdmaRecord) : Bytes :=
  eventHead fmt q.pid r.queueUid r.submitTs (durNs r.submitTs r.completeTs) r.opName ++
    str "\"opcode\":" ++ decimal r.opcode.toNat ++ str ",\"seq\":" ++ decimal r.seq ++
    (if r.isCopy then
      str ",\"bytes\":" ++ decimal r.bytes ++ str ",\"direction\":\"" ++ copyDirName r.dir ++
        str "\"" ++ str ",\"src\":\"0x" ++ hexadecimal r.srcAddr ++ str "\"" ++
        str ",\"dst\":\"0x" ++ hexadecimal r.dstAddr ++ str "\""
    else []) ++
    ringPhysText q ++ str "\x7d\x7d"

def aisLabel (r : AisRecord) : Bytes :=
  let label := str "ais/" ++ aisOpName r.op
  if r.pcieId ≠ [] ∧ r.pcieId ≠ str "unknown" then label ++ str " [" ++ r.pcieId ++ str "]" else label

/-- A synthetic thread per device. -/
def aisTid (hash : Bytes → Nat) (r : AisRecord) : Nat := 0xA15 * 0x10000 + (hash r.pcieId &&& 0xFFFF)

/-- An ioctl that has not returned is drawn with the least duration. -/
def aisDurNs (r : AisRecord) : Nat := if r.completed then durNs r.submitTs r.completeTs else kMinDur

def aisText (fmt : MicrosFormat) (hash : Bytes → Nat) (r : AisRecord) : Bytes :=
  eventHead fmt r.pid (aisTid hash r) r.submitTs (aisDurNs r) (aisLabel r) ++
    str "\"op\":\"" ++ aisOpName r.op ++ str "\"" ++ str ",\"gpu_id\":" ++ decimal r.gpuId ++
    str ",\"pcie_id\":\"" ++ jsonEscape r.pcieId ++ str "\"" ++
    str ",\"size_req\":" ++ decimal r.sizeReq ++ str ",\"size_copied\":" ++ decimal r.sizeCopied ++
    str ",\"error\":" ++ signedDecimal r.error ++ str ",\"seq\":" ++ decimal r.seq ++ str "\x7d\x7d"

/-! ## The file -/

/-- The stream, and whether no event has been written. -/
structure JsonOut where
  buf : Bytes
  first : Bool

/-- An event, with a comma in front unless it is the first. -/
def JsonOut.event (o : JsonOut) (text : Bytes) : JsonOut :=
  ⟨(if o.first then o.buf else o.buf ++ str ",\n") ++ text, false⟩

/-- The text `WriteJson` writes. -/
def TraceWriter.writeJson (w : TraceWriter) (fmt : MicrosFormat) (hash : Bytes → Nat) : Bytes :=
  let o : JsonOut := ⟨str "\x7b\"traceEvents\":[\n", true⟩
  let o := (w.queues.entries.map Prod.snd).foldl
    (fun o q =>
      let o := o.event (processNameText q)
      { o with buf := o.buf ++ str ",\n" ++ threadNameText q }) o
  let o := w.records.foldl (fun o r => o.event (packetText fmt (w.queue r.queueUid) r)) o
  let o := w.sdmaRecords.foldl (fun o r => o.event (sdmaText fmt (w.queue r.queueUid) r)) o
  let o := w.aisRecords.foldl (fun o r => o.event (aisText fmt hash r)) o
  o.buf ++ str "\n]\x7d\n"

/-! ## Escaped names -/

/-- A name `JsonEscape` makes a string of: no control character but newlines. -/
def Clean (s : Bytes) : Prop := ∀ c ∈ s, 32 ≤ c ∨ c = 10

instance (s : Bytes) : Decidable (Clean s) := List.decidableBAll _ s

theorem clean_cons {c : UInt8} {s : Bytes} : Clean (c :: s) ↔ (32 ≤ c ∨ c = 10) ∧ Clean s :=
  List.forall_mem_cons

theorem clean_append {s t : Bytes} : Clean (s ++ t) ↔ Clean s ∧ Clean t := List.forall_mem_append

/-- What the parser makes of a quoted name. -/
def clean? (s : Bytes) : Option Bytes := if Clean s then some s else none

theorem readChar_jsonEscapeByte {c : UInt8} (h : 32 ≤ c ∨ c = 10) (t : Bytes) :
    Json.readChar (jsonEscapeByte c ++ t) = some ([c], t) ∧
      (jsonEscapeByte c ++ t).head? ≠ some 34 := by
  unfold jsonEscapeByte
  by_cases hspecial : c = 34 ∨ c = 92
  · rw [if_pos hspecial]
    rcases hspecial with rfl | rfl
    · exact ⟨rfl, by simp⟩
    · exact ⟨rfl, by simp⟩
  · rw [if_neg hspecial]
    by_cases hnewline : c = 10
    · rw [if_pos hnewline, hnewline]
      exact ⟨rfl, by simp [str]⟩
    · rw [not_or] at hspecial
      have hplain : 32 ≤ c ∧ c ≠ 34 ∧ c ≠ 92 := ⟨h.resolve_right hnewline, hspecial⟩
      rw [if_neg hnewline]
      exact ⟨Json.readChar_plain hplain t, by simpa using hspecial.1⟩

/-- Any other control character is refused. -/
theorem readChar_control {c : UInt8} (h : ¬ (32 ≤ c ∨ c = 10)) (t : Bytes) :
    Json.readChar (jsonEscapeByte c ++ t) = none ∧ (jsonEscapeByte c ++ t).head? ≠ some 34 := by
  rw [not_or, UInt8.not_le] at h
  have hne : ∀ d : UInt8, 32 ≤ d → c ≠ d := by
    rintro d hd rfl
    exact absurd hd (UInt8.not_le.2 h.1)
  have h34 : c ≠ 34 := hne 34 (by decide)
  have h92 : c ≠ 92 := hne 92 (by decide)
  unfold jsonEscapeByte
  rw [if_neg (not_or.2 ⟨h34, h92⟩), if_neg h.2, List.singleton_append]
  refine ⟨?_, by simpa using h34⟩
  rw [Json.readChar, if_neg h92, if_pos (.inl h.1)]

/-- **Names are read back, or refused.** -/
theorem readString_jsonEscape (s rest : Bytes) :
    Json.readString (jsonEscape s ++ 34 :: rest) = (clean? s).map (fun s => (s, rest)) := by
  induction s with
  | nil => exact Json.readString_quote rest
  | cons c s ih =>
      rw [jsonEscape, List.flatMap_cons, ← jsonEscape, List.append_assoc, clean?]
      by_cases hc : 32 ≤ c ∨ c = 10
      · obtain ⟨hread, hhead⟩ := readChar_jsonEscapeByte hc (jsonEscape s ++ 34 :: rest)
        rw [Json.readString_of_readChar hhead hread, ih, clean?]
        by_cases hs : Clean s
        · rw [if_pos hs, if_pos (clean_cons.2 ⟨hc, hs⟩)]
          rfl
        · rw [if_neg hs, if_neg (fun h => hs (clean_cons.1 h).2)]
          rfl
      · obtain ⟨hread, hhead⟩ := readChar_control hc (jsonEscape s ++ 34 :: rest)
        rw [Json.readString_of_readChar_none hhead hread, if_neg (fun h => hc (clean_cons.1 h).1)]
        rfl

theorem jsonEscape_append (s t : Bytes) : jsonEscape (s ++ t) = jsonEscape s ++ jsonEscape t :=
  List.flatMap_append

/-- Bytes that stand for themselves are neither escaped nor refused. -/
theorem jsonEscape_plain {s : Bytes} (h : Json.Plain s) : jsonEscape s = s ∧ Clean s := by
  refine ⟨?_, fun c hc => .inl (h c hc).1⟩
  induction s with
  | nil => rfl
  | cons c s ih =>
      obtain ⟨hc, h34, h92⟩ := h c (List.mem_cons_self ..)
      have hnewline : c ≠ 10 := by
        rintro rfl
        exact absurd hc (by decide)
      rw [jsonEscape, List.flatMap_cons, ← jsonEscape, ih (fun d hd => h d (List.mem_cons_of_mem c hd)),
        jsonEscapeByte, if_neg (not_or.2 ⟨h34, h92⟩), if_neg hnewline, List.singleton_append]

/-! ## Plain texts -/

theorem quotable_append {s t : Bytes} (hs : Json.Plain s) (ht : Json.Plain t) : Json.Plain (s ++ t) :=
  List.forall_mem_append.2 ⟨hs, ht⟩

theorem digitByte_quotable : ∀ d < 16, 32 ≤ digitByte d ∧ digitByte d ≠ 34 ∧ digitByte d ≠ 92 := by
  decide

theorem quotable_digitBytes {base : Nat} (hb : 1 < base) (hb16 : base ≤ 16) (n : Nat) :
    Json.Plain (digitBytes base n) := by
  intro c hc
  obtain ⟨d, hd, rfl⟩ := mem_digitBytes hb hc
  exact digitByte_quotable d (by omega)

theorem quotable_decimal (n : Nat) : Json.Plain (decimal n) := by
  rw [decimal_eq]
  exact quotable_digitBytes (by decide) (by decide) n

/-- A 64-bit value, as a string. -/
def hexText (n : Nat) : Bytes := str "0x" ++ hexadecimal n

theorem quotable_hex (n : Nat) : Json.Plain (hexText n) :=
  quotable_append (by decide) (quotable_digitBytes (by decide) (by decide) n)

theorem quotable_signedDecimal (n : Int) : Json.Plain (signedDecimal n) := by
  unfold signedDecimal
  split
  · exact quotable_append (s := [45]) (by decide) (quotable_decimal _)
  · exact quotable_decimal _

theorem quotable_snprintf {s : Bytes} (h : Json.Plain s) (size : Nat) : Json.Plain (snprintf size s) :=
  fun c hc => h c (List.mem_of_mem_take hc)

/-- A literal behind. -/
theorem quotable_append_str {s : Bytes} (hs : Json.Plain s) (literal : String)
    (h : Json.Plain (str literal) := by decide) : Json.Plain (s ++ str literal) :=
  quotable_append hs h

theorem quotable_dims (x y z : Nat) : Json.Plain (dims x y z) := by
  have hx := quotable_append_str (quotable_decimal x) " x "
  have hy := quotable_append_str (quotable_append hx (quotable_decimal y)) " x "
  exact quotable_snprintf (quotable_append hy (quotable_decimal z)) 64

theorem quotable_queueLabel (q : QueueInfo) : Json.Plain (queueLabel q) := by
  have hkind : Json.Plain (str (if q.isSdma then "sdma" else "aql")) := by
    cases q.isSdma with
    | true => decide
    | false => decide
  have huid := quotable_append (quotable_append_str hkind " queue ") (quotable_decimal q.uid)
  have hgpu := quotable_append (quotable_append_str huid " (gpu ") (quotable_decimal q.gpuId)
  exact quotable_snprintf (quotable_append_str hgpu ")") 128

theorem quotable_packetTypeName (t : Aql.PacketType) : Json.Plain (Aql.packetTypeName t) := by
  cases t <;> exact of_decide_eq_true rfl

theorem quotable_copyDirName (d : CopyDir) : Json.Plain (copyDirName d) := by cases d <;> decide

theorem quotable_aisOpName (op : AisOp) : Json.Plain (aisOpName op) := by cases op <;> decide

/-! ## Members -/

/-- A member whose value is a quoted name. -/
def nameMember (key : String) (s : Bytes) : Json.Member :=
  ⟨str key, 34 :: (jsonEscape s ++ [34]), (clean? s).map .str⟩

/-- A member whose value is a plain text, written as it is. -/
def textMember (key : String) (s : Bytes) : Json.Member := ⟨str key, 34 :: (s ++ [34]), some (.str s)⟩

def numberMember (key : String) (text : Bytes) : Json.Member := ⟨str key, text, some (.num text)⟩

def boolMember (key : String) (b : Bool) : Json.Member :=
  ⟨str key, str (if b then "true" else "false"), some (.bool b)⟩

def objectMember (key : String) (ms : List Json.Member) : Json.Member :=
  ⟨str key, 123 :: (Json.membersText ms ++ [125]), (Json.memberValues ms).map .obj⟩

-- The keys are literals, so that they are plain is computed where a member is formed.
theorem nameMember_ok {key : String} (s : Bytes) (hkey : Json.Plain (str key) := by decide) :
    (nameMember key s).Ok := ⟨hkey, Json.parses_string (readString_jsonEscape s)⟩

theorem textMember_ok {key : String} {s : Bytes} (hs : Json.Plain s)
    (hkey : Json.Plain (str key) := by decide) : (textMember key s).Ok :=
  ⟨hkey, Json.parses_string (o := some s) (Json.readString_plain hs)⟩

theorem numberMember_ok {key : String} {text : Bytes} (h : Json.IsNumber text)
    (hkey : Json.Plain (str key) := by decide) : (numberMember key text).Ok := ⟨hkey, Json.parses_number h⟩

theorem boolMember_ok {key : String} (b : Bool) (hkey : Json.Plain (str key) := by decide) :
    (boolMember key b).Ok := by
  refine ⟨hkey, ?_⟩
  have h := Json.parses_bool b
  cases b with
  | true => exact h
  | false => exact h

theorem objectMember_ok {key : String} {ms : List Json.Member} (h : ∀ m ∈ ms, m.Ok)
    (hkey : Json.Plain (str key) := by decide) : (objectMember key ms).Ok :=
  ⟨hkey, Json.parses_object ms h⟩

/-! ## Events -/

/-- An event as it is written, what it stands for, and whether its names can be written. -/
structure ChromeEvent where
  text : Bytes
  value : Json.Value
  clean : Bool

/-- What the parser makes of an event. -/
def ChromeEvent.parsed (e : ChromeEvent) : Option Json.Value := if e.clean then some e.value else none

/-- The value of a metadata event. -/
def metadataValue (kind : String) (q : QueueInfo) (tid : Nat) (name : Bytes) : Json.Value :=
  .obj [(str "ph", .str (str "M")), (str "name", .str (str kind)), (str "pid", .num (signedDecimal q.pid)),
    (str "tid", number tid), (str "args", .obj [(str "name", .str name)])]

/-- The name of a process: its `comm` and its pid. -/
def processLabel (q : QueueInfo) : Bytes := q.comm ++ str " (" ++ signedDecimal q.pid ++ str ")"

def processNameEvent (q : QueueInfo) : ChromeEvent :=
  ⟨processNameText q, metadataValue "process_name" q 0 (processLabel q), decide (Clean q.comm)⟩

def threadNameEvent (q : QueueInfo) : ChromeEvent :=
  ⟨threadNameText q, metadataValue "thread_name" q q.uid (queueLabel q), true⟩

/-- The value of a record's event. -/
def completeValue (fmt : MicrosFormat) (pid : Int) (tid submitTs dur : Nat) (name : Bytes)
    (args : List (Bytes × Json.Value)) : Json.Value :=
  .obj [(str "ph", .str (str "X")), (str "pid", .num (signedDecimal pid)), (str "tid", number tid),
    (str "ts", .num (fmt.micros submitTs)), (str "dur", .num (fmt.micros dur)),
    (str "name", .str name), (str "args", .obj args)]

def ringPhysArgs (q : QueueInfo) : List (Bytes × Json.Value) :=
  if q.ringPhys ≠ 0 then [(str "ring_phys", .str (hexText q.ringPhys))] else []

def packetArgs (q : QueueInfo) (r : PacketRecord) : List (Bytes × Json.Value) :=
  [(str "type", .str (Aql.packetTypeName r.type)), (str "dispatch_id", number r.dispatchId),
    (str "barrier", .bool r.barrier)] ++
  (if r.type = .kernelDispatch ∨ r.type = .vendorSpecific then
    [(str "grid", .str (dims r.gridX r.gridY r.gridZ)), (str "workgroup", .str (dims r.wgX r.wgY r.wgZ)),
      (str "kernel_object", .str (hexText r.kernelObject)), (str "private_seg", number r.privateSeg),
      (str "group_seg", number r.groupSeg),
      (str "completion_signal", .str (hexText r.completionSignal))]
  else []) ++
  ringPhysArgs q

def packetEvent (fmt : MicrosFormat) (q : QueueInfo) (r : PacketRecord) : ChromeEvent where
  text := packetText fmt q r
  value := completeValue fmt q.pid r.queueUid r.submitTs (durNs r.submitTs r.completeTs) r.kernelName
    (packetArgs q r)
  clean := decide (Clean r.kernelName)

def sdmaArgs (q : QueueInfo) (r : SdmaRecord) : List (Bytes × Json.Value) :=
  [(str "opcode", number r.opcode.toNat), (str "seq", number r.seq)] ++
  (if r.isCopy then
    [(str "bytes", number r.bytes), (str "direction", .str (copyDirName r.dir)),
      (str "src", .str (hexText r.srcAddr)), (str "dst", .str (hexText r.dstAddr))]
  else []) ++
  ringPhysArgs q

def sdmaEvent (fmt : MicrosFormat) (q : QueueInfo) (r : SdmaRecord) : ChromeEvent where
  text := sdmaText fmt q r
  value := completeValue fmt q.pid r.queueUid r.submitTs (durNs r.submitTs r.completeTs) r.opName
    (sdmaArgs q r)
  clean := decide (Clean r.opName)

def aisArgs (r : AisRecord) : List (Bytes × Json.Value) :=
  [(str "op", .str (aisOpName r.op)), (str "gpu_id", number r.gpuId), (str "pcie_id", .str r.pcieId),
    (str "size_req", number r.sizeReq), (str "size_copied", number r.sizeCopied),
    (str "error", .num (signedDecimal r.error)), (str "seq", number r.seq)]

def aisEvent (fmt : MicrosFormat) (hash : Bytes → Nat) (r : AisRecord) : ChromeEvent where
  text := aisText fmt hash r
  value := completeValue fmt r.pid (aisTid hash r) r.submitTs (aisDurNs r) (aisLabel r) (aisArgs r)
  clean := decide (Clean r.pcieId)

/-- The events of the trace, in the order of the four loops. -/
def TraceWriter.chromeEvents (w : TraceWriter) (fmt : MicrosFormat) (hash : Bytes → Nat) :
    List ChromeEvent :=
  w.queues.entries.flatMap (fun e => [processNameEvent e.2, threadNameEvent e.2]) ++
    w.records.map (fun r => packetEvent fmt (w.queue r.queueUid) r) ++
    w.sdmaRecords.map (fun r => sdmaEvent fmt (w.queue r.queueUid) r) ++
    w.aisRecords.map (aisEvent fmt hash)

/-! ## What the parser makes of an event -/

/-- An event that is written as an object. -/
theorem parses_event {text : Bytes} {ms : List Json.Member} {o : Option Json.Value}
    (h : ∀ m ∈ ms, m.Ok) (htext : text = 123 :: (Json.membersText ms ++ [125]))
    (ho : (Json.memberValues ms).map .obj = o) : Json.Parses text o := by
  rw [htext, ← ho]
  exact Json.parses_object ms h

def metadataMembers (kind : String) (q : QueueInfo) (tid : Nat) (name : Bytes) : List Json.Member :=
  [textMember "ph" (str "M"), textMember "name" (str kind), numberMember "pid" (signedDecimal q.pid),
    numberMember "tid" (decimal tid), objectMember "args" [nameMember "name" name]]

theorem metadataMembers_ok {kind : String} (hkind : Json.Plain (str kind)) (q : QueueInfo) (tid : Nat)
    (name : Bytes) : ∀ m ∈ metadataMembers kind q tid name, m.Ok := by
  simp only [metadataMembers, List.forall_mem_cons]
  exact ⟨textMember_ok (by decide), textMember_ok hkind,
    numberMember_ok (isNumber_signedDecimal _),
    numberMember_ok (isNumber_decimal _),
    objectMember_ok (by simpa using nameMember_ok name), List.forall_mem_nil _⟩

theorem memberValues_metadata (kind : String) (q : QueueInfo) (tid : Nat) (name : Bytes) :
    (Json.memberValues (metadataMembers kind q tid name)).map .obj =
      if Clean name then some (metadataValue kind q tid name) else none := by
  by_cases h : Clean name
  · simp [metadataMembers, Json.memberValues, textMember, numberMember, objectMember, nameMember, clean?,
      metadataValue, number, h]
  · simp [metadataMembers, Json.memberValues, textMember, numberMember, objectMember, nameMember, clean?,
      h]

theorem parses_processName (q : QueueInfo) :
    Json.Parses (processNameText q) (processNameEvent q).parsed := by
  have hsuffix : Json.Plain (str " (" ++ signedDecimal q.pid ++ str ")") :=
    quotable_append (quotable_append (by decide) (quotable_signedDecimal _)) (by decide)
  have hlabel : processLabel q = q.comm ++ (str " (" ++ signedDecimal q.pid ++ str ")") := by
    simp [processLabel]
  have hescape : jsonEscape (processLabel q) =
      jsonEscape q.comm ++ (str " (" ++ signedDecimal q.pid ++ str ")") := by
    rw [hlabel, jsonEscape_append, (jsonEscape_plain hsuffix).1]
  refine parses_event (metadataMembers_ok (show Json.Plain (str "process_name") by decide) q 0
    (processLabel q)) ?_ ?_
  · simp [processNameText, metadataMembers, Json.membersText, Json.Member.written, textMember,
      numberMember, objectMember, nameMember, hescape, str, show decimal 0 = [48] by decide]
  · have hiff : Clean (processLabel q) ↔ Clean q.comm := by
      rw [hlabel, clean_append]
      exact ⟨And.left, fun h => ⟨h, (jsonEscape_plain hsuffix).2⟩⟩
    rw [memberValues_metadata, ChromeEvent.parsed, processNameEvent]
    simp only [hiff, decide_eq_true_eq]

theorem parses_threadName (q : QueueInfo) :
    Json.Parses (threadNameText q) (threadNameEvent q).parsed := by
  obtain ⟨hescape, hclean⟩ := jsonEscape_plain (quotable_queueLabel q)
  refine parses_event (metadataMembers_ok (show Json.Plain (str "thread_name") by decide) q q.uid
    (queueLabel q)) ?_ ?_
  · simp [threadNameText, metadataMembers, Json.membersText, Json.Member.written, textMember,
      numberMember, objectMember, nameMember, hescape, str]
  · rw [memberValues_metadata, if_pos hclean]
    rfl

def completeMembers (fmt : MicrosFormat) (pid : Int) (tid submitTs dur : Nat) (name : Bytes)
    (args : List Json.Member) : List Json.Member :=
  [textMember "ph" (str "X"), numberMember "pid" (signedDecimal pid), numberMember "tid" (decimal tid),
    numberMember "ts" (fmt.micros submitTs), numberMember "dur" (fmt.micros dur),
    nameMember "name" name, objectMember "args" args]

/-- The event of a record, from its arguments. -/
theorem parses_complete (fmt : MicrosFormat) (pid : Int) (tid submitTs dur : Nat) (name : Bytes)
    {args : List Json.Member} (hargs : ∀ m ∈ args, m.Ok) :
    Json.Parses (eventHead fmt pid tid submitTs dur name ++ (Json.membersText args ++ str "\x7d\x7d"))
      ((clean? name).bind (fun name => (Json.memberValues args).map
        (fun vs => completeValue fmt pid tid submitTs dur name vs))) := by
  have hok : ∀ m ∈ completeMembers fmt pid tid submitTs dur name args, m.Ok := by
    simp only [completeMembers, List.forall_mem_cons]
    exact ⟨textMember_ok (by decide), numberMember_ok (isNumber_signedDecimal _),
      numberMember_ok (isNumber_decimal _), numberMember_ok (fmt.isNumber _),
      numberMember_ok (fmt.isNumber _), nameMember_ok name,
      objectMember_ok hargs, List.forall_mem_nil _⟩
  refine parses_event hok ?_ ?_
  · simp [eventHead, completeMembers, Json.membersText, Json.Member.written, textMember, numberMember,
      nameMember, objectMember, str]
  · simp only [completeMembers, Json.memberValues_cons, textMember, numberMember, nameMember,
      objectMember, Option.bind_some]
    cases clean? name with
    | none => rfl
    | some name =>
        cases Json.memberValues args with
        | none => rfl
        | some vs => rfl

def ringPhysMembers (q : QueueInfo) : List Json.Member :=
  if q.ringPhys ≠ 0 then [textMember "ring_phys" (hexText q.ringPhys)] else []

theorem ringPhysMembers_spec (q : QueueInfo) :
    (∀ m ∈ ringPhysMembers q, m.Ok) ∧
      (ringPhysMembers q).flatMap (fun m => 44 :: m.written) = ringPhysText q ∧
      Json.memberValues (ringPhysMembers q) = some (ringPhysArgs q) := by
  unfold ringPhysMembers ringPhysText ringPhysArgs
  by_cases h : q.ringPhys ≠ 0
  · rw [if_pos h, if_pos h, if_pos h]
    refine ⟨?_, ?_, rfl⟩
    · simpa using textMember_ok (quotable_hex q.ringPhys)
    · simp [Json.Member.written, textMember, hexText, str]
  · rw [if_neg h, if_neg h, if_neg h]
    exact ⟨List.forall_mem_nil _, rfl, rfl⟩

/-! ### AQL packets -/

def dispatchMembers (r : PacketRecord) : List Json.Member :=
  if r.type = .kernelDispatch ∨ r.type = .vendorSpecific then
    [textMember "grid" (dims r.gridX r.gridY r.gridZ), textMember "workgroup" (dims r.wgX r.wgY r.wgZ),
      textMember "kernel_object" (hexText r.kernelObject),
      numberMember "private_seg" (decimal r.privateSeg), numberMember "group_seg" (decimal r.groupSeg),
      textMember "completion_signal" (hexText r.completionSignal)]
  else []

def packetMembers (q : QueueInfo) (r : PacketRecord) : List Json.Member :=
  textMember "type" (Aql.packetTypeName r.type) ::
    ([numberMember "dispatch_id" (decimal r.dispatchId), boolMember "barrier" r.barrier] ++
      dispatchMembers r ++ ringPhysMembers q)

theorem packetMembers_ok (q : QueueInfo) (r : PacketRecord) : ∀ m ∈ packetMembers q r, m.Ok := by
  have hdispatch : ∀ m ∈ dispatchMembers r, m.Ok := by
    unfold dispatchMembers
    split
    · simp only [List.forall_mem_cons]
      exact ⟨textMember_ok (quotable_dims _ _ _), textMember_ok (quotable_dims _ _ _),
        textMember_ok (quotable_hex _), numberMember_ok (isNumber_decimal _),
        numberMember_ok (isNumber_decimal _), textMember_ok (quotable_hex _),
        List.forall_mem_nil _⟩
    · exact List.forall_mem_nil _
  simp only [packetMembers, List.forall_mem_cons, List.forall_mem_append]
  exact ⟨textMember_ok (quotable_packetTypeName _),
    ⟨⟨numberMember_ok (isNumber_decimal _), boolMember_ok _,
      List.forall_mem_nil _⟩, hdispatch⟩, (ringPhysMembers_spec q).1⟩

theorem packetText_eq (fmt : MicrosFormat) (q : QueueInfo) (r : PacketRecord) :
    packetText fmt q r =
      eventHead fmt q.pid r.queueUid r.submitTs (durNs r.submitTs r.completeTs) r.kernelName ++
        (Json.membersText (packetMembers q r) ++ str "\x7d\x7d") := by
  have hring := (ringPhysMembers_spec q).2.1
  simp only [Json.Member.written] at hring
  unfold packetText packetMembers dispatchMembers
  by_cases hdispatch : r.type = .kernelDispatch ∨ r.type = .vendorSpecific
  · rw [if_pos hdispatch, if_pos hdispatch]
    simp [Json.membersText, Json.Member.written, textMember, numberMember, boolMember, hexText, hring, str]
  · rw [if_neg hdispatch, if_neg hdispatch]
    simp [Json.membersText, Json.Member.written, textMember, numberMember, boolMember, hring, str]

theorem memberValues_packet (q : QueueInfo) (r : PacketRecord) :
    Json.memberValues (packetMembers q r) = some (packetArgs q r) := by
  have hring := (ringPhysMembers_spec q).2.2
  unfold packetMembers packetArgs dispatchMembers
  by_cases hdispatch : r.type = .kernelDispatch ∨ r.type = .vendorSpecific
  · rw [if_pos hdispatch, if_pos hdispatch]
    simp [Json.memberValues_cons, hring, textMember, numberMember, boolMember, number]
  · rw [if_neg hdispatch, if_neg hdispatch]
    simp [Json.memberValues_cons, hring, textMember, numberMember, boolMember, number]

theorem parses_packet (fmt : MicrosFormat) (q : QueueInfo) (r : PacketRecord) :
    Json.Parses (packetText fmt q r) (packetEvent fmt q r).parsed := by
  have h := parses_complete fmt q.pid r.queueUid r.submitTs (durNs r.submitTs r.completeTs) r.kernelName
    (packetMembers_ok q r)
  rw [← packetText_eq, memberValues_packet, clean?] at h
  rw [ChromeEvent.parsed, packetEvent]
  by_cases hclean : Clean r.kernelName
  · simpa [hclean] using h
  · simpa [hclean] using h

/-! ### SDMA packets -/

def copyMembers (r : SdmaRecord) : List Json.Member :=
  if r.isCopy then
    [numberMember "bytes" (decimal r.bytes), textMember "direction" (copyDirName r.dir),
      textMember "src" (hexText r.srcAddr), textMember "dst" (hexText r.dstAddr)]
  else []

def sdmaMembers (q : QueueInfo) (r : SdmaRecord) : List Json.Member :=
  numberMember "opcode" (decimal r.opcode.toNat) ::
    ([numberMember "seq" (decimal r.seq)] ++ copyMembers r ++ ringPhysMembers q)

theorem sdmaMembers_ok (q : QueueInfo) (r : SdmaRecord) : ∀ m ∈ sdmaMembers q r, m.Ok := by
  have hcopy : ∀ m ∈ copyMembers r, m.Ok := by
    unfold copyMembers
    split
    · simp only [List.forall_mem_cons]
      exact ⟨numberMember_ok (isNumber_decimal _),
        textMember_ok (quotable_copyDirName _), textMember_ok (quotable_hex _),
        textMember_ok (quotable_hex _), List.forall_mem_nil _⟩
    · exact List.forall_mem_nil _
  simp only [sdmaMembers, List.forall_mem_cons, List.forall_mem_append]
  exact ⟨numberMember_ok (isNumber_decimal _),
    ⟨⟨numberMember_ok (isNumber_decimal _), List.forall_mem_nil _⟩, hcopy⟩,
    (ringPhysMembers_spec q).1⟩

theorem sdmaText_eq (fmt : MicrosFormat) (q : QueueInfo) (r : SdmaRecord) :
    sdmaText fmt q r =
      eventHead fmt q.pid r.queueUid r.submitTs (durNs r.submitTs r.completeTs) r.opName ++
        (Json.membersText (sdmaMembers q r) ++ str "\x7d\x7d") := by
  have hring := (ringPhysMembers_spec q).2.1
  simp only [Json.Member.written] at hring
  unfold sdmaText sdmaMembers copyMembers
  by_cases hcopy : r.isCopy
  · simp [Json.membersText, Json.Member.written, textMember, numberMember, hexText, hring, hcopy, str]
  · simp [Json.membersText, Json.Member.written, numberMember, hring, hcopy, str]

theorem memberValues_sdma (q : QueueInfo) (r : SdmaRecord) :
    Json.memberValues (sdmaMembers q r) = some (sdmaArgs q r) := by
  have hring := (ringPhysMembers_spec q).2.2
  unfold sdmaMembers sdmaArgs copyMembers
  by_cases hcopy : r.isCopy
  · simp [Json.memberValues_cons, hring, hcopy, textMember, numberMember, number]
  · simp [Json.memberValues_cons, hring, hcopy, numberMember, number]

theorem parses_sdma (fmt : MicrosFormat) (q : QueueInfo) (r : SdmaRecord) :
    Json.Parses (sdmaText fmt q r) (sdmaEvent fmt q r).parsed := by
  have h := parses_complete fmt q.pid r.queueUid r.submitTs (durNs r.submitTs r.completeTs) r.opName
    (sdmaMembers_ok q r)
  rw [← sdmaText_eq, memberValues_sdma, clean?] at h
  rw [ChromeEvent.parsed, sdmaEvent]
  by_cases hclean : Clean r.opName
  · simpa [hclean] using h
  · simpa [hclean] using h

/-! ### AIS ioctls -/

def aisMembers (r : AisRecord) : List Json.Member :=
  [textMember "op" (aisOpName r.op), numberMember "gpu_id" (decimal r.gpuId),
    nameMember "pcie_id" r.pcieId, numberMember "size_req" (decimal r.sizeReq),
    numberMember "size_copied" (decimal r.sizeCopied), numberMember "error" (signedDecimal r.error),
    numberMember "seq" (decimal r.seq)]

theorem aisMembers_ok (r : AisRecord) : ∀ m ∈ aisMembers r, m.Ok := by
  simp only [aisMembers, List.forall_mem_cons]
  exact ⟨textMember_ok (quotable_aisOpName _), numberMember_ok (isNumber_decimal _),
    nameMember_ok _, numberMember_ok (isNumber_decimal _),
    numberMember_ok (isNumber_decimal _),
    numberMember_ok (isNumber_signedDecimal _),
    numberMember_ok (isNumber_decimal _), List.forall_mem_nil _⟩

theorem aisText_eq (fmt : MicrosFormat) (hash : Bytes → Nat) (r : AisRecord) :
    aisText fmt hash r =
      eventHead fmt r.pid (aisTid hash r) r.submitTs (aisDurNs r) (aisLabel r) ++
        (Json.membersText (aisMembers r) ++ str "\x7d\x7d") := by
  simp [aisText, aisMembers, Json.membersText, Json.Member.written, textMember, numberMember, nameMember,
    str]

theorem memberValues_ais (r : AisRecord) :
    Json.memberValues (aisMembers r) = if Clean r.pcieId then some (aisArgs r) else none := by
  have hnil : Json.memberValues [] = some [] := rfl
  by_cases hclean : Clean r.pcieId
  · simp [aisMembers, aisArgs, Json.memberValues_cons, hnil, textMember, numberMember, nameMember, clean?,
      hclean, number]
  · simp [aisMembers, Json.memberValues_cons, textMember, numberMember, nameMember, clean?, hclean]

/-- A label is as clean as the device's name. -/
theorem clean_aisLabel {r : AisRecord} (h : Clean r.pcieId) : Clean (aisLabel r) := by
  have hop : Clean (str "ais/" ++ aisOpName r.op) :=
    (jsonEscape_plain (quotable_append (by decide) (quotable_aisOpName r.op))).2
  unfold aisLabel
  dsimp only
  split
  · exact clean_append.2 ⟨clean_append.2 ⟨clean_append.2 ⟨hop, by decide⟩, h⟩, by decide⟩
  · exact hop

theorem parses_ais (fmt : MicrosFormat) (hash : Bytes → Nat) (r : AisRecord) :
    Json.Parses (aisText fmt hash r) (aisEvent fmt hash r).parsed := by
  have h := parses_complete fmt r.pid (aisTid hash r) r.submitTs (aisDurNs r) (aisLabel r)
    (aisMembers_ok r)
  rw [← aisText_eq, memberValues_ais, clean?] at h
  rw [ChromeEvent.parsed, aisEvent]
  by_cases hclean : Clean r.pcieId
  · simpa [hclean, clean_aisLabel hclean] using h
  · -- The arguments are refused, whatever becomes of the label.
    simp only [if_neg hclean, Option.map_none] at h
    by_cases hlabel : Clean (aisLabel r)
    · simpa [hclean, hlabel] using h
    · simpa [hclean, hlabel] using h

/-! ## The file is parsed -/

theorem parses_chromeEvents (w : TraceWriter) (fmt : MicrosFormat) (hash : Bytes → Nat) :
    ∀ e ∈ w.chromeEvents fmt hash, Json.Parses e.text e.parsed := by
  intro e he
  simp only [TraceWriter.chromeEvents, List.mem_append, List.mem_flatMap, List.mem_map,
    List.mem_cons, List.not_mem_nil, or_false] at he
  rcases he with ((⟨entry, -, rfl | rfl⟩ | ⟨r, -, rfl⟩) | ⟨r, -, rfl⟩) | ⟨r, -, rfl⟩
  · exact parses_processName entry.2
  · exact parses_threadName entry.2
  · exact parses_packet fmt _ r
  · exact parses_sdma fmt _ r
  · exact parses_ais fmt hash r

def ChromeEvent.element (e : ChromeEvent) : Json.Element := ⟨e.text, e.parsed⟩

/-- What the stream holds after some events. -/
structure Written (o : JsonOut) (es : List ChromeEvent) : Prop where
  buf : o.buf = str "\x7b\"traceEvents\":[\n" ++ Json.elementsText [10] (es.map ChromeEvent.element)
  first : o.first = es.isEmpty

theorem elementsText_concat (ws : Bytes) (e : Json.Element) (es : List Json.Element) :
    Json.elementsText ws (es ++ [e]) =
      (if es = [] then [] else Json.elementsText ws es ++ 44 :: ws) ++ e.text := by
  cases es with
  | nil => simp [Json.elementsText]
  | cons e' es => simp [Json.elementsText]

/-- **One more event**: the comma is where it belongs. -/
theorem Written.event {o : JsonOut} {es : List ChromeEvent} (h : Written o es) (e : ChromeEvent) :
    Written (o.event e.text) (es ++ [e]) := by
  refine ⟨?_, by simp [JsonOut.event]⟩
  rw [JsonOut.event, h.first, h.buf, List.map_append, List.map_singleton, elementsText_concat]
  cases es with
  | nil => simp [Json.elementsText, ChromeEvent.element]
  | cons e' es => simp [ChromeEvent.element, show str ",\n" = [44, 10] by decide]

/-- A loop that writes an event for every element of a list. -/
theorem Written.foldl {α : Type} {o : JsonOut} {es : List ChromeEvent} (h : Written o es)
    (event : α → ChromeEvent) (l : List α) :
    Written (l.foldl (fun o a => o.event (event a).text) o) (es ++ l.map event) := by
  induction l generalizing o es with
  | nil => simpa using h
  | cons a l ih =>
      have hnext := ih (h.event (event a))
      rwa [List.append_assoc, List.singleton_append] at hnext

/-- The loop over the queues writes two events at a time. -/
theorem Written.queues {o : JsonOut} {es : List ChromeEvent} (h : Written o es) (qs : List QueueInfo) :
    Written (qs.foldl (fun o q =>
        let o := o.event (processNameText q)
        { o with buf := o.buf ++ str ",\n" ++ threadNameText q }) o)
      (es ++ qs.flatMap (fun q => [processNameEvent q, threadNameEvent q])) := by
  induction qs generalizing o es with
  | nil => simpa using h
  | cons q qs ih =>
      have htwo : Written
          { o.event (processNameText q) with
            buf := (o.event (processNameText q)).buf ++ str ",\n" ++ threadNameText q }
          (es ++ [processNameEvent q] ++ [threadNameEvent q]) :=
        (h.event (processNameEvent q)).event (threadNameEvent q)
      have hsplit : es ++ (q :: qs).flatMap (fun q => [processNameEvent q, threadNameEvent q]) =
          es ++ [processNameEvent q] ++ [threadNameEvent q] ++
            qs.flatMap (fun q => [processNameEvent q, threadNameEvent q]) := by simp
      rw [hsplit]
      exact ih htwo

/-- The text, by its events. -/
theorem writeJson_eq (w : TraceWriter) (fmt : MicrosFormat) (hash : Bytes → Nat) :
    w.writeJson fmt hash =
      str "\x7b\"traceEvents\":[\n" ++
        Json.elementsText [10] ((w.chromeEvents fmt hash).map ChromeEvent.element) ++
        str "\n]\x7d\n" := by
  have hstart : Written ⟨str "\x7b\"traceEvents\":[\n", true⟩ [] := ⟨by simp [Json.elementsText], rfl⟩
  have hqueues := hstart.queues (w.queues.entries.map Prod.snd)
  have hpackets := hqueues.foldl (fun r => packetEvent fmt (w.queue r.queueUid) r) w.records
  have hsdma := hpackets.foldl (fun r => sdmaEvent fmt (w.queue r.queueUid) r) w.sdmaRecords
  have hais := hsdma.foldl (aisEvent fmt hash) w.aisRecords
  rw [List.nil_append, List.flatMap_map] at hais
  exact congrArg (fun buf => buf ++ str "\n]\x7d\n") hais.buf

theorem elementValues_parsed (es : List ChromeEvent) :
    Json.elementValues (es.map ChromeEvent.element) =
      if ∀ e ∈ es, e.clean = true then some (es.map ChromeEvent.value) else none := by
  induction es with
  | nil => rfl
  | cons e es ih =>
      rw [List.map_cons, Json.elementValues_cons, ih, ChromeEvent.element, ChromeEvent.parsed]
      simp only [List.forall_mem_cons]
      by_cases he : e.clean = true
      · by_cases hes : ∀ e ∈ es, e.clean = true
        · rw [if_pos he, if_pos hes, if_pos ⟨he, hes⟩]
          rfl
        · rw [if_pos he, if_neg hes, if_neg (fun h => hes h.2)]
          rfl
      · have hcons : ¬(e.clean = true ∧ ∀ e ∈ es, e.clean = true) := fun h => he h.1
        rw [if_neg hcons, if_neg he]
        rfl

/-- The trace as a value. -/
def traceValue (events : List Json.Value) : Json.Value := .obj [(str "traceEvents", .arr events)]

/-- **What the parser makes of the file**: the whole trace, or nothing. -/
theorem parse_writeJson (w : TraceWriter) (fmt : MicrosFormat) (hash : Bytes → Nat) :
    Json.parse (w.writeJson fmt hash) =
      if ∀ e ∈ w.chromeEvents fmt hash, e.clean = true then
        some (traceValue ((w.chromeEvents fmt hash).map ChromeEvent.value))
      else none := by
  have hws : ∀ c ∈ ([10] : Bytes), Json.isWs c = true := List.forall_mem_singleton.2 rfl
  have harray := Json.parses_array hws ((w.chromeEvents fmt hash).map ChromeEvent.element) (by
    intro e he
    obtain ⟨e', he', rfl⟩ := List.mem_map.1 he
    exact parses_chromeEvents w fmt hash e' he')
  have hok : ∀ m ∈ [(⟨str "traceEvents", 91 :: ([10] ++ (Json.elementsText [10]
        ((w.chromeEvents fmt hash).map ChromeEvent.element) ++ ([10] ++ [93]))),
        (Json.elementValues ((w.chromeEvents fmt hash).map ChromeEvent.element)).map .arr⟩ :
        Json.Member)], m.Ok :=
    List.forall_mem_singleton.2 ⟨show Json.Plain (str "traceEvents") by decide, harray⟩
  have hparse := Json.parse_append_ws hws (Json.parses_object _ hok)
  have htext : w.writeJson fmt hash =
      123 :: (Json.membersText [⟨str "traceEvents", 91 :: ([10] ++ (Json.elementsText [10]
        ((w.chromeEvents fmt hash).map ChromeEvent.element) ++ ([10] ++ [93]))),
        (Json.elementValues ((w.chromeEvents fmt hash).map ChromeEvent.element)).map .arr⟩] ++ [125]) ++
      [10] := by
    rw [writeJson_eq]
    simp [Json.membersText, Json.Member.written, str]
  rw [htext, hparse, Json.memberValues_cons, elementValues_parsed]
  split
  · rfl
  · rfl

/-! ## Which names can be written -/

/-- No name of the trace has a control character in it, newlines apart. -/
structure TraceWriter.NamesClean (w : TraceWriter) : Prop where
  comm : ∀ e ∈ w.queues.entries, Clean e.2.comm
  kernelName : ∀ r ∈ w.records, Clean r.kernelName
  opName : ∀ r ∈ w.sdmaRecords, Clean r.opName
  pcieId : ∀ r ∈ w.aisRecords, Clean r.pcieId

theorem chromeEvents_clean_iff (w : TraceWriter) (fmt : MicrosFormat) (hash : Bytes → Nat) :
    (∀ e ∈ w.chromeEvents fmt hash, e.clean = true) ↔ w.NamesClean := by
  simp only [TraceWriter.chromeEvents, List.forall_mem_append, List.forall_mem_map,
    List.forall_mem_flatMap, List.forall_mem_cons, processNameEvent, threadNameEvent,
    packetEvent, sdmaEvent, aisEvent, decide_eq_true_eq]
  constructor
  · rintro ⟨⟨⟨hcomm, hkernel⟩, hop⟩, hpcie⟩
    exact ⟨fun e he => (hcomm e he).1, hkernel, hop, hpcie⟩
  · intro h
    have hcomm : ∀ e ∈ w.queues.entries, Clean e.2.comm ∧ True ∧
        ∀ x ∈ ([] : List ChromeEvent), x.clean = true :=
      fun e he => ⟨h.comm e he, trivial, List.forall_mem_nil _⟩
    exact ⟨⟨⟨hcomm, h.kernelName⟩, h.opName⟩, h.pcieId⟩

/-- The events of the trace: two per queue, one per record, with the names that were stored. -/
def TraceWriter.traceEvents (w : TraceWriter) (fmt : MicrosFormat) (hash : Bytes → Nat) :
    List Json.Value :=
  w.queues.entries.flatMap (fun e =>
      [metadataValue "process_name" e.2 0 (processLabel e.2),
        metadataValue "thread_name" e.2 e.2.uid (queueLabel e.2)]) ++
    w.records.map (fun r => completeValue fmt (w.queue r.queueUid).pid r.queueUid r.submitTs
      (durNs r.submitTs r.completeTs) r.kernelName (packetArgs (w.queue r.queueUid) r)) ++
    w.sdmaRecords.map (fun r => completeValue fmt (w.queue r.queueUid).pid r.queueUid r.submitTs
      (durNs r.submitTs r.completeTs) r.opName (sdmaArgs (w.queue r.queueUid) r)) ++
    w.aisRecords.map (fun r => completeValue fmt r.pid (aisTid hash r) r.submitTs (aisDurNs r)
      (aisLabel r) (aisArgs r))

theorem map_value_chromeEvents (w : TraceWriter) (fmt : MicrosFormat) (hash : Bytes → Nat) :
    (w.chromeEvents fmt hash).map ChromeEvent.value = w.traceEvents fmt hash := by
  simp only [TraceWriter.chromeEvents, List.map_append, List.map_flatMap, List.map_map, List.map_cons,
    List.map_nil]
  rfl

/-- **The Chrome trace is valid JSON** that holds the trace, exactly when no name has a control
    character other than a newline in it. -/
theorem writeJson_valid_iff (w : TraceWriter) (fmt : MicrosFormat) (hash : Bytes → Nat) :
    Json.parse (w.writeJson fmt hash) = some (traceValue (w.traceEvents fmt hash)) ↔ w.NamesClean := by
  rw [parse_writeJson, ← chromeEvents_clean_iff w fmt hash, map_value_chromeEvents]
  constructor
  · intro h
    by_contra hnot
    rw [if_neg hnot] at h
    cases h
  · intro h
    rw [if_pos h]

/-- A process that put a tab into its name, and a kernel it launched. -/
def tabbedWriter : TraceWriter :=
  TraceWriter.registerQueue
    { records := [{ queueUid := 1, kernelName := str "k", submitTs := 1000, completeTs := 3000 }] }
    { uid := 1, pid := 7, comm := str "a\tb" }

/-- The whole file is refused. -/
theorem tab_breaks_writeJson :
    (∀ e ∈ tabbedWriter.queues.entries, 0 ∉ e.2.comm) ∧
      (Json.parse (tabbedWriter.writeJson ostreamFormat (fun _ => 0))).isNone = true ∧
      ¬ Json.parse (tabbedWriter.writeJson ostreamFormat (fun _ => 0)) =
        some (traceValue (tabbedWriter.traceEvents ostreamFormat (fun _ => 0))) := by
  have hnone : (Json.parse (tabbedWriter.writeJson ostreamFormat (fun _ => 0))).isNone = true := by
    decide +kernel
  refine ⟨by decide, hnone, ?_⟩
  rw [Option.isNone_iff_eq_none.1 hnone]
  exact nofun

end HsaSnoop
