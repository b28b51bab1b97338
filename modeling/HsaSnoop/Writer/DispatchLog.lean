import HsaSnoop.Model.Records
import HsaSnoop.Writer.JsonText

set_option autoImplicit false

/-! # The dispatch log

`DispatchLog` writes one JSON object a line. A line is grown member by member: `appendKey` looks at the
last byte to see whether a comma is due, `appendEscaped` quotes a C string. What is written so far is
always an open object (`Opened`): no value ends in a brace that could be taken for the opening one. So
every line is one object with the record's values, whatever bytes the names in it have.

The texts of dates and durations are parameters (`LogText`). -/

namespace HsaSnoop

/-! ## Appending -/

/-- One character, as `AppendEscaped` writes it. -/
def escapeByte (c : UInt8) : Bytes :=
  if c = 34 then str "\\\""
  else if c = 92 then str "\\\\"
  else if c = 10 then str "\\n"
  else if c = 13 then str "\\r"
  else if c = 9 then str "\\t"
  else if c < 0x20 then
    let digits := hexadecimal c.toNat
    snprintf 8 (str "\\u" ++ (List.replicate (4 - digits.length) 48 ++ digits))
  else [c]

/-- `AppendEscaped`: a C string, in quotes. -/
def appendEscaped (out s : Bytes) : Bytes := out ++ 34 :: ((cStr s).flatMap escapeByte ++ [34])

def appendKey (out : Bytes) (key : String) : Bytes :=
  appendEscaped (if out.getLast? ≠ some 123 then out ++ [44] else out) (str key) ++ [58]

def appendStr (out : Bytes) (key : String) (val : Bytes) : Bytes := appendEscaped (appendKey out key) val

def appendNum (out : Bytes) (key : String) (val : Nat) : Bytes := appendKey out key ++ decimal val

/-- The texts of times. -/
structure LogText where
  /-- The date of a point of the monotonic clock, which `AppendTimestamp` writes. -/
  date : Time → Bytes
  date_noNul : ∀ t, (0 : UInt8) ∉ date t
  /-- A duration in microseconds, which `AppendFixed` writes with `%.3f`. -/
  micros : Nat → Bytes
  micros_number : ∀ n, Json.IsNumber (micros n)

def appendTimestamp (env : LogText) (out : Bytes) (t : Time) : Bytes := appendStr out "ts" (env.date t)

def appendFixed (env : LogText) (out : Bytes) (key : String) (val : Nat) : Bytes :=
  appendKey out key ++ env.micros val

/-- `[x,y,z]`. -/
def tripleText (x y z : Nat) : Bytes :=
  str "[" ++ decimal x ++ str "," ++ decimal y ++ str "," ++ decimal z ++ str "]"

/-! ## Lines -/

/-- What the log knows of a record's queue. -/
structure LogCtx where
  gpuId : Nat := 0
  pid : Int := 0
  comm : Bytes := []

/-- The line `LogQueue` writes. -/
def logQueue (env : LogText) (q : QueueInfo) (kind : Bytes) : Bytes :=
  let o := str "\x7b"
  let o := appendTimestamp env o q.createTs
  let o := appendStr o "ev" (str "queue")
  let o := appendStr o "kind" kind
  let o := appendNum o "gpu_id" q.gpuId
  let o := appendNum o "pid" (u64OfInt q.pid)
  let o := appendStr o "comm" q.comm
  let o := appendNum o "queue_uid" q.uid
  let o := appendNum o "qtype" q.qtype
  let o := appendNum o "ring_size" q.ringSize.toNat
  let o := appendStr o "ring_va" (snprintf 32 (str "0x" ++ hexadecimal q.ringBase.toNat))
  let o := appendStr o "ring_phys" (snprintf 32 (str "0x" ++ hexadecimal q.ringPhys))
  o ++ str "\x7d"

/-- The line `LogDispatch` writes. The duration is left out unless the queue retired the packet. -/
def logDispatch (env : LogText) (r : PacketRecord) (c : LogCtx) : Bytes :=
  let o := str "\x7b"
  let o := appendTimestamp env o r.submitTs
  let o := appendStr o "ev" (str "dispatch")
  let o := appendNum o "gpu_id" c.gpuId
  let o := appendNum o "pid" (u64OfInt c.pid)
  let o := appendStr o "comm" c.comm
  let o := appendNum o "queue_uid" r.queueUid
  let o := appendNum o "dispatch_id" r.dispatchId
  let o := appendStr o "kernel" r.kernelName
  let o := appendKey o "grid" ++ tripleText r.gridX r.gridY r.gridZ
  let o := appendKey o "wg" ++ tripleText r.wgX r.wgY r.wgZ
  let o := appendNum o "lds" r.groupSeg
  let o := appendNum o "scratch" r.privateSeg
  let o :=
    if r.completed ∧ r.submitTs < r.completeTs then
      appendFixed env o "dur_us" (r.completeTs - r.submitTs)
    else o
  o ++ str "\x7d"

/-- The line `LogSdma` writes. -/
def logSdma (env : LogText) (r : SdmaRecord) (c : LogCtx) : Bytes :=
  let o := str "\x7b"
  let o := appendTimestamp env o r.submitTs
  let o := appendStr o "ev" (str "sdma")
  let o := appendNum o "gpu_id" c.gpuId
  let o := appendNum o "pid" (u64OfInt c.pid)
  let o := appendStr o "comm" c.comm
  let o := appendNum o "queue_uid" r.queueUid
  let o := appendNum o "seq" r.seq
  let o := appendStr o "op" r.opName
  let o :=
    if r.isCopy then appendNum (appendStr o "dir" (copyDirName r.dir)) "bytes" r.bytes else o
  let o :=
    if r.completed ∧ r.submitTs < r.completeTs then
      appendFixed env o "dur_us" (r.completeTs - r.submitTs)
    else o
  o ++ str "\x7d"

/-! ## Escaped strings are read back -/

/-- A control character, spelled with four digits. -/
theorem escapeByte_control : ∀ n < 32, n ≠ 10 → n ≠ 13 → n ≠ 9 →
    escapeByte (UInt8.ofNat n) = [92, 117, 48, 48, digitByte (n / 16), digitByte (n % 16)] := by
  decide

theorem hexDigit?_digitByte : ∀ d < 16, Json.hexDigit? (digitByte d) = some d := by decide

theorem utf8EncodeChar_control : ∀ n < 32,
    String.utf8EncodeChar (Char.ofNat n) = [UInt8.ofNat n] := by decide

/-- The bytes with an escape of their own, each with its letter. -/
def shortEscapes : List (UInt8 × UInt8) := [(34, 34), (92, 92), (10, 110), (13, 114), (9, 116)]

theorem escapeByte_short : ∀ p ∈ shortEscapes,
    escapeByte p.1 = [92, p.2] ∧ p.2 ≠ 117 ∧ Json.escape? p.2 = some p.1 ∧ 32 ≤ p.2 := by
  have hall : shortEscapes.all (fun p => decide (escapeByte p.1 = [92, p.2] ∧ p.2 ≠ 117 ∧
      Json.escape? p.2 = some p.1 ∧ 32 ≤ p.2)) = true := by decide
  exact fun p hp => of_decide_eq_true (List.all_eq_true.1 hall p hp)

/-- The cases of `AppendEscaped`. -/
theorem escapeByte_cases (c : UInt8) :
    (∃ e, escapeByte c = [92, e] ∧ e ≠ 117 ∧ Json.escape? e = some c ∧ 32 ≤ e) ∨
      (∃ n < 32, c = UInt8.ofNat n ∧
        escapeByte c = [92, 117, 48, 48, digitByte (n / 16), digitByte (n % 16)]) ∨
      (escapeByte c = [c] ∧ 32 ≤ c ∧ c ≠ 34 ∧ c ≠ 92) := by
  by_cases hshort : ∃ p ∈ shortEscapes, p.1 = c
  · obtain ⟨p, hp, rfl⟩ := hshort
    exact .inl ⟨p.2, escapeByte_short p hp⟩
  · simp only [shortEscapes, List.exists_mem_cons_iff, not_or] at hshort
    obtain ⟨h34, h92, h10, h13, h9, -⟩ := hshort
    by_cases hlt : c < 0x20
    · have hc : c = UInt8.ofNat c.toNat := (UInt8.ofNat_toNat).symm
      have hn : c.toNat < 32 := UInt8.lt_iff_toNat_lt.1 hlt
      refine .inr (.inl ⟨c.toNat, hn, hc, ?_⟩)
      have hcontrol := escapeByte_control c.toNat hn
        (fun h => h10 (UInt8.toNat_inj.1 h).symm) (fun h => h13 (UInt8.toNat_inj.1 h).symm)
        (fun h => h9 (UInt8.toNat_inj.1 h).symm)
      rwa [← hc] at hcontrol
    · refine .inr (.inr ⟨?_, UInt8.not_lt.1 hlt, Ne.symm h34, Ne.symm h92⟩)
      unfold escapeByte
      rw [if_neg (Ne.symm h34), if_neg (Ne.symm h92), if_neg (Ne.symm h10), if_neg (Ne.symm h13),
        if_neg (Ne.symm h9), if_neg hlt]

theorem digitByte_printable : ∀ d < 16, 32 ≤ digitByte d := by decide

/-- No control character is left. -/
theorem printable_escapeByte {c d : UInt8} (h : d ∈ escapeByte c) : 32 ≤ d := by
  rcases escapeByte_cases c with ⟨e, heq, -, -, he⟩ | ⟨n, hn, -, heq⟩ | ⟨heq, hc, -⟩
  · rw [heq] at h
    rcases List.mem_cons.1 h with rfl | h
    · decide
    · rw [List.mem_singleton.1 h]
      exact he
  · have hhigh := digitByte_printable (n / 16) (by omega)
    have hlow := digitByte_printable (n % 16) (by omega)
    have hprefix : [92, 117, 48, 48].all (fun d : UInt8 => 32 ≤ d) = true := by decide
    rw [heq] at h
    rcases List.mem_append.1 (show d ∈ [92, 117, 48, 48] ++ [digitByte (n / 16), digitByte (n % 16)] from h)
      with h | h
    · exact of_decide_eq_true (List.all_eq_true.1 hprefix d h)
    · rcases List.mem_pair.1 h with rfl | rfl
      · exact hhigh
      · exact hlow
  · rw [heq] at h
    rw [List.mem_singleton.1 h]
    exact hc

/-- Every character is read back. -/
theorem readChar_escapeByte (c : UInt8) (s : Bytes) :
    Json.readChar (escapeByte c ++ s) = some ([c], s) ∧ (escapeByte c ++ s).head? ≠ some 34 := by
  rcases escapeByte_cases c with ⟨e, heq, he, hescape, -⟩ | ⟨n, hn, rfl, heq⟩ | ⟨heq, hc⟩
  · rw [heq]
    refine ⟨?_, by simp⟩
    simp [Json.readChar, Json.readEscape, he, hescape]
  · have hhigh := hexDigit?_digitByte (n / 16) (by omega)
    have hlow := hexDigit?_digitByte (n % 16) (by omega)
    have hn' : ((0 * 16 + 0) * 16 + n / 16) * 16 + n % 16 = n := by omega
    rw [heq]
    refine ⟨?_, by simp⟩
    simp only [List.cons_append, List.nil_append, Json.readChar, Json.readEscape, if_true,
      Json.readUnicode, Json.readHex4, hhigh, hlow, show Json.hexDigit? 48 = some 0 by decide, hn',
      if_pos (show n < 0xD800 ∨ 0xE000 ≤ n by omega), utf8EncodeChar_control n hn]
  · rw [heq]
    exact ⟨Json.readChar_plain hc s, by simpa using hc.2.1⟩

/-- **Escaping is undone by reading.** -/
theorem readString_escaped (s rest : Bytes) :
    Json.readString (s.flatMap escapeByte ++ 34 :: rest) = some (s, rest) := by
  induction s with
  | nil => exact Json.readString_quote rest
  | cons c s ih =>
      obtain ⟨hread, hhead⟩ := readChar_escapeByte c (s.flatMap escapeByte ++ 34 :: rest)
      rw [List.flatMap_cons, List.append_assoc, Json.readString_of_readChar hhead hread, ih]
      rfl

/-! ## Values -/

/-- A text a line may hold: the parser makes a value of it, it has no control character, and it does
    not end like an object that was just opened. -/
structure Shown (text : Bytes) (v : Json.Value) : Prop where
  parses : Json.Parses text (some v)
  printable : ∀ c ∈ text, 32 ≤ c
  last : text.getLast? ≠ some 123

def quoted (s : Bytes) : Bytes := 34 :: (s.flatMap escapeByte ++ [34])

theorem shown_quoted (s : Bytes) : Shown (quoted s) (.str s) := by
  refine ⟨Json.parses_string (o := some s) (readString_escaped s), ?_, ?_⟩
  · intro c hc
    rw [quoted, List.mem_cons, List.mem_append, List.mem_flatMap, List.mem_singleton] at hc
    rcases hc with rfl | ⟨d, -, hd⟩ | rfl
    · decide
    · exact printable_escapeByte hd
    · decide
  · rw [quoted, ← List.cons_append, List.getLast?_concat]
    decide

theorem digit_bytes {c : UInt8} (h : Json.isDigit c = true) : 32 ≤ c ∧ c ≠ 123 := by
  rw [Json.isDigit, Bool.and_eq_true, decide_eq_true_eq, decide_eq_true_eq] at h
  refine ⟨UInt8.le_trans (by decide) h.1, ?_⟩
  rintro rfl
  exact absurd h.2 (by decide)

/-- All numbers are made of these bytes. -/
theorem isNumber_bytes {text : Bytes} (h : Json.IsNumber text) : ∀ c ∈ text, 32 ≤ c ∧ c ≠ 123 := by
  obtain ⟨sign, int, frac, exp, rfl, hsign, hint, -, hfrac, hexp⟩ := h.parts
  have hdigits : ∀ {ds : Bytes}, Json.Digits ds → ∀ c ∈ ds, 32 ≤ c ∧ c ≠ 123 :=
    fun hds c hc => digit_bytes (hds.2 c hc)
  intro c hc
  rw [List.mem_append, List.mem_append, List.mem_append] at hc
  rcases hc with hc | hc | hc | hc
  · rcases hsign with rfl | rfl
    · cases hc
    · rw [List.mem_singleton.1 hc]
      decide
  · exact hdigits hint c hc
  · cases hfrac with
    | absent => cases hc
    | present hds =>
        rcases List.mem_cons.1 hc with rfl | hc
        · decide
        · exact hdigits hds c hc
  · cases hexp with
    | absent => cases hc
    | present he hsign hds =>
        rcases List.mem_cons.1 hc with rfl | hc
        · rcases he with rfl | rfl <;> decide
        · rcases List.mem_append.1 hc with hc | hc
          · rcases hsign with rfl | rfl | rfl
            · cases hc
            · rw [List.mem_singleton.1 hc]
              decide
            · rw [List.mem_singleton.1 hc]
              decide
          · exact hdigits hds c hc

/-- Numbers have no control characters and end in no brace. -/
theorem shown_number {text : Bytes} (h : Json.IsNumber text) : Shown text (.num text) := by
  refine ⟨Json.parses_number h, fun c hc => (isNumber_bytes h c hc).1, ?_⟩
  intro hlast
  exact (isNumber_bytes h 123 (List.mem_of_getLast? hlast)).2 rfl

theorem shown_decimal (n : Nat) : Shown (decimal n) (number n) := shown_number (isNumber_decimal n)

theorem shown_triple (x y z : Nat) :
    Shown (tripleText x y z) (.arr [number x, number y, number z]) := by
  have htext : tripleText x y z =
      91 :: ([] ++ (Json.elementsText [] [⟨decimal x, some (number x)⟩, ⟨decimal y, some (number y)⟩,
        ⟨decimal z, some (number z)⟩] ++ ([] ++ [93]))) := by
    simp [tripleText, Json.elementsText, show str "[" = [91] by decide, show str "," = [44] by decide,
      show str "]" = [93] by decide]
  have helems : ∀ e ∈ [(⟨decimal x, some (number x)⟩ : Json.Element), ⟨decimal y, some (number y)⟩,
      ⟨decimal z, some (number z)⟩], Json.Parses e.text e.value := by
    simp only [List.forall_mem_cons]
    exact ⟨(shown_decimal x).parses, (shown_decimal y).parses, (shown_decimal z).parses,
      List.forall_mem_nil _⟩
  refine ⟨htext ▸ Json.parses_array (List.forall_mem_nil _) _ helems, ?_, ?_⟩
  · intro c hc
    simp only [tripleText, List.mem_append] at hc
    rcases hc with (((((hc | hc) | hc) | hc) | hc) | hc) | hc
    · exact ((show Json.Plain (str "[") by decide) c hc).1
    · exact (shown_decimal x).printable c hc
    · exact ((show Json.Plain (str ",") by decide) c hc).1
    · exact (shown_decimal y).printable c hc
    · exact ((show Json.Plain (str ",") by decide) c hc).1
    · exact (shown_decimal z).printable c hc
    · exact ((show Json.Plain (str "]") by decide) c hc).1
  · rw [tripleText, show str "]" = [93] by decide, List.getLast?_concat]
    decide

/-! ## Lines are objects -/

/-- What has been written is an object with these members that is not closed yet. -/
structure Opened (out : Bytes) (ms : List (Bytes × Json.Value)) : Prop where
  text : ∃ members : List Json.Member, out = 123 :: Json.membersText members ∧
    (∀ m ∈ members, m.Ok ∧ ∀ c ∈ m.written, 32 ≤ c) ∧ Json.memberValues members = some ms
  /-- The last byte tells whether there are members yet. -/
  last : out.getLast? = some 123 ↔ ms = []

theorem opened_nil : Opened (str "\x7b") [] :=
  ⟨⟨[], by decide, List.forall_mem_nil _, rfl⟩, by decide⟩

/-- The keys of the log. -/
def PlainKey (key : String) : Prop := Json.Plain (str key)

instance (key : String) : Decidable (PlainKey key) :=
  inferInstanceAs (Decidable (Json.Plain (str key)))

theorem cStr_of_noNul {s : Bytes} (h : (0 : UInt8) ∉ s) : cStr s = s := by
  refine List.takeWhile_eq_self_iff.2 ?_
  intro c hc
  exact decide_eq_true (fun heq => h (heq ▸ hc))

/-- A key is written as it is. -/
theorem quoted_key {key : String} (h : PlainKey key) :
    appendEscaped [] (str key) = 34 :: (str key ++ [34]) := by
  have hnul : (0 : UInt8) ∉ str key := fun h0 => absurd (h 0 h0).1 (by decide)
  have hself : ∀ s : Bytes, (∀ c ∈ s, 32 ≤ c ∧ c ≠ 34 ∧ c ≠ 92) → s.flatMap escapeByte = s := by
    intro s hs
    induction s with
    | nil => rfl
    | cons c s ih =>
        obtain ⟨hc, h34, h92⟩ := hs c (List.mem_cons_self ..)
        have hctl : ∀ d : UInt8, d < 32 → c ≠ d := by
          rintro d hd rfl
          exact absurd hc (UInt8.not_le.2 hd)
        rw [List.flatMap_cons, ih (fun d hd => hs d (List.mem_cons_of_mem c hd)), escapeByte,
          if_neg h34, if_neg h92, if_neg (hctl 10 (by decide)), if_neg (hctl 13 (by decide)),
          if_neg (hctl 9 (by decide)), if_neg (UInt8.not_lt.2 hc), List.singleton_append]
  rw [appendEscaped, cStr_of_noNul hnul, hself (str key) h, List.nil_append]

theorem membersText_concat (m : Json.Member) (ms : List Json.Member) :
    Json.membersText (ms ++ [m]) =
      (if ms = [] then [] else Json.membersText ms ++ [44]) ++ m.written := by
  cases ms with
  | nil => simp [Json.membersText]
  | cons m' ms => simp [Json.membersText]

theorem memberValues_concat {m : Json.Member} {members : List Json.Member} {v : Json.Value}
    {ms : List (Bytes × Json.Value)} (h : Json.memberValues members = some ms)
    (hm : m.value = some v) : Json.memberValues (members ++ [m]) = some (ms ++ [(m.key, v)]) := by
  induction members generalizing ms with
  | nil =>
      obtain rfl : ms = [] := (Option.some.inj h).symm
      rw [List.nil_append, Json.memberValues_cons, hm]
      rfl
  | cons m' members ih =>
      rw [Json.memberValues_cons] at h
      obtain ⟨v', hv', h⟩ := Option.bind_eq_some_iff.1 h
      obtain ⟨ms', hms', rfl⟩ := Option.map_eq_some_iff.1 h
      rw [List.cons_append, Json.memberValues_cons, ih hms', hv']
      rfl

/-- **One more member**: the comma is where it belongs. -/
theorem Opened.member {out : Bytes} {ms : List (Bytes × Json.Value)} (h : Opened out ms) (key : String)
    {text : Bytes} {v : Json.Value} (hv : Shown text v) (hkey : PlainKey key := by decide) :
    Opened (appendKey out key ++ text) (ms ++ [(str key, v)]) := by
  obtain ⟨members, rfl, hmembers, hvalues⟩ := h.text
  have hnil : members = [] ↔ ms = [] := by
    constructor
    · rintro rfl
      exact (Option.some.inj hvalues).symm
    · rintro rfl
      cases members with
      | nil => rfl
      | cons m members =>
          rw [Json.memberValues_cons] at hvalues
          obtain ⟨v', -, h'⟩ := Option.bind_eq_some_iff.1 hvalues
          obtain ⟨ms', -, h'⟩ := Option.map_eq_some_iff.1 h'
          cases h'
  let m : Json.Member := ⟨str key, text, some v⟩
  have hout : appendKey (123 :: Json.membersText members) key ++ text =
      123 :: Json.membersText (members ++ [m]) := by
    have hescaped : ∀ o : Bytes, appendEscaped o (str key) = o ++ 34 :: (str key ++ [34]) := by
      intro o
      rw [← quoted_key hkey]
      simp [appendEscaped]
    rw [membersText_concat, appendKey, hescaped]
    by_cases hms : ms = []
    · rw [if_neg (not_not.2 (h.last.2 hms)), if_pos (hnil.2 hms), hnil.2 hms]
      simp [Json.membersText, Json.Member.written, m]
    · rw [if_pos (mt h.last.1 hms), if_neg (mt hnil.1 hms)]
      simp [Json.Member.written, m]
  have hlast : (appendKey (123 :: Json.membersText members) key ++ text).getLast? = text.getLast? := by
    obtain ⟨c, s, rfl, -⟩ := hv.parses.starts
    exact List.getLast?_append_cons ..
  constructor
  · refine ⟨members ++ [m], hout, ?_, memberValues_concat hvalues rfl⟩
    intro m' hm'
    rcases List.mem_append.1 hm' with hm' | hm'
    · exact hmembers m' hm'
    · rw [List.mem_singleton.1 hm']
      refine ⟨⟨hkey, hv.parses⟩, ?_⟩
      intro c hc
      rw [Json.Member.written, List.mem_cons, List.mem_append, List.mem_cons, List.mem_cons] at hc
      rcases hc with rfl | hc | rfl | rfl | hc
      · decide
      · exact (hkey c hc).1
      · decide
      · decide
      · exact hv.printable c hc
  · rw [hlast]
    refine ⟨fun hl => absurd hl hv.last, fun hl => ?_⟩
    exact absurd hl (by simp)

/-- A line: one object with pairwise different keys, and nothing that would end the line. -/
structure OneObject (line : Bytes) (ms : List (Bytes × Json.Value)) : Prop where
  parse : Json.parse line = some (.obj ms)
  keys : (ms.map Prod.fst).Nodup
  printable : ∀ c ∈ line, 32 ≤ c

theorem Opened.close {out : Bytes} {ms : List (Bytes × Json.Value)} (h : Opened out ms)
    (hkeys : (ms.map Prod.fst).Nodup) : OneObject (out ++ str "\x7d") ms := by
  obtain ⟨members, rfl, hmembers, hvalues⟩ := h.text
  have hobject := Json.parses_object members (fun m hm => (hmembers m hm).1)
  have hparse := Json.parse_append_ws (List.forall_mem_nil _) hobject
  rw [hvalues, List.append_nil] at hparse
  rw [show str "\x7d" = [125] by decide, List.cons_append]
  refine ⟨hparse, hkeys, ?_⟩
  intro c hc
  rw [List.mem_cons, List.mem_append, List.mem_singleton] at hc
  rcases hc with rfl | hc | rfl
  · decide
  · cases members with
    | nil => cases hc
    | cons m members =>
        rw [Json.membersText, List.mem_append, List.mem_flatMap] at hc
        rcases hc with hc | ⟨m', hm', hc⟩
        · exact (hmembers m (List.mem_cons_self ..)).2 c hc
        · rcases List.mem_cons.1 hc with rfl | hc
          · decide
          · exact (hmembers m' (List.mem_cons_of_mem m hm')).2 c hc
  · decide

/-- A string member. -/
theorem Opened.str {out : Bytes} {ms : List (Bytes × Json.Value)} (h : Opened out ms) (key : String)
    {s : Bytes} (hs : (0 : UInt8) ∉ s) (hkey : PlainKey key := by decide) :
    Opened (appendStr out key s) (ms ++ [(HsaSnoop.str key, .str s)]) := by
  rw [appendStr, appendEscaped, cStr_of_noNul hs]
  exact h.member key (shown_quoted s) hkey

/-- A number member. -/
theorem Opened.num {out : Bytes} {ms : List (Bytes × Json.Value)} (h : Opened out ms) (key : String)
    (n : Nat) (hkey : PlainKey key := by decide) :
    Opened (appendNum out key n) (ms ++ [(HsaSnoop.str key, number n)]) :=
  h.member key (shown_decimal n) hkey

/-! ## The three kinds of lines -/

/-- An address: `0x` and its hexadecimal digits. -/
def address (n : Nat) : Bytes := str "0x" ++ hexadecimal n

/-- A duration, when the record has one. -/
def durationMember (env : LogText) (completed : Bool) (submitTs completeTs : Time) :
    List (Bytes × Json.Value) :=
  if completed ∧ submitTs < completeTs then
    [(str "dur_us", .num (env.micros (completeTs - submitTs)))]
  else []

def queueObject (env : LogText) (q : QueueInfo) (kind : Bytes) : List (Bytes × Json.Value) :=
  [(str "ts", .str (env.date q.createTs)), (str "ev", .str (str "queue")), (str "kind", .str kind),
    (str "gpu_id", number q.gpuId), (str "pid", number (u64OfInt q.pid)), (str "comm", .str q.comm),
    (str "queue_uid", number q.uid), (str "qtype", number q.qtype),
    (str "ring_size", number q.ringSize.toNat), (str "ring_va", .str (address q.ringBase.toNat)),
    (str "ring_phys", .str (address q.ringPhys))]

def dispatchObject (env : LogText) (r : PacketRecord) (c : LogCtx) : List (Bytes × Json.Value) :=
  [(str "ts", .str (env.date r.submitTs)), (str "ev", .str (str "dispatch")),
    (str "gpu_id", number c.gpuId), (str "pid", number (u64OfInt c.pid)), (str "comm", .str c.comm),
    (str "queue_uid", number r.queueUid), (str "dispatch_id", number r.dispatchId),
    (str "kernel", .str r.kernelName),
    (str "grid", .arr [number r.gridX, number r.gridY, number r.gridZ]),
    (str "wg", .arr [number r.wgX, number r.wgY, number r.wgZ]), (str "lds", number r.groupSeg),
    (str "scratch", number r.privateSeg)] ++
  durationMember env r.completed r.submitTs r.completeTs

def sdmaObject (env : LogText) (r : SdmaRecord) (c : LogCtx) : List (Bytes × Json.Value) :=
  [(str "ts", .str (env.date r.submitTs)), (str "ev", .str (str "sdma")),
    (str "gpu_id", number c.gpuId), (str "pid", number (u64OfInt c.pid)), (str "comm", .str c.comm),
    (str "queue_uid", number r.queueUid), (str "seq", number r.seq), (str "op", .str r.opName)] ++
  (if r.isCopy then [(str "dir", .str (copyDirName r.dir)), (str "bytes", number r.bytes)] else []) ++
  durationMember env r.completed r.submitTs r.completeTs

theorem length_hexadecimal {n : Nat} (h : n < 2 ^ 64) : (hexadecimal n).length ≤ 16 := by
  rw [hexadecimal, str, List.length_map, String.toList_ofList]
  exact (Nat.length_toDigits_le_iff (by decide) (by decide)).2 h

/-- An address fits its buffer, and has no NUL in it. -/
theorem snprintf_address {n : Nat} (h : n < 2 ^ 64) :
    snprintf 32 (str "0x" ++ hexadecimal n) = address n ∧ (0 : UInt8) ∉ address n := by
  have hlen := length_hexadecimal h
  constructor
  · refine List.take_of_length_le ?_
    rw [List.length_append, show (str "0x").length = 2 by decide]
    omega
  · rw [address, List.mem_append, not_or]
    exact ⟨by decide, notMem_digitBytes (by decide) (by decide) n (by decide)⟩

theorem noNul_copyDirName (d : CopyDir) : (0 : UInt8) ∉ copyDirName d := by cases d <;> decide

/-- The duration closes a line, or is left out. -/
theorem Opened.duration {out : Bytes} {ms : List (Bytes × Json.Value)} (h : Opened out ms)
    (env : LogText) (completed : Bool) (submitTs completeTs : Time) :
    Opened
      (if completed ∧ submitTs < completeTs then
        appendFixed env out "dur_us" (completeTs - submitTs)
      else out)
      (ms ++ durationMember env completed submitTs completeTs) := by
  unfold durationMember
  by_cases hd : completed ∧ submitTs < completeTs
  · rw [if_pos hd, if_pos hd]
    exact h.member "dur_us" (shown_number (env.micros_number _))
  · rwa [if_neg hd, if_neg hd, List.append_nil]

/-- The members of a copy, if it is one. -/
theorem Opened.copy {out : Bytes} {ms : List (Bytes × Json.Value)} (h : Opened out ms)
    (r : SdmaRecord) :
    Opened (if r.isCopy then appendNum (appendStr out "dir" (copyDirName r.dir)) "bytes" r.bytes else out)
      (ms ++ if r.isCopy then [(HsaSnoop.str "dir", .str (copyDirName r.dir)),
        (HsaSnoop.str "bytes", number r.bytes)] else []) := by
  by_cases hcopy : r.isCopy
  · have hdir := h.str "dir" (noNul_copyDirName r.dir)
    have hbytes := hdir.num "bytes" r.bytes
    rw [if_pos hcopy, if_pos hcopy]
    rwa [List.append_assoc, List.singleton_append] at hbytes
  · rwa [if_neg hcopy, if_neg hcopy, List.append_nil]

theorem keys_durationMember (env : LogText) (completed : Bool) (submitTs completeTs : Time) :
    ((durationMember env completed submitTs completeTs).map Prod.fst).Sublist [str "dur_us"] := by
  unfold durationMember
  split
  · exact List.Sublist.refl _
  · exact List.nil_sublist _

theorem keys_queueObject (env : LogText) (q : QueueInfo) (kind : Bytes) :
    ((queueObject env q kind).map Prod.fst).Nodup := by
  have hkeys : (queueObject env q kind).map Prod.fst =
      ["ts", "ev", "kind", "gpu_id", "pid", "comm", "queue_uid", "qtype", "ring_size", "ring_va",
        "ring_phys"].map str := rfl
  rw [hkeys]
  decide

theorem keys_dispatchObject (env : LogText) (r : PacketRecord) (c : LogCtx) :
    ((dispatchObject env r c).map Prod.fst).Nodup := by
  have hkeys : (["ts", "ev", "gpu_id", "pid", "comm", "queue_uid", "dispatch_id", "kernel", "grid", "wg",
      "lds", "scratch"].map str ++ [str "dur_us"]).Nodup := by
    decide
  rw [dispatchObject, List.map_append]
  exact hkeys.sublist ((List.Sublist.refl _).append (keys_durationMember ..))

theorem keys_sdmaObject (env : LogText) (r : SdmaRecord) (c : LogCtx) :
    ((sdmaObject env r c).map Prod.fst).Nodup := by
  have hkeys : (["ts", "ev", "gpu_id", "pid", "comm", "queue_uid", "seq", "op"].map str ++
      ["dir", "bytes"].map str ++ [str "dur_us"]).Nodup := by
    decide
  have hcopy : ((if r.isCopy then [(str "dir", Json.Value.str (copyDirName r.dir)),
      (str "bytes", number r.bytes)] else []).map Prod.fst).Sublist (["dir", "bytes"].map str) := by
    split
    · exact List.Sublist.refl _
    · exact List.nil_sublist _
  rw [sdmaObject, List.map_append, List.map_append]
  exact hkeys.sublist (((List.Sublist.refl _).append hcopy).append (keys_durationMember ..))

theorem logQueue_object (env : LogText) {q : QueueInfo} {kind : Bytes} (hcomm : (0 : UInt8) ∉ q.comm)
    (hkind : (0 : UInt8) ∉ kind) (hphys : q.ringPhys < 2 ^ 64) :
    OneObject (logQueue env q kind) (queueObject env q kind) := by
  obtain ⟨hva, hvaNul⟩ := snprintf_address q.ringBase.toNat_lt
  obtain ⟨hpa, hpaNul⟩ := snprintf_address hphys
  unfold logQueue
  rw [hva, hpa]
  have h := opened_nil.str "ts" (env.date_noNul q.createTs)
  have h := h.str "ev" (show (0 : UInt8) ∉ str "queue" by decide)
  have h := h.str "kind" hkind
  have h := h.num "gpu_id" q.gpuId
  have h := h.num "pid" (u64OfInt q.pid)
  have h := h.str "comm" hcomm
  have h := h.num "queue_uid" q.uid
  have h := h.num "qtype" q.qtype
  have h := h.num "ring_size" q.ringSize.toNat
  have h := h.str "ring_va" hvaNul
  have h := h.str "ring_phys" hpaNul
  exact h.close (keys_queueObject env q kind)

theorem logDispatch_object (env : LogText) {r : PacketRecord} {c : LogCtx}
    (hcomm : (0 : UInt8) ∉ c.comm) (hkernel : (0 : UInt8) ∉ r.kernelName) :
    OneObject (logDispatch env r c) (dispatchObject env r c) := by
  unfold logDispatch
  have h := opened_nil.str "ts" (env.date_noNul r.submitTs)
  have h := h.str "ev" (show (0 : UInt8) ∉ str "dispatch" by decide)
  have h := h.num "gpu_id" c.gpuId
  have h := h.num "pid" (u64OfInt c.pid)
  have h := h.str "comm" hcomm
  have h := h.num "queue_uid" r.queueUid
  have h := h.num "dispatch_id" r.dispatchId
  have h := h.str "kernel" hkernel
  have h := h.member "grid" (shown_triple r.gridX r.gridY r.gridZ)
  have h := h.member "wg" (shown_triple r.wgX r.wgY r.wgZ)
  have h := h.num "lds" r.groupSeg
  have h := h.num "scratch" r.privateSeg
  have h := h.duration env r.completed r.submitTs r.completeTs
  exact h.close (keys_dispatchObject env r c)

theorem logSdma_object (env : LogText) {r : SdmaRecord} {c : LogCtx}
    (hcomm : (0 : UInt8) ∉ c.comm) (hop : (0 : UInt8) ∉ r.opName) :
    OneObject (logSdma env r c) (sdmaObject env r c) := by
  unfold logSdma
  have h := opened_nil.str "ts" (env.date_noNul r.submitTs)
  have h := h.str "ev" (show (0 : UInt8) ∉ str "sdma" by decide)
  have h := h.num "gpu_id" c.gpuId
  have h := h.num "pid" (u64OfInt c.pid)
  have h := h.str "comm" hcomm
  have h := h.num "queue_uid" r.queueUid
  have h := h.num "seq" r.seq
  have h := h.str "op" hop
  have h := h.copy r
  have h := h.duration env r.completed r.submitTs r.completeTs
  exact h.close (keys_sdmaObject env r c)

/-- **Every line is one JSON object** with the record's values, in the order written. -/
theorem dispatchLog_lines_decode (env : LogText) :
    (∀ (q : QueueInfo) (kind : Bytes), (0 : UInt8) ∉ q.comm → (0 : UInt8) ∉ kind →
        q.ringPhys < 2 ^ 64 → OneObject (logQueue env q kind) (queueObject env q kind)) ∧
      (∀ (r : PacketRecord) (c : LogCtx), (0 : UInt8) ∉ c.comm → (0 : UInt8) ∉ r.kernelName →
        OneObject (logDispatch env r c) (dispatchObject env r c)) ∧
      (∀ (r : SdmaRecord) (c : LogCtx), (0 : UInt8) ∉ c.comm → (0 : UInt8) ∉ r.opName →
        OneObject (logSdma env r c) (sdmaObject env r c)) :=
  ⟨fun _ _ hcomm hkind hphys => logQueue_object env hcomm hkind hphys,
    fun _ _ hcomm hkernel => logDispatch_object env hcomm hkernel,
    fun _ _ hcomm hop => logSdma_object env hcomm hop⟩

/-- `%.3f` of a number of microseconds, given in nanoseconds. -/
def fixed3 (n : Nat) : Bytes :=
  decimal (n / 1000) ++
    46 :: [digitByte (n / 100 % 10), digitByte (n / 10 % 10), digitByte (n % 10)]

theorem isNumber_fixed3 (n : Nat) : Json.IsNumber (fixed3 n) := by
  have hdigits : Json.Digits [digitByte (n / 100 % 10), digitByte (n / 10 % 10), digitByte (n % 10)] := by
    refine ⟨List.cons_ne_nil _ _, ?_⟩
    intro c hc
    simp only [List.mem_cons, List.not_mem_nil, or_false] at hc
    rcases hc with rfl | rfl | rfl <;> exact digitByte_isDigit _ (Nat.mod_lt _ (by decide))
  exact ⟨[], decimal (n / 1000), _, [], by simp [fixed3], .inl rfl, digits_decimal _, decimal_leading,
    .present hdigits, .absent⟩

/-- A clock that shows one date. -/
def someLogText : LogText where
  date _ := str "2026-09-01T22:04:28.392511Z"
  date_noNul _ := by decide
  micros := fixed3
  micros_number := isNumber_fixed3

/-- A kernel's name with quotes, backslashes, control characters and bytes beyond ASCII. -/
def oddName : Bytes := str "f<\"a\\b\">" ++ [1, 9, 10, 31, 127, 200]

/-- Lines with such names decode. -/
theorem lines_decode_oddName :
    OneObject (logQueue someLogText { comm := oddName, ringBase := 4096, ringPhys := 8192 } (str "aql"))
        (queueObject someLogText { comm := oddName, ringBase := 4096, ringPhys := 8192 } (str "aql")) ∧
      OneObject
        (logDispatch someLogText { kernelName := oddName, completed := true, completeTs := 812500 }
          { comm := oddName, pid := -1 })
        (dispatchObject someLogText { kernelName := oddName, completed := true, completeTs := 812500 }
          { comm := oddName, pid := -1 }) ∧
      OneObject (logSdma someLogText { opName := oddName, opcode := 1 } { comm := oddName })
        (sdmaObject someLogText { opName := oddName, opcode := 1 } { comm := oddName }) :=
  ⟨(dispatchLog_lines_decode someLogText).1 _ _ (by decide) (by decide) (by decide),
    (dispatchLog_lines_decode someLogText).2.1 _ _ (by decide) (by decide),
    (dispatchLog_lines_decode someLogText).2.2 _ _ (by decide) (by decide)⟩

end HsaSnoop
