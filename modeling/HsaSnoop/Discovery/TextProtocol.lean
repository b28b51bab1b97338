import HsaSnoop.Discovery.Dedup
import HsaSnoop.Monitor.Xnack

set_option autoImplicit false

/-! # The bpftrace text protocol

The generated bpftrace scripts print an event as one line of text, and three readers take the lines
apart again. A task name stands unescaped in the middle of each line. What the readers get back
depends on the name only: it must not contain a blank (`DISPATCH`, `XNACK`), or spell one of the
fields behind it (`QUEUE`).

`dispatchLine`, `queueLine` and `xnackLine` are the `printf` formats of the scripts; `readDispatch` and
`readQueue` are what the two line readers take from a line. -/

namespace HsaSnoop

open Fields

/-! ## Task names and events -/

/-- The name of a task, as the kernel keeps it. -/
structure TaskName where
  bytes : Bytes
  nonempty : bytes ≠ []
  short : bytes.length ≤ 15
  noNewline : (10 : UInt8) ∉ bytes
  noNul : (0 : UInt8) ∉ bytes

/-- A dispatch on a queue that has a ring. -/
structure DispatchEvent where
  pid : Int32
  ring : UInt64
  slots : UInt32
  ring_ne : ring ≠ 0
  slots_ne : slots ≠ 0

/-- The creation of a queue that has a ring. -/
structure QueueEvent where
  pid : Int32
  ring : UInt64
  wptr : UInt64
  rptr : UInt64
  size : UInt32
  node : UInt32
  ring_ne : ring ≠ 0
  size_ne : size ≠ 0

structure XnackEvent where
  pid : Int32
  pasid : UInt32

/-! ## Printing -/

/-- `"DISPATCH pid=%d comm=%s ring=0x%lx slots=%u"`. -/
def dispatchLine (comm : Bytes) (e : DispatchEvent) : Bytes :=
  str "DISPATCH pid=" ++ signedDecimal e.pid.toInt ++ str " comm=" ++ comm ++
    str " ring=0x" ++ hexadecimal e.ring.toNat ++ str " slots=" ++ decimal e.slots.toNat

/-- `"QUEUE pid=%d comm=%s ring=0x%lx wptr=0x%lx rptr=0x%lx size=%lu node=%u"`. -/
def queueLine (comm : Bytes) (e : QueueEvent) : Bytes :=
  str "QUEUE pid=" ++ signedDecimal e.pid.toInt ++ str " comm=" ++ comm ++
    str " ring=0x" ++ hexadecimal e.ring.toNat ++ str " wptr=0x" ++ hexadecimal e.wptr.toNat ++
    str " rptr=0x" ++ hexadecimal e.rptr.toNat ++ str " size=" ++ decimal e.size.toNat ++
    str " node=" ++ decimal e.node.toNat

/-- `"XNACK pid=%d comm=%s pasid=%u"`. -/
def xnackLine (comm : Bytes) (e : XnackEvent) : Bytes :=
  str "XNACK pid=" ++ signedDecimal e.pid.toInt ++ str " comm=" ++ comm ++
    str " pasid=" ++ decimal e.pasid.toNat

/-! ## Reading -/

/-- What `RunKfdUprobe` takes from a line. -/
structure DispatchFields where
  pid : Int
  comm : Bytes
  ring : Nat
  slots : Nat
  deriving DecidableEq, Repr

/-- The fields of a line `RunKfdUprobe` does not discard. -/
def readDispatch (line : Bytes) : Option DispatchFields :=
  let ring := getU64 line "ring"
  let slots := u32 (getU64 line "slots")
  if (str "DISPATCH ").isPrefixOf line ∧ ring ≠ 0 ∧ slots ≠ 0 then
    some ⟨toInt32 (getU64 line "pid"), getStr line "comm", ring, slots⟩
  else none

/-- What `RunBpftrace` takes from a line, besides the name. -/
structure QueueFields where
  pid : Int
  ring : Nat
  wptr : Nat
  rptr : Nat
  size : Nat
  node : Nat
  deriving DecidableEq, Repr

/-- The fields of a line `RunBpftrace` does not discard for what it says. -/
def readQueue (line : Bytes) : Option QueueFields :=
  let ring := getU64 line "ring"
  let size := getU64 line "size"
  if (str "QUEUE ").isPrefixOf line ∧ ring ≠ 0 ∧ size ≠ 0 then
    some ⟨toInt32 (getU64 line "pid"), ring, getU64 line "wptr", getU64 line "rptr", size,
      u32 (getU64 line "node")⟩
  else none

/-- The reader's own account of a dispatch is made of these fields. -/
theorem dispatchOf?_eq_readDispatch (host : HostView) (line : Bytes) :
    dispatchOf? host line = (readDispatch line).map (fun f =>
      { pid := f.pid, comm := f.comm, ringBase := UInt64.ofNat f.ring
        ringSize := UInt32.ofNat (f.slots * 64), qtype := 2, createTs := host.now }) := by
  unfold dispatchOf? readDispatch
  generalize getU64 line "ring" = ring
  generalize u32 (getU64 line "slots") = slots
  generalize toInt32 (getU64 line "pid") = pid
  by_cases h : (str "DISPATCH ").isPrefixOf line ∧ ring ≠ 0 ∧ slots ≠ 0
  · simp only [if_pos h, Option.map_some]
  · simp only [if_neg h, Option.map_none]

/-- A queue `RunBpftrace` reports is made of these fields; the process and its name come from the
    host. -/
theorem bpftraceQueue?_fields {host : HostView} {pidFilter : Int} {line : Bytes} {q : QueueInfo}
    (h : bpftraceQueue? host pidFilter line = some q) :
    ∃ f, readQueue line = some f ∧ q.ringBase = UInt64.ofNat f.ring ∧
      q.wptrAddr = UInt64.ofNat f.wptr ∧ q.rptrAddr = UInt64.ofNat f.rptr ∧
      q.ringSize = UInt32.ofNat f.size ∧ q.gpuId = f.node ∧
      q.pid = namespacePid host pidFilter f.pid (getStr line "comm") := by
  unfold bpftraceQueue? at h
  unfold readQueue
  generalize getU64 line "ring" = ring at h ⊢
  generalize getU64 line "size" = size at h ⊢
  generalize toInt32 (getU64 line "pid") = pid at h ⊢
  generalize u32 (getU64 line "node") = node at h ⊢
  split at h
  · cases h
  · next hline =>
      rw [not_or, not_not] at hline
      dsimp only at h
      split at h
      · cases h
      · next hzero =>
          rw [not_or] at hzero
          split at h
          · cases h
          · refine ⟨_, if_pos ⟨hline.2, hzero⟩, ?_⟩
            rw [← Option.some.inj h]
            exact ⟨rfl, rfl, rfl, rfl, rfl, rfl⟩

/-! ## Finding fields -/

/-- `get_u64`, by what follows the key. -/
theorem getU64_eq (line : Bytes) (key : String) :
    getU64 line key =
      match after? (needle 32 61 (str key)) line with
      | none => 0
      | some t => strtoull 0 t := by
  have hneedle : str " " ++ str key ++ str "=" = needle 32 61 (str key) := by
    rw [show str " " = [32] by decide, show str "=" = [61] by decide]
    rfl
  unfold getU64
  rw [hneedle, ← find?_map_drop]
  dsimp only
  cases find? (needle 32 61 (str key)) line with
  | none => rfl
  | some p => rfl

/-- `get_str`, by what follows the key. -/
theorem getStr_eq (line : Bytes) (key : String) :
    getStr line key =
      match after? (needle 32 61 (str key)) line with
      | none => []
      | some t => t.takeWhile (· ≠ 32) := by
  have hneedle : str " " ++ str key ++ str "=" = needle 32 61 (str key) := by
    rw [show str " " = [32] by decide, show str "=" = [61] by decide]
    rfl
  unfold getStr
  rw [hneedle, ← find?_map_drop]
  dsimp only
  cases find? (needle 32 61 (str key)) line with
  | none => rfl
  | some p => rfl

theorem blank_ne_equals : (32 : UInt8) ≠ 61 := by decide

/-- A field's number, where the head does not hide it. -/
theorem getU64_field {head value : Bytes} {key : String} {fields : List (Bytes × Bytes)}
    (hfields : Distinct 32 61 fields) (hmem : (str key, value) ∈ fields)
    (hhead : after? (needle 32 61 (str key)) head = none) :
    ∃ later, getU64 (head ++ fieldsText 32 61 fields) key =
      strtoull 0 (value ++ fieldsText 32 61 later) := by
  obtain ⟨later, hfound⟩ := hfields.after?_head blank_ne_equals hmem head
  rw [hhead] at hfound
  exact ⟨later, by rw [getU64_eq, hfound]⟩

/-- A field's number, whatever the head says: a head that spells the key is read in the field's
    place. -/
theorem number_behind_head {base : Nat} (hbase : base = 0 ∨ base = 10) (head : Bytes) {value : Bytes}
    {key : String} {fields : List (Bytes × Bytes)} (hfields : Distinct 32 61 fields)
    (hfirst : ∃ c s, fieldsText 32 61 fields = 32 :: c :: s ∧ NotNumber c)
    (hmem : (str key, value) ∈ fields) :
    ∃ later, spelled? base (head ++ fieldsText 32 61 fields) key =
      some ((spelled? base head key).getD (strtoull base (value ++ fieldsText 32 61 later))) := by
  obtain ⟨c, s, htext, hc⟩ := hfirst
  obtain ⟨later, hfound⟩ := hfields.after?_head blank_ne_equals hmem head
  refine ⟨later, ?_⟩
  unfold spelled?
  rw [hfound]
  cases after? (needle 32 61 (str key)) head with
  | none => rfl
  | some t =>
      rw [htext]
      simp only [Option.map_some, Option.getD_some]
      rw [← strtoull_append_blanks hbase hc t 0 s]
      rfl

/-- Fields follow a number with a blank, or not at all. -/
theorem follows_fieldsText (fields : List (Bytes × Bytes)) :
    (∀ base, NoDigit base (fieldsText 32 61 fields)) ∧
      (fieldsText 32 61 fields).head? ≠ some 120 ∧ (fieldsText 32 61 fields).head? ≠ some 88 := by
  cases fields with
  | nil => exact ⟨noDigit_nil, by simp [fieldsText], by simp [fieldsText]⟩
  | cons f fields =>
      exact ⟨fun base => noDigit_cons (by decide), by simp [fieldsText], by simp [fieldsText]⟩

theorem strtoull_decimal_field {n : Nat} (hn : n < 2 ^ 64) (later : List (Bytes × Bytes)) :
    strtoull 0 (decimal n ++ fieldsText 32 61 later) = n := by
  obtain ⟨hdigit, hx⟩ := follows_fieldsText later
  exact strtoull_decimal (.inl rfl) hn (hdigit 10) hx

theorem strtoull_hexadecimal_field {n : Nat} (hn : n < 2 ^ 64) (later : List (Bytes × Bytes)) :
    strtoull 0 (48 :: 120 :: hexadecimal n ++ fieldsText 32 61 later) = n :=
  strtoull_hexadecimal hn ((follows_fieldsText later).1 16)

theorem toInt32_pid_field (pid : Int32) (later : List (Bytes × Bytes)) :
    toInt32 (strtoull 0 (signedDecimal pid.toInt ++ fieldsText 32 61 later)) = pid.toInt := by
  obtain ⟨hdigit, hx⟩ := follows_fieldsText later
  exact toInt32_strtoull_signedDecimal pid.le_toInt pid.toInt_lt (hdigit 10) hx

/-! ## Blanks in numerals -/

theorem blank_not_digit : ∀ d < 16, (32 : UInt8) ≠ digitByte d := by decide

theorem blank_notMem_decimal (n : Nat) : (32 : UInt8) ∉ decimal n := notMem_decimal blank_not_digit n

theorem blank_notMem_signedDecimal (n : Int) : (32 : UInt8) ∉ signedDecimal n :=
  notMem_signedDecimal blank_not_digit (by decide) n

/-! ## DISPATCH -/

def dispatchText (comm : Bytes) (e : DispatchEvent) : List (Bytes × Bytes) :=
  [(str "pid", signedDecimal e.pid.toInt), (str "comm", comm),
    (str "ring", 48 :: 120 :: hexadecimal e.ring.toNat), (str "slots", decimal e.slots.toNat)]

theorem dispatchLine_eq (comm : Bytes) (e : DispatchEvent) :
    dispatchLine comm e = str "DISPATCH" ++ fieldsText 32 61 (dispatchText comm e) := by
  simp [dispatchLine, dispatchText, fieldsText, str]

theorem blank_notMem_address (n : Nat) : (32 : UInt8) ∉ 48 :: 120 :: hexadecimal n := by
  simp only [List.mem_cons, not_or]
  exact ⟨by decide, by decide, notMem_hexadecimal blank_not_digit n⟩

/-- A name without blanks leaves the fields what they are. -/
theorem dispatchText_distinct {comm : Bytes} (h : 32 ∉ comm) (e : DispatchEvent) :
    Distinct 32 61 (dispatchText comm e) := by
  refine .of_keys [str "pid", str "comm", str "ring", str "slots"] rfl (by decide) (by decide) ?_
  simp only [dispatchText, List.forall_mem_cons]
  exact ⟨blank_notMem_signedDecimal _, h, blank_notMem_address _, blank_notMem_decimal _,
    List.forall_mem_nil _⟩

theorem takeWhile_blank {comm : Bytes} {fields : List (Bytes × Bytes)} (hf : fields ≠ []) :
    (comm ++ fieldsText 32 61 fields).takeWhile (· ≠ 32) = comm ↔ 32 ∉ comm := by
  constructor
  · intro h hmem
    rw [← h] at hmem
    exact absurd (List.mem_takeWhile_imp hmem) (by simp)
  · intro h
    have hall : ∀ c ∈ comm, decide (c ≠ 32) = true := by
      intro c hc
      exact decide_eq_true (fun heq => h (heq ▸ hc))
    cases fields with
    | nil => exact absurd rfl hf
    | cons f fields =>
        rw [List.takeWhile_append_of_pos hall, fieldsText, List.takeWhile_cons_of_neg (by simp),
          List.append_nil]

/-- The name, up to its first blank. -/
theorem getStr_dispatchLine (comm : Bytes) (e : DispatchEvent) :
    getStr (dispatchLine comm e) "comm" = comm ↔ 32 ∉ comm := by
  have hfields := @after?_head_fieldsText _ _ 32 61 blank_ne_equals (str "DISPATCH")
    [(str "pid", signedDecimal e.pid.toInt)]
    [(str "ring", 48 :: 120 :: hexadecimal e.ring.toNat), (str "slots", decimal e.slots.toNat)]
    (str "comm") comm
    (List.forall_mem_singleton.2 ⟨⟨show 32 ∉ str "pid" by decide, show 61 ∉ str "pid" by decide,
      blank_notMem_signedDecimal _⟩, show str "pid" ≠ str "comm" by decide⟩) (by decide) (by decide)
  rw [needle, after?_of_notMem (show 32 ∉ str "DISPATCH" by decide)] at hfields
  rw [getStr_eq, dispatchLine_eq, needle]
  rw [show dispatchText comm e = [(str "pid", signedDecimal e.pid.toInt)] ++ (str "comm", comm) ::
    [(str "ring", 48 :: 120 :: hexadecimal e.ring.toNat), (str "slots", decimal e.slots.toNat)]
    from rfl, hfields]
  exact takeWhile_blank (by simp)

/-- The numbers, when the name has no blank. -/
theorem getU64_dispatchLine {comm : Bytes} (h : 32 ∉ comm) (e : DispatchEvent) :
    toInt32 (getU64 (dispatchLine comm e) "pid") = e.pid.toInt ∧
      getU64 (dispatchLine comm e) "ring" = e.ring.toNat ∧
      getU64 (dispatchLine comm e) "slots" = e.slots.toNat := by
  have hhead : ∀ key, after? (needle 32 61 key) (str "DISPATCH") = none :=
    fun key => after?_of_notMem (by decide) _
  have hslotsLt : e.slots.toNat < 2 ^ 64 := Nat.lt_trans e.slots.toNat_lt (by decide)
  have hfields := dispatchText_distinct h e
  have hring : (str "ring", 48 :: 120 :: hexadecimal e.ring.toNat) ∈ dispatchText comm e := by
    simp [dispatchText]
  have hslots : (str "slots", decimal e.slots.toNat) ∈ dispatchText comm e := by
    simp [dispatchText]
  rw [dispatchLine_eq]
  refine ⟨?_, ?_, ?_⟩
  · obtain ⟨later, hget⟩ := getU64_field hfields (List.mem_cons_self ..) (hhead (str "pid"))
    rw [hget]
    exact toInt32_pid_field e.pid later
  · obtain ⟨later, hget⟩ := getU64_field hfields hring (hhead (str "ring"))
    rw [hget]
    exact strtoull_hexadecimal_field e.ring.toNat_lt later
  · obtain ⟨later, hget⟩ := getU64_field hfields hslots (hhead (str "slots"))
    rw [hget]
    exact strtoull_decimal_field hslotsLt later

/-- **DISPATCH**: the fields come back exactly when the name has no blank. -/
theorem readDispatch_dispatchLine (comm : Bytes) (e : DispatchEvent) :
    readDispatch (dispatchLine comm e) =
        some ⟨e.pid.toInt, comm, e.ring.toNat, e.slots.toNat⟩ ↔ 32 ∉ comm := by
  rw [← getStr_dispatchLine comm e]
  constructor
  · intro h
    unfold readDispatch at h
    dsimp only at h
    split at h
    · exact congrArg DispatchFields.comm (Option.some.inj h)
    · cases h
  · intro hcomm
    obtain ⟨hpid, hring, hslots⟩ := getU64_dispatchLine ((getStr_dispatchLine comm e).1 hcomm) e
    have hline : (str "DISPATCH ").isPrefixOf (dispatchLine comm e) := by
      rw [List.isPrefixOf_iff_prefix]
      unfold dispatchLine
      rw [show str "DISPATCH pid=" = str "DISPATCH " ++ str "pid=" by decide]
      simp only [List.append_assoc]
      exact List.prefix_append ..
    have hslots' : u32 (getU64 (dispatchLine comm e) "slots") = e.slots.toNat := by
      rw [hslots]
      exact Nat.mod_eq_of_lt e.slots.toNat_lt
    have hne : e.ring.toNat ≠ 0 := fun hz => e.ring_ne (UInt64.toNat_inj.1 hz)
    have hne' : e.slots.toNat ≠ 0 := fun hz => e.slots_ne (UInt32.toNat_inj.1 hz)
    unfold readDispatch
    simp only [hring, hslots', hcomm, hpid]
    exact if_pos ⟨hline, hne, hne'⟩

/-! ## QUEUE -/

def queueNumbers (e : QueueEvent) : List (Bytes × Bytes) :=
  [(str "ring", 48 :: 120 :: hexadecimal e.ring.toNat),
    (str "wptr", 48 :: 120 :: hexadecimal e.wptr.toNat),
    (str "rptr", 48 :: 120 :: hexadecimal e.rptr.toNat), (str "size", decimal e.size.toNat),
    (str "node", decimal e.node.toNat)]

/-- What stands in front of the numbers. -/
def queueHead (comm : Bytes) (pid : Int) : Bytes :=
  str "QUEUE" ++ 32 :: (str "pid" ++ 61 :: (signedDecimal pid ++ 32 :: (str "comm" ++ 61 :: comm)))

theorem queueLine_eq (comm : Bytes) (e : QueueEvent) :
    queueLine comm e = queueHead comm e.pid.toInt ++ fieldsText 32 61 (queueNumbers e) := by
  simp [queueLine, queueHead, queueNumbers, fieldsText, str]

/-- The head spells a number's key exactly where the name does. -/
theorem spelled?_queueHead (comm : Bytes) (pid : Int) {key : String} (hkey : 61 ∉ str key)
    (hpid : str "pid" ≠ str key) (hcomm : str "comm" ≠ str key) :
    spelled? 0 (queueHead comm pid) key = spelled? 0 comm key := by
  unfold spelled? queueHead
  rw [needle, after?_append_of_notMem (by decide), ← needle,
    after?_skip_key blank_ne_equals hkey (by decide) (by decide) hpid, needle,
    after?_append_of_notMem (blank_notMem_signedDecimal pid), ← needle,
    after?_skip_key blank_ne_equals hkey (by decide) (by decide) hcomm]

theorem getU64_eq_spelled? (line : Bytes) (key : String) :
    getU64 line key = (spelled? 0 line key).getD 0 := by
  rw [getU64_eq, spelled?]
  cases after? (needle 32 61 (str key)) line with
  | none => rfl
  | some t => rfl

def queueKeys : List Bytes := [str "ring", str "wptr", str "rptr", str "size", str "node"]

theorem queueKeys_plain :
    ∀ k ∈ queueKeys, 32 ∉ k ∧ 61 ∉ k ∧ str "pid" ≠ k ∧ str "comm" ≠ k := by decide

theorem queueNumbers_distinct (e : QueueEvent) : Distinct 32 61 (queueNumbers e) := by
  refine .of_keys queueKeys rfl ?_ (by decide) ?_
  · intro k hk
    obtain ⟨hsep, heq, -⟩ := queueKeys_plain k hk
    exact ⟨hsep, heq⟩
  · simp only [queueNumbers, List.forall_mem_cons]
    exact ⟨blank_notMem_address _, blank_notMem_address _, blank_notMem_address _,
      blank_notMem_decimal _, blank_notMem_decimal _, List.forall_mem_nil _⟩

theorem queueNumbers_first (e : QueueEvent) :
    ∃ c s, fieldsText 32 61 (queueNumbers e) = 32 :: c :: s ∧ NotNumber c := by
  refine ⟨114, _, rfl, by decide, by decide, by decide, by decide, ?_⟩
  intro v hv
  rw [← Option.some.inj (show some 27 = some v from hv)]
  decide

/-- A number of the line: the name's, if it spells the key. -/
theorem getU64_queueLine {comm : Bytes} {e : QueueEvent} {key : String} {value : Bytes} {n : Nat}
    (hmem : (str key, value) ∈ queueNumbers e)
    (hvalue : ∀ later, strtoull 0 (value ++ fieldsText 32 61 later) = n) :
    getU64 (queueLine comm e) key = (spelled? 0 comm key).getD n := by
  have hkey : str key ∈ (queueNumbers e).map Prod.fst := List.mem_map_of_mem hmem
  obtain ⟨-, heq, hpid, hcomm⟩ := queueKeys_plain (str key) hkey
  obtain ⟨later, hfound⟩ := number_behind_head (.inl rfl) (queueHead comm e.pid.toInt)
    (queueNumbers_distinct e) (queueNumbers_first e) hmem
  rw [getU64_eq_spelled?, queueLine_eq, hfound, Option.getD_some,
    spelled?_queueHead comm _ heq hpid hcomm, hvalue later]

/-- The numbers of the line. -/
theorem numbers_queueLine (comm : Bytes) (e : QueueEvent) :
    getU64 (queueLine comm e) "ring" = (spelled? 0 comm "ring").getD e.ring.toNat ∧
      getU64 (queueLine comm e) "wptr" = (spelled? 0 comm "wptr").getD e.wptr.toNat ∧
      getU64 (queueLine comm e) "rptr" = (spelled? 0 comm "rptr").getD e.rptr.toNat ∧
      getU64 (queueLine comm e) "size" = (spelled? 0 comm "size").getD e.size.toNat ∧
      getU64 (queueLine comm e) "node" = (spelled? 0 comm "node").getD e.node.toNat := by
  have hlt : ∀ n : UInt32, n.toNat < 2 ^ 64 := fun n => Nat.lt_trans n.toNat_lt (by decide)
  refine ⟨?_, ?_, ?_, ?_, ?_⟩
  · exact getU64_queueLine (by simp [queueNumbers]) (strtoull_hexadecimal_field e.ring.toNat_lt)
  · exact getU64_queueLine (by simp [queueNumbers]) (strtoull_hexadecimal_field e.wptr.toNat_lt)
  · exact getU64_queueLine (by simp [queueNumbers]) (strtoull_hexadecimal_field e.rptr.toNat_lt)
  · exact getU64_queueLine (by simp [queueNumbers]) (strtoull_decimal_field (hlt e.size))
  · exact getU64_queueLine (by simp [queueNumbers]) (strtoull_decimal_field (hlt e.node))

theorem pid_queueLine (comm : Bytes) (e : QueueEvent) :
    toInt32 (getU64 (queueLine comm e) "pid") = e.pid.toInt := by
  have hfound : after? (needle 32 61 (str "pid")) (queueLine comm e) =
      some (signedDecimal e.pid.toInt ++
        32 :: (str "comm" ++ 61 :: (comm ++ fieldsText 32 61 (queueNumbers e)))) := by
    have hself := after?_append_self (needle 32 61 (str "pid")) (signedDecimal e.pid.toInt ++
      32 :: (str "comm" ++ 61 :: (comm ++ fieldsText 32 61 (queueNumbers e))))
    have hhead := @after?_append_of_notMem _ _ 32 (str "QUEUE") (by decide) (str "pid" ++ [61])
    rw [queueLine_eq, queueHead, List.append_assoc, needle, hhead, ← needle, ← hself]
    simp [needle]
  rw [getU64_eq, hfound]
  exact toInt32_strtoull_signedDecimal e.pid.le_toInt e.pid.toInt_lt (noDigit_cons (by decide))
    (by simp)

/-- What a name may spell: no number's key, or the number itself behind it. -/
structure Harmless (comm : Bytes) (e : QueueEvent) : Prop where
  ring : ∀ n ∈ spelled? 0 comm "ring", n = e.ring.toNat
  wptr : ∀ n ∈ spelled? 0 comm "wptr", n = e.wptr.toNat
  rptr : ∀ n ∈ spelled? 0 comm "rptr", n = e.rptr.toNat
  size : ∀ n ∈ spelled? 0 comm "size", n = e.size.toNat
  node : ∀ n ∈ spelled? 0 comm "node", u32 n = e.node.toNat

theorem getD_eq_iff {o : Option Nat} {n : Nat} : o.getD n = n ↔ ∀ m ∈ o, m = n := by
  cases o with
  | none => simp
  | some m => simp

theorem u32_getD_eq_iff {o : Option Nat} {n : Nat} (hn : n < 2 ^ 32) :
    u32 (o.getD n) = n ↔ ∀ m ∈ o, u32 m = n := by
  cases o with
  | none => simpa [u32] using Nat.mod_eq_of_lt hn
  | some m => simp

/-- **QUEUE**: the fields come back exactly when the name spells none of them, or spells it right. -/
theorem readQueue_queueLine (comm : Bytes) (e : QueueEvent) :
    readQueue (queueLine comm e) =
        some ⟨e.pid.toInt, e.ring.toNat, e.wptr.toNat, e.rptr.toNat, e.size.toNat, e.node.toNat⟩ ↔
      Harmless comm e := by
  obtain ⟨hring, hwptr, hrptr, hsize, hnode⟩ := numbers_queueLine comm e
  have hpid := pid_queueLine comm e
  constructor
  · intro h
    unfold readQueue at h
    dsimp only at h
    split at h
    · have hfields := Option.some.inj h
      rw [QueueFields.mk.injEq, hring, hwptr, hrptr, hsize, hnode] at hfields
      obtain ⟨-, hring', hwptr', hrptr', hsize', hnode'⟩ := hfields
      exact ⟨getD_eq_iff.1 hring', getD_eq_iff.1 hwptr', getD_eq_iff.1 hrptr', getD_eq_iff.1 hsize',
        (u32_getD_eq_iff e.node.toNat_lt).1 hnode'⟩
    · cases h
  · intro h
    have hline : (str "QUEUE ").isPrefixOf (queueLine comm e) := by
      rw [List.isPrefixOf_iff_prefix]
      unfold queueLine
      rw [show str "QUEUE pid=" = str "QUEUE " ++ str "pid=" by decide]
      simp only [List.append_assoc]
      exact List.prefix_append ..
    have hne : e.ring.toNat ≠ 0 := fun hz => e.ring_ne (UInt64.toNat_inj.1 hz)
    have hne' : e.size.toNat ≠ 0 := fun hz => e.size_ne (UInt32.toNat_inj.1 hz)
    rw [getD_eq_iff.2 h.ring] at hring
    rw [getD_eq_iff.2 h.wptr] at hwptr
    rw [getD_eq_iff.2 h.rptr] at hrptr
    rw [getD_eq_iff.2 h.size] at hsize
    have hnode' := (u32_getD_eq_iff e.node.toNat_lt).2 h.node
    rw [← hnode] at hnode'
    unfold readQueue
    simp only [hring, hwptr, hrptr, hsize, hnode', hpid]
    exact if_pos ⟨hline, hne, hne'⟩

/-! ## XNACK -/

/-- The line, as the format has it. -/
theorem xnackLine_eq (comm : Bytes) (e : XnackEvent) :
    xnackLine comm e ++ [10] =
      str "XNACK" ++ 32 :: (str "pid=" ++ (signedDecimal e.pid.toInt ++ 32 :: (str "comm=" ++
        (comm ++ 32 :: (str "pasid=" ++ (decimal e.pasid.toNat ++ [10])))))) := by
  simp [xnackLine, str]

/-- Scanning a line, when the name has no blank. -/
theorem sscanf_xnackLine {comm : TaskName} (h : ∀ c ∈ comm.bytes, isSpace c = false)
    (e : XnackEvent) :
    sscanf xnackFormat (xnackLine comm.bytes e ++ [10]) =
      [.int e.pid.toInt, .word comm.bytes, .uint e.pasid.toNat] := by
  have hshort : comm.bytes.length ≤ 255 := Nat.le_trans comm.short (by decide)
  rw [xnackLine_eq, xnackFormat]
  simp only [List.append_assoc, List.cons_append]
  rw [sscanf_literals, sscanf_blank (by rfl), sscanf_literals,
    sscanf_int e.pid.le_toInt e.pid.toInt_lt (noDigit_cons (by decide)) (by rfl),
    sscanf_blank (by rfl), sscanf_literals, sscanf_word comm.nonempty h hshort,
    sscanf_blank (by rfl), sscanf_literals,
    sscanf_uint e.pasid.toNat_lt (noDigit_cons (by decide)) (by rfl) (by simp)]
  rfl

theorem length_decimal {n k : Nat} (hk : 0 < k) (h : n < 10 ^ k) : (decimal n).length ≤ k := by
  rw [decimal_eq, digitBytes, str, List.length_map, String.toList_ofList]
  exact (Nat.length_toDigits_le_iff (by decide) hk).2 h

/-- A line fits the reader's buffer and has neither a newline nor a NUL inside. -/
theorem xnackLine_fits (comm : TaskName) (e : XnackEvent) :
    (xnackLine comm.bytes e).length < kXnackLine ∧ (10 : UInt8) ∉ xnackLine comm.bytes e ∧
      (0 : UInt8) ∉ xnackLine comm.bytes e := by
  have hpidLe := e.pid.le_toInt
  have hpidLt := e.pid.toInt_lt
  have hpid : (decimal e.pid.toInt.natAbs).length ≤ 10 := length_decimal (by decide) (by omega)
  have hpasid : (decimal e.pasid.toNat).length ≤ 10 :=
    length_decimal (by decide) (Nat.lt_trans e.pasid.toNat_lt (by decide))
  have hsigned : (signedDecimal e.pid.toInt).length ≤ 11 := by
    unfold signedDecimal
    split
    · exact Nat.succ_le_succ hpid
    · exact Nat.le_succ_of_le hpid
  have hdigit : ∀ d < 16, (10 : UInt8) ≠ digitByte d ∧ (0 : UInt8) ≠ digitByte d := by decide
  have h10 := fun d hd => (hdigit d hd).1
  have h0 := fun d hd => (hdigit d hd).2
  have hnames := comm.short
  unfold xnackLine
  refine ⟨?_, ?_, ?_⟩
  · simp only [List.length_append, show (str "XNACK pid=").length = 10 by decide,
      show (str " comm=").length = 6 by decide, show (str " pasid=").length = 7 by decide]
    unfold kXnackLine
    omega
  · simp only [List.mem_append, not_or]
    exact ⟨⟨⟨⟨⟨by decide, notMem_signedDecimal h10 (by decide) _⟩, by decide⟩, comm.noNewline⟩,
      by decide⟩, notMem_decimal h10 _⟩
  · simp only [List.mem_append, not_or]
    exact ⟨⟨⟨⟨⟨by decide, notMem_signedDecimal h0 (by decide) _⟩, by decide⟩, comm.noNul⟩,
      by decide⟩, notMem_decimal h0 _⟩

/-- What bpftrace prints for one fault, its ready line included. -/
def xnackStream (comm : Bytes) (e : XnackEvent) : Bytes :=
  str "XNACK_MONITOR_READY" ++ 10 :: (xnackLine comm e ++ 10 :: [])

theorem xnackReadLoop_xnackStream (now : Nat → Time) (comm : TaskName) (e : XnackEvent) :
    xnackReadLoop now (xnackStream comm.bytes e) =
      handleXnackLine now { ready := true, lineNo := 1 } (xnackLine comm.bytes e ++ [10]) := by
  obtain ⟨hlen, hnewline, -⟩ := xnackLine_fits comm e
  have hready : contains (cStr (str "XNACK_MONITOR_READY" ++ [10])) (str "XNACK_MONITOR_READY") =
      true := by decide
  have hfirst : handleXnackLine now {} (str "XNACK_MONITOR_READY" ++ [10]) =
      { ready := true, lineNo := 1 } := by
    simp [handleXnackLine, hready]
  unfold xnackReadLoop xnackStream
  rw [fgetsLines_cons (by decide) (by decide), fgetsLines_cons hnewline hlen, fgetsLines,
    List.foldl_cons, List.foldl_cons, List.foldl_nil, hfirst]

/-- **XNACK**: the fault is reported as it was exactly when the name has no blank. -/
theorem xnackReadLoop_reported (now : Nat → Time) (comm : TaskName) (e : XnackEvent) :
    (xnackReadLoop now (xnackStream comm.bytes e)).reported =
        [⟨1, e.pid.toInt, comm.bytes, e.pasid.toNat, now 1⟩] ↔
      ∀ c ∈ comm.bytes, isSpace c = false := by
  obtain ⟨-, -, hnul⟩ := xnackLine_fits comm e
  have hcStr : cStr (xnackLine comm.bytes e ++ [10]) = xnackLine comm.bytes e ++ [10] := by
    refine List.takeWhile_eq_self_iff.2 ?_
    intro c hc
    rcases List.mem_append.1 hc with hc | hc
    · exact decide_eq_true (fun heq => hnul (heq ▸ hc))
    · rw [List.mem_singleton.1 hc]
      decide
  have hline : (str "XNACK ").isPrefixOf (xnackLine comm.bytes e ++ [10]) := by
    rw [List.isPrefixOf_iff_prefix, xnackLine_eq]
    exact List.prefix_append (str "XNACK ") _
  rw [xnackReadLoop_xnackStream]
  unfold handleXnackLine
  simp only [hcStr, hline, Bool.not_true, Bool.false_eq_true, if_false, not_true_eq_false]
  constructor
  · intro h
    split at h
    · next pid name pasid hscan =>
        have hname := congrArg XnackRecord.comm (List.singleton_inj.1 h)
        rw [← show name = comm.bytes from hname]
        exact noSpace_of_xnackScan hscan
    · cases h
  · intro h
    rw [sscanf_xnackLine h e]
    rfl

/-! ## The three line kinds together -/

/-- **Round trip**: printing an event and reading the line gives back its fields exactly when the
    task's name has no blank (`DISPATCH`), spells no wrong number (`QUEUE`) and has no white space
    (`XNACK`). -/
theorem textProtocol_round_trip_iff (comm : TaskName) (d : DispatchEvent) (q : QueueEvent)
    (x : XnackEvent) (now : Nat → Time) :
    (readDispatch (dispatchLine comm.bytes d) =
        some ⟨d.pid.toInt, comm.bytes, d.ring.toNat, d.slots.toNat⟩ ↔ 32 ∉ comm.bytes) ∧
      (readQueue (queueLine comm.bytes q) =
          some ⟨q.pid.toInt, q.ring.toNat, q.wptr.toNat, q.rptr.toNat, q.size.toNat, q.node.toNat⟩ ↔
        Harmless comm.bytes q) ∧
      ((xnackReadLoop now (xnackStream comm.bytes x)).reported =
          [⟨1, x.pid.toInt, comm.bytes, x.pasid.toNat, now 1⟩] ↔
        ∀ c ∈ comm.bytes, isSpace c = false) :=
  ⟨readDispatch_dispatchLine comm.bytes d, readQueue_queueLine comm.bytes q,
    xnackReadLoop_reported now comm x⟩

/-- A name with a blank in it, like that of a browser's web helper. -/
def blankName : TaskName where
  bytes := str "Web Content"
  nonempty := by decide
  short := by decide
  noNewline := by decide
  noNul := by decide

/-- A name that spells a field of the line. -/
def spellingName : TaskName where
  bytes := str "x ring=0"
  nonempty := by decide
  short := by decide
  noNewline := by decide
  noNul := by decide

/-- Half of the name `Web Content` is lost, its page faults are discarded, and the queues of a task
    called `x ring=0` are too. -/
theorem names_break_round_trip :
    readDispatch (dispatchLine blankName.bytes ⟨7, 4096, 64, by decide, by decide⟩) =
        some ⟨7, str "Web", 4096, 64⟩ ∧
      (xnackReadLoop (fun _ => 0) (xnackStream blankName.bytes ⟨7, 32769⟩)).reported = [] ∧
      readQueue (queueLine spellingName.bytes ⟨7, 4096, 8192, 8200, 4096, 1, by decide, by decide⟩) =
        none := by
  decide +kernel

end HsaSnoop
