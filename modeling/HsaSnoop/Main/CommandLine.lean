import HsaSnoop.Discovery.Start
import HsaSnoop.Main.TraceFiles

set_option autoImplicit false

/-! # The command line

`main` reads its arguments from left to right: options with a value, which take the next argument whatever it
is, flags, and `--`, which ends the options. Then it settles what was left open, and refuses what it cannot do.

`frontEnd_ok_iff` says which command lines are accepted, and as what: exactly those that are options and
perhaps a command, with one target to trace; and the order of options is of no account. -/

namespace HsaSnoop

/-! ## Options -/

/-- What the arguments set. -/
structure Options where
  pidFilter : Int := 0
  pollUs : Int := 20
  duration : Int := 0
  allMode : Bool := false
  prometheusMode : Bool := false
  aisMode : Bool := false
  xnackMode : Bool := false
  memMode : Bool := false
  prometheusPort : Nat := 9488
  prometheusSnapshotPath : Bytes := []
  out : Bytes := []
  outDir : Bytes := []
  tracefs : Bytes := str "/sys/kernel/tracing"
  modeStr : Bytes := []
  librocdxgPath : Bytes := []
  libhsaPath : Bytes := []
  dispatchLogPath : Bytes := []
  fmt : Format := .perfetto
  childCmd : List Bytes := []
  deriving DecidableEq, Repr

inductive ValueOption
  | pid
  | out
  | outDir
  | pollUs
  | duration
  | tracefs
  | mode
  | librocdxg
  | libhsa
  | logDispatches
  | prometheusPort
  | prometheusSnapshot
  | format
  deriving DecidableEq, Repr

inductive Flag
  | all
  | prometheus
  | aisSnoop
  | xnackSnoop
  | memSnoop
  deriving DecidableEq, Repr

namespace ValueOption

def name : ValueOption → Bytes
  | .pid => str "--pid"
  | .out => str "--out"
  | .outDir => str "--out-dir"
  | .pollUs => str "--poll-us"
  | .duration => str "--duration"
  | .tracefs => str "--tracefs"
  | .mode => str "--mode"
  | .librocdxg => str "--librocdxg"
  | .libhsa => str "--libhsa"
  | .logDispatches => str "--log-dispatches"
  | .prometheusPort => str "--prometheus-port"
  | .prometheusSnapshot => str "--prometheus-snapshot"
  | .format => str "--format"

def set (o : Options) (value : Bytes) : ValueOption → Options
  | .pid => { o with pidFilter := atoi value }
  | .out => { o with out := value }
  | .outDir => { o with outDir := value }
  | .pollUs => { o with pollUs := atoi value }
  | .duration => { o with duration := atoi value }
  | .tracefs => { o with tracefs := value }
  | .mode => { o with modeStr := value }
  | .librocdxg => { o with librocdxgPath := value }
  | .libhsa => { o with libhsaPath := value }
  | .logDispatches => { o with dispatchLogPath := value }
  | .prometheusPort => { o with prometheusPort := (atoi value % 65536).toNat }
  | .prometheusSnapshot => { o with prometheusSnapshotPath := value }
  | .format => { o with fmt := if value = str "json" then .json else .perfetto }

/-- Two are there only in a build with Prometheus. -/
def known (prometheusEnabled : Bool) : List ValueOption :=
  [.pid, .out, .outDir, .pollUs, .duration, .tracefs, .mode, .librocdxg, .libhsa, .logDispatches] ++
    (if prometheusEnabled then [.prometheusPort, .prometheusSnapshot] else []) ++ [.format]

/-- The option of a name. -/
def find? (prometheusEnabled : Bool) (a : Bytes) : Option ValueOption :=
  (known prometheusEnabled).find? (fun v => v.name = a)

end ValueOption

namespace Flag

def name : Flag → Bytes
  | .all => str "--all"
  | .prometheus => str "--prometheus"
  | .aisSnoop => str "--ais-snoop"
  | .xnackSnoop => str "--xnack-snoop"
  | .memSnoop => str "--mem-snoop"

def set (o : Options) : Flag → Options
  | .all => { o with allMode := true }
  | .prometheus => { o with prometheusMode := true }
  | .aisSnoop => { o with aisMode := true }
  | .xnackSnoop => { o with xnackMode := true }
  | .memSnoop => { o with memMode := true }

def find? (a : Bytes) : Option Flag :=
  [all, prometheus, aisSnoop, xnackSnoop, memSnoop].find? (fun f => f.name = a)

end Flag

/-! ## Parsing -/

inductive Parsed
  | options (o : Options)
  | help
  | unknown (a : Bytes)
  deriving DecidableEq, Repr

/-- An argument that is no option with a value, before `rest`; `go` is what is done with `rest` behind a
    flag. -/
def parseOther (o : Options) (a : Bytes) (rest : List Bytes) (go : Options → Parsed) : Parsed :=
  match Flag.find? a with
  | some f => go (f.set o)
  | none =>
      if a = str "--" then .options { o with childCmd := rest }
      else if a = str "-h" ∨ a = str "--help" then .help
      else .unknown a

/-- The loop over the arguments. An option without its value is not known. -/
def parseArgs (prometheusEnabled : Bool) (o : Options) : List Bytes → Parsed
  | [] => .options o
  | [a] => parseOther o a [] .options
  | a :: value :: rest =>
      match ValueOption.find? prometheusEnabled a with
      | some v => parseArgs prometheusEnabled (v.set o value) rest
      | none => parseOther o a (value :: rest) (fun o => parseArgs prometheusEnabled o (value :: rest))

/-! ## Setting up -/

/-- What `main` finds. -/
structure Host where
  isWsl2 : Bool
  /-- `FindLibhsa()`, empty if there is none. -/
  libhsa : Bytes
  librocdxg : Bytes
  euid : Nat

/-- What `main` goes on with. -/
structure Setup where
  discMode : DiscoveryMode
  options : Options
  deriving DecidableEq, Repr

def discMode? (host : Host) (modeStr : Bytes) : Option DiscoveryMode :=
  if modeStr = str "kfd-uprobe" then some .kfdUprobe
  else if modeStr = str "bpftrace" then some .bpftrace
  else if modeStr = [] ∧ host.isWsl2 then some .bpftrace
  else if modeStr ≠ [] ∧ modeStr ≠ str "kprobe" then none
  else some .kprobe

/-- The library that a mode probes, found if it was not given. -/
def Options.locate (o : Options) (host : Host) (discMode : DiscoveryMode) : Options :=
  match discMode with
  | .kprobe => o
  | .bpftrace => { o with librocdxgPath := if o.librocdxgPath = [] then host.librocdxg else o.librocdxgPath }
  | .kfdUprobe => { o with libhsaPath := if o.libhsaPath = [] then host.libhsa else o.libhsaPath }

/-- The path the mode cannot do without. -/
def Options.libraryMissing (o : Options) : DiscoveryMode → Bool
  | .kprobe => false
  | .bpftrace => o.librocdxgPath = []
  | .kfdUprobe => o.libhsaPath = []

/-- Where traces go if nothing else was said. -/
def Options.defaults (o : Options) : Options :=
  if o.allMode ∧ ¬ o.prometheusMode then
    { o with outDir := if o.outDir = [] then str "/var/log/hsa-snoop" else o.outDir }
  else if ¬ o.prometheusMode ∧ o.out = [] then
    { o with out := if o.fmt = .json then str "hsa-snoop.json" else str "hsa-snoop.pftrace" }
  else o

/-- From the options to the setup, or to the exit code. -/
def setUp (prometheusEnabled : Bool) (host : Host) (o : Options) : Except Nat Setup :=
  match discMode? host o.modeStr with
  | none => .error 2
  | some discMode =>
      let o := o.locate host discMode
      if o.libraryMissing discMode then .error 1
      else if ¬ prometheusEnabled ∧ o.prometheusMode then .error 2
      else if host.euid ≠ 0 then .error 1
      else if ¬ o.allMode ∧ o.pidFilter = 0 ∧ o.childCmd = [] then .error 2
      else if o.allMode ∧ (o.pidFilter ≠ 0 ∨ o.childCmd ≠ []) then .error 2
      else if o.pidFilter ≠ 0 ∧ o.childCmd ≠ [] then .error 2
      else .ok ⟨discMode, o.defaults⟩

/-- The beginning of `main`. -/
def frontEnd (prometheusEnabled : Bool) (host : Host) (args : List Bytes) : Except Nat Setup :=
  match parseArgs prometheusEnabled {} args with
  | .options o => setUp prometheusEnabled host o
  | .help => .error 0
  | .unknown _ => .error 2

/-! ## Command lines -/

/-- One option, as it is meant. -/
inductive Arg
  | value (v : ValueOption) (text : Bytes)
  | flag (f : Flag)
  deriving DecidableEq

def Arg.words : Arg → List Bytes
  | .value v text => [v.name, text]
  | .flag f => [f.name]

def Arg.apply (o : Options) : Arg → Options
  | .value v text => v.set o text
  | .flag f => f.set o

/-- The option is there in this build. -/
def Arg.Known (prometheusEnabled : Bool) : Arg → Prop
  | .value v _ => v ∈ ValueOption.known prometheusEnabled
  | .flag _ => True

/-- Options, and perhaps a command. -/
structure CommandLine where
  args : List Arg
  command : Option (List Bytes)

def CommandLine.words (l : CommandLine) : List Bytes :=
  l.args.flatMap Arg.words ++ l.command.elim [] (str "--" :: ·)

/-- What it asks for. -/
def CommandLine.options (l : CommandLine) (o : Options) : Options :=
  l.command.elim (l.args.foldl Arg.apply o) (fun c => { l.args.foldl Arg.apply o with childCmd := c })

/-! ## Names -/

theorem ValueOption.find?_eq_some {prometheusEnabled : Bool} {a : Bytes} {v : ValueOption}
    (h : find? prometheusEnabled a = some v) : v ∈ known prometheusEnabled ∧ v.name = a := by
  rw [find?] at h
  have hname := List.find?_some h
  exact ⟨List.mem_of_find?_eq_some h, of_decide_eq_true hname⟩

theorem Flag.find?_eq_some {a : Bytes} {f : Flag} (h : find? a = some f) : f.name = a := by
  rw [find?] at h
  have hname := List.find?_some h
  exact of_decide_eq_true hname

/-- Every option is found under its name. -/
theorem ValueOption.find?_name {prometheusEnabled : Bool} {v : ValueOption}
    (h : v ∈ known prometheusEnabled) : find? prometheusEnabled v.name = some v := by
  revert h
  cases prometheusEnabled <;> cases v <;> decide

theorem Flag.find?_name (f : Flag) : find? f.name = some f := by cases f <;> decide

/-- Flags and `--` are no options with a value. -/
theorem ValueOption.find?_flag (prometheusEnabled : Bool) (f : Flag) :
    find? prometheusEnabled f.name = none := by
  cases prometheusEnabled <;> cases f <;> decide

theorem ValueOption.find?_end (prometheusEnabled : Bool) : find? prometheusEnabled (str "--") = none := by
  cases prometheusEnabled <;> decide

theorem Flag.find?_end : find? (str "--") = none := by decide

/-! ## What is parsed -/

theorem parseArgs_value {prometheusEnabled : Bool} {v : ValueOption}
    (h : v ∈ ValueOption.known prometheusEnabled) (o : Options) (text : Bytes) (rest : List Bytes) :
    parseArgs prometheusEnabled o (v.name :: text :: rest) =
      parseArgs prometheusEnabled (v.set o text) rest := by
  rw [parseArgs, ValueOption.find?_name h]

theorem parseArgs_flag (prometheusEnabled : Bool) (f : Flag) (o : Options) (rest : List Bytes) :
    parseArgs prometheusEnabled o (f.name :: rest) = parseArgs prometheusEnabled (f.set o) rest := by
  cases rest with
  | nil => simp only [parseArgs, parseOther, Flag.find?_name]
  | cons value rest =>
      rw [parseArgs, ValueOption.find?_flag]
      simp only [parseOther, Flag.find?_name]

theorem parseArgs_end (prometheusEnabled : Bool) (o : Options) (rest : List Bytes) :
    parseArgs prometheusEnabled o (str "--" :: rest) = .options { o with childCmd := rest } := by
  cases rest with
  | nil => rw [parseArgs, parseOther, Flag.find?_end, if_pos rfl]
  | cons value rest => rw [parseArgs, ValueOption.find?_end, parseOther, Flag.find?_end, if_pos rfl]

/-- What is written as a command line is read as it is meant. -/
theorem parseArgs_words {prometheusEnabled : Bool} (l : CommandLine)
    (h : ∀ a ∈ l.args, a.Known prometheusEnabled) (o : Options) :
    parseArgs prometheusEnabled o l.words = .options (l.options o) := by
  obtain ⟨args, command⟩ := l
  induction args generalizing o with
  | nil =>
      cases command with
      | none => exact parseArgs.eq_1 prometheusEnabled o
      | some c => exact parseArgs_end prometheusEnabled o c
  | cons a args ih =>
      rw [List.forall_mem_cons] at h
      have hrest := ih (a.apply o) h.2
      cases a with
      | value v text => exact (parseArgs_value h.1 o text _).trans hrest
      | flag f => exact (parseArgs_flag prometheusEnabled f o _).trans hrest

/-- A command line with one option more. -/
def CommandLine.cons (a : Arg) (l : CommandLine) : CommandLine := { l with args := a :: l.args }

/-- What `parseOther` accepts is a flag or the end. -/
theorem parseOther_eq_options {o o' : Options} {a : Bytes} {rest : List Bytes} {go : Options → Parsed}
    (h : parseOther o a rest go = .options o') :
    (∃ f : Flag, a = f.name ∧ go (f.set o) = .options o') ∨
      (a = str "--" ∧ o' = { o with childCmd := rest }) := by
  unfold parseOther at h
  split at h
  · next f hf => exact .inl ⟨f, (Flag.find?_eq_some hf).symm, h⟩
  · split at h
    · next hend =>
        injection h with h
        exact .inr ⟨hend, h.symm⟩
    · split at h <;> cases h

/-- What is accepted was written as a command line. -/
theorem words_of_parseArgs {prometheusEnabled : Bool} {o o' : Options} {argv : List Bytes}
    (h : parseArgs prometheusEnabled o argv = .options o') :
    ∃ l : CommandLine, (∀ a ∈ l.args, a.Known prometheusEnabled) ∧ argv = l.words ∧ o' = l.options o := by
  induction hn : argv.length using Nat.strongRecOn generalizing o argv with
  | ind n ih =>
      -- One option in front of a command line is a command line.
      have hcons : ∀ (a : Arg) (rest : List Bytes), a.Known prometheusEnabled → rest.length < n →
          parseArgs prometheusEnabled (a.apply o) rest = .options o' →
          ∃ l : CommandLine, (∀ a ∈ l.args, a.Known prometheusEnabled) ∧ a.words ++ rest = l.words ∧
            o' = l.options o := by
        intro a rest hknown hlt hrest
        obtain ⟨l, hl, rfl, rfl⟩ := ih _ hlt hrest rfl
        exact ⟨l.cons a, List.forall_mem_cons.2 ⟨hknown, hl⟩, (List.append_assoc ..).symm, rfl⟩
      -- So is the end, with what follows.
      have hend : ∀ rest : List Bytes, o' = { o with childCmd := rest } →
          ∃ l : CommandLine, (∀ a ∈ l.args, a.Known prometheusEnabled) ∧ str "--" :: rest = l.words ∧
            o' = l.options o := fun rest heq =>
        ⟨⟨[], some rest⟩, List.forall_mem_nil _, rfl, heq⟩
      cases argv with
      | nil =>
          rw [parseArgs] at h
          injection h with h
          exact ⟨⟨[], none⟩, List.forall_mem_nil _, rfl, h.symm⟩
      | cons a rest =>
          subst hn
          cases rest with
          | nil =>
              rw [parseArgs] at h
              rcases parseOther_eq_options h with ⟨f, rfl, hgo⟩ | ⟨rfl, heq⟩
              · refine hcons (.flag f) [] trivial (Nat.zero_lt_one) ?_
                rw [parseArgs]
                exact hgo
              · exact hend [] heq
          | cons value rest =>
              rw [parseArgs] at h
              split at h
              · next v hv =>
                  obtain ⟨hknown, rfl⟩ := ValueOption.find?_eq_some hv
                  exact hcons (.value v value) rest hknown (by simp only [List.length_cons]; omega) h
              · rcases parseOther_eq_options h with ⟨f, rfl, hgo⟩ | ⟨rfl, heq⟩
                · exact hcons (.flag f) (value :: rest) trivial (by simp) hgo
                · exact hend (value :: rest) heq

/-! ## The order of options -/

/-- The option's name, without its value. -/
def Arg.key : Arg → ValueOption ⊕ Flag
  | .value v _ => .inl v
  | .flag f => .inr f

/-- Different options set different things. -/
theorem Arg.apply_comm {a b : Arg} (h : a.key ≠ b.key) (o : Options) :
    Arg.apply (Arg.apply o a) b = Arg.apply (Arg.apply o b) a := by
  cases a with
  | value v text =>
      cases b with
      | value w text' =>
          have hne : v ≠ w := fun heq => h (congrArg Sum.inl heq)
          cases v <;> cases w <;> first | rfl | exact absurd rfl hne
      | flag f => cases v <;> cases f <;> rfl
  | flag f =>
      cases b with
      | value w text' => cases f <;> cases w <;> rfl
      | flag g => cases f <;> cases g <;> rfl

/-- Options that are given once can be given in any order. -/
theorem CommandLine.options_perm {args args' : List Arg} (h : args.Perm args')
    (hkeys : (args.map Arg.key).Nodup) (command : Option (List Bytes)) (o : Options) :
    CommandLine.options ⟨args, command⟩ o = CommandLine.options ⟨args', command⟩ o := by
  have hfold : args.foldl Arg.apply o = args'.foldl Arg.apply o := by
    refine h.foldl_eq' (fun a ha b hb o => ?_) o
    by_cases hkey : a.key = b.key
    · rw [List.inj_on_of_nodup_map hkeys ha hb hkey]
    · exact Arg.apply_comm hkey o
  simp only [options, hfold]

/-! ## What is accepted -/

/-- All processes, one process, or a command: one of them. -/
def Options.OneTarget (o : Options) : Prop :=
  (o.allMode = true ∧ o.pidFilter = 0 ∧ o.childCmd = []) ∨
    (o.allMode = false ∧ o.pidFilter ≠ 0 ∧ o.childCmd = []) ∨
    (o.allMode = false ∧ o.pidFilter = 0 ∧ o.childCmd ≠ [])

/-- The options are accepted, and this is what becomes of them. -/
structure Options.Accepted (prometheusEnabled : Bool) (host : Host) (o : Options) (s : Setup) : Prop where
  root : host.euid = 0
  discMode : discMode? host o.modeStr = some s.discMode
  library : (o.locate host s.discMode).libraryMissing s.discMode = false
  prometheus : o.prometheusMode = true → prometheusEnabled = true
  oneTarget : o.OneTarget
  settled : s.options = (o.locate host s.discMode).defaults

/-- Looking for a library changes nothing that is asked for later. -/
theorem Options.locate_frame (o : Options) (host : Host) (discMode : DiscoveryMode) :
    (o.locate host discMode).prometheusMode = o.prometheusMode ∧
      (o.locate host discMode).allMode = o.allMode ∧
      (o.locate host discMode).pidFilter = o.pidFilter ∧
      (o.locate host discMode).childCmd = o.childCmd := by
  cases discMode <;> exact ⟨rfl, rfl, rfl, rfl⟩

theorem Options.oneTarget_iff (o : Options) :
    o.OneTarget ↔ ¬ (¬ o.allMode ∧ o.pidFilter = 0 ∧ o.childCmd = []) ∧
      ¬ (o.allMode ∧ (o.pidFilter ≠ 0 ∨ o.childCmd ≠ [])) ∧ ¬ (o.pidFilter ≠ 0 ∧ o.childCmd ≠ []) := by
  unfold OneTarget
  cases o.allMode <;> by_cases hpid : o.pidFilter = 0 <;> by_cases hchild : o.childCmd = [] <;>
    simp [hpid, hchild]

theorem setUp_ok_iff (prometheusEnabled : Bool) (host : Host) (o : Options) (s : Setup) :
    setUp prometheusEnabled host o = .ok s ↔ o.Accepted prometheusEnabled host s := by
  unfold setUp
  split
  · next hnone =>
      refine iff_of_false nofun fun h => ?_
      exact nomatch hnone.symm.trans h.discMode
  · next discMode hmode =>
      obtain ⟨hprometheus, hall, hpid, hchild⟩ := o.locate_frame host discMode
      simp only [hprometheus, hall, hpid, hchild]
      constructor
      · intro h
        split_ifs at h with hlibrary hbuild hroot hnone hboth htwo
        injection h with h
        subst h
        exact
          { root := not_not.1 hroot
            discMode := hmode
            library := Bool.eq_false_iff.2 hlibrary
            prometheus := fun hp => by simpa [hp] using hbuild
            oneTarget := o.oneTarget_iff.2 ⟨hnone, hboth, htwo⟩
            settled := rfl }
      · intro h
        obtain rfl := Option.some.inj (hmode.symm.trans h.discMode)
        obtain ⟨hnone, hboth, htwo⟩ := o.oneTarget_iff.1 h.oneTarget
        have hbuild : ¬ (¬ prometheusEnabled = true ∧ o.prometheusMode = true) :=
          fun hb => hb.1 (h.prometheus hb.2)
        rw [if_neg (by simp [h.library]), if_neg hbuild, if_neg (not_not.2 h.root), if_neg hnone,
          if_neg hboth, if_neg htwo, ← h.settled]

/-- **What the beginning of `main` does.** -/
structure FrontEnd (prometheusEnabled : Bool) (host : Host) : Prop where
  /-- Command lines are accepted exactly if they are options of this build and perhaps a command, and what
      they ask for is. -/
  accepted : ∀ argv s, frontEnd prometheusEnabled host argv = .ok s ↔
    ∃ l : CommandLine, (∀ a ∈ l.args, a.Known prometheusEnabled) ∧ argv = l.words ∧
      (l.options {}).Accepted prometheusEnabled host s
  /-- The order of options is of no account. -/
  order : ∀ args args' command, args.Perm args' → (args.map Arg.key).Nodup →
    (∀ a ∈ args, a.Known prometheusEnabled) →
    frontEnd prometheusEnabled host (CommandLine.words ⟨args, command⟩) =
      frontEnd prometheusEnabled host (CommandLine.words ⟨args', command⟩)
  /-- What `main` goes on with is complete. -/
  complete : ∀ argv s, frontEnd prometheusEnabled host argv = .ok s →
    s.options.OneTarget ∧ s.options.libraryMissing s.discMode = false ∧
      (s.options.prometheusMode = false → s.options.allMode = true → s.options.outDir ≠ []) ∧
      (s.options.prometheusMode = false → s.options.allMode = false → s.options.out ≠ [])

theorem frontEnd_words {prometheusEnabled : Bool} {host : Host} (l : CommandLine)
    (h : ∀ a ∈ l.args, a.Known prometheusEnabled) :
    frontEnd prometheusEnabled host l.words = setUp prometheusEnabled host (l.options {}) := by
  rw [frontEnd, parseArgs_words l h]

theorem frontEnd_ok_iff (prometheusEnabled : Bool) (host : Host) (argv : List Bytes) (s : Setup) :
    frontEnd prometheusEnabled host argv = .ok s ↔
      ∃ l : CommandLine, (∀ a ∈ l.args, a.Known prometheusEnabled) ∧ argv = l.words ∧
        (l.options {}).Accepted prometheusEnabled host s := by
  constructor
  · intro h
    rw [frontEnd] at h
    split at h
    · next o ho =>
        obtain ⟨l, hl, hwords, rfl⟩ := words_of_parseArgs ho
        exact ⟨l, hl, hwords, (setUp_ok_iff _ _ _ _).1 h⟩
    · cases h
    · cases h
  · rintro ⟨l, hl, rfl, h⟩
    rw [frontEnd_words l hl]
    exact (setUp_ok_iff _ _ _ _).2 h

/-- The defaults are for the output only. -/
theorem Options.defaults_frame (o : Options) (discMode : DiscoveryMode) :
    (o.defaults.OneTarget ↔ o.OneTarget) ∧ o.defaults.libraryMissing discMode = o.libraryMissing discMode ∧
      o.defaults.prometheusMode = o.prometheusMode ∧ o.defaults.allMode = o.allMode := by
  unfold defaults
  split_ifs <;> cases discMode <;> exact ⟨Iff.rfl, rfl, rfl, rfl⟩

theorem Options.outDir_defaults {o : Options} (hprometheus : o.prometheusMode = false)
    (hall : o.allMode = true) : o.defaults.outDir ≠ [] := by
  rw [defaults, if_pos ⟨hall, by simp [hprometheus]⟩]
  by_cases hdir : o.outDir = []
  · rw [if_pos hdir]
    exact List.cons_ne_nil _ _
  · rwa [if_neg hdir]

theorem Options.out_defaults {o : Options} (hprometheus : o.prometheusMode = false)
    (hall : o.allMode = false) : o.defaults.out ≠ [] := by
  rw [defaults, if_neg (by simp [hall])]
  by_cases hout : o.out = []
  · rw [if_pos ⟨by simp [hprometheus], hout⟩]
    show (if o.fmt = .json then _ else _) ≠ []
    split <;> decide
  · rwa [if_neg (fun h => hout h.2)]

theorem Options.Accepted.complete {prometheusEnabled : Bool} {host : Host} {o : Options} {s : Setup}
    (h : o.Accepted prometheusEnabled host s) :
    s.options.OneTarget ∧ s.options.libraryMissing s.discMode = false ∧
      (s.options.prometheusMode = false → s.options.allMode = true → s.options.outDir ≠ []) ∧
      (s.options.prometheusMode = false → s.options.allMode = false → s.options.out ≠ []) := by
  obtain ⟨htarget, hlibrary, hprometheus, hall⟩ := (o.locate host s.discMode).defaults_frame s.discMode
  have hsame : (o.locate host s.discMode).OneTarget ↔ o.OneTarget := by
    obtain ⟨-, hall, hpid, hchild⟩ := o.locate_frame host s.discMode
    rw [OneTarget, OneTarget, hall, hpid, hchild]
  rw [h.settled, htarget, hlibrary, hprometheus, hall]
  exact ⟨hsame.2 h.oneTarget, h.library, Options.outDir_defaults, Options.out_defaults⟩

/-- **The command line.** In every build and on every host. -/
theorem frontEnd_spec (prometheusEnabled : Bool) (host : Host) : FrontEnd prometheusEnabled host where
  accepted := frontEnd_ok_iff prometheusEnabled host
  order := by
    intro args args' command hperm hkeys hknown
    have hknown' : ∀ a ∈ args', a.Known prometheusEnabled := fun a ha => hknown a (hperm.mem_iff.2 ha)
    rw [frontEnd_words ⟨args, command⟩ hknown, frontEnd_words ⟨args', command⟩ hknown',
      CommandLine.options_perm hperm hkeys]
  complete := by
    intro argv s h
    obtain ⟨l, -, -, haccepted⟩ := (frontEnd_ok_iff prometheusEnabled host argv s).1 h
    exact haccepted.complete

/-- A value is taken whatever it looks like, and behind `--` nothing is an option. -/
example :
    frontEnd true ⟨false, [], [], 0⟩ [str "--out", str "--", str "--", str "app", str "--all"] =
      .ok ⟨.kprobe, { out := str "--", childCmd := [str "app", str "--all"] }⟩ := by
  decide

end HsaSnoop
