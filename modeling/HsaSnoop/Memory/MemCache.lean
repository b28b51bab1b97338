import HsaSnoop.Library.Trace
import HsaSnoop.Model.Machine

set_option autoImplicit false

/-! # The descriptor cache of `/proc/<pid>/mem`

`readProcMemViaMem` keeps one descriptor open between calls, for the pid it was last used with. A
descriptor stays bound to the address space the pid held when it was opened; reading an address space
that is gone gives nothing.

`MemEvent` puts what a call returned next to what a fresh descriptor would have returned.
`transparent_iff` says for every run, with processes that exit, exec and have their pid reused, and opens
that fail now and then, when the two never differ. -/

namespace HsaSnoop

/-! ## The system -/

/-- A process: which of the address spaces ever created it has, and what reading it gives. -/
structure Process where
  space : Nat
  memory : (va len : Nat) → Option (Nat → UInt8)

/-- A descriptor of `/proc/<pid>/mem`: bound to an address space. -/
structure MemFd where
  pid : Int
  space : Nat
  deriving DecidableEq, Repr

structure Os where
  process : Int → Option Process := fun _ => none
  /-- Address spaces created so far. -/
  spaces : Nat := 0
  /-- Whether descriptors are to be had: no transient failure. -/
  canOpen : Bool := true

namespace Os

def openMem (os : Os) (pid : Int) : Option MemFd :=
  if os.canOpen then (os.process pid).map (fun p => ⟨pid, p.space⟩) else none

/-- Reading an address space that is gone gives nothing. -/
def pread (os : Os) (fd : MemFd) (va len : Nat) : Option (Nat → UInt8) :=
  match os.process fd.pid with
  | none => none
  | some p => if p.space = fd.space then p.memory va len else none

/-- A fresh open, and the same read. -/
def freshRead (os : Os) (pid : Int) (va len : Nat) : Option (Nat → UInt8) :=
  (os.openMem pid).bind (fun fd => os.pread fd va len)

end Os

/-! ## The cache -/

/-- The two thread-local variables; no descriptor is the source's `-1`. -/
structure MemCache where
  cachedPid : Int := -1
  cachedFd : Option MemFd := none
  deriving DecidableEq, Repr

/-- The bytes read if the call returns true, and the cache after it. -/
def readProcMemViaMem (os : Os) (cache : MemCache) (pid : Int) (va len : Nat) :
    Option (Nat → UInt8) × MemCache :=
  let cache :=
    if cache.cachedPid ≠ pid ∨ cache.cachedFd = none then
      let fd := os.openMem pid
      -- Only remember the pid with a descriptor for it.
      { cachedFd := fd, cachedPid := if fd.isSome then pid else -1 }
    else cache
  match cache.cachedFd with
  | none => (none, cache)
  | some fd => (os.pread fd va len, cache)

/-! ## Runs -/

structure MemState where
  os : Os := {}
  cache : MemCache := {}

/-- What happens, in any order. -/
inductive MemInput
  /-- The pid gets a new address space: a process starts, reuses a pid, or execs. -/
  | exec (pid : Int) (memory : (va len : Nat) → Option (Nat → UInt8))
  | exit (pid : Int)
  /-- The process writes to its memory, or maps and unmaps some. -/
  | store (pid : Int) (memory : (va len : Nat) → Option (Nat → UInt8))
  /-- From now on, opens fail or succeed. -/
  | setCanOpen (canOpen : Bool)
  | read (pid : Int) (va len : Nat)

/-- A call: what it returned, and what a fresh descriptor would have. -/
structure MemEvent where
  got : Option (Nat → UInt8)
  fresh : Option (Nat → UInt8)

def MemState.step (s : MemState) : MemInput → MemState × List MemEvent
  | .exec pid memory =>
      ({ s with os.process := Function.update s.os.process pid (some ⟨s.os.spaces, memory⟩),
                os.spaces := s.os.spaces + 1 }, [])
  | .exit pid => ({ s with os.process := Function.update s.os.process pid none }, [])
  | .store pid memory =>
      ({ s with os.process := Function.update s.os.process pid
                  ((s.os.process pid).map (fun p => { p with memory := memory })) }, [])
  | .setCanOpen canOpen => ({ s with os.canOpen := canOpen }, [])
  | .read pid va len =>
      let r := readProcMemViaMem s.os s.cache pid va len
      ({ s with cache := r.2 }, [⟨r.1, s.os.freshRead pid va len⟩])

/-- **The cache is transparent**: every call returns what a fresh descriptor would. -/
def MemTransparent (inputs : List MemInput) : Prop :=
  ∀ e ∈ (Trace.run MemState.step {} inputs).2, e.got = e.fresh

/-- The descriptor of the cache is one for its pid. -/
def MemCache.Bound (c : MemCache) : Prop := ∀ fd, c.cachedFd = some fd → fd.pid = c.cachedPid

/-- A call that finds a descriptor for its pid, and asks for bytes the process there now has: a
    descriptor is to be had exactly if the process still has the address space of the cached one. -/
def MemState.Current (s : MemState) : MemInput → Prop
  | .read pid va len =>
      s.cache.cachedPid = pid → ∀ fd, s.cache.cachedFd = some fd → ∀ p, s.os.process pid = some p →
        (p.memory va len).isSome = true → (s.os.canOpen = true ↔ p.space = fd.space)
  | _ => True

theorem Os.openMem_pid {os : Os} {pid : Int} {fd : MemFd} (h : os.openMem pid = some fd) :
    fd.pid = pid := by
  rw [openMem] at h
  split at h
  · obtain ⟨p, -, rfl⟩ := Option.map_eq_some_iff.1 h
    rfl
  · cases h

/-- What a call can do: without a descriptor for the pid, read through a fresh one and keep it; or read
    through the one it has. -/
theorem readProcMemViaMem_cases (os : Os) (cache : MemCache) (pid : Int) (va len : Nat) :
    ((cache.cachedPid ≠ pid ∨ cache.cachedFd = none) ∧
        (readProcMemViaMem os cache pid va len).1 = os.freshRead pid va len ∧
        (readProcMemViaMem os cache pid va len).2.Bound) ∨
      ∃ fd, cache.cachedPid = pid ∧ cache.cachedFd = some fd ∧
        readProcMemViaMem os cache pid va len = (os.pread fd va len, cache) := by
  by_cases hmiss : cache.cachedPid ≠ pid ∨ cache.cachedFd = none
  · left
    refine ⟨hmiss, ?_⟩
    simp only [readProcMemViaMem, if_pos hmiss, Os.freshRead]
    cases hopen : os.openMem pid with
    | none => exact ⟨rfl, fun fd hfd => by cases hfd⟩
    | some fd =>
        refine ⟨rfl, ?_⟩
        intro fd' hfd'
        obtain rfl := Option.some.inj hfd'
        exact Os.openMem_pid hopen
  · right
    rw [not_or, not_not] at hmiss
    obtain ⟨fd, hfd⟩ := Option.ne_none_iff_exists'.1 hmiss.2
    refine ⟨fd, hmiss.1, hfd, ?_⟩
    simp [readProcMemViaMem, hmiss.1, hfd]

theorem MemState.bound_step {s : MemState} (h : s.cache.Bound) (i : MemInput) :
    (s.step i).1.cache.Bound := by
  cases i with
  | read pid va len =>
      rcases readProcMemViaMem_cases s.os s.cache pid va len with ⟨-, -, hbound⟩ | ⟨fd, -, -, heq⟩
      · exact hbound
      · simp only [step, heq]
        exact h
  | _ => exact h

/-- A descriptor of the pid against a fresh one. -/
theorem Os.pread_eq_freshRead_iff {os : Os} {fd : MemFd} {va len : Nat} :
    os.pread fd va len = os.freshRead fd.pid va len ↔
      ∀ p, os.process fd.pid = some p → (p.memory va len).isSome = true →
        (os.canOpen = true ↔ p.space = fd.space) := by
  cases hp : os.process fd.pid with
  | none => simp [pread, freshRead, openMem, hp]
  | some p =>
      have hfresh : os.freshRead fd.pid va len = if os.canOpen then p.memory va len else none := by
        cases hopen : os.canOpen <;> simp [freshRead, openMem, pread, hp, hopen]
      have hpread : os.pread fd va len = if p.space = fd.space then p.memory va len else none := by
        rw [pread, hp]
      rw [hfresh, hpread]
      cases hmem : p.memory va len with
      | none => simp [hmem]
      | some bytes =>
          by_cases hopen : os.canOpen = true
          · by_cases hspace : p.space = fd.space <;> simp [hopen, hspace, hmem]
          · by_cases hspace : p.space = fd.space <;> simp [hopen, hspace, hmem]

/-- **When the cache is transparent**: exactly when every call that finds a descriptor for its pid, and
    asks for bytes the process there now has, is made while a descriptor is to be had and the process
    still has the address space of the cached one, or neither. -/
theorem transparent_iff (inputs : List MemInput) :
    MemTransparent inputs ↔ Trace.Along MemState.step MemState.Current {} inputs := by
  refine Trace.forall_run_iff_along (fun s : MemState => s.cache.Bound)
    (fun s i h => MemState.bound_step h i) ?_ ?_ inputs
  · intro s i hbound
    cases i with
    | read pid va len =>
        simp only [MemState.step, List.forall_mem_singleton, MemState.Current]
        rcases readProcMemViaMem_cases s.os s.cache pid va len with
          ⟨hmiss, hfresh, -⟩ | ⟨fd, hpid, hfd, heq⟩
        · refine ⟨fun _ hpid fd hfd => ?_, fun _ => hfresh⟩
          rcases hmiss with hne | hnone
          · exact absurd hpid hne
          · rw [hnone] at hfd
            cases hfd
        · obtain rfl : fd.pid = pid := (hbound fd hfd).trans hpid
          rw [heq, Os.pread_eq_freshRead_iff]
          constructor
          · intro h _ fd' hfd'
            obtain rfl := Option.some.inj (hfd.symm.trans hfd')
            exact h
          · intro h
            exact h hpid fd hfd
    | _ => simp [MemState.step, MemState.Current]
  · intro fd hfd
    cases hfd

/-- A pid is reused between two reads. -/
def reusedPid : List MemInput :=
  [.exec 7 (fun _ _ => some fun _ => 1), .read 7 0 8, .exit 7, .exec 7 (fun _ _ => some fun _ => 2),
    .read 7 0 8]

/-- The second read fails, though the process with the pid has the bytes. -/
theorem not_transparent_reusedPid : ¬ MemTransparent reusedPid := by
  intro h
  have hlast : (⟨none, some fun _ => 2⟩ : MemEvent) ∈ (Trace.run MemState.step {} reusedPid).2 :=
    List.mem_cons_of_mem _ (List.mem_cons_self ..)
  exact absurd (h _ hlast) (Option.some_ne_none _).symm

end HsaSnoop
