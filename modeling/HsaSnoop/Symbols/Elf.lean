import HsaSnoop.Model.Ksym

set_option autoImplicit false

/-! # Code objects in the memory of a process

`scanImage` walks one ELF image that a process has loaded: the program headers give the load bias and
the dynamic segment, the dynamic segment gives the symbol and the string table, and the distance of the
tables gives the number of symbols. Every symbol whose name ends in `.kd` goes into the tables of the
resolver.

All reads are all-or-nothing, of bytes that may or may not be readable (`MemReader`). Names are read in
pieces of 64 bytes; `peekStr_eq` says what of a name is read. -/

namespace HsaSnoop

/-- `/proc/<pid>/mem`. -/
structure MemReader where
  byte : Nat → UInt8
  readable : Nat → Bool
  readable_fits : ∀ a, readable a = true → a < 2 ^ 64

namespace MemReader

def read (m : MemReader) (va len : Nat) : Option (Nat → UInt8) :=
  if (List.range len).all (fun i => m.readable (va + i)) then some (fun i => m.byte (va + i))
  else none

theorem read_isSome {m : MemReader} {va len : Nat} :
    (m.read va len).isSome = true ↔ ∀ i < len, m.readable (va + i) = true := by
  rw [read, Option.isSome_ite]
  simp

theorem eq_of_read {m : MemReader} {va len : Nat} {raw : Nat → UInt8} (h : m.read va len = some raw) :
    raw = fun i => m.byte (va + i) := by
  rw [read] at h
  split at h
  · exact (Option.some.inj h).symm
  · cases h

end MemReader

/-! ## Names -/

/-- `PeekStr`: pieces of 64 bytes, up to a NUL, a piece that cannot be read, or `max` bytes. -/
def peekStrFrom (m : MemReader) (va max : Nat) (s : Bytes) : Bytes :=
  if s.length < max then
    match m.read (u64 (va + s.length)) 64 with
    | none => s
    | some buf =>
        let piece := (List.range 64).map buf
        if 0 ∈ piece then s ++ piece.takeWhile (fun c => c ≠ 0)
        else peekStrFrom m va max (s ++ piece)
  else s
  termination_by max - s.length
  decreasing_by
    rw [List.length_append, List.length_map, List.length_range]
    omega

def peekStr (m : MemReader) (va : Nat) : Bytes := peekStrFrom m va 512 []

/-- The pieces that can be read, from the `j`-th on. -/
def piecesFrom (m : MemReader) (va : Nat) : (left j : Nat) → Nat
  | 0, j => j
  | left + 1, j =>
      if (m.read (u64 (va + 64 * j)) 64).isSome then piecesFrom m va left (j + 1) else j

/-- How many of the first eight pieces can be read. -/
def pieces (m : MemReader) (va : Nat) : Nat := piecesFrom m va 8 0

/-- The first `n` bytes of a string in memory. -/
def bytesAt (m : MemReader) (va n : Nat) : Bytes := (List.range n).map (fun i => m.byte (u64 (va + i)))

/-- What of a name is read: the pieces that can be read, up to a NUL. -/
def cutName (m : MemReader) (va : Nat) : Bytes :=
  (bytesAt m va (64 * pieces m va)).takeWhile (fun c => c ≠ 0)

theorem bytesAt_add (m : MemReader) (va n k : Nat) :
    bytesAt m va (n + k) = bytesAt m va n ++ (List.range k).map (fun i => m.byte (u64 (va + (n + i)))) := by
  simp [bytesAt, List.range_add, Function.comp_def]

@[simp] theorem length_bytesAt (m : MemReader) (va n : Nat) : (bytesAt m va n).length = n := by
  simp [bytesAt]

theorem le_piecesFrom (m : MemReader) (va left j : Nat) : j ≤ piecesFrom m va left j := by
  induction left generalizing j with
  | zero => exact Nat.le_refl j
  | succ left ih =>
      rw [piecesFrom]
      split
      · exact Nat.le_trans (Nat.le_succ j) (ih (j + 1))
      · exact Nat.le_refl j

/-- A piece is where the addresses say: it does not run over the end of the address space. -/
theorem map_read_piece {m : MemReader} {va n : Nat} {raw : Nat → UInt8}
    (h : m.read (u64 (va + n)) 64 = some raw) :
    (List.range 64).map raw = (List.range 64).map (fun i => m.byte (u64 (va + (n + i)))) := by
  have hreadable := MemReader.read_isSome.1 (Option.isSome_of_eq_some h)
  rw [MemReader.eq_of_read h]
  refine List.map_congr_left (fun i hi => ?_)
  have hfits := m.readable_fits _ (hreadable i (List.mem_range.1 hi))
  have heq : u64 (va + n) + i = u64 (va + (n + i)) := by
    unfold u64 at hfits ⊢
    omega
  rw [heq]

theorem peekStrFrom_eq (m : MemReader) (va : Nat) {left j : Nat} (hleft : j + left = 8)
    (hnul : 0 ∉ bytesAt m va (64 * j)) :
    peekStrFrom m va 512 (bytesAt m va (64 * j)) =
      (bytesAt m va (64 * piecesFrom m va left j)).takeWhile (fun c => c ≠ 0) := by
  have hwhole : ∀ {s : Bytes}, 0 ∉ s → s.takeWhile (fun c => c ≠ 0) = s := by
    intro s hs
    rw [List.takeWhile_eq_self_iff]
    intro c hc
    exact decide_eq_true (fun h => hs (h ▸ hc))
  induction left generalizing j with
  | zero =>
      rw [peekStrFrom, length_bytesAt, if_neg (by omega), piecesFrom, hwhole hnul]
  | succ left ih =>
      rw [peekStrFrom, length_bytesAt, if_pos (by omega), piecesFrom]
      cases hread : m.read (u64 (va + 64 * j)) 64 with
      | none => rw [Option.isSome_none, if_neg Bool.false_ne_true, hwhole hnul]
      | some raw =>
          have hpiece := map_read_piece hread
          have hnext : bytesAt m va (64 * (j + 1)) =
              bytesAt m va (64 * j) ++ (List.range 64).map raw := by
            rw [hpiece, ← bytesAt_add, Nat.mul_succ]
          rw [Option.isSome_some, if_pos rfl]
          show (if 0 ∈ (List.range 64).map raw then _ else _) = _
          split
          · next hmem =>
              -- The NUL is in this piece; what is read after it does not matter.
              obtain ⟨k, hk⟩ := Nat.le.dest (le_piecesFrom m va left (j + 1))
              have hsplit : 64 * piecesFrom m va left (j + 1) = 64 * (j + 1) + 64 * k := by omega
              rw [hsplit, bytesAt_add, hnext, List.append_assoc, List.takeWhile_append_of_pos]
              · rw [List.takeWhile_append, if_neg]
                intro hlen
                have hself := (List.takeWhile_prefix _).eq_of_length hlen
                rw [List.takeWhile_eq_self_iff] at hself
                exact absurd rfl (of_decide_eq_true (hself 0 hmem))
              · intro c hc
                exact decide_eq_true (fun h => hnul (h ▸ hc))
          · next hmem =>
              rw [← hnext]
              refine ih (by omega) ?_
              rw [hnext, List.mem_append, not_or]
              exact ⟨hnul, hmem⟩

theorem peekStr_eq (m : MemReader) (va : Nat) : peekStr m va = cutName m va :=
  peekStrFrom_eq m va (Nat.zero_add 8) List.not_mem_nil

/-- A NUL-terminated string that can be read, its NUL included. -/
structure CString (m : MemReader) (va : Nat) (name : Bytes) : Prop where
  byte : ∀ i, ∀ h : i < name.length, m.byte (va + i) = name[i]
  nul : m.byte (va + name.length) = 0
  notMem : 0 ∉ name
  readable : ∀ i ≤ name.length, m.readable (va + i) = true

theorem takeWhile_map_range {f : Nat → UInt8} {name : Bytes}
    (hbyte : ∀ i, ∀ h : i < name.length, f i = name[i]) (hnul : f name.length = 0)
    (hmem : 0 ∉ name) (n : Nat) :
    ((List.range n).map f).takeWhile (fun c => c ≠ 0) = name.take n := by
  induction n generalizing f name with
  | zero => rfl
  | succ n ih =>
      rw [List.range_succ_eq_map, List.map_cons, List.map_map]
      cases name with
      | nil =>
          rw [List.length_nil] at hnul
          rw [hnul]
          rfl
      | cons c name =>
          rw [List.mem_cons, not_or] at hmem
          have hc : f 0 = c := hbyte 0 (Nat.succ_pos _)
          have htail := ih (fun i h => hbyte (i + 1) (Nat.succ_lt_succ h)) hnul hmem.2
          rw [hc, List.takeWhile_cons, if_pos (decide_eq_true (Ne.symm hmem.1)), List.take_succ_cons]
          exact congrArg (c :: ·) htail

/-- A name is read up to the first piece that cannot be read, and up to 512 bytes. -/
theorem cutName_of_cString {m : MemReader} {va : Nat} {name : Bytes} (h : CString m va name) :
    cutName m va = name.take (64 * pieces m va) := by
  have hfits : ∀ i ≤ name.length, u64 (va + i) = va + i := by
    intro i hi
    exact u64_of_lt (m.readable_fits _ (h.readable i hi))
  refine takeWhile_map_range ?_ ?_ h.notMem _
  · intro i hi
    rw [hfits i (Nat.le_of_lt hi), h.byte i hi]
  · rw [hfits _ (Nat.le_refl _), h.nul]

/-! ## Headers and tables -/

def kElfMag : Bytes := [0x7f, 69, 76, 70]

def kEmAmdgpu : Nat := 224

def kPtLoad : Nat := 1

def kPtDynamic : Nat := 2

def kDtNull : Nat := 0

def kDtStrtab : Nat := 5

def kDtSymtab : Nat := 6

def kDtSyment : Nat := 11

/-- `Elf64_Ehdr`. -/
structure Ehdr where
  ident : Bytes
  phoff : Nat
  phnum : Nat
  deriving DecidableEq, Repr

def peekEhdr (m : MemReader) (va : Nat) : Option Ehdr :=
  (m.read va 64).map fun raw =>
    { ident := (List.range 4).map raw, phoff := leNat raw 32 8, phnum := leNat raw 56 2 }

/-- `Elf64_Phdr`. -/
structure Phdr where
  type : Nat
  vaddr : Nat
  memsz : Nat
  deriving DecidableEq, Repr

def peekPhdr (m : MemReader) (va : Nat) : Option Phdr :=
  (m.read va 56).map fun raw =>
    { type := leNat raw 0 4, vaddr := leNat raw 16 8, memsz := leNat raw 40 8 }

/-- `Elf64_Dyn`. -/
structure Dyn where
  tag : Nat
  val : Nat
  deriving DecidableEq, Repr

def peekDyn (m : MemReader) (va : Nat) : Option Dyn :=
  (m.read va 16).map fun raw => { tag := leNat raw 0 8, val := leNat raw 8 8 }

/-- `Elf64_Sym`. -/
structure Sym where
  name : Nat
  value : Nat
  deriving DecidableEq, Repr

def peekSym (m : MemReader) (va : Nat) : Option Sym :=
  (m.read va 24).map fun raw => { name := leNat raw 0 4, value := leNat raw 8 8 }

/-- What the program headers give. -/
structure Segments where
  minVaddr : Nat := 2 ^ 64 - 1
  dynVaddr : Nat := 0
  dynSz : Nat := 0

def Segments.add (s : Segments) (ph : Phdr) : Segments where
  minVaddr := if ph.type = kPtLoad ∧ ph.vaddr < s.minVaddr then ph.vaddr else s.minVaddr
  dynVaddr := if ph.type = kPtDynamic then ph.vaddr else s.dynVaddr
  dynSz := if ph.type = kPtDynamic then ph.memsz else s.dynSz

def scanPhdrs (m : MemReader) (va : Nat) : (left i : Nat) → Segments → Option Segments
  | 0, _, s => some s
  | left + 1, i, s =>
      match peekPhdr m (u64 (va + i * 56)) with
      | none => none
      | some ph => scanPhdrs m va left (i + 1) (s.add ph)

/-- What the dynamic segment gives. -/
structure DynTables where
  symtab : Nat := 0
  strtab : Nat := 0
  syment : Nat := 24

def DynTables.add (t : DynTables) (d : Dyn) : DynTables where
  symtab := if d.tag = kDtSymtab then d.val else t.symtab
  strtab := if d.tag = kDtStrtab then d.val else t.strtab
  syment := if d.tag = kDtSyment then d.val else t.syment

def scanDynamic (m : MemReader) (va : Nat) : (left i : Nat) → DynTables → DynTables
  | 0, _, t => t
  | left + 1, i, t =>
      match peekDyn m (u64 (va + i * 16)) with
      | none => t
      | some d => if d.tag = kDtNull then t else scanDynamic m va left (i + 1) (t.add d)

/-- Dynamic pointers may be link-time addresses; those below the load address are. -/
def rebase (base bias p : Nat) : Nat := if p < base then u64 (p + bias) else p

/-- The tables of an image, as they are in memory. -/
structure Tables where
  bias : Nat
  symtab : Nat
  strtab : Nat
  syment : Nat
  count : Nat
  deriving DecidableEq, Repr

/-- The first half of `ScanImage`: up to the loop over the symbols. -/
def tables? (m : MemReader) (base : Nat) : Option Tables :=
  match peekEhdr m base with
  | none => none
  | some eh =>
      if eh.ident ≠ kElfMag then none
      else
        match scanPhdrs m (base + eh.phoff) eh.phnum 0 {} with
        | none => none
        | some seg =>
            let minVaddr := if seg.minVaddr = 2 ^ 64 - 1 then 0 else seg.minVaddr
            let bias := u64Sub base minVaddr
            if seg.dynVaddr = 0 then none
            else
              let dyn := scanDynamic m (bias + seg.dynVaddr) (seg.dynSz / 16) 0 {}
              if dyn.symtab = 0 ∨ dyn.strtab = 0 ∨ dyn.syment = 0 then none
              else
                let symtab := rebase base bias dyn.symtab
                let strtab := rebase base bias dyn.strtab
                -- The string table conventionally follows the symbol table.
                if strtab ≤ symtab then none
                else
                  let count := (strtab - symtab) / dyn.syment
                  if count = 0 ∨ count > 200000 then none
                  else some ⟨bias, symtab, strtab, dyn.syment, count⟩

/-! ## Symbols -/

section

variable (demangle : Bytes → Bytes) (m : MemReader)

/-- What is done with one symbol. -/
def kdSymbol? (t : Tables) (sym : Sym) : Option (Nat × Bytes) :=
  if sym.name = 0 ∨ sym.value = 0 then none
  else
    let name := peekStr m (u64 (t.strtab + sym.name))
    if name.length < 4 then none
    else if name.drop (name.length - 3) ≠ str ".kd" then none
    else some (u64 (sym.value + t.bias), demangle (name.take (name.length - 3)))

/-- The loop over the symbols: what goes into the tables of the resolver, in order. -/
def scanSymbols (t : Tables) : (left i : Nat) → List (Nat × Bytes)
  | 0, _ => []
  | left + 1, i =>
      match peekSym m (u64 (t.symtab + i * t.syment)) with
      | none => []
      | some sym => (kdSymbol? demangle m t sym).toList ++ scanSymbols t left (i + 1)

def imageSymbols (base : Nat) : List (Nat × Bytes) :=
  match tables? m base with
  | none => []
  | some t => scanSymbols demangle m t t.count 0

/-- `ScanImage`. -/
def scanImage (base : Nat) (r : KernelSymbolResolver) : KernelSymbolResolver :=
  (imageSymbols demangle m base).foldl KernelSymbolResolver.scanSymbol r

omit demangle in
/-- An AMDGPU image starts here. -/
def isElfBase (start : Nat) : Bool :=
  match m.read start 20 with
  | none => false
  | some raw => decide ((List.range 4).map raw = kElfMag ∧ leNat raw 18 2 = kEmAmdgpu)

/-- `FindElfBases`, of the lines of `/proc/<pid>/maps`: start of the region and first letter of its
    permissions. -/
def findElfBases (maps : List (Nat × UInt8)) : List Nat :=
  (maps.filter (fun line => decide (line.2 = 114) && isElfBase m line.1)).map Prod.fst

/-- `ScanCodeObjects`. -/
def scanImages (maps : List (Nat × UInt8)) (r : KernelSymbolResolver) : KernelSymbolResolver :=
  (findElfBases m maps).foldl (fun r base => scanImage demangle m base r) r

/-- A scan does to the tables of a resolver what `KernelSymbolResolver.scanCodeObjects` says, with the
    symbols of the images in order. -/
theorem scanImages_eq (maps : List (Nat × UInt8)) (r : KernelSymbolResolver) (p : ProcMem)
    (hp : p.codeObjects = (findElfBases m maps).flatMap (imageSymbols demangle m)) :
    scanImages demangle m maps r = r.scanCodeObjects p := by
  rw [KernelSymbolResolver.scanCodeObjects, hp, List.foldl_flatMap]
  rfl

/-- What is visited: every symbol up to the first that cannot be read. -/
theorem mem_scanSymbols {t : Tables} {left i : Nat} {p : Nat × Bytes} :
    p ∈ scanSymbols demangle m t left i ↔
      ∃ j < left, (∀ j' ≤ j, (peekSym m (u64 (t.symtab + (i + j') * t.syment))).isSome = true) ∧
        ∃ sym, peekSym m (u64 (t.symtab + (i + j) * t.syment)) = some sym ∧
          kdSymbol? demangle m t sym = some p := by
  induction left generalizing i with
  | zero => simp [scanSymbols]
  | succ left ih =>
      rw [scanSymbols]
      cases hsym : peekSym m (u64 (t.symtab + i * t.syment)) with
      | none =>
          refine ⟨fun h => absurd h List.not_mem_nil, ?_⟩
          rintro ⟨j, -, hread, -⟩
          have hfirst := hread 0 (Nat.zero_le j)
          rw [Nat.add_zero, hsym] at hfirst
          cases hfirst
      | some sym =>
          rw [List.mem_append, Option.mem_toList, ih]
          constructor
          · rintro (hp | ⟨j, hj, hread, hvisit⟩)
            · refine ⟨0, Nat.succ_pos left, ?_, sym, hsym, hp⟩
              intro j' hj'
              rw [Nat.le_zero.1 hj', Nat.add_zero, hsym, Option.isSome_some]
            · refine ⟨j + 1, Nat.succ_lt_succ hj, ?_, ?_⟩
              · intro j' hj'
                cases j' with
                | zero => rw [Nat.add_zero, hsym, Option.isSome_some]
                | succ j' =>
                    rw [← Nat.add_assoc, Nat.add_right_comm]
                    exact hread j' (Nat.le_of_succ_le_succ hj')
              · rwa [← Nat.add_assoc, Nat.add_right_comm]
          · rintro ⟨j, hj, hread, hvisit⟩
            cases j with
            | zero =>
                obtain ⟨sym', hsym', hp⟩ := hvisit
                rw [Nat.add_zero, hsym] at hsym'
                cases hsym'
                exact .inl hp
            | succ j =>
                refine .inr ⟨j, Nat.lt_of_succ_lt_succ hj, ?_, ?_⟩
                · intro j' hj'
                  rw [Nat.add_right_comm, Nat.add_assoc]
                  exact hread (j' + 1) (Nat.succ_le_succ hj')
                · rwa [Nat.add_right_comm, Nat.add_assoc]

end

end HsaSnoop
