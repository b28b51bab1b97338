import HsaSnoop.Symbols.Elf
import HsaSnoop.Symbols.Resolver

set_option autoImplicit false

/-! # Which kernel symbols of an image are registered

`ElfImage` says what an image in memory is, in terms of its headers and its dynamic segment, and
`ElfImage.tables?_eq` that `scanImage` finds its tables. `mem_imageSymbols` then says what is visited:
groups of 24 bytes from the symbol table up to the string table, read as symbols, with names cut where
they can no longer be read.

From this follows when everything visited is an entry of the symbol table under its own name
(`noPhantoms_iff`), and when every kernel of the symbol table is visited (`registered_iff`). -/

namespace HsaSnoop

/-! ## Images -/

/-- An image loaded at `base`. Dynamic pointers are read as by the loader: as addresses of the image
    if they are below the load address. -/
structure ElfImage (m : MemReader) (base : Nat) where
  ehdr : Ehdr
  phdrs : List Phdr
  /-- The smallest address of a loaded segment. -/
  minVaddr : Nat
  dynamic : Phdr
  /-- The dynamic segment up to its end or the first `DT_NULL`. -/
  dyns : List Dyn
  symtab : Nat
  strtab : Nat
  peek_ehdr : peekEhdr m base = some ehdr
  ident : ehdr.ident = kElfMag
  length_phdrs : phdrs.length = ehdr.phnum
  peek_phdrs : ∀ i < phdrs.length, peekPhdr m (u64 (base + ehdr.phoff + i * 56)) = phdrs[i]?
  load_minVaddr : ∃ ph ∈ phdrs, ph.type = kPtLoad ∧ ph.vaddr = minVaddr
  minVaddr_le : ∀ ph ∈ phdrs, ph.type = kPtLoad → minVaddr ≤ ph.vaddr
  /-- Nothing is loaded at the last address. -/
  minVaddr_lt : minVaddr < 2 ^ 64 - 1
  dynamic_mem : dynamic ∈ phdrs
  dynamic_type : dynamic.type = kPtDynamic
  dynamic_unique : ∀ ph ∈ phdrs, ph.type = kPtDynamic → ph = dynamic
  dynamic_vaddr : dynamic.vaddr ≠ 0
  peek_dyns : ∀ i < dyns.length,
    peekDyn m (u64 (u64Sub base minVaddr + dynamic.vaddr + i * 16)) = dyns[i]?
  dyns_ne_null : ∀ d ∈ dyns, d.tag ≠ kDtNull
  dyns_end : dyns.length = dynamic.memsz / 16 ∨ dyns.length < dynamic.memsz / 16 ∧
    (peekDyn m (u64 (u64Sub base minVaddr + dynamic.vaddr + dyns.length * 16))).map Dyn.tag = some kDtNull
  symtab_mem : ⟨kDtSymtab, symtab⟩ ∈ dyns
  symtab_unique : ∀ d ∈ dyns, d.tag = kDtSymtab → d.val = symtab
  symtab_ne_zero : symtab ≠ 0
  strtab_mem : ⟨kDtStrtab, strtab⟩ ∈ dyns
  strtab_unique : ∀ d ∈ dyns, d.tag = kDtStrtab → d.val = strtab
  strtab_ne_zero : strtab ≠ 0
  syment_mem : ⟨kDtSyment, 24⟩ ∈ dyns
  syment_unique : ∀ d ∈ dyns, d.tag = kDtSyment → d.val = 24

namespace ElfImage

variable {m : MemReader} {base : Nat} (img : ElfImage m base)

/-- Load base minus the smallest address of a loaded segment. -/
def bias : Nat := u64Sub base img.minVaddr

def symAddr : Nat := rebase base img.bias img.symtab

def strAddr : Nat := rebase base img.bias img.strtab

/-- How many symbols there is room for. -/
def count : Nat := (img.strAddr - img.symAddr) / 24

/-- The `i`-th group of 24 bytes from the symbol table on, read as a symbol. -/
def sym? (i : Nat) : Option Sym := peekSym m (u64 (img.symAddr + i * 24))

/-- Where the name of a symbol is. -/
def nameAddr (sym : Sym) : Nat := u64 (img.strAddr + sym.name)

/-- Where the kernel descriptor is. -/
def runtime (sym : Sym) : Nat := u64 (sym.value + img.bias)

end ElfImage

/-! ## The tables are found -/

/-- A loop that assigns a component from some elements, always the same value. -/
theorem foldl_assigned {σ α β : Type} {f : σ → α → σ} {g : σ → β} {P : α → Prop} {c : β} {l : List α}
    (hset : ∀ s, ∀ a ∈ l, P a → g (f s a) = c) (hkeep : ∀ s, ∀ a ∈ l, ¬ P a → g (f s a) = g s)
    (h : ∃ a ∈ l, P a) (s : σ) : g (l.foldl f s) = c := by
  have hstays : ∀ {l' : List α}, (∀ a ∈ l', a ∈ l) → ∀ {s : σ}, g s = c → g (l'.foldl f s) = c := by
    intro l'
    induction l' with
    | nil => exact fun _ _ hs => hs
    | cons a l' ih =>
        intro hsub s hs
        refine ih (fun b hb => hsub b (List.mem_cons_of_mem a hb)) ?_
        by_cases ha : P a
        · exact hset s a (hsub a (List.mem_cons_self ..)) ha
        · exact (hkeep s a (hsub a (List.mem_cons_self ..)) ha).trans hs
  obtain ⟨a, ha, hp⟩ := h
  obtain ⟨before, after, rfl⟩ := List.append_of_mem ha
  rw [List.foldl_append, List.foldl_cons]
  refine hstays (fun b hb => List.mem_append_right _ (List.mem_cons_of_mem a hb)) ?_
  exact hset _ a ha hp

theorem scanPhdrs_eq {m : MemReader} {va : Nat} {phdrs : List Phdr} {i : Nat}
    (h : ∀ j < phdrs.length, peekPhdr m (u64 (va + (i + j) * 56)) = phdrs[j]?) (s : Segments) :
    scanPhdrs m va phdrs.length i s = some (phdrs.foldl Segments.add s) := by
  induction phdrs generalizing i s with
  | nil => rfl
  | cons ph phdrs ih =>
      have hhead : peekPhdr m (u64 (va + i * 56)) = some ph := h 0 (Nat.succ_pos _)
      rw [List.length_cons, scanPhdrs, hhead]
      refine ih (fun j hj => ?_) (s.add ph)
      rw [Nat.add_right_comm, Nat.add_assoc]
      exact h (j + 1) (Nat.succ_lt_succ hj)

theorem minVaddr_foldl {phdrs : List Phdr} {v : Nat}
    (hmem : ∃ ph ∈ phdrs, ph.type = kPtLoad ∧ ph.vaddr = v)
    (hle : ∀ ph ∈ phdrs, ph.type = kPtLoad → v ≤ ph.vaddr) {s : Segments} (hs : v < s.minVaddr) :
    (phdrs.foldl Segments.add s).minVaddr = v := by
  have hstays : ∀ {phdrs : List Phdr} {s : Segments}, (∀ ph ∈ phdrs, ph.type = kPtLoad → v ≤ ph.vaddr) →
      s.minVaddr = v → (phdrs.foldl Segments.add s).minVaddr = v := by
    intro phdrs
    induction phdrs with
    | nil => exact fun _ hs => hs
    | cons ph phdrs ih =>
        intro s hle hs
        refine ih (fun b hb => hle b (List.mem_cons_of_mem ph hb)) ?_
        have hnot : ¬ (ph.type = kPtLoad ∧ ph.vaddr < s.minVaddr) := by
          rintro ⟨htype, hlt⟩
          exact absurd (hle ph (List.mem_cons_self ..) htype) (Nat.not_le.2 (hs ▸ hlt))
        exact (if_neg hnot).trans hs
  induction phdrs generalizing s with
  | nil =>
      obtain ⟨ph, hph, -⟩ := hmem
      cases hph
  | cons ph phdrs ih =>
      have hle' : ∀ b ∈ phdrs, b.type = kPtLoad → v ≤ b.vaddr :=
        fun b hb => hle b (List.mem_cons_of_mem ph hb)
      by_cases hv : ph.type = kPtLoad ∧ ph.vaddr = v
      · rw [List.foldl_cons]
        refine hstays hle' ?_
        exact (if_pos ⟨hv.1, hv.2 ▸ hs⟩).trans hv.2
      · have hrest : ∃ b ∈ phdrs, b.type = kPtLoad ∧ b.vaddr = v := by
          obtain ⟨b, hb, hbv⟩ := hmem
          rcases List.mem_cons.1 hb with rfl | hb
          · exact absurd hbv hv
          · exact ⟨b, hb, hbv⟩
        refine ih hrest hle' ?_
        show v < if ph.type = kPtLoad ∧ ph.vaddr < s.minVaddr then ph.vaddr else s.minVaddr
        split
        · next hload =>
            have hge := hle ph (List.mem_cons_self ..) hload.1
            exact Nat.lt_of_le_of_ne hge (fun h => hv ⟨hload.1, h.symm⟩)
        · exact hs

theorem scanDynamic_eq {m : MemReader} {va : Nat} {dyns : List Dyn} {i left : Nat}
    (hpeek : ∀ j < dyns.length, peekDyn m (u64 (va + (i + j) * 16)) = dyns[j]?)
    (hnull : ∀ d ∈ dyns, d.tag ≠ kDtNull)
    (hend : dyns.length = left ∨ dyns.length < left ∧
      (peekDyn m (u64 (va + (i + dyns.length) * 16))).map Dyn.tag = some kDtNull) (t : DynTables) :
    scanDynamic m va left i t = dyns.foldl DynTables.add t := by
  induction dyns generalizing i left t with
  | nil =>
      rcases hend with rfl | ⟨hlt, hlast⟩
      · rfl
      · obtain ⟨left, rfl⟩ := Nat.exists_eq_succ_of_ne_zero (Nat.ne_of_gt hlt)
        obtain ⟨d, hd, htag⟩ := Option.map_eq_some_iff.1 hlast
        rw [List.length_nil, Nat.add_zero] at hd
        rw [scanDynamic, hd]
        exact if_pos htag
  | cons d dyns ih =>
      have hhead : peekDyn m (u64 (va + i * 16)) = some d := hpeek 0 (Nat.succ_pos _)
      have hpos : left ≠ 0 := by
        rw [List.length_cons] at hend
        omega
      obtain ⟨left, rfl⟩ := Nat.exists_eq_succ_of_ne_zero hpos
      rw [scanDynamic, hhead]
      refine (if_neg (hnull d (List.mem_cons_self ..))).trans ?_
      refine ih (fun j hj => ?_) (fun b hb => hnull b (List.mem_cons_of_mem d hb)) ?_ (t.add d)
      · rw [Nat.add_right_comm, Nat.add_assoc]
        exact hpeek (j + 1) (Nat.succ_lt_succ hj)
      · rw [List.length_cons, ← Nat.add_assoc, Nat.add_right_comm] at hend
        exact hend.imp Nat.succ.inj (fun h => ⟨Nat.lt_of_succ_lt_succ h.1, h.2⟩)

namespace ElfImage

variable {m : MemReader} {base : Nat} (img : ElfImage m base)

/-- The program headers give the load address and the dynamic segment. -/
theorem scanPhdrs_spec :
    ∃ seg, scanPhdrs m (base + img.ehdr.phoff) img.ehdr.phnum 0 {} = some seg ∧
      seg.minVaddr = img.minVaddr ∧ seg.dynVaddr = img.dynamic.vaddr ∧ seg.dynSz = img.dynamic.memsz := by
  have hphdrs : scanPhdrs m (base + img.ehdr.phoff) img.ehdr.phnum 0 {} =
      some (img.phdrs.foldl Segments.add {}) := by
    rw [← img.length_phdrs]
    refine scanPhdrs_eq (fun j hj => ?_) {}
    rw [Nat.zero_add]
    exact img.peek_phdrs j hj
  have hexists : ∃ ph ∈ img.phdrs, ph.type = kPtDynamic := ⟨_, img.dynamic_mem, img.dynamic_type⟩
  refine ⟨_, hphdrs, minVaddr_foldl img.load_minVaddr img.minVaddr_le img.minVaddr_lt, ?_, ?_⟩
  · refine foldl_assigned (g := Segments.dynVaddr) (fun s ph hph htype => ?_) (fun s ph _ htype => ?_)
      hexists _
    · exact (if_pos htype).trans (by rw [img.dynamic_unique ph hph htype])
    · exact if_neg htype
  · refine foldl_assigned (g := Segments.dynSz) (fun s ph hph htype => ?_) (fun s ph _ htype => ?_)
      hexists _
    · exact (if_pos htype).trans (by rw [img.dynamic_unique ph hph htype])
    · exact if_neg htype

/-- The dynamic segment gives the two tables. -/
theorem scanDynamic_spec :
    ∃ dyn, scanDynamic m (img.bias + img.dynamic.vaddr) (img.dynamic.memsz / 16) 0 {} = dyn ∧
      dyn.symtab = img.symtab ∧ dyn.strtab = img.strtab ∧ dyn.syment = 24 := by
  have hdyns : scanDynamic m (img.bias + img.dynamic.vaddr) (img.dynamic.memsz / 16) 0 {} =
      img.dyns.foldl DynTables.add {} := by
    refine scanDynamic_eq (fun j hj => ?_) img.dyns_ne_null ?_ {}
    · rw [Nat.zero_add]
      exact img.peek_dyns j hj
    · rw [Nat.zero_add]
      exact img.dyns_end
  refine ⟨_, hdyns, ?_, ?_, ?_⟩
  · exact foldl_assigned (g := DynTables.symtab) (P := fun d => d.tag = kDtSymtab)
      (fun t d hd htag => (if_pos htag).trans (img.symtab_unique d hd htag)) (fun t d _ htag => if_neg htag)
      ⟨_, img.symtab_mem, rfl⟩ _
  · exact foldl_assigned (g := DynTables.strtab) (P := fun d => d.tag = kDtStrtab)
      (fun t d hd htag => (if_pos htag).trans (img.strtab_unique d hd htag)) (fun t d _ htag => if_neg htag)
      ⟨_, img.strtab_mem, rfl⟩ _
  · exact foldl_assigned (g := DynTables.syment) (P := fun d => d.tag = kDtSyment)
      (fun t d hd htag => (if_pos htag).trans (img.syment_unique d hd htag)) (fun t d _ htag => if_neg htag)
      ⟨_, img.syment_mem, rfl⟩ _

/-- The tables as `scanImage` works with them. -/
def tables : Tables := ⟨img.bias, img.symAddr, img.strAddr, 24, img.count⟩

/-- `scanImage` finds the tables, and gives up only on their distance. -/
theorem tables?_eq :
    tables? m base =
      if img.strAddr ≤ img.symAddr ∨ img.count = 0 ∨ img.count > 200000 then none
      else some img.tables := by
  obtain ⟨seg, hphdrs, hmin, hvaddr, hsz⟩ := img.scanPhdrs_spec
  obtain ⟨dyn, hdyns, hsymtab, hstrtab, hsyment⟩ := img.scanDynamic_spec
  have hfound : ¬ (img.symtab = 0 ∨ img.strtab = 0 ∨ 24 = 0) := by
    have hsym := img.symtab_ne_zero
    have hstr := img.strtab_ne_zero
    omega
  have hload : u64Sub base (if img.minVaddr = 2 ^ 64 - 1 then 0 else img.minVaddr) = img.bias := by
    rw [if_neg (Nat.ne_of_lt img.minVaddr_lt)]
    rfl
  simp only [tables?, img.peek_ehdr, img.ident, hphdrs, hmin, hvaddr, hsz, hload, hdyns, hsymtab, hstrtab,
    hsyment, if_neg img.dynamic_vaddr, if_neg hfound, ne_eq, not_true_eq_false, if_false]
  by_cases hle : img.strAddr ≤ img.symAddr
  · exact (if_pos hle).trans (if_pos (Or.inl hle)).symm
  · refine (if_neg hle).trans ?_
    by_cases hcount : img.count = 0 ∨ img.count > 200000
    · exact (if_pos hcount).trans (if_pos (Or.inr hcount)).symm
    · exact (if_neg hcount).trans (if_neg (not_or.2 ⟨hle, hcount⟩)).symm

end ElfImage

/-! ## What is visited -/

/-- At least a letter, and `.kd`. -/
def KdName (name : Bytes) : Prop := 4 ≤ name.length ∧ str ".kd" <:+ name

/-- The name without its last three letters. -/
def stem (name : Bytes) : Bytes := name.take (name.length - 3)

theorem stem_append (name : Bytes) : stem (name ++ str ".kd") = name := by
  have hlen : (name ++ str ".kd").length - 3 = name.length := by
    rw [List.length_append]
    exact Nat.add_sub_cancel name.length 3
  rw [stem, hlen, List.take_left]

theorem stem_append_kd {name : Bytes} (h : KdName name) : stem name ++ str ".kd" = name := by
  obtain ⟨first, rfl⟩ := h.2
  rw [stem_append]

theorem kdName_iff {name : Bytes} :
    KdName name ↔ ¬ name.length < 4 ∧ name.drop (name.length - 3) = str ".kd" := by
  rw [KdName, Nat.not_lt]
  refine and_congr_right (fun _ => ?_)
  constructor
  · intro hsuffix
    exact (List.suffix_iff_eq_drop.1 hsuffix).symm
  · intro hdrop
    exact hdrop ▸ List.drop_suffix _ _

namespace ElfImage

variable {m : MemReader} {base : Nat} (img : ElfImage m base)

/-- The loop gets to the `i`-th group. -/
def Reached (i : Nat) : Prop :=
  i < img.count ∧ img.count ≤ 200000 ∧ ∀ j ≤ i, (img.sym? j).isSome = true

/-- What can be read of its name makes it a kernel symbol. -/
structure ReadsAsKernel (sym : Sym) : Prop where
  name_ne_zero : sym.name ≠ 0
  value_ne_zero : sym.value ≠ 0
  kdName : KdName (cutName m (img.nameAddr sym))

variable (demangle : Bytes → Bytes)

/-- What is registered for it. -/
def registered (sym : Sym) : Nat × Bytes :=
  (img.runtime sym, demangle (stem (cutName m (img.nameAddr sym))))

theorem kdSymbol?_eq_some_iff {sym : Sym} {p : Nat × Bytes} :
    kdSymbol? demangle m img.tables sym = some p ↔
      img.ReadsAsKernel sym ∧ p = img.registered demangle sym := by
  have hname : peekStr m (u64 (img.tables.strtab + sym.name)) = cutName m (img.nameAddr sym) :=
    peekStr_eq m _
  simp only [kdSymbol?, hname]
  constructor
  · intro h
    split at h
    · cases h
    · next hzero =>
        obtain ⟨hname0, hvalue0⟩ := not_or.1 hzero
        split at h
        · cases h
        · next hlen =>
            split at h
            · cases h
            · next hkd =>
                refine ⟨⟨hname0, hvalue0, kdName_iff.2 ⟨hlen, not_not.1 hkd⟩⟩, ?_⟩
                exact (Option.some.inj h).symm
  · rintro ⟨hreads, rfl⟩
    obtain ⟨hlen, hkd⟩ := kdName_iff.1 hreads.kdName
    rw [if_neg (not_or.2 ⟨hreads.name_ne_zero, hreads.value_ne_zero⟩), if_neg hlen,
      if_neg (not_not.2 hkd)]
    rfl

/-- **What is visited**: the groups of 24 bytes between the two tables that read as kernel symbols. -/
theorem mem_imageSymbols {p : Nat × Bytes} :
    p ∈ imageSymbols demangle m base ↔
      ∃ i, img.Reached i ∧ ∃ sym, img.sym? i = some sym ∧ img.ReadsAsKernel sym ∧
        p = img.registered demangle sym := by
  have hscan : p ∈ scanSymbols demangle m img.tables img.count 0 ↔
      ∃ i < img.count, (∀ j ≤ i, (img.sym? j).isSome = true) ∧
        ∃ sym, img.sym? i = some sym ∧ img.ReadsAsKernel sym ∧ p = img.registered demangle sym := by
    rw [mem_scanSymbols]
    simp only [Nat.zero_add, kdSymbol?_eq_some_iff]
    rfl
  rw [imageSymbols, img.tables?_eq]
  by_cases hgive : img.strAddr ≤ img.symAddr ∨ img.count = 0 ∨ img.count > 200000
  · rw [if_pos hgive]
    refine ⟨fun h => absurd h List.not_mem_nil, ?_⟩
    rintro ⟨i, ⟨hi, hcount, -⟩, -⟩
    have hzero : img.strAddr ≤ img.symAddr → img.count = 0 := by
      intro hle
      rw [count, Nat.sub_eq_zero_of_le hle]
    omega
  · rw [if_neg hgive]
    refine hscan.trans ?_
    simp only [not_or, Nat.not_lt, gt_iff_lt] at hgive
    constructor
    · rintro ⟨i, hi, hread, hsym⟩
      exact ⟨i, ⟨hi, hgive.2.2, hread⟩, hsym⟩
    · rintro ⟨i, ⟨hi, -, hread⟩, hsym⟩
      exact ⟨i, hi, hread, hsym⟩

/-! ## Phantoms -/

/-- The address and the name of one of the first `n` entries of the symbol table. -/
def IsKernel (n : Nat) (p : Nat × Bytes) : Prop :=
  ∃ i < n, ∃ sym, img.sym? i = some sym ∧
    ∃ name, CString m (img.nameAddr sym) (name ++ str ".kd") ∧ p = (img.runtime sym, demangle name)

/-- A kernel of the symbol table, under its whole name. -/
structure Kernel (i : Nat) (sym : Sym) (name : Bytes) : Prop where
  sym_eq : img.sym? i = some sym
  name_ne_zero : sym.name ≠ 0
  value_ne_zero : sym.value ≠ 0
  cString : CString m (img.nameAddr sym) name
  kdName : KdName name

variable {img} in
theorem value_lt {i : Nat} {sym : Sym} (h : img.sym? i = some sym) : sym.value < 2 ^ 64 := by
  obtain ⟨raw, -, rfl⟩ := Option.map_eq_some_iff.1 h
  exact leNat_lt raw 8 8

variable {img} in
/-- Symbols of one image are at the same address only if they have the same value. -/
theorem runtime_inj {i j : Nat} {sym sym' : Sym} (h : img.sym? i = some sym)
    (h' : img.sym? j = some sym') : img.runtime sym = img.runtime sym' ↔ sym.value = sym'.value := by
  have hlt := value_lt h
  have hlt' := value_lt h'
  constructor
  · intro heq
    unfold runtime u64 at heq
    omega
  · intro heq
    rw [runtime, runtime, heq]

theorem find?_scanImage_isSome {k : Nat} :
    ((scanImage demangle m base {}).cache.find? k).isSome = true ↔
      ∃ p ∈ imageSymbols demangle m base, p.1 = k := by
  have hscan := KernelSymbolResolver.Reflects.empty.scanCodeObjects
    { ProcMem.ofBytes fun _ => 0 with codeObjects := imageSymbols demangle m base }
  have hcache : (scanImage demangle m base {}).cache.find? k =
      KernelSymbolResolver.lastName (imageSymbols demangle m base) k := by
    refine (hscan.cache k).trans ?_
    rw [List.nil_append, Option.or_none]
  rw [hcache, Option.isSome_iff_ne_none, Ne, KernelSymbolResolver.lastName_eq_none_iff]
  simp

end ElfImage

/-! ## A small image

Two program headers, four dynamic entries, a symbol table with a null entry and the kernel `ab`, 24 bytes
of something else, and the string table. -/

def smallPhdrs : List Phdr := [⟨kPtLoad, 0, 1024⟩, ⟨kPtDynamic, 176, 64⟩]

def smallDyns : List Dyn := [⟨kDtSymtab, 240⟩, ⟨kDtStrtab, 312⟩, ⟨kDtSyment, 24⟩]

/-- The fields that are not zero: offset in the image and little-endian value. -/
def smallFields : List (Nat × Nat) :=
  [(0, 0x464c457f), (18, kEmAmdgpu), (32, 64), (56, 2),
    -- Program headers, from 64 on.
    (64, kPtLoad), (104, 1024), (120, kPtDynamic), (136, 176), (160, 64),
    -- Dynamic entries, from 176 on.
    (176, kDtSymtab), (184, 240), (192, kDtStrtab), (200, 312), (208, kDtSyment), (216, 24),
    -- Symbols, from 240 on, and the name `ab.kd`.
    (264, 1), (272, 0x400), (288, 1), (296, 3), (313, 0x646b2e6261)]

/-- The image at `0x10000`, with `more` readable bytes behind its 319 bytes. -/
def smallMemory (more : Nat) : MemReader where
  byte a :=
    match smallFields.find? (fun f => 0x10000 + f.1 ≤ a && a < 0x10000 + f.1 + 8) with
    | some f => UInt8.ofNat (f.2 >>> (8 * (a - (0x10000 + f.1))))
    | none => 0
  readable a := decide (0x10000 ≤ a ∧ a < 0x10000 + 319 + more ∧ a < 2 ^ 64)
  readable_fits _ h := (of_decide_eq_true h).2.2

/-- Once with a page behind it, once at the end of its mapping. -/
def smallImage (page : Bool) : ElfImage (smallMemory (if page then 4096 else 0)) 0x10000 where
  ehdr := ⟨kElfMag, 64, 2⟩
  phdrs := smallPhdrs
  minVaddr := 0
  dynamic := ⟨kPtDynamic, 176, 64⟩
  dyns := smallDyns
  symtab := 240
  strtab := 312
  peek_ehdr := by cases page <;> decide +kernel
  ident := rfl
  length_phdrs := rfl
  peek_phdrs := by cases page <;> decide +kernel
  load_minVaddr := by decide
  minVaddr_le := by decide
  minVaddr_lt := by decide
  dynamic_mem := by decide
  dynamic_type := rfl
  dynamic_unique := by decide
  dynamic_vaddr := by decide
  peek_dyns := by cases page <;> decide +kernel
  dyns_ne_null := by decide
  dyns_end := by cases page <;> decide +kernel
  symtab_mem := by decide
  symtab_unique := by decide
  symtab_ne_zero := by decide
  strtab_mem := by decide
  strtab_unique := by decide
  strtab_ne_zero := by decide
  syment_mem := by decide
  syment_unique := by decide

namespace ElfImage

theorem kernel_smallImage (page : Bool) : (smallImage page).Kernel 1 ⟨1, 0x400⟩ (str "ab.kd") where
  sym_eq := by cases page <;> decide +kernel
  name_ne_zero := by decide
  value_ne_zero := by decide
  cString :=
    { byte := by cases page <;> decide +kernel
      nul := by cases page <;> decide +kernel
      notMem := by decide
      readable := by cases page <;> decide +kernel }
  kdName := by
    rw [kdName_iff]
    decide

end ElfImage

end HsaSnoop
