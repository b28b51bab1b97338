import HsaSnoop.Model.Machine

set_option autoImplicit false

/-! # SDMA packet formats

SDMA rings carry variable-length microcode packets. The first dword of a packet is its header: the
opcode in bits 7:0, the sub-opcode in bits 15:8. `packetLenDwords` is the stride table the ring walk
rests on: the length of a packet as a function of its header and, for `WRITE`, of the count in its
fourth dword. A length of 0 means "not known". -/

namespace HsaSnoop.Sdma

/-! ## Generations -/

/-- SDMA generation. v4, v6 and v7 are decoded; v5 and unknown generations fail closed. -/
inductive Version
  | unknown
  | v4
  | v5
  | v6
  | v7
  deriving DecidableEq, Repr

def versionName : Version → Bytes
  | .v4 => str "v4"
  | .v5 => str "v5"
  | .v6 => str "v6"
  | .v7 => str "v7"
  | .unknown => str "unknown"

def isSupportedVersion (version : Version) : Bool :=
  version = .v4 || version = .v6 || version = .v7

/-- `version == V6 || version == V7`, the test that gates every v6 addition. -/
def isV6OrV7 (version : Version) : Bool := version = .v6 || version = .v7

def versionFromGfxTarget (gfxTargetVersion : Nat) : Version :=
  match gfxTargetVersion / 10000 with
  | 9 => .v4
  | 10 => .v5
  | 11 => .v6
  | 12 => .v7
  | _ => .unknown

/-- The published ring pointers are byte offsets; packets are walked in dwords. -/
def ringBytesToDwords (byteOffset : Nat) : Nat := byteOffset / 4

/-! ## Opcodes -/

/-- `SDMA_OP_*`, the low 8 bits of the header dword. -/
inductive Op
  | nop
  | copy
  | write
  | indirect
  | fence
  | trap
  | sem
  | pollRegmem
  | condExe
  | atomic
  | constFill
  | ptepde
  | timestamp
  | srbmWrite
  | preExe
  /-- Opcode 16 is `DUMMY_TRAP` on v4 and `GPUVM_INV` on v6. -/
  | versionSpecific16
  | gcrReq
  | v6DummyTrap
  deriving DecidableEq, Repr

/-- The enumerator a byte stands for; the other bytes are unrecognised opcodes. -/
def Op.ofByte? (b : UInt8) : Option Op :=
  match b.toNat with
  | 0 => some .nop
  | 1 => some .copy
  | 2 => some .write
  | 4 => some .indirect
  | 5 => some .fence
  | 6 => some .trap
  | 7 => some .sem
  | 8 => some .pollRegmem
  | 9 => some .condExe
  | 10 => some .atomic
  | 11 => some .constFill
  | 12 => some .ptepde
  | 13 => some .timestamp
  | 14 => some .srbmWrite
  | 15 => some .preExe
  | 16 => some .versionSpecific16
  | 17 => some .gcrReq
  | 32 => some .v6DummyTrap
  | _ => none

/-- `SDMA_SUBOP_COPY_*`, header bits 15:8 when the opcode is `COPY`. -/
inductive CopySubOp
  | linear
  | tiled
  | soa
  | linearSubWind
  | tiledSubWind
  | t2tSubWind
  | dirtyPage
  | linearPhy
  | linearBc
  | tiledBc
  | linearSubWindBc
  | tiledSubWindBc
  | t2tSubWindBc
  | linearSubWindLarge
  deriving DecidableEq, Repr

def CopySubOp.ofByte? (b : UInt8) : Option CopySubOp :=
  match b.toNat with
  | 0 => some .linear
  | 1 => some .tiled
  | 3 => some .soa
  | 4 => some .linearSubWind
  | 5 => some .tiledSubWind
  | 6 => some .t2tSubWind
  | 7 => some .dirtyPage
  | 8 => some .linearPhy
  | 16 => some .linearBc
  | 17 => some .tiledBc
  | 20 => some .linearSubWindBc
  | 21 => some .tiledSubWindBc
  | 22 => some .t2tSubWindBc
  | 36 => some .linearSubWindLarge
  | _ => none

/-! ## The header dword -/

def headerOp (dw0 : UInt32) : UInt8 := (dw0 &&& 0xFF).toUInt8

def headerSubOp (dw0 : UInt32) : UInt8 := ((dw0 >>> 8) &&& 0xFF).toUInt8

/-- Only the `LINEAR` and `TILED` copy headers define bit 27 as `broadcast`. -/
def headerBroadcast (dw0 : UInt32) : Bool :=
  let sub := CopySubOp.ofByte? (headerSubOp dw0)
  if sub ≠ some .linear ∧ sub ≠ some .tiled then false
  else (dw0 &&& ((1 : UInt32) <<< 27)) != 0

/-- `NOP` carries a count of trailing dwords in bits 29:16. -/
def nopCount (dw0 : UInt32) : Nat := ((dw0 >>> 16) &&& 0x3FFF).toNat

/-! ## Linear copies -/

def kLinearCopyCountMask22 : UInt32 := 0x003FFFFF
def kLinearCopyCountMask30 : UInt32 := 0x3FFFFFFF

def isLinearCopy (version : Version) (subOp : UInt8) : Bool :=
  let sub := CopySubOp.ofByte? subOp
  (version = .v4 && sub = some .linear) ||
    (isV6OrV7 version && (sub = some .linear || sub = some .linearBc))

/-- The `COUNT` field is the byte count minus one. -/
def linearCopyBytes (version : Version) (subOp : UInt8) (countDw : UInt32) : Nat :=
  if !isLinearCopy version subOp then 0
  else
    let mask :=
      if isV6OrV7 version && CopySubOp.ofByte? subOp = some .linear then kLinearCopyCountMask30
      else kLinearCopyCountMask22
    (countDw &&& mask).toNat + 1

/-! ## Names -/

def opName (version : Version) (op : UInt8) : Bytes :=
  match Op.ofByte? op with
  | some .nop => str "nop"
  | some .copy => str "copy"
  | some .write => str "write"
  | some .indirect => str "indirect"
  | some .fence => str "fence"
  | some .trap => str "trap"
  | some .sem => str "semaphore"
  | some .pollRegmem => str "poll_regmem"
  | some .condExe => str "cond_exe"
  | some .atomic => str "atomic"
  | some .constFill => str "const_fill"
  | some .ptepde => str "ptepde"
  | some .timestamp => str "timestamp"
  | some .srbmWrite => str "srbm_write"
  | some .preExe => str "pre_exe"
  | some .versionSpecific16 =>
      if version = .v4 then str "dummy_trap"
      else if isV6OrV7 version then str "gpuvm_inv"
      else str "unknown"
  | some .gcrReq => if isV6OrV7 version then str "gcr_req" else str "unknown"
  | some .v6DummyTrap => if isV6OrV7 version then str "dummy_trap" else str "unknown"
  | none => str "unknown"

def copySubOpName (version : Version) (subOp : UInt8) : Bytes :=
  let v6Name (name : Bytes) := if isV6OrV7 version then name else str "unknown"
  match CopySubOp.ofByte? subOp with
  | some .linear => str "linear"
  | some .tiled => str "tiled"
  | some .soa => str "soa"
  | some .linearSubWind => str "linear_subwindow"
  | some .tiledSubWind => str "tiled_subwindow"
  | some .t2tSubWind => str "t2t_subwindow"
  | some .dirtyPage => str "dirty_page"
  | some .linearPhy => str "linear_physical"
  | some .linearBc => v6Name (str "linear_bc")
  | some .tiledBc => v6Name (str "tiled_bc")
  | some .linearSubWindBc => v6Name (str "linear_subwindow_bc")
  | some .tiledSubWindBc => v6Name (str "tiled_subwindow_bc")
  | some .t2tSubWindBc => v6Name (str "t2t_subwindow_bc")
  | some .linearSubWindLarge => v6Name (str "linear_subwindow_large")
  | none => str "unknown"

/-! ## Packet lengths -/

def kWriteCountMask20 : UInt32 := 0x000FFFFF

def broadcastCopyPacketLen (sub : Option CopySubOp) : Nat :=
  match sub with
  | some .linear => 9
  | some .tiled => 16
  | _ => 0

def copyPacketLenV4 (header : UInt32) : Nat :=
  let sub := CopySubOp.ofByte? (headerSubOp header)
  if headerBroadcast header then broadcastCopyPacketLen sub
  else
    match sub with
    | some .linear | some .dirtyPage | some .linearPhy => 7
    | some .soa => 8
    | some .linearSubWind | some .tiled => 13
    | some .tiledSubWind => 14
    | some .t2tSubWind => 15
    | _ => 0

def copyPacketLenV6 (header : UInt32) : Nat :=
  let sub := CopySubOp.ofByte? (headerSubOp header)
  if headerBroadcast header then broadcastCopyPacketLen sub
  else
    match sub with
    | some .linear | some .dirtyPage | some .linearPhy | some .linearBc => 7
    | some .soa => 8
    | some .linearSubWind | some .tiled | some .tiledBc | some .linearSubWindBc => 13
    | some .tiledSubWindBc => 14
    | some .t2tSubWindBc => 15
    | some .tiledSubWind => 17
    | some .t2tSubWind => 18
    | some .linearSubWindLarge => 20
    | none => 0

/-- v7 adds a DCC metadata dword to `COPY_LINEAR`; the code gives the extra dword to the `BC` layout
    as well. -/
def copyPacketLenV7 (header : UInt32) : Nat :=
  let sub := CopySubOp.ofByte? (headerSubOp header)
  if headerBroadcast header then broadcastCopyPacketLen sub
  else if sub = some .linear ∨ sub = some .linearBc then 8
  else copyPacketLenV6 header

def pollPacketLen (version : Version) (sub : UInt8) : Nat :=
  match sub.toNat with
  | 0 => 6
  | 1 => 4
  | 2 => 5
  | 3 => 13
  | 4 => if isV6OrV7 version then 4 else 0
  | _ => 0

def ptePdePacketLen (version : Version) (sub : UInt8) : Nat :=
  match sub.toNat with
  | 1 => 8
  | 2 => if version = .v4 then 7 else 8
  | 3 => 7
  | _ => 0

/-- Length in dwords of the packet at the front of `dw`, of which `navail` dwords are readable; 0
    when the opcode is unknown or `navail` is too small to determine the length. -/
def packetLenDwords (version : Version) (dw : Nat → UInt32) (navail : Nat) : Nat :=
  if !isSupportedVersion version then 0
  else if navail < 1 then 0
  else
    let dw0 := dw 0
    let sub := headerSubOp dw0
    match Op.ofByte? (headerOp dw0) with
    | some .nop => 1 + nopCount dw0
    | some .copy =>
        if version = .v4 then copyPacketLenV4 dw0
        else if version = .v7 then copyPacketLenV7 dw0
        else copyPacketLenV6 dw0
    | some .write =>
        -- header, dst_addr_lo, dst_addr_hi, count (dwords - 1), data[count + 1]
        if sub ≠ 0 ∨ navail < 4 then 0
        else 5 + (dw 3 &&& kWriteCountMask20).toNat
    | some .fence => 4
    | some .trap => 2
    | some .sem => 3
    | some .pollRegmem => pollPacketLen version sub
    | some .condExe => 5
    | some .atomic => 8
    | some .constFill => if sub = 0 then 5 else if sub = 1 then 6 else 0
    | some .ptepde => ptePdePacketLen version sub
    | some .timestamp => if sub.toNat ≤ 2 then 3 else 0
    | some .srbmWrite => 3
    | some .preExe => 2
    | some .indirect => 6
    | some .versionSpecific16 => if version = .v4 then 2 else 4
    | some .gcrReq => if isV6OrV7 version then 5 else 0
    | some .v6DummyTrap => if isV6OrV7 version then 2 else 0
    | none => 0

/-! ## What the length depends on -/

/-- **The length is read off the header dword and, for a `WRITE`, the count dword.** A window whose
    first dword agrees gives the same length as soon as the fourth dword agrees too, or neither
    window is read that far. -/
theorem packetLenDwords_congr (version : Version) {dw dw' : Nat → UInt32} {n n' : Nat}
    (h0 : dw 0 = dw' 0) (hn : 1 ≤ n) (hn' : 1 ≤ n')
    (h3 : (4 ≤ n ∧ 4 ≤ n' ∧ dw 3 = dw' 3) ∨ (n < 4 ∧ n' < 4)) :
    packetLenDwords version dw n = packetLenDwords version dw' n' := by
  have hpos : ¬ n < 1 := by omega
  have hpos' : ¬ n' < 1 := by omega
  simp only [packetLenDwords, hpos, hpos', if_false, h0]
  rcases h3 with ⟨h4, h4', hdw3⟩ | ⟨h4, h4'⟩
  · have hge : ¬ n < 4 := by omega
    have hge' : ¬ n' < 4 := by omega
    simp only [hge, hge', hdw3]
  · simp only [h4, h4', or_true, if_true]

/-- Only a `WRITE` needs its fourth dword: any other header gives the same length in every
    window. -/
theorem packetLenDwords_of_not_write (version : Version) {dw dw' : Nat → UInt32} {n n' : Nat}
    (h0 : dw 0 = dw' 0) (hn : 1 ≤ n) (hn' : 1 ≤ n')
    (hop : Op.ofByte? (headerOp (dw 0)) ≠ some .write) :
    packetLenDwords version dw n = packetLenDwords version dw' n' := by
  have hpos : ¬ n < 1 := by omega
  have hpos' : ¬ n' < 1 := by omega
  rw [h0] at hop
  simp only [packetLenDwords, hpos, hpos', if_false, h0]
  split <;> first | rfl | (split <;> first | rfl | exact absurd (by assumption) hop)

/-- A window of fewer than four dwords never shows a `WRITE`'s length. -/
theorem packetLenDwords_write_short (version : Version) {dw : Nat → UInt32} {n : Nat} (hn : n < 4)
    (hop : Op.ofByte? (headerOp (dw 0)) = some .write) : packetLenDwords version dw n = 0 := by
  simp only [packetLenDwords, hop, hn, or_true, if_true]
  split <;> first | rfl | (split <;> rfl)

/-- A `WRITE` whose length shows is at least five dwords long. -/
theorem packetLenDwords_write_ge (version : Version) {dw : Nat → UInt32} {n : Nat}
    (hop : Op.ofByte? (headerOp (dw 0)) = some .write) (hne : packetLenDwords version dw n ≠ 0) :
    5 ≤ packetLenDwords version dw n := by
  simp only [packetLenDwords, hop] at hne ⊢
  split
  · next h => simp [h] at hne
  · next h =>
      simp only [h] at hne
      split
      · next h' => simp [h'] at hne
      · next h' =>
          simp only [h', if_false] at hne
          split
          · next h'' => simp [h''] at hne
          · omega

/-- A window that is too short to name the length and one that is not differ only on a `WRITE`: a
    length once seen is the length of every longer window. -/
theorem packetLenDwords_of_prefix (version : Version) {dw dw' : Nat → UInt32} {n n' : Nat}
    (hn : 1 ≤ n) (hnn' : n ≤ n') (hpre : ∀ i, i < n → dw i = dw' i)
    (hne : packetLenDwords version dw n ≠ 0) :
    packetLenDwords version dw' n' = packetLenDwords version dw n := by
  have h0 : dw' 0 = dw 0 := (hpre 0 (by omega)).symm
  by_cases hop : Op.ofByte? (headerOp (dw 0)) = some .write
  · by_cases h4 : n < 4
    · exact absurd (packetLenDwords_write_short version h4 hop) hne
    · exact packetLenDwords_congr version h0 (by omega) hn
        (Or.inl ⟨by omega, by omega, (hpre 3 (by omega)).symm⟩)
  · exact packetLenDwords_of_not_write version h0 (by omega) hn (by rwa [h0])

/-- The packet of a linear copy reaches past its two addresses. -/
theorem packetLenDwords_linear_ge {version : Version} {dw : Nat → UInt32} {n : Nat}
    (hop : Op.ofByte? (headerOp (dw 0)) = some .copy)
    (hlin : isLinearCopy version (headerSubOp (dw 0)) = true)
    (hne : packetLenDwords version dw n ≠ 0) : 7 ≤ packetLenDwords version dw n := by
  have hsub : CopySubOp.ofByte? (headerSubOp (dw 0)) = some .linear ∨
      (version ≠ .v4 ∧ CopySubOp.ofByte? (headerSubOp (dw 0)) = some .linearBc) := by
    cases version <;> simp [isLinearCopy, isV6OrV7] at hlin ⊢ <;> tauto
  simp only [packetLenDwords, hop] at hne ⊢
  split
  · next h => simp [h] at hne
  · split
    · next h => simp [h] at hne
    · rcases hsub with hsub | ⟨hv, hsub⟩
      · simp only [copyPacketLenV4, copyPacketLenV6, copyPacketLenV7, hsub, broadcastCopyPacketLen]
        split_ifs <;> simp
      · have hbc : headerBroadcast (dw 0) = false := by simp [headerBroadcast, hsub]
        simp only [copyPacketLenV6, copyPacketLenV7, hsub, hbc, if_neg hv, Bool.false_eq_true,
          if_false]
        split_ifs <;> simp_all

end HsaSnoop.Sdma
