import HsaSnoop.Model.Sdma

set_option autoImplicit false

/-! # Agreement of the SDMA tables

The length of a packet, the name of its opcode and the name of its copy sub-opcode come from tables
that are written down separately. Here they are compared: a header with a length has a name, and the
v6 and v7 tables differ in the length of two copy layouts only. -/

namespace HsaSnoop.Sdma

/-! ## Lengths and windows -/

theorem broadcastCopyPacketLen_le (sub : Option CopySubOp) : broadcastCopyPacketLen sub ≤ 16 := by
  unfold broadcastCopyPacketLen
  split <;> omega

theorem copyPacketLenV4_le (header : UInt32) : copyPacketLenV4 header ≤ 20 := by
  have hbroadcast := broadcastCopyPacketLen_le (CopySubOp.ofByte? (headerSubOp header))
  unfold copyPacketLenV4
  simp only
  split
  · omega
  · split <;> omega

theorem copyPacketLenV6_le (header : UInt32) : copyPacketLenV6 header ≤ 20 := by
  have hbroadcast := broadcastCopyPacketLen_le (CopySubOp.ofByte? (headerSubOp header))
  unfold copyPacketLenV6
  simp only
  split
  · omega
  · split <;> omega

theorem copyPacketLenV7_le (header : UInt32) : copyPacketLenV7 header ≤ 20 := by
  have hbroadcast := broadcastCopyPacketLen_le (CopySubOp.ofByte? (headerSubOp header))
  have hv6 := copyPacketLenV6_le header
  unfold copyPacketLenV7
  simp only
  split_ifs <;> omega

theorem pollPacketLen_le (version : Version) (sub : UInt8) : pollPacketLen version sub ≤ 13 := by
  unfold pollPacketLen
  split <;> first | omega | (split <;> omega)

theorem ptePdePacketLen_le (version : Version) (sub : UInt8) : ptePdePacketLen version sub ≤ 8 := by
  unfold ptePdePacketLen
  split <;> first | omega | (split <;> omega)

theorem nopCount_lt (dw0 : UInt32) : nopCount dw0 < 2 ^ 14 := by
  have hmask := @Nat.and_le_right (dw0 >>> 16).toNat 0x3FFF
  have hval : nopCount dw0 = (dw0 >>> 16).toNat &&& 0x3FFF := by simp [nopCount]
  omega

theorem writeCount_lt (countDw : UInt32) : (countDw &&& kWriteCountMask20).toNat < 2 ^ 20 := by
  have hmask := @Nat.and_le_right countDw.toNat 0xFFFFF
  have hval : (countDw &&& kWriteCountMask20).toNat = countDw.toNat &&& 0xFFFFF := by
    simp [kWriteCountMask20]
  omega

/-- **Lengths are bounded** by that of the longest `WRITE`. -/
theorem packetLenDwords_le (version : Version) (dw : Nat → UInt32) (n : Nat) :
    packetLenDwords version dw n ≤ 2 ^ 20 + 4 := by
  have hnop := nopCount_lt (dw 0)
  have hwrite := writeCount_lt (dw 3)
  have hv4 := copyPacketLenV4_le (dw 0)
  have hv6 := copyPacketLenV6_le (dw 0)
  have hv7 := copyPacketLenV7_le (dw 0)
  have hpoll := pollPacketLen_le version (headerSubOp (dw 0))
  have hptepde := ptePdePacketLen_le version (headerSubOp (dw 0))
  simp only [packetLenDwords]
  split
  · omega
  · split
    · omega
    · split <;> first | omega | (split_ifs <;> omega)

/-- No dword outside the window matters. -/
theorem packetLenDwords_window (version : Version) {dw dw' : Nat → UInt32} {n : Nat}
    (h : ∀ i, i < n → dw i = dw' i) :
    packetLenDwords version dw n = packetLenDwords version dw' n := by
  by_cases hn : 1 ≤ n
  · refine packetLenDwords_congr version (h 0 hn) hn hn ?_
    by_cases h4 : 4 ≤ n
    · exact Or.inl ⟨h4, h4, h 3 h4⟩
    · exact Or.inr ⟨by omega, by omega⟩
  · have hlt : n < 1 := by omega
    simp only [packetLenDwords, hlt, if_true]

/-- Four dwords show every length. -/
theorem packetLenDwords_of_four (version : Version) {dw dw' : Nat → UInt32} {n n' : Nat}
    (h4 : 4 ≤ n) (hnn' : n ≤ n') (hpre : ∀ i, i < n → dw i = dw' i) :
    packetLenDwords version dw' n' = packetLenDwords version dw n :=
  packetLenDwords_congr version (hpre 0 (by omega)).symm (by omega) (by omega)
    (Or.inl ⟨by omega, h4, (hpre 3 h4).symm⟩)

/-! ## Lengths and names -/

/-- A packet with a length is of a supported version and has a header to read. -/
theorem supported_of_len {version : Version} {dw : Nat → UInt32} {n : Nat}
    (h : packetLenDwords version dw n ≠ 0) : isSupportedVersion version = true ∧ 1 ≤ n := by
  simp only [packetLenDwords] at h
  split at h
  · exact absurd rfl h
  · next hsup =>
      split at h
      · exact absurd rfl h
      · next hn => exact ⟨by simpa using hsup, by omega⟩

theorem supported_cases {version : Version} (h : isSupportedVersion version = true) :
    version = .v4 ∨ isV6OrV7 version = true := by
  cases version <;> simp [isSupportedVersion, isV6OrV7] at h ⊢

/-- **An opcode with a length has a name.** -/
theorem opName_of_len {version : Version} {dw : Nat → UInt32} {n : Nat}
    (h : packetLenDwords version dw n ≠ 0) :
    opName version (headerOp (dw 0)) ≠ str "unknown" ∧
      ¬ str "copy_unknown" <+: opName version (headerOp (dw 0)) := by
  obtain ⟨hsup, hn⟩ := supported_of_len h
  have hpos : ¬ n < 1 := by omega
  simp only [packetLenDwords, hsup, hpos, Bool.not_true, Bool.false_eq_true, if_false] at h
  unfold opName
  cases hop : Op.ofByte? (headerOp (dw 0)) with
  | none => exact absurd (by simp only [hop]) h
  | some op =>
      cases op with
      | versionSpecific16 =>
          rcases supported_cases hsup with rfl | h67
          · decide
          · simp only [h67, if_true]
            split <;> decide
      | gcrReq =>
          simp only [hop] at h
          by_cases h67 : isV6OrV7 version = true
          · simp only [h67, if_true]
            decide
          · exact absurd (if_neg h67) h
      | v6DummyTrap =>
          simp only [hop] at h
          by_cases h67 : isV6OrV7 version = true
          · simp only [h67, if_true]
            decide
          · exact absurd (if_neg h67) h
      | _ =>
          simp only
          decide

/-- **A copy with a length has a named sub-opcode.** -/
theorem copySubOpName_of_len {version : Version} {dw : Nat → UInt32} {n : Nat}
    (hop : Op.ofByte? (headerOp (dw 0)) = some .copy) (h : packetLenDwords version dw n ≠ 0) :
    ∀ suffix ∈ [[], str "_broadcast"],
      str "copy_" ++ copySubOpName version (headerSubOp (dw 0)) ++ suffix ≠ str "unknown" ∧
      ¬ str "copy_unknown" <+:
        str "copy_" ++ copySubOpName version (headerSubOp (dw 0)) ++ suffix := by
  obtain ⟨hsup, hn⟩ := supported_of_len h
  have hpos : ¬ n < 1 := by omega
  simp only [packetLenDwords, hsup, hpos, hop, Bool.not_true, Bool.false_eq_true, if_false] at h
  cases hsub : CopySubOp.ofByte? (headerSubOp (dw 0)) with
  | none =>
      -- No version gives an unknown sub-opcode a length.
      have hbc : headerBroadcast (dw 0) = false := by simp [headerBroadcast, hsub]
      refine absurd ?_ h
      simp only [copyPacketLenV4, copyPacketLenV6, copyPacketLenV7, hsub, hbc, Bool.false_eq_true,
        if_false, reduceCtorEq, or_self, ite_self]
  | some sub =>
      simp only [copySubOpName, hsub]
      rcases supported_cases hsup with rfl | h67
      · -- The sub-opcodes that v6 added have no v4 length.
        cases sub <;> first
          | decide
          | (refine absurd ?_ h
             simp [copyPacketLenV4, hsub, headerBroadcast])
      · simp only [h67, if_true]
        cases sub <;> decide

/-! ## Linear copies -/

theorem linearCopyBytes_bounds {version : Version} {subOp : UInt8}
    (h : isLinearCopy version subOp = true) (countDw : UInt32) :
    1 ≤ linearCopyBytes version subOp countDw ∧
      linearCopyBytes version subOp countDw ≤ 2 ^ 30 := by
  have h22 := @Nat.and_le_right countDw.toNat 0x3FFFFF
  have h30 := @Nat.and_le_right countDw.toNat 0x3FFFFFFF
  simp only [linearCopyBytes, h, Bool.not_true, Bool.false_eq_true, if_false]
  split
  · have hval : (countDw &&& kLinearCopyCountMask30).toNat = countDw.toNat &&& 0x3FFFFFFF := by
      simp [kLinearCopyCountMask30]
    omega
  · have hval : (countDw &&& kLinearCopyCountMask22).toNat = countDw.toNat &&& 0x3FFFFF := by
      simp [kLinearCopyCountMask22]
    omega

/-! ## v6 against v7 -/

theorem opName_v6_v7 (op : UInt8) : opName .v6 op = opName .v7 op := rfl

theorem copySubOpName_v6_v7 (subOp : UInt8) : copySubOpName .v6 subOp = copySubOpName .v7 subOp := rfl

theorem isLinearCopy_v6_v7 (subOp : UInt8) : isLinearCopy .v6 subOp = isLinearCopy .v7 subOp := rfl

theorem linearCopyBytes_v6_v7 (subOp : UInt8) (countDw : UInt32) :
    linearCopyBytes .v6 subOp countDw = linearCopyBytes .v7 subOp countDw := rfl

/-- The header of a `COPY_LINEAR` packet without the broadcast bit, the layout v7 changes. -/
def isPlainLinear (header : UInt32) : Bool :=
  Op.ofByte? (headerOp header) = some .copy &&
    CopySubOp.ofByte? (headerSubOp header) = some .linear && !headerBroadcast header

/-- The header of a `COPY_LINEAR_BC` packet. -/
def isLinearBc (header : UInt32) : Bool :=
  Op.ofByte? (headerOp header) = some .copy &&
    CopySubOp.ofByte? (headerSubOp header) = some .linearBc

/-- **Outside the two layouts v6 and v7 have the same lengths.** -/
theorem packetLenDwords_v6_v7 {dw : Nat → UInt32} (hlinear : isPlainLinear (dw 0) = false)
    (hbc : isLinearBc (dw 0) = false) (n : Nat) :
    packetLenDwords .v6 dw n = packetLenDwords .v7 dw n := by
  have hcopy : Op.ofByte? (headerOp (dw 0)) = some .copy →
      copyPacketLenV6 (dw 0) = copyPacketLenV7 (dw 0) := by
    intro hop
    simp only [isPlainLinear, isLinearBc, hop, decide_true, Bool.true_and, Bool.and_eq_false_iff,
      decide_eq_false_iff_not, Bool.not_eq_false'] at hlinear hbc
    unfold copyPacketLenV7
    simp only
    split
    · next hbroadcast => simp [copyPacketLenV6, hbroadcast]
    · next hbroadcast =>
        rw [if_neg]
        rintro (hsub | hsub)
        · exact hlinear.elim (fun hne => hne hsub) hbroadcast
        · exact hbc hsub
  simp only [packetLenDwords]
  cases hop : Op.ofByte? (headerOp (dw 0)) with
  | none => rfl
  | some op =>
      cases op with
      | copy =>
          have hlen := hcopy hop
          simp [isSupportedVersion, hlen]
      | _ => rfl

/-- The v7 table makes a `COPY_LINEAR_BC` packet one dword longer, too. -/
theorem packetLenDwords_linearBc {dw : Nat → UInt32} (h : isLinearBc (dw 0) = true) {n : Nat}
    (hn : 1 ≤ n) : packetLenDwords .v6 dw n = 7 ∧ packetLenDwords .v7 dw n = 8 := by
  have hpos : ¬ n < 1 := by omega
  simp only [isLinearBc, Bool.and_eq_true, decide_eq_true_eq] at h
  obtain ⟨hop, hsub⟩ := h
  have hbroadcast : headerBroadcast (dw 0) = false := by simp [headerBroadcast, hsub]
  simp [packetLenDwords, isSupportedVersion, hpos, hop, copyPacketLenV6, copyPacketLenV7, hsub,
    hbroadcast]

/-- A `COPY_LINEAR` packet is longer in v7 as documented. -/
theorem packetLenDwords_plainLinear {dw : Nat → UInt32} (h : isPlainLinear (dw 0) = true) {n : Nat}
    (hn : 1 ≤ n) : packetLenDwords .v6 dw n = 7 ∧ packetLenDwords .v7 dw n = 8 := by
  have hpos : ¬ n < 1 := by omega
  simp only [isPlainLinear, Bool.and_eq_true, decide_eq_true_eq, Bool.not_eq_true'] at h
  obtain ⟨⟨hop, hsub⟩, hbroadcast⟩ := h
  simp [packetLenDwords, isSupportedVersion, hpos, hop, copyPacketLenV6, copyPacketLenV7, hsub,
    hbroadcast]

/-- The length of a packet is the same under v6 and v7, or 7 and 8. -/
theorem packetLenDwords_v7_cases (dw : Nat → UInt32) {n : Nat} (hn : 1 ≤ n) :
    packetLenDwords .v7 dw n = packetLenDwords .v6 dw n ∨
      (packetLenDwords .v6 dw n = 7 ∧ packetLenDwords .v7 dw n = 8) := by
  cases hlinear : isPlainLinear (dw 0) with
  | true => exact Or.inr (packetLenDwords_plainLinear hlinear hn)
  | false =>
      cases hbc : isLinearBc (dw 0) with
      | true => exact Or.inr (packetLenDwords_linearBc hbc hn)
      | false => exact Or.inl (packetLenDwords_v6_v7 hlinear hbc n).symm

end HsaSnoop.Sdma
