import Bip360Enforcer.Validator.Lemmas.BlockIndex

/-!
# The index reader undoes the node's writer
-/

namespace Bip360Enforcer.Validator

/-! ## Numbers -/

theorem readVarint_eq_ok {bytes rest : Bytes} {n : UInt64} :
    readVarint bytes = (.ok n, rest) ↔ bytes = Core.writeVarint n ++ rest := by
  constructor
  · intro h
    cases hread : Varint.read 0 bytes with
    | none =>
        obtain ⟨e, left, herror⟩ := readVarint_of_none hread
        rw [herror] at h
        cases h
    | some result =>
        obtain ⟨v, rest'⟩ := result
        by_cases hv : v < 2 ^ 64
        · rw [readVarint_of_lt hread hv] at h
          cases h
          rw [writeVarint_eq, UInt64.toNat_ofNat_of_lt' hv]
          exact Varint.eq_write_of_read hread
        · obtain ⟨e, left, herror⟩ := readVarint_of_ge hread (Nat.le_of_not_lt hv)
          rw [herror] at h
          cases h
  · rintro rfl
    exact readVarint_append n rest

theorem readVarint_eq_error {bytes : Bytes} :
    (∃ e, (readVarint bytes).1 = .error e) ↔
      Varint.Inside bytes ∨ ∃ v rest, 2 ^ 64 ≤ v ∧ bytes = Varint.write v ++ rest := by
  rw [Varint.inside_iff]
  constructor
  · rintro ⟨e, herror⟩
    cases hread : Varint.read 0 bytes with
    | none => exact .inl rfl
    | some result =>
        obtain ⟨v, rest⟩ := result
        by_cases hv : v < 2 ^ 64
        · rw [readVarint_of_lt hread hv] at herror
          cases herror
        · exact .inr ⟨v, rest, Nat.le_of_not_lt hv, Varint.eq_write_of_read hread⟩
  · rintro (hread | ⟨v, rest, hv, rfl⟩)
    · obtain ⟨e, left, herror⟩ := readVarint_of_none hread
      exact ⟨e, congrArg Prod.fst herror⟩
    · obtain ⟨e, left, herror⟩ := readVarint_of_ge (Varint.read_write v rest) hv
      exact ⟨e, congrArg Prod.fst herror⟩

theorem writeVarint_injective : Function.Injective Core.writeVarint := by
  intro n m h
  rw [writeVarint_eq, writeVarint_eq] at h
  exact UInt64.toNat_inj.mp (Varint.write_injective h)

/-- The reader accepts exactly what the writer writes, and fails exactly where the bytes end inside a
number or the number is too large; no shift, addition or increment on the way overflows. -/
theorem readVarint_inverts (n : UInt64) (bytes rest : Bytes) :
    readVarint (Core.writeVarint n ++ rest) = (.ok n, rest) ∧
    (readVarint bytes = (.ok n, rest) ↔ bytes = Core.writeVarint n ++ rest) ∧
    Core.writeVarint n = Varint.write n.toNat ∧ Function.Injective Core.writeVarint ∧
    ((∃ e, (readVarint bytes).1 = .error e) ↔
      Varint.Inside bytes ∨ ∃ v left, 2 ^ 64 ≤ v ∧ bytes = Varint.write v ++ left) ∧
    MayPanic.Refines id (readVarintExact bytes) (readVarint bytes).1 :=
  ⟨readVarint_append n rest, readVarint_eq_ok, writeVarint_eq n, writeVarint_injective,
    readVarint_eq_error, readVarintExactFrom_refines 0 bytes⟩

/-! ## Entries -/

section

variable (entry : Core.BlockIndex)

/-- The entry as the decoder is to have it. -/
def Core.BlockIndex.decoded : CDiskBlockIndex where
  version := entry.version
  height := entry.height
  status := ⟨entry.status⟩
  txCount := entry.txCount
  fileNumber := if entry.hasFile then some entry.file else none
  dataPos := if entry.hasData then some entry.dataPos else none
  undoPos := if entry.hasUndo then some entry.undoPos else none
  blockVersion := (Header.deserialize entry.header).version.toUInt32
  prevBlockHash := (Header.deserialize entry.header).prevBlockhash
  merkleRoot := (Header.deserialize entry.header).merkleRoot
  timestamp := (Header.deserialize entry.header).time
  difficultyTarget := (Header.deserialize entry.header).bits
  nonce := (Header.deserialize entry.header).nonce

theorem hasData_iff : (⟨entry.status⟩ : BlockStatus).hasData = true ↔ entry.hasData :=
  decide_eq_true_iff

theorem hasUndo_iff : (⟨entry.status⟩ : BlockStatus).hasUndo = true ↔ entry.hasUndo :=
  decide_eq_true_iff

theorem hasFile_iff :
    ((⟨entry.status⟩ : BlockStatus).hasData || (⟨entry.status⟩ : BlockStatus).hasUndo) = true ↔
      entry.hasFile := by
  have hbits : entry.status &&& (8 ||| 16) = entry.status &&& 8 ||| entry.status &&& 16 := by
    rw [← UInt32.toBitVec_inj]
    exact BitVec.and_or_distrib_left
  rw [Bool.or_eq_true, hasData_iff, hasUndo_iff, Core.BlockIndex.hasFile, hbits, ne_eq,
    UInt32.or_eq_zero_iff, not_and_or]
  rfl

theorem readFile_append (rest : Bytes) :
    (UInt64.toUInt32 <$> readVarint) (Core.writeVarint entry.file.toUInt64 ++ rest) =
      (.ok entry.file, rest) := by
  rw [map_apply UInt64.toUInt32 (readVarint_append entry.file.toUInt64 rest),
    UInt32.toUInt32_toUInt64]

/-- For every entry and whatever follows it, the decoder gives the entry back, with the file number and
the positions that the status says were written, and reads no further. -/
theorem deserialize_entry (rest : Bytes) :
    CDiskBlockIndex.deserialize (entry.serialize ++ rest) = (.ok entry.decoded, rest) ∧
    entry.decoded.header = .deserialize entry.header ∧
    entry.decoded.header.serialize = entry.header := by
  have hheader := Header.serialize_deserialize entry.header_length
  have hprev : (Header.deserialize entry.header).prevBlockhash.length = 32 := by
    simp [Header.deserialize, entry.header_length]
  have hroot : (Header.deserialize entry.header).merkleRoot.length = 32 := by
    simp [Header.deserialize, entry.header_length]
  refine ⟨?_, rfl, hheader⟩
  rw [CDiskBlockIndex.deserialize, Core.BlockIndex.serialize, ← hheader, Header.serialize]
  simp only [List.append_assoc, Program.bind_apply, readVarint_append, UInt32.toUInt32_toUInt64,
    readWhen_append (hasFile_iff entry) (readFile_append entry _),
    readWhen_append (hasData_iff entry) (readVarint_append _ _),
    readWhen_append (hasUndo_iff entry) (readVarint_append _ _),
    readUint32_append, readUint256_append hprev, readUint256_append hroot, Program.pure_apply]
  rfl

end

end Bip360Enforcer.Validator
