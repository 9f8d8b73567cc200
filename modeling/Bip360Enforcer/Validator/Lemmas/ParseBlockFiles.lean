import Bip360Enforcer.Validator.ParseBlockFiles

/-!
# Reading the bytes of a block file
-/

namespace Bip360Enforcer

open LittleEndian (encode decode decode_encode)

theorem Header.length_serialize {header : Header} (hprev : header.prevBlockhash.length = 32)
    (hroot : header.merkleRoot.length = 32) : header.serialize.length = 80 := by
  simp [Header.serialize, hprev, hroot]

theorem Header.deserialize_serialize {header : Header} (hprev : header.prevBlockhash.length = 32)
    (hroot : header.merkleRoot.length = 32) : Header.deserialize header.serialize = header := by
  have hread : ∀ n : UInt32, UInt32.ofNat (decode (encode 4 n.toNat)) = n := by
    intro n
    rw [decode_encode n.toNat_lt]
    exact UInt32.ofNat_toNat
  simp [Header.deserialize, Header.serialize, List.drop_append, hprev, hroot, hread,
    List.drop_of_length_le, List.take_of_length_le]

theorem Header.serialize_deserialize {bytes : Bytes} (h : bytes.length = 80) :
    (Header.deserialize bytes).serialize = bytes := by
  have hwrite : ∀ piece : Bytes, piece.length = 4 →
      encode 4 (UInt32.ofNat (decode piece)).toNat = piece := by
    intro piece hpiece
    have hlt := LittleEndian.decode_lt piece
    rw [hpiece] at hlt
    rw [UInt32.toNat_ofNat_of_lt' hlt]
    conv_rhs => rw [← LittleEndian.encode_decode piece, hpiece]
  have hsplit : ∀ k n, ((bytes.drop k).take n) ++ bytes.drop (k + n) = bytes.drop k := by
    intro k n
    rw [← List.drop_drop, List.take_append_drop]
  have hlast : (bytes.drop 76).take 4 = bytes.drop 76 := List.take_of_length_le (by simp [h])
  have hversion : bytes.take 4 ++ bytes.drop 4 = bytes := List.take_append_drop 4 bytes
  simp only [Header.serialize, Header.deserialize, List.append_assoc]
  rw [hwrite _ (by simp [h]), hwrite _ (by simp [h]), hwrite _ (by simp [h]), hwrite _ (by simp [h]),
    hlast, hsplit 72 4, hsplit 68 4, hsplit 36 32, hsplit 4 32, hversion]

namespace Validator

/-! ## The key -/

section

variable (key : Option XorKey) (offset : Nat)

@[simp] theorem length_applyKey (bytes : Bytes) : (applyKey key offset bytes).length = bytes.length := by
  cases key with
  | none => rfl
  | some key => simp [applyKey]

@[simp] theorem applyKey_nil : applyKey key offset [] = [] := by
  cases key <;> rfl

theorem applyKey_append (bytes rest : Bytes) :
    applyKey key offset (bytes ++ rest) =
      applyKey key offset bytes ++ applyKey key (offset + bytes.length) rest := by
  cases key with
  | none => rfl
  | some key => simp [applyKey, List.mapIdx_append, Nat.add_comm, Nat.add_left_comm]

/-- The key applied twice is gone. -/
@[simp] theorem applyKey_applyKey (bytes : Bytes) :
    applyKey key offset (applyKey key offset bytes) = bytes := by
  cases key with
  | none => rfl
  | some key =>
      apply List.ext_getElem?
      intro i
      cases h : bytes[i]? with
      | none => simp [applyKey, h]
      | some byte =>
          simp only [applyKey, List.getElem?_mapIdx, h, Option.map_some]
          rw [UInt8.xor_assoc, UInt8.xor_self, UInt8.xor_zero]

end

/-! ## Reads -/

namespace XorReader

variable {reader : XorReader} {offset : Nat}

/-- From `offset` on, the file holds these bytes under the key, and then `rest` as it is. -/
def Holds (reader : XorReader) (offset : Nat) (bytes rest : Bytes) : Prop :=
  reader.file.drop offset = applyKey reader.xorKey offset bytes ++ rest

theorem Holds.later {bytes rest : Bytes} {read : Bytes} (h : reader.Holds offset (read ++ bytes) rest) :
    reader.Holds (offset + read.length) bytes rest := by
  rw [Holds, applyKey_append, List.append_assoc] at h
  rw [Holds, ← List.drop_drop, h, List.drop_append_of_le_length (by simp)]
  simp

/-- One read gives the first bytes of those that the file holds. -/
theorem read_eq {bytes rest tail : Bytes} (hne : bytes ≠ [])
    (h : reader.Holds offset (bytes ++ rest) tail) :
    ∃ got left, got ≠ [] ∧ got ++ left = bytes ∧
      reader.read bytes.length offset = (.ok got, offset + got.length) := by
  have hpos := reader.buffered_pos offset
  have hlength := List.length_pos_iff.mpr hne
  generalize hcount : min bytes.length (reader.buffered offset) = count
  have hle : count ≤ bytes.length := by omega
  have htake : (bytes.take count).length = count := List.length_take_of_le hle
  refine ⟨bytes.take count, bytes.drop count, ?_, List.take_append_drop count bytes, ?_⟩
  · intro hnil
    rw [hnil] at htake
    simp at htake
    omega
  · rw [Holds, ← List.take_append_drop count bytes, List.append_assoc, applyKey_append,
      List.append_assoc] at h
    have hfile : (reader.file.drop offset).take count =
        applyKey reader.xorKey offset (bytes.take count) := by
      rw [h, List.take_append_of_le_length (by simp [hle]), List.take_of_length_le (by simp [hle])]
    simp [XorReader.read, hcount, hfile]

/-- What the file holds is read whole, however many bytes each single read gives. -/
theorem readExactIn_eq {fuel : Nat} {bytes rest tail : Bytes} (hfuel : bytes.length ≤ fuel)
    (h : reader.Holds offset (bytes ++ rest) tail) :
    reader.readExactIn fuel bytes.length offset = (.ok bytes, offset + bytes.length) := by
  induction fuel generalizing bytes offset with
  | zero =>
      obtain rfl : bytes = [] := List.eq_nil_of_length_eq_zero (Nat.le_zero.mp hfuel)
      rfl
  | succ fuel ih =>
      cases bytes with
      | nil => rfl
      | cons byte bytes =>
          obtain ⟨got, left, hgot, hbytes, hread⟩ := read_eq (List.cons_ne_nil byte bytes) h
          have hpos := List.length_pos_iff.mpr hgot
          have hlength : got.length + left.length = bytes.length + 1 := by
            rw [← List.length_append, hbytes, List.length_cons]
          have hleft : bytes.length + 1 - got.length = left.length := by omega
          rw [← hbytes, List.append_assoc] at h
          rw [List.length_cons] at hfuel hread ⊢
          have hrest := ih (by omega) h.later
          have hne : got.isEmpty = false := List.isEmpty_eq_false_iff.mpr hgot
          rw [XorReader.readExactIn, Program.bind_apply, hread]
          simp only [hne, Bool.false_eq_true, if_false]
          rw [Program.bind_apply, hleft, hrest, ← hlength, ← Nat.add_assoc, ← hbytes]
          rfl

theorem readExact_eq {bytes rest tail : Bytes} (h : reader.Holds offset (bytes ++ rest) tail) :
    reader.readExact bytes.length offset = (.ok bytes, offset + bytes.length) :=
  readExactIn_eq le_rfl h

/-- Too short a file ends the read. -/
theorem readExactIn_short {fuel n : Nat} (h : (reader.file.drop offset).length < n) :
    (reader.readExactIn fuel n offset).1 = .error .unexpectedEof := by
  induction fuel generalizing n offset with
  | zero =>
      cases n with
      | zero => cases h
      | succ n => rfl
  | succ fuel ih =>
      cases n with
      | zero => cases h
      | succ n =>
          generalize hgot : (reader.file.drop offset).take (min (n + 1) (reader.buffered offset)) = got
          have hread : reader.read (n + 1) offset =
              (.ok (applyKey reader.xorKey offset got), offset + got.length) := by
            simp [XorReader.read, hgot]
          rw [readExactIn, Program.bind_apply, hread]
          by_cases hempty : (applyKey reader.xorKey offset got).isEmpty
          · simp only [hempty, if_true]
            rfl
          · simp only [hempty, Bool.false_eq_true, if_false]
            have hshort : (reader.file.drop (offset + got.length)).length <
                n + 1 - (applyKey reader.xorKey offset got).length := by
              have hlength := congrArg List.length hgot
              simp at h hlength ⊢
              omega
            have hrest := ih hshort
            rw [Program.bind_apply, Program.eq_of_fst hrest]

theorem readExact_short {n : Nat} (h : (reader.file.drop offset).length < n) :
    (reader.readExact n offset).1 = .error .unexpectedEof := readExactIn_short h

end XorReader

end Validator

end Bip360Enforcer
