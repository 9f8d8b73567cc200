import Bip360Enforcer.Tapscript.Lemmas.Checked

/-!
# Script numbers are read back as written, and only shortest forms are read
-/

namespace Bip360Enforcer.Tapscript

open SignMagnitude
open MayPanic (Refines ensure index)

/-! ## Shifts that keep every bit -/

namespace Checked

/-- A left shift by less than the width, no bit set being shifted out. -/
def i64ShlExact (x : Int64) (n : Nat) : Eval Int64 :=
  ensure (n < 64 ∧ x.toUInt64.toNat * 2 ^ n < 2 ^ 64) .overflow (x <<< Int64.ofNat n)

/-- `orBytes`, with no bit lost on the way. -/
def orBytesExact (i : Nat) (result : Int64) : Bytes → Eval Int64
  | [] => .ok result
  | b :: rest => do
      let shift ← MayPanic.usizeMul 8 i
      let shifted ← i64ShlExact (byteToI64 b) shift
      orBytesExact (i + 1) (result ||| shifted) rest

/-- `readScriptnum`, with no bit lost on the way. -/
def readScriptnumExact (bytes : Bytes) (maxLen : Nat) : Eval Int64 :=
  if bytes.length > maxLen then MayPanic.fail .badScriptNum
  else if bytes.isEmpty then .ok 0
  else do
    let i ← MayPanic.usizeSub bytes.length 1
    let last ← index bytes i
    let nonMinimal ← nonMinimal bytes last
    if nonMinimal then MayPanic.fail .badScriptNum
    else do
      let result ← orBytesExact 0 0 bytes
      if last &&& 0x80 ≠ 0 then do
        let i ← MayPanic.usizeSub bytes.length 1
        let shift ← MayPanic.usizeMul 8 i
        let signBit ← i64ShlExact 0x80 shift
        i64Neg (result &&& ~~~signBit)
      else .ok result

/-- A byte has room for its eight bits wherever in the word it goes. -/
theorem i64ShlExact_byte (b : UInt8) {i : Nat} (h : i < 8) :
    i64ShlExact (byteToI64 b) (8 * i) = i64Shl (byteToI64 b) (8 * i) := by
  have hb := b.toNat_lt
  have hbyte : (byteToI64 b).toUInt64.toNat = b.toNat := by simp [byteToI64]
  have hfits : b.toNat * 2 ^ (8 * i) < 2 ^ 64 :=
    calc b.toNat * 2 ^ (8 * i) < 2 ^ 8 * 2 ^ (8 * i) :=
          Nat.mul_lt_mul_of_pos_right hb (Nat.two_pow_pos _)
      _ = 2 ^ (8 + 8 * i) := by rw [Nat.pow_add]
      _ ≤ 2 ^ 64 := Nat.pow_le_pow_right (by omega) (by omega)
  rw [i64ShlExact, i64Shl, ensure, ensure, if_pos ⟨by omega, by rwa [hbyte]⟩, if_pos (by omega)]

theorem orBytesExact_eq {i : Nat} {result : Int64} {bytes : Bytes} (h : i + bytes.length ≤ 8) :
    orBytesExact i result bytes = orBytes i result bytes := by
  induction bytes generalizing i result with
  | nil => rfl
  | cons b bytes ih =>
      rw [List.length_cons] at h
      rw [orBytesExact, orBytes, MayPanic.usizeMul, ensure, if_pos (by omega)]
      simp only [bind, Except.bind]
      rw [i64ShlExact_byte b (by omega)]
      cases i64Shl (byteToI64 b) (8 * i) with
      | error e => rfl
      | ok shifted => exact ih (by omega)

theorem readScriptnumExact_eq {bytes : Bytes} {maxLen : Nat} (hm : maxLen ≤ 8) :
    readScriptnumExact bytes maxLen = readScriptnum bytes maxLen := by
  unfold readScriptnumExact readScriptnum
  split
  · rfl
  · rename_i hlen
    split
    · rfl
    · rename_i hempty
      have hpos : 0 < bytes.length := List.length_pos_iff.mpr (by simpa using hempty)
      have hsub : (MayPanic.usizeSub bytes.length 1 : Eval Nat) = .ok (bytes.length - 1) := by
        rw [MayPanic.usizeSub, ensure, if_pos (by omega)]
      have hmul : (MayPanic.usizeMul 8 (bytes.length - 1) : Eval Nat) = .ok (8 * (bytes.length - 1)) := by
        rw [MayPanic.usizeMul, ensure, if_pos (by omega)]
      have hsign : i64ShlExact 0x80 (8 * (bytes.length - 1)) = i64Shl 0x80 (8 * (bytes.length - 1)) :=
        i64ShlExact_byte 0x80 (by omega)
      rw [orBytesExact_eq (by omega)]
      simp only [hsub, hmul, hsign, bind, Except.bind]

theorem readScriptnumExact_refines {bytes : Bytes} {maxLen : Nat} (hm : maxLen ≤ 8) :
    Refines id (readScriptnumExact bytes maxLen) (Tapscript.readScriptnum bytes maxLen) := by
  rw [readScriptnumExact_eq hm]
  exact readScriptnum_refines hm

end Checked

/-! ## Reading and writing -/

theorem readScriptnum_shortest {bytes : Bytes} {m : Nat} {n : Int64} (hm : m ≤ 8)
    (h : readScriptnum bytes m = .ok n) : ShortestFor n.toInt bytes ∧ encodeScriptnum n = bytes := by
  obtain ⟨-, hmin, hvalue⟩ := (readScriptnum_eq_ok hm).mp h
  have hencode : encodeScriptnum n = bytes := by rw [encodeScriptnum_eq, hvalue, hmin]
  refine ⟨shortestFor_iff.mpr ?_, hencode⟩
  rw [← encodeScriptnum_eq, hencode]

theorem readScriptnum_encodeScriptnum {m : Nat} {n : Int64} (hm : m ≤ 8)
    (hn : n.toInt.natAbs < 2 ^ (8 * m - 1)) : readScriptnum (encodeScriptnum n) m = .ok n := by
  rw [readScriptnum_eq_ok hm, encodeScriptnum_eq]
  exact ⟨length_encode_le hn, minimal_encode _, (value_encode _).symm⟩

/-- A number of fewer than 64 bits beside its sign is one of type `i64`. -/
theorem exists_int64 {m : Nat} {k : Int} (hm : m ≤ 8) (hk : k.natAbs < 2 ^ (8 * m - 1)) :
    ∃ n : Int64, n.toInt = k := by
  have hle : 2 ^ (8 * m - 1) ≤ 2 ^ 63 := Nat.pow_le_pow_right (by omega) (by omega)
  exact ⟨Int64.ofInt k, Int64.toInt_ofInt_of_le (by omega) (by omega)⟩

theorem readScriptnum_accepts {bytes : Bytes} {m : Nat} (hpos : 1 ≤ m) (hm : m ≤ 8)
    (hlen : bytes.length ≤ m) :
    (∃ n, readScriptnum bytes m = .ok n) ↔
      ∃ k : Int, k.natAbs < 2 ^ (8 * m - 1) ∧ ShortestFor k bytes := by
  constructor
  · rintro ⟨n, hread⟩
    obtain ⟨hshortest, -⟩ := readScriptnum_shortest hm hread
    refine ⟨n.toInt, ?_, hshortest⟩
    rw [← hshortest.1]
    exact natAbs_lt_of_length_le hpos hlen
  · rintro ⟨k, hk, hshortest⟩
    obtain ⟨n, rfl⟩ := exists_int64 hm hk
    have hread := readScriptnum_encodeScriptnum hm hk
    rw [encodeScriptnum_eq, ← shortestFor_iff.mp hshortest] at hread
    exact ⟨n, hread⟩

/-- For every limit of one to eight bytes: accepted are exactly the shortest forms, which are what is
written, every number in range is read back, and no operation on the way overflows or loses a bit. -/
theorem readScriptnum_roundTrip {m : Nat} (hpos : 1 ≤ m) (hm : m ≤ 8) :
    (∀ bytes : Bytes, bytes.length ≤ m →
      ((∃ n, readScriptnum bytes m = .ok n) ↔
        ∃ k : Int, k.natAbs < 2 ^ (8 * m - 1) ∧ ShortestFor k bytes) ∧
      ∀ n, readScriptnum bytes m = .ok n → ShortestFor n.toInt bytes ∧ encodeScriptnum n = bytes) ∧
    (∀ n : Int64, n.toInt.natAbs < 2 ^ (8 * m - 1) → readScriptnum (encodeScriptnum n) m = .ok n) ∧
    (∀ k : Int, k.natAbs < 2 ^ (8 * m - 1) → ∃ n : Int64, n.toInt = k) ∧
    (∀ bytes, Refines id (Checked.readScriptnumExact bytes m) (readScriptnum bytes m)) ∧
    ∀ n, Checked.encodeScriptnum n = .ok (encodeScriptnum n) := by
  refine ⟨fun bytes hlen => ?_, ?_, ?_, ?_, ?_⟩
  · exact ⟨readScriptnum_accepts hpos hm hlen, fun n hread => readScriptnum_shortest hm hread⟩
  · intro n hn
    exact readScriptnum_encodeScriptnum hm hn
  · intro k hk
    exact exists_int64 hm hk
  · intro bytes
    exact Checked.readScriptnumExact_refines hm
  · exact Checked.encodeScriptnum_eq

/-- The largest negative number of eight bytes. -/
theorem minNegative_roundTrip :
    readScriptnum (encodeScriptnum (-9223372036854775807)) 8 = .ok (-9223372036854775807) :=
  (readScriptnum_roundTrip (m := 8) (by decide) (by decide)).2.1 _ (by decide)

end Bip360Enforcer.Tapscript
