import Bip360Enforcer.Library.Except
import Mathlib.Data.List.Basic
import Mathlib.Tactic.IntervalCases

/-!
# Hexadecimal text
-/

namespace Hex

/-! ## Digits -/

/-- A digit, in lower case. -/
def digit (n : Nat) : Char := if n < 10 then Char.ofNat (48 + n) else Char.ofNat (87 + n)

inductive FromHexError where
  | invalidHexCharacter (c : Char) (index : Nat)
  | oddLength
  deriving DecidableEq, Repr

/-- The value of the digit with this code, in either case. -/
def val (c : UInt8) (index : Nat) : Except FromHexError Nat :=
  if 65 ≤ c ∧ c ≤ 70 then .ok (c.toNat - 65 + 10)
  else if 97 ≤ c ∧ c ≤ 102 then .ok (c.toNat - 97 + 10)
  else if 48 ≤ c ∧ c ≤ 57 then .ok (c.toNat - 48)
  else .error (.invalidHexCharacter (Char.ofNat c.toNat) index)

/-! ## Texts -/

/-- The bytes of a text. -/
def textBytes (text : String) : List UInt8 := text.toByteArray.data.toList

def encodeByte (byte : UInt8) : List Char := [digit (byte.toNat / 16), digit (byte.toNat % 16)]

def encode (data : List UInt8) : String := String.ofList (data.flatMap encodeByte)

def decodePairs : Nat → List UInt8 → Except FromHexError (List UInt8)
  | index, high :: low :: rest => do
      let h ← val high index
      let l ← val low (index + 1)
      let data ← decodePairs (index + 2) rest
      pure (UInt8.ofNat (16 * h + l) :: data)
  | _, _ => pure []

def decode (text : String) : Except FromHexError (List UInt8) :=
  let bytes := textBytes text
  if bytes.length % 2 ≠ 0 then .error .oddLength else decodePairs 0 bytes

/-! ## Round trip -/

theorem digit_code {n : Nat} (h : n < 16) :
    ∃ c, String.utf8EncodeChar (digit n) = [c] ∧ ∀ index, val c index = .ok n := by
  interval_cases n
  all_goals exact ⟨_, rfl, fun _ => rfl⟩

theorem encodeByte_codes (byte : UInt8) :
    ∃ high low, (encodeByte byte).flatMap String.utf8EncodeChar = [high, low] ∧
      (∀ index, val high index = .ok (byte.toNat / 16)) ∧
      ∀ index, val low index = .ok (byte.toNat % 16) := by
  have hbyte := byte.toNat_lt
  obtain ⟨high, hhigh, hval⟩ := digit_code (show byte.toNat / 16 < 16 by omega)
  obtain ⟨low, hlow, hval'⟩ := digit_code (Nat.mod_lt byte.toNat (show 16 > 0 by decide))
  refine ⟨high, low, ?_, hval, hval'⟩
  rw [encodeByte, List.flatMap_cons, List.flatMap_singleton, hhigh, hlow]
  rfl

theorem textBytes_encode (data : List UInt8) :
    textBytes (encode data) = (data.flatMap encodeByte).flatMap String.utf8EncodeChar := by
  rw [textBytes, encode, String.toByteArray_ofList]
  exact List.toList_data_toByteArray

theorem length_textBytes_encode (data : List UInt8) :
    (textBytes (encode data)).length = 2 * data.length := by
  rw [textBytes_encode]
  induction data with
  | nil => rfl
  | cons byte data ih =>
      obtain ⟨high, low, hcodes, -⟩ := encodeByte_codes byte
      rw [List.flatMap_cons, List.flatMap_append, List.length_append, ih, hcodes]
      simp
      omega

theorem decodePairs_encode (data : List UInt8) (index : Nat) :
    decodePairs index (textBytes (encode data)) = .ok data := by
  rw [textBytes_encode]
  induction data generalizing index with
  | nil => rfl
  | cons byte data ih =>
      obtain ⟨high, low, hcodes, hhigh, hlow⟩ := encodeByte_codes byte
      have hbyte : UInt8.ofNat (16 * (byte.toNat / 16) + byte.toNat % 16) = byte := by
        rw [Nat.div_add_mod, UInt8.ofNat_toNat]
      rw [List.flatMap_cons, List.flatMap_append, hcodes]
      change (do
        let h ← val high index
        let l ← val low (index + 1)
        let rest ← decodePairs (index + 2) ((data.flatMap encodeByte).flatMap String.utf8EncodeChar)
        pure (UInt8.ofNat (16 * h + l) :: rest)) = _
      rw [hhigh, hlow, ih]
      exact congrArg (fun b => Except.ok (b :: data)) hbyte

theorem decode_encode (data : List UInt8) : decode (encode data) = .ok data := by
  rw [decode, if_neg, decodePairs_encode]
  rw [length_textBytes_encode]
  omega

theorem encode_injective : Function.Injective encode := by
  intro data data' heq
  have hdecoded := decode_encode data
  rw [heq, decode_encode] at hdecoded
  exact (Except.ok.inj hdecoded).symm

end Hex
