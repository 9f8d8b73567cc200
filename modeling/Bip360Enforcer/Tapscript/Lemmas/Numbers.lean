import Bip360Enforcer.Library.SignMagnitude
import Bip360Enforcer.Tapscript.Stack

/-!
# Numbers on the stack are sign-magnitude numbers in their shortest form
-/

namespace Bip360Enforcer.Tapscript

open LittleEndian (decode decode_lt low7_eq_zero top_eq_zero)
open SignMagnitude

/-! ## Or-ing the bytes together -/

theorem shiftAmount {shift : Nat} (h : shift < 64) :
    (Int64.ofNat shift).toBitVec.smod 64 = BitVec.ofNat 64 shift := by
  have hall : ∀ s : Fin 64, (Int64.ofNat s).toBitVec.smod 64 = BitVec.ofNat 64 s := by decide
  exact hall ⟨shift, h⟩

theorem toNat_shiftLeft {b : UInt8} {shift : Nat} (h : shift + 8 ≤ 64) :
    (byteToI64 b <<< Int64.ofNat shift).toUInt64.toNat = 2 ^ shift * b.toNat := by
  have hb := b.toNat_lt
  have hlt : 2 ^ shift * b.toNat < 2 ^ 64 :=
    calc 2 ^ shift * b.toNat < 2 ^ shift * 2 ^ 8 := by
          exact Nat.mul_lt_mul_of_pos_left hb (Nat.two_pow_pos shift)
      _ = 2 ^ (shift + 8) := by rw [Nat.pow_add]
      _ ≤ 2 ^ 64 := Nat.pow_le_pow_right (by omega) h
  change ((byteToI64 b).toBitVec <<< (Int64.ofNat shift).toBitVec.smod 64).toNat = _
  rw [shiftAmount (by omega)]
  simp only [BitVec.shiftLeft_eq', BitVec.toNat_shiftLeft, BitVec.toNat_ofNat, Nat.shiftLeft_eq]
  rw [Nat.mod_eq_of_lt (a := shift) (by omega), show (byteToI64 b).toBitVec.toNat = b.toNat by
    simp [byteToI64], Nat.mul_comm, Nat.mod_eq_of_lt hlt]

theorem toNat_or_shiftLeft {n : Int64} {b : UInt8} {shift : Nat} (hn : n.toUInt64.toNat < 2 ^ shift)
    (h : shift + 8 ≤ 64) :
    (n ||| (byteToI64 b <<< Int64.ofNat shift)).toUInt64.toNat
      = n.toUInt64.toNat + 2 ^ shift * b.toNat := by
  rw [Int64.toUInt64_or, UInt64.toNat_or, toNat_shiftLeft h, Nat.or_comm,
    ← Nat.two_pow_add_eq_or_of_lt hn, Nat.add_comm]

theorem toNat_orBytes {shift : Nat} {n : Int64} {bytes : Bytes} (hn : n.toUInt64.toNat < 2 ^ shift)
    (h : shift + 8 * bytes.length ≤ 64) :
    (orBytes shift n bytes).toUInt64.toNat = n.toUInt64.toNat + 2 ^ shift * decode bytes := by
  induction bytes generalizing shift n with
  | nil => simp [orBytes]
  | cons b bytes ih =>
      simp only [List.length_cons] at h
      have hb := b.toNat_lt
      have hstep := toNat_or_shiftLeft (b := b) hn (by omega)
      have hlt : n.toUInt64.toNat + 2 ^ shift * b.toNat < 2 ^ (shift + 8) := by
        rw [Nat.pow_add]
        have : 2 ^ shift * b.toNat ≤ 2 ^ shift * 255 := Nat.mul_le_mul_left _ (by omega)
        omega
      rw [orBytes, ih (by omega) (by omega), hstep, LittleEndian.decode_cons, Nat.pow_add]
      ring

/-! ## Clearing the sign bit -/

theorem toNat_signBit {k : Nat} (h : k < 8) :
    ((0x80 : Int64) <<< Int64.ofNat (8 * k)).toUInt64.toNat = 2 ^ (8 * k + 7) := by
  rw [show (0x80 : Int64) = byteToI64 0x80 from rfl, toNat_shiftLeft (by omega), Nat.pow_add]
  rfl

/-- Clearing bit `j` of a number in which it is the highest bit set. -/
theorem toNat_clearBit {w j m : Nat} {n s : BitVec w} (hm : m < 2 ^ j) (hs : s.toNat = 2 ^ j)
    (hn : n.toNat = 2 ^ j + m) : (n &&& ~~~s).toNat = m := by
  have hj : j < w := by
    have := s.isLt
    rw [hs] at this
    exact (Nat.pow_lt_pow_iff_right (by omega)).mp this
  have hor : n.toNat = 2 ^ j ||| m := by
    have := Nat.two_pow_add_eq_or_of_lt hm 1
    rw [Nat.mul_one] at this
    rw [hn, this]
  apply Nat.eq_of_testBit_eq
  intro i
  rw [BitVec.testBit_toNat, BitVec.getLsbD_and, BitVec.getLsbD_not, ← BitVec.testBit_toNat,
    ← BitVec.testBit_toNat, hor, hs, Nat.testBit_or, Nat.testBit_two_pow]
  by_cases hij : j = i
  · subst hij
    simp [Nat.testBit_lt_two_pow hm]
  · by_cases hi : i < w
    · simp [hij, hi]
    · have : m < 2 ^ i := hm.trans (Nat.pow_lt_pow_right (by omega) (by omega))
      simp [hi, Nat.testBit_lt_two_pow this]

theorem toInt_of_toNat {n : Int64} {m : Nat} (hn : n.toUInt64.toNat = m) (h : m < 2 ^ 63) :
    n.toInt = m := by
  have hlt : 2 * n.toBitVec.toNat < 2 ^ 64 := by
    change n.toBitVec.toNat = m at hn
    omega
  exact (BitVec.toInt_eq_toNat_of_lt hlt).trans (congrArg _ hn)

theorem toInt_neg_of_toNat {n : Int64} {m : Nat} (hn : n.toUInt64.toNat = m) (h : m < 2 ^ 63) :
    (-n).toInt = -m := by
  rw [Int64.toInt_neg, toInt_of_toNat hn h]
  exact Int.bmod_eq_of_le (by omega) (by omega)

/-! ## Reading -/

theorem lastSuperfluous_iff (init : Bytes) (last : UInt8) :
    (last &&& 0x7f = 0 ∧ init.reverse.head?.all (fun b => b &&& 0x80 = 0)) ↔
      ¬ LastNeeded init last := by
  rw [low7_eq_zero, LastNeeded, not_or, not_not]
  apply and_congr_right
  intro _
  rcases List.eq_nil_or_concat init with rfl | ⟨init', p, rfl⟩
  · simp
  · have hp := top_eq_zero p
    simp only [List.concat_eq_append, List.reverse_append, List.reverse_singleton,
      List.singleton_append, List.head?_cons, Option.all_some, decide_eq_true_eq, hp]
    constructor
    · rintro h ⟨init'', q, heq, hq⟩
      obtain ⟨-, hpq⟩ := List.append_inj' heq rfl
      simp only [List.cons.injEq, and_true] at hpq
      subst hpq
      omega
    · intro h
      by_contra hge
      exact h ⟨init', p, rfl, by omega⟩

theorem toNat_orBytes_zero {bytes : Bytes} (h : bytes.length ≤ 8) :
    (orBytes 0 0 bytes).toUInt64.toNat = decode bytes := by
  have h0 : (0 : Int64).toUInt64.toNat = 0 := rfl
  have := @toNat_orBytes 0 0 bytes (by rw [h0]; omega) (by omega)
  rwa [h0, Nat.pow_zero, Nat.one_mul, Nat.zero_add] at this

theorem pow_256_le {k : Nat} (h : k < 8) : 256 ^ k * 128 ≤ 2 ^ 63 :=
  calc 256 ^ k * 128 ≤ 256 ^ 7 * 128 :=
        Nat.mul_le_mul_right _ (Nat.pow_le_pow_right (by omega) (by omega))
    _ = 2 ^ 63 := by rfl

theorem toInt_positive {init : Bytes} {last : UInt8} (h : init.length < 8)
    (hlast : last.toNat < 128) :
    (orBytes 0 0 (init ++ [last])).toInt = decode init + 256 ^ init.length * last.toNat := by
  have hbits := @toNat_orBytes_zero (init ++ [last]) (by simp; omega)
  rw [decode_concat] at hbits
  have hinit := decode_lt init
  have hle := Nat.mul_le_mul_left (256 ^ init.length) (show last.toNat ≤ 127 by omega)
  have := pow_256_le h
  rw [toInt_of_toNat hbits (by omega)]
  push_cast
  rfl

theorem toInt_negative {init : Bytes} {last : UInt8} (h : init.length < 8)
    (hlast : 128 ≤ last.toNat) :
    (-(orBytes 0 0 (init ++ [last])
        &&& ~~~((0x80 : Int64) <<< Int64.ofNat (8 * init.length)))).toInt
      = -(decode init + 256 ^ init.length * (last.toNat - 128) : Int) := by
  obtain ⟨t, ht⟩ : ∃ t, last.toNat = 128 + t := ⟨last.toNat - 128, by omega⟩
  have hbits := @toNat_orBytes_zero (init ++ [last]) (by simp; omega)
  have hinit := decode_lt init
  have hpow : 2 ^ (8 * init.length + 7) = 256 ^ init.length * 128 := by
    rw [Nat.pow_add, Nat.pow_mul]
  have hlt : decode init + 256 ^ init.length * t < 2 ^ (8 * init.length + 7) := by
    have := last.toNat_lt
    have := Nat.mul_le_mul_left (256 ^ init.length) (show t ≤ 127 by omega)
    omega
  have hsplit : (orBytes 0 0 (init ++ [last])).toUInt64.toNat
      = 2 ^ (8 * init.length + 7) + (decode init + 256 ^ init.length * t) := by
    rw [hbits, decode_concat, hpow, ht]
    ring
  have hclear : (orBytes 0 0 (init ++ [last])
      &&& ~~~((0x80 : Int64) <<< Int64.ofNat (8 * init.length))).toUInt64.toNat
        = decode init + 256 ^ init.length * t :=
    toNat_clearBit hlt (toNat_signBit h) hsplit
  have := pow_256_le h
  rw [toInt_neg_of_toNat hclear (by omega), ht]
  push_cast
  ring

/-- The number `readScriptnum` computes is the one the bytes stand for. -/
theorem readScriptnum_concat {init : Bytes} {last : UInt8} {maxLen : Nat} {n : Int64}
    (hm : maxLen ≤ 8) :
    readScriptnum (init ++ [last]) maxLen = .ok n ↔
      init.length < maxLen ∧ LastNeeded init last ∧ n.toInt = value (init ++ [last]) := by
  have hlast := top_eq_zero last
  simp only [readScriptnum, List.length_append, List.length_singleton, List.reverse_append,
    List.reverse_singleton, List.singleton_append, Nat.add_sub_cancel]
  split_ifs with hlen hneeded hsign
  · simp; omega
  · simp [(lastSuperfluous_iff init last).mp hneeded]
  · have hint := @toInt_negative init last (by omega)
      (by rw [ne_eq, hlast] at hsign; omega)
    rw [value_concat, if_neg (by rw [ne_eq, hlast] at hsign; omega), ← hint, Int64.toInt_inj,
      Except.ok.injEq, eq_comm]
    simp only [not_not.mp (mt (lastSuperfluous_iff init last).mpr hneeded), true_and]
    simp; omega
  · have hint := @toInt_positive init last (by omega)
      (by rw [ne_eq, hlast, not_not] at hsign; omega)
    rw [value_concat, if_pos (by rw [ne_eq, hlast, not_not] at hsign; omega), ← hint,
      Int64.toInt_inj, Except.ok.injEq, eq_comm]
    simp only [not_not.mp (mt (lastSuperfluous_iff init last).mpr hneeded), true_and]
    simp; omega

/-- Accepted are exactly the shortest forms that fit, and each is read as what it stands for. -/
theorem readScriptnum_eq_ok {bytes : Bytes} {maxLen : Nat} {n : Int64} (hm : maxLen ≤ 8) :
    readScriptnum bytes maxLen = .ok n ↔
      bytes.length ≤ maxLen ∧ Minimal bytes ∧ n.toInt = value bytes := by
  rcases List.eq_nil_or_concat bytes with rfl | ⟨init, last, rfl⟩
  · have h0 : value [] = (0 : Int64).toInt := rfl
    rw [h0, Int64.toInt_inj]
    simp [readScriptnum, eq_comm]
  · rw [List.concat_eq_append, readScriptnum_concat hm, minimal_concat]
    simp

/-! ## Writing -/

theorem absBytes_eq {fuel n : Nat} (h : n < 256 ^ fuel) : absBytes fuel n = magnitude n := by
  induction fuel generalizing n with
  | zero =>
      obtain rfl : n = 0 := by simpa using h
      simp [absBytes, magnitude]
  | succ fuel ih =>
      rw [absBytes]
      split
      · rename_i hn
        have hdiv : n / 256 < 256 ^ fuel := by rw [Nat.pow_succ] at h; omega
        rw [magnitude, Nat.digits_def' (by omega) hn, List.map_cons]
        have hand : n &&& 0xff = n % 256 := Nat.and_two_pow_sub_one_eq_mod n 8
        rw [hand, Nat.shiftRight_eq_div_pow, ih hdiv, magnitude]
      · obtain rfl : n = 0 := by omega
        simp [magnitude]

theorem addSign_eq (neg : Bool) (out : Bytes) : addSign neg out = withSign neg out := by
  rcases List.eq_nil_or_concat out with rfl | ⟨init, top, rfl⟩
  · simp [addSign, withSign]
  · have hor : ∀ b : UInt8, b.toNat < 128 → b ||| 0x80 = b + 128 := by
      have hall : ∀ n : Fin 128, UInt8.ofNat n ||| 0x80 = UInt8.ofNat n + 128 := by decide
      intro b hb
      simpa using hall ⟨b.toNat, hb⟩
    have htop := top_eq_zero top
    rw [List.concat_eq_append, withSign_concat, addSign, List.reverse_append]
    simp only [List.reverse_singleton, List.singleton_append, ne_eq, htop]
    by_cases h : top.toNat < 128
    · cases neg
      · simp [h]
      · simp [h, hor top h]
    · simp [h]

/-- What is written is the shortest form. -/
theorem encodeScriptnum_eq (n : Int64) : encodeScriptnum n = encode n.toInt := by
  have hlt : n.toInt.natAbs < 256 ^ 8 := by
    have := n.toInt_lt
    have := n.le_toInt
    omega
  rw [encodeScriptnum, encode, absBytes_eq hlt, addSign_eq]
  have hneg : (n < 0) = (n.toInt < 0) := by rw [Int64.lt_iff_toInt_lt]; rfl
  split
  · rename_i h
    subst h
    simp [magnitude, withSign]
  · simp only [hneg]

end Bip360Enforcer.Tapscript
