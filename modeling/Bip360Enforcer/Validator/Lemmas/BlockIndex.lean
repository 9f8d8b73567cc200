import Bip360Enforcer.Library.Varint
import Bip360Enforcer.Validator.BlockIndex
import Bip360Enforcer.Validator.Lemmas.ParseBlockFiles

/-!
# The index reader and the node's writer, on natural numbers
-/

namespace Bip360Enforcer.Validator

open LittleEndian (encode decode decode_encode)

variable {n : UInt64} {chData : UInt8} {bytes rest : Bytes}

/-! ## Digits -/

theorem continues_iff (b : UInt8) : b &&& 0x80 ≠ 0 ↔ ¬ b.toNat < 128 :=
  not_congr (LittleEndian.top_eq_zero b)

theorem tooLarge_iff (n : UInt64) : n > u64Max >>> 7 ↔ 2 ^ 57 ≤ n.toNat := by
  rw [gt_iff_lt, UInt64.lt_iff_toNat_lt, show (u64Max >>> 7).toNat = 2 ^ 57 - 1 by decide]
  omega

theorem eq_u64Max_iff (n : UInt64) : n = u64Max ↔ n.toNat + 1 = 2 ^ 64 := by
  rw [← UInt64.toNat_inj, show u64Max.toNat = 2 ^ 64 - 1 by decide]
  omega

theorem toNat_shl7 (h : n.toNat < 2 ^ 57) : (n <<< 7).toNat = n.toNat * 128 := by
  have hcount : (7 : UInt64).toNat % 64 = 7 := by decide
  rw [UInt64.toNat_shiftLeft, hcount, Nat.shiftLeft_eq]
  exact Nat.mod_eq_of_lt (by omega)

/-- The digit goes where the shift has made room for it. -/
theorem toNat_or_digit (h : n.toNat < 2 ^ 57) (b : UInt8) :
    (n <<< 7 ||| (b &&& 0x7f).toUInt64).toNat = n.toNat * 128 + b.toNat % 128 := by
  have hlow : b.toNat % 128 < 2 ^ 7 := Nat.mod_lt _ (by omega)
  have hor := Nat.two_pow_add_eq_or_of_lt hlow n.toNat
  rw [UInt64.toNat_or, toNat_shl7 h, UInt8.toNat_toUInt64, LittleEndian.toNat_low7, Nat.mul_comm, ← hor]

theorem toNat_increment (h : n ≠ u64Max) : (n + 1).toNat = n.toNat + 1 := by
  have hlt := n.toNat_lt
  have hmax := mt (eq_u64Max_iff n).mpr h
  rw [UInt64.toNat_add]
  exact Nat.mod_eq_of_lt (by change n.toNat + 1 < 2 ^ 64; omega)

/-! ## Reading -/

/-- One turn of the loop. -/
theorem readVarintFrom_cons (n : UInt64) (chData : UInt8) (rest : Bytes) :
    readVarintFrom n (chData :: rest) =
      if 2 ^ 57 ≤ n.toNat then (.error (.invalidData "VarInt size too large"), rest)
      else if chData.toNat < 128 then (.ok (UInt64.ofNat (n.toNat * 128 + chData.toNat)), rest)
      else if n.toNat * 128 + (chData.toNat - 128) + 1 = 2 ^ 64 then
        (.error (.invalidData "VarInt size too large"), rest)
      else readVarintFrom (UInt64.ofNat (n.toNat * 128 + (chData.toNat - 128) + 1)) rest := by
  have hch := chData.toNat_lt
  rw [readVarintFrom]
  by_cases hlarge : 2 ^ 57 ≤ n.toNat
  · rw [if_pos ((tooLarge_iff n).mpr hlarge), if_pos hlarge]
  · have hdigit := toNat_or_digit (Nat.lt_of_not_le hlarge) chData
    rw [if_neg (mt (tooLarge_iff n).mp hlarge), if_neg hlarge]
    simp only [continues_iff]
    generalize n <<< 7 ||| (chData &&& 0x7f).toUInt64 = m at hdigit ⊢
    by_cases hlast : chData.toNat < 128
    · have hm : UInt64.ofNat (n.toNat * 128 + chData.toNat) = m := by
        rw [← Nat.mod_eq_of_lt hlast, ← hdigit]
        exact UInt64.ofNat_toNat
      rw [if_neg (not_not.mpr hlast), if_pos hlast, hm]
    · have hlow : chData.toNat % 128 = chData.toNat - 128 := by omega
      rw [hlow] at hdigit
      rw [if_pos hlast, if_neg hlast]
      simp only [eq_u64Max_iff, hdigit]
      split
      · rfl
      · rename_i hmax
        have hm : UInt64.ofNat (n.toNat * 128 + (chData.toNat - 128) + 1) = m + 1 := by
          rw [← hdigit, ← toNat_increment (mt (eq_u64Max_iff m).mp (by rwa [hdigit]))]
          exact UInt64.ofNat_toNat
        rw [hm]

theorem readVarintFrom_of_none (h : Varint.read n.toNat bytes = none) :
    ∃ e left, readVarintFrom n bytes = (.error e, left) := by
  induction bytes generalizing n with
  | nil => exact ⟨_, _, rfl⟩
  | cons chData rest ih =>
      rw [Varint.read] at h
      rw [readVarintFrom_cons]
      split
      · exact ⟨_, _, rfl⟩
      · split at h
        · cases h
        · rename_i hlast
          rw [if_neg hlast]
          split
          · exact ⟨_, _, rfl⟩
          · apply ih
            rwa [UInt64.toNat_ofNat_of_lt' (by have := chData.toNat_lt; change _ < 2 ^ 64; omega)]

theorem readVarintFrom_of_some {v : Nat} (h : Varint.read n.toNat bytes = some (v, rest)) :
    if v < 2 ^ 64 then readVarintFrom n bytes = (.ok (UInt64.ofNat v), rest)
    else ∃ e left, readVarintFrom n bytes = (.error e, left) := by
  induction bytes generalizing n with
  | nil => cases h
  | cons chData bytes ih =>
      have hch := chData.toNat_lt
      have hle := Varint.mul_le_of_read h
      rw [Varint.read] at h
      rw [readVarintFrom_cons]
      by_cases hlarge : 2 ^ 57 ≤ n.toNat
      · rw [if_pos hlarge, if_neg (by omega)]
        exact ⟨_, _, rfl⟩
      · rw [if_neg hlarge]
        split at h
        · rename_i hlast
          cases h
          rw [if_pos hlast, if_pos (by omega)]
        · rename_i hlast
          rw [if_neg hlast]
          by_cases hmax : n.toNat * 128 + (chData.toNat - 128) + 1 = 2 ^ 64
          · have hnext := Varint.mul_le_of_read h
            rw [if_pos hmax, if_neg (by omega)]
            exact ⟨_, _, rfl⟩
          · rw [if_neg hmax]
            apply ih
            rwa [UInt64.toNat_ofNat_of_lt' (by change _ < 2 ^ 64; omega)]

theorem readVarint_of_none (h : Varint.read 0 bytes = none) :
    ∃ e left, readVarint bytes = (.error e, left) :=
  @readVarintFrom_of_none 0 bytes h

theorem readVarint_of_lt {v : Nat} (h : Varint.read 0 bytes = some (v, rest)) (hv : v < 2 ^ 64) :
    readVarint bytes = (.ok (UInt64.ofNat v), rest) := by
  have hvalue := @readVarintFrom_of_some 0 bytes rest v h
  rwa [if_pos hv] at hvalue

theorem readVarint_of_ge {v : Nat} (h : Varint.read 0 bytes = some (v, rest)) (hv : 2 ^ 64 ≤ v) :
    ∃ e left, readVarint bytes = (.error e, left) := by
  have hvalue := @readVarintFrom_of_some 0 bytes rest v h
  rwa [if_neg (Nat.not_lt.mpr hv)] at hvalue

/-! ## Arithmetic that keeps every bit -/

theorem shiftIn_eq (h : ¬ n > u64Max >>> 7) (chData : UInt8) :
    shiftIn n chData = .ok (n <<< 7 ||| (chData &&& 0x7f).toUInt64) := by
  have hn : n.toNat < 2 ^ 57 := Nat.lt_of_not_le (mt (tooLarge_iff n).mpr h)
  have hor : (n <<< 7 ||| (chData &&& 0x7f).toUInt64).toNat =
      (n <<< 7).toNat + (chData &&& 0x7f).toUInt64.toNat := by
    rw [toNat_or_digit hn, toNat_shl7 hn, UInt8.toNat_toUInt64, LittleEndian.toNat_low7]
  rw [shiftIn, MayPanic.ensure, if_pos (by omega)]
  simp only [bind, Except.bind]
  rw [MayPanic.ensure, if_pos hor]

theorem increment_eq (h : n ≠ u64Max) : increment n = .ok (n + 1) := by
  have hlt := n.toNat_lt
  have hmax := mt (eq_u64Max_iff n).mpr h
  rw [increment, MayPanic.ensure, if_pos (by omega)]

theorem readVarintExactFrom_refines (n : UInt64) (bytes : Bytes) :
    MayPanic.Refines id (readVarintExactFrom n bytes) (readVarintFrom n bytes).1 := by
  induction bytes generalizing n with
  | nil => exact .fail _
  | cons chData rest ih =>
      rw [readVarintExactFrom, readVarintFrom]
      split
      · exact .fail _
      · rename_i hlarge
        refine .ok_bind (shiftIn_eq hlarge chData) ?_
        simp only
        split
        · split
          · exact .fail _
          · rename_i hmax
            exact .ok_bind (increment_eq hmax) (ih _)
        · exact .pure _

/-! ## Writing -/

theorem toNat_payload (n : UInt64) : (n &&& 0x7f).toUInt8.toNat = n.toNat % 128 := by
  have hand : n.toNat &&& 0x7f = n.toNat % 128 := Nat.and_two_pow_sub_one_eq_mod n.toNat 7
  rw [UInt64.toNat_toUInt8, UInt64.toNat_and, show (0x7f : UInt64).toNat = 0x7f from rfl, hand]
  omega

theorem low7_last (n : UInt64) : (n &&& 0x7f).toUInt8 ||| 0x00 = UInt8.ofNat (n.toNat % 128) := by
  rw [← UInt8.toNat_inj, UInt8.or_zero, toNat_payload, UInt8.toNat_ofNat']
  omega

theorem low7_continues (n : UInt64) :
    (n &&& 0x7f).toUInt8 ||| 0x80 = UInt8.ofNat (128 + n.toNat % 128) := by
  have hlow : n.toNat % 128 < 2 ^ 7 := Nat.mod_lt _ (by omega)
  have hor : 128 ||| n.toNat % 128 = 128 + n.toNat % 128 := (Nat.two_pow_add_eq_or_of_lt hlow 1).symm
  rw [← UInt8.toNat_inj, UInt8.toNat_or, toNat_payload, Nat.or_comm, UInt8.toNat_ofNat',
    show (0x80 : UInt8).toNat = 128 from rfl, hor]
  omega

/-- One is taken off, since a byte goes on. -/
theorem toNat_next (h : ¬ n ≤ 0x7f) : (n >>> 7 - 1).toNat + 1 = n.toNat / 128 := by
  have hn : 128 ≤ n.toNat := by
    rw [UInt64.le_iff_toNat_le, show (0x7f : UInt64).toNat = 127 from rfl] at h
    omega
  have hshift : (n >>> 7).toNat = n.toNat / 128 := by
    rw [UInt64.toNat_shiftRight, show (7 : UInt64).toNat % 64 = 7 from rfl, Nat.shiftRight_eq_div_pow]
  have hone : (1 : UInt64) ≤ n >>> 7 := by
    rw [UInt64.le_iff_toNat_le, hshift, show (1 : UInt64).toNat = 1 from rfl]
    omega
  rw [UInt64.toNat_sub_of_le _ _ hone, hshift, show (1 : UInt64).toNat = 1 from rfl]
  omega

theorem le_low7 (h : n ≤ 0x7f) : n.toNat / 128 = 0 := by
  rw [UInt64.le_iff_toNat_le, show (0x7f : UInt64).toNat = 127 from rfl] at h
  omega

/-- Behind the last byte, all that is written goes on. -/
theorem writeVarintFrom_eq {fuel : Nat} {tmp : Bytes} (hfuel : n.toNat < 2 ^ (7 * (fuel + 1)))
    (htmp : tmp ≠ []) : Core.writeVarintFrom (fuel + 1) n tmp = Varint.carry (n.toNat + 1) ++ tmp := by
  induction fuel generalizing n tmp with
  | zero =>
      have hn : n ≤ 0x7f := by
        rw [UInt64.le_iff_toNat_le, show (0x7f : UInt64).toNat = 127 from rfl]
        omega
      rw [Core.writeVarintFrom, List.isEmpty_eq_false_iff.mpr htmp]
      simp only [Bool.false_eq_true, if_false, if_pos hn]
      rw [low7_continues, Varint.carry_succ, le_low7 hn, Varint.carry_zero]
      rfl
  | succ fuel ih =>
      rw [Core.writeVarintFrom, List.isEmpty_eq_false_iff.mpr htmp]
      simp only [Bool.false_eq_true, if_false]
      rw [low7_continues, Varint.carry_succ]
      by_cases hn : n ≤ 0x7f
      · rw [if_pos hn, le_low7 hn, Varint.carry_zero]
        rfl
      · have hnext := toNat_next hn
        have hpow : 2 ^ (7 * (fuel + 1 + 1)) = 2 ^ (7 * (fuel + 1)) * 128 := by
          rw [Nat.mul_succ 7 (fuel + 1), Nat.pow_add]
        rw [if_neg hn, ih (by omega) (List.cons_ne_nil _ _), hnext, List.append_assoc,
          List.singleton_append]

theorem writeVarint_eq (n : UInt64) : Core.writeVarint n = Varint.write n.toNat := by
  have hlt := n.toNat_lt
  rw [Core.writeVarint, Core.writeVarintFrom, Varint.write]
  simp only [List.isEmpty_nil, if_true]
  rw [low7_last]
  by_cases hn : n ≤ 0x7f
  · rw [if_pos hn, le_low7 hn, Varint.carry_zero]
    rfl
  · have hnext := toNat_next hn
    rw [if_neg hn, writeVarintFrom_eq (by omega) (List.cons_ne_nil _ _), hnext]

/-! ## Records -/

theorem readVarint_append (n : UInt64) (rest : Bytes) :
    readVarint (Core.writeVarint n ++ rest) = (.ok n, rest) := by
  have hread := readVarint_of_lt (Varint.read_write n.toNat rest) n.toNat_lt
  rwa [UInt64.ofNat_toNat, ← writeVarint_eq] at hread

theorem readExact_append (piece rest : Bytes) :
    readExact piece.length (piece ++ rest) = (.ok piece, rest) := by
  rw [readExact, if_neg (by simp)]
  simp

theorem readUint256_append {piece : Bytes} (h : piece.length = 32) (rest : Bytes) :
    readUint256 (piece ++ rest) = (.ok piece, rest) := by
  rw [readUint256, ← h]
  exact readExact_append piece rest

theorem readUint32_append (n : UInt32) (rest : Bytes) :
    readUint32 (encode 4 n.toNat ++ rest) = (.ok n, rest) := by
  have hread := readExact_append (encode 4 n.toNat) rest
  have hvalue : decode (encode 4 n.toNat) = n.toNat := decode_encode n.toNat_lt
  rw [LittleEndian.length_encode] at hread
  rw [readUint32, Program.bind_apply, hread]
  simp only [Program.pure_apply, hvalue, UInt32.ofNat_toNat]

theorem map_apply {α β : Type} {x : SliceM α} {a : α} (f : α → β) (h : x bytes = (.ok a, rest)) :
    (f <$> x) bytes = (.ok (f a), rest) := by
  rw [map_eq_pure_bind, Program.bind_apply, h]
  rfl

theorem readWhen_append {α : Type} {present : Bool} {p : Prop} [Decidable p] {x : SliceM α}
    {written : Bytes} {a : α} (hp : present = true ↔ p) (hx : x (written ++ rest) = (.ok a, rest)) :
    readWhen present x ((if p then written else []) ++ rest) =
      (.ok (if p then some a else none), rest) := by
  unfold readWhen
  by_cases h : p
  · rw [if_pos (hp.mpr h), if_pos h, if_pos h]
    exact map_apply some hx
  · rw [if_neg (mt hp.mp h), if_neg h, if_neg h]
    rfl

end Bip360Enforcer.Validator
