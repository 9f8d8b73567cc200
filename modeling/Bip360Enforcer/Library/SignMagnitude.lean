import Bip360Enforcer.Library.LittleEndian

/-!
# Signed numbers as little-endian byte strings

The magnitude comes least significant byte first; the top bit of the last byte is the sign.
-/

namespace SignMagnitude

open LittleEndian

/-- The number a byte string stands for, whether or not it is its shortest form. -/
def value (bytes : List UInt8) : Int :=
  match bytes.getLast? with
  | none => 0
  | some last =>
      if last.toNat < 128 then decode bytes
      else -(decode bytes - 128 * 256 ^ (bytes.length - 1) : Int)

/-- The bytes of a natural number, without a leading zero. -/
def magnitude (n : Nat) : List UInt8 := (Nat.digits 256 n).map UInt8.ofNat

/-- Put the sign into the top bit, in a byte of its own where that bit is taken. -/
def withSign (neg : Bool) (bytes : List UInt8) : List UInt8 :=
  match bytes.getLast? with
  | none => []
  | some top =>
      if top.toNat < 128 then bytes.dropLast ++ [if neg then top + 128 else top]
      else bytes ++ [if neg then 128 else 0]

/-- The shortest byte string that stands for `n`. -/
def encode (n : Int) : List UInt8 := withSign (n < 0) (magnitude n.natAbs)

/-- A byte string that is the shortest form of the number it stands for. -/
def Minimal (bytes : List UInt8) : Prop := encode (value bytes) = bytes

instance (bytes : List UInt8) : Decidable (Minimal bytes) :=
  inferInstanceAs (Decidable (encode (value bytes) = bytes))

/-! ## The last byte -/

theorem decode_concat (init : List UInt8) (last : UInt8) :
    decode (init ++ [last]) = decode init + 256 ^ init.length * last.toNat := by
  simp [decode_append]

theorem value_concat (init : List UInt8) (last : UInt8) :
    value (init ++ [last]) =
      if last.toNat < 128 then (decode init + 256 ^ init.length * last.toNat : Int)
      else -(decode init + 256 ^ init.length * (last.toNat - 128) : Int) := by
  simp only [value, List.getLast?_append, List.getLast?_singleton, Option.some_or, decode_concat,
    List.length_append, List.length_singleton, Nat.add_sub_cancel]
  split
  · push_cast; rfl
  · push_cast; ring

theorem withSign_concat (neg : Bool) (init : List UInt8) (top : UInt8) :
    withSign neg (init ++ [top]) =
      if top.toNat < 128 then init ++ [if neg then top + 128 else top]
      else init ++ [top] ++ [if neg then 128 else 0] := by
  simp [withSign]

/-! ## Magnitudes -/

theorem magnitude_decode_concat (init : List UInt8) {top : UInt8} (h : top ≠ 0) :
    magnitude (decode (init ++ [top])) = init ++ [top] := by
  have hdigits : Nat.digits 256 (decode (init ++ [top])) = (init ++ [top]).map UInt8.toNat := by
    refine Nat.digits_ofDigits 256 (by omega) _ ?_ ?_
    · intro d hd
      obtain ⟨b, -, rfl⟩ := List.mem_map.mp hd
      exact b.toNat_lt
    · intro _
      simpa [List.getLast_append, ← UInt8.toNat_inj] using h
  rw [magnitude, hdigits, List.map_map]
  simp [Function.comp_def]

theorem magnitude_getLast {n : Nat} (hn : n ≠ 0) :
    ∃ init top, magnitude n = init ++ [top] ∧ top ≠ 0 := by
  have hne : Nat.digits 256 n ≠ [] := Nat.digits_ne_nil_iff_ne_zero.mpr hn
  refine ⟨(Nat.digits 256 n).dropLast.map UInt8.ofNat,
    UInt8.ofNat ((Nat.digits 256 n).getLast hne), ?_, ?_⟩
  · rw [magnitude]
    conv_lhs => rw [← List.dropLast_append_getLast hne]
    simp
  · have hlast := Nat.getLast_digit_ne_zero 256 hn
    have hlt := Nat.digits_lt_base (b := 256) (by omega) (List.getLast_mem hne)
    simp only [ne_eq, ← UInt8.toNat_inj, UInt8.toNat_ofNat']
    simp
    omega

/-! ## Shortest forms -/

/-- The last byte is needed: it holds more than the sign, or the byte before has its top bit set. -/
def LastNeeded (init : List UInt8) (last : UInt8) : Prop :=
  last.toNat % 128 ≠ 0 ∨ ∃ init' p, init = init' ++ [p] ∧ 128 ≤ p.toNat

theorem natAbs_value_concat (init : List UInt8) (last : UInt8) :
    (value (init ++ [last])).natAbs = decode init + 256 ^ init.length * (last.toNat % 128) := by
  have hlast := last.toNat_lt
  rw [value_concat]
  split
  · rename_i h
    rw [Nat.mod_eq_of_lt h]
    exact Int.natAbs_natCast (decode init + 256 ^ init.length * last.toNat)
  · rename_i h
    have hmod : last.toNat % 128 = last.toNat - 128 := by omega
    rw [Int.natAbs_neg, hmod, show (last.toNat - 128 : Int) = ((last.toNat - 128 : Nat) : Int) by omega]
    exact Int.natAbs_natCast (decode init + 256 ^ init.length * (last.toNat - 128))

theorem value_concat_neg {init : List UInt8} {last : UInt8}
    (hpos : 0 < (value (init ++ [last])).natAbs) :
    value (init ++ [last]) < 0 ↔ 128 ≤ last.toNat := by
  have habs := natAbs_value_concat init last
  rw [value_concat] at *
  split_ifs at * with h
  · have : 0 ≤ (decode init + 256 ^ init.length * last.toNat : Int) := by positivity
    omega
  · have : 0 ≤ (decode init + 256 ^ init.length * (last.toNat - 128) : Int) := by
      have : (0 : Int) ≤ last.toNat - 128 := by omega
      positivity
    omega

/-- The last byte holds part of the magnitude beside the sign. -/
theorem encode_value_of_low {init : List UInt8} {last : UInt8} (hlow : last.toNat % 128 ≠ 0) :
    encode (value (init ++ [last])) = init ++ [last] := by
  have hlast := last.toNat_lt
  have habs := natAbs_value_concat init last
  obtain ⟨t, ht⟩ : ∃ t : UInt8, t.toNat = last.toNat % 128 :=
    ⟨UInt8.ofNat (last.toNat % 128), by simp; omega⟩
  have ht0 : t ≠ 0 := by rw [ne_eq, ← UInt8.toNat_inj]; simpa [ht] using hlow
  have hpos : 0 < 256 ^ init.length * t.toNat := by
    rw [ht]; exact Nat.mul_pos (by positivity) (by omega)
  rw [← ht] at habs
  have hneg := @value_concat_neg init last (by omega)
  rw [encode, habs, ← decode_concat, magnitude_decode_concat init ht0, withSign_concat,
    if_pos (by omega)]
  simp only [hneg, List.append_cancel_left_eq, List.cons.injEq, and_true]
  rw [← UInt8.toNat_inj]
  split_ifs with h <;> simp at h ⊢ <;> omega

/-- The last byte holds the sign alone. -/
theorem encode_value_of_sign {init : List UInt8} {p last : UInt8} (hp : 128 ≤ p.toNat)
    (hlow : last.toNat % 128 = 0) :
    encode (value (init ++ [p] ++ [last])) = init ++ [p] ++ [last] := by
  have hlast := last.toNat_lt
  have habs := natAbs_value_concat (init ++ [p]) last
  have hp0 : p ≠ 0 := by rintro rfl; simp at hp
  have hpos : 0 < 256 ^ init.length * p.toNat := Nat.mul_pos (by positivity) (by omega)
  rw [hlow, Nat.mul_zero, Nat.add_zero] at habs
  have hneg := @value_concat_neg (init ++ [p]) last
    (by rw [habs, decode_concat]; omega)
  rw [encode, habs, magnitude_decode_concat init hp0, withSign_concat, if_neg (by omega)]
  simp only [hneg, List.append_cancel_left_eq, List.cons.injEq, and_true]
  rw [← UInt8.toNat_inj]
  split_ifs with h <;> simp at h ⊢ <;> omega

theorem encode_value_concat {init : List UInt8} {last : UInt8} (h : LastNeeded init last) :
    encode (value (init ++ [last])) = init ++ [last] := by
  by_cases hlow : last.toNat % 128 = 0
  · rcases h with h | ⟨init, p, rfl, hp⟩
    · exact absurd hlow h
    · exact encode_value_of_sign hp hlow
  · exact encode_value_of_low hlow

/-- The end of an encoding is never superfluous. -/
theorem lastNeeded_of_encode {n : Int} {init : List UInt8} {last : UInt8}
    (h : encode n = init ++ [last]) : LastNeeded init last := by
  by_cases hn : n.natAbs = 0
  · simp [encode, hn, magnitude, withSign] at h
  · obtain ⟨digits, top, hmag, htop⟩ := magnitude_getLast hn
    have htop' := top.toNat_lt
    have htop0 : top.toNat ≠ 0 := by simpa [← UInt8.toNat_inj] using htop
    rw [encode, hmag, withSign_concat] at h
    split at h
    · obtain ⟨rfl, hl⟩ := List.append_inj' h rfl
      simp only [List.cons.injEq, and_true] at hl
      left
      subst hl
      split_ifs
      · simp; omega
      · omega
    · obtain ⟨rfl, -⟩ := List.append_inj' h rfl
      exact .inr ⟨digits, top, rfl, by omega⟩

theorem minimal_concat {init : List UInt8} {last : UInt8} :
    Minimal (init ++ [last]) ↔ LastNeeded init last :=
  ⟨lastNeeded_of_encode, encode_value_concat⟩

@[simp] theorem minimal_nil : Minimal [] := by
  simp [Minimal, value, encode, magnitude, withSign]

/-! ## Encoding keeps the number -/

theorem decode_magnitude (n : Nat) : decode (magnitude n) = n := by
  have hdigits : (magnitude n).map UInt8.toNat = Nat.digits 256 n := by
    rw [magnitude, List.map_map]
    conv_rhs => rw [← List.map_id (Nat.digits 256 n)]
    apply List.map_congr_left
    intro d hd
    have hlt := Nat.digits_lt_base (b := 256) (by omega) hd
    exact Nat.mod_eq_of_lt hlt
  rw [decode, hdigits, Nat.ofDigits_digits]

theorem value_withSign (neg : Bool) (init : List UInt8) (top : UInt8) :
    value (withSign neg (init ++ [top])) =
      if neg then -(decode (init ++ [top]) : Int) else decode (init ++ [top]) := by
  have htop := top.toNat_lt
  rw [withSign_concat]
  by_cases hlow : top.toNat < 128
  · rw [if_pos hlow, value_concat]
    cases neg with
    | false =>
        simp only [Bool.false_eq_true, if_false, if_pos hlow, decode_concat]
        push_cast
        rfl
    | true =>
        have hsum : (top + 128).toNat = top.toNat + 128 := by simp; omega
        rw [if_pos rfl, if_pos rfl, hsum, if_neg (by omega), decode_concat]
        push_cast
        ring
  · rw [if_neg hlow, value_concat]
    cases neg <;> simp

theorem value_encode (n : Int) : value (encode n) = n := by
  by_cases hn : n.natAbs = 0
  · obtain rfl : n = 0 := Int.natAbs_eq_zero.mp hn
    simp [encode, magnitude, withSign, value]
  · obtain ⟨init, top, hmag, -⟩ := magnitude_getLast hn
    have hdecode := decode_magnitude n.natAbs
    rw [hmag] at hdecode
    rw [encode, hmag, value_withSign, hdecode]
    split
    · rename_i hneg
      have := of_decide_eq_true hneg
      omega
    · rename_i hneg
      have : ¬ n < 0 := fun h => hneg (decide_eq_true h)
      omega

theorem minimal_encode (n : Int) : Minimal (encode n) := by rw [Minimal, value_encode]

/-! ## Shortest among the byte strings for one number -/

/-- `bytes` stands for `n`, and no byte string that does is shorter. -/
def ShortestFor (n : Int) (bytes : List UInt8) : Prop :=
  value bytes = n ∧ ∀ other, value other = n → bytes.length ≤ other.length

/-- The sign bit moves down into the byte before, where that has room for it. -/
theorem exists_shorter {init : List UInt8} {last : UInt8} (h : ¬ LastNeeded init last) :
    ∃ other, value other = value (init ++ [last]) ∧ other.length ≤ init.length := by
  have hlast := last.toNat_lt
  have habs := natAbs_value_concat init last
  rw [LastNeeded, not_or, not_not] at h
  obtain ⟨hlow, hroom⟩ := h
  rcases List.eq_nil_or_concat init with rfl | ⟨init', p, rfl⟩
  · rw [hlow] at habs
    exact ⟨[], (Int.natAbs_eq_zero.mp habs).symm, Nat.le_refl _⟩
  · rw [List.concat_eq_append] at habs hroom ⊢
    have hp : p.toNat < 128 := by
      by_contra hp
      exact hroom ⟨init', p, rfl, by omega⟩
    have hforms := value_concat (init' ++ [p]) last
    rw [decode_concat] at hforms
    have hmoved := value_withSign (decide (128 ≤ last.toNat)) init' p
    rw [decode_concat] at hmoved
    refine ⟨withSign (128 ≤ last.toNat) (init' ++ [p]), ?_, ?_⟩
    · have hsign : last.toNat = 0 ∨ last.toNat = 128 := by omega
      rw [hforms, hmoved]
      rcases hsign with hsign | hsign
      · simp [hsign]
      · simp [hsign]
    · rw [withSign_concat, if_pos hp]
      simp

theorem encode_length_le {n : Int} {bytes : List UInt8} (h : value bytes = n) :
    (encode n).length ≤ bytes.length := by
  induction hlen : bytes.length using Nat.strong_induction_on generalizing bytes with
  | _ len ih =>
      by_cases hmin : Minimal bytes
      · rw [Minimal, h] at hmin
        rw [hmin, hlen]
      · rcases List.eq_nil_or_concat bytes with rfl | ⟨init, last, rfl⟩
        · exact absurd minimal_nil hmin
        · rw [List.concat_eq_append] at h hmin hlen
          obtain ⟨other, hvalue, hother⟩ := exists_shorter (mt minimal_concat.mpr hmin)
          rw [List.length_append, List.length_singleton] at hlen
          exact (ih other.length (by omega) (hvalue.trans h) rfl).trans (by omega)

/-- There is one shortest form, the one `encode` writes. -/
theorem shortestFor_iff {n : Int} {bytes : List UInt8} : ShortestFor n bytes ↔ bytes = encode n := by
  constructor
  · rintro ⟨rfl, hshortest⟩
    symm
    rcases List.eq_nil_or_concat bytes with rfl | ⟨init, last, rfl⟩
    · exact minimal_nil
    · rw [List.concat_eq_append] at hshortest ⊢
      refine encode_value_concat ?_
      by_contra hneeded
      obtain ⟨other, hvalue, hother⟩ := exists_shorter hneeded
      have hle := hshortest other hvalue
      rw [List.length_append, List.length_singleton] at hle
      omega
  · rintro rfl
    exact ⟨value_encode n, fun _ h => encode_length_le h⟩

/-! ## How many bytes -/

theorem pow_256 (k : Nat) : 256 ^ k = 2 ^ (8 * k) := by rw [Nat.pow_mul]

theorem natAbs_lt_of_length_le {m : Nat} {bytes : List UInt8} (hpos : 0 < m) (hm : bytes.length ≤ m) :
    (value bytes).natAbs < 2 ^ (8 * m - 1) := by
  rcases List.eq_nil_or_concat bytes with rfl | ⟨init, last, rfl⟩
  · simp [value]
  · rw [List.concat_eq_append] at hm ⊢
    rw [List.length_append, List.length_singleton] at hm
    have hinit := decode_lt init
    have hlow := Nat.mul_le_mul_left (256 ^ init.length) (show last.toNat % 128 ≤ 127 by omega)
    rw [natAbs_value_concat]
    calc decode init + 256 ^ init.length * (last.toNat % 128) < 256 ^ init.length * 128 := by omega
      _ = 2 ^ (8 * init.length + 7) := by rw [pow_256, Nat.pow_add]
      _ ≤ 2 ^ (8 * m - 1) := Nat.pow_le_pow_right (by omega) (by omega)

theorem length_encode_le {m : Nat} {n : Int} (hn : n.natAbs < 2 ^ (8 * m - 1)) :
    (encode n).length ≤ m := by
  rcases List.eq_nil_or_concat (encode n) with hnil | ⟨init, last, hconcat⟩
  · simp [hnil]
  · rw [List.concat_eq_append] at hconcat
    have habs := natAbs_value_concat init last
    rw [← hconcat, value_encode] at habs
    rw [hconcat, List.length_append, List.length_singleton]
    by_contra hlong
    have hlarge : 2 ^ (8 * init.length - 1) ≤ n.natAbs := by
      rcases lastNeeded_of_encode hconcat with hlow | ⟨init', p, rfl, hp⟩
      · have hmul := Nat.mul_le_mul_left (256 ^ init.length) (show 1 ≤ last.toNat % 128 by omega)
        have hpow : 2 ^ (8 * init.length - 1) ≤ 2 ^ (8 * init.length) :=
          Nat.pow_le_pow_right (by omega) (by omega)
        rw [pow_256] at habs hmul
        omega
      · have hmul := Nat.mul_le_mul_left (256 ^ init'.length) hp
        rw [List.length_append, List.length_singleton,
          show 8 * (init'.length + 1) - 1 = 8 * init'.length + 7 by omega, Nat.pow_add, ← pow_256]
        rw [decode_concat] at habs
        omega
    have hgrow : 2 ^ (8 * m - 1) ≤ 2 ^ (8 * init.length - 1) :=
      Nat.pow_le_pow_right (by omega) (by omega)
    omega

end SignMagnitude
