import Mathlib.Data.Nat.Digits.Lemmas

/-!
# Little-endian byte strings
-/

namespace LittleEndian

/-- The low `n` bytes of `v`, least significant first. -/
def encode (n v : Nat) : List UInt8 :=
  (List.range n).map fun i => UInt8.ofNat (v >>> (8 * i))

/-- The number written by `bs`, least significant byte first. -/
def decode (bs : List UInt8) : Nat :=
  Nat.ofDigits 256 (bs.map UInt8.toNat)

@[simp] theorem length_encode (n v : Nat) : (encode n v).length = n := by simp [encode]

@[simp] theorem decode_nil : decode [] = 0 := rfl

@[simp] theorem decode_cons (b : UInt8) (bs : List UInt8) :
    decode (b :: bs) = b.toNat + 256 * decode bs := by
  simp [decode, Nat.ofDigits_cons]

theorem decode_append (as bs : List UInt8) :
    decode (as ++ bs) = decode as + 256 ^ as.length * decode bs := by
  simp [decode, Nat.ofDigits_append]

theorem decode_lt (bs : List UInt8) : decode bs < 256 ^ bs.length := by
  have h := Nat.ofDigits_lt_base_pow_length (b := 256) (l := bs.map UInt8.toNat) (by omega) (by
    intro x hx
    obtain ⟨b, -, rfl⟩ := List.mem_map.mp hx
    exact b.toNat_lt)
  simpa [decode] using h

theorem encode_succ (n v : Nat) : encode (n + 1) v = UInt8.ofNat v :: encode n (v >>> 8) := by
  simp [encode, List.range_succ_eq_map, Function.comp_def, Nat.shiftRight_add, Nat.mul_add,
    Nat.add_comm]

/-- A number is read back from as many bytes as it fits in. -/
theorem decode_encode {n v : Nat} (h : v < 256 ^ n) : decode (encode n v) = v := by
  induction n generalizing v with
  | zero =>
      obtain rfl : v = 0 := by simpa using h
      rfl
  | succ n ih =>
      have hshift : v >>> 8 = v / 256 := by rw [Nat.shiftRight_eq_div_pow]
      have hlt : v / 256 < 256 ^ n := Nat.div_lt_of_lt_mul (by rwa [Nat.pow_succ'] at h)
      rw [encode_succ, decode_cons, hshift, ih hlt, UInt8.toNat_ofNat']
      exact Nat.mod_add_div v 256

theorem encode_decode (bs : List UInt8) : encode bs.length (decode bs) = bs := by
  induction bs with
  | nil => rfl
  | cons b bs ih =>
      have hlow : UInt8.ofNat (b.toNat + 256 * decode bs) = b := by
        apply UInt8.toNat.inj
        rw [UInt8.toNat_ofNat', Nat.add_mul_mod_self_left]
        exact Nat.mod_eq_of_lt b.toNat_lt
      have hhigh : (b.toNat + 256 * decode bs) >>> 8 = decode bs := by
        have hlt := b.toNat_lt
        rw [Nat.shiftRight_eq_div_pow]
        omega
      rw [List.length_cons, decode_cons, encode_succ, hlow, hhigh, ih]

theorem encode_inj {n v w : Nat} (hv : v < 256 ^ n) (hw : w < 256 ^ n) (h : encode n v = encode n w) :
    v = w := by
  rw [← decode_encode hv, h, decode_encode hw]

/-! ## Bits of a byte -/

theorem toNat_low7 (b : UInt8) : (b &&& 0x7f).toNat = b.toNat % 128 := by
  rw [UInt8.toNat_and]
  exact Nat.and_two_pow_sub_one_eq_mod b.toNat 7

theorem low7_eq_zero (b : UInt8) : b &&& 0x7f = 0 ↔ b.toNat % 128 = 0 := by
  rw [← UInt8.toNat_inj, toNat_low7]
  rfl

theorem top_eq_zero (b : UInt8) : b &&& 0x80 = 0 ↔ b.toNat < 128 := by
  have h : ∀ n : Fin 256, UInt8.ofNat n &&& 0x80 = 0 ↔ n.val < 128 := by decide +kernel
  simpa using h ⟨b.toNat, b.toNat_lt⟩

end LittleEndian
