import Mathlib.Data.Nat.Init

/-!
# Numbers in base 128, with one added for each byte that goes on

Every string of bytes that ends where it first can is the form of one number, and of no other.
-/

namespace Varint

/-- The bytes that go on, which leave `a` to the byte after them. -/
def carry : Nat → List UInt8
  | 0 => []
  | a + 1 => carry (a / 128) ++ [UInt8.ofNat (128 + a % 128)]
  termination_by a => a
  decreasing_by omega

def write (n : Nat) : List UInt8 := carry (n / 128) ++ [UInt8.ofNat (n % 128)]

/-- The number at the start of a byte string, and what follows it. -/
def read : Nat → List UInt8 → Option (Nat × List UInt8)
  | _, [] => none
  | a, b :: rest =>
      if b.toNat < 128 then some (a * 128 + b.toNat, rest)
      else read (a * 128 + (b.toNat - 128) + 1) rest

/-- The byte string is the start of a form that goes on. -/
def Inside (bytes : List UInt8) : Prop := ∃ n more, more ≠ [] ∧ write n = bytes ++ more

variable {a n : Nat} {bytes rest : List UInt8}

theorem carry_zero : carry 0 = [] := by rw [carry]

theorem carry_succ (a : Nat) : carry (a + 1) = carry (a / 128) ++ [UInt8.ofNat (128 + a % 128)] := by
  rw [carry]

/-! ## Reading what is written -/

theorem read_carry (a : Nat) (rest : List UInt8) : read 0 (carry a ++ rest) = read a rest := by
  induction a using Nat.strong_induction_on generalizing rest with
  | _ a ih =>
      cases a with
      | zero => rw [carry_zero, List.nil_append]
      | succ a =>
          have hbyte : (UInt8.ofNat (128 + a % 128)).toNat = 128 + a % 128 := by
            rw [UInt8.toNat_ofNat']
            omega
          have hsum : a / 128 * 128 + (128 + a % 128 - 128) + 1 = a + 1 := by omega
          rw [carry_succ, List.append_assoc, ih (a / 128) (by omega), List.singleton_append, read, hbyte,
            if_neg (by omega), hsum]

theorem read_write (n : Nat) (rest : List UInt8) : read 0 (write n ++ rest) = some (n, rest) := by
  have hbyte : (UInt8.ofNat (n % 128)).toNat = n % 128 := by
    rw [UInt8.toNat_ofNat']
    omega
  have hsum : n / 128 * 128 + n % 128 = n := by omega
  rw [write, List.append_assoc, read_carry, List.singleton_append, read, hbyte, if_pos (by omega), hsum]

theorem write_injective : Function.Injective write := by
  intro n m h
  have hn := read_write n []
  rw [h, read_write] at hn
  cases hn
  rfl

/-! ## What can be read was written -/

theorem carry_append_of_read (h : read a bytes = some (n, rest)) : carry a ++ bytes = write n ++ rest := by
  induction bytes generalizing a with
  | nil => cases h
  | cons b bytes ih =>
      have hb := b.toNat_lt
      rw [read] at h
      split at h
      · cases h
        have hdiv : (a * 128 + b.toNat) / 128 = a := by omega
        have hmod : (a * 128 + b.toNat) % 128 = b.toNat := by omega
        rw [write, hdiv, hmod, UInt8.ofNat_toNat, List.append_assoc, List.singleton_append]
      · have hdiv : (a * 128 + (b.toNat - 128)) / 128 = a := by omega
        have hmod : 128 + (a * 128 + (b.toNat - 128)) % 128 = b.toNat := by omega
        rw [← ih h, carry_succ, hdiv, hmod, UInt8.ofNat_toNat, List.append_assoc, List.singleton_append]

theorem eq_write_of_read (h : read 0 bytes = some (n, rest)) : bytes = write n ++ rest := by
  rw [← carry_append_of_read h, carry_zero, List.nil_append]

/-- The bytes read only make the number larger. -/
theorem mul_le_of_read (h : read a bytes = some (n, rest)) : a * 128 ≤ n := by
  induction bytes generalizing a with
  | nil => cases h
  | cons b bytes ih =>
      rw [read] at h
      split at h
      · cases h
        omega
      · have := ih h
        omega

/-! ## Where the bytes end first -/

theorem read_concat_zero (h : read a bytes = none) : ∃ n, read a (bytes ++ [0]) = some (n, []) := by
  induction bytes generalizing a with
  | nil => exact ⟨_, rfl⟩
  | cons b bytes ih =>
      rw [read] at h
      split at h
      · cases h
      · rename_i hb
        obtain ⟨n, hn⟩ := ih h
        refine ⟨n, ?_⟩
        rw [List.cons_append, read, if_neg hb, hn]

theorem inside_iff : Inside bytes ↔ read 0 bytes = none := by
  constructor
  · rintro ⟨v, more, hmore, hwrite⟩
    cases hread : read 0 bytes with
    | none => rfl
    | some result =>
        obtain ⟨n, rest⟩ := result
        have hv := read_write v []
        rw [List.append_nil, hwrite, eq_write_of_read hread, List.append_assoc, read_write] at hv
        have hnil : rest ++ more = [] := (Prod.mk.inj (Option.some.inj hv)).2
        exact absurd (List.append_eq_nil_iff.mp hnil).2 hmore
  · intro h
    obtain ⟨n, hn⟩ := read_concat_zero h
    refine ⟨n, [0], List.cons_ne_nil _ _, ?_⟩
    rw [eq_write_of_read hn, List.append_nil]

end Varint
