import Bip360Enforcer.Tapscript.Bip342
import Bip360Enforcer.Tapscript.Lemmas.Vault

/-!
# Timelocks, bit by bit
-/

namespace Bip360Enforcer.Tapscript

variable {tx : Transaction} {inputIndex : Nat}

/-! ## Bits of natural numbers -/

theorem and_two_pow_eq (x i : Nat) : x &&& 2 ^ i = if x.testBit i then 2 ^ i else 0 := by
  apply Nat.eq_of_testBit_eq
  intro j
  rw [Nat.testBit_and, Nat.testBit_two_pow]
  by_cases hij : i = j
  · subst hij
    cases h : x.testBit i <;> simp
  · split <;> simp [hij]

theorem and_two_pow_eq_zero (x i : Nat) : x &&& 2 ^ i = 0 ↔ x.testBit i = false := by
  rw [and_two_pow_eq]
  cases x.testBit i <;> simp

/-- The mask of the type flag and the value of a relative timelock. -/
theorem and_sequenceMask (x : Nat) :
    x &&& (2 ^ 22 ||| 0xffff) = (if x.testBit 22 then 2 ^ 22 else 0) + x % 2 ^ 16 := by
  have hmod : x &&& 0xffff = x % 2 ^ 16 := Nat.and_two_pow_sub_one_eq_mod x 16
  have hlt : x % 2 ^ 16 < 2 ^ 22 := by omega
  rw [Nat.and_or_distrib_left, and_two_pow_eq, hmod]
  split
  · have := Nat.two_pow_add_eq_or_of_lt hlt 1
    rw [Nat.mul_one] at this
    exact this.symm
  · simp

/-! ## Bits of 64-bit integers -/

/-- `n` is the natural number `k`, small enough for a 64-bit integer. -/
structure IsNat (n : Int64) (k : Nat) : Prop where
  toNat_eq : n.toUInt64.toNat = k
  lt : k < 2 ^ 63

theorem IsNat.toInt_eq {n : Int64} {k : Nat} (h : IsNat n k) : n.toInt = k :=
  toInt_of_toNat h.toNat_eq h.lt

theorem isNat_of_nonneg {n : Int64} (h : 0 ≤ n.toInt) : IsNat n n.toInt.toNat := by
  have := n.toInt_lt
  exact ⟨toNat_toUInt64 h, by omega⟩

theorem isNat_of_u32 (x : UInt32) : IsNat x.toUInt64.toInt64 x.toNat := by
  have := x.toNat_lt
  exact ⟨by simp, by omega⟩

theorem IsNat.and {n m : Int64} {j k : Nat} (hn : IsNat n j) (hm : IsNat m k) :
    IsNat (n &&& m) (j &&& k) where
  toNat_eq := by rw [Int64.toUInt64_and, UInt64.toNat_and, hn.toNat_eq, hm.toNat_eq]
  lt := Nat.and_le_left.trans_lt hn.lt

theorem IsNat.lt_iff {n m : Int64} {j k : Nat} (hn : IsNat n j) (hm : IsNat m k) :
    n < m ↔ j < k := by
  rw [Int64.lt_iff_toInt_lt, hn.toInt_eq, hm.toInt_eq]
  omega

theorem IsNat.le_iff {n m : Int64} {j k : Nat} (hn : IsNat n j) (hm : IsNat m k) :
    n ≤ m ↔ j ≤ k := by
  rw [Int64.le_iff_toInt_le, hn.toInt_eq, hm.toInt_eq]
  omega

theorem IsNat.eq_zero_iff {n : Int64} {k : Nat} (h : IsNat n k) : n = 0 ↔ k = 0 := by
  rw [← Int64.toInt_inj, h.toInt_eq, Int64.toInt_zero]
  omega

theorem isNat_disableFlag : IsNat sequenceLocktimeDisableFlag (2 ^ 31) := ⟨by decide, by omega⟩

theorem isNat_typeFlag : IsNat sequenceLocktimeTypeFlag (2 ^ 22) := ⟨by decide, by omega⟩

theorem isNat_sequenceMask :
    IsNat (sequenceLocktimeTypeFlag ||| sequenceLocktimeMask) (2 ^ 22 ||| 0xffff) :=
  ⟨by decide, by decide⟩

theorem isNat_threshold : IsNat locktimeThreshold 500000000 := ⟨by decide, by omega⟩

theorem disabled_iff {n : Int64} {k : Nat} (h : IsNat n k) :
    n &&& sequenceLocktimeDisableFlag ≠ 0 ↔ k.testBit 31 = true := by
  rw [ne_eq, (h.and isNat_disableFlag).eq_zero_iff, and_two_pow_eq_zero]
  simp

/-! ## Checks -/

/-- The comparison of masked values is one of types and of low bits. -/
theorem maskedCompare {n s n' s' : Nat} (hn' : n' = n &&& (2 ^ 22 ||| 0xffff))
    (hs' : s' = s &&& (2 ^ 22 ||| 0xffff)) :
    ((s' < 2 ^ 22 ∧ n' < 2 ^ 22 ∨ 2 ^ 22 ≤ s' ∧ 2 ^ 22 ≤ n') ∧ n' ≤ s') ↔
      n.testBit 22 = s.testBit 22 ∧ n % 2 ^ 16 ≤ s % 2 ^ 16 := by
  have hn : n % 2 ^ 16 < 2 ^ 16 := Nat.mod_lt _ (by omega)
  have hs : s % 2 ^ 16 < 2 ^ 16 := Nat.mod_lt _ (by omega)
  rw [hn', hs', and_sequenceMask, and_sequenceMask]
  cases n.testBit 22 <;> cases s.testBit 22 <;> simp <;> omega

variable {R : Bip342.Rules}

/-- The part of the check that compares two sequence numbers. -/
theorem compareSequence {n s : Int64} {j k : Nat} (hn : IsNat n j) (hs : IsNat s k) :
    let mask := sequenceLocktimeTypeFlag ||| sequenceLocktimeMask
    let sameType := (s &&& mask < sequenceLocktimeTypeFlag && n &&& mask < sequenceLocktimeTypeFlag)
      || (sequenceLocktimeTypeFlag ≤ s &&& mask && sequenceLocktimeTypeFlag ≤ n &&& mask)
    ¬ (!sameType || s &&& mask < n &&& mask) = true ↔
      j.testBit 22 = k.testBit 22 ∧ j % 2 ^ 16 ≤ k % 2 ^ 16 := by
  intro mask sameType
  have hnm := hn.and isNat_sequenceMask
  have hsm := hs.and isNat_sequenceMask
  rw [← maskedCompare rfl rfl]
  simp only [sameType, mask, hsm.lt_iff isNat_typeFlag, hnm.lt_iff isNat_typeFlag,
    isNat_typeFlag.le_iff hsm, isNat_typeFlag.le_iff hnm, hsm.lt_iff hnm]
  simp only [Bool.or_eq_true, Bool.not_eq_true', Bool.or_eq_false_iff, Bool.and_eq_false_iff,
    decide_eq_true_eq, decide_eq_false_iff_not]
  omega

theorem checkSequence_eq_ok {n : Int64} {k : Nat} (h : IsNat n k) :
    checkSequence n R.tx R.inputIndex = .ok () ↔ Bip342.sequenceSatisfied R k = true := by
  have hversion : R.tx.version.toUInt32 < 2 ↔ ¬ 2 ≤ R.tx.version.toUInt32.toNat := by
    rw [UInt32.lt_iff_toNat_lt, not_le]; rfl
  unfold checkSequence Bip342.sequenceSatisfied
  by_cases hdisabled : k.testBit 31 = true
  · rw [if_pos ((disabled_iff h).mpr hdisabled), if_pos hdisabled]
    simp
  · rw [if_neg (mt (disabled_iff h).mp hdisabled), if_neg hdisabled]
    cases R.tx.input[R.inputIndex]? with
    | none => simp [Except.ite_error_eq_ok_iff]
    | some input =>
        have hs := isNat_of_u32 input.sequence
        simp only [Except.ite_error_eq_ok_iff, compareSequence h hs, disabled_iff hs, hversion,
          Bool.and_eq_true, Bool.not_eq_true', beq_iff_eq, decide_eq_true_eq, not_not,
          Bool.not_eq_true, and_true, and_assoc]

theorem checkLocktime_eq_ok {n : Int64} {k : Nat} (h : IsNat n k) :
    checkLocktime n R.tx R.inputIndex = .ok () ↔ Bip342.locktimeSatisfied R k = true := by
  have hl := isNat_of_u32 R.tx.lockTime
  unfold checkLocktime Bip342.locktimeSatisfied
  cases R.tx.input[R.inputIndex]? with
  | none => simp [Except.ite_error_eq_ok_iff]
  | some input =>
      simp only [gt_iff_lt, Except.ite_error_eq_ok_iff, hl.lt_iff isNat_threshold,
        h.lt_iff isNat_threshold, isNat_threshold.le_iff hl, isNat_threshold.le_iff h, hl.lt_iff h,
        Bool.and_eq_true, bne_iff_ne, ne_eq, beq_iff_eq, decide_eq_true_eq, decide_eq_decide,
        Bool.or_eq_true, Bool.not_eq_true', Bool.or_eq_false_iff, Bool.and_eq_false_iff,
        decide_eq_false_iff_not, and_true]
      have hsame : ¬ ((¬ R.tx.lockTime.toNat < 500000000 ∨ ¬ k < 500000000) ∧
            (¬ 500000000 ≤ R.tx.lockTime.toNat ∨ ¬ 500000000 ≤ k) ∨ R.tx.lockTime.toNat < k) ↔
          (k < 500000000 ↔ R.tx.lockTime.toNat < 500000000) ∧ k ≤ R.tx.lockTime.toNat := by
        omega
      rw [hsame]

end Bip360Enforcer.Tapscript
