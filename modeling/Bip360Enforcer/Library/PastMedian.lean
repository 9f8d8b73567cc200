import Mathlib.Data.List.Sort
import Mathlib.Order.Basic

/-!
# The median of the last entries of a list

Lists are newest first.
-/

section

variable {α : Type*} [LinearOrder α]

/-- The middle one of the first `n` entries, the greater one of two. -/
def pastMedian (n : Nat) (xs : List α) : Option α :=
  ((xs.take n).mergeSort fun a b => decide (a ≤ b))[(xs.take n).length / 2]?

/-- In a sorted list, the k-th entry is at most `a` where more than `k` entries are. -/
theorem getElem_le_iff_countP {xs : List α} (h : xs.Pairwise (· ≤ ·)) {k : Nat} {a b : α}
    (hb : xs[k]? = some b) : b ≤ a ↔ k < xs.countP (· ≤ a) := by
  induction xs generalizing k with
  | nil => simp at hb
  | cons x xs ih =>
      rw [List.pairwise_cons] at h
      obtain ⟨hle, hsorted⟩ := h
      have hnone : ¬ x ≤ a → xs.countP (· ≤ a) = 0 := by
        intro hx
        rw [List.countP_eq_zero]
        intro y hy hya
        exact hx ((hle y hy).trans (of_decide_eq_true hya))
      cases k with
      | zero =>
          obtain rfl : x = b := by simpa using hb
          by_cases hx : x ≤ a
          · simp [hx]
          · simp [hx, hnone hx]
      | succ k =>
          rw [List.getElem?_cons_succ] at hb
          rw [ih hsorted hb]
          by_cases hx : x ≤ a
          · simp [hx]
          · simp [hx, hnone hx]

theorem pastMedian_le_iff {n : Nat} {xs : List α} {a m : α} (h : pastMedian n xs = some m) :
    m ≤ a ↔ (xs.take n).length / 2 < (xs.take n).countP (· ≤ a) := by
  have hsorted : ((xs.take n).mergeSort fun a b => decide (a ≤ b)).Pairwise (· ≤ ·) :=
    (List.pairwise_mergeSort' (· ≤ ·) _)
  rw [getElem_le_iff_countP hsorted h, (List.mergeSort_perm _ _).countP_eq]

theorem exists_pastMedian {n : Nat} {xs : List α} (hn : 0 < n) (hxs : xs ≠ []) :
    ∃ m, pastMedian n xs = some m := by
  have hlen : 0 < (xs.take n).length := by
    have := List.length_pos_iff.mpr hxs
    rw [List.length_take]
    omega
  rw [pastMedian]
  exact ⟨_, List.getElem?_eq_getElem (by rw [List.length_mergeSort]; omega)⟩

/-- An entry above the median of those before it is not below the median that it is part of. -/
theorem pastMedian_cons_le {n : Nat} {x m : α} {xs : List α} (hn : 0 < n)
    (habove : ∀ m', pastMedian n xs = some m' → m' < x) (h : pastMedian n (x :: xs) = some m) : m ≤ x := by
  rw [pastMedian_le_iff h]
  obtain ⟨n, rfl⟩ := Nat.exists_eq_add_of_le' hn
  rw [List.take_succ_cons, List.countP_cons_of_pos (by simp), List.length_cons]
  cases hxs : xs with
  | nil => simp
  | cons y ys =>
      obtain ⟨m', hm'⟩ := @exists_pastMedian α _ (n + 1) xs hn (by simp [hxs])
      have hcount := (pastMedian_le_iff hm').mp (habove m' hm').le
      rw [← hxs]
      -- At most one of the entries before it is no longer looked at.
      by_cases hshort : xs.length ≤ n
      · rw [List.take_of_length_le (by omega)] at hcount
        rw [List.take_of_length_le hshort]
        omega
      · have hsplit : xs.take (n + 1) = xs.take n ++ (xs[n]?).toList := List.take_add_one
        have hlast : ((xs[n]?).toList).countP (· ≤ x) ≤ 1 := by
          refine (List.countP_le_length).trans ?_
          cases xs[n]? <;> simp
        rw [hsplit, List.countP_append] at hcount
        rw [List.length_append, List.length_take] at hcount
        have hget : (xs[n]?).toList.length = 1 := by
          rw [List.getElem?_eq_getElem (by omega)]
          rfl
        rw [List.length_take]
        omega

end
