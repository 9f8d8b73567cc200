import Mathlib.Data.List.Basic

/-!
# Lists cut into chunks
-/

namespace Chunks

variable {α : Type} {n : Nat} {xs ys : List α}

theorem flatten_go (n : Nat) (xs : List α) (acc : Array α) (chunks : Array (List α)) :
    (List.toChunks.go n xs acc chunks).flatten = chunks.toList.flatten ++ acc.toList ++ xs := by
  induction xs generalizing acc chunks with
  | nil => simp [List.toChunks.go]
  | cons x xs ih =>
      rw [List.toChunks.go]
      split
      · simp [ih]
      · simp [ih]

theorem flatten_toChunks (n : Nat) (xs : List α) : (xs.toChunks n).flatten = xs := by
  cases xs with
  | nil => rfl
  | cons x xs =>
      cases n with
      | zero => simp [List.toChunks]
      | succ n => simp [List.toChunks, flatten_go]

theorem toChunks_cons (n : Nat) (x : α) (xs : List α) :
    (x :: xs).toChunks (n + 1) = List.toChunks.go (n + 1) xs #[x] #[] := rfl

/-- The chunks that are done stay in front. -/
theorem go_eq (n : Nat) (xs : List α) (acc : Array α) (chunks : Array (List α)) :
    List.toChunks.go n xs acc chunks = chunks.toList ++ List.toChunks.go n xs acc #[] := by
  induction xs generalizing acc chunks with
  | nil => simp [List.toChunks.go]
  | cons x xs ih =>
      rw [List.toChunks.go, List.toChunks.go]
      split
      · rw [ih, ih _ (#[].push acc.toList)]
        simp
      · exact ih _ _

/-- A chunk grows until it is full. -/
theorem go_append {acc : Array α} (h : acc.size + xs.length ≤ n) :
    List.toChunks.go n (xs ++ ys) acc #[] = List.toChunks.go n ys (acc ++ xs.toArray) #[] := by
  induction xs generalizing acc with
  | nil => simp
  | cons x xs ih =>
      rw [List.length_cons] at h
      have hne : ¬ (acc.size == n) = true := by simp; omega
      rw [List.cons_append, List.toChunks.go, if_neg hne, ih (by rw [Array.size_push]; omega)]
      simp

theorem toChunks_append (hpos : 0 < n) (h : xs.length = n) :
    (xs ++ ys).toChunks n = xs :: ys.toChunks n := by
  cases xs with
  | nil => exact absurd h (Nat.ne_of_lt hpos)
  | cons x xs =>
      cases n with
      | zero => cases hpos
      | succ n =>
          have hsize : (#[x] ++ xs.toArray).size = n + 1 := by simpa [Nat.add_comm] using h
          rw [List.cons_append, toChunks_cons, go_append (by simpa [Nat.add_comm] using Nat.le_of_eq h)]
          cases ys with
          | nil => simp [List.toChunks.go, List.toChunks]
          | cons y ys =>
              rw [List.toChunks.go, if_pos (by simpa using hsize), go_eq]
              simp [toChunks_cons]

theorem toChunks_of_length_le (hne : xs ≠ []) (h : xs.length ≤ n) : xs.toChunks n = [xs] := by
  cases xs with
  | nil => exact absurd rfl hne
  | cons x xs =>
      cases n with
      | zero => cases h
      | succ n =>
          have hlength : (#[x] : Array α).size + xs.length ≤ n + 1 := by simpa [Nat.add_comm] using h
          have hgo := @go_append α (n + 1) xs [] #[x] hlength
          rw [List.append_nil] at hgo
          rw [toChunks_cons, hgo]
          simp [List.toChunks.go]

theorem go_ne_nil {acc : Array α} (hacc : 0 < acc.size) :
    ∀ chunk ∈ List.toChunks.go n xs acc #[], chunk ≠ [] := by
  induction xs generalizing acc with
  | nil =>
      rintro chunk hchunk rfl
      have hempty : acc.toList = [] := by simpa [List.toChunks.go, eq_comm] using hchunk
      rw [← Array.length_toList, hempty] at hacc
      cases hacc
  | cons x xs ih =>
      rw [List.toChunks.go]
      split
      · rw [go_eq]
        intro chunk hchunk
        rcases List.mem_append.mp hchunk with hchunk | hchunk
        · rintro rfl
          have hempty : acc.toList = [] := by simpa [eq_comm] using hchunk
          rw [← Array.length_toList, hempty] at hacc
          cases hacc
        · exact ih (by simp) chunk hchunk
      · exact ih (by simp)

/-- No chunk is empty. -/
theorem ne_nil_of_mem_toChunks {chunk : List α} (hpos : 0 < n) (h : chunk ∈ xs.toChunks n) :
    chunk ≠ [] := by
  cases xs with
  | nil => cases h
  | cons x xs =>
      cases n with
      | zero => cases hpos
      | succ n =>
          rw [toChunks_cons] at h
          exact go_ne_nil (by simp) chunk h

/-- Full chunks in front of a list are its first chunks. -/
theorem toChunks_flatten_append {chunks : List (List α)} (hpos : 0 < n)
    (h : ∀ chunk ∈ chunks, chunk.length = n) (xs : List α) :
    (chunks.flatten ++ xs).toChunks n = chunks ++ xs.toChunks n := by
  induction chunks with
  | nil => rfl
  | cons chunk chunks ih =>
      rw [List.flatten_cons, List.append_assoc, toChunks_append hpos (h chunk List.mem_cons_self),
        ih fun other hother => h other (List.mem_cons_of_mem _ hother)]
      rfl

end Chunks
