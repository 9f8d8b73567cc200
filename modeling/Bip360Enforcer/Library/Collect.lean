import Mathlib.Algebra.BigOperators.Group.List.Basic
import Mathlib.Algebra.GroupWithZero.Nat
import Mathlib.Data.List.AList
import Mathlib.Data.List.Induction

/-!
# Collecting pairs into a table

Of the pairs with one key, the last one stays.
-/

namespace AList

theorem sum_concat {κ υ : Type} (weight : κ → υ → Nat) (pairs : List (κ × υ)) (pair : κ × υ) :
    ((pairs ++ [pair]).map fun pair => weight pair.1 pair.2).sum =
      (pairs.map fun pair => weight pair.1 pair.2).sum + weight pair.1 pair.2 := by
  simp

variable {κ υ : Type} [DecidableEq κ]

def collect (pairs : List (κ × υ)) : AList fun _ : κ => υ :=
  pairs.foldl (fun m pair => m.insert pair.1 pair.2) ∅

/-- What the entries weigh together. -/
def total (weight : κ → υ → Nat) (m : AList fun _ : κ => υ) : Nat :=
  (m.entries.map fun entry => weight entry.1 entry.2).sum

variable {weight : κ → υ → Nat} {pairs : List (κ × υ)} {k : κ} {v : υ}

theorem collect_concat (pairs : List (κ × υ)) (pair : κ × υ) :
    collect (pairs ++ [pair]) = (collect pairs).insert pair.1 pair.2 := by
  simp [collect]

theorem mem_collect : k ∈ collect pairs ↔ k ∈ pairs.map Prod.fst := by
  induction pairs using List.reverseRecOn with
  | nil => exact Iff.rfl
  | append_singleton pairs pair ih =>
      rw [collect_concat, mem_insert, ih, List.map_append, List.mem_append, or_comm]
      simp

theorem mem_of_lookup_collect (h : (collect pairs).lookup k = some v) : (k, v) ∈ pairs := by
  induction pairs using List.reverseRecOn with
  | nil => cases h
  | append_singleton pairs pair ih =>
      rw [collect_concat] at h
      by_cases hk : k = pair.1
      · subst hk
        rw [lookup_insert] at h
        cases h
        exact List.mem_append_right pairs (List.mem_singleton.mpr rfl)
      · rw [lookup_insert_ne hk] at h
        exact List.mem_append_left [pair] (ih h)

/-! ## Weights -/

theorem sum_kerase (weight : κ → υ → Nat) (k : κ) {entries : List (Sigma fun _ : κ => υ)} :
    ((entries.kerase k).map fun entry => weight entry.1 entry.2).sum +
        (entries.dlookup k).elim 0 (weight k) =
      (entries.map fun entry => weight entry.1 entry.2).sum := by
  induction entries with
  | nil => rfl
  | cons entry entries ih =>
      obtain ⟨k', v⟩ := entry
      by_cases hk : k = k'
      · subst hk
        rw [@List.kerase_cons_eq κ _ _ k ⟨k, v⟩ entries rfl, List.dlookup_cons_eq, List.map_cons,
          List.sum_cons, Nat.add_comm]
        rfl
      · rw [@List.kerase_cons_ne κ _ _ k ⟨k', v⟩ entries hk, List.dlookup_cons_ne _ _ hk, List.map_cons,
          List.map_cons, List.sum_cons, List.sum_cons, Nat.add_assoc, ih]

/-- What an entry weighs replaces what the one before with its key weighed. -/
theorem total_insert (weight : κ → υ → Nat) (m : AList fun _ : κ => υ) (k : κ) (v : υ) :
    total weight (m.insert k v) + (m.lookup k).elim 0 (weight k) = total weight m + weight k v := by
  have herase : _ + (m.lookup k).elim 0 (weight k) = total weight m := @sum_kerase _ _ _ weight k m.entries
  rw [total, entries_insert, List.map_cons, List.sum_cons, Nat.add_comm (weight k v), Nat.add_right_comm,
    herase]

theorem total_collect_le (weight : κ → υ → Nat) (pairs : List (κ × υ)) :
    total weight (collect pairs) ≤ (pairs.map fun pair => weight pair.1 pair.2).sum := by
  induction pairs using List.reverseRecOn with
  | nil => exact Nat.le_refl 0
  | append_singleton pairs pair ih =>
      have hinsert := total_insert weight (collect pairs) pair.1 pair.2
      rw [collect_concat, sum_concat]
      omega

/-- With all keys different, nothing is lost. -/
theorem total_collect_eq (weight : κ → υ → Nat) (h : (pairs.map Prod.fst).Nodup) :
    total weight (collect pairs) = (pairs.map fun pair => weight pair.1 pair.2).sum := by
  induction pairs using List.reverseRecOn with
  | nil => rfl
  | append_singleton pairs pair ih =>
      have hinsert := total_insert weight (collect pairs) pair.1 pair.2
      rw [List.map_append, List.nodup_append] at h
      obtain ⟨hpairs, -, hdisjoint⟩ := h
      have hnew : (collect pairs).lookup pair.1 = none := by
        apply lookup_eq_none.mpr
        rw [mem_collect]
        exact fun hmem => hdisjoint pair.1 hmem pair.1 (List.mem_singleton.mpr rfl) rfl
      rw [hnew, Option.elim_none, Nat.add_zero] at hinsert
      rw [collect_concat, sum_concat, hinsert, ih hpairs]

/-- With a key that occurs twice, what it weighed first is lost. -/
theorem total_collect_lt (hpos : ∀ v, (k, v) ∈ pairs → 0 < weight k v)
    (h : 2 ≤ (pairs.map Prod.fst).count k) :
    total weight (collect pairs) < (pairs.map fun pair => weight pair.1 pair.2).sum := by
  induction pairs using List.reverseRecOn with
  | nil => cases h
  | append_singleton pairs pair ih =>
      have hinsert := total_insert weight (collect pairs) pair.1 pair.2
      have hle := total_collect_le weight pairs
      have hpos' : ∀ v, (k, v) ∈ pairs → 0 < weight k v :=
        fun v hv => hpos v (List.mem_append_left _ hv)
      rw [List.map_append, List.count_append, List.map_singleton, List.count_singleton] at h
      rw [collect_concat, sum_concat]
      by_cases hk : pair.1 = k
      · subst hk
        have hcount : 0 < (pairs.map Prod.fst).count pair.1 := by
          rw [if_pos (beq_self_eq_true pair.1)] at h
          omega
        have hmem : pair.1 ∈ collect pairs := mem_collect.mpr (List.count_pos_iff.mp hcount)
        obtain ⟨v, hv⟩ := Option.isSome_iff_exists.mp (lookup_isSome.mpr hmem)
        have hlost := hpos' v (mem_of_lookup_collect hv)
        rw [hv, Option.elim_some] at hinsert
        omega
      · rw [if_neg (by simpa using hk)] at h
        have hlt := ih hpos' h
        omega

end AList
