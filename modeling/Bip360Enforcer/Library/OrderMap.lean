import Mathlib.Data.List.Nodup

/-!
# Maps that keep an order of their entries
-/

variable {κ υ : Type} [DecidableEq κ]

namespace OrderMap.Entries

/-- Replace the value of a key where it stands, or append the entry. -/
def insert : List (κ × υ) → κ → υ → List (κ × υ)
  | [], k, v => [(k, v)]
  | e :: es, k, v => if e.1 = k then (k, v) :: es else e :: insert es k v

/-- Remove the entry of a key, and move the last entry into its place. -/
def swapRemove : List (κ × υ) → κ → List (κ × υ)
  | [], _ => []
  | e :: es, k =>
      if e.1 = k then
        match es.getLast? with
        | none => []
        | some last => last :: es.dropLast
      else e :: swapRemove es k

theorem mem_insert {es : List (κ × υ)} {k k' : κ} {v v' : υ} (hes : (es.map Prod.fst).Nodup) :
    (k', v') ∈ insert es k v ↔ if k' = k then v' = v else (k', v') ∈ es := by
  induction es with
  | nil => by_cases hk : k' = k <;> simp [insert, hk]
  | cons e es ih =>
      rw [List.map_cons, List.nodup_cons] at hes
      have hnotin : ∀ w, (e.1, w) ∉ es := fun w hw => hes.1 (List.mem_map.mpr ⟨_, hw, rfl⟩)
      obtain ⟨a, b⟩ := e
      by_cases ha : a = k
      · subst ha
        by_cases hk : k' = a
        · subst hk; simp [insert, hnotin]
        · simp [insert, hk]
      · have hka : k ≠ a := fun h => ha h.symm
        rw [insert, if_neg ha, List.mem_cons, ih hes.2]
        by_cases hk : k' = k
        · subst hk; simp [hka]
        · simp [hk]

theorem keys_insert {es : List (κ × υ)} {k : κ} {v : υ} :
    (insert es k v).map Prod.fst =
      if k ∈ es.map Prod.fst then es.map Prod.fst else es.map Prod.fst ++ [k] := by
  induction es with
  | nil => simp [insert]
  | cons e es ih =>
      by_cases he : e.1 = k
      · simp [insert, he]
      · have hk : k ≠ e.1 := fun h => he h.symm
        rw [insert, if_neg he, List.map_cons, ih]
        by_cases hmem : k ∈ es.map Prod.fst
        · simp only [hmem, if_true, List.map_cons, List.mem_cons, or_true]
        · simp only [hmem, hk, if_false, List.map_cons, List.mem_cons, or_self, List.cons_append]

theorem nodup_insert {es : List (κ × υ)} (k : κ) (v : υ) (hes : (es.map Prod.fst).Nodup) :
    ((insert es k v).map Prod.fst).Nodup := by
  rw [keys_insert]
  by_cases hk : k ∈ es.map Prod.fst
  · rwa [if_pos hk]
  · rw [if_neg hk, ← List.concat_eq_append]
    exact hes.concat hk

/-- Up to its order, removal is a filter. -/
theorem swapRemove_perm {es : List (κ × υ)} (k : κ) (hes : (es.map Prod.fst).Nodup) :
    (swapRemove es k).Perm (es.filter fun e => e.1 ≠ k) := by
  induction es with
  | nil => exact .nil
  | cons e es ih =>
      rw [List.map_cons, List.nodup_cons] at hes
      by_cases he : e.1 = k
      · have hrest : es.filter (fun e => e.1 ≠ k) = es := by
          rw [List.filter_eq_self]
          intro e' he'
          have hne : e'.1 ≠ k := fun h => hes.1 (he.trans h.symm ▸ List.mem_map_of_mem he')
          simpa using hne
        rw [swapRemove, if_pos he, List.filter_cons_of_neg (by simpa using he), hrest]
        cases hlast : es.getLast? with
        | none => rw [List.getLast?_eq_none_iff.mp hlast]
        | some last =>
            rw [List.getLast?_eq_some_iff] at hlast
            obtain ⟨front, rfl⟩ := hlast
            simpa using (List.perm_append_singleton last front).symm
      · rw [swapRemove, if_neg he, List.filter_cons_of_pos (by simpa using he)]
        exact (ih hes.2).cons e

end OrderMap.Entries

/-- A map from keys to values that iterates in insertion order, as long as nothing is removed. -/
structure OrderMap (κ υ : Type) where
  entries : List (κ × υ)
  nodup : (entries.map Prod.fst).Nodup

namespace OrderMap

variable {m : OrderMap κ υ} {k k' : κ} {v v' : υ}

def empty : OrderMap κ υ := ⟨[], List.nodup_nil⟩

def insert (m : OrderMap κ υ) (k : κ) (v : υ) : OrderMap κ υ where
  entries := Entries.insert m.entries k v
  nodup := Entries.nodup_insert k v m.nodup

def swapRemove (m : OrderMap κ υ) (k : κ) : OrderMap κ υ where
  entries := Entries.swapRemove m.entries k
  nodup := by
    have hperm := (Entries.swapRemove_perm k m.nodup).map Prod.fst
    exact hperm.nodup_iff.mpr (m.nodup.sublist (List.filter_sublist.map Prod.fst))

def values (m : OrderMap κ υ) : List υ := m.entries.map Prod.snd

def isEmpty (m : OrderMap κ υ) : Bool := m.entries.isEmpty

theorem mem_insert :
    (k', v') ∈ (m.insert k v).entries ↔ if k' = k then v' = v else (k', v') ∈ m.entries :=
  Entries.mem_insert m.nodup

theorem mem_swapRemove : (k', v') ∈ (m.swapRemove k).entries ↔ k' ≠ k ∧ (k', v') ∈ m.entries := by
  rw [swapRemove, (Entries.swapRemove_perm k m.nodup).mem_iff]
  simp [and_comm]

theorem mem_swapRemove_all (ks : List κ) :
    (k', v') ∈ (ks.foldl swapRemove m).entries ↔ k' ∉ ks ∧ (k', v') ∈ m.entries := by
  induction ks generalizing m with
  | nil => simp
  | cons k ks ih => rw [List.foldl_cons, ih, mem_swapRemove, List.mem_cons, not_or]; tauto

end OrderMap
