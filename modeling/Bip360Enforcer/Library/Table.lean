import Mathlib.Data.List.AList
import Mathlib.Logic.Function.Basic

/-!
# Tables, moves on them, and the differences that undo them
-/

variable {κ υ : Type}

/-- The value of each key, for the keys that have one. -/
abbrev Table (κ υ : Type) := κ → Option υ

/-- A single change of a table. -/
inductive Move (κ υ : Type) where
  | remove (k : κ)
  | add (k : κ) (v : υ)

def Move.act [DecidableEq κ] (t : Table κ υ) : Move κ υ → Table κ υ
  | remove k => Function.update t k none
  | add k v => Function.update t k (some v)

/-- The entries that a run of moves has removed from a table, and those that it has added. -/
structure TableDiff (κ υ : Type) where
  removed : Table κ υ
  added : Table κ υ

namespace TableDiff

def empty : TableDiff κ υ := ⟨fun _ => none, fun _ => none⟩

def apply (d : TableDiff κ υ) (t : Table κ υ) : Table κ υ := fun k =>
  (d.added k).or ((d.removed k).elim (t k) fun _ => none)

def undo (d : TableDiff κ υ) (t : Table κ υ) : Table κ υ := fun k =>
  (d.removed k).or ((d.added k).elim (t k) fun _ => none)

/-- The difference can be applied to `t` and undone again. -/
structure Fits (d : TableDiff κ υ) (t : Table κ υ) : Prop where
  removed : ∀ k v, d.removed k = some v → t k = some v
  added : ∀ k, (d.added k).isSome → t k = none

theorem apply_empty (t : Table κ υ) : empty.apply t = t := rfl

theorem fits_empty (t : Table κ υ) : empty.Fits t := by
  constructor <;> simp [empty]

theorem undo_apply {d : TableDiff κ υ} {t : Table κ υ} (h : d.Fits t) : d.undo (d.apply t) = t := by
  funext k
  cases hr : d.removed k with
  | some v => simp [undo, hr, h.removed k v hr]
  | none =>
      cases ha : d.added k with
      | some v => simp [undo, hr, ha, h.added k (by simp [ha])]
      | none => simp [undo, apply, hr, ha]

/-! ## The difference of two tables -/

/-- What is removed is what the table has and loses. -/
theorem Fits.removed_eq {d : TableDiff κ υ} {t : Table κ υ} (h : d.Fits t) (k : κ) :
    d.removed k = if d.apply t k = none then t k else none := by
  cases hr : d.removed k with
  | some v =>
      have ht := h.removed k v hr
      have ha : d.added k = none := by
        cases ha : d.added k with
        | none => rfl
        | some w =>
            have hnone := h.added k (by rw [ha]; rfl)
            rw [ht] at hnone
            cases hnone
      simp [apply, hr, ha, ht]
  | none =>
      cases ha : d.added k with
      | some w => simp [apply, hr, ha]
      | none =>
          rw [apply, hr, ha]
          cases t k <;> rfl

/-- What is added is what the table gets and did not have. -/
theorem Fits.added_eq {d : TableDiff κ υ} {t : Table κ υ} (h : d.Fits t) (k : κ) :
    d.added k = if t k = none then d.apply t k else none := by
  cases ht : t k with
  | some v =>
      cases ha : d.added k with
      | none => rfl
      | some w =>
          have hnone := h.added k (by rw [ha]; rfl)
          rw [ht] at hnone
          cases hnone
  | none =>
      cases hr : d.removed k with
      | none => simp [apply, hr, ht]
      | some v =>
          have hsome := h.removed k v hr
          rw [ht] at hsome
          cases hsome

/-- Between two tables there is one difference. -/
theorem Fits.unique {d d' : TableDiff κ υ} {t : Table κ υ} (h : d.Fits t) (h' : d'.Fits t)
    (happly : d.apply t = d'.apply t) (k : κ) : d.removed k = d'.removed k ∧ d.added k = d'.added k := by
  rw [h.removed_eq, h'.removed_eq, h.added_eq, h'.added_eq, happly]
  exact ⟨rfl, rfl⟩

/-! ## Recording moves -/

variable [DecidableEq κ]

/-- Take an entry out: one that was added before leaves no trace. -/
def take (d : TableDiff κ υ) (k : κ) (v : υ) : TableDiff κ υ :=
  if (d.added k).isSome then { d with added := Function.update d.added k none }
  else { d with removed := Function.update d.removed k (some v) }

def give (d : TableDiff κ υ) (k : κ) (v : υ) : TableDiff κ υ :=
  { d with added := Function.update d.added k (some v) }

theorem added_take {d : TableDiff κ υ} {k k' : κ} {v : υ} (h : ((d.take k v).added k').isSome) :
    (d.added k').isSome := by
  unfold take at h
  split at h
  · by_cases hk : k' = k
    · subst hk; simp at h
    · simpa [hk] using h
  · exact h

theorem Fits.take {d : TableDiff κ υ} {t : Table κ υ} {k : κ} {v : υ} (h : d.Fits t)
    (hv : d.apply t k = some v) : (d.take k v).Fits t where
  removed k' v' hr := by
    unfold TableDiff.take at hr
    split at hr
    · exact h.removed k' v' hr
    · rename_i hadded
      by_cases hk : k' = k
      · subst hk
        obtain rfl : v = v' := by simpa using hr
        simp only [Bool.not_eq_true, Option.isSome_eq_false_iff, Option.isNone_iff_eq_none] at hadded
        cases hrem : d.removed k' with
        | some w => simp [apply, hadded, hrem] at hv
        | none => simpa [apply, hadded, hrem] using hv
      · exact h.removed k' v' (by simpa [hk] using hr)
  added k' ha := h.added k' (added_take ha)

theorem Fits.give {d : TableDiff κ υ} {t : Table κ υ} {k : κ} {v : υ} (h : d.Fits t)
    (hk : t k = none) : (d.give k v).Fits t where
  removed := h.removed
  added k' ha := by
    by_cases hkk : k' = k
    · exact hkk ▸ hk
    · exact h.added k' (by simpa [TableDiff.give, hkk] using ha)

theorem apply_take {d : TableDiff κ υ} {t : Table κ υ} {k : κ} {v : υ} (h : d.Fits t) :
    (d.take k v).apply t = Function.update (d.apply t) k none := by
  funext k'
  by_cases hk : k' = k
  · subst hk
    unfold take
    split
    · rename_i hadded
      cases hr : d.removed k' <;> simp [apply, h.added k' hadded, hr]
    · rename_i hadded
      simp only [Bool.not_eq_true, Option.isSome_eq_false_iff, Option.isNone_iff_eq_none] at hadded
      simp [apply, hadded]
  · unfold take
    split <;> simp [apply, hk]

theorem apply_give {d : TableDiff κ υ} {t : Table κ υ} {k : κ} {v : υ} :
    (d.give k v).apply t = Function.update (d.apply t) k (some v) := by
  funext k'
  by_cases hk : k' = k
  · subst hk; simp [apply, give]
  · simp [apply, give, hk]

end TableDiff

/-! ## Association lists as tables -/

namespace AList

variable {m : AList fun _ : κ => υ}

/-- As many keys as entries. -/
theorem length_eq_of_keys {ks : List κ} (hnodup : ks.Nodup) (h : ∀ k, k ∈ ks ↔ k ∈ m) :
    ks.length = m.entries.length := by
  have hperm : ks.Perm m.keys := (List.perm_ext_iff_of_nodup hnodup m.keys_nodup).mpr h
  exact hperm.length_eq.trans (List.length_map _)

variable [DecidableEq κ]

theorem lookup_erase_eq (k : κ) :
    (fun k' => (m.erase k).lookup k') = Function.update (fun k' => m.lookup k') k none := by
  funext k'
  by_cases h : k' = k
  · subst h; simp
  · simp [h]

theorem lookup_insert_eq (k : κ) (v : υ) :
    (fun k' => (m.insert k v).lookup k') = Function.update (fun k' => m.lookup k') k (some v) := by
  funext k'
  by_cases h : k' = k
  · subst h; simp
  · simp [h, lookup_insert_ne h]

theorem lookup_erase_all (ks : List κ) (k : κ) :
    (ks.foldl (fun m k => m.erase k) m).lookup k = if k ∈ ks then none else m.lookup k := by
  induction ks generalizing m with
  | nil => simp
  | cons k' ks ih =>
      rw [List.foldl_cons, ih]
      by_cases h : k = k'
      · subst h; simp
      · simp [h]

theorem lookup_insert_entries (es : List (Sigma fun _ : κ => υ)) (hes : es.NodupKeys) (k : κ) :
    (es.foldl (fun m e => m.insert e.1 e.2) m).lookup k = (es.dlookup k).or (m.lookup k) := by
  induction es generalizing m with
  | nil => simp
  | cons e es ih =>
      obtain ⟨hnotin, hes⟩ := List.nodupKeys_cons.mp hes
      rw [List.foldl_cons, ih hes]
      by_cases h : k = e.1
      · subst h
        rw [List.dlookup_eq_none.mpr hnotin, List.dlookup_cons_eq]
        simp
      · rw [List.dlookup_cons_ne _ _ h, lookup_insert_ne h]

theorem lookup_insert_all (u : AList fun _ : κ => υ) (k : κ) :
    (u.entries.foldl (fun m e => m.insert e.1 e.2) m).lookup k = (u.lookup k).or (m.lookup k) :=
  lookup_insert_entries u.entries u.nodupKeys k

end AList
