import Mathlib.Data.List.AList
import Mathlib.Data.List.Perm.Basic
import Mathlib.Data.List.Sort

/-!
# Tables listed in the order of their keys

However a table came about and whatever the order of its entries, it has one list.
-/

namespace AList

variable {κ υ β : Type} {m m' : AList fun _ : κ => υ}

theorem perm_entries_iff [DecidableEq κ] : m.entries.Perm m'.entries ↔ ∀ k, m.lookup k = m'.lookup k := by
  constructor
  · intro h k
    exact perm_lookup h
  · intro h
    apply List.lookup_ext m.nodupKeys m'.nodupKeys
    intro k v
    have hk : m.entries.dlookup k = m'.entries.dlookup k := h k
    rw [hk]

variable [LE κ] [DecidableLE κ]

/-- The entries of a table as records, in the order of their keys. -/
def sortedRecords (record : (Sigma fun _ : κ => υ) → β) (key : β → κ) (m : AList fun _ : κ => υ) :
    List β :=
  (m.entries.map record).insertionSort fun a b => key a ≤ key b

variable {record : (Sigma fun _ : κ => υ) → β} {key : β → κ}

theorem sortedRecords_perm : (m.sortedRecords record key).Perm (m.entries.map record) :=
  List.perm_insertionSort _ _

theorem mem_sortedRecords [DecidableEq κ] {b : β} :
    b ∈ m.sortedRecords record key ↔ ∃ k v, m.lookup k = some v ∧ record ⟨k, v⟩ = b := by
  rw [sortedRecords_perm.mem_iff, List.mem_map]
  constructor
  · rintro ⟨⟨k, v⟩, hentry, rfl⟩
    exact ⟨k, v, mem_lookup_iff.mpr hentry, rfl⟩
  · rintro ⟨k, v, hlookup, rfl⟩
    exact ⟨⟨k, v⟩, mem_lookup_iff.mp hlookup, rfl⟩

/-- No key is listed twice. -/
theorem sortedRecords_nodup (hkey : ∀ entry, key (record entry) = entry.1) :
    ((m.sortedRecords record key).map key).Nodup := by
  have hkeys : (m.entries.map record).map key = m.keys := by
    rw [List.map_map]
    exact List.map_congr_left fun entry _ => hkey entry
  rw [(sortedRecords_perm.map key).nodup_iff, hkeys]
  exact m.keys_nodup

variable [Std.IsLinearOrder κ]

theorem sortedRecords_sorted : (m.sortedRecords record key).Pairwise fun a b => key a ≤ key b := by
  have htotal : Std.Total fun a b => key a ≤ key b := ⟨fun _ _ => Std.Total.total _ _⟩
  have htrans : IsTrans β fun a b => key a ≤ key b := ⟨fun _ _ _ => Std.le_trans⟩
  exact List.pairwise_insertionSort _ _

/-- Two tables have the same list if and only if they have the same values. -/
theorem sortedRecords_eq_iff [DecidableEq κ] (hkey : ∀ entry, key (record entry) = entry.1)
    (hrecord : Function.Injective record) :
    m.sortedRecords record key = m'.sortedRecords record key ↔ ∀ k, m.lookup k = m'.lookup k := by
  rw [← perm_entries_iff]
  constructor
  · intro heq
    have hperm := (sortedRecords_perm (m := m)).symm.trans (heq ▸ sortedRecords_perm (m := m'))
    exact (List.map_perm_map_iff hrecord).mp hperm
  · intro hperm
    have hrecords : (m.sortedRecords record key).Perm (m'.sortedRecords record key) :=
      (sortedRecords_perm.trans (hperm.map record)).trans sortedRecords_perm.symm
    apply List.Perm.eq_of_pairwise _ sortedRecords_sorted sortedRecords_sorted hrecords
    intro a b ha hb hab hba
    obtain ⟨k, v, hv, rfl⟩ := mem_sortedRecords.mp ha
    obtain ⟨k', v', hv', rfl⟩ := mem_sortedRecords.mp (hrecords.mem_iff.mpr hb)
    rw [hkey, hkey] at hab hba
    obtain rfl : k = k' := Std.le_antisymm hab hba
    obtain rfl := Option.some.inj (hv.symm.trans hv')
    rfl

end AList
