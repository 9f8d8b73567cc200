import Bip360Enforcer.Library.FallbackOrder
import Bip360Enforcer.Library.MayPanic
import Mathlib.Data.List.Sort

/-!
# Sorting by a comparison

A stable sort keeps its promises only where the comparison is a total preorder of the list.
-/

open FallbackOrder (PreorderOn restrict preorderOn_iff)

/-- A sort by any comparison, which may panic. -/
abbrev SortBy (ε α : Type) := (α → α → Ordering) → List α → MayPanic ε (List α)

namespace SortBy

variable {ε α : Type} {cmp : α → α → Ordering} {xs : List α}

/-- The elements of `ys` are in order. -/
def Sorted (cmp : α → α → Ordering) (ys : List α) : Prop := ys.Pairwise fun a b => (cmp a b).isLE

/-- What is promised of a stable sort. Where the comparison is no total preorder of the list, the
sort may panic, and a result of it is in any order. -/
structure Stable (sortBy : SortBy ε α) : Prop where
  perm : ∀ {cmp xs ys}, sortBy cmp xs = .ok ys → ys.Perm xs
  sorts : ∀ {cmp xs}, PreorderOn cmp xs → ∃ ys, sortBy cmp xs = .ok ys ∧ Sorted cmp ys
  -- What is in order stays as it stands.
  stable : ∀ {cmp xs ys zs}, PreorderOn cmp xs → sortBy cmp xs = .ok ys → Sorted cmp zs →
    zs.Sublist xs → zs.Sublist ys

/-! ## Insertion sort -/

/-- Insertion sort, which never panics. -/
def insertionSort : SortBy ε α := fun cmp xs => .ok (xs.insertionSort fun a b => (cmp a b).isLE)

/-- Sorting a list is sorting its elements as elements of the list. -/
theorem insertionSort_attach (cmp : α → α → Ordering) (xs : List α) :
    (xs.attach.insertionSort fun a b => (restrict cmp xs a b).isLE).map Subtype.val =
      xs.insertionSort fun a b => (cmp a b).isLE := by
  have hmap := List.map_insertionSort (fun a b => (restrict cmp xs a b).isLE)
    (fun a b => (cmp a b).isLE) Subtype.val xs.attach fun _ _ _ _ => Iff.rfl
  rw [hmap, List.attach_map_subtype_val]

theorem sorted_insertionSort (h : PreorderOn cmp xs) :
    Sorted cmp (xs.insertionSort fun a b => (cmp a b).isLE) := by
  have htrans := preorderOn_iff.mp h
  have : Std.Total fun a b => ((restrict cmp xs a b).isLE : Prop) := ⟨fun a b => by
    have hswap : restrict cmp xs b a = (restrict cmp xs a b).swap := Std.OrientedCmp.eq_swap
    rw [hswap]
    cases restrict cmp xs a b <;> simp⟩
  have : IsTrans _ fun a b => ((restrict cmp xs a b).isLE : Prop) :=
    ⟨fun _ _ _ => Std.TransCmp.isLE_trans⟩
  rw [Sorted, ← insertionSort_attach, List.pairwise_map]
  exact List.pairwise_insertionSort (fun a b => (restrict cmp xs a b).isLE) xs.attach

theorem insertionSort_stable : Stable (insertionSort : SortBy ε α) where
  perm := by
    rintro cmp xs ys ⟨⟩
    exact List.perm_insertionSort _ _
  sorts := fun h => ⟨_, rfl, sorted_insertionSort h⟩
  stable := by
    rintro cmp xs ys zs h ⟨⟩ hzs hsub
    exact List.sublist_insertionSort hzs hsub

end SortBy
