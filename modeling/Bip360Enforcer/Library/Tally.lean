import Mathlib.Algebra.BigOperators.Group.List.Basic
import Mathlib.Algebra.GroupWithZero.Nat

/-!
# Amounts summed up by key
-/

variable {κ : Type} [DecidableEq κ]

/-- The total that `entries` give to `k`. -/
def tally (entries : List (κ × Nat)) (k : κ) : Nat :=
  ((entries.filter (·.1 = k)).map Prod.snd).sum

namespace Tally

@[simp] theorem nil (k : κ) : tally [] k = 0 := rfl

theorem append (as bs : List (κ × Nat)) (k : κ) : tally (as ++ bs) k = tally as k + tally bs k := by
  simp [tally]

theorem singleton (i k : κ) (amount : Nat) :
    tally [(i, amount)] k = if i = k then amount else 0 := by
  by_cases h : i = k <;> simp [tally, h]

theorem concat (as : List (κ × Nat)) (i k : κ) (amount : Nat) :
    tally (as ++ [(i, amount)]) k = tally as k + if i = k then amount else 0 := by
  rw [append, singleton]

end Tally
