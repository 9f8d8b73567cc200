import Mathlib.Data.List.Basic

/-!
# The root of a list of hashes, paired up level by level
-/

namespace HashPairs

variable {H : Type*} (node : H → H → H)

/-- Pair up neighbours, and the last one of an odd number with itself. -/
def level : List H → List H
  | [] => []
  | [a] => [node a a]
  | a :: b :: rest => node a b :: level rest

/-- The root after at most `fuel` levels. -/
def rootFuel : Nat → List H → Option H
  | _, [] => none
  | _, [a] => some a
  | 0, _ :: _ :: _ => none
  | fuel + 1, a :: b :: rest => rootFuel fuel (level node (a :: b :: rest))

/-- The root of the hashes; each level has fewer of them than the one below. -/
def root (hashes : List H) : Option H := rootFuel node hashes.length hashes

theorem length_level (hashes : List H) : (level node hashes).length = (hashes.length + 1) / 2 := by
  induction hashes using level.induct with
  | case1 => simp [level]
  | case2 a => simp [level]
  | case3 a b rest ih => simp only [level, List.length_cons, ih]; omega

theorem rootFuel_isSome {fuel : Nat} {hashes : List H} (hne : hashes ≠ []) (h : hashes.length ≤ fuel) :
    (rootFuel node fuel hashes).isSome := by
  induction fuel generalizing hashes with
  | zero => exact absurd (List.length_eq_zero_iff.mp (Nat.le_zero.mp h)) hne
  | succ fuel ih =>
      rcases hashes with _ | ⟨a, _ | ⟨b, rest⟩⟩
      · exact absurd rfl hne
      · rfl
      · have hlen := length_level node (a :: b :: rest)
        simp only [List.length_cons] at hlen h
        apply ih
        · rw [← List.length_pos_iff]
          omega
        · omega

/-- Every list of hashes but the empty one has a root. -/
theorem root_isSome {hashes : List H} (h : hashes ≠ []) : (root node hashes).isSome :=
  rootFuel_isSome node h (Nat.le_refl _)

end HashPairs
