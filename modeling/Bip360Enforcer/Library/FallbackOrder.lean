import Mathlib.Logic.Basic

/-!
# Comparison by a key that may be absent, with a fallback
-/

namespace FallbackOrder

variable {α κ ι : Type*} {cmp : α → α → Ordering} {xs : List α}

/-! ## Preorders on a list -/

/-- On the elements of `xs`, `cmp` is a total preorder. -/
structure PreorderOn (cmp : α → α → Ordering) (xs : List α) : Prop where
  refl : ∀ a ∈ xs, cmp a a = .eq
  swap : ∀ a ∈ xs, ∀ b ∈ xs, cmp b a = (cmp a b).swap
  lt_trans : ∀ a ∈ xs, ∀ b ∈ xs, ∀ c ∈ xs, cmp a b = .lt → cmp b c = .lt → cmp a c = .lt
  eq_trans : ∀ a ∈ xs, ∀ b ∈ xs, ∀ c ∈ xs, cmp a b = .eq → cmp b c = .eq → cmp a c = .eq

/-- `cmp` on the elements of `xs` only. -/
def restrict (cmp : α → α → Ordering) (xs : List α) (a b : {a // a ∈ xs}) : Ordering := cmp a.1 b.1

namespace PreorderOn

theorem lt_of_lt_of_eq (h : PreorderOn cmp xs) {a b c : α} (ha : a ∈ xs) (hb : b ∈ xs) (hc : c ∈ xs)
    (hab : cmp a b = .lt) (hbc : cmp b c = .eq) : cmp a c = .lt := by
  cases hac : cmp a c with
  | lt => rfl
  | eq =>
      have hca : cmp c a = .eq := by rw [h.swap a ha c hc, hac]; rfl
      have hba := h.eq_trans b hb c hc a ha hbc hca
      rw [h.swap a ha b hb, hab] at hba
      cases hba
  | gt =>
      have hca : cmp c a = .lt := by rw [h.swap a ha c hc, hac]; rfl
      have hcb := h.lt_trans c hc a ha b hb hca hab
      rw [h.swap b hb c hc, hbc] at hcb
      cases hcb

theorem lt_of_eq_of_lt (h : PreorderOn cmp xs) {a b c : α} (ha : a ∈ xs) (hb : b ∈ xs) (hc : c ∈ xs)
    (hab : cmp a b = .eq) (hbc : cmp b c = .lt) : cmp a c = .lt := by
  cases hac : cmp a c with
  | lt => rfl
  | eq =>
      have hba : cmp b a = .eq := by rw [h.swap a ha b hb, hab]; rfl
      have hbc' := h.eq_trans b hb a ha c hc hba hac
      rw [hbc] at hbc'
      cases hbc'
  | gt =>
      have hca : cmp c a = .lt := by rw [h.swap a ha c hc, hac]; rfl
      have hba := h.lt_trans b hb c hc a ha hbc hca
      rw [h.swap a ha b hb, hab] at hba
      cases hba

end PreorderOn

theorem preorderOn_iff : PreorderOn cmp xs ↔ Std.TransCmp (restrict cmp xs) := by
  constructor
  · intro h
    have horiented : Std.OrientedCmp (restrict cmp xs) := ⟨fun {a b} => h.swap b.1 b.2 a.1 a.2⟩
    refine ⟨fun {a b c} hab hbc => ?_⟩
    change (cmp a.1 c.1).isLE = true
    rcases Ordering.isLE_iff_eq_lt_or_eq_eq.mp hab with hab | hab
    · rcases Ordering.isLE_iff_eq_lt_or_eq_eq.mp hbc with hbc | hbc
      · rw [h.lt_trans a.1 a.2 b.1 b.2 c.1 c.2 hab hbc]
        rfl
      · rw [h.lt_of_lt_of_eq a.2 b.2 c.2 hab hbc]
        rfl
    · rcases Ordering.isLE_iff_eq_lt_or_eq_eq.mp hbc with hbc | hbc
      · rw [h.lt_of_eq_of_lt a.2 b.2 c.2 hab hbc]
        rfl
      · rw [h.eq_trans a.1 a.2 b.1 b.2 c.1 c.2 hab hbc]
        rfl
  · intro h
    have hrefl : ∀ a, restrict cmp xs a a = .eq := fun a => Std.ReflCmp.compare_self
    have hswap : ∀ a b, restrict cmp xs a b = (restrict cmp xs b a).swap := fun a b =>
      Std.OrientedCmp.eq_swap
    have hlt : ∀ a b c, restrict cmp xs a b = .lt → restrict cmp xs b c = .lt → restrict cmp xs a c = .lt :=
      fun a b c => Std.TransCmp.lt_trans
    have heq : ∀ a b c, restrict cmp xs a b = .eq → restrict cmp xs b c = .eq → restrict cmp xs a c = .eq :=
      fun a b c => Std.TransCmp.eq_trans
    refine ⟨fun a ha => hrefl ⟨a, ha⟩, fun a ha b hb => ?_, fun a ha b hb c hc hab hbc => ?_,
      fun a ha b hb c hc hab hbc => ?_⟩
    · exact hswap ⟨b, hb⟩ ⟨a, ha⟩
    · exact hlt ⟨a, ha⟩ ⟨b, hb⟩ ⟨c, hc⟩ hab hbc
    · exact heq ⟨a, ha⟩ ⟨b, hb⟩ ⟨c, hc⟩ hab hbc

/-! ## The comparison -/

section

variable [Ord κ] [Ord ι] (key : α → Option κ) (id : α → ι)

/-- Compare by the keys where there are two, and by the names else. -/
def compareBy (a b : α) : Ordering :=
  match key a, key b with
  | some x, some y => compare x y
  | _, _ => compare (id a) (id b)

variable {key id}

theorem compareBy_keys {a b : α} {x y : κ} (ha : key a = some x) (hb : key b = some y) :
    compareBy key id a b = compare x y := by rw [compareBy, ha, hb]

theorem compareBy_left {a b : α} (ha : key a = none) :
    compareBy key id a b = compare (id a) (id b) := by rw [compareBy, ha]

theorem compareBy_right {a b : α} (hb : key b = none) :
    compareBy key id a b = compare (id a) (id b) := by
  rw [compareBy, hb]
  cases key a <;> rfl

variable (key id)

/-- Around an element without a key, the keys are in the order of the names. -/
def KeysFollow (xs : List α) : Prop :=
  ∀ u ∈ xs, key u = none → ∀ a ∈ xs, ∀ b ∈ xs, ∀ x y, key a = some x → key b = some y →
    (compare (id a) (id u)).isLE → (compare (id u) (id b)).isLE → compare x y = compare (id a) (id b)

variable {key id} [Std.TransOrd κ] [Std.TransOrd ι]

theorem compareBy_oriented {a b : α} : compareBy key id a b = (compareBy key id b a).swap := by
  cases ha : key a with
  | none => rw [compareBy_left ha, compareBy_right ha, Std.OrientedOrd.eq_swap]
  | some x =>
      cases hb : key b with
      | none => rw [compareBy_right hb, compareBy_left hb, Std.OrientedOrd.eq_swap]
      | some y => rw [compareBy_keys ha hb, compareBy_keys hb ha, Std.OrientedOrd.eq_swap]

/-- On a list in which the keys follow the names around elements without a key, the comparison is
transitive. -/
theorem KeysFollow.isLE_trans (h : KeysFollow key id xs) {a b c : α} (ha : a ∈ xs) (hb : b ∈ xs)
    (hc : c ∈ xs) (hab : (compareBy key id a b).isLE) (hbc : (compareBy key id b c).isLE) :
    (compareBy key id a c).isLE := by
  cases hka : key a with
  | none =>
      rw [compareBy_left hka] at hab ⊢
      cases hkb : key b with
      | none =>
          rw [compareBy_left hkb] at hbc
          exact Std.TransOrd.isLE_trans hab hbc
      | some y =>
          cases hkc : key c with
          | none =>
              rw [compareBy_right hkc] at hbc
              exact Std.TransOrd.isLE_trans hab hbc
          | some z =>
              rw [compareBy_keys hkb hkc] at hbc
              cases hac : compare (id a) (id c) with
              | lt => rfl
              | eq => rfl
              | gt =>
                  -- The name of `c` is before those of `a` and `b`, but its key is not before that of `b`.
                  have hca : compare (id c) (id a) = .lt := Std.OrientedCmp.lt_of_gt hac
                  have hzy := h a ha hka c hc b hb z y hkc hkb (by rw [hca]; rfl) hab
                  rw [Std.TransCmp.lt_of_lt_of_isLE hca hab] at hzy
                  exact absurd hbc (Std.OrientedCmp.not_isLE_of_lt hzy)
  | some x =>
      cases hkc : key c with
      | none =>
          rw [compareBy_right hkc] at hbc ⊢
          cases hkb : key b with
          | none =>
              rw [compareBy_right hkb] at hab
              exact Std.TransOrd.isLE_trans hab hbc
          | some y =>
              rw [compareBy_keys hka hkb] at hab
              cases hac : compare (id a) (id c) with
              | lt => rfl
              | eq => rfl
              | gt =>
                  have hca : compare (id c) (id a) = .lt := Std.OrientedCmp.lt_of_gt hac
                  have hyx := h c hc hkc b hb a ha y x hkb hka hbc (by rw [hca]; rfl)
                  rw [Std.TransCmp.lt_of_isLE_of_lt hbc hca] at hyx
                  exact absurd hab (Std.OrientedCmp.not_isLE_of_lt hyx)
      | some z =>
          rw [compareBy_keys hka hkc]
          cases hkb : key b with
          | none =>
              rw [compareBy_right hkb] at hab
              rw [compareBy_left hkb] at hbc
              rw [h b hb hkb a ha c hc x z hka hkc hab hbc]
              exact Std.TransOrd.isLE_trans hab hbc
          | some y =>
              rw [compareBy_keys hka hkb] at hab
              rw [compareBy_keys hkb hkc] at hbc
              exact Std.TransOrd.isLE_trans hab hbc

/-- The comparison is a total preorder exactly on such lists. -/
theorem preorderOn_compareBy_iff : PreorderOn (compareBy key id) xs ↔ KeysFollow key id xs := by
  rw [preorderOn_iff]
  constructor
  · intro htrans u hu hku a ha b hb x y hka hkb hau hub
    have hau' : restrict (compareBy key id) xs ⟨a, ha⟩ ⟨u, hu⟩ = compare (id a) (id u) :=
      compareBy_right hku
    have hub' : restrict (compareBy key id) xs ⟨u, hu⟩ ⟨b, hb⟩ = compare (id u) (id b) :=
      compareBy_left hku
    have hab' : restrict (compareBy key id) xs ⟨a, ha⟩ ⟨b, hb⟩ = compare x y := compareBy_keys hka hkb
    rw [← hab']
    rcases Ordering.isLE_iff_eq_lt_or_eq_eq.mp hau with hlt | heq
    · rw [Std.TransCmp.lt_of_lt_of_isLE (hau'.trans hlt) (hub'.symm ▸ hub),
        Std.TransCmp.lt_of_lt_of_isLE hlt hub]
    · rw [Std.TransCmp.congr_left (hau'.trans heq), Std.TransCmp.congr_left heq, hub']
  · intro h
    have horiented : Std.OrientedCmp (restrict (compareBy key id) xs) := ⟨compareBy_oriented⟩
    exact ⟨fun {a b c} hab hbc => h.isLE_trans a.2 b.2 c.2 hab hbc⟩

end

end FallbackOrder
