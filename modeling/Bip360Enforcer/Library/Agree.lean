import Mathlib.Logic.Basic

/-!
# Computations that agree, but for some errors

`Agree left right R x y`: unless `x` fails with an error in `left` or `y` with one in `right`, the two
fail alike, or return what `R` relates.
-/

namespace Except

variable {ε ε' α β α' β' σ τ γ : Type}

theorem isOk_iff {x : Except ε α} : x.isOk = true ↔ ∃ a, x = .ok a := by
  cases x with
  | ok a => exact ⟨fun _ => ⟨a, rfl⟩, fun _ => rfl⟩
  | error e => exact ⟨fun h => (by cases h), fun ⟨_, h⟩ => (by cases h)⟩

/-- It does not fail with an error of the kind. -/
def Avoids (kind : ε → Prop) (x : Except ε α) : Prop := ∀ e, x = .error e → ¬ kind e

inductive Agree (left right : ε → Prop) (R : α → β → Prop) : Except ε α → Except ε β → Prop where
  | ok {a : α} {b : β} (h : R a b) : Agree left right R (.ok a) (.ok b)
  | error (e : ε) : Agree left right R (.error e) (.error e)
  | left {e : ε} (h : left e) (y : Except ε β) : Agree left right R (.error e) y
  | right {e : ε} (x : Except ε α) (h : right e) : Agree left right R x (.error e)

namespace Agree

variable {left right : ε → Prop} {R : α → β → Prop} {x : Except ε α} {y : Except ε β}

/-! ## What it says -/

theorem of_ok {a : α} (h : Agree left right R x y) (hx : x = .ok a)
    (hy : y.Avoids right) : ∃ b, y = .ok b ∧ R a b := by
  cases h with
  | ok hab => cases hx; exact ⟨_, rfl, hab⟩
  | error e => cases hx
  | left _ _ => cases hx
  | right _ h => exact absurd h (hy _ rfl)

theorem eq_ok {z : Except ε α} {a : α} (h : Agree left right Eq x z) (hx : x = .ok a)
    (hz : z.Avoids right) : z = .ok a := by
  obtain ⟨_, hz, rfl⟩ := h.of_ok hx hz
  exact hz

/-- Computations that agree in both directions succeed together. -/
theorem isOk_eq {left' right' : ε → Prop} {S : β → α → Prop} (h : Agree left right R x y)
    (h' : Agree left' right' S y x) (hx : x.Avoids right') (hy : y.Avoids right) : x.isOk = y.isOk := by
  rw [Bool.eq_iff_iff, isOk_iff, isOk_iff]
  constructor
  · rintro ⟨a, ha⟩
    obtain ⟨b, hb, -⟩ := h.of_ok ha hy
    exact ⟨b, hb⟩
  · rintro ⟨b, hb⟩
    obtain ⟨a, ha, -⟩ := h'.of_ok hb hx
    exact ⟨a, ha⟩

/-! ## Composition -/

theorem rfl_eq (x : Except ε α) : Agree left right Eq x x := by
  cases x with
  | ok a => exact .ok rfl
  | error e => exact .error e

theorem of_eq {x y : Except ε α} (h : x = y) : Agree left right Eq x y := h ▸ rfl_eq x

theorem bind {S : α' → β' → Prop} {f : α → Except ε α'} {g : β → Except ε β'}
    (h : Agree left right R x y) (hfg : ∀ a b, R a b → Agree left right S (f a) (g b)) :
    Agree left right S (x >>= f) (y >>= g) := by
  cases h with
  | ok hab => exact hfg _ _ hab
  | error e => exact .error e
  | left he _ => exact .left he _
  | right _ he => exact .right _ he

/-- The two begin with the same. -/
theorem bind_same {S : α' → β' → Prop} {x : Except ε α} {f : α → Except ε α'}
    {g : α → Except ε β'} (h : ∀ a, x = .ok a → Agree left right S (f a) (g a)) :
    Agree left right S (x >>= f) (x >>= g) := by
  cases x with
  | ok a => exact h a rfl
  | error e => exact .error e

/-- The two end with the same. -/
theorem bind_left {x y : Except ε α} {f : α → Except ε α'} (h : Agree left right Eq x y) :
    Agree left right Eq (x >>= f) (y >>= f) :=
  h.bind fun _ _ hab => of_eq (congrArg f hab)

theorem mapError {left' right' : ε' → Prop} {f : ε → ε'} (h : Agree left right R x y)
    (hleft : ∀ e, left e → left' (f e)) (hright : ∀ e, right e → right' (f e)) :
    Agree left' right' R (x.mapError f) (y.mapError f) := by
  cases h with
  | ok hab => exact .ok hab
  | error e => exact .error (f e)
  | left he _ => exact .left (hleft _ he) _
  | right _ he => exact .right _ (hright _ he)

theorem ite {p : Prop} [Decidable p] {x' : Except ε α} {y' : Except ε β}
    (h : p → Agree left right R x y) (h' : ¬ p → Agree left right R x' y') :
    Agree left right R (if p then x else x') (if p then y else y') := by
  by_cases hp : p
  · rw [if_pos hp, if_pos hp]; exact h hp
  · rw [if_neg hp, if_neg hp]; exact h' hp

/-- Checks that may turn out differently, each with an error that is left out. -/
theorem guards {p q : Prop} [Decidable p] [Decidable q] {e e' : ε} (he : left e) (he' : right e')
    (h : Agree left right R x y) :
    Agree left right R (if p then .error e else x) (if q then .error e' else y) := by
  split
  · exact .left he _
  · split
    · exact .right _ he'
    · exact h

/-! ## Loops -/

theorem foldlM {S : σ → τ → Prop} {f : σ → γ → Except ε σ} {g : τ → γ → Except ε τ} {xs : List γ}
    {s : σ} {t : τ} (hst : S s t)
    (hfg : ∀ x ∈ xs, ∀ s t, S s t → Agree left right S (f s x) (g t x)) :
    Agree left right S (xs.foldlM f s) (xs.foldlM g t) := by
  induction xs generalizing s t with
  | nil => exact .ok hst
  | cons x xs ih =>
      rw [List.foldlM_cons, List.foldlM_cons]
      refine (hfg x List.mem_cons_self s t hst).bind ?_
      intro s' t' hst'
      exact ih hst' fun x hx => hfg x (List.mem_cons_of_mem _ hx)

theorem mapM {f g : γ → Except ε α} {xs : List γ}
    (hfg : ∀ x ∈ xs, Agree left right Eq (f x) (g x)) :
    Agree left right Eq (xs.mapM f) (xs.mapM g) := by
  induction xs with
  | nil => exact rfl_eq _
  | cons x xs ih =>
      rw [List.mapM_cons, List.mapM_cons]
      refine (hfg x List.mem_cons_self).bind ?_
      rintro a _ rfl
      exact (ih fun x hx => hfg x (List.mem_cons_of_mem _ hx)).bind_left

end Agree

end Except
