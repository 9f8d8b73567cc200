import Mathlib.Logic.Basic

/-!
# Computations that may fail
-/

namespace Except

variable {ε ε' α β σ : Type}

/-! ## Inversion -/

theorem bind_eq_ok_iff {x : Except ε α} {f : α → Except ε β} {b : β} :
    (x >>= f) = .ok b ↔ ∃ a, x = .ok a ∧ f a = .ok b := by
  cases x with
  | error e => simp [bind, Except.bind]
  | ok a => simp [bind, Except.bind]

@[simp] theorem mapError_ok (a : α) (f : ε → ε') : (Except.ok a).mapError f = .ok a := rfl

@[simp] theorem mapError_error (e : ε) (f : ε → ε') :
    (Except.error e : Except ε α).mapError f = .error (f e) := rfl

theorem mapError_eq_ok_iff {x : Except ε α} {f : ε → ε'} {a : α} :
    x.mapError f = .ok a ↔ x = .ok a := by
  cases x <;> simp

theorem mapError_eq_error_iff {x : Except ε α} {f : ε → ε'} {e : ε'} :
    x.mapError f = .error e ↔ ∃ e', x = .error e' ∧ f e' = e := by
  cases x <;> simp

theorem map_eq_ok_iff {x : Except ε α} {f : α → β} {b : β} :
    x.map f = .ok b ↔ ∃ a, x = .ok a ∧ f a = b := by
  cases x <;> simp [Except.map]

theorem ite_error_eq_ok_iff {p : Prop} [Decidable p] {e : ε} {x : Except ε α} {a : α} :
    (if p then .error e else x) = .ok a ↔ ¬ p ∧ x = .ok a := by
  split <;> simp [*]

theorem elim_eq_ok_iff {x : Option α} {e : ε} {a : α} :
    x.elim (.error e) Except.ok = .ok a ↔ x = some a := by
  cases x <;> simp

/-! ## Loops -/

theorem foldlM_cons_ok_iff {f : σ → α → Except ε σ} {s s' : σ} {x : α} {xs : List α} :
    (x :: xs).foldlM f s = .ok s' ↔ ∃ t, f s x = .ok t ∧ xs.foldlM f t = .ok s' := by
  rw [List.foldlM_cons, bind_eq_ok_iff]

theorem foldlM_append_ok_iff {f : σ → α → Except ε σ} {s s' : σ} {xs ys : List α} :
    (xs ++ ys).foldlM f s = .ok s' ↔ ∃ t, xs.foldlM f s = .ok t ∧ ys.foldlM f t = .ok s' := by
  rw [List.foldlM_append, bind_eq_ok_iff]

theorem foldlM_concat_ok_iff {f : σ → α → Except ε σ} {s s' : σ} {x : α} {xs : List α} :
    (xs ++ [x]).foldlM f s = .ok s' ↔ ∃ t, xs.foldlM f s = .ok t ∧ f t x = .ok s' := by
  simp only [foldlM_append_ok_iff, foldlM_cons_ok_iff, List.foldlM_nil, pure, Except.pure,
    Except.ok.injEq, exists_eq_right]

theorem mapM_cons_ok_iff {f : α → Except ε β} {x : α} {xs : List α} {ys : List β} :
    (x :: xs).mapM f = .ok ys ↔ ∃ y rest, f x = .ok y ∧ xs.mapM f = .ok rest ∧ ys = y :: rest := by
  simp only [List.mapM_cons, bind_eq_ok_iff, pure, Except.pure, Except.ok.injEq]
  constructor
  · rintro ⟨y, hy, rest, hrest, rfl⟩
    exact ⟨y, rest, hy, hrest, rfl⟩
  · rintro ⟨y, rest, hy, hrest, rfl⟩
    exact ⟨y, hy, rest, hrest, rfl⟩

/-- What can be told of each item from its result, can be told of the list from the results. -/
theorem map_eq_of_mapM {γ : Type} {f : α → Except ε β} {g : α → γ} {h : β → γ} {xs : List α}
    {ys : List β} (hxs : xs.mapM f = .ok ys) (hf : ∀ x y, f x = .ok y → g x = h y) :
    xs.map g = ys.map h := by
  induction xs generalizing ys with
  | nil =>
      cases hxs
      rfl
  | cons x xs ih =>
      obtain ⟨y, rest, hy, hrest, rfl⟩ := mapM_cons_ok_iff.mp hxs
      rw [List.map_cons, List.map_cons, hf x y hy, ih hrest]

theorem exists_of_mem_mapM {f : α → Except ε β} {xs : List α} {ys : List β} {y : β}
    (hxs : xs.mapM f = .ok ys) (hy : y ∈ ys) : ∃ x ∈ xs, f x = .ok y := by
  induction xs generalizing ys with
  | nil =>
      cases hxs
      cases hy
  | cons x xs ih =>
      obtain ⟨y', rest, hy', hrest, rfl⟩ := mapM_cons_ok_iff.mp hxs
      cases List.mem_cons.mp hy with
      | inl heq => exact ⟨x, List.mem_cons_self, heq ▸ hy'⟩
      | inr hmem =>
          obtain ⟨x', hx', hresult⟩ := ih hrest hmem
          exact ⟨x', List.mem_cons_of_mem x hx', hresult⟩

theorem forM_cons_ok_iff {f : α → Except ε Unit} {x : α} {xs : List α} :
    (x :: xs).forM f = .ok () ↔ f x = .ok () ∧ xs.forM f = .ok () := by
  rw [List.forM_eq_forM, List.forM_cons, bind_eq_ok_iff]
  exact ⟨fun ⟨_, h, h'⟩ => ⟨h, h'⟩, fun ⟨h, h'⟩ => ⟨(), h, h'⟩⟩

theorem forM_eq_ok_iff {f : α → Except ε Unit} {xs : List α} :
    xs.forM f = .ok () ↔ ∀ x ∈ xs, f x = .ok () := by
  induction xs with
  | nil => simp [pure, Except.pure]
  | cons x xs ih => rw [forM_cons_ok_iff, ih]; simp

/-- A change of the state that every step commutes with, the loop commutes with. -/
theorem foldlM_commute {f : σ → α → Except ε σ} {g : σ → σ} (h : ∀ s x, f (g s) x = (f s x).map g)
    (xs : List α) (s : σ) : xs.foldlM f (g s) = (xs.foldlM f s).map g := by
  induction xs generalizing s with
  | nil => rfl
  | cons x xs ih =>
      rw [List.foldlM_cons, List.foldlM_cons, h]
      cases f s x with
      | error e => rfl
      | ok t => exact ih t

/-- What one step keeps, a loop that does not fail keeps; `motive` sees the items already done. -/
theorem foldlM_induction {f : σ → α → Except ε σ} {motive : List α → σ → Prop} {xs : List α}
    {s s' : σ} (nil : motive [] s)
    (step : ∀ done x t t', x ∈ xs → motive done t → f t x = .ok t' → motive (done ++ [x]) t')
    (h : xs.foldlM f s = .ok s') : motive xs s' := by
  suffices hgen : ∀ rest done t, done ++ rest = xs → motive done t →
      rest.foldlM f t = .ok s' → motive (done ++ rest) s' from hgen xs [] s rfl nil h
  intro rest
  induction rest with
  | nil =>
      intro done t _ ht hok
      obtain rfl : t = s' := by simpa [pure, Except.pure] using hok
      simpa using ht
  | cons x rest ih =>
      intro done t hxs ht hok
      obtain ⟨t', hstep, hrest⟩ := foldlM_cons_ok_iff.mp hok
      have hx : x ∈ xs := by rw [← hxs]; simp
      have := ih (done ++ [x]) t' (by simpa using hxs) (step done x t t' hx ht hstep) hrest
      simpa using this

end Except
