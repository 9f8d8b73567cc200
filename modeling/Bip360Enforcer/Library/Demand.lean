import Bip360Enforcer.Library.Agree

/-!
# Computations that stop where something is missing

`Stops kind missing R x y`: where something is `missing`, `x` fails with an error of the kind. Otherwise
the two fail alike, or return what `R` relates; `y` lacks nothing and never fails so.
-/

namespace Except

variable {ε ε' α β α' β' σ τ γ δ : Type} {kind : ε → Prop}

/-! ## Errors that do not occur -/

namespace Avoids

variable {x : Except ε α}

theorem ok (a : α) : (Except.ok a : Except ε α).Avoids kind := by
  intro e h
  cases h

theorem error {e : ε} (h : ¬ kind e) : (Except.error e : Except ε α).Avoids kind := by
  intro e' he
  cases he
  exact h

theorem bind {f : α → Except ε β} (h : x.Avoids kind) (hf : ∀ a, x = .ok a → (f a).Avoids kind) :
    (x >>= f).Avoids kind := by
  cases x with
  | ok a => exact hf a rfl
  | error e => exact .error (h e rfl)

theorem ite {p : Prop} [Decidable p] {y : Except ε α} (hx : p → x.Avoids kind)
    (hy : ¬ p → y.Avoids kind) : (if p then x else y).Avoids kind := by
  split
  · exact hx ‹_›
  · exact hy ‹_›

theorem mapError {kind' : ε' → Prop} {f : ε → ε'} (h : x.Avoids kind)
    (hf : ∀ e, ¬ kind e → ¬ kind' (f e)) : (x.mapError f).Avoids kind' := by
  cases x with
  | ok a => exact .ok a
  | error e => exact .error (hf e (h e rfl))

/-- `S` sees the items still to come. -/
theorem foldlM_of_inv {S : List γ → σ → Prop} {f : σ → γ → Except ε σ} {xs : List γ} {s : σ}
    (hs : S xs s) (hstep : ∀ x rest s, S (x :: rest) s →
      (f s x).Avoids kind ∧ ∀ t, f s x = .ok t → S rest t) : (xs.foldlM f s).Avoids kind := by
  induction xs generalizing s with
  | nil => exact .ok s
  | cons x xs ih =>
      rw [List.foldlM_cons]
      exact (hstep x xs s hs).1.bind fun t ht => ih ((hstep x xs s hs).2 t ht)

theorem foldlM {f : σ → γ → Except ε σ} {xs : List γ} (hf : ∀ x ∈ xs, ∀ s, (f s x).Avoids kind)
    (s : σ) : (xs.foldlM f s).Avoids kind := by
  refine foldlM_of_inv (S := fun rest _ => rest ⊆ xs) (fun _ h => h) ?_
  intro x rest s hrest
  exact ⟨hf x (hrest List.mem_cons_self) s, fun _ _ _ h => hrest (List.mem_cons_of_mem _ h)⟩

end Avoids

/-! ## What is looked at -/

/-- What a loop looks at: at each item that it comes to, what `asks` says of the item and the state
there. -/
def trace (f : τ → γ → Except ε τ) (asks : τ → γ → List δ) : τ → List γ → List δ
  | _, [] => []
  | t, x :: xs =>
      asks t x ++
        match f t x with
        | .ok t => trace f asks t xs
        | .error _ => []

theorem exists_mem_trace_cons {f : τ → γ → Except ε τ} {asks : τ → γ → List δ} {t : τ} {x : γ}
    {xs : List γ} {p : δ → Prop} : (∃ d ∈ trace f asks t (x :: xs), p d) ↔
      (∃ d ∈ asks t x, p d) ∨ ∃ t', f t x = .ok t' ∧ ∃ d ∈ trace f asks t' xs, p d := by
  rw [trace]
  cases f t x with
  | ok t' => simp [or_and_right, exists_or]
  | error e => simp

theorem mem_trace {f : τ → γ → Except ε τ} {asks : τ → γ → List δ} {t : τ} {xs : List γ} {d : δ}
    (h : d ∈ trace f asks t xs) : ∃ t', ∃ x ∈ xs, d ∈ asks t' x := by
  induction xs generalizing t with
  | nil => cases h
  | cons x xs ih =>
      rcases exists_mem_trace_cons.mp ⟨d, h, rfl⟩ with ⟨_, hd, rfl⟩ | ⟨t', -, _, hd, rfl⟩
      · exact ⟨t, x, List.mem_cons_self, hd⟩
      · obtain ⟨s, y, hy, hd⟩ := ih hd
        exact ⟨s, y, List.mem_cons_of_mem _ hy, hd⟩

structure Stops (kind : ε → Prop) (missing : Prop) (R : α → β → Prop) (x : Except ε α)
    (y : Except ε β) : Prop where
  stops : missing → ∃ e, x = .error e ∧ kind e
  agrees : ¬ missing → Agree (fun _ => False) (fun _ => False) R x y

namespace Stops

variable {missing : Prop} {R : α → β → Prop} {x : Except ε α} {y : Except ε β}

theorem avoids_iff (h : Stops kind missing R x y) (hy : y.Avoids kind) : x.Avoids kind ↔ ¬ missing := by
  constructor
  · intro havoids hmissing
    obtain ⟨e, he, hkind⟩ := h.stops hmissing
    exact havoids e he hkind
  · intro hmissing
    cases h.agrees hmissing with
    | ok _ => exact .ok _
    | error e => exact .error (hy e rfl)
    | left hf _ => exact hf.elim
    | right _ hf => exact hf.elim

theorem isOk_iff (h : Stops kind missing R x y) : x.isOk = true ↔ ¬ missing ∧ y.isOk = true := by
  by_cases hmissing : missing
  · obtain ⟨e, rfl, -⟩ := h.stops hmissing
    exact ⟨nofun, fun hnot => absurd hmissing hnot.1⟩
  · cases h.agrees hmissing with
    | ok _ => exact ⟨fun _ => ⟨hmissing, rfl⟩, fun _ => rfl⟩
    | error e => exact ⟨nofun, fun hnot => hnot.2⟩
    | left hf _ => exact hf.elim
    | right _ hf => exact hf.elim

/-- Errors of another kind are the same on both sides, unless the first stops before. -/
theorem avoids_other {other : ε → Prop} (h : Stops kind missing R x y)
    (hkind : ∀ e, kind e → ¬ other e) : x.Avoids other ↔ missing ∨ y.Avoids other := by
  by_cases hmissing : missing
  · obtain ⟨e, rfl, he⟩ := h.stops hmissing
    exact ⟨fun _ => .inl hmissing, fun _ => .error (hkind e he)⟩
  · cases h.agrees hmissing with
    | ok _ => exact ⟨fun _ => .inr (.ok _), fun _ => .ok _⟩
    | error e =>
        exact ⟨fun hx => .inr (.error (hx e rfl)), fun hy => .error (hy.resolve_left hmissing e rfl)⟩
    | left hf _ => exact hf.elim
    | right _ hf => exact hf.elim

/-! ## Composition -/

theorem congr {missing' : Prop} (h : Stops kind missing R x y) (hiff : missing' ↔ missing) :
    Stops kind missing' R x y :=
  ⟨fun hm => h.stops (hiff.mp hm), fun hm => h.agrees fun h' => hm (hiff.mpr h')⟩

theorem mono {R' : α → β → Prop} (h : Stops kind missing R x y) (hR : ∀ a b, R a b → R' a b) :
    Stops kind missing R' x y := by
  refine ⟨h.stops, fun hm => ?_⟩
  cases h.agrees hm with
  | ok hab => exact .ok (hR _ _ hab)
  | error e => exact .error e
  | left hf _ => exact hf.elim
  | right _ hf => exact hf.elim

/-- What is missing is looked at first. -/
theorem lacks {e : ε} (hmissing : missing) (he : kind e) : Stops kind missing R (.error e) y :=
  ⟨fun _ => ⟨e, rfl, he⟩, fun hm => absurd hmissing hm⟩

/-- Nothing that is missing is looked at. -/
theorem of_agree (hmissing : ¬ missing) (h : Agree (fun _ => False) (fun _ => False) R x y) :
    Stops kind missing R x y :=
  ⟨fun hm => absurd hm hmissing, fun _ => h⟩

theorem of_eq {x y : Except ε α} (hmissing : ¬ missing) (h : x = y) : Stops kind missing Eq x y :=
  of_agree hmissing (.of_eq h)

theorem bind {missing' : β → Prop} {S : α' → β' → Prop} {f : α → Except ε α'} {g : β → Except ε β'}
    (h : Stops kind missing R x y)
    (hfg : ∀ a b, y = .ok b → R a b → Stops kind (missing' b) S (f a) (g b)) :
    Stops kind (missing ∨ ∃ b, y = .ok b ∧ missing' b) S (x >>= f) (y >>= g) := by
  by_cases hfirst : missing
  · obtain ⟨e, rfl, he⟩ := h.stops hfirst
    exact lacks (.inl hfirst) he
  · cases h.agrees hfirst with
    | ok hab => exact (hfg _ _ rfl hab).congr (by simp [hfirst])
    | error e => exact of_agree (by simp [hfirst]) (.error e)
    | left hf _ => exact hf.elim
    | right _ hf => exact hf.elim

/-- The two end with the same, which looks at nothing that is missing. -/
theorem bind_left {x y : Except ε α} {f : α → Except ε α'} (h : Stops kind missing Eq x y) :
    Stops kind missing Eq (x >>= f) (y >>= f) := by
  have hbind : Stops kind (missing ∨ ∃ b, y = .ok b ∧ False) Eq (x >>= f) (y >>= f) := by
    refine h.bind fun a b _ hab => ?_
    exact of_eq (fun hf => hf) (congrArg f hab)
  exact hbind.congr (by simp)

theorem mapError {kind' : ε' → Prop} {f : ε → ε'} (h : Stops kind missing R x y)
    (hf : ∀ e, kind e → kind' (f e)) : Stops kind' missing R (x.mapError f) (y.mapError f) := by
  by_cases hm : missing
  · obtain ⟨e, rfl, he⟩ := h.stops hm
    exact lacks hm (hf e he)
  · exact of_agree hm ((h.agrees hm).mapError (fun _ hf => hf) fun _ hf => hf)

/-- `S` sees the items still to come. -/
theorem foldlM {S : List γ → σ → τ → Prop} {f : σ → γ → Except ε σ} {g : τ → γ → Except ε τ}
    {asks : τ → γ → List δ} {missing : δ → Prop} {xs : List γ} {s : σ} {t : τ} (hst : S xs s t)
    (hstep : ∀ x rest s t, S (x :: rest) s t →
      Stops kind (∃ d ∈ asks t x, missing d) (S rest) (f s x) (g t x)) :
    Stops kind (∃ d ∈ trace g asks t xs, missing d) (S []) (xs.foldlM f s) (xs.foldlM g t) := by
  induction xs generalizing s t with
  | nil => exact of_agree (by simp [trace]) (.ok hst)
  | cons x xs ih =>
      rw [List.foldlM_cons, List.foldlM_cons]
      refine ((hstep x xs s t hst).bind ?_).congr exists_mem_trace_cons
      exact fun _ _ _ hst' => ih hst'

end Stops

end Except
