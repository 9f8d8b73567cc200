import Mathlib.Logic.Basic

/-!
# Programs over a state that may fail

What a failed program has written stays written; going back is a program of its own.
-/

/-- What a program returns, and the state in which it ends. -/
def Program (σ ε α : Type) : Type := σ → Except ε α × σ

namespace Program

variable {σ ε ε' α β : Type}

protected def pure (a : α) : Program σ ε α := fun s => (.ok a, s)

protected def bind (x : Program σ ε α) (f : α → Program σ ε β) : Program σ ε β := fun s =>
  match x s with
  | (.ok a, t) => f a t
  | (.error e, t) => (.error e, t)

instance : Monad (Program σ ε) where
  pure := Program.pure
  bind := Program.bind

def fail (e : ε) : Program σ ε α := fun s => (.error e, s)

def get : Program σ ε σ := fun s => (.ok s, s)

def modify (f : σ → σ) : Program σ ε Unit := fun s => (.ok (), f s)

def ofExcept (r : Except ε α) : Program σ ε α := fun s => (r, s)

def mapError (f : ε → ε') (x : Program σ ε α) : Program σ ε' α := fun s =>
  ((x s).1.mapError f, (x s).2)

/-- Run `x`; its error becomes a result. -/
def attempt (x : Program σ ε α) : Program σ ε' (Except ε α) := fun s => (.ok (x s).1, (x s).2)

/-- Run `x` on a part of the state. -/
def focus {τ : Type} (part : σ → τ) (put : τ → σ → σ) (x : Program τ ε α) : Program σ ε α := fun s =>
  ((x (part s)).1, put (x (part s)).2 s)

theorem bind_apply (x : Program σ ε α) (f : α → Program σ ε β) (s : σ) :
    (x >>= f) s = match x s with
      | (.ok a, t) => f a t
      | (.error e, t) => (.error e, t) := rfl

@[simp] theorem pure_apply (a : α) (s : σ) : (pure a : Program σ ε α) s = (.ok a, s) := rfl

theorem eq_of_fst {x : Program σ ε α} {s : σ} {r : Except ε α} (h : (x s).1 = r) :
    x s = (r, (x s).2) := Prod.ext h rfl

instance : LawfulMonad (Program σ ε) :=
  LawfulMonad.mk' _
    (fun x => by
      funext s
      change (match x s with | (.ok a, t) => (.ok a, t) | (.error e, t) => (.error e, t)) = x s
      rcases x s with ⟨r, t⟩
      cases r <;> rfl)
    (fun _ _ => rfl)
    (fun x f g => by
      funext s
      simp only [bind_apply]
      rcases x s with ⟨r, t⟩
      cases r <;> rfl)

/-! ## Weakest preconditions -/

/-- From `s`, the program ends in `post` where it returns, and in `failed` where it fails. -/
def wp (x : Program σ ε α) (post : α → σ → Prop) (failed : ε → σ → Prop) (s : σ) : Prop :=
  match x s with
  | (.ok a, t) => post a t
  | (.error e, t) => failed e t

section

variable {post : α → σ → Prop} {failed : ε → σ → Prop} {s : σ}

theorem wp_iff {x : Program σ ε α} : wp x post failed s ↔
    (∀ a t, x s = (.ok a, t) → post a t) ∧ ∀ e t, x s = (.error e, t) → failed e t := by
  rw [wp]
  rcases x s with ⟨r, t⟩
  cases r with
  | ok a => simp
  | error e => simp

theorem wp_self (x : Program σ ε α) (s : σ) :
    wp x (fun a t => x s = (.ok a, t)) (fun e t => x s = (.error e, t)) s :=
  wp_iff.mpr ⟨fun _ _ h => h, fun _ _ h => h⟩

theorem wp.ok {x : Program σ ε α} {a : α} {t : σ} (h : wp x post failed s) (hx : x s = (.ok a, t)) :
    post a t := (wp_iff.mp h).1 a t hx

theorem wp.error {x : Program σ ε α} {e : ε} {t : σ} (h : wp x post failed s)
    (hx : x s = (.error e, t)) : failed e t := (wp_iff.mp h).2 e t hx

/-- What holds of the state whether the program returns or fails. -/
theorem wp.either {x : Program σ ε α} {inv : σ → Prop} {outcome : Except ε α} {t : σ}
    (h : wp x (fun _ => inv) (fun _ => inv) s) (hx : x s = (outcome, t)) : inv t := by
  cases outcome with
  | ok _ => exact h.ok hx
  | error _ => exact h.error hx

theorem wp.of_isOk {x : Program σ ε α} {inv : σ → Prop} (h : wp x (fun _ => inv) failed s)
    (hx : (x s).1.isOk = true) : inv (x s).2 := by
  rcases hrun : x s with ⟨outcome, t⟩
  rw [hrun] at hx
  cases outcome with
  | ok a => exact h.ok hrun
  | error e => cases hx

theorem wp.of_not_isOk {x : Program σ ε α} {inv : σ → Prop} (h : wp x post (fun _ => inv) s)
    (hx : (x s).1.isOk = false) : inv (x s).2 := by
  rcases hrun : x s with ⟨outcome, t⟩
  rw [hrun] at hx
  cases outcome with
  | ok a => cases hx
  | error e => exact h.error hrun

theorem wp.mono {x : Program σ ε α} {post' : α → σ → Prop} {failed' : ε → σ → Prop}
    (h : wp x post failed s) (hpost : ∀ a t, post a t → post' a t)
    (hfailed : ∀ e t, failed e t → failed' e t) : wp x post' failed' s :=
  wp_iff.mpr ⟨fun a t hx => hpost a t (h.ok hx), fun e t hx => hfailed e t (h.error hx)⟩

theorem wp.and {x : Program σ ε α} {post' : α → σ → Prop} {failed' : ε → σ → Prop}
    (h : wp x post failed s) (h' : wp x post' failed' s) :
    wp x (fun a t => post a t ∧ post' a t) (fun e t => failed e t ∧ failed' e t) s :=
  wp_iff.mpr ⟨fun _ _ hx => ⟨h.ok hx, h'.ok hx⟩, fun _ _ hx => ⟨h.error hx, h'.error hx⟩⟩

@[simp] theorem wp_pure (a : α) : wp (pure a) post failed s ↔ post a s := Iff.rfl

@[simp] theorem wp_fail (e : ε) : wp (fail e) post failed s ↔ failed e s := Iff.rfl

@[simp] theorem wp_bind {x : Program σ ε β} {f : β → Program σ ε α} :
    wp (x >>= f) post failed s ↔ wp x (fun b => wp (f b) post failed) failed s := by
  simp only [wp, bind_apply]
  rcases x s with ⟨r, t⟩
  cases r <;> rfl

@[simp] theorem wp_get {post : σ → σ → Prop} : wp get post failed s ↔ post s s := Iff.rfl

@[simp] theorem wp_modify {f : σ → σ} {post : Unit → σ → Prop} :
    wp (modify f) post failed s ↔ post () (f s) := Iff.rfl

@[simp] theorem wp_ofExcept {r : Except ε α} :
    wp (ofExcept r) post failed s ↔ (∀ a, r = .ok a → post a s) ∧ ∀ e, r = .error e → failed e s := by
  cases r <;> simp [wp, ofExcept]

@[simp] theorem wp_mapError {f : ε' → ε} {x : Program σ ε' α} :
    wp (mapError f x) post failed s ↔ wp x post (fun e => failed (f e)) s := by
  simp only [wp, mapError]
  rcases x s with ⟨r, t⟩
  cases r <;> rfl

@[simp] theorem wp_attempt {x : Program σ ε' α} {post : Except ε' α → σ → Prop} :
    wp (attempt x) post failed s ↔ wp x (fun a => post (.ok a)) (fun e => post (.error e)) s := by
  simp only [wp, attempt]
  rcases x s with ⟨r, t⟩
  cases r <;> rfl

@[simp] theorem wp_focus {τ : Type} {part : σ → τ} {put : τ → σ → σ} {x : Program τ ε α} :
    wp (focus part put x) post failed s ↔
      wp x (fun a t => post a (put t s)) (fun e t => failed e (put t s)) (part s) := by
  simp only [wp, focus]
  rcases x (part s) with ⟨r, t⟩
  cases r <;> rfl

@[simp] theorem wp_ite {p : Prop} [Decidable p] {x y : Program σ ε α} :
    wp (if p then x else y) post failed s ↔
      (p → wp x post failed s) ∧ (¬ p → wp y post failed s) := by
  split <;> simp [*]

end

/-! ## Loops -/

section

variable {failed : ε → σ → Prop}

/-- What each step keeps, a loop keeps; `inv` sees the items already done. -/
theorem wp_forM {f : α → Program σ ε Unit} (inv : List α → σ → Prop) {xs : List α} {s : σ}
    (start : inv [] s)
    (step : ∀ done x rest t, done ++ x :: rest = xs → inv done t →
      wp (f x) (fun _ => inv (done ++ [x])) failed t) :
    wp (xs.forM f) (fun _ => inv xs) failed s := by
  suffices hgen : ∀ rest done t, done ++ rest = xs → inv done t →
      wp (rest.forM f) (fun _ => inv (done ++ rest)) failed t from hgen xs [] s rfl start
  intro rest
  induction rest with
  | nil => intro done t _ ht; simpa using ht
  | cons x rest ih =>
      intro done t hxs ht
      rw [List.forM_eq_forM, List.forM_cons, wp_bind]
      refine (step done x rest t hxs ht).mono (fun _ t' ht' => ?_) fun _ _ h => h
      simpa using ih (done ++ [x]) t' (by simpa using hxs) ht'

/-- Each item comes to `g` of it. -/
theorem wp_mapM {f : α → Program σ ε β} {g : α → β} (inv : σ → Prop) {xs : List α} {s : σ} (start : inv s)
    (step : ∀ x ∈ xs, ∀ t, inv t → wp (f x) (fun b u => b = g x ∧ inv u) failed t) :
    wp (xs.mapM f) (fun bs u => bs = xs.map g ∧ inv u) failed s := by
  induction xs generalizing s with
  | nil => exact ⟨rfl, start⟩
  | cons x xs ih =>
      rw [List.mapM_cons, wp_bind]
      refine (step x List.mem_cons_self s start).mono (fun b t ht => ?_) fun _ _ h => h
      rw [wp_bind]
      refine (ih ht.2 fun y hy => step y (List.mem_cons_of_mem x hy)).mono (fun bs u hu => ?_) fun _ _ h => h
      exact ⟨by rw [ht.1, hu.1, List.map_cons], hu.2⟩

end

end Program
