import Bip360Enforcer.Library.Except
import Mathlib.Algebra.GroupWithZero.Nat

/-!
# Computations that may panic

They are compared with computations that cannot.
-/

inductive Panic where
  | indexOutOfBounds
  | overflow
  | unwrapNone
  | capacityOverflow
  /-- A cast to a type that does not have the number. -/
  | lossyCast
  deriving DecidableEq, Repr

/-- The failures of a computation: panics, and its own errors. -/
inductive Fault (ε : Type) where
  | panic (panic : Panic)
  | error (e : ε)
  deriving DecidableEq, Repr

def Fault.map {ε ε' : Type} (f : ε → ε') : Fault ε → Fault ε'
  | panic p => panic p
  | error e => error (f e)

abbrev MayPanic (ε α : Type) := Except (Fault ε) α

namespace MayPanic

variable {ε ε' α β γ σ τ : Type}

def fail (e : ε) : MayPanic ε α := .error (.error e)

/-- A computation that cannot panic, as one that may. -/
def lift (x : Except ε α) : MayPanic ε α := x.mapError .error

/-! ## Operations -/

def ensure (p : Prop) [Decidable p] (panic : Panic) (a : α) : MayPanic ε α :=
  if p then .ok a else .error (.panic panic)

def index (xs : List α) (i : Nat) : MayPanic ε α :=
  match xs[i]? with
  | some a => .ok a
  | none => .error (.panic .indexOutOfBounds)

def unwrap : Option α → MayPanic ε α
  | some a => .ok a
  | none => .error (.panic .unwrapNone)

def usizeAdd (a b : Nat) : MayPanic ε Nat := ensure (a + b < 2 ^ 64) .overflow (a + b)

def usizeSub (a b : Nat) : MayPanic ε Nat := ensure (b ≤ a) .overflow (a - b)

def usizeMul (a b : Nat) : MayPanic ε Nat := ensure (a * b < 2 ^ 64) .overflow (a * b)

/-- Reserve memory for `count` values of `size` bytes each. -/
def withCapacity (count size : Nat) : MayPanic ε Unit :=
  ensure (count * size < 2 ^ 63) .capacityOverflow ()

/-! ## Refinement -/

/-- `x` does not panic, and comes out as `y` does, whose result is seen through `view`. -/
def Refines (view : β → α) (x : MayPanic ε α) (y : Except ε β) : Prop := x = lift (y.map view)

namespace Refines

variable {view : β → α} {x : MayPanic ε α} {y : Except ε β}

theorem pure (b : β) : Refines view (.ok (view b) : MayPanic ε α) (.ok b) := rfl

theorem fail (e : ε) : Refines view (MayPanic.fail e) (.error e : Except ε β) := rfl

theorem lift (y : Except ε β) : Refines id (MayPanic.lift y) y := by
  cases y with
  | error e => rfl
  | ok b => rfl

theorem ne_panic (h : Refines view x y) (panic : Panic) : x ≠ .error (.panic panic) := by
  rw [h]
  cases y with
  | error e => exact fun h => by cases h
  | ok b => exact fun h => by cases h

theorem ok_inv (h : Refines view x y) {a : α} (hx : x = .ok a) : ∃ b, y = .ok b ∧ view b = a := by
  rw [h] at hx
  cases y with
  | error e => cases hx
  | ok b => exact ⟨b, rfl, Except.ok.inj hx⟩

theorem bind {view' : τ → σ} {f : α → MayPanic ε σ} {g : β → Except ε τ} (h : Refines view x y)
    (hf : ∀ b, y = .ok b → Refines view' (f (view b)) (g b)) : Refines view' (x >>= f) (y >>= g) := by
  rw [h]
  cases y with
  | error e => rfl
  | ok b => exact hf b rfl

theorem ite {p : Prop} [Decidable p] {x' : MayPanic ε α} {y' : Except ε β}
    (hp : p → Refines view x y) (hn : ¬ p → Refines view x' y') :
    Refines view (if p then x else x') (if p then y else y') := by
  split
  · rename_i h
    exact hp h
  · rename_i h
    exact hn h

theorem mapError (f : ε → ε') (h : Refines view x y) :
    Refines view (x.mapError (Fault.map f)) (y.mapError f) := by
  rw [h]
  cases y with
  | error e => rfl
  | ok b => rfl

/-! An operation that does not panic goes without saying. -/

theorem ensure_bind {p : Prop} [Decidable p] {panic : Panic} {a : γ} {f : γ → MayPanic ε α} (hp : p)
    (h : Refines view (f a) y) : Refines view (ensure p panic a >>= f) y := by
  rw [ensure, if_pos hp]
  exact h

theorem index_bind {xs : List γ} {i : Nat} {a : γ} {f : γ → MayPanic ε α} (hi : xs[i]? = some a)
    (h : Refines view (f a) y) : Refines view (index xs i >>= f) y := by
  rw [index, hi]
  exact h

theorem ok_bind {x : MayPanic ε γ} {a : γ} {f : γ → MayPanic ε α} (hx : x = .ok a)
    (h : Refines view (f a) y) : Refines view (x >>= f) y := by
  rw [hx]
  exact h

/-- A loop refines another if each step does so, on what the steps of the other one keep. -/
theorem foldlM {view : τ → σ} {f : σ → γ → MayPanic ε σ} {g : τ → γ → Except ε τ} (inv : τ → Prop)
    {xs : List γ} {s : τ} (hs : inv s)
    (hstep : ∀ s, inv s → ∀ x ∈ xs, Refines view (f (view s) x) (g s x))
    (hinv : ∀ s, inv s → ∀ x ∈ xs, ∀ t, g s x = .ok t → inv t) :
    Refines view (xs.foldlM f (view s)) (xs.foldlM g s) := by
  induction xs generalizing s with
  | nil => exact .pure s
  | cons x xs ih =>
      rw [List.foldlM_cons, List.foldlM_cons]
      refine (hstep s hs x List.mem_cons_self).bind fun t ht => ?_
      exact ih (hinv s hs x List.mem_cons_self t ht)
        (fun s hs x hx => hstep s hs x (List.mem_cons_of_mem _ hx))
        (fun s hs x hx => hinv s hs x (List.mem_cons_of_mem _ hx))

theorem forM {f : γ → MayPanic ε Unit} {g : γ → Except ε Unit} {xs : List γ}
    (h : ∀ x ∈ xs, Refines id (f x) (g x)) : Refines id (xs.forM f) (xs.forM g) := by
  induction xs with
  | nil => exact .pure ()
  | cons x xs ih =>
      rw [List.forM_eq_forM, List.forM_eq_forM, List.forM_cons, List.forM_cons]
      refine (h x List.mem_cons_self).bind fun _ _ => ?_
      exact ih fun x hx => h x (List.mem_cons_of_mem _ hx)

end Refines

end MayPanic
