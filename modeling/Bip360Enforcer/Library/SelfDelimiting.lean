import Mathlib.Logic.Basic

/-!
# Self-delimiting encodings
-/

/-- What `f` writes for a value of `P` can be told from whatever follows it. -/
def SelfDelimiting {α β : Type} (P : α → Prop) (f : α → List β) : Prop :=
  ∀ a b r s, P a → P b → f a ++ r = f b ++ s → a = b ∧ r = s

namespace SelfDelimiting

variable {α β γ : Type} {P : α → Prop} {f : α → List β}

/-! ## Encodings -/

theorem of_length (n : Nat) (hlen : ∀ a, P a → (f a).length = n)
    (hinj : ∀ a b, P a → P b → f a = f b → a = b) : SelfDelimiting P f := by
  intro a b r s ha hb h
  obtain ⟨hfront, hrest⟩ := List.append_inj h ((hlen a ha).trans (hlen b hb).symm)
  exact ⟨hinj a b ha hb hfront, hrest⟩

/-- A list behind its length. -/
theorem sized {Q : Nat → Prop} {header : Nat → List β} (h : SelfDelimiting Q header) :
    SelfDelimiting (fun xs : List β => Q xs.length) fun xs => header xs.length ++ xs := by
  intro xs ys r s hxs hys heq
  rw [List.append_assoc, List.append_assoc] at heq
  obtain ⟨hlen, hrest⟩ := h _ _ _ _ hxs hys heq
  exact List.append_inj hrest hlen

/-- One encoding after the other. -/
theorem append {Q : γ → Prop} {g : γ → List β} (hf : SelfDelimiting P f) (hg : SelfDelimiting Q g) :
    SelfDelimiting (fun x : α × γ => P x.1 ∧ Q x.2) fun x => f x.1 ++ g x.2 := by
  intro x y r s hx hy h
  rw [List.append_assoc, List.append_assoc] at h
  obtain ⟨hfst, hrest⟩ := hf _ _ _ _ hx.1 hy.1 h
  obtain ⟨hsnd, hr⟩ := hg _ _ _ _ hx.2 hy.2 hrest
  exact ⟨Prod.ext hfst hsnd, hr⟩

theorem comap (h : SelfDelimiting P f) (view : γ → α) (hview : ∀ x y, view x = view y → x = y) :
    SelfDelimiting (fun x => P (view x)) fun x => f (view x) := by
  intro x y r s hx hy heq
  obtain ⟨hsame, hr⟩ := h _ _ _ _ hx hy heq
  exact ⟨hview x y hsame, hr⟩

/-! ## Reading back -/

theorem inj (h : SelfDelimiting P f) {a b : α} (ha : P a) (hb : P b) (heq : f a = f b) : a = b := by
  have happend : f a ++ [] = f b ++ [] := by rw [heq]
  exact (h a b [] [] ha hb happend).1

/-- Lists of one length are told apart by what is written for their elements one after the other. -/
theorem flatMap_inj (h : SelfDelimiting P f) {xs ys : List α} (hlen : xs.length = ys.length)
    (hxs : ∀ x ∈ xs, P x) (hys : ∀ y ∈ ys, P y) (heq : xs.flatMap f = ys.flatMap f) : xs = ys := by
  induction xs generalizing ys with
  | nil => exact (List.eq_nil_of_length_eq_zero hlen.symm).symm
  | cons x xs ih =>
      cases ys with
      | nil => cases hlen
      | cons y ys =>
          rw [List.flatMap_cons, List.flatMap_cons] at heq
          obtain ⟨rfl, hrest⟩ := h x y _ _ (hxs x List.mem_cons_self) (hys y List.mem_cons_self) heq
          have htail := ih (Nat.succ.inj hlen) (fun x hx => hxs x (List.mem_cons_of_mem _ hx))
            (fun y hy => hys y (List.mem_cons_of_mem _ hy)) hrest
          rw [htail]

end SelfDelimiting
