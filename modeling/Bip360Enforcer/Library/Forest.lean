import Mathlib.Logic.Relation

/-!
# Forests in which every node is one level above its parent
-/

namespace Forest

variable {α : Type*} {parent : α → Option α} {level : α → Nat} {a b c p q : α}

/-! ## Ancestors -/

/-- `a` is `b` or one of those before it. -/
def Ancestor (parent : α → Option α) (a b : α) : Prop :=
  Relation.ReflTransGen (fun x y => parent x = some y) b a

namespace Ancestor

theorem refl (a : α) : Ancestor parent a a := Relation.ReflTransGen.refl

theorem above (h : parent b = some p) (hp : Ancestor parent a p) : Ancestor parent a b :=
  Relation.ReflTransGen.head h hp

theorem trans (hab : Ancestor parent a b) (hbc : Ancestor parent b c) : Ancestor parent a c :=
  Relation.ReflTransGen.trans hbc hab

theorem eq_or_above (h : Ancestor parent a b) :
    a = b ∨ ∃ p, parent b = some p ∧ Ancestor parent a p := by
  rcases Relation.ReflTransGen.cases_head h with heq | ⟨p, hp, hap⟩
  · exact .inl heq.symm
  · exact .inr ⟨p, hp, hap⟩

theorem comparable (ha : Ancestor parent a c) (hb : Ancestor parent b c) :
    Ancestor parent a b ∨ Ancestor parent b a := by
  have hunique : Relator.RightUnique fun x y => parent x = some y :=
    fun _ _ _ hx hy => Option.some.inj (hx.symm.trans hy)
  exact Relation.ReflTransGen.total_of_right_unique hunique hb ha

end Ancestor

/-! ## Levels -/

def Graded (parent : α → Option α) (level : α → Nat) : Prop :=
  ∀ a p, parent a = some p → level a = level p + 1

namespace Graded

theorem le (h : Graded parent level) (hab : Ancestor parent a b) : level a ≤ level b := by
  induction hab with
  | refl => exact Nat.le_refl _
  | tail _ hp ih =>
      have hlevel := h _ _ hp
      omega

theorem eq_of_level (h : Graded parent level) (hab : Ancestor parent a b) (hlevel : level a = level b) :
    a = b := by
  rcases hab.eq_or_above with heq | ⟨p, hp, hap⟩
  · exact heq
  · have hle := h.le hap
    have hstep := h _ _ hp
    omega

theorem antisymm (h : Graded parent level) (hab : Ancestor parent a b) (hba : Ancestor parent b a) :
    a = b :=
  h.eq_of_level hab (Nat.le_antisymm (h.le hab) (h.le hba))

/-- Of two ancestors of a node, the lower one is an ancestor of the other. -/
theorem of_le (h : Graded parent level) (ha : Ancestor parent a c) (hb : Ancestor parent b c)
    (hle : level a ≤ level b) : Ancestor parent a b := by
  rcases ha.comparable hb with hab | hba
  · exact hab
  · rw [h.eq_of_level hba (Nat.le_antisymm (h.le hba) hle)]
    exact .refl a

end Graded

/-! ## Paths -/

/-- The nodes from `b` back to its ancestor `a`, which is left out. -/
inductive Path (parent : α → Option α) (a : α) : α → List α → Prop where
  | here : Path parent a a []
  | above {b p : α} {nodes : List α} (step : parent b = some p) (rest : Path parent a p nodes) :
      Path parent a b (b :: nodes)

theorem Ancestor.exists_path (h : Ancestor parent a b) : ∃ nodes, Path parent a b nodes := by
  induction h using Relation.ReflTransGen.head_induction_on with
  | refl => exact ⟨[], .here⟩
  | head hp _ ih =>
      obtain ⟨nodes, hnodes⟩ := ih
      exact ⟨_, .above hp hnodes⟩

namespace Path

variable {nodes : List α}

theorem ancestor (h : Path parent a b nodes) : Ancestor parent a b := by
  induction h with
  | here => exact .refl a
  | above hp _ ih => exact .above hp ih

/-- The nodes of a path are on the levels above that of its end. -/
theorem level_lt (hgraded : Graded parent level) (h : Path parent a b nodes) :
    ∀ x ∈ nodes, level a < level x ∧ level x ≤ level b := by
  induction h with
  | here => exact fun x hx => absurd hx List.not_mem_nil
  | above hp hrest ih =>
      have hstep := hgraded _ _ hp
      have hle := hgraded.le hrest.ancestor
      intro x hx
      rcases List.mem_cons.mp hx with rfl | hx
      · omega
      · have hbounds := ih x hx
        omega

theorem append {nodes' : List α} (h : Path parent b c nodes) (h' : Path parent a b nodes') :
    Path parent a c (nodes ++ nodes') := by
  induction h with
  | here => exact h'
  | above hp _ ih => exact .above hp ih

theorem level_eq (hgraded : Graded parent level) (h : Path parent a b nodes) :
    level b = level a + nodes.length := by
  induction h with
  | here => rfl
  | above hp _ ih => rw [hgraded _ _ hp, ih, List.length_cons, Nat.add_assoc]

theorem unique {nodes' : List α} (hroot : parent a = none) (h : Path parent a b nodes)
    (h' : Path parent a b nodes') : nodes = nodes' := by
  induction h generalizing nodes' with
  | here =>
      cases h' with
      | here => rfl
      | above hp _ =>
          rw [hroot] at hp
          cases hp
  | above hp _ ih =>
      cases h' with
      | here =>
          rw [hroot] at hp
          cases hp
      | above hp' hrest =>
          obtain rfl := Option.some.inj (hp.symm.trans hp')
          rw [ih hrest]

theorem nodup (hgraded : Graded parent level) (h : Path parent a b nodes) : nodes.Nodup := by
  induction h with
  | here => exact List.nodup_nil
  | above hp hrest ih =>
      refine List.nodup_cons.mpr ⟨fun hin => ?_, ih⟩
      have hle := (hrest.level_lt hgraded _ hin).2
      have hstep := hgraded _ _ hp
      omega

end Path

/-! ## Common ancestors -/

/-- `a` is a common ancestor of `b` and `c`, of which all of them are ancestors. -/
structure LastCommon (parent : α → Option α) (a b c : α) : Prop where
  left : Ancestor parent a b
  right : Ancestor parent a c
  last : ∀ x, Ancestor parent x b → Ancestor parent x c → Ancestor parent x a

namespace LastCommon

theorem symm (h : LastCommon parent a b c) : LastCommon parent a c b :=
  ⟨h.right, h.left, fun x hc hb => h.last x hb hc⟩

/-- An ancestor of a node is the last one that they have in common. -/
theorem of_ancestor (h : Ancestor parent a b) : LastCommon parent a a b :=
  ⟨.refl a, h, fun _ hx _ => hx⟩

theorem unique (hgraded : Graded parent level) (ha : LastCommon parent a b c)
    (hp : LastCommon parent p b c) : a = p :=
  hgraded.antisymm (hp.last a ha.left ha.right) (ha.last p hp.left hp.right)

/-- Every other common ancestor is on a lower level. -/
theorem eq_or_lt (hgraded : Graded parent level) (h : LastCommon parent a b c) {x : α}
    (hb : Ancestor parent x b) (hc : Ancestor parent x c) : x = a ∨ level x < level a := by
  have hx := h.last x hb hc
  rcases Nat.lt_or_eq_of_le (hgraded.le hx) with hlt | heq
  · exact .inr hlt
  · exact .inl (hgraded.eq_of_level hx heq)

/-- The higher one of two nodes may be replaced by its parent. -/
theorem of_parent (hgraded : Graded parent level) (hp : parent b = some p) (hlevel : level c < level b)
    (h : LastCommon parent a p c) : LastCommon parent a b c := by
  refine ⟨.above hp h.left, h.right, fun x hb hc => ?_⟩
  rcases hb.eq_or_above with rfl | ⟨p', hp', hx⟩
  · have hle := hgraded.le hc
    omega
  · obtain rfl := Option.some.inj (hp.symm.trans hp')
    exact h.last x hx hc

/-- Two nodes of one level may both be replaced by their parents. -/
theorem of_parents (hgraded : Graded parent level) (hp : parent b = some p) (hq : parent c = some q)
    (hlevel : level b = level c) (hne : b ≠ c) (h : LastCommon parent a p q) :
    LastCommon parent a b c := by
  have hqc : level q < level b := by
    have hstep := hgraded _ _ hq
    omega
  have hpq : LastCommon parent a b q := of_parent hgraded hp hqc h
  refine ⟨hpq.left, .above hq h.right, fun x hb hc => ?_⟩
  rcases hc.eq_or_above with rfl | ⟨q', hq', hx⟩
  · exact absurd (hgraded.eq_of_level hb hlevel.symm).symm hne
  · obtain rfl := Option.some.inj (hq.symm.trans hq')
    exact hpq.last x hb hx

end LastCommon

end Forest
