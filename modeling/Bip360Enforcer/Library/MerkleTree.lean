import Mathlib.Data.List.Induction

/-!
# Binary trees committed to by hashes of unordered pairs
-/

/-- A binary tree with a value at each leaf. -/
inductive MerkleTree (α : Type*) where
  | leaf (a : α)
  | branch (left right : MerkleTree α)
  deriving DecidableEq, Repr

namespace MerkleTree

/-- The way from the root to a node: `true` goes to the right child. -/
abbrev Position := List Bool

section Shape

variable {α : Type*}

/-- The subtree at a position; none where the tree has no node there. -/
def subtree : MerkleTree α → Position → Option (MerkleTree α)
  | t, [] => some t
  | leaf _, _ :: _ => none
  | branch l r, right :: pos => (if right then r else l).subtree pos

/-- The tree in which the subtree at a position is replaced by a leaf. -/
def replace : MerkleTree α → Position → α → MerkleTree α
  | _, [], a => leaf a
  | leaf b, _ :: _, _ => leaf b
  | branch l r, right :: pos, a =>
      if right then branch l (r.replace pos a) else branch (l.replace pos a) r

@[simp] theorem subtree_nil (t : MerkleTree α) : t.subtree [] = some t := by cases t <;> rfl

@[simp] theorem replace_nil (t : MerkleTree α) (a : α) : t.replace [] a = leaf a := by
  cases t <;> rfl

@[simp] theorem subtree_leaf_cons (a : α) (right : Bool) (pos : Position) :
    (leaf a).subtree (right :: pos) = none := rfl

theorem subtree_replace_self {t s : MerkleTree α} {pos : Position} (a : α)
    (h : t.subtree pos = some s) : (t.replace pos a).subtree pos = some (leaf a) := by
  induction pos generalizing t with
  | nil => simp
  | cons right pos ih =>
      cases t with
      | leaf b => cases h
      | branch l r => cases right <;> exact ih h

/-- Only the nodes on the way to the replaced leaf change. -/
theorem subtree_replace_of_apart {t : MerkleTree α} {pos other : Position} (a : α)
    (hleaf : ∃ b, t.subtree pos = some (leaf b)) (h : ¬ other <+: pos) :
    (t.replace pos a).subtree other = t.subtree other := by
  induction pos generalizing t other with
  | nil =>
      obtain ⟨b, hb⟩ := hleaf
      obtain rfl : t = leaf b := by simpa using hb
      cases other with
      | nil => exact absurd (List.prefix_refl _) h
      | cons right other => rfl
  | cons right pos ih =>
      cases t with
      | leaf b => rfl
      | branch l r =>
          cases other with
          | nil => exact absurd (List.nil_prefix) h
          | cons right' other =>
              by_cases hside : right' = right
              · subst hside
                have hnot : ¬ other <+: pos := fun hp => h (List.prefix_cons_inj _ |>.mpr hp)
                cases right' <;> exact ih hleaf hnot
              · cases right <;> cases right' <;> first | rfl | exact absurd rfl hside

end Shape

/-! ## Hashes -/

section Hashes

variable {α H : Type*} (leafHash : α → H) (branchHash : H → H → H)

def root : MerkleTree α → H
  | leaf a => leafHash a
  | branch l r => branchHash l.root r.root

/-- The hashes beside the way to a position, the one at the bottom first. -/
def siblings : MerkleTree α → Position → List H
  | _, [] => []
  | leaf _, _ :: _ => []
  | branch l r, right :: pos =>
      if right then r.siblings pos ++ [l.root leafHash branchHash]
      else l.siblings pos ++ [r.root leafHash branchHash]

@[simp] theorem siblings_nil (t : MerkleTree α) : t.siblings leafHash branchHash [] = [] := by
  cases t <;> rfl

/-- The hash of a branch does not depend on the order of its children. -/
def Unordered : Prop := ∀ a b, branchHash a b = branchHash b a

variable {leafHash branchHash}

theorem siblings_replace {t : MerkleTree α} (pos : Position) (a : α) :
    (t.replace pos a).siblings leafHash branchHash pos = t.siblings leafHash branchHash pos := by
  induction pos generalizing t with
  | nil => simp
  | cons right pos ih =>
      cases t with
      | leaf b => rfl
      | branch l r => cases right <;> exact congrArg (· ++ _) ih

/-- Folding the siblings of a leaf over its hash gives the root, and the same siblings over the hash of
another leaf give the root after the replacement. -/
theorem foldl_siblings (hcomm : Unordered branchHash) {t s : MerkleTree α} {pos : Position} (a : α)
    (h : t.subtree pos = some s) :
    (t.siblings leafHash branchHash pos).foldl branchHash (leafHash a) =
      (t.replace pos a).root leafHash branchHash := by
  induction pos generalizing t with
  | nil => simp [root]
  | cons right pos ih =>
      cases t with
      | leaf b => cases h
      | branch l r =>
          cases right with
          | false =>
              have hchild := ih (t := l) h
              simp only [siblings, replace, root, Bool.false_eq_true, if_false, List.foldl_append,
                List.foldl_cons, List.foldl_nil, hchild]
          | true =>
              have hchild := ih (t := r) h
              simp only [siblings, replace, root, if_true, List.foldl_append, List.foldl_cons,
                List.foldl_nil, hchild]
              exact hcomm _ _

/-- Every sibling is the root of a subtree. -/
theorem mem_siblings {t : MerkleTree α} {pos : Position} {h : H}
    (hmem : h ∈ t.siblings leafHash branchHash pos) :
    ∃ other s, t.subtree other = some s ∧ s.root leafHash branchHash = h := by
  induction pos generalizing t with
  | nil => simp at hmem
  | cons right pos ih =>
      cases t with
      | leaf b => simp [siblings] at hmem
      | branch l r =>
          cases right with
          | false =>
              rcases List.mem_append.mp hmem with hmem | hmem
              · obtain ⟨other, s, hs, hroot⟩ := ih hmem
                exact ⟨false :: other, s, hs, hroot⟩
              · exact ⟨[true], r, subtree_nil r, (List.mem_singleton.mp hmem).symm⟩
          | true =>
              rcases List.mem_append.mp hmem with hmem | hmem
              · obtain ⟨other, s, hs, hroot⟩ := ih hmem
                exact ⟨true :: other, s, hs, hroot⟩
              · exact ⟨[false], l, subtree_nil l, (List.mem_singleton.mp hmem).symm⟩

end Hashes

/-! ## Collisions -/

/-- What one hash is taken of. -/
inductive Preimage (α H : Type*) where
  | leaf (a : α)
  | pair (a b : H)
  deriving DecidableEq, Repr

namespace Preimage

variable {α H : Type*}

def hash (leafHash : α → H) (branchHash : H → H → H) : Preimage α H → H
  | leaf a => leafHash a
  | pair a b => branchHash a b

/-- Equal, up to the order of a pair. -/
def Same : Preimage α H → Preimage α H → Prop
  | leaf a, leaf b => a = b
  | pair a b, pair c d => (a = c ∧ b = d) ∨ (a = d ∧ b = c)
  | _, _ => False

instance [DecidableEq α] [DecidableEq H] : DecidableRel (Same : Preimage α H → Preimage α H → Prop)
  | leaf a, leaf b => inferInstanceAs (Decidable (a = b))
  | pair a b, pair c d => inferInstanceAs (Decidable ((a = c ∧ b = d) ∨ (a = d ∧ b = c)))
  | leaf _, pair _ _ => inferInstanceAs (Decidable False)
  | pair _ _, leaf _ => inferInstanceAs (Decidable False)

/-- No member of `ps` has the hash of another preimage in `qs`. -/
def NoCollision (leafHash : α → H) (branchHash : H → H → H) (ps qs : List (Preimage α H)) : Prop :=
  ∀ p ∈ ps, ∀ q ∈ qs, p.hash leafHash branchHash = q.hash leafHash branchHash → p.Same q

instance [DecidableEq α] [DecidableEq H] (leafHash : α → H) (branchHash : H → H → H)
    (ps qs : List (Preimage α H)) : Decidable (NoCollision leafHash branchHash ps qs) :=
  inferInstanceAs (Decidable (∀ p ∈ ps, ∀ q ∈ qs, _ → _))

end Preimage

section Soundness

variable {α H : Type*} (leafHash : α → H) (branchHash : H → H → H)

/-- What the hashes of all nodes are taken of, the root first. -/
def preimages : MerkleTree α → List (Preimage α H)
  | leaf a => [.leaf a]
  | branch l r =>
      .pair (l.root leafHash branchHash) (r.root leafHash branchHash) :: (l.preimages ++ r.preimages)

/-- What the hashes of a fold from `h` on are taken of. -/
def foldPreimages (h : H) : List H → List (Preimage α H)
  | [] => []
  | sibling :: path => .pair h sibling :: foldPreimages (branchHash h sibling) path

/-- What the hashes of a leaf and of the path above it are taken of. -/
def pathPreimages (a : α) (path : List H) : List (Preimage α H) :=
  .leaf a :: foldPreimages branchHash (leafHash a) path

variable {leafHash branchHash}

theorem foldPreimages_concat (h top : H) (path : List H) :
    (foldPreimages branchHash h (path ++ [top]) : List (Preimage α H)) =
      foldPreimages branchHash h path ++ [.pair (path.foldl branchHash h) top] := by
  induction path generalizing h with
  | nil => rfl
  | cons sibling path ih => exact congrArg (_ :: ·) (ih _)

/-- The root of a subtree is the hash of a preimage of the tree. -/
theorem exists_preimage_of_subtree {t s : MerkleTree α} {pos : Position}
    (h : t.subtree pos = some s) :
    ∃ p ∈ t.preimages leafHash branchHash, p.hash leafHash branchHash = s.root leafHash branchHash := by
  induction pos generalizing t with
  | nil =>
      obtain rfl : t = s := by simpa using h
      cases t with
      | leaf a => exact ⟨.leaf a, List.mem_singleton_self _, rfl⟩
      | branch l r => exact ⟨.pair _ _, List.mem_cons_self, rfl⟩
  | cons right pos ih =>
      cases t with
      | leaf a => cases h
      | branch l r =>
          cases right with
          | false =>
              obtain ⟨p, hp, hhash⟩ := ih (t := l) h
              exact ⟨p, List.mem_cons_of_mem _ (List.mem_append_left _ hp), hhash⟩
          | true =>
              obtain ⟨p, hp, hhash⟩ := ih (t := r) h
              exact ⟨p, List.mem_cons_of_mem _ (List.mem_append_right _ hp), hhash⟩

/-- What is folded to the root of a tree are the siblings of a leaf of it, unless two of the hashes
involved collide. -/
theorem exists_position_of_foldl_eq_root {t : MerkleTree α} {path : List H} {a : α}
    (hfree : Preimage.NoCollision leafHash branchHash (t.preimages leafHash branchHash)
      (pathPreimages leafHash branchHash a path))
    (h : path.foldl branchHash (leafHash a) = t.root leafHash branchHash) :
    ∃ pos, t.subtree pos = some (leaf a) ∧ t.siblings leafHash branchHash pos = path := by
  -- The last hash of the fold is the root's: its inputs are the two children.
  induction path using List.reverseRecOn generalizing t with
  | nil =>
      cases t with
      | leaf b =>
          obtain rfl : b = a := hfree (.leaf b) List.mem_cons_self (.leaf a) List.mem_cons_self h.symm
          exact ⟨[], rfl, rfl⟩
      | branch l r =>
          exact (hfree (.pair _ _) List.mem_cons_self (.leaf a) List.mem_cons_self h.symm).elim
  | append_singleton path top ih =>
      have hmem : .pair (path.foldl branchHash (leafHash a)) top ∈
          pathPreimages leafHash branchHash a (path ++ [top]) := by
        rw [pathPreimages, foldPreimages_concat]
        exact List.mem_cons_of_mem _ (List.mem_append_right _ List.mem_cons_self)
      have hstart : pathPreimages leafHash branchHash a path ⊆
          pathPreimages leafHash branchHash a (path ++ [top]) := by
        rw [pathPreimages, pathPreimages, foldPreimages_concat]
        exact List.cons_subset_cons _ (List.subset_append_left _ _)
      rw [List.foldl_append] at h
      cases t with
      | leaf b => exact (hfree (.leaf b) List.mem_cons_self _ hmem h.symm).elim
      | branch l r =>
          rcases hfree (.pair _ _) List.mem_cons_self _ hmem h.symm with ⟨hleft, hright⟩ | ⟨hleft, hright⟩
          · have hchild : Preimage.NoCollision leafHash branchHash (l.preimages leafHash branchHash)
                (pathPreimages leafHash branchHash a path) := fun p hp q hq =>
              hfree p (List.mem_cons_of_mem _ (List.mem_append_left _ hp)) q (hstart hq)
            obtain ⟨pos, hsub, hsib⟩ := ih hchild hleft.symm
            exact ⟨false :: pos, hsub, by rw [siblings, if_neg (by simp), hsib, hright]⟩
          · have hchild : Preimage.NoCollision leafHash branchHash (r.preimages leafHash branchHash)
                (pathPreimages leafHash branchHash a path) := fun p hp q hq =>
              hfree p (List.mem_cons_of_mem _ (List.mem_append_right _ hp)) q (hstart hq)
            obtain ⟨pos, hsub, hsib⟩ := ih hchild hright.symm
            exact ⟨true :: pos, hsub, by rw [siblings, if_pos rfl, hsib, hleft]⟩

end Soundness

end MerkleTree
