import Bip360Enforcer.Library.MerkleTree
import Bip360Enforcer.Pqc.Lemmas.Spend

/-!
# What an accepted merkle path proves
-/

namespace Bip360Enforcer.Pqc

open Except (bind_eq_ok_iff)
open MerkleTree (Position Preimage)

variable {C : Crypto} {leafScript root control branch : Bytes}

/-! ## Script trees -/

abbrev ScriptTree := MerkleTree Script

namespace ScriptTree

variable (C) (tree : ScriptTree)

def leafHash (script : Script) : Bytes := C.p2mrLeafHash p2mrLeafVersion script

def merkleRoot : Bytes := tree.root (leafHash C) C.p2mrBranchHash

def path (pos : Position) : List Bytes := tree.siblings (leafHash C) C.p2mrBranchHash pos

/-- What the hashes of the tree's nodes are taken of. -/
def nodes : List (Preimage Script Bytes) := tree.preimages (leafHash C) C.p2mrBranchHash

end ScriptTree

/-! ## Control blocks -/

def zeroPad : Bytes := List.replicate merkleNodeSize 0

/-- The two wire forms of a path. -/
def coreControlBlock (path : List Bytes) : Bytes := p2mrControlByte :: path.flatten

def paddedControlBlock (path : List Bytes) : Bytes := p2mrControlByte :: (zeroPad ++ path.flatten)

/-- The nodes that the code reads off the bytes of a branch. -/
def branchNodes (branch : Bytes) : List Bytes :=
  chunks merkleNodeSize (branch.length / merkleNodeSize) branch

theorem chunks_spec {n : Nat} : ∀ {count : Nat} {data : Bytes}, data.length = n * count →
    (chunks n count data).flatten = data ∧ ∀ piece ∈ chunks n count data, piece.length = n
  | 0, data, h => by
      obtain rfl : data = [] := by simpa using h
      simp [chunks]
  | count + 1, data, h => by
      rw [Nat.mul_add, Nat.mul_one] at h
      have hrest : (data.drop n).length = n * count := by rw [List.length_drop]; omega
      obtain ⟨hflat, hlen⟩ := chunks_spec hrest
      constructor
      · rw [chunks, List.flatten_cons, hflat, List.take_append_drop]
      · intro piece hpiece
        rcases List.mem_cons.mp hpiece with rfl | hpiece
        · rw [List.length_take]; omega
        · exact hlen piece hpiece

theorem branchNodes_spec (h : branch.length % merkleNodeSize = 0) :
    (branchNodes branch).flatten = branch ∧ ∀ node ∈ branchNodes branch, node.length = merkleNodeSize :=
  chunks_spec (by rw [Nat.mul_div_cancel' (Nat.dvd_of_mod_eq_zero h)])

/-- Lists of nodes with the same bytes are the same. -/
theorem flatten_inj {n : Nat} (hn : 0 < n) : ∀ {xs ys : List Bytes}, (∀ x ∈ xs, x.length = n) →
    (∀ y ∈ ys, y.length = n) → xs.flatten = ys.flatten → xs = ys
  | [], [], _, _, _ => rfl
  | [], y :: ys, _, hys, h => by
      have := congrArg List.length h
      simp only [List.flatten_nil, List.length_nil, List.flatten_cons, List.length_append,
        hys y List.mem_cons_self] at this
      omega
  | x :: xs, [], hxs, _, h => by
      have := congrArg List.length h
      simp only [List.flatten_nil, List.length_nil, List.flatten_cons, List.length_append,
        hxs x List.mem_cons_self] at this
      omega
  | x :: xs, y :: ys, hxs, hys, h => by
      obtain ⟨rfl, hrest⟩ := List.append_inj h
        ((hxs x List.mem_cons_self).trans (hys y List.mem_cons_self).symm)
      rw [flatten_inj hn (fun x hx => hxs x (.tail _ hx)) (fun y hy => hys y (.tail _ hy)) hrest]

/-- The branch is what follows the control byte, or the pad where the control block has one. -/
theorem merkleBranchBytes_ok (h : merkleBranchBytes control = .ok branch) :
    branch.length % merkleNodeSize = 0 ∧
      (control = p2mrControlByte :: branch ∧ ¬ (zeroPad <+: branch) ∨
        control = p2mrControlByte :: (zeroPad ++ branch)) := by
  cases control with
  | nil => cases h
  | cons byte rest =>
      simp only [merkleBranchBytes] at h
      split_ifs at h with hbyte hpad hlen
      · obtain ⟨hsize, hzeros, hmod⟩ := hpad
        simp only [Except.ok.injEq] at h
        subst h
        have hbyte : byte = p2mrControlByte := by simpa using hbyte
        have hstart : rest.take merkleNodeSize = zeroPad := by
          refine List.eq_replicate_iff.mpr ⟨?_, fun b hb => ?_⟩
          · simp only [List.length_cons, legacyPaddedBaseSize] at hsize
            rw [List.length_take, merkleNodeSize]
            omega
          · simpa using List.all_eq_true.mp hzeros b hb
        constructor
        · simp only [List.length_cons, legacyPaddedBaseSize, merkleNodeSize] at hmod ⊢
          rw [List.length_drop]
          omega
        · exact .inr (by rw [hbyte, ← hstart, List.take_append_drop])
      · simp only [Except.ok.injEq] at h
        subst h
        have hbyte : byte = p2mrControlByte := by simpa using hbyte
        have hlen : rest.length % merkleNodeSize = 0 := by simpa using hlen
        refine ⟨hlen, .inl ⟨by rw [hbyte], fun ⟨tail, htail⟩ => hpad ?_⟩⟩
        subst htail
        simp only [zeroPad, List.length_append, List.length_replicate] at hlen
        simp only [List.length_cons, List.length_append, List.length_replicate, zeroPad,
          legacyPaddedBaseSize]
        refine ⟨by simp only [merkleNodeSize]; omega, ?_, ?_⟩
        · simp
        · simp only [merkleNodeSize] at hlen ⊢
          omega

/-! ## Soundness -/

/-- What the hashes of a verification are taken of. -/
def verifiedNodes (C : Crypto) (leafScript control : Bytes) : List (Preimage Script Bytes) :=
  match merkleBranchBytes control with
  | .ok branch =>
      MerkleTree.pathPreimages (ScriptTree.leafHash C) C.p2mrBranchHash leafScript (branchNodes branch)
  | .error _ => []

/-- `control` writes the path to a leaf of `tree`, in one of the two wire forms; a control block that is
also the core form of a path of the tree writes that path. -/
structure WritesPath (C : Crypto) (tree : ScriptTree) (leafScript control : Bytes) (pos : Position) :
    Prop where
  leaf : tree.subtree pos = some (.leaf leafScript)
  branch : merkleBranchBytes control = .ok (ScriptTree.path C tree pos).flatten
  wire : control = coreControlBlock (ScriptTree.path C tree pos) ∨
    control = paddedControlBlock (ScriptTree.path C tree pos)
  sizes : ∀ node ∈ ScriptTree.path C tree pos, node.length = merkleNodeSize
  unambiguous : ∀ other, (∀ node ∈ ScriptTree.path C tree other, node.length = merkleNodeSize) →
    control = coreControlBlock (ScriptTree.path C tree other) →
    ScriptTree.path C tree other = ScriptTree.path C tree pos

/-- No path of a tree without a node of zeros begins with the pad. -/
theorem zeroPad_starts_not {tree : ScriptTree} {pos : Position}
    (hzero : ∀ p ∈ ScriptTree.nodes C tree, p.hash (ScriptTree.leafHash C) C.p2mrBranchHash ≠ zeroPad)
    (hsizes : ∀ node ∈ ScriptTree.path C tree pos, node.length = merkleNodeSize) :
    ¬ zeroPad <+: (ScriptTree.path C tree pos).flatten := by
  rintro ⟨tail, htail⟩
  cases hpath : ScriptTree.path C tree pos with
  | nil => simp [hpath, zeroPad, merkleNodeSize] at htail
  | cons node path =>
      have hnode : node ∈ ScriptTree.path C tree pos := by rw [hpath]; exact List.mem_cons_self
      rw [hpath, List.flatten_cons] at htail
      obtain ⟨heq, -⟩ := List.append_inj htail (by rw [hsizes node hnode]; exact List.length_replicate)
      obtain ⟨other, s, hs, hroot⟩ := MerkleTree.mem_siblings hnode
      obtain ⟨p, hp, hhash⟩ := MerkleTree.exists_preimage_of_subtree hs
      exact hzero p hp (by rw [hhash, hroot, heq])

/-- An accepted leaf is a leaf of the tree, and its control block writes the path to it. -/
theorem verifyMerklePath_sound {tree : ScriptTree}
    (hfree : Preimage.NoCollision (ScriptTree.leafHash C) C.p2mrBranchHash (ScriptTree.nodes C tree)
      (verifiedNodes C leafScript control))
    (hzero : ∀ p ∈ ScriptTree.nodes C tree, p.hash (ScriptTree.leafHash C) C.p2mrBranchHash ≠ zeroPad)
    (h : verifyMerklePath C leafScript (ScriptTree.merkleRoot C tree) control = .ok ()) :
    ∃ pos, WritesPath C tree leafScript control pos := by
  obtain ⟨branch, hbranch, hroot⟩ := bind_eq_ok_iff.mp (verifyMerklePath_ok h)
  obtain ⟨hmod, hwire⟩ := merkleBranchBytes_ok hbranch
  obtain ⟨hflat, hlen⟩ := branchNodes_spec hmod
  rw [verifiedNodes, hbranch] at hfree
  have hroot : (branchNodes branch).foldl C.p2mrBranchHash (ScriptTree.leafHash C leafScript) =
      ScriptTree.merkleRoot C tree := Except.ok.inj hroot
  obtain ⟨pos, hleaf, hpath⟩ := MerkleTree.exists_position_of_foldl_eq_root hfree hroot
  have hpath : ScriptTree.path C tree pos = branchNodes branch := hpath
  refine ⟨pos, hleaf, by rw [hpath, hflat, hbranch], ?_, by rwa [hpath], fun other hsizes hcore => ?_⟩
  · rw [coreControlBlock, paddedControlBlock, hpath, hflat]
    exact hwire.imp And.left id
  · rcases hwire with ⟨hwire, -⟩ | hwire
    · rw [hwire, coreControlBlock, List.cons.injEq] at hcore
      rw [hpath]
      exact flatten_inj (n := merkleNodeSize) (by decide) hsizes hlen (hcore.2.symm.trans hflat.symm)
    · rw [hwire, coreControlBlock, List.cons.injEq] at hcore
      exact absurd ⟨branch, hcore.2⟩ (zeroPad_starts_not hzero hsizes)

/-! A tree of three leaves. -/

def sampleTree : ScriptTree :=
  .branch (.leaf [0x51]) (.branch (.leaf [0x52]) (.leaf [0x53]))

theorem sampleTree_sound :
    verifyMerklePath .sample [0x53] (ScriptTree.merkleRoot .sample sampleTree)
      (paddedControlBlock (ScriptTree.path .sample sampleTree [true, true])) = .ok () ∧
    ∃ pos, WritesPath .sample sampleTree [0x53]
      (paddedControlBlock (ScriptTree.path .sample sampleTree [true, true])) pos :=
  ⟨by decide,
    verifyMerklePath_sound (by decide) (by decide) (by decide)⟩

/-! ## Completeness -/

/-- The nodes that are folded: a first node of zeros is taken for the pad. -/
def foldedNodes : List Bytes → List Bytes
  | [] => []
  | node :: path => if node = zeroPad then path else node :: path

theorem length_flatten_nodes {path : List Bytes} (h : ∀ node ∈ path, node.length = merkleNodeSize) :
    path.flatten.length = merkleNodeSize * path.length := by
  induction path with
  | nil => rfl
  | cons node path ih =>
      have hnode := h node List.mem_cons_self
      have hrest := ih fun other hother => h other (.tail _ hother)
      rw [List.flatten_cons, List.length_append, hnode, hrest, List.length_cons]
      ring

theorem branchNodes_flatten {path : List Bytes} (h : ∀ node ∈ path, node.length = merkleNodeSize) :
    branchNodes path.flatten = path := by
  have hmod : path.flatten.length % merkleNodeSize = 0 := by
    rw [length_flatten_nodes h]
    exact Nat.mul_mod_right ..
  obtain ⟨hflat, hlen⟩ := branchNodes_spec hmod
  exact flatten_inj (n := merkleNodeSize) (by decide) hlen h hflat

theorem all_zero_iff {node : Bytes} (h : node.length = merkleNodeSize) :
    node.all (· == 0) = true ↔ node = zeroPad := by
  constructor
  · intro hall
    exact List.eq_replicate_iff.mpr ⟨h, by simpa using hall⟩
  · intro hpad
    rw [hpad]
    decide

theorem merkleBranchBytes_coreControlBlock {path : List Bytes}
    (h : ∀ node ∈ path, node.length = merkleNodeSize) :
    merkleBranchBytes (coreControlBlock path) = .ok (foldedNodes path).flatten := by
  cases path with
  | nil => rfl
  | cons node path =>
      have hnode := h node List.mem_cons_self
      have hlen := length_flatten_nodes h
      have htake : ((node :: path).flatten).take merkleNodeSize = node := by
        rw [List.flatten_cons, ← hnode, List.take_left]
      have hdrop : ((node :: path).flatten).drop merkleNodeSize = path.flatten := by
        rw [List.flatten_cons, ← hnode, List.drop_left]
      have hroom : legacyPaddedBaseSize ≤ (coreControlBlock (node :: path)).length := by
        rw [coreControlBlock, List.length_cons, hlen, List.length_cons]
        simp only [legacyPaddedBaseSize, merkleNodeSize]
        omega
      have hmod : ((coreControlBlock (node :: path)).length - legacyPaddedBaseSize) % merkleNodeSize = 0 := by
        rw [coreControlBlock, List.length_cons, hlen, List.length_cons]
        simp only [legacyPaddedBaseSize, merkleNodeSize]
        omega
      have hbranch : ((node :: path).flatten).length % merkleNodeSize = 0 := by
        rw [hlen]
        exact Nat.mul_mod_right ..
      rw [coreControlBlock] at hroom hmod
      simp only [coreControlBlock, merkleBranchBytes, hroom, hmod, htake, hdrop, hbranch, true_and,
        and_true, ne_eq, not_true_eq_false, if_false, all_zero_iff hnode]
      by_cases hpad : node = zeroPad
      · rw [if_pos hpad, foldedNodes, if_pos hpad]
      · rw [if_neg hpad, foldedNodes, if_neg hpad]

/-- The core form of a path is accepted for the fold of its nodes, and for no other root. -/
theorem verifyMerklePath_coreControlBlock_iff {path : List Bytes}
    (hsizes : ∀ node ∈ path, node.length = merkleNodeSize) :
    verifyMerklePath C leafScript root (coreControlBlock path) = .ok () ↔
      root = (foldedNodes path).foldl C.p2mrBranchHash (ScriptTree.leafHash C leafScript) := by
  have hfolded : ∀ node ∈ foldedNodes path, node.length = merkleNodeSize := by
    intro node hnode
    cases path with
    | nil => cases hnode
    | cons first rest =>
        rw [foldedNodes] at hnode
        split at hnode
        · exact hsizes node (.tail _ hnode)
        · exact hsizes node hnode
  have hnodes := branchNodes_flatten hfolded
  have hroot : recomputeMerkleRoot C leafScript (coreControlBlock path) =
      .ok ((foldedNodes path).foldl C.p2mrBranchHash (ScriptTree.leafHash C leafScript)) := by
    rw [recomputeMerkleRoot, merkleBranchBytes_coreControlBlock hsizes]
    change Except.ok ((branchNodes (foldedNodes path).flatten).foldl _ _) = _
    rw [hnodes]
    rfl
  rw [verifyMerklePath, hroot]
  constructor
  · intro h
    by_contra hne
    have : ¬ (foldedNodes path).foldl C.p2mrBranchHash (ScriptTree.leafHash C leafScript) = root :=
      fun heq => hne heq.symm
    simp [bind, Except.bind, this] at h
  · intro h
    simp [bind, Except.bind, h]

/-- The hash of a branch is not that of one of its nodes. -/
def pairSample : Crypto where
  __ := Crypto.sample
  p2mrBranchHash a b := Crypto.front (1 :: a.zipWith (· ^^^ ·) b)

def siblingHash : Bytes := List.replicate merkleNodeSize 7

theorem siblingHash_folded :
    verifyMerklePath pairSample [0x51]
      ([siblingHash, zeroPad].foldl pairSample.p2mrBranchHash (ScriptTree.leafHash pairSample [0x51]))
      (coreControlBlock [siblingHash, zeroPad]) = .ok () :=
  (verifyMerklePath_coreControlBlock_iff (by decide)).mpr rfl

/-- A committed sibling of zeros is dropped, and the path to the leaf refused. -/
theorem zeroSibling_refused :
    verifyMerklePath pairSample [0x51]
      ([zeroPad].foldl pairSample.p2mrBranchHash (ScriptTree.leafHash pairSample [0x51]))
      (coreControlBlock [zeroPad]) = .error .merkleRootMismatch := by
  decide

end Bip360Enforcer.Pqc
