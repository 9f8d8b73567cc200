import Bip360Enforcer.Validator.Ancestry
import Bip360Enforcer.Validator.Lemmas.Chain
import Bip360Enforcer.Validator.Lemmas.ChainIndex
import Bip360Enforcer.Validator.Lemmas.Presented

/-!
# The stored headers as a tree, with the zero hash as its root
-/

namespace Bip360Enforcer.Validator

open Forest (Ancestor Graded LastCommon)

variable {dbs : Dbs} {ancestor blockHash blockHash0 blockHash1 current0 current1 : BlockHash}
  {header header0 header1 : Header} {height height0 height1 n : Nat}

/-! ## Parents and levels -/

def parentOf (headers : HashDb Header) (blockHash : BlockHash) : Option BlockHash :=
  (headers.lookup blockHash).map Header.prevBlockhash

/-- The number of blocks up to this one; the zero hash has none. -/
def levelOf (dbs : Dbs) (blockHash : BlockHash) : Nat :=
  if (dbs.header.lookup blockHash).isSome then (dbs.height.lookup blockHash).getD 0 + 1 else 0

theorem parentOf_of_lookup {headers : HashDb Header} (h : headers.lookup blockHash = some header) :
    parentOf headers blockHash = some header.prevBlockhash := by rw [parentOf, h]; rfl

theorem AncestorOf.stored {headers : HashDb Header} (h : AncestorOf headers ancestor blockHash) :
    (headers.lookup ancestor).isSome := by
  induction h with
  | self hstored => rw [hstored]; rfl
  | parent _ _ ih => exact ih

theorem ancestorOf_iff {headers : HashDb Header} : AncestorOf headers ancestor blockHash ↔
    (headers.lookup ancestor).isSome ∧ Ancestor (parentOf headers) ancestor blockHash := by
  constructor
  · intro h
    refine ⟨h.stored, ?_⟩
    induction h with
    | self _ => exact .refl _
    | parent hstored _ ih => exact .above (parentOf_of_lookup hstored) ih
  · rintro ⟨hstored, h⟩
    induction h using Relation.ReflTransGen.head_induction_on with
    | refl =>
        obtain ⟨header, hlookup⟩ := Option.isSome_iff_exists.mp hstored
        exact .self hlookup
    | head hparent _ ih =>
        obtain ⟨header, hlookup, rfl⟩ := Option.map_eq_some_iff.mp hparent
        exact .parent hlookup ih

/-! ## The forest -/

namespace HeaderForest

theorem height_eq (h : HeaderForest dbs) (hstored : dbs.header.lookup blockHash = some header) :
    ∃ height, dbs.height.lookup blockHash = some height ∧ levelOf dbs blockHash = height + 1 := by
  obtain ⟨height, hheight⟩ := Option.isSome_iff_exists.mp (h.height _ _ hstored)
  exact ⟨height, hheight, by rw [levelOf, hstored, hheight]; rfl⟩

theorem next_height (h : HeaderForest dbs) (hstored : dbs.header.lookup blockHash = some header)
    (hparent : dbs.header.lookup header.prevBlockhash = some header0) :
    ∃ height, dbs.height.lookup header.prevBlockhash = some height ∧
      dbs.height.lookup blockHash = some (height + 1) := by
  obtain ⟨height, hheight, -⟩ := h.height_eq hparent
  refine ⟨height, hheight, ?_⟩
  rw [h.next _ _ hstored (by rw [hparent]; rfl), hheight]
  rfl

/-- With a header of the zero hash, every stored block would have a stored parent, without end. -/
theorem zero_absent (h : HeaderForest dbs) : dbs.header.lookup .allZeros = none := by
  cases hzero : dbs.header.lookup .allZeros with
  | none => rfl
  | some zeroHeader =>
      have hsome : ∀ {blockHash header}, dbs.header.lookup blockHash = some header →
          (dbs.header.lookup header.prevBlockhash).isSome := by
        intro blockHash header hstored
        rcases h.parent _ _ hstored with hprev | hsome
        · rw [hprev, hzero]
          rfl
        · exact hsome
      have hempty : ∀ height blockHash header, dbs.header.lookup blockHash = some header →
          dbs.height.lookup blockHash ≠ some height := by
        intro height
        induction height with
        | zero =>
            intro blockHash header hstored hheight
            obtain ⟨parentHeader, hparent⟩ := Option.isSome_iff_exists.mp (hsome hstored)
            obtain ⟨n, -, hn⟩ := h.next_height hstored hparent
            rw [hheight] at hn
            cases hn
        | succ height ih =>
            intro blockHash header hstored hheight
            obtain ⟨parentHeader, hparent⟩ := Option.isSome_iff_exists.mp (hsome hstored)
            obtain ⟨n, hn, hn'⟩ := h.next_height hstored hparent
            rw [hheight] at hn'
            obtain rfl : height = n := Nat.succ.inj (Option.some.inj hn')
            exact ih _ _ hparent hn
      obtain ⟨height, hheight, -⟩ := h.height_eq hzero
      exact absurd hheight (hempty height _ _ hzero)

theorem level_zero (h : HeaderForest dbs) : levelOf dbs .allZeros = 0 := by
  rw [levelOf, h.zero_absent]
  rfl

theorem graded (h : HeaderForest dbs) : Graded (parentOf dbs.header) (levelOf dbs) := by
  intro blockHash parent hparent
  obtain ⟨header, hstored, rfl⟩ := Option.map_eq_some_iff.mp hparent
  obtain ⟨height, hheight, hlevel⟩ := h.height_eq hstored
  rw [hlevel]
  rcases h.parent _ _ hstored with hprev | hsome
  · have hfirst := h.first _ _ hstored hprev
    rw [hheight] at hfirst
    rw [hprev, h.level_zero, Option.some.inj hfirst]
  · obtain ⟨parentHeader, hlookup⟩ := Option.isSome_iff_exists.mp hsome
    obtain ⟨n, hn, hn'⟩ := h.next_height hstored hlookup
    obtain ⟨m, hm, hm'⟩ := h.height_eq hlookup
    rw [hheight] at hn'
    rw [hn] at hm
    rw [hm', Option.some.inj hn', Option.some.inj hm]

/-- The zero hash is before every block. -/
theorem zero_ancestor (h : HeaderForest dbs) (hblock : StoredOrZero dbs blockHash) :
    Ancestor (parentOf dbs.header) .allZeros blockHash := by
  obtain ⟨n, hn⟩ : ∃ n, levelOf dbs blockHash = n := ⟨_, rfl⟩
  induction n generalizing blockHash with
  | zero =>
      rcases hblock with hsome | rfl
      · obtain ⟨header, hstored⟩ := Option.isSome_iff_exists.mp hsome
        obtain ⟨height, -, hlevel⟩ := h.height_eq hstored
        omega
      · exact .refl _
  | succ n ih =>
      rcases hblock with hsome | rfl
      · obtain ⟨header, hstored⟩ := Option.isSome_iff_exists.mp hsome
        have hparent := parentOf_of_lookup hstored
        have hlevel := h.graded _ _ hparent
        exact .above hparent (ih (h.parent _ _ hstored).symm (by omega))
      · exact .refl _

/-- The last common node of the tree is the last common ancestor, or the root where there is none. -/
theorem isLastCommonAncestor (h : HeaderForest dbs)
    (hcommon : LastCommon (parentOf dbs.header) ancestor blockHash0 blockHash1)
    (hancestor : StoredOrZero dbs ancestor) :
    IsLastCommonAncestor dbs blockHash0 blockHash1 ancestor := by
  rcases hancestor with hstored | rfl
  · right
    refine ⟨ancestorOf_iff.mpr ⟨hstored, hcommon.left⟩, ancestorOf_iff.mpr ⟨hstored, hcommon.right⟩,
      fun other h0 h1 => ?_⟩
    have hother := h0.stored
    rcases hcommon.eq_or_lt h.graded (ancestorOf_iff.mp h0).2 (ancestorOf_iff.mp h1).2 with heq | hlt
    · exact .inl heq
    · obtain ⟨header, hlookup⟩ := Option.isSome_iff_exists.mp hother
      obtain ⟨greaterHeader, hlookup'⟩ := Option.isSome_iff_exists.mp hstored
      obtain ⟨height, hheight, hlevel⟩ := h.height_eq hlookup
      obtain ⟨greater, hgreater, hlevel'⟩ := h.height_eq hlookup'
      exact .inr ⟨height, greater, hheight, hgreater, by omega⟩
  · left
    refine ⟨rfl, fun other h0 h1 => ?_⟩
    have hother := h0.stored
    obtain ⟨header, hlookup⟩ := Option.isSome_iff_exists.mp hother
    obtain ⟨height, -, hlevel⟩ := h.height_eq hlookup
    have hle := h.graded.le (hcommon.last other (ancestorOf_iff.mp h0).2 (ancestorOf_iff.mp h1).2)
    rw [h.level_zero] at hle
    omega

end HeaderForest

/-! ## The forest of a chain index -/

theorem ChainIndex.forest {C : Crypto} {headers : Set Header} {heightOf : BlockHash → Nat}
    (hhashes : HonestHashes C headers) (hheights : BlockHeights C headers heightOf)
    (h : ChainIndex C headers heightOf dbs) : HeaderForest dbs := by
  have hheight : ∀ {blockHash header}, dbs.header.lookup blockHash = some header →
      dbs.height.lookup blockHash = some (heightOf blockHash) := by
    intro blockHash header hstored
    rw [h.height, hstored]
    rfl
  refine ⟨fun blockHash header hstored => ?_, fun blockHash header hstored => ?_,
    fun blockHash header hstored hprev => ?_, fun blockHash header hstored hparent => ?_⟩
  · by_cases hzero : header.prevBlockhash = .allZeros
    · exact .inl hzero
    · exact .inr (h.parent _ _ hstored hzero)
  · rw [hheight hstored]
    rfl
  · obtain ⟨hmem, rfl⟩ := h.keyed _ _ hstored
    rw [hheight hstored, hheights.first header hmem hprev]
  · obtain ⟨hmem, rfl⟩ := h.keyed _ _ hstored
    obtain ⟨parentHeader, hlookup⟩ := Option.isSome_iff_exists.mp hparent
    have hzero : header.prevBlockhash ≠ .allZeros := by
      obtain ⟨hparentMem, hhash⟩ := h.keyed _ _ hlookup
      rw [← hhash]
      exact hhashes.nonzero _ hparentMem
    rw [hheight hstored, hheight hlookup, hheights.next header hmem hzero]
    rfl

theorem OnChain.below_tip (h : OnChain dbs blockHash) :
    ∃ tip, dbs.currentChainTip = some tip ∧ Ancestor (parentOf dbs.header) blockHash tip := by
  induction h with
  | tip htip => exact ⟨_, htip, .refl _⟩
  | parent _ hlookup _ ih =>
      obtain ⟨tip, htip, hancestor⟩ := ih
      exact ⟨tip, htip, .trans (.above (parentOf_of_lookup hlookup) (.refl _)) hancestor⟩

/-- On the chain of the tip there is one block at each height. -/
theorem OnChain.eq_of_height (hforest : HeaderForest dbs) (h : OnChain dbs blockHash0)
    (h' : OnChain dbs blockHash1) (hlevel : levelOf dbs blockHash0 = levelOf dbs blockHash1) :
    blockHash0 = blockHash1 := by
  obtain ⟨tip, htip, hancestor⟩ := h.below_tip
  obtain ⟨tip', htip', hancestor'⟩ := h'.below_tip
  obtain rfl := Option.some.inj (htip.symm.trans htip')
  exact hforest.graded.eq_of_level
    (hforest.graded.of_le hancestor hancestor' (Nat.le_of_eq hlevel)) hlevel

/-! ## Whole chains -/

variable {stored : HashDb Header} {hashes : List BlockHash}

/-- The path from a block back to the first one is a chain with this block on top. -/
theorem linked_of_path (h : Forest.Path (parentOf stored) .allZeros blockHash hashes) :
    Linked stored hashes ∧ hashes.head?.getD .allZeros = blockHash := by
  induction h with
  | here => exact ⟨fun _ _ hsuffix => absurd (suffix_mem hsuffix) List.not_mem_nil, rfl⟩
  | above hparent _ ih =>
      refine ⟨fun hash below hsuffix => ?_, rfl⟩
      rcases suffix_cons hsuffix with ⟨rfl, rfl⟩ | hsuffix
      · obtain ⟨header, hstored, hprev⟩ := Option.map_eq_some_iff.mp hparent
        exact ⟨header, hstored, hprev.trans ih.2.symm⟩
      · exact ih.1 hash below hsuffix

theorem path_of_linked (h : Linked stored hashes) :
    Forest.Path (parentOf stored) .allZeros (hashes.head?.getD .allZeros) hashes := by
  induction hashes with
  | nil => exact .here
  | cons hash hashes ih =>
      obtain ⟨header, hstored, hprev⟩ := h hash hashes (List.suffix_refl _)
      have hparent : parentOf stored hash = some (hashes.head?.getD .allZeros) := by
        rw [parentOf_of_lookup hstored, hprev]
      exact .above hparent (ih h.tail)

end Bip360Enforcer.Validator
