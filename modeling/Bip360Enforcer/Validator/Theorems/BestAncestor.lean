import Bip360Enforcer.Validator.Headers
import Bip360Enforcer.Validator.Lemmas.Programs

/-!
# The search for the best known ancestor
-/

namespace Bip360Enforcer.Validator

variable {dbs : Dbs} {source : HeaderSource} {chain : Nat → BlockHash} {tipHeight : Nat} {s : Store}

/-- The header of the block at this height of the node's chain is stored. -/
def KnownAt (dbs : Dbs) (chain : Nat → BlockHash) (height : Nat) : Prop :=
  (dbs.header.lookup (chain height)).isSome

/-- Whenever it is asked for a block below the tip, the node answers with that of the chain. -/
def AnswersBelow (source : HeaderSource) (chain : Nat → BlockHash) (tipHeight : Nat) : Prop :=
  ∀ asked height, height < tipHeight → source.getblockhash asked height = .ok (chain height)

/-- Below a known block all blocks are known. -/
def DownwardClosed (dbs : Dbs) (chain : Nat → BlockHash) (tipHeight : Nat) : Prop :=
  ∀ height < tipHeight, KnownAt dbs chain (height + 1) → KnownAt dbs chain height

/-- The known block of greatest height, with its height; none where no block is known. -/
def IsBestKnown (dbs : Dbs) (chain : Nat → BlockHash) (tipHeight : Nat) :
    Option (BlockHash × Nat) → Prop
  | none => ∀ height ≤ tipHeight, ¬ KnownAt dbs chain height
  | some (blockHash, height) => height ≤ tipHeight ∧ blockHash = chain height ∧ KnownAt dbs chain height ∧
      ∀ other ≤ tipHeight, KnownAt dbs chain other → other ≤ height

/-- The source that refuses to answer for the heights from `tipHeight` on. -/
def HeaderSource.refuseFrom (source : HeaderSource) (tipHeight : Nat) (refusal : SyncError) :
    HeaderSource :=
  { source with getblockhash := fun asked height =>
      if height < tipHeight then source.getblockhash asked height else .error refusal }

/-! ## The interval -/

theorem DownwardClosed.below (h : DownwardClosed dbs chain tipHeight) {height other : Nat}
    (hknown : KnownAt dbs chain height) (hle : height ≤ tipHeight) (hother : other ≤ height) :
    KnownAt dbs chain other := by
  induction height with
  | zero => rwa [Nat.le_zero.mp hother]
  | succ height ih =>
      rcases Nat.lt_or_eq_of_le hother with hlt | rfl
      · exact ih (h height (by omega) hknown) (by omega) (by omega)
      · exact hknown

/-- The search stands between the best known block and a missing one. -/
structure Between (dbs : Dbs) (chain : Nat → BlockHash) (tipHeight : Nat)
    (best : Option (BlockHash × Nat)) (missing : Nat) : Prop where
  absent : ¬ KnownAt dbs chain missing
  atMost : missing ≤ tipHeight
  known : ∀ blockHash height, best = some (blockHash, height) →
    blockHash = chain height ∧ KnownAt dbs chain height ∧ height < missing

namespace Between

variable {best : Option (BlockHash × Nat)} {missing : Nat}

theorem lt_missing (h : Between dbs chain tipHeight best missing)
    (hclosed : DownwardClosed dbs chain tipHeight) {height : Nat} (hle : height ≤ tipHeight)
    (hknown : KnownAt dbs chain height) : height < missing := by
  by_contra hge
  exact h.absent (hclosed.below hknown hle (Nat.le_of_not_lt hge))

/-- The search is over where nothing is left between the two. -/
theorem isBestKnown (h : Between dbs chain tipHeight best missing)
    (hclosed : DownwardClosed dbs chain tipHeight)
    (hend : missing ≤ (best.map fun known => known.2 + 1).getD 0) :
    IsBestKnown dbs chain tipHeight best := by
  cases best with
  | none =>
      intro height hle hknown
      have hlt := h.lt_missing hclosed hle hknown
      have hzero : missing ≤ 0 := hend
      omega
  | some known =>
      obtain ⟨blockHash, height⟩ := known
      obtain ⟨heq, hknown, hlt⟩ := h.known _ _ rfl
      have hle_tip := h.atMost
      refine ⟨by omega, heq, hknown, fun other hle hother => ?_⟩
      have hother_lt := h.lt_missing hclosed hle hother
      have hsucc : missing ≤ height + 1 := hend
      omega

end Between

/-- The first missing height that the search could still find, from 0 on. -/
def firstOpen (best : Option (BlockHash × Nat)) : Nat := (best.map fun known => known.2 + 1).getD 0

/-- Where the midpoint is one of the two, nothing is left between them; else it is a new height. -/
theorem Between.midpoint {best : Option (BlockHash × Nat)} {missing midpoint : Nat}
    (h : Between dbs chain tipHeight best missing)
    (hmid : midpoint = (missing + (best.map Prod.snd).getD 0) / 2) :
    (best.map Prod.snd = some midpoint ∨ midpoint = missing → missing ≤ firstOpen best) ∧
    (¬ (best.map Prod.snd = some midpoint ∨ midpoint = missing) →
      firstOpen best ≤ midpoint ∧ midpoint < missing) := by
  cases best with
  | none =>
      have hhalf : midpoint = (missing + 0) / 2 := hmid
      have hopen : firstOpen none = 0 := rfl
      rw [hopen]
      refine ⟨fun hend => ?_, fun hgo => ?_⟩
      · rcases hend with hnone | heq
        · cases hnone
        · omega
      · have hne := (not_or.mp hgo).2
        omega
  | some known =>
      obtain ⟨blockHash, height⟩ := known
      have hhalf : midpoint = (missing + height) / 2 := hmid
      have hopen : firstOpen (some (blockHash, height)) = height + 1 := rfl
      have hlt := (h.known _ _ rfl).2.2
      rw [hopen]
      refine ⟨fun hend => ?_, fun hgo => ?_⟩
      · rcases hend with heq | heq
        · have heq' : height = midpoint := Option.some.inj heq
          omega
        · omega
      · obtain ⟨hne, hne'⟩ := not_or.mp hgo
        have hne'' : height ≠ midpoint := fun heq => hne (congrArg some heq)
        omega

/-! ## The loop -/

/-- With as much fuel as there are heights between the two, the search comes to its end. -/
theorem searchBestAncestor_spec {fuel asked missing : Nat} {best : Option (BlockHash × Nat)}
    (hanswers : AnswersBelow source chain tipHeight) (hclosed : DownwardClosed dbs chain tipHeight)
    (hbetween : Between dbs chain tipHeight best missing) (hfuel : missing < fuel + firstOpen best)
    (hopen : firstOpen best ≤ missing) :
    Spec (searchBestAncestor source fuel asked best missing) dbs
      (fun found d => d = dbs ∧ IsBestKnown dbs chain tipHeight found) (fun _ _ => False)
      (· = .db .io) := by
  induction fuel generalizing asked best missing with
  | zero => omega
  | succ fuel ih =>
      obtain ⟨hdone, hmore⟩ := hbetween.midpoint rfl
      rw [searchBestAncestor]
      refine Spec.ite (fun hend => Spec.pure ⟨rfl, hbetween.isBestKnown hclosed (hdone hend)⟩)
        fun hgo => ?_
      obtain ⟨hle, hlt⟩ := hmore hgo
      have hatMost := hbetween.atMost
      rw [hanswers _ _ (Nat.lt_of_lt_of_le hlt hatMost)]
      refine Spec.bind (Spec.ofExcept (fun midpoint hmidpoint => ?_) fun _ herror => by cases herror)
      obtain rfl := Except.ok.inj hmidpoint
      refine Spec.bind (Spec.access rfl ?_)
      refine Spec.bind (Spec.read rfl ?_)
      refine Spec.ite (fun hstored => ?_) fun hmissing => ?_
      · refine ih ⟨hbetween.absent, hatMost, fun blockHash height heq => ?_⟩ ?_ hlt
        · cases heq
          exact ⟨rfl, hstored, hlt⟩
        · change missing < fuel + (_ + 1)
          omega
      · refine ih ⟨hmissing, by omega, fun blockHash height heq => ?_⟩ (by omega) hle
        obtain ⟨hhash, hknown, -⟩ := hbetween.known _ _ heq
        have hheight : height < firstOpen best := by
          rw [heq]
          exact Nat.lt_succ_self _
        exact ⟨hhash, hknown, Nat.lt_of_lt_of_le hheight hle⟩

/-- The search asks for heights below the missing one only. -/
theorem searchBestAncestor_refuseFrom {fuel asked missing : Nat} {best : Option (BlockHash × Nat)}
    {refusal : SyncError} (hbest : (best.map Prod.snd).getD 0 ≤ missing) (hmissing : missing ≤ tipHeight) :
    searchBestAncestor (source.refuseFrom tipHeight refusal) fuel asked best missing =
      searchBestAncestor source fuel asked best missing := by
  induction fuel generalizing asked best missing with
  | zero => rfl
  | succ fuel ih =>
      rw [searchBestAncestor, searchBestAncestor]
      split
      · rfl
      · rename_i hgo
        have hne := (not_or.mp hgo).2
        have hlt : (missing + (best.map Prod.snd).getD 0) / 2 < missing := by omega
        have hsame : (source.refuseFrom tipHeight refusal).getblockhash asked
              ((missing + (best.map Prod.snd).getD 0) / 2) =
            source.getblockhash asked ((missing + (best.map Prod.snd).getD 0) / 2) :=
          if_pos (Nat.lt_of_lt_of_le hlt hmissing)
        rw [hsame]
        congr 1
        funext midpoint
        congr 1
        funext _
        congr 1
        funext stored
        rw [ih (Nat.le_of_lt hlt) hmissing, ih (by omega) (by omega)]

/-! ## The best known ancestor -/

/-- The search ends with the best known block of the node's chain, and is never answered for the heights
from the tip on. -/
theorem fetchBestAncestor_best (hanswers : AnswersBelow source chain tipHeight)
    (hclosed : DownwardClosed s.dbs chain tipHeight) (htip : chain tipHeight ≠ .allZeros) :
    ((∃ found t, fetchBestAncestor source (chain tipHeight) tipHeight s = (.ok found, t) ∧
          t.dbs = s.dbs ∧ IsBestKnown s.dbs chain tipHeight found) ∨
        Faulty s ∧ ∃ t, fetchBestAncestor source (chain tipHeight) tipHeight s = (.error (.db .io), t)) ∧
      ∀ refusal, fetchBestAncestor (source.refuseFrom tipHeight refusal) (chain tipHeight) tipHeight =
        fetchBestAncestor source (chain tipHeight) tipHeight := by
  constructor
  · have hspec : Spec (fetchBestAncestor source (chain tipHeight) tipHeight) s.dbs
        (fun found d => d = s.dbs ∧ IsBestKnown s.dbs chain tipHeight found) (fun _ _ => False)
        (· = .db .io) := by
      unfold fetchBestAncestor
      refine Spec.ite (fun hzero => absurd hzero htip) fun _ => ?_
      refine Spec.bind (Spec.access rfl ?_)
      refine Spec.bind (Spec.read rfl ?_)
      refine Spec.ite (fun hstored => Spec.pure ⟨rfl, Nat.le_refl _, rfl, hstored, fun _ hle _ => hle⟩)
        fun hmissing => ?_
      have hbetween : Between s.dbs chain tipHeight none tipHeight :=
        ⟨hmissing, Nat.le_refl _, fun _ _ hnone => by cases hnone⟩
      exact searchBestAncestor_spec hanswers hclosed hbetween (Nat.lt_succ_self _) (Nat.zero_le _)
    cases hrun : fetchBestAncestor source (chain tipHeight) tipHeight s with
    | mk outcome t =>
        cases outcome with
        | ok found => exact .inl ⟨found, t, rfl, (hspec.ok hrun).2⟩
        | error e =>
            obtain ⟨hfaulty, rfl⟩ := (hspec.error hrun).2.resolve_left id
            exact .inr ⟨hfaulty, t, rfl⟩
  · intro refusal
    unfold fetchBestAncestor
    rw [searchBestAncestor_refuseFrom (Nat.zero_le _) (Nat.le_refl _)]

/-! A node with four blocks, of which the first two are known. -/

def countedChain (height : Nat) : BlockHash := List.replicate height 1

def countedSource : HeaderSource where
  getblockheader _ := .ok 3
  getblockhash _ height := .ok (countedChain height)
  getBlockHeaders := []

def twoKnown : Store where
  dbs := { Dbs.empty with
    header := (AList.insert (countedChain 0) ⟨1, .allZeros, [], 0, 0, 0⟩ ∅).insert (countedChain 1)
      ⟨1, countedChain 0, [], 0, 0, 0⟩ }
  events := []
  sent := none
  faults _ _ := false
  log := []

theorem countedChain_fetchBestAncestor :
    (∃ found t, fetchBestAncestor countedSource (countedChain 3) 3 twoKnown = (.ok found, t) ∧
      t.dbs = twoKnown.dbs ∧ IsBestKnown twoKnown.dbs countedChain 3 found) := by
  have hanswers : AnswersBelow countedSource countedChain 3 := fun _ _ _ => rfl
  have hclosed : DownwardClosed twoKnown.dbs countedChain 3 := by
    have hfirst : KnownAt twoKnown.dbs countedChain 0 := by
      unfold KnownAt
      decide
    have hthird : ¬ KnownAt twoKnown.dbs countedChain 2 := by
      unfold KnownAt
      decide
    have hfourth : ¬ KnownAt twoKnown.dbs countedChain 3 := by
      unfold KnownAt
      decide
    intro height hlt hknown
    interval_cases height
    · exact hfirst
    · exact absurd hknown hthird
    · exact absurd hknown hfourth
  obtain ⟨hfound | ⟨⟨n, hn⟩, -⟩, -⟩ := fetchBestAncestor_best hanswers hclosed (by decide)
  · exact hfound
  · cases hn

end Bip360Enforcer.Validator
