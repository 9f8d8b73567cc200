import Bip360Enforcer.Validator.Lemmas.Verdict
import Bip360Enforcer.Validator.Theorems.Prefetch

/-!
# The verdicts of the two ways to connect a block
-/

namespace Bip360Enforcer.Validator

open Pqc (Clock CoreBlock InTime P2mrUtxoBlockDiff PqcValidationError TracksP2mr Unresolved blockLookups
  validateAndDiffBlockTransactions validateAndDiff_agrees_table validateAndDiff_stops)

/-! ## Validation, as one node does it -/

section

variable (validator : Validator) (C : Crypto) (block : Block) (height : Nat)
  (chainP2mr prevouts : PrevoutMap)

def validation : Except PqcValidationError P2mrUtxoBlockDiff :=
  validateAndDiffBlockTransactions C (validator.clock (C.blockHash block.header)) block height
    ⟨validator.activationHeight⟩ chainP2mr prevouts validator.pqcVerifyBudgetMs

/-- What the validation looks up when `prevouts` are known. -/
def lookups : List (Transaction × OutPoint) :=
  blockLookups C (validator.clock (C.blockHash block.header)) block height
    ⟨validator.activationHeight⟩ chainP2mr prevouts validator.pqcVerifyBudgetMs

end

variable {C : Crypto} {validator : Validator} {block : Block} {utxos chainP2mr : PrevoutMap}
  {answer : GbBlock} {height : Nat}

theorem lookups_nil (hcoinbase : block.txdata = []) :
    validator.lookups C block height chainP2mr utxos = [] := by
  unfold lookups blockLookups
  rw [hcoinbase]
  split
  · rfl
  · rfl

/-- An output that is neither of the table nor of the block. -/
def Outside (C : Crypto) (chainP2mr : PrevoutMap) (block : Block) (op : OutPoint) : Prop :=
  op ∉ chainP2mr ∧ op ∉ sameBlockOutpoints C block

instance (op : OutPoint) : Decidable (Outside C chainP2mr block op) :=
  inferInstanceAs (Decidable (op ∉ chainP2mr ∧ op ∉ sameBlockOutpoints C block))

theorem unresolved_outside (hcore : CoreBlock C utxos block) : Unresolved C block
    (fun op => op ∈ chainP2mr ∨ op ∈ (∅ : PrevoutMap)) fun _ op => Outside C chainP2mr block op := by
  intro done tx rest hsplit hdone op hop
  have hempty : op ∉ (∅ : PrevoutMap) := AList.notMem_empty op
  dsimp only
  rw [Outside, hcore.created_before hsplit hdone hop, sameBlockOutpoints_eq]
  tauto

theorem lacks_not_exhausted {e : PqcValidationError} (h : e.Lacks) : ¬ e.Exhausted := by
  rintro ⟨_, ⟨_⟩⟩
  cases h with
  | transaction _ h => cases h

section

variable (validator height) (hcore : CoreBlock C utxos block) (htracks : TracksP2mr chainP2mr utxos)

include hcore htracks

theorem validation_alone_stops : Except.Stops PqcValidationError.Lacks
    (∃ e ∈ validator.lookups C block height chainP2mr utxos, Outside C chainP2mr block e.2) Eq
    (validator.validation C block height chainP2mr ∅)
    (validator.validation C block height chainP2mr utxos) :=
  validateAndDiff_stops hcore htracks (fun _ _ h => by cases h) (unresolved_outside hcore)

variable (hanswer : validator.getblock (C.blockHash block.header) = some answer)
  (htruth : answer.Truthful utxos block)

include hanswer htruth

theorem validation_prefetched_stops : Except.Stops PqcValidationError.Lacks
    (∃ e ∈ validator.lookups C block height chainP2mr utxos,
      needsPrefetch C chainP2mr e.1 = false ∧ Outside C chainP2mr block e.2) Eq
    (validator.validation C block height chainP2mr (validator.prefetchedPrevouts C chainP2mr block))
    (validator.validation C block height chainP2mr utxos) :=
  validateAndDiff_stops hcore htracks (prefetched_known hcore hanswer htruth)
    (unresolved_prefetched hcore hanswer htruth)

/-- A validation that has time for the outputs prefetched has time without them. -/
theorem inTime_alone (htime : InTime (validator.validation C block height chainP2mr
    (validator.prefetchedPrevouts C chainP2mr block))) :
    InTime (validator.validation C block height chainP2mr ∅) := by
  have halone := validation_alone_stops validator height hcore htracks
  have hprefetched := validation_prefetched_stops validator height hcore htracks hanswer htruth
  rw [InTime, hprefetched.avoids_other fun _ => lacks_not_exhausted] at htime
  rw [InTime, halone.avoids_other fun _ => lacks_not_exhausted]
  refine htime.imp_left ?_
  rintro ⟨e, he, -, houtside⟩
  exact ⟨e, he, houtside⟩

end

/-- It makes no difference how a table came to hold what it holds, nor how long verifications take. -/
theorem validation_alone_same {clock' : Clock} {chainP2mr' : PrevoutMap}
    (hsame : ∀ op, chainP2mr'.lookup op = chainP2mr.lookup op)
    (htime : InTime (validator.validation C block height chainP2mr ∅))
    (htime' : InTime ((validator.atClock clock').validation C block height chainP2mr' ∅)) :
    ((validator.atClock clock').validation C block height chainP2mr' ∅).isOk =
      (validator.validation C block height chainP2mr ∅).isOk :=
  (validateAndDiff_agrees_table (fun op => (hsame op).symm) ..).isOk_eq
    (validateAndDiff_agrees_table hsame ..) htime' htime

/-- Whether a block on top of the tip passes is up to its validation. -/
theorem passes_iff {extra : PrevoutMap} {dbs : Dbs}
    (htip : dbs.currentChainTip.getD .allZeros = block.header.prevBlockhash)
    (hheight : dbs.height.lookup (C.blockHash block.header) = some height) :
    Passes C (validator.handler extra) block dbs ↔ block.txdata ≠ [] ∧
      (validator.validation C block height dbs.p2mrUtxos extra).isOk = true := by
  constructor
  · rintro ⟨-, hcoinbase, height', hheight', hvalid⟩
    obtain rfl := Option.some.inj (hheight.symm.trans hheight')
    exact ⟨hcoinbase, hvalid⟩
  · rintro ⟨hcoinbase, hvalid⟩
    exact ⟨htip, hcoinbase, height, hheight, hvalid⟩

/-! ## The same point of the chain -/

/-- Two databases to which the block comes next: the one may lack its header yet, in the other the
headers are stored. -/
structure SamePoint (C : Crypto) (block : Block) (height : Nat) (live catchUp : Dbs) : Prop where
  extends_tip : live.currentChainTip.getD .allZeros = block.header.prevBlockhash
  tip : catchUp.currentChainTip = live.currentChainTip
  utxos : ∀ op, catchUp.p2mrUtxos.lookup op = live.p2mrUtxos.lookup op
  /-- The height that the block has, once its header is stored. -/
  stored : ∃ dbs, HeaderStored C block.header live dbs ∧
    (dbs.header.lookup (C.blockHash block.header)).isSome = true ∧
    dbs.height.lookup (C.blockHash block.header) = some height
  height : catchUp.height.lookup (C.blockHash block.header) = some height

/-- Databases with the same chain are at the same point, however the two came to connect it. -/
theorem Reachable.samePoint {headers : Set Header} {live catchUp dbs : Dbs} {chain : List Block}
    (hhashes : HonestHashes C headers) (hlive : Reachable C headers live chain)
    (hcatch : Reachable C headers catchUp chain)
    (hextends : (hashesOf C chain).head?.getD .allZeros = block.header.prevBlockhash)
    (hheader : HeaderStored C block.header live dbs)
    (hstored : (dbs.header.lookup (C.blockHash block.header)).isSome = true)
    (hheight : dbs.height.lookup (C.blockHash block.header) = some height)
    (hheight' : catchUp.height.lookup (C.blockHash block.header) = some height) :
    SamePoint C block height live catchUp := by
  have htracked := hlive.tracked hhashes
  have htracked' := hcatch.tracked hhashes
  refine ⟨?_, ?_, ?_, ⟨dbs, hheader, hstored, hheight⟩, hheight'⟩
  · rw [htracked.indexed.tip, hextends]
  · rw [htracked.indexed.tip, htracked'.indexed.tip]
  · exact congrFun (htracked'.utxos.trans htracked.utxos.symm)

/-! ## The two verdicts -/

/-- Of two verdicts on something `valid`, one falls where something is `missing`, the other where more
is. -/
theorem verdicts_iff {missing more valid : Prop} (h : missing → more) :
    (¬ missing ∧ valid ↔ ¬ more ∧ valid) ↔ (valid → more → missing) := by
  tauto

/-- When a block comes next, connecting it and catching up with it in a batch, after the blocks `done`,
come to the same verdict if and only if the following holds. Unless the table cannot be read to prefetch
for it, or the block is invalid with all outputs known: where its validation looks up an output that is
neither of the table nor of the block, it looks up one for a transaction that the prefetch passes over. -/
theorem live_catchUp_iff {s s' t t' t'' : Store} {clock' : Clock} {done : List Block}
    {action : ConnectBlockAction} {rejected : Option (BlockHash × ConnectBlockError)}
    (hpoint : SamePoint C block height s.dbs t.dbs) (hcore : CoreBlock C utxos block)
    (htracks : TracksP2mr s.dbs.p2mrUtxos utxos)
    (hanswer : validator.getblock (C.blockHash block.header) = some answer)
    (htruth : answer.Truthful utxos block)
    (hliveTime : InTime (validator.validation C block height s.dbs.p2mrUtxos
      (validator.prefetchedPrevouts C s.dbs.p2mrUtxos block)))
    (hcatchTime : InTime ((validator.atClock clock').validation C block height t.dbs.p2mrUtxos ∅))
    (hlive : validator.connectBlock C block s = (.ok action, s'))
    (hdone : ((validator.atClock clock').handler ∅).handleBlockBatch C done t' = (.ok none, t))
    (hcatch : ((validator.atClock clock').handler ∅).handleBlockBatch C (done ++ [block]) t' =
      (.ok rejected, t'')) :
    (action = .accept ↔ rejected = none) ↔
      (s.fails = false → (validator.validation C block height s.dbs.p2mrUtxos utxos).isOk = true →
        (∃ e ∈ validator.lookups C block height s.dbs.p2mrUtxos utxos,
          Outside C s.dbs.p2mrUtxos block e.2) →
        ∃ e ∈ validator.lookups C block height s.dbs.p2mrUtxos utxos,
          needsPrefetch C s.dbs.p2mrUtxos e.1 = false ∧ Outside C s.dbs.p2mrUtxos block e.2) := by
  obtain ⟨dbs, hheader, hstored, hheight⟩ := hpoint.stored
  have htip := hheader.tip_eq ▸ hpoint.extends_tip
  have htip' := hpoint.tip ▸ hpoint.extends_tip
  rw [BlockHandler.handleBlockBatch_append hdone] at hcatch
  have haction := (connectBlock_verdict hheader hstored).ok hlive
  have hrejected := handleBlockBatch_verdict hcatch
  have halone := (validation_alone_stops validator height hcore htracks).isOk_iff
  have hprefetched :=
    (validation_prefetched_stops validator height hcore htracks hanswer htruth).isOk_iff
  have hsame := validation_alone_same hpoint.utxos
    (inTime_alone validator height hcore htracks hanswer htruth hliveTime) hcatchTime
  rw [passes_iff htip hheight, hheader.p2mrUtxos_eq] at haction
  rw [passes_iff htip' hpoint.height, hsame, halone] at hrejected
  by_cases hcoinbase : block.txdata = []
  · -- Both reject, and nothing is looked up.
    simp [haction, hrejected, hcoinbase, lookups_nil hcoinbase]
  rw [suppliedPrevouts] at haction
  cases hfails : s.fails with
  | true =>
      rw [hfails, if_pos rfl, halone] at haction
      exact ⟨fun _ => nofun, fun _ => haction.trans hrejected.symm⟩
  | false =>
      rw [hfails, if_neg Bool.false_ne_true, hprefetched] at haction
      have hfewer : (∃ e ∈ validator.lookups C block height s.dbs.p2mrUtxos utxos,
          needsPrefetch C s.dbs.p2mrUtxos e.1 = false ∧ Outside C s.dbs.p2mrUtxos block e.2) →
          ∃ e ∈ validator.lookups C block height s.dbs.p2mrUtxos utxos,
            Outside C s.dbs.p2mrUtxos block e.2 := by
        rintro ⟨e, he, -, houtside⟩
        exact ⟨e, he, houtside⟩
      rw [haction, hrejected, and_congr_right_iff, verdicts_iff hfewer]
      exact ⟨fun h _ => h hcoinbase, fun h _ => h rfl⟩

/-! On top of the same block: one block that spends a P2MR output alone, and one that spends it beside an
output from outside. -/

theorem genesisStore_utxos : genesisStore.dbs.p2mrUtxos = fundedUtxos := AList.ext (by decide)

theorem fundedUtxos_tracked : TracksP2mr genesisStore.dbs.p2mrUtxos fundedUtxos := by
  intro op
  rw [genesisStore_utxos]
  by_cases hfunded : op = ⟨sampleHash 1, 0⟩
  · subst hfunded
    rw [fundedUtxos, AList.lookup_insert]
    decide
  · rw [fundedUtxos, AList.lookup_insert_ne hfunded]
    rfl

theorem child_samePoint : SamePoint .sample child 1 genesisStore.dbs genesisStore.dbs :=
  genesisStore_reachable.samePoint sampleHeaders_honest genesisStore_reachable (by decide) .kept
    (by decide) (by decide) (by decide)

theorem child_agrees : ∃ s' t'', mixedValidator.connectBlock .sample child genesisStore = (.ok .accept, s') ∧
    ((mixedValidator.atClock fun _ => 7).handler ∅).handleBlockBatch .sample [child] genesisStore =
      (.ok none, t'') ∧
    (ConnectBlockAction.accept = .accept ↔ (none : Option (BlockHash × ConnectBlockError)) = none) := by
  have hlive : mixedValidator.connectBlock .sample child genesisStore =
      (.ok .accept, (mixedValidator.connectBlock .sample child genesisStore).2) :=
    Program.eq_of_fst (by decide +kernel)
  have hcatch : ((mixedValidator.atClock fun _ => 7).handler ∅).handleBlockBatch .sample ([] ++ [child])
      genesisStore = (.ok none, (((mixedValidator.atClock fun _ => 7).handler ∅).handleBlockBatch .sample
        [child] genesisStore).2) :=
    Program.eq_of_fst (by decide +kernel)
  have htime : ∀ {validator : Validator} {extra : PrevoutMap},
      (validator.validation .sample child 1 genesisStore.dbs.p2mrUtxos extra).isOk = true →
      InTime (validator.validation .sample child 1 genesisStore.dbs.p2mrUtxos extra) := by
    intro validator extra hok e he
    rw [he] at hok
    cases hok
  have hcore : CoreBlock .sample fundedUtxos child :=
    ⟨by decide, by decide, by decide⟩
  have htruth : mixedAnswer.Truthful fundedUtxos child := ⟨by decide, by decide⟩
  have hagrees := (live_catchUp_iff child_samePoint hcore fundedUtxos_tracked rfl htruth
    (htime (by decide +kernel)) (htime (by decide +kernel)) hlive rfl hcatch).mpr
  exact ⟨_, _, hlive, hcatch, hagrees (by decide +kernel)⟩

/-- A valid block, of which the node gives all outputs: it is accepted when it is connected on top of the
tip, and rejected in a batch. -/
theorem mixedBlock_disagrees :
    SamePoint .sample mixedBlock 1 genesisStore.dbs genesisStore.dbs ∧
    CoreBlock .sample mixedUtxos mixedBlock ∧ TracksP2mr genesisStore.dbs.p2mrUtxos mixedUtxos ∧
    mixedAnswer.Truthful mixedUtxos mixedBlock ∧
    (mixedValidator.connectBlock .sample mixedBlock genesisStore).1 = .ok .accept ∧
    ((mixedValidator.handler ∅).handleBlockBatch .sample [mixedBlock] genesisStore).1 =
      .ok (some (childHash, .bip360 childHash (.transaction (sampleHash 3) (.unverifiableSpend 0)))) := by
  refine ⟨⟨by decide, rfl, fun _ => rfl, ⟨_, .kept, by decide, by decide⟩,
    by decide⟩, ⟨by decide, by decide, by decide⟩, ?_,
    ⟨by decide +kernel, by decide +kernel⟩, by decide +kernel, by decide +kernel⟩
  rw [genesisStore_utxos]
  exact mixedUtxos_tracked

end Bip360Enforcer.Validator
