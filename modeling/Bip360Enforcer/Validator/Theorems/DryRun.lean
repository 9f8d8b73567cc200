import Bip360Enforcer.Validator.Lemmas.Verdict
import Bip360Enforcer.Validator.Theorems.Ledger

/-!
# A dry run predicts the connect
-/

namespace Bip360Enforcer.Pqc

variable {C : Crypto} {clock clock' : Clock} {budgetMs : Nat} {block : Block} {height : Nat}
  {activation : Bip360Activation} {chainP2mrUtxos : PrevoutMap}

/-! ## The two ways through a block -/

theorem startValidation_available :
    (startValidation C block chainP2mrUtxos ∅).availablePrevouts =
      seedCoinbaseOutputs C block chainP2mrUtxos := by
  change (seedCoinbaseP2mrDiff C block ⟨chainP2mrUtxos, some .empty, ∅⟩).availablePrevouts = _
  unfold seedCoinbaseP2mrDiff seedCoinbaseOutputs
  cases block.txdata with
  | nil => rfl
  | cons coinbase txs =>
      exact (List.foldl_hom ValidationState.availablePrevouts fun _ _ => rfl).symm

theorem startValidation_spent (extraPrevouts : PrevoutMap) :
    (startValidation C block chainP2mrUtxos extraPrevouts).spentP2mrInBlock = ∅ := by
  change (seedCoinbaseP2mrDiff C block ⟨chainP2mrUtxos, some .empty, ∅⟩).spentP2mrInBlock = _
  unfold seedCoinbaseP2mrDiff
  cases block.txdata with
  | nil => rfl
  | cons coinbase txs =>
      exact List.foldlRecOn (motive := fun st : ValidationState => st.spentP2mrInBlock = ∅)
        (txOutputs C coinbase) _ rfl fun _ h _ _ => h

/-- Where a dry run starts. -/
def dryStart (C : Crypto) (block : Block) (chainP2mrUtxos : PrevoutMap) : ValidationState :=
  ⟨seedCoinbaseOutputs C block chainP2mrUtxos, none, ∅⟩

theorem dryStart_learns {extra : PrevoutMap}
    (hplain : ∀ op txout, extra.lookup op = some txout → ¬ isP2mr txout) :
    (dryStart C block chainP2mrUtxos).Learns False
      (startValidation C block chainP2mrUtxos extra) := by
  have hstart : (startValidation C block chainP2mrUtxos ∅).Learns False
      (startValidation C block chainP2mrUtxos extra) :=
    startValidation_learns (.empty extra) hplain block chainP2mrUtxos
  refine ⟨?_, startValidation_spent extra, False.elim⟩
  have havailable := hstart.available
  rw [startValidation_available] at havailable
  exact havailable

theorem startValidation_learns_dryStart : (startValidation C block chainP2mrUtxos ∅).Learns False
    (dryStart C block chainP2mrUtxos) := by
  refine ⟨?_, (startValidation_spent ∅).symm, False.elim⟩
  rw [startValidation_available]
  exact .refl _

theorem validateBlockTransactions_agrees {extra : PrevoutMap}
    (hplain : ∀ op txout, extra.lookup op = some txout → ¬ isP2mr txout) :
    ValidationsAgree (fun _ _ => True)
      (validateBlockTransactions C clock block height activation chainP2mrUtxos budgetMs)
      (validateAndDiffBlockTransactions C clock' block height activation chainP2mrUtxos extra
        budgetMs) := by
  refine .ite (fun _ => .ok trivial) fun _ => ?_
  have hstart : BlockState.Learns False ⟨dryStart C block chainP2mrUtxos, startTimer budgetMs⟩
      ⟨startValidation C block chainP2mrUtxos extra, startTimer budgetMs⟩ := dryStart_learns hplain
  exact (validateBlockTransactions_agree hstart height activation (fun _ => Iff.rfl) _).bind
    fun _ _ _ => .ok trivial

theorem validateAndDiff_agrees_dryRun : ValidationsAgree (fun _ _ => True)
    (validateAndDiffBlockTransactions C clock block height activation chainP2mrUtxos ∅ budgetMs)
    (validateBlockTransactions C clock' block height activation chainP2mrUtxos budgetMs) := by
  refine .ite (fun _ => .ok trivial) fun _ => ?_
  have hstart : BlockState.Learns False
      ⟨startValidation C block chainP2mrUtxos ∅, startTimer budgetMs⟩
      ⟨dryStart C block chainP2mrUtxos, startTimer budgetMs⟩ := startValidation_learns_dryStart
  exact (validateBlockTransactions_agree hstart height activation (fun _ => Iff.rfl) _).bind
    fun _ _ _ => .ok trivial

end Bip360Enforcer.Pqc

namespace Bip360Enforcer.Validator

open Pqc (Clock InTime PqcValidationError isP2mr validateBlockTransactions
  validateAndDiffBlockTransactions)
open Program (wp)

variable {C : Crypto} {validator : Validator} {block : Block}

/-! ## The calls of the driver -/

/-- A dry run that finds nothing wrong has validated the block for the height after the tip's. -/
theorem validateBlock_wp {s : Store} {tip : BlockHash} {tipHeight : Nat}
    (htip : s.dbs.currentChainTip = some tip) (hheight : s.dbs.height.lookup tip = some tipHeight) :
    wp (validator.validateBlock C block)
      (fun reason _ => reason = none →
        (validateBlockTransactions C (validator.clock (C.blockHash block.header)) block (tipHeight + 1)
          ⟨validator.activationHeight⟩ s.dbs.p2mrUtxos validator.pqcVerifyBudgetMs).isOk = true)
      (fun _ _ => True) s := by
  unfold Validator.validateBlock Validator.tryGetBlockHeight get tryGet require
  simp only [Program.wp_bind, wp_read, htip, next_dbs, hheight, Program.wp_pure]
  refine ⟨fun _ => trivial, fun _ => ⟨fun _ => trivial, fun _ => ⟨fun _ => trivial, fun _ => ?_⟩⟩⟩
  split
  · rename_i hok
    rw [Program.wp_pure, hok]
    exact fun _ => rfl
  · rw [Program.wp_pure]
    exact fun hnone => by cases hnone

/-! ## The prediction -/

/-- The node at another time: its verifications take as long as `clock` says. -/
def atClock (validator : Validator) (clock : Clock) : Validator := { validator with clock := fun _ => clock }

/-- Unless time runs out, a dry run and a connect without outputs from outside come to the same
verdict, more outputs from outside never turn an accepted block into a rejected one, and a block in
which a dry run finds nothing wrong does not break the rules when it is connected. -/
theorem dryRun_predicts (C : Crypto) (clock clock' : Clock) :
    (∀ block height activation chainP2mrUtxos budgetMs,
      InTime (validateBlockTransactions C clock block height activation chainP2mrUtxos budgetMs) →
      InTime (validateAndDiffBlockTransactions C clock' block height activation chainP2mrUtxos ∅
        budgetMs) →
      (validateBlockTransactions C clock block height activation chainP2mrUtxos budgetMs).isOk =
        (validateAndDiffBlockTransactions C clock' block height activation chainP2mrUtxos ∅
          budgetMs).isOk) ∧
    (∀ block height activation chainP2mrUtxos extra extra' budgetMs diff,
      KnownIn extra extra' → NoP2mr extra' →
      InTime (validateAndDiffBlockTransactions C clock' block height activation chainP2mrUtxos extra'
        budgetMs) →
      validateAndDiffBlockTransactions C clock block height activation chainP2mrUtxos extra budgetMs =
        .ok diff →
      validateAndDiffBlockTransactions C clock' block height activation chainP2mrUtxos extra'
        budgetMs = .ok diff) ∧
    ∀ (validator : Validator) (block : Block) (s s' t t' : Store) (tip : BlockHash) (tipHeight : Nat)
      (extra : PrevoutMap),
      s.dbs.currentChainTip = some tip → s.dbs.height.lookup tip = some tipHeight →
      (validator.atClock clock).validateBlock C block s = (.ok none, s') →
      t.dbs.p2mrUtxos = s.dbs.p2mrUtxos →
      t.dbs.height.lookup (C.blockHash block.header) = some (tipHeight + 1) → NoP2mr extra →
      ∀ hash source, ((validator.atClock clock').handler extra).connectBlock C block t =
        (.error (.bip360 hash source), t') → source.Exhausted := by
  refine ⟨?_, ?_, ?_⟩
  · intro block height activation chainP2mrUtxos budgetMs hdry hconnect
    exact (Pqc.validateBlockTransactions_agrees sampleHandler_noP2mr).isOk_eq
      Pqc.validateAndDiff_agrees_dryRun hdry hconnect
  · intro block height activation chainP2mrUtxos extra extra' budgetMs diff hknown hplain htime hok
    exact (Pqc.validateAndDiffBlockTransactions_agree hknown hplain block height activation
      chainP2mrUtxos budgetMs).eq_ok hok htime
  · intro validator block s s' t t' tip tipHeight extra htip hheight hdry hutxos hnext hplain hash
      source hconnect
    by_contra hlate
    obtain ⟨_, haccepts⟩ := Except.isOk_iff.mp ((validateBlock_wp htip hheight).ok hdry rfl)
    cases connectBlock_judgement hconnect rfl with
    | @rules _ _ height hheight' hrejects =>
        obtain rfl : tipHeight + 1 = height := Option.some.inj (hnext.symm.trans hheight')
        rw [hutxos] at hrejects
        have htime : InTime (.error source : Except PqcValidationError Pqc.P2mrUtxoBlockDiff) := by
          rintro e he
          cases he
          exact hlate
        obtain ⟨diff, hok, -⟩ :=
          (Pqc.validateBlockTransactions_agrees hplain).of_ok haccepts (hrejects ▸ htime)
        exact absurd (hrejects.symm.trans hok) (by simp)

/-! A block whose second transaction spends a P2MR output beside an output from outside. -/

def mixedTx : Transaction where
  version := 2
  lockTime := 2
  input := [
    ⟨⟨sampleHash 1, 0⟩, [], 0, [sampleSignature (sampleHash 3), sampleLeaf, [0xc1]]⟩,
    ⟨⟨sampleHash 9, 0⟩, [], 0, []⟩]
  output := [⟨40, []⟩]

def mixedBlock : Block := ⟨sampleHeader (sampleHash 1) 1, [sampleCoinbase 1 [], mixedTx]⟩

def fundedUtxos : PrevoutMap := AList.insert ⟨sampleHash 1, 0⟩ ⟨50, p2mrSpk⟩ ∅

def outsidePrevouts : PrevoutMap := AList.insert ⟨sampleHash 9, 0⟩ ⟨10, []⟩ ∅

theorem outsidePrevouts_noP2mr : NoP2mr outsidePrevouts := by
  intro op txout hop
  by_cases hsame : op = ⟨sampleHash 9, 0⟩
  · rw [hsame, outsidePrevouts, AList.lookup_insert] at hop
    obtain rfl := Option.some.inj hop
    decide
  · rw [outsidePrevouts, AList.lookup_insert_ne hsame] at hop
    cases hop

/-- One more output is known from outside. -/
def moreOutsidePrevouts : PrevoutMap := AList.insert ⟨sampleHash 8, 0⟩ ⟨20, []⟩ outsidePrevouts

theorem outsidePrevouts_more : KnownIn outsidePrevouts moreOutsidePrevouts := by
  intro op txout hop
  rw [moreOutsidePrevouts, AList.lookup_insert_ne]
  · exact hop
  · rintro rfl
    have habsent : outsidePrevouts.lookup ⟨sampleHash 8, 0⟩ = none := by decide
    rw [habsent] at hop
    cases hop

theorem moreOutsidePrevouts_noP2mr : NoP2mr moreOutsidePrevouts := by
  intro op txout hop
  by_cases hsame : op = ⟨sampleHash 8, 0⟩
  · rw [hsame, moreOutsidePrevouts, AList.lookup_insert] at hop
    obtain rfl := Option.some.inj hop
    decide
  · rw [moreOutsidePrevouts, AList.lookup_insert_ne hsame] at hop
    exact outsidePrevouts_noP2mr op txout hop

theorem inTime_of_isOk {α : Type} {r : Except PqcValidationError α} (h : r.isOk = true) : InTime r := by
  rintro e rfl
  cases h

/-- A block validated a second time, when verifications take longer and more is known, and the next block
of a chain. -/
theorem mixedBlock_predicted :
    (∃ diff,
      validateAndDiffBlockTransactions .sample (fun _ => 0) mixedBlock 1 ⟨0⟩ fundedUtxos outsidePrevouts
        1000 = .ok diff ∧
      validateAndDiffBlockTransactions .sample (fun _ => 7) mixedBlock 1 ⟨0⟩ fundedUtxos
        moreOutsidePrevouts 1000 = .ok diff) ∧
    (validateAndDiffBlockTransactions .sample (fun _ => 7) child 1 ⟨0⟩ fundedUtxos ∅ 1000).isOk = true ∧
    ∀ hash source t,
      ((sampleValidator.atClock fun _ => 7).handler outsidePrevouts).connectBlock .sample child
        genesisStore = (.error (.bip360 hash source), t) → source.Exhausted := by
  have hpredicts := dryRun_predicts .sample (fun _ => 0) fun _ => 7
  refine ⟨?_, ?_, ?_⟩
  · have haccepted : (validateAndDiffBlockTransactions .sample (fun _ => 0) mixedBlock 1 ⟨0⟩ fundedUtxos
        outsidePrevouts 1000).isOk = true := by decide +kernel
    have hlater : (validateAndDiffBlockTransactions .sample (fun _ => 7) mixedBlock 1 ⟨0⟩ fundedUtxos
        moreOutsidePrevouts 1000).isOk = true := by decide +kernel
    obtain ⟨diff, hok⟩ := Except.isOk_iff.mp haccepted
    exact ⟨diff, hok, hpredicts.2.1 _ _ _ _ _ _ _ diff outsidePrevouts_more moreOutsidePrevouts_noP2mr
      (inTime_of_isOk hlater) hok⟩
  · have hdry : (validateBlockTransactions .sample (fun _ => 0) child 1 ⟨0⟩ fundedUtxos 1000).isOk =
        true := by decide +kernel
    have hconnects : (validateAndDiffBlockTransactions .sample (fun _ => 7) child 1 ⟨0⟩ fundedUtxos ∅
        1000).isOk = true := by decide +kernel
    exact (hpredicts.1 child 1 ⟨0⟩ fundedUtxos 1000 (inTime_of_isOk hdry)
      (inTime_of_isOk hconnects)).symm.trans hdry
  · intro hash source t
    have htip : genesisStore.dbs.currentChainTip = some genesisHash := by decide
    have hheight : genesisStore.dbs.height.lookup genesisHash = some 0 := by decide
    have hnext : genesisStore.dbs.height.lookup (Crypto.sample.blockHash child.header) = some 1 := by
      decide
    have hdry : ((sampleValidator.atClock fun _ => 0).validateBlock .sample child genesisStore).1 =
        .ok none := by decide +kernel
    exact hpredicts.2.2 sampleValidator child genesisStore _ genesisStore t genesisHash 0 outsidePrevouts
      htip hheight (Program.eq_of_fst hdry) rfl hnext outsidePrevouts_noP2mr hash source

/-! Before the first block is connected there is no tip, and a dry run enforces nothing; later on it looks
neither at the parent of a block nor for its coinbase. -/

/-- A leaf of OP_CAT alone, on an empty stack. -/
def emptyCatTx : Transaction where
  version := 2
  lockTime := 3
  input := [⟨⟨sampleHash 9, 0⟩, [], 0, [[0xfe], 0xc0 :: List.replicate 32 0]⟩]
  output := []

def emptyCatBlock : Block := ⟨sampleHeader .allZeros 0, [sampleCoinbase 0 [], emptyCatTx]⟩

/-- A block on a parent that is not known. -/
def strayBlock : Block := ⟨sampleHeader (sampleHash 5) 1, [sampleCoinbase 1 []]⟩

/-- A block without transactions. -/
def hollowBlock : Block := ⟨child.header, []⟩

theorem emptyCatBlock_unsynced :
    ((sampleValidator.validateBlock .sample emptyCatBlock (freshStore .empty)).1 = .ok none ∧
      (sampleValidator.connectBlock .sample emptyCatBlock (freshStore .empty)).1 = .ok .reject) ∧
    genesisStore.dbs.currentChainTip = some genesisHash ∧
    ((sampleValidator.validateBlock .sample strayBlock genesisStore).1 = .ok none ∧
      (sampleValidator.connectBlock .sample strayBlock genesisStore).1 = .ok .reject) ∧
    (sampleValidator.validateBlock .sample hollowBlock genesisStore).1 = .ok none ∧
      (sampleValidator.connectBlock .sample hollowBlock genesisStore).1 = .ok .reject := by
  decide

end Bip360Enforcer.Validator
