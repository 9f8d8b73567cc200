import Bip360Enforcer.Pqc.Validation
import Bip360Enforcer.Tapscript.Lemmas.Knowledge

/-!
# Validation with more of the spent outputs known

The outputs that are learned are no P2MR outputs: these are all known from the chain.
-/

namespace Bip360Enforcer.Pqc

open Except (Agree)
open Tapscript (enforceTransaction_agrees)

variable {C : Crypto} {clock clock' : Clock}

/-! ## Errors -/

/-- The errors of a validation that lacks an output. -/
inductive SpendError.Lacks : SpendError → Prop where
  | missingPrevout (inputIndex : Nat) : Lacks (.missingPrevout inputIndex)
  | unverifiableSpend (inputIndex : Nat) : Lacks (.unverifiableSpend inputIndex)

inductive PqcValidationError.Lacks : PqcValidationError → Prop where
  | transaction (txid : Txid) {source : SpendError} (h : source.Lacks) : Lacks (.transaction txid source)
  | tapscript (txid : Txid) {source : Tapscript.TapscriptError} (h : source.Lacks) :
      Lacks (.tapscript txid source)

/-- The errors of a validation that runs out of time. -/
inductive SchemeError.Exhausted : SchemeError → Prop where
  | verification : Exhausted .pqcVerifyBudgetExceeded
  | block : Exhausted .blockVerifyBudgetExhausted

inductive SpendError.Exhausted : SpendError → Prop where
  | scheme {source : SchemeError} (h : source.Exhausted) : Exhausted (.scheme source)

inductive PqcValidationError.Exhausted : PqcValidationError → Prop where
  | transaction (txid : Txid) {source : SpendError} (h : source.Exhausted) :
      Exhausted (.transaction txid source)

/-- The validation has not run out of time. -/
abbrev InTime {α : Type} (x : Except PqcValidationError α) : Prop := x.Avoids PqcValidationError.Exhausted

/-- Computations that agree unless the first lacks an output or either runs out of time. -/
abbrev SpendsAgree {α β : Type} (R : α → β → Prop) : Except SpendError α → Except SpendError β → Prop :=
  Agree (fun e => e.Lacks ∨ e.Exhausted) SpendError.Exhausted R

abbrev ValidationsAgree {α β : Type} (R : α → β → Prop) :
    Except PqcValidationError α → Except PqcValidationError β → Prop :=
  Agree (fun e => e.Lacks ∨ e.Exhausted) PqcValidationError.Exhausted R

/-! ## Signatures -/

section

variable {timer timer' : Timer}

theorem verifyPqc_agrees (algorithm : Algorithm) (sigBytes message pubkeyBytes : Bytes)
    (invalid : SchemeError) : Agree SchemeError.Exhausted SchemeError.Exhausted (fun _ _ => True)
      (verifyPqc C clock algorithm sigBytes message pubkeyBytes invalid timer)
      (verifyPqc C clock' algorithm sigBytes message pubkeyBytes invalid timer') := by
  refine .guards .verification .verification ?_
  exact .ite (fun _ => .ok trivial) fun _ => .error _

theorem verifyOverloadedChecksig_agrees (pubkey signature : Bytes) (ctx : TapscriptVerifyContext) :
    Agree SchemeError.Exhausted SchemeError.Exhausted (fun _ _ => True)
      (verifyOverloadedChecksig C clock pubkey signature ctx timer)
      (verifyOverloadedChecksig C clock' pubkey signature ctx timer') := by
  refine .guards .block .block ?_
  refine .bind_same fun scheme _ => .bind_same fun _ _ => .bind_same fun sighash _ => ?_
  cases scheme with
  | schnorr => exact .bind_same fun _ _ => .ok trivial
  | mlDsa44 => exact verifyPqc_agrees ..
  | slhDsaSha2128s => exact verifyPqc_agrees ..

theorem validateP2mrInputSpend_agrees (tx : Transaction) (inputIndex : Nat) (prevout : TxOut)
    (prevouts : Prevouts) : SpendsAgree (fun _ _ => True)
      (validateP2mrInputSpend C clock tx inputIndex prevout prevouts timer)
      (validateP2mrInputSpend C clock' tx inputIndex prevout prevouts timer') := by
  unfold validateP2mrInputSpend
  cases tx.input[inputIndex]? with
  | none => exact .error _
  | some input =>
      refine .ite (fun _ => .error _) fun _ => .ite (fun _ => .error _) fun _ => ?_
      refine .bind_same fun merkleRoot _ => ?_
      split
      · refine .ite (fun _ => .error _) fun _ => .ite (fun _ => .error _) fun _ => ?_
        refine .ite (fun _ => .error _) fun _ => .bind_same fun parsed _ => .bind_same fun _ _ => ?_
        cases leafVersionFromConsensus p2mrLeafVersion with
        | none => exact .error _
        | some leafVersion =>
            refine .foldlM trivial fun entry _ _ _ _ => ?_
            exact (verifyOverloadedChecksig_agrees ..).mapError (fun _ h => .inr (.scheme h))
              fun _ h => .scheme h
      · exact .error _

end

/-! ## Tables -/

/-- `p'` is `p` with more outputs, none of which is a P2MR output. -/
structure Learns (p p' : PrevoutMap) : Prop where
  known : KnownIn p p'
  plain : ∀ op txout, p.lookup op = none → p'.lookup op = some txout → ¬ isP2mr txout

theorem Learns.refl (p : PrevoutMap) : Learns p p := by
  refine ⟨.refl p, ?_⟩
  intro op txout hnone hsome
  rw [hnone] at hsome
  cases hsome

theorem Learns.erase {p p' : PrevoutMap} (h : Learns p p') (op : OutPoint) :
    Learns (p.erase op) (p'.erase op) := by
  constructor
  · intro op' txout hop
    by_cases hsame : op' = op
    · rw [hsame, AList.lookup_erase] at hop
      cases hop
    · rw [AList.lookup_erase_ne hsame] at hop ⊢
      exact h.known _ _ hop
  · intro op' txout hnone hsome
    by_cases hsame : op' = op
    · rw [hsame, AList.lookup_erase] at hsome
      cases hsome
    · rw [AList.lookup_erase_ne hsame] at hnone hsome
      exact h.plain _ _ hnone hsome

theorem Learns.erase_right {p p' : PrevoutMap} (h : Learns p p') {op : OutPoint}
    (hop : p.lookup op = none) : Learns p (p'.erase op) := by
  constructor
  · intro op' txout hop'
    have hne : op' ≠ op := by
      rintro rfl
      rw [hop] at hop'
      cases hop'
    rw [AList.lookup_erase_ne hne]
    exact h.known _ _ hop'
  · intro op' txout hnone hsome
    by_cases hsame : op' = op
    · rw [hsame, AList.lookup_erase] at hsome
      cases hsome
    · rw [AList.lookup_erase_ne hsame] at hsome
      exact h.plain _ _ hnone hsome

theorem Learns.insert {p p' : PrevoutMap} (h : Learns p p') (op : OutPoint) (txout : TxOut) :
    Learns (p.insert op txout) (p'.insert op txout) := by
  constructor
  · intro op' txout' hop
    by_cases hsame : op' = op
    · subst hsame
      simpa using hop
    · rw [AList.lookup_insert_ne hsame] at hop ⊢
      exact h.known _ _ hop
  · intro op' txout' hnone hsome
    by_cases hsame : op' = op
    · simp [hsame] at hnone
    · rw [AList.lookup_insert_ne hsame] at hnone hsome
      exact h.plain _ _ hnone hsome

/-! ## Outputs from outside -/

theorem lookup_addExtraPrevouts (available extraPrevouts : PrevoutMap) (op : OutPoint) :
    (addExtraPrevouts available extraPrevouts).lookup op =
      (available.lookup op).or (extraPrevouts.lookup op) := by
  suffices hgen : ∀ (entries : List (Sigma fun _ : OutPoint => TxOut)) (available : PrevoutMap),
      (entries.foldl (fun available entry =>
        if entry.1 ∈ available then available else available.insert entry.1 entry.2)
        available).lookup op = (available.lookup op).or (entries.dlookup op) from hgen _ _
  intro entries
  induction entries with
  | nil => simp
  | cons entry entries ih =>
      intro available
      rw [List.foldl_cons, ih]
      by_cases hop : op = entry.1
      · subst hop
        rw [List.dlookup_cons_eq]
        split
        · rename_i hmem
          obtain ⟨txout, htxout⟩ := Option.isSome_iff_exists.mp (AList.lookup_isSome.mpr hmem)
          simp [htxout]
        · rename_i hmem
          simp [AList.lookup_eq_none.mpr hmem]
      · rw [List.dlookup_cons_ne _ _ hop]
        split
        · rfl
        · rw [AList.lookup_insert_ne hop]

theorem Learns.addExtraPrevouts {extra extra' : PrevoutMap} (available : PrevoutMap)
    (h : KnownIn extra extra') (hplain : ∀ op txout, extra'.lookup op = some txout → ¬ isP2mr txout) :
    Learns (addExtraPrevouts available extra) (addExtraPrevouts available extra') := by
  constructor
  · intro op txout hop
    rw [lookup_addExtraPrevouts, Option.or_eq_some_iff] at hop ⊢
    exact hop.imp_right fun ⟨hnone, hextra⟩ => ⟨hnone, h _ _ hextra⟩
  · intro op txout hnone hsome
    rw [lookup_addExtraPrevouts, Option.or_eq_none_iff] at hnone
    rw [lookup_addExtraPrevouts, hnone.1, Option.none_or] at hsome
    exact hplain op txout hsome

/-! ## Spends -/

/-- The outputs known in `view'` are those of `view` and more, none of them P2MR outputs. -/
structure SpendView.Learns (view view' : SpendView) : Prop where
  available : Pqc.Learns view.availablePrevouts view'.availablePrevouts
  chain : ∀ op, view'.chainP2mrUtxos.any (fun chain => op ∈ chain) =
    view.chainP2mrUtxos.any fun chain => op ∈ chain
  spent : view'.spentP2mrInBlock = view.spentP2mrInBlock

theorem allPrevouts_known {p p' : PrevoutMap} (h : KnownIn p p') {tx : Transaction}
    {txouts : List TxOut} (hall : allPrevouts tx p = some txouts) : allPrevouts tx p' = some txouts := by
  unfold allPrevouts at hall ⊢
  generalize tx.input = inputs at hall ⊢
  induction inputs generalizing txouts with
  | nil => exact hall
  | cons input inputs ih =>
      rw [List.mapM_cons] at hall ⊢
      obtain ⟨txout, htxout, hall⟩ := Option.bind_eq_some_iff.mp hall
      obtain ⟨rest, hrest, hall⟩ := Option.bind_eq_some_iff.mp hall
      rw [h _ _ htxout, ih hrest]
      exact hall

theorem prevoutsForP2mrInput_known {p p' : PrevoutMap} (h : KnownIn p p') {tx : Transaction}
    {inputIndex : Nat} {prevout : TxOut} {sighashType : TapSighashType} {prevouts : Prevouts}
    (hp : prevoutsForP2mrInput tx inputIndex prevout p sighashType = some prevouts) :
    prevoutsForP2mrInput tx inputIndex prevout p' sighashType = some prevouts := by
  unfold prevoutsForP2mrInput at hp ⊢
  split_ifs at hp ⊢ with hacp hone
  · exact hp
  · exact hp
  · obtain ⟨txouts, hall, rfl⟩ := Option.map_eq_some_iff.mp hp
    rw [allPrevouts_known h hall]
    rfl

section

variable {timer timer' : Timer} {view view' : SpendView}

theorem validateInput_agrees (h : view.Learns view') (tx : Transaction) (entry : TxIn × Nat) :
    SpendsAgree (fun _ _ => True) (validateInput C clock tx view timer entry)
      (validateInput C clock' tx view' timer' entry) := by
  obtain ⟨input, inputIndex⟩ := entry
  simp only [validateInput]
  cases hknown : view.availablePrevouts.lookup input.previousOutput with
  | none =>
      simp only
      cases hlearned : view'.availablePrevouts.lookup input.previousOutput with
      | none =>
          have hwas : view'.wasP2mr input.previousOutput = view.wasP2mr input.previousOutput := by
            rw [SpendView.wasP2mr, h.chain, h.spent, SpendView.wasP2mr]
          rw [hwas]
          exact .ite (fun _ => .error _) fun _ => .ok trivial
      | some txout =>
          have hplain : ¬ isP2mr txout := h.available.plain _ _ hknown hlearned
          simp only [hplain, Bool.not_false, if_true]
          split
          · exact .left (.inl (.missingPrevout inputIndex)) _
          · exact .ok trivial
  | some prevout =>
      rw [h.available.known _ _ hknown]
      refine .ite (fun _ => .ok trivial) fun _ => .ite (fun _ => .error _) fun _ => ?_
      cases hp : prevoutsForP2mrInput tx inputIndex prevout view.availablePrevouts
          (parseSighashType (input.witness.head?.getD [])) with
      | none => exact .left (.inl (.unverifiableSpend inputIndex)) _
      | some prevouts =>
          rw [prevoutsForP2mrInput_known h.available.known hp]
          exact validateP2mrInputSpend_agrees ..

theorem validateTransactionSpends_agrees (h : view.Learns view') (tx : Transaction) :
    SpendsAgree (fun _ _ => True) (validateTransactionSpends C clock tx view timer)
      (validateTransactionSpends C clock' tx view' timer') :=
  .bind_same fun _ _ => .foldlM trivial fun entry _ _ _ _ => validateInput_agrees h tx entry

theorem validateTransaction_agrees (h : view.Learns view') (height : Nat)
    (activation : Bip360Activation) (tx : Transaction) : ValidationsAgree (fun _ _ => True)
      (validateTransaction C clock height activation tx view timer)
      (validateTransaction C clock' height activation tx view' timer') := by
  refine .ite (fun _ => .ok trivial) fun _ => ?_
  have hspends : ValidationsAgree (fun _ _ => True)
      ((validateTransactionSpends C clock tx view timer).mapError (.transaction (C.computeTxid tx)))
      ((validateTransactionSpends C clock' tx view' timer').mapError
        (.transaction (C.computeTxid tx))) :=
    (validateTransactionSpends_agrees h tx).mapError
      (fun _ he => he.imp (.transaction _) (.transaction _)) fun _ he => .transaction _ he
  have henforce : Agree Tapscript.TapscriptError.Lacks (fun _ => False) Eq
      (Tapscript.enforceTransaction C tx view.availablePrevouts)
      (Tapscript.enforceTransaction C tx view'.availablePrevouts) :=
    enforceTransaction_agrees h.available.known tx
  refine hspends.bind fun _ _ _ => ?_
  exact (henforce.mapError (fun _ he => .inl (.tapscript _ he)) fun _ he => he.elim).bind
    fun _ _ _ => .ok trivial

end

/-! ## Blocks -/

/-- The diffs are the same too, where both are `kept`. -/
structure ValidationState.Learns (kept : Prop) (st st' : ValidationState) : Prop where
  available : Pqc.Learns st.availablePrevouts st'.availablePrevouts
  spent : st'.spentP2mrInBlock = st.spentP2mrInBlock
  diff : kept → st'.diff = st.diff

section

variable {kept : Prop} {st st' : ValidationState}

theorem ValidationState.Learns.spend (h : st.Learns kept st') (op : OutPoint) :
    (st.spend op).Learns kept (st'.spend op) := by
  unfold ValidationState.spend
  cases hknown : st.availablePrevouts.lookup op with
  | none =>
      cases hlearned : st'.availablePrevouts.lookup op with
      | none => exact h
      | some txout =>
          have hplain : ¬ isP2mr txout := h.available.plain _ _ hknown hlearned
          simp only [hplain, Bool.false_eq_true, if_false]
          exact ⟨h.available.erase_right hknown, h.spent, h.diff⟩
  | some txout =>
      rw [h.available.known _ _ hknown]
      dsimp only
      split
      · refine ⟨h.available.erase op, congrArg (insert op) h.spent, fun hkept => ?_⟩
        exact congrArg (Option.map fun diff => diff.spend op txout) (h.diff hkept)
      · exact ⟨h.available.erase op, h.spent, h.diff⟩

theorem ValidationState.Learns.create (h : st.Learns kept st') (entry : OutPoint × TxOut) :
    (st.create entry).Learns kept (st'.create entry) where
  available := h.available.insert entry.1 entry.2
  spent := h.spent
  diff hkept := by simp only [ValidationState.create, h.diff hkept]

theorem ValidationState.Learns.applyTx (h : st.Learns kept st') (tx : Transaction) :
    (applyTxToValidationAvailable C st tx).Learns kept (applyTxToValidationAvailable C st' tx) := by
  have hspends : (tx.input.foldl (fun st input => st.spend input.previousOutput) st).Learns kept
      (tx.input.foldl (fun st input => st.spend input.previousOutput) st') :=
    List.foldl_rel h fun input _ _ _ hs => hs.spend input.previousOutput
  exact List.foldl_rel hspends fun entry _ _ _ hs => hs.create entry

end

/-- The states of two validations of a block, the second with more outputs known. -/
def BlockState.Learns (kept : Prop) (st st' : BlockState) : Prop :=
  st.validation.Learns kept st'.validation

section

variable {kept : Prop} {st st' : BlockState}

theorem validateBlockTransaction_agrees (h : st.Learns kept st') (height : Nat)
    (activation : Bip360Activation) {chainP2mrUtxos chainP2mrUtxos' : PrevoutMap}
    (hchain : ∀ op, op ∈ chainP2mrUtxos' ↔ op ∈ chainP2mrUtxos) (tx : Transaction) :
    ValidationsAgree (BlockState.Learns kept)
      (validateBlockTransaction C clock height activation chainP2mrUtxos st tx)
      (validateBlockTransaction C clock' height activation chainP2mrUtxos' st' tx) := by
  have hview : SpendView.Learns
      ⟨st.validation.availablePrevouts, some chainP2mrUtxos, some st.validation.spentP2mrInBlock⟩
      ⟨st'.validation.availablePrevouts, some chainP2mrUtxos', some st'.validation.spentP2mrInBlock⟩ :=
    ⟨h.available, fun op => decide_eq_decide.mpr (hchain op), congrArg some h.spent⟩
  refine (validateTransaction_agrees hview height activation tx).bind ?_
  exact fun _ _ _ => .ok (h.applyTx tx)

theorem validateBlockTransactions_agree (h : st.Learns kept st') (height : Nat)
    (activation : Bip360Activation) {chainP2mrUtxos chainP2mrUtxos' : PrevoutMap}
    (hchain : ∀ op, op ∈ chainP2mrUtxos' ↔ op ∈ chainP2mrUtxos) (txs : List Transaction) :
    ValidationsAgree (BlockState.Learns kept)
      (txs.foldlM (validateBlockTransaction C clock height activation chainP2mrUtxos) st)
      (txs.foldlM (validateBlockTransaction C clock' height activation chainP2mrUtxos') st') :=
  .foldlM h fun tx _ _ _ hst => validateBlockTransaction_agrees hst height activation hchain tx

theorem startValidation_learns {extra extra' : PrevoutMap} (h : KnownIn extra extra')
    (hplain : ∀ op txout, extra'.lookup op = some txout → ¬ isP2mr txout) (block : Block)
    (chainP2mrUtxos : PrevoutMap) : (startValidation C block chainP2mrUtxos extra).Learns kept
      (startValidation C block chainP2mrUtxos extra') :=
  ⟨.addExtraPrevouts _ h hplain, rfl, fun _ => rfl⟩

theorem validateAndDiffBlockTransactions_agree {extra extra' : PrevoutMap} (h : KnownIn extra extra')
    (hplain : ∀ op txout, extra'.lookup op = some txout → ¬ isP2mr txout) (block : Block)
    (height : Nat) (activation : Bip360Activation) (chainP2mrUtxos : PrevoutMap) (budgetMs : Nat) :
    ValidationsAgree Eq
      (validateAndDiffBlockTransactions C clock block height activation chainP2mrUtxos extra budgetMs)
      (validateAndDiffBlockTransactions C clock' block height activation chainP2mrUtxos extra'
        budgetMs) := by
  refine .ite (fun _ => .ok rfl) fun _ => ?_
  have hstart : BlockState.Learns True
      ⟨startValidation C block chainP2mrUtxos extra, startTimer budgetMs⟩
      ⟨startValidation C block chainP2mrUtxos extra', startTimer budgetMs⟩ :=
    startValidation_learns h hplain block chainP2mrUtxos
  refine (validateBlockTransactions_agree hstart height activation (fun _ => Iff.rfl) _).bind ?_
  intro st st' hst
  exact .of_eq (by rw [hst.diff trivial])

theorem startValidation_learns_table {chainP2mrUtxos chainP2mrUtxos' : PrevoutMap}
    (hsame : ∀ op, chainP2mrUtxos'.lookup op = chainP2mrUtxos.lookup op) (block : Block) :
    (startValidation C block chainP2mrUtxos ∅).Learns kept
      (startValidation C block chainP2mrUtxos' ∅) := by
  have htable : ValidationState.Learns kept ⟨chainP2mrUtxos, some .empty, ∅⟩
      ⟨chainP2mrUtxos', some .empty, ∅⟩ := by
    refine ⟨⟨fun op txout hop => (hsame op).trans hop, fun op txout hnone hsome => ?_⟩, rfl, fun _ => rfl⟩
    rw [hsame op, hnone] at hsome
    cases hsome
  change (seedCoinbaseP2mrDiff C block _).Learns kept (seedCoinbaseP2mrDiff C block _)
  unfold seedCoinbaseP2mrDiff
  cases block.txdata with
  | nil => exact htable
  | cons coinbase txs => exact List.foldl_rel htable fun entry _ _ _ hst => hst.create entry

/-- Only what the table holds counts, not how it came to. -/
theorem validateAndDiff_agrees_table {chainP2mrUtxos chainP2mrUtxos' : PrevoutMap}
    (hsame : ∀ op, chainP2mrUtxos'.lookup op = chainP2mrUtxos.lookup op) (block : Block) (height : Nat)
    (activation : Bip360Activation) (budgetMs : Nat) : ValidationsAgree (fun _ _ => True)
      (validateAndDiffBlockTransactions C clock block height activation chainP2mrUtxos ∅ budgetMs)
      (validateAndDiffBlockTransactions C clock' block height activation chainP2mrUtxos' ∅
        budgetMs) := by
  refine .ite (fun _ => .ok trivial) fun _ => ?_
  have hstart : BlockState.Learns False ⟨startValidation C block chainP2mrUtxos ∅, startTimer budgetMs⟩
      ⟨startValidation C block chainP2mrUtxos' ∅, startTimer budgetMs⟩ :=
    startValidation_learns_table hsame block
  have hchain : ∀ op, op ∈ chainP2mrUtxos' ↔ op ∈ chainP2mrUtxos := by
    intro op
    rw [← AList.lookup_isSome, hsame op, AList.lookup_isSome]
  exact (validateBlockTransactions_agree hstart height activation hchain _).bind fun _ _ _ => .ok trivial

end

end Bip360Enforcer.Pqc
