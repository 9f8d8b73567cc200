import Bip360Enforcer.Pqc.Lemmas.Tracking

/-!
# A diff spends only from the chain

This holds of any block, whatever its transaction ids and inputs.
-/

namespace Bip360Enforcer.Pqc

variable {C : Crypto} {chainUtxos : PrevoutMap}

/-- Every P2MR output available is one of the chain or created in the block, and those spent so far are
of the chain. -/
structure Sourced (chainUtxos available : PrevoutMap) (diff : P2mrUtxoBlockDiff) : Prop where
  source : ∀ op txout, available.lookup op = some txout → isP2mr txout →
    op ∈ diff.created ∨ op ∈ chainUtxos
  spent : ∀ op ∈ diff.spent, op ∈ chainUtxos

namespace Sourced

variable {available : PrevoutMap} {diff : P2mrUtxoBlockDiff}

theorem start : Sourced chainUtxos chainUtxos .empty where
  source op txout h _ := .inr (AList.lookup_isSome.mp (by rw [h]; rfl))
  spent op h := absurd h (AList.notMem_empty op)

theorem erase (h : Sourced chainUtxos available diff) (op : OutPoint) :
    Sourced chainUtxos (available.erase op) diff where
  source op' txout hlookup hp := by
    by_cases hk : op' = op
    · subst hk
      simp at hlookup
    · exact h.source op' txout (by simpa [AList.lookup_erase_ne hk] using hlookup) hp
  spent := h.spent

theorem spend (h : Sourced chainUtxos available diff) {op : OutPoint} {txout : TxOut}
    (hlookup : available.lookup op = some txout) (hp : isP2mr txout) :
    Sourced chainUtxos (available.erase op) (diff.spend op txout) := by
  unfold P2mrUtxoBlockDiff.spend
  by_cases hin : op ∈ diff.created
  · rw [if_pos hin]
    refine ⟨fun op' txout' hlookup' hp' => ?_, h.spent⟩
    by_cases hk : op' = op
    · subst hk
      simp at hlookup'
    · rw [AList.lookup_erase_ne hk] at hlookup'
      exact (h.source op' txout' hlookup' hp').imp_left fun hc => (AList.mem_erase).mpr ⟨hk, hc⟩
  · rw [if_neg hin]
    refine ⟨(h.erase op).source, fun op' hop' => ?_⟩
    rcases (AList.mem_insert _).mp hop' with rfl | hop'
    · exact (h.source op' txout hlookup hp).resolve_left hin
    · exact h.spent op' hop'

theorem create (h : Sourced chainUtxos available diff) (op : OutPoint) (txout : TxOut) :
    Sourced chainUtxos (available.insert op txout) (diff.create op txout) := by
  unfold P2mrUtxoBlockDiff.create
  by_cases hp : isP2mr txout = true
  · rw [if_pos hp]
    refine ⟨fun op' txout' hlookup' hp' => ?_, h.spent⟩
    by_cases hk : op' = op
    · exact .inl ((AList.mem_insert _).mpr (.inl hk))
    · rw [AList.lookup_insert_ne hk] at hlookup'
      exact (h.source op' txout' hlookup' hp').imp_left fun hc => (AList.mem_insert _).mpr (.inr hc)
  · rw [if_neg hp]
    refine ⟨fun op' txout' hlookup' hp' => ?_, h.spent⟩
    by_cases hk : op' = op
    · subst hk
      obtain rfl : txout = txout' := by simpa using hlookup'
      exact absurd hp' hp
    · rw [AList.lookup_insert_ne hk] at hlookup'
      exact h.source op' txout' hlookup' hp'

end Sourced

/-! ## Without validation -/

theorem applyTxToAvailable_sourced {st : DiffState} (h : Sourced chainUtxos st.available st.diff)
    (tx : Transaction) : Sourced chainUtxos (applyTxToAvailable C st tx).available
      (applyTxToAvailable C st tx).diff := by
  have hspend : ∀ (inputs : List TxIn) (st : DiffState), Sourced chainUtxos st.available st.diff →
      let st' := inputs.foldl (fun st input => st.spend input.previousOutput) st
      Sourced chainUtxos st'.available st'.diff := by
    intro inputs
    induction inputs with
    | nil => exact fun _ h => h
    | cons input inputs ih =>
        intro st h
        refine ih (st.spend input.previousOutput) ?_
        unfold DiffState.spend
        cases hlookup : st.available.lookup input.previousOutput with
        | none => exact h
        | some prevout =>
            by_cases hp : isP2mr prevout = true
            · simpa [hp] using h.spend hlookup hp
            · simpa [hp] using h.erase input.previousOutput
  have hcreate : ∀ (outputs : List (OutPoint × TxOut)) (st : DiffState),
      Sourced chainUtxos st.available st.diff →
      let st' := outputs.foldl DiffState.create st
      Sourced chainUtxos st'.available st'.diff := by
    intro outputs
    induction outputs with
    | nil => exact fun _ h => h
    | cons e outputs ih =>
        intro st h
        refine ih (st.create e) ?_
        by_cases hp : isP2mr e.2 = true
        · simpa [DiffState.create, hp] using h.create e.1 e.2
        · simpa [DiffState.create, P2mrUtxoBlockDiff.create, hp] using h
  exact hcreate _ _ (hspend _ _ h)

/-! ## During validation -/

/-- The state of a validation that keeps a diff. -/
def ValidationState.Sourced (chainUtxos : PrevoutMap) (st : ValidationState) : Prop :=
  ∃ diff, st.diff = some diff ∧ Pqc.Sourced chainUtxos st.availablePrevouts diff

theorem ValidationState.Sourced.create {st : ValidationState} (h : st.Sourced chainUtxos)
    (e : OutPoint × TxOut) : (st.create e).Sourced chainUtxos := by
  obtain ⟨diff, hdiff, hsourced⟩ := h
  exact ⟨diff.create e.1 e.2, by simp [ValidationState.create, hdiff], hsourced.create e.1 e.2⟩

theorem ValidationState.Sourced.createAll {st : ValidationState} (h : st.Sourced chainUtxos)
    (outputs : List (OutPoint × TxOut)) :
    (outputs.foldl ValidationState.create st).Sourced chainUtxos := by
  induction outputs generalizing st with
  | nil => exact h
  | cons e outputs ih => exact ih (h.create e)

theorem ValidationState.Sourced.spend {st : ValidationState} (h : st.Sourced chainUtxos)
    (op : OutPoint) : (st.spend op).Sourced chainUtxos := by
  obtain ⟨diff, hdiff, hsourced⟩ := h
  unfold ValidationState.spend
  cases hlookup : st.availablePrevouts.lookup op with
  | none => exact ⟨diff, hdiff, hsourced⟩
  | some prevout =>
      by_cases hp : isP2mr prevout = true
      · exact ⟨diff.spend op prevout, by simp [hp, hdiff], by simpa [hp] using hsourced.spend hlookup hp⟩
      · exact ⟨diff, by simp [hp, hdiff], by simpa [hp] using hsourced.erase op⟩

theorem ValidationState.Sourced.spendAll {st : ValidationState} (h : st.Sourced chainUtxos)
    (inputs : List TxIn) :
    (inputs.foldl (fun st input => st.spend input.previousOutput) st).Sourced chainUtxos := by
  induction inputs generalizing st with
  | nil => exact h
  | cons input inputs ih => exact ih (h.spend input.previousOutput)

theorem startValidation_sourced {block : Block} {extraPrevouts : PrevoutMap}
    (hextra : ∀ op txout, extraPrevouts.lookup op = some txout → ¬ isP2mr txout) :
    (startValidation C block chainUtxos extraPrevouts).Sourced chainUtxos := by
  have hseed : (seedCoinbaseP2mrDiff C block ⟨chainUtxos, some .empty, ∅⟩).Sourced chainUtxos := by
    have hstart : (⟨chainUtxos, some .empty, ∅⟩ : ValidationState).Sourced chainUtxos :=
      ⟨.empty, rfl, Sourced.start⟩
    unfold seedCoinbaseP2mrDiff
    cases block.txdata with
    | nil => exact hstart
    | cons coinbase txs => exact hstart.createAll _
  obtain ⟨diff, hdiff, hsourced⟩ := hseed
  refine ⟨diff, hdiff, fun op txout hlookup hp => ?_, hsourced.spent⟩
  rw [startValidation, lookup_addExtraPrevouts, Option.or_eq_some_iff] at hlookup
  rcases hlookup with hlookup | ⟨-, hlookup⟩
  · exact hsourced.source op txout hlookup hp
  · exact absurd hp (hextra op txout hlookup)

/-- What a diff spends is in the table that the block was validated against. -/
theorem validateAndDiff_spent {block : Block} {extraPrevouts : PrevoutMap} {clock : Clock}
    {height budget : Nat} {activation : Bip360Activation} {diff : P2mrUtxoBlockDiff}
    (hextra : ∀ op txout, extraPrevouts.lookup op = some txout → ¬ isP2mr txout)
    (hok : validateAndDiffBlockTransactions C clock block height activation chainUtxos extraPrevouts
      budget = .ok diff) : ∀ op ∈ diff.spent, op ∈ chainUtxos := by
  unfold validateAndDiffBlockTransactions at hok
  split at hok
  · obtain rfl : computeBlockDiff C block chainUtxos = diff := by simpa using hok
    suffices hall : ∀ (txs : List Transaction) (st : DiffState),
        Sourced chainUtxos st.available st.diff →
        ∀ op ∈ (txs.foldl (applyTxToAvailable C) st).diff.spent, op ∈ chainUtxos from
      hall block.txdata ⟨chainUtxos, .empty⟩ Sourced.start
    intro txs
    induction txs with
    | nil => exact fun _ h => h.spent
    | cons tx txs ih => exact fun st h => ih _ (applyTxToAvailable_sourced h tx)
  · obtain ⟨st, hst, hdiff⟩ := Except.bind_eq_ok_iff.mp hok
    have hall : ∀ (txs : List Transaction) (st st' : BlockState), st.validation.Sourced chainUtxos →
        txs.foldlM (validateBlockTransaction C clock height activation chainUtxos) st = .ok st' →
        st'.validation.Sourced chainUtxos := by
      intro txs
      induction txs with
      | nil =>
          intro st st' h hrun
          obtain rfl : st = st' := by simpa [pure, Except.pure] using hrun
          exact h
      | cons tx txs ih =>
          intro st st' h hrun
          obtain ⟨next, hstep, hrest⟩ := Except.bind_eq_ok_iff.mp hrun
          obtain ⟨_, -, hnext⟩ := Except.bind_eq_ok_iff.mp hstep
          obtain rfl : _ = next := by simpa using hnext
          exact ih _ _ ((h.spendAll tx.input).createAll (txOutputs C tx)) hrest
    obtain ⟨diff', hdiff', hsourced⟩ := hall _ _ _ (startValidation_sourced hextra) hst
    obtain rfl : diff' = diff := by simpa [hdiff'] using hdiff
    exact hsourced.spent

/-! ## What a diff spends, an input of the block spends -/

/-- The outpoints that the transactions of a block spend. -/
def blockInputs (block : Block) : List OutPoint :=
  block.txdata.flatMap fun tx => tx.input.map TxIn.previousOutput

variable {ops : List OutPoint}

/-- The diff spends no other outputs than `ops`. -/
def P2mrUtxoBlockDiff.SpendsOf (ops : List OutPoint) (diff : P2mrUtxoBlockDiff) : Prop :=
  ∀ op ∈ diff.spent, op ∈ ops

namespace P2mrUtxoBlockDiff.SpendsOf

variable {diff : P2mrUtxoBlockDiff}

theorem spend (h : diff.SpendsOf ops) {op : OutPoint} (hop : op ∈ ops) (txout : TxOut) :
    (diff.spend op txout).SpendsOf ops := by
  unfold P2mrUtxoBlockDiff.spend
  split
  · exact h
  · intro op' hop'
    rcases (AList.mem_insert _).mp hop' with rfl | hop'
    · exact hop
    · exact h op' hop'

theorem create (h : diff.SpendsOf ops) (op : OutPoint) (txout : TxOut) :
    (diff.create op txout).SpendsOf ops := by
  unfold P2mrUtxoBlockDiff.create
  split <;> exact h

end P2mrUtxoBlockDiff.SpendsOf

theorem mem_blockInputs {block : Block} {tx : Transaction} {input : TxIn} (htx : tx ∈ block.txdata)
    (hinput : input ∈ tx.input) : input.previousOutput ∈ blockInputs block :=
  List.mem_flatMap.mpr ⟨tx, htx, List.mem_map_of_mem hinput⟩

theorem applyTxToAvailable_spendsOf {st : DiffState} {tx : Transaction} (h : st.diff.SpendsOf ops)
    (hinputs : ∀ input ∈ tx.input, input.previousOutput ∈ ops) :
    (applyTxToAvailable C st tx).diff.SpendsOf ops := by
  refine List.foldlRecOn _ _ (motive := fun st : DiffState => st.diff.SpendsOf ops) ?_ ?_
  · refine List.foldlRecOn _ _ (motive := fun st : DiffState => st.diff.SpendsOf ops) h ?_
    intro st hst input hinput
    unfold DiffState.spend
    split
    · exact hst
    · split
      · exact hst.spend (hinputs input hinput) _
      · exact hst
  · intro st hst entry _
    exact hst.create entry.1 entry.2

/-- The state of a validation whose diff, if one is kept, spends no other outputs than `ops`. -/
def ValidationState.SpendsOf (ops : List OutPoint) (st : ValidationState) : Prop :=
  ∀ diff, st.diff = some diff → diff.SpendsOf ops

theorem ValidationState.SpendsOf.create {st : ValidationState} (h : st.SpendsOf ops)
    (entry : OutPoint × TxOut) : (st.create entry).SpendsOf ops := by
  intro diff hdiff
  obtain ⟨diff', hdiff', rfl⟩ := Option.map_eq_some_iff.mp hdiff
  exact (h diff' hdiff').create entry.1 entry.2

theorem ValidationState.SpendsOf.spend {st : ValidationState} (h : st.SpendsOf ops) {op : OutPoint}
    (hop : op ∈ ops) : (st.spend op).SpendsOf ops := by
  unfold ValidationState.spend
  split
  · exact h
  · split
    · intro diff hdiff
      obtain ⟨diff', hdiff', rfl⟩ := Option.map_eq_some_iff.mp hdiff
      exact (h diff' hdiff').spend hop _
    · exact h

theorem applyTxToValidationAvailable_spendsOf {st : ValidationState} {tx : Transaction}
    (h : st.SpendsOf ops) (hinputs : ∀ input ∈ tx.input, input.previousOutput ∈ ops) :
    (applyTxToValidationAvailable C st tx).SpendsOf ops := by
  refine List.foldlRecOn _ _ (motive := ValidationState.SpendsOf ops) ?_ fun st hst entry _ => hst.create entry
  refine List.foldlRecOn _ _ (motive := ValidationState.SpendsOf ops) h ?_
  exact fun st hst input hinput => hst.spend (hinputs input hinput)

theorem startValidation_spendsOf {block : Block} {extraPrevouts : PrevoutMap} :
    (startValidation C block chainUtxos extraPrevouts).SpendsOf ops := by
  have hempty : (⟨chainUtxos, some .empty, ∅⟩ : ValidationState).SpendsOf ops := by
    intro diff hdiff op hop
    obtain rfl := Option.some.inj hdiff
    exact absurd hop (AList.notMem_empty op)
  unfold startValidation seedCoinbaseP2mrDiff
  cases block.txdata with
  | nil => exact hempty
  | cons coinbase txs =>
      exact List.foldlRecOn _ _ (motive := ValidationState.SpendsOf ops) hempty
        fun st hst entry _ => hst.create entry

/-- A diff spends only what the block spends. -/
theorem validateAndDiff_spendsOf {block : Block} {extraPrevouts : PrevoutMap} {clock : Clock}
    {height budget : Nat} {activation : Bip360Activation} {diff : P2mrUtxoBlockDiff}
    (hok : validateAndDiffBlockTransactions C clock block height activation chainUtxos extraPrevouts
      budget = .ok diff) : diff.SpendsOf (blockInputs block) := by
  unfold validateAndDiffBlockTransactions at hok
  split at hok
  · obtain rfl := Except.ok.inj hok
    refine List.foldlRecOn _ _ (motive := fun st : DiffState => st.diff.SpendsOf (blockInputs block))
      (fun op hop => absurd hop (AList.notMem_empty op)) ?_
    exact fun st hst tx htx => applyTxToAvailable_spendsOf hst fun input => mem_blockInputs htx
  · obtain ⟨st, hst, hdiff⟩ := Except.bind_eq_ok_iff.mp hok
    have hspends : st.validation.SpendsOf (blockInputs block) := by
      refine Except.foldlM_induction
        (motive := fun _ (st : BlockState) => st.validation.SpendsOf (blockInputs block))
        startValidation_spendsOf ?_ hst
      rintro - tx st st' htx hst hstep
      obtain ⟨timer, -, hnext⟩ := Except.bind_eq_ok_iff.mp hstep
      obtain rfl := Except.ok.inj hnext
      exact applyTxToValidationAvailable_spendsOf hst fun input => mem_blockInputs (List.mem_of_mem_drop htx)
    obtain rfl := Except.ok.inj hdiff
    cases hkept : st.validation.diff with
    | none => exact fun op hop => absurd hop (AList.notMem_empty op)
    | some diff => exact hspends diff hkept

end Bip360Enforcer.Pqc
