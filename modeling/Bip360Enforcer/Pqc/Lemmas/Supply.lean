import Bip360Enforcer.Library.Except
import Bip360Enforcer.Pqc.Lemmas.Lookups

/-!
# Which outputs are known during the validation of a block
-/

namespace Bip360Enforcer.Pqc

open Except (Avoids Stops)
open Tapscript (Missing)

variable {C : Crypto} {known : OutPoint → Prop} {created spent : List OutPoint}

/-- Apart from the outputs `spent` in the block, those `known` before and those `created` in it are
available. -/
structure ValidationState.Supplied (known : OutPoint → Prop) (created spent : List OutPoint)
    (st : ValidationState) : Prop where
  available : ∀ op ∉ spent, op ∈ st.availablePrevouts ↔ known op ∨ op ∈ created
  spent : ∀ op ∈ st.spentP2mrInBlock, op ∈ spent

namespace ValidationState.Supplied

variable {st : ValidationState}

theorem spend (h : st.Supplied known created spent) (op : OutPoint) :
    (st.spend op).Supplied known created (spent ++ [op]) := by
  unfold ValidationState.spend
  cases st.availablePrevouts.lookup op with
  | none =>
      refine ⟨fun op' hop' => h.available op' ?_, fun op' hop' => List.mem_append_left _ (h.spent op' hop')⟩
      exact fun hin => hop' (List.mem_append_left _ hin)
  | some prevout =>
      have havailable : ∀ op' ∉ spent ++ [op],
          op' ∈ st.availablePrevouts.erase op ↔ known op' ∨ op' ∈ created := by
        intro op' hop'
        have hne : op' ≠ op := fun heq => hop' (by simp [heq])
        rw [AList.mem_erase, ← h.available op' fun hin => hop' (List.mem_append_left _ hin)]
        exact and_iff_right hne
      dsimp only
      split
      · refine ⟨havailable, fun op' hop' => ?_⟩
        rcases Finset.mem_insert.mp hop' with rfl | hop'
        · simp
        · exact List.mem_append_left _ (h.spent op' hop')
      · exact ⟨havailable, fun op' hop' => List.mem_append_left _ (h.spent op' hop')⟩

theorem create (h : st.Supplied known created spent) (entry : OutPoint × TxOut) :
    (st.create entry).Supplied known (created ++ [entry.1]) spent := by
  refine ⟨fun op hop => ?_, h.spent⟩
  rw [ValidationState.create, AList.mem_insert, h.available op hop, List.mem_append,
    List.mem_singleton, or_comm, or_assoc]

theorem spendAll {inputs : List TxIn} (h : st.Supplied known created spent) :
    (inputs.foldl (fun st input => st.spend input.previousOutput) st).Supplied known created
      (spent ++ inputs.map TxIn.previousOutput) := by
  induction inputs generalizing st spent with
  | nil => simpa using h
  | cons input inputs ih =>
      rw [List.map_cons, List.append_cons]
      exact ih (h.spend input.previousOutput)

theorem createAll {outputs : List (OutPoint × TxOut)} (h : st.Supplied known created spent) :
    (outputs.foldl ValidationState.create st).Supplied known (created ++ outputs.map Prod.fst) spent := by
  induction outputs generalizing st created with
  | nil => simpa using h
  | cons entry outputs ih =>
      rw [List.map_cons, List.append_cons]
      exact ih (h.create entry)

theorem applyTx (h : st.Supplied known created spent) (tx : Transaction) :
    (applyTxToValidationAvailable C st tx).Supplied known (created ++ (txOutputs C tx).map Prod.fst)
      (spent ++ tx.input.map TxIn.previousOutput) := h.spendAll.createAll

theorem start {block : Block} {coinbase : Transaction} {txs : List Transaction}
    (chainP2mrUtxos extraPrevouts : PrevoutMap) (htx : block.txdata = coinbase :: txs) :
    (startValidation C block chainP2mrUtxos extraPrevouts).Supplied
      (fun op => op ∈ chainP2mrUtxos ∨ op ∈ extraPrevouts) (outpoints C [coinbase]) [] := by
  have hchain : (⟨chainP2mrUtxos, some .empty, ∅⟩ : ValidationState).Supplied (· ∈ chainP2mrUtxos)
      [] [] := ⟨by simp, by simp⟩
  have hseed : ((txOutputs C coinbase).foldl ValidationState.create
      ⟨chainP2mrUtxos, some .empty, ∅⟩).Supplied (· ∈ chainP2mrUtxos)
      ((txOutputs C coinbase).map Prod.fst) [] := hchain.createAll
  rw [startValidation, seedCoinbaseP2mrDiff, htx]
  refine ⟨fun op hop => ?_, hseed.spent⟩
  rw [← AList.lookup_isSome, lookup_addExtraPrevouts, Option.isSome_or, Bool.or_eq_true,
    AList.lookup_isSome, AList.lookup_isSome, hseed.available op hop, outpoints, List.flatMap_singleton]
  tauto

end ValidationState.Supplied

/-! ## Through a block -/

section

variable {clock : Clock} {utxos chainP2mrUtxos extra : PrevoutMap} {block : Block} {tx : Transaction}
  {rest : List Transaction} {st st' : BlockState} {height budgetMs : Nat} {activation : Bip360Activation}

theorem CoreBlock.spends_after (h : CoreBlock C utxos block) {done : List Transaction}
    (htx : block.txdata = done ++ tx :: rest) (hdone : done ≠ []) {op : OutPoint}
    (hop : op ∈ tx.input.map TxIn.previousOutput) : op ∈ utxos ∨ op ∈ outpoints C done := by
  obtain ⟨input, hinput, rfl⟩ := List.mem_map.mp hop
  have hentry : (tx, done.length) ∈ block.txdata.zipIdx.drop 1 := by
    rw [htx, List.zipIdx_append, List.drop_append_of_le_length]
    · simp
    · rw [List.length_zipIdx]
      exact List.length_pos_iff.mpr hdone
  have hspends := h.spends _ hentry input hinput
  rwa [htx, List.take_left] at hspends

/-- What a transaction spends of the block itself is created before. -/
theorem CoreBlock.created_before (h : CoreBlock C utxos block) {done : List Transaction}
    (htx : block.txdata = done ++ tx :: rest) (hdone : done ≠ []) {op : OutPoint}
    (hop : op ∈ tx.input.map TxIn.previousOutput) :
    op ∈ outpoints C done ↔ op ∈ outpoints C block.txdata := by
  constructor
  · intro hin
    rw [htx, outpoints_append]
    exact List.mem_append_left _ hin
  · intro hin
    exact (h.spends_after htx hdone hop).resolve_left (h.fresh op hin)

theorem CoreBlock.unspent (h : CoreBlock C utxos block) (htx : tx ∈ block.txdata.drop 1) {op : OutPoint}
    (hop : op ∈ tx.input.map TxIn.previousOutput) (hsame : op ∉ outpoints C block.txdata) :
    op ∈ utxos := by
  obtain ⟨before, after, hsplit⟩ := List.append_of_mem htx
  cases hdata : block.txdata with
  | nil => simp [hdata] at htx
  | cons coinbase txs =>
      have hdone : block.txdata = (coinbase :: before) ++ tx :: after := by
        rw [hdata, List.drop_one, List.tail_cons] at hsplit
        rw [hdata, hsplit, List.cons_append]
      refine (h.spends_after hdone nofun hop).resolve_right fun hin => hsame ?_
      rw [hdone, outpoints_append]
      exact List.mem_append_left _ hin

/-- No two transactions spend the same. -/
theorem CoreBlock.once_of_mem (h : CoreBlock C utxos block) {tx' : Transaction}
    (htx : tx ∈ block.txdata.drop 1) (htx' : tx' ∈ block.txdata.drop 1) {op : OutPoint}
    (hop : op ∈ tx.input.map TxIn.previousOutput) (hop' : op ∈ tx'.input.map TxIn.previousOutput) :
    tx = tx' := by
  by_contra hne
  have hsymm : Std.Symm (Function.onFun List.Disjoint fun tx : Transaction =>
      tx.input.map TxIn.previousOutput) := ⟨fun _ _ hdisjoint => hdisjoint.symm⟩
  exact (List.nodup_flatMap.mp h.once).2.forall htx htx' hne hop hop'

/-- The state of a validation of `block` before the transactions `rest`. -/
def BlockState.Before (C : Crypto) (block : Block) (known : OutPoint → Prop) (rest : List Transaction)
    (st : BlockState) : Prop :=
  ∃ done, block.txdata = done ++ rest ∧ done ≠ [] ∧ st.validation.Supplied known (outpoints C done)
    ((done.drop 1).flatMap fun tx => tx.input.map TxIn.previousOutput)

theorem BlockState.Before.start (chainP2mrUtxos extra : PrevoutMap) (timer : Timer) {coinbase : Transaction}
    {txs : List Transaction} (htx : block.txdata = coinbase :: txs) :
    BlockState.Before C block (fun op => op ∈ chainP2mrUtxos ∨ op ∈ extra) txs
      ⟨startValidation C block chainP2mrUtxos extra, timer⟩ :=
  ⟨[coinbase], htx, nofun, .start chainP2mrUtxos extra htx⟩

theorem BlockState.Before.next (h : st.Before C block known (tx :: rest)) (timer : Timer) :
    BlockState.Before C block known rest ⟨applyTxToValidationAvailable C st.validation tx, timer⟩ := by
  obtain ⟨done, htx, hdone, hsupplied⟩ := h
  refine ⟨done ++ [tx], by simp [htx], by simp, ?_⟩
  have hdrop : (done ++ [tx]).drop 1 = done.drop 1 ++ [tx] :=
    List.drop_append_of_le_length (List.length_pos_iff.mpr hdone)
  rw [outpoints_concat, hdrop, List.flatMap_append, List.flatMap_singleton]
  exact hsupplied.applyTx tx

/-- What an input spends has not been spent before in the block. -/
theorem BlockState.Before.input (hcore : CoreBlock C utxos block)
    (h : st.Before C block known (tx :: rest)) : ∃ done, block.txdata = done ++ tx :: rest ∧ done ≠ [] ∧
      ∀ op ∈ tx.input.map TxIn.previousOutput, op ∉ st.validation.spentP2mrInBlock ∧
        (op ∈ st.validation.availablePrevouts ↔ known op ∨ op ∈ outpoints C done) := by
  obtain ⟨done, htx, hdone, hsupplied⟩ := h
  refine ⟨done, htx, hdone, fun op hop => ?_⟩
  have honce := hcore.once
  rw [htx, List.drop_append_of_le_length (List.length_pos_iff.mpr hdone), List.flatMap_append,
    List.nodup_append'] at honce
  have hunspent : op ∉ (done.drop 1).flatMap fun tx => tx.input.map TxIn.previousOutput := by
    intro hin
    exact honce.2.2 hin (by rw [List.flatMap_cons]; exact List.mem_append_left _ hop)
  exact ⟨fun hin => hunspent (hsupplied.spent op hin), hsupplied.available op hunspent⟩

/-- With all unspent outputs of the chain known, nothing is lacking. -/
theorem validateAndDiff_knows (hcore : CoreBlock C utxos block) :
    (validateAndDiffBlockTransactions C clock block height activation chainP2mrUtxos utxos
      budgetMs).Avoids PqcValidationError.Lacks := by
  refine .ite (fun _ => .ok _) fun _ => ?_
  dsimp only
  refine Avoids.bind ?_ fun _ _ => .ok _
  cases htx : block.txdata with
  | nil => exact .ok _
  | cons coinbase txs =>
      refine Avoids.foldlM_of_inv (BlockState.Before.start chainP2mrUtxos utxos _ htx) ?_
      intro tx rest st hbefore
      obtain ⟨done, hsplit, hdone, hinput⟩ := hbefore.input hcore
      refine ⟨Avoids.bind ?_ fun _ _ => .ok _, fun st' hok => ?_⟩
      · refine validateTransaction_knows (fun input hin => ?_) height activation
        have hop := List.mem_map_of_mem (f := TxIn.previousOutput) hin
        apply Option.isSome_iff_exists.mp
        rw [AList.lookup_isSome, (hinput _ hop).2]
        exact (hcore.spends_after hsplit hdone hop).imp .inr id
      · obtain ⟨timer, -, hst'⟩ := Except.bind_eq_ok_iff.mp hok
        obtain rfl := Except.ok.inj hst'
        exact hbefore.next timer

/-- More unspent outputs of the chain are no P2MR outputs: these are known already. -/
theorem startValidation_learns_utxos (htracks : TracksP2mr chainP2mrUtxos utxos)
    (hextra : KnownIn extra utxos) {coinbase : Transaction} {txs : List Transaction}
    (htx : block.txdata = coinbase :: txs) : (startValidation C block chainP2mrUtxos extra).Learns True
      (startValidation C block chainP2mrUtxos utxos) := by
  refine ⟨⟨fun op txout hop => ?_, fun op txout hnone hsome hp => ?_⟩, rfl, fun _ => rfl⟩
  · rw [startValidation, lookup_addExtraPrevouts, Option.or_eq_some_iff] at hop ⊢
    exact hop.imp_right fun ⟨hnone, hin⟩ => ⟨hnone, hextra _ _ hin⟩
  · have hutxos : utxos.lookup op = some txout := by
      rw [startValidation, lookup_addExtraPrevouts, Option.or_eq_none_iff] at hnone
      rw [startValidation, lookup_addExtraPrevouts, hnone.1, Option.none_or] at hsome
      exact hsome
    have hchain : op ∈ chainP2mrUtxos := by
      rw [← AList.lookup_isSome, htracks op, hutxos, Option.filter_some, if_pos hp]
      rfl
    have hsupplied := ValidationState.Supplied.start (C := C) chainP2mrUtxos extra htx
    have hin := (hsupplied.available op List.not_mem_nil).mpr (.inl (.inl hchain))
    rw [← AList.lookup_isSome, hnone] at hin
    cases hin

/-- Two validations of `block` before the transactions `rest`, of which the second lacks nothing. -/
structure BlockState.Abreast (C : Crypto) (block : Block) (known : OutPoint → Prop)
    (rest : List Transaction) (st st' : BlockState) : Prop where
  learns : st.Learns True st'
  timer : st.timer = st'.timer
  before : st.Before C block known rest

/-- `unresolved` are the outputs that a transaction spends and that are not known when it is validated. -/
def Unresolved (C : Crypto) (block : Block) (known : OutPoint → Prop)
    (unresolved : Transaction → OutPoint → Prop) : Prop :=
  ∀ done tx rest, block.txdata = done ++ tx :: rest → done ≠ [] →
    ∀ op ∈ tx.input.map TxIn.previousOutput, unresolved tx op ↔ ¬ (known op ∨ op ∈ outpoints C done)

theorem validateBlockTransaction_stops {unresolved : Transaction → OutPoint → Prop}
    (hcore : CoreBlock C utxos block) (hactive : activation.isActive height = true)
    (hchain : ∀ op ∈ chainP2mrUtxos, known op) (hunresolved : Unresolved C block known unresolved)
    (h : BlockState.Abreast C block known (tx :: rest) st st') :
    Stops PqcValidationError.Lacks
      (∃ e ∈ (transactionOutpoints C clock tx (st'.view chainP2mrUtxos) st'.timer).map
        fun outpoint => (tx, outpoint), unresolved e.1 e.2)
      (BlockState.Abreast C block known rest)
      (validateBlockTransaction C clock height activation chainP2mrUtxos st tx)
      (validateBlockTransaction C clock height activation chainP2mrUtxos st' tx) := by
  obtain ⟨done, hsplit, hdone, hinput⟩ := h.before.input hcore
  have hview : (st.view chainP2mrUtxos).Learns (st'.view chainP2mrUtxos) :=
    ⟨h.learns.available, fun _ => rfl, congrArg some h.learns.spent⟩
  have hfresh : (st.view chainP2mrUtxos).Fresh tx := by
    intro input hin hwas
    obtain ⟨hspent, havailable⟩ := hinput _ (List.mem_map_of_mem hin)
    have htracked : input.previousOutput ∈ chainP2mrUtxos := by
      simpa [SpendView.wasP2mr, BlockState.view, hspent] using hwas
    have hmem := havailable.mpr (.inl (hchain _ htracked))
    exact Option.isSome_iff_exists.mp (AList.lookup_isSome.mpr hmem)
  have hstops : Stops PqcValidationError.Lacks
      (Missing st.validation.availablePrevouts
        (transactionOutpoints C clock tx (st'.view chainP2mrUtxos) st'.timer)) Eq
      (validateTransaction C clock height activation tx (st.view chainP2mrUtxos) st.timer)
      (validateTransaction C clock height activation tx (st'.view chainP2mrUtxos) st'.timer) := by
    rw [h.timer]
    exact validateTransaction_stops hview hfresh hactive
  have happlied : ∀ timer timer' : Timer, timer = timer' →
      Stops PqcValidationError.Lacks False (BlockState.Abreast C block known rest)
        (.ok ⟨applyTxToValidationAvailable C st.validation tx, timer⟩)
        (.ok ⟨applyTxToValidationAvailable C st'.validation tx, timer'⟩) := by
    rintro timer _ rfl
    exact .of_agree id (.ok ⟨h.learns.applyTx tx, rfl, h.before.next timer⟩)
  refine (hstops.bind fun timer timer' _ htimer => happlied timer timer' htimer).congr ?_
  have hmissing : ∀ op ∈ transactionOutpoints C clock tx (st'.view chainP2mrUtxos) st'.timer,
      unresolved tx op ↔ st.validation.availablePrevouts.lookup op = none := by
    intro op hop
    have hin := transactionOutpoints_subset tx _ _ hop
    rw [hunresolved done tx rest hsplit hdone op hin, ← (hinput op hin).2, AList.lookup_eq_none]
  simp only [List.mem_map, and_false, exists_false, or_false, Missing]
  constructor
  · rintro ⟨_, ⟨op, hop, rfl⟩, hun⟩
    exact ⟨op, hop, (hmissing op hop).mp hun⟩
  · rintro ⟨op, hop, hnone⟩
    exact ⟨_, ⟨op, hop, rfl⟩, (hmissing op hop).mpr hnone⟩

theorem validateBlockTransactions_stop {unresolved : Transaction → OutPoint → Prop}
    (hcore : CoreBlock C utxos block) (hactive : activation.isActive height = true)
    (hchain : ∀ op ∈ chainP2mrUtxos, known op) (hunresolved : Unresolved C block known unresolved)
    (h : BlockState.Abreast C block known rest st st') :
    Stops PqcValidationError.Lacks
      (∃ e ∈ lookupsFrom C clock height activation chainP2mrUtxos st' rest, unresolved e.1 e.2)
      (BlockState.Abreast C block known [])
      (rest.foldlM (validateBlockTransaction C clock height activation chainP2mrUtxos) st)
      (rest.foldlM (validateBlockTransaction C clock height activation chainP2mrUtxos) st') := by
  refine Stops.foldlM h ?_
  intro tx rest st st' hst
  exact validateBlockTransaction_stops hcore hactive hchain hunresolved hst

/-- Validation with the outputs `extra` from outside fails for lack of an output exactly where validation
with all unspent outputs looks up one that is not there. -/
theorem validateAndDiff_stops (hcore : CoreBlock C utxos block)
    (htracks : TracksP2mr chainP2mrUtxos utxos) (hextra : KnownIn extra utxos)
    {unresolved : Transaction → OutPoint → Prop}
    (hunresolved : Unresolved C block (fun op => op ∈ chainP2mrUtxos ∨ op ∈ extra) unresolved) :
    Stops PqcValidationError.Lacks
      (∃ e ∈ blockLookups C clock block height activation chainP2mrUtxos utxos budgetMs,
        unresolved e.1 e.2) Eq
      (validateAndDiffBlockTransactions C clock block height activation chainP2mrUtxos extra budgetMs)
      (validateAndDiffBlockTransactions C clock block height activation chainP2mrUtxos utxos
        budgetMs) := by
  unfold validateAndDiffBlockTransactions blockLookups
  by_cases hactive : activation.isActive height = true
  · rw [hactive, Bool.not_true, if_neg Bool.false_ne_true, if_neg Bool.false_ne_true,
      if_neg Bool.false_ne_true]
    cases htx : block.txdata with
    | nil => exact .of_agree (by simp [lookupsFrom, Except.trace]) (.ok rfl)
    | cons coinbase txs =>
        have hstart : BlockState.Abreast C block (fun op => op ∈ chainP2mrUtxos ∨ op ∈ extra) txs
            ⟨startValidation C block chainP2mrUtxos extra, startTimer budgetMs⟩
            ⟨startValidation C block chainP2mrUtxos utxos, startTimer budgetMs⟩ :=
          ⟨startValidation_learns_utxos htracks hextra htx, rfl, .start _ _ _ htx⟩
        have hdiff : ∀ st st' : BlockState, BlockState.Abreast C block
            (fun op => op ∈ chainP2mrUtxos ∨ op ∈ extra) [] st st' →
            Stops PqcValidationError.Lacks False Eq (.ok (st.validation.diff.getD .empty))
              (.ok (st'.validation.diff.getD .empty)) :=
          fun st st' h => .of_eq id (by rw [h.learns.diff trivial])
        have hrun : Stops PqcValidationError.Lacks (∃ e ∈ lookupsFrom C clock height activation
            chainP2mrUtxos ⟨startValidation C block chainP2mrUtxos utxos, startTimer budgetMs⟩ txs,
            unresolved e.1 e.2) _ _ _ :=
          validateBlockTransactions_stop hcore hactive (fun op hop => .inl hop) hunresolved hstart
        exact (hrun.bind fun st st' _ h => hdiff st st' h).congr (by simp)
  · rw [Bool.not_eq_true] at hactive
    rw [hactive]
    exact .of_eq (by simp) rfl

end

end Bip360Enforcer.Pqc
