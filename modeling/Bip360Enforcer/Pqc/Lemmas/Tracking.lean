import Bip360Enforcer.Library.Except
import Bip360Enforcer.Pqc.Lemmas.Knowledge
import Bip360Enforcer.Pqc.Replay

/-!
# The validator keeps track of the unspent P2MR outputs
-/

namespace Bip360Enforcer.Pqc

variable {C : Crypto} {T t : Table OutPoint TxOut} {created : List OutPoint}

/-- A block diff as a difference of tables. -/
def P2mrUtxoBlockDiff.table (diff : P2mrUtxoBlockDiff) : TableDiff OutPoint TxOut where
  removed op := diff.spent.lookup op
  added op := diff.created.lookup op

namespace P2mrUtxoBlockDiff

theorem table_spend (diff : P2mrUtxoBlockDiff) (op : OutPoint) (txout : TxOut) :
    (diff.spend op txout).table = diff.table.take op txout := by
  unfold spend TableDiff.take
  by_cases h : op ∈ diff.created
  · have hsome : (diff.table.added op).isSome := AList.lookup_isSome.mpr h
    rw [if_pos h, if_pos hsome, table, AList.lookup_erase_eq]
    rfl
  · have hnone : ¬ (diff.table.added op).isSome := fun hs => h (AList.lookup_isSome.mp hs)
    rw [if_neg h, if_neg hnone, table, AList.lookup_insert_eq]
    rfl

theorem table_create {diff : P2mrUtxoBlockDiff} {op : OutPoint} {txout : TxOut}
    (h : isP2mr txout) : (diff.create op txout).table = diff.table.give op txout := by
  rw [create, if_pos h, table, AList.lookup_insert_eq]
  rfl

/-- The diff turns the table `T` of the chain into `t`, creating only outpoints of `created`. -/
structure Leads (T t : Table OutPoint TxOut) (created : List OutPoint) (diff : P2mrUtxoBlockDiff) :
    Prop where
  fits : diff.table.Fits T
  apply : diff.table.apply T = t
  created : ∀ op ∈ diff.created, op ∈ created

theorem leads_empty : Leads T T [] .empty where
  fits := TableDiff.fits_empty T
  apply := TableDiff.apply_empty T
  created op h := absurd h (AList.notMem_empty op)

variable {diff : P2mrUtxoBlockDiff}

theorem Leads.spend (h : diff.Leads T t created) {op : OutPoint} {txout : TxOut}
    (hop : t op = some txout) :
    (diff.spend op txout).Leads T (Function.update t op none) created where
  fits := by rw [table_spend]; exact h.fits.take (h.apply ▸ hop)
  apply := by rw [table_spend, TableDiff.apply_take h.fits, h.apply]
  created op' hop' := by
    apply h.created op'
    have hsome : ((diff.table.take op txout).added op').isSome := by
      rw [← table_spend]; exact AList.lookup_isSome.mpr hop'
    exact AList.lookup_isSome.mp (TableDiff.added_take hsome)

theorem Leads.create (h : diff.Leads T t created) {op : OutPoint} {txout : TxOut}
    (hp : isP2mr txout) (hop : T op = none) :
    (diff.create op txout).Leads T (Function.update t op (some txout)) (created ++ [op]) where
  fits := by rw [table_create hp]; exact h.fits.give hop
  apply := by rw [table_create hp, TableDiff.apply_give, h.apply]
  created op' hop' := by
    rw [P2mrUtxoBlockDiff.create, if_pos hp] at hop'
    rcases (AList.mem_insert _).mp hop' with rfl | hop'
    · simp
    · simp [h.created op' hop']

theorem Leads.skip (h : diff.Leads T t created) (op : OutPoint) :
    diff.Leads T t (created ++ [op]) :=
  ⟨h.fits, h.apply, fun op' hop' => List.mem_append_left _ (h.created op' hop')⟩

/-- An outpoint that is neither in the chain nor created yet is not in the table. -/
theorem Leads.fresh (h : diff.Leads T t created) {op : OutPoint} (hT : T op = none)
    (hop : op ∉ created) : t op = none := by
  have hadded : diff.table.added op = none :=
    AList.lookup_eq_none.mpr fun hin => hop (h.created op hin)
  rw [← h.apply, TableDiff.apply, hadded, hT]
  cases diff.table.removed op <;> rfl

end P2mrUtxoBlockDiff

open P2mrUtxoBlockDiff (Leads)

/-! ## During validation -/

/-- Of what is available, the P2MR outputs are those of the table `t`, to which the diff leads. -/
structure ValidationState.Tracks (T t : Table OutPoint TxOut) (created : List OutPoint)
    (st : ValidationState) : Prop where
  available : ∀ op, (st.availablePrevouts.lookup op).filter isP2mr = t op
  diff : ∃ diff, st.diff = some diff ∧ diff.Leads T t created

namespace ValidationState

variable {st : ValidationState}

theorem Tracks.spend (h : st.Tracks T t created) (op : OutPoint) :
    (st.spend op).Tracks T (Move.act t (.remove op)) created := by
  obtain ⟨diff, hdiff, hleads⟩ := h.diff
  have hop := h.available op
  unfold ValidationState.spend
  cases hlookup : st.availablePrevouts.lookup op with
  | none =>
      have hself : Move.act t (.remove op) = t :=
        Function.update_eq_self_iff.mpr (by rw [← hop, hlookup]; rfl)
      rw [hself]
      exact h
  | some prevout =>
      have havailable : ∀ op', ((st.availablePrevouts.erase op).lookup op').filter isP2mr =
          Move.act t (.remove op) op' := by
        intro op'
        by_cases hk : op' = op
        · subst hk; simp [Move.act]
        · simp [Move.act, hk, h.available op']
      rw [hlookup] at hop
      by_cases hp : isP2mr prevout
      · refine ⟨by simpa [hp] using havailable, diff.spend op prevout, by simp [hp, hdiff], ?_⟩
        exact hleads.spend (by rw [← hop]; simp [hp])
      · refine ⟨by simpa [hp] using havailable, diff, by simp [hp, hdiff], ?_⟩
        have hself : Move.act t (.remove op) = t :=
          Function.update_eq_self_iff.mpr (by rw [← hop, Option.filter_some, if_neg hp])
        rw [hself]
        exact hleads

theorem Tracks.create (h : st.Tracks T t created) {e : OutPoint × TxOut} (hT : T e.1 = none)
    (hnew : e.1 ∉ created) :
    (st.create e).Tracks T ((addMoves [e]).foldl Move.act t) (created ++ [e.1]) := by
  obtain ⟨diff, hdiff, hleads⟩ := h.diff
  by_cases hp : isP2mr e.2
  · refine ⟨fun op => ?_, diff.create e.1 e.2, by simp [ValidationState.create, hdiff], ?_⟩
    · by_cases hk : op = e.1
      · subst hk; simp [ValidationState.create, addMoves, Move.act, hp]
      · simp [ValidationState.create, addMoves, Move.act, hp, hk, AList.lookup_insert_ne hk, h.available op]
    · simpa [addMoves, hp, Move.act] using hleads.create hp hT
  · have hsame : diff.create e.1 e.2 = diff := if_neg hp
    have hmoves : addMoves [e] = [] := by simp [addMoves, hp]
    rw [hmoves]
    refine ⟨fun op => ?_, diff, by simp [ValidationState.create, hdiff, hsame], hleads.skip e.1⟩
    by_cases hk : op = e.1
    · subst hk
      simp [ValidationState.create, hp, hleads.fresh hT hnew]
    · simp [ValidationState.create, AList.lookup_insert_ne hk, h.available op]

theorem Tracks.spendAll {inputs : List TxIn} (h : st.Tracks T t created) :
    (inputs.foldl (fun st input => st.spend input.previousOutput) st).Tracks T
      ((inputs.map fun input => Move.remove input.previousOutput).foldl Move.act t) created := by
  induction inputs generalizing st t with
  | nil => exact h
  | cons input inputs ih => exact ih (h.spend input.previousOutput)

theorem Tracks.createAll {outputs : List (OutPoint × TxOut)} (h : st.Tracks T t created)
    (hT : ∀ e ∈ outputs, T e.1 = none) (hnew : (created ++ outputs.map Prod.fst).Nodup) :
    (outputs.foldl ValidationState.create st).Tracks T ((addMoves outputs).foldl Move.act t)
      (created ++ outputs.map Prod.fst) := by
  induction outputs generalizing st t created with
  | nil => simpa [addMoves] using h
  | cons e outputs ih =>
      rw [List.map_cons, List.append_cons] at hnew ⊢
      have hnotin : e.1 ∉ created := by
        have := hnew.of_append_left
        rw [List.nodup_append'] at this
        exact fun hin => this.2.2 hin (by simp)
      rw [addMoves_cons, List.foldl_append, List.foldl_cons]
      exact ih (h.create (hT e (by simp)) hnotin) (fun e he => hT e (by simp [he])) hnew

theorem Tracks.applyTx {tx : Transaction} {txs : List Transaction}
    (h : st.Tracks T t (outpoints C txs)) (hT : ∀ e ∈ txOutputs C tx, T e.1 = none)
    (hnew : (outpoints C (txs ++ [tx])).Nodup) :
    (applyTxToValidationAvailable C st tx).Tracks T ((txMoves C tx).foldl Move.act t)
      (outpoints C (txs ++ [tx])) := by
  rw [outpoints_concat] at hnew ⊢
  rw [txMoves, List.foldl_append]
  exact h.spendAll.createAll hT hnew

end ValidationState

/-! ## Without validation -/

structure DiffState.Tracks (T t : Table OutPoint TxOut) (created : List OutPoint) (st : DiffState) :
    Prop where
  available : ∀ op, st.available.lookup op = t op
  p2mr : ∀ op txout, t op = some txout → isP2mr txout
  leads : st.diff.Leads T t created

namespace DiffState

variable {st : DiffState}

theorem Tracks.spend (h : st.Tracks T t created) (op : OutPoint) :
    (st.spend op).Tracks T (Move.act t (.remove op)) created := by
  have hop := h.available op
  unfold DiffState.spend
  cases hlookup : st.available.lookup op with
  | none =>
      have hself : Move.act t (.remove op) = t :=
        Function.update_eq_self_iff.mpr (by rw [← hop, hlookup])
      rw [hself]
      exact h
  | some prevout =>
      rw [hlookup] at hop
      have hp := h.p2mr op prevout hop.symm
      refine ⟨fun op' => ?_, fun op' txout htxout => ?_, ?_⟩
      · by_cases hk : op' = op
        · subst hk; simp [Move.act]
        · simp [Move.act, hk, h.available op']
      · by_cases hk : op' = op
        · subst hk; simp [Move.act] at htxout
        · exact h.p2mr op' txout (by simpa [Move.act, hk] using htxout)
      · simpa [hp, Move.act] using h.leads.spend hop.symm

theorem Tracks.create (h : st.Tracks T t created) {e : OutPoint × TxOut} (hT : T e.1 = none) :
    (st.create e).Tracks T ((addMoves [e]).foldl Move.act t) (created ++ [e.1]) := by
  by_cases hp : isP2mr e.2
  · have hmoves : (addMoves [e]).foldl Move.act t = Function.update t e.1 (some e.2) := by
      simp [addMoves, hp, Move.act]
    rw [hmoves]
    refine ⟨fun op => ?_, fun op txout htxout => ?_, h.leads.create hp hT⟩
    · by_cases hk : op = e.1
      · subst hk; simp [DiffState.create, hp]
      · simp [DiffState.create, hp, hk, AList.lookup_insert_ne hk, h.available op]
    · by_cases hk : op = e.1
      · subst hk
        obtain rfl : e.2 = txout := by simpa using htxout
        exact hp
      · exact h.p2mr op txout (by simpa [hk] using htxout)
  · have hmoves : addMoves [e] = [] := by simp [addMoves, hp]
    have hsame : st.create e = st := by
      simp [DiffState.create, P2mrUtxoBlockDiff.create, hp]
    rw [hmoves, hsame]
    exact ⟨h.available, h.p2mr, h.leads.skip e.1⟩

theorem Tracks.spendAll {inputs : List TxIn} (h : st.Tracks T t created) :
    (inputs.foldl (fun st input => st.spend input.previousOutput) st).Tracks T
      ((inputs.map fun input => Move.remove input.previousOutput).foldl Move.act t) created := by
  induction inputs generalizing st t with
  | nil => exact h
  | cons input inputs ih => exact ih (h.spend input.previousOutput)

theorem Tracks.createAll {outputs : List (OutPoint × TxOut)} (h : st.Tracks T t created)
    (hT : ∀ e ∈ outputs, T e.1 = none) :
    (outputs.foldl DiffState.create st).Tracks T ((addMoves outputs).foldl Move.act t)
      (created ++ outputs.map Prod.fst) := by
  induction outputs generalizing st t created with
  | nil => simpa [addMoves] using h
  | cons e outputs ih =>
      rw [List.map_cons, List.append_cons, addMoves_cons, List.foldl_append, List.foldl_cons]
      exact ih (h.create (hT e (by simp))) fun e he => hT e (by simp [he])

theorem Tracks.applyAll {done txs : List Transaction} (h : st.Tracks T t (outpoints C done))
    (hT : ∀ op ∈ outpoints C txs, T op = none) :
    (txs.foldl (applyTxToAvailable C) st).Tracks T (replayTxs C t txs) (outpoints C (done ++ txs)) := by
  induction txs generalizing st t done with
  | nil => simpa [replayTxs] using h
  | cons tx txs ih =>
      rw [outpoints_cons] at hT
      have htx : ∀ e ∈ txOutputs C tx, T e.1 = none := fun e he =>
        hT e.1 (List.mem_append_left _ (List.mem_map_of_mem he))
      have hstep : (applyTxToAvailable C st tx).Tracks T ((txMoves C tx).foldl Move.act t)
          (outpoints C (done ++ [tx])) := by
        rw [outpoints_concat, txMoves, List.foldl_append]
        exact h.spendAll.createAll htx
      rw [List.foldl_cons, replayTxs_cons, List.append_cons]
      exact ih hstep fun op hop => hT op (List.mem_append_right _ hop)

end DiffState

/-! ## Blocks -/

section

variable {block : Block} {chain : List Block} {coinbase : Transaction} {txs : List Transaction}
  {chainUtxos extraPrevouts : PrevoutMap} {clock : Clock} {height budget : Nat}
  {activation : Bip360Activation}

/-- What the rules of Core guarantee of a block, on the P2MR outputs `T` of its chain. -/
structure BlockOn (C : Crypto) (T : Table OutPoint TxOut) (block : Block) : Prop where
  p2mr : ∀ op txout, T op = some txout → isP2mr txout
  coinbase : ∀ tx ∈ block.txdata.head?, ∀ input ∈ tx.input, input.previousOutput = .null
  null : T .null = none
  nodup : (outpoints C block.txdata).Nodup
  fresh : ∀ op ∈ outpoints C block.txdata, T op = none

theorem CoreChain.blockOn (hcore : CoreChain C (block :: chain)) : BlockOn C (replay C chain) block where
  p2mr _ _ hop := (replay_some hop).2
  coinbase := hcore.coinbase block List.mem_cons_self
  null := hcore.tail.replay_null
  nodup := by
    have hnodup := hcore.nodup_outpoints
    rw [outpoints, List.flatMap_cons, List.flatMap_append, List.map_append] at hnodup
    exact hnodup.of_append_left
  fresh _ hop := hcore.fresh hop

namespace BlockOn

variable (hon : BlockOn C T block) (hchain : ∀ op, chainUtxos.lookup op = T op)
  (hextra : ∀ op txout, extraPrevouts.lookup op = some txout → ¬ isP2mr txout)

include hon hchain

theorem computeBlockDiff_leads : (computeBlockDiff C block chainUtxos).Leads T (replayTxs C T block.txdata)
    (outpoints C block.txdata) := by
  have hstart : (⟨chainUtxos, .empty⟩ : DiffState).Tracks T T (outpoints C []) :=
    ⟨hchain, hon.p2mr, P2mrUtxoBlockDiff.leads_empty⟩
  exact (hstart.applyAll hon.fresh).leads

omit hchain in
/-- The inputs of a coinbase take nothing out. -/
theorem act_coinbase (htx : block.txdata = coinbase :: txs) :
    (txMoves C coinbase).foldl Move.act T = (addMoves (txOutputs C coinbase)).foldl Move.act T := by
  rw [txMoves, List.foldl_append]
  congr 1
  funext op
  rw [act_removes]
  split
  · rename_i hin
    obtain ⟨input, hinput, rfl⟩ := hin
    rw [hon.coinbase coinbase (by simp [htx]) input hinput, hon.null]
  · rfl

include hextra

theorem startValidation_tracks (htx : block.txdata = coinbase :: txs) :
    (startValidation C block chainUtxos extraPrevouts).Tracks T (replayTxs C T [coinbase])
      (outpoints C [coinbase]) := by
  have hstart : (⟨chainUtxos, some .empty, ∅⟩ : ValidationState).Tracks T T [] := by
    refine ⟨fun op => ?_, .empty, rfl, P2mrUtxoBlockDiff.leads_empty⟩
    rw [hchain op]
    cases hop : T op with
    | none => rfl
    | some txout => rw [Option.filter_some, if_pos (hon.p2mr op txout hop)]
  have hnodup := hon.nodup
  rw [htx, outpoints_cons] at hnodup
  have hfresh : ∀ e ∈ txOutputs C coinbase, T e.1 = none := fun e he =>
    hon.fresh _ (by rw [htx, outpoints_cons]; exact List.mem_append_left _ (List.mem_map_of_mem he))
  have hseed := hstart.createAll hfresh (by simpa using hnodup.of_append_left)
  rw [← hon.act_coinbase htx] at hseed
  have hmoves : replayTxs C T [coinbase] = (txMoves C coinbase).foldl Move.act T := by simp [replayTxs]
  have hcreated : outpoints C [coinbase] = [] ++ (txOutputs C coinbase).map Prod.fst := by
    simp [outpoints]
  rw [hmoves, hcreated, startValidation, seedCoinbaseP2mrDiff, htx]
  refine ⟨fun op => ?_, hseed.diff⟩
  rw [lookup_addExtraPrevouts, ← hseed.available op]
  cases hop : ((txOutputs C coinbase).foldl ValidationState.create
      ⟨chainUtxos, some .empty, ∅⟩).availablePrevouts.lookup op with
  | some txout => rfl
  | none =>
      cases hex : extraPrevouts.lookup op with
      | none => rfl
      | some txout => simp [hextra op txout hex]

/-- After the transactions `done` of a block, the P2MR outputs available are those of the replay. -/
theorem validateBlockTransactions_tracks (htx : block.txdata = coinbase :: txs)
    {done rest : List Transaction} (hdone : done ++ rest = txs) {timer : Timer} {st : BlockState}
    (hok : done.foldlM (validateBlockTransaction C clock height activation chainUtxos)
      ⟨startValidation C block chainUtxos extraPrevouts, timer⟩ = .ok st) :
    st.validation.Tracks T (replayTxs C T (coinbase :: done)) (outpoints C (coinbase :: done)) := by
  induction done using List.reverseRecOn generalizing st rest with
  | nil =>
      obtain rfl : _ = st := by simpa [pure, Except.pure] using hok
      exact hon.startValidation_tracks hchain hextra htx
  | append_singleton done tx ih =>
      obtain ⟨before, hbefore, hstep⟩ := Except.foldlM_concat_ok_iff.mp hok
      have htracks := ih (by simpa using hdone) hbefore
      obtain ⟨_, -, hst⟩ := Except.bind_eq_ok_iff.mp hstep
      obtain rfl : _ = st := by simpa using hst
      have hsplit : block.txdata = (coinbase :: done ++ [tx]) ++ rest := by
        rw [htx, ← hdone]; simp
      have hnew : (outpoints C (coinbase :: done ++ [tx])).Nodup := by
        have hnodup := hon.nodup
        rw [hsplit, outpoints_append] at hnodup
        exact hnodup.of_append_left
      have hfresh : ∀ e ∈ txOutputs C tx, T e.1 = none := fun e he =>
        hon.fresh _ (mem_outpoints.mpr ⟨tx, by rw [hsplit]; simp, e, he, rfl⟩)
      have := htracks.applyTx hfresh hnew
      have hmoves : replayTxs C T (coinbase :: (done ++ [tx])) =
          (txMoves C tx).foldl Move.act (replayTxs C T (coinbase :: done)) := by
        rw [← List.cons_append, replayTxs_append]
        simp [replayTxs]
      rw [hmoves]
      exact this

/-- The diff of a block turns the outputs of its chain into those of the longer chain. -/
theorem validateAndDiff_leads (htx : block.txdata = coinbase :: txs) {diff : P2mrUtxoBlockDiff}
    (hok : validateAndDiffBlockTransactions C clock block height activation chainUtxos extraPrevouts
      budget = .ok diff) :
    diff.Leads T (replayTxs C T block.txdata) (outpoints C block.txdata) := by
  unfold validateAndDiffBlockTransactions at hok
  split at hok
  · obtain rfl : computeBlockDiff C block chainUtxos = diff := by simpa using hok
    exact hon.computeBlockDiff_leads hchain
  · obtain ⟨st, hst, hdiff⟩ := Except.bind_eq_ok_iff.mp hok
    rw [htx, List.drop_one, List.tail_cons] at hst
    have htracks := hon.validateBlockTransactions_tracks hchain hextra htx (List.append_nil txs) hst
    obtain ⟨diff', hdiff', hleads⟩ := htracks.diff
    obtain rfl : diff' = diff := by simpa [hdiff'] using hdiff
    rw [htx]
    exact hleads

end BlockOn

end

end Bip360Enforcer.Pqc
