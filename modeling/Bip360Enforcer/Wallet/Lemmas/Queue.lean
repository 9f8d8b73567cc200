import Bip360Enforcer.Pqc.Lemmas.Spent
import Bip360Enforcer.Validator.Lemmas.Live
import Bip360Enforcer.Wallet.Spend

/-!
# What the wallet's calls do to the queue and to the P2MR outputs
-/

namespace Bip360Enforcer

open Except (bind_eq_ok_iff mapError_eq_ok_iff)
open Pqc (P2mrUtxoBlockDiff Signers blockInputs)
open Program (wp)

/-- The outpoints that a transaction spends. -/
def Transaction.spends (tx : Transaction) : List OutPoint := tx.input.map TxIn.previousOutput

variable {C : Crypto}

/-! ## P2MR outputs -/

namespace Validator

variable {utxos : PrevoutMap} {diff : P2mrUtxoBlockDiff} {op : OutPoint}

theorem mem_appliedUtxos (h : op ∈ utxos) (hspent : op ∉ diff.spent) : op ∈ appliedUtxos diff utxos := by
  have hlookup := congrFun (lookup_appliedUtxos diff utxos) op
  have hremoved : diff.table.removed op = none := AList.lookup_eq_none.mpr hspent
  rw [← AList.lookup_isSome] at h ⊢
  rw [hlookup, TableDiff.apply, hremoved, Option.isSome_or, Option.elim_none, h, Bool.or_true]

theorem mem_undoneUtxos (h : op ∈ utxos) (hcreated : op ∈ diff.created → op ∈ diff.spent) :
    op ∈ undoneUtxos diff utxos := by
  have hlookup := congrFun (lookup_undoneUtxos diff utxos) op
  rw [← AList.lookup_isSome] at h ⊢
  rw [hlookup, TableDiff.undo, Option.isSome_or]
  by_cases hin : op ∈ diff.created
  · have hremoved : (diff.table.removed op).isSome = true := AList.lookup_isSome.mpr (hcreated hin)
    rw [hremoved, Bool.true_or]
  · have hadded : diff.table.added op = none := AList.lookup_eq_none.mpr hin
    rw [hadded, Option.elim_none, h, Bool.or_true]

/-- The block has taken out of the P2MR outputs only what its transactions spend. -/
def SpentBy (block : Block) (utxos utxos' : PrevoutMap) : Prop :=
  ∀ op ∈ utxos, op ∉ blockInputs block → op ∈ utxos'

theorem Connects.spentBy {handler : BlockHandler} {block : Block} {dbs dbs' : Dbs} {height work : Nat}
    {coinbase : Transaction} {txs : List Transaction} {diff : P2mrUtxoBlockDiff} {header : Header}
    (h : Connects C handler block dbs dbs' height coinbase txs diff header work) :
    SpentBy block dbs.p2mrUtxos dbs'.p2mrUtxos := by
  intro op hop hnotin
  have hspent : op ∉ diff.spent := fun hin => hnotin (Pqc.validateAndDiff_spendsOf h.valid op hin)
  obtain ⟨recorded, tipWork, rfl, -, rfl⟩ := h.recorded
  split
  · exact mem_appliedUtxos hop hspent
  · exact mem_appliedUtxos hop hspent

theorem connectBlock_spentBy {validator : Validator} {block : Block} {s : Store} :
    wp (validator.connectBlock C block)
      (fun action t => match action with
        | .accept => SpentBy block s.dbs.p2mrUtxos t.dbs.p2mrUtxos
        | .reject => t.dbs.p2mrUtxos = s.dbs.p2mrUtxos)
      (fun _ t => t.dbs.p2mrUtxos = s.dbs.p2mrUtxos) s := by
  refine connectBlock_wp.mono ?_ fun _ t h => congrArg Dbs.p2mrUtxos h.dbs
  rintro action t ⟨extra, -, -, -, hpost⟩
  cases action with
  | reject => exact hpost.1.p2mrUtxos_eq
  | accept =>
      obtain ⟨event, u, v, haccepted, -⟩ := hpost
      obtain ⟨-, height, coinbase, txs, diff, header, work, hconnects, -⟩ :=
        (connectBlock_spec fun _ h => h).ok haccepted.run
      rw [haccepted.result, ← haccepted.header.p2mrUtxos_eq]
      exact hconnects.spentBy

theorem syncConnectBlock_spentBy {handler : BlockHandler} {block : Block} {s : Store} :
    wp (transaction (handler.connectBlock C block))
      (fun _ t => SpentBy block s.dbs.p2mrUtxos t.dbs.p2mrUtxos)
      (fun _ t => t.dbs.p2mrUtxos = s.dbs.p2mrUtxos) s := by
  refine wp_transaction (fun _ => rfl) ?_
  have hconnect : Spec (handler.connectBlock C block) s.next.begin.dbs _ _ fun _ => True :=
    connectBlock_spec fun _ _ => trivial
  refine (hconnect _ rfl).mono ?_ fun _ _ _ => rfl
  rintro - t ⟨-, height, coinbase, txs, diff, header, work, hconnects, -⟩
  exact hconnects.spentBy

/-- The disconnected block has taken out of the P2MR outputs only what it had created. -/
def CreatedBy (blockHash : BlockHash) (dbs : Dbs) (utxos' : PrevoutMap) : Prop :=
  ∀ op ∈ dbs.p2mrUtxos, (∀ diff, dbs.diff.lookup blockHash = some diff →
    op ∈ diff.created → op ∈ diff.spent) → op ∈ utxos'

theorem Disconnects.createdBy {blockHash : BlockHash} {dbs dbs' : Dbs} {diff : P2mrUtxoBlockDiff}
    {header : Header} (h : Disconnects blockHash dbs dbs' diff header) :
    CreatedBy blockHash dbs dbs'.p2mrUtxos := by
  intro op hop hcreated
  rw [h.result]
  exact mem_undoneUtxos hop (hcreated diff h.hasDiff)

theorem disconnectBlock_createdBy {blockHash : BlockHash} {s : Store} :
    wp (Validator.disconnectBlock C blockHash) (fun _ t => CreatedBy blockHash s.dbs t.dbs.p2mrUtxos)
      (fun _ t => t.dbs.p2mrUtxos = s.dbs.p2mrUtxos) s := by
  refine disconnectBlock_live_wp.mono ?_ fun _ t h => congrArg Dbs.p2mrUtxos h.2.2.1
  rintro - t ⟨-, -, ⟨-, hdbs, -⟩ | ⟨diff, header, hdisconnects, -⟩⟩
  · rw [hdbs]
    exact fun op hop _ => hop
  · exact hdisconnects.createdBy

theorem syncDisconnectBlock_createdBy {blockHash : BlockHash} {s : Store} :
    wp (transaction (BlockHandler.disconnectBlock C blockHash))
      (fun _ t => CreatedBy blockHash s.dbs t.dbs.p2mrUtxos)
      (fun _ t => t.dbs.p2mrUtxos = s.dbs.p2mrUtxos) s := by
  refine wp_transaction (fun _ => rfl) (disconnectBlock_wp.mono ?_ fun _ _ _ => rfl)
  rintro - t (⟨-, -, hdbs⟩ | ⟨diff, header, u, hdisconnects, -, rfl⟩)
  · intro op hop _
    exact hdbs ▸ hop
  · exact hdisconnects.createdBy

end Validator

/-! ## Prepared spends -/

namespace Wallet

variable {S : Signers} {record : P2mrAddressRecord} {outpoint : OutPoint} {prevout : TxOut}
  {outputs : List TxOut} {sighashType : TapSighashType} {tx : Transaction}

theorem spends_buildP2mrSpend {algorithm : Pqc.SignAlgorithm} {entropy : Bytes}
    (h : Pqc.buildP2mrSpendFromPrevout C S algorithm entropy sighashType outpoint prevout outputs = .ok tx) :
    tx.spends = [outpoint] := by
  simp only [Pqc.buildP2mrSpendFromPrevout, Pqc.signP2mrSpendCore, bind_eq_ok_iff, Except.ok.injEq] at h
  obtain ⟨_, -, _, ⟨_, -, _, -, _, -, _, -, rfl⟩, rfl⟩ := h
  rfl

theorem spends_buildHybridEcSlhSpend {ec slh : Bytes}
    (h : Pqc.buildHybridEcSlhSpendFromPrevout C S ec slh sighashType outpoint prevout outputs = .ok tx) :
    tx.spends = [outpoint] := by
  simp only [Pqc.buildHybridEcSlhSpendFromPrevout, bind_eq_ok_iff, Except.ok.injEq] at h
  obtain ⟨_, -, _, -, _, -, _, -, _, -, _, -, _, -, rfl⟩ := h
  rfl

theorem spends_buildSpend (h : record.buildSpend C S outpoint prevout outputs sighashType = .ok tx) :
    tx.spends = [outpoint] := by
  rcases P2mrAddressRecord.buildSpend_cases h with ⟨algorithm, -, h⟩ | ⟨ec, slh, -, h⟩
  · exact spends_buildP2mrSpend h
  · exact spends_buildHybridEcSlhSpend h

/-- Neither the P2MR outputs nor the queue have changed. -/
structure SameQueue (w w' : Wallet C) : Prop where
  utxos : w'.producer.store.dbs.p2mrUtxos = w.producer.store.dbs.p2mrUtxos
  pending : w'.producer.pending = w.producer.pending

theorem SameQueue.refl (w : Wallet C) : SameQueue w w := ⟨rfl, rfl⟩

theorem SameQueue.of_producer {w w' : Wallet C} (h : w'.producer = w.producer) : SameQueue w w' :=
  ⟨congrArg (fun producer => producer.store.dbs.p2mrUtxos) h, congrArg BlockProducer.pending h⟩

theorem onP2mrStore_producer {α : Type} {x : P2mrM α} {w : Wallet C} :
    wp (onP2mrStore x) (fun _ w' => w'.producer = w.producer) (fun _ w' => w'.producer = w.producer) w := by
  rw [onP2mrStore, Program.wp_focus]
  exact (Program.wp_self _ _).mono (fun _ _ _ => rfl) fun _ _ _ => rfl

variable {request : SpendRequest} {json : P2mrJson} {entropy : Option Bytes} {w : Wallet C}

theorem findPrevout_wp :
    wp (findPrevout request)
      (fun prevout w' => SameQueue w w' ∧
        w.producer.store.dbs.p2mrUtxos.lookup request.outpoint = some prevout)
      (fun _ w' => SameQueue w w') w := by
  simp only [findPrevout, onProducer, BlockProducer.getP2mrUtxo, BlockProducer.onStore, Program.wp_focus,
    Program.wp_mapError, Program.wp_bind, Validator.wp_read, Program.wp_pure]
  refine ⟨fun _ => ⟨rfl, rfl⟩, fun _ => ?_⟩
  cases hlookup : w.producer.store.dbs.p2mrUtxos.lookup request.outpoint with
  | none => exact ⟨rfl, rfl⟩
  | some prevout => exact ⟨⟨rfl, rfl⟩, rfl⟩

theorem planOwnSpend_wp {isDust : Amount → Script → Bool} :
    wp (planOwnSpend json isDust request prevout) (fun _ w' => SameQueue w w')
      (fun _ w' => SameQueue w w') w := by
  rw [planOwnSpend, Program.wp_bind, Program.wp_mapError]
  apply onP2mrStore_producer.mono
  · intro found w' hproducer
    cases found with
    | none => exact .of_producer hproducer
    | some record =>
        rw [Program.wp_bind, Program.wp_ofExcept]
        exact ⟨fun _ _ => .of_producer hproducer, fun _ _ => .of_producer hproducer⟩
  · exact fun _ _ => .of_producer

theorem signSpend_wp {plan : SpendPlan} :
    wp (signSpend S json request prevout record plan entropy)
      (fun spend w' => SameQueue w w' ∧ spend.tx.spends = [request.outpoint])
      (fun _ w' => SameQueue w w') w := by
  have houtputs : wp (spendOutputs S json request plan record.scheme entropy)
      (fun _ w' => SameQueue w w') (fun _ w' => SameQueue w w') w := by
    rw [spendOutputs]
    cases plan.change with
    | none => exact .refl w
    | some change =>
        rw [Program.wp_bind, Program.wp_mapError]
        apply onP2mrStore_producer.mono
        · exact fun _ _ => .of_producer
        · exact fun _ _ => .of_producer
  rw [signSpend, Program.wp_bind]
  apply houtputs.mono
  · rintro ⟨outputs, changeAddress⟩ w' hsame
    simp only [Program.wp_bind, Program.wp_ofExcept, Program.wp_pure]
    exact ⟨fun tx htx => ⟨hsame, spends_buildSpend (mapError_eq_ok_iff.mp htx)⟩, fun _ _ => hsame⟩
  · exact fun _ _ hsame => hsame

end Wallet

end Bip360Enforcer
