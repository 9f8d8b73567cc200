import Bip360Enforcer.BlockProducer.Theorems.Template
import Bip360Enforcer.Validator.Theorems.Ledger
import Bip360Enforcer.Wallet.Lemmas.Queue
import Bip360Enforcer.Wallet.Session
import Bip360Enforcer.Wallet.Theorems.P2mrFile

/-!
# Whether the queued spends can be mined together
-/

namespace Bip360Enforcer.Wallet

open Pqc (Signers blockInputs)
open Program (wp)

/-- No output is spent twice, and every output spent is one of `utxos`. -/
structure Minable (utxos : PrevoutMap) (txs : List Transaction) : Prop where
  disjoint : (txs.flatMap Transaction.spends).Nodup
  unspent : ∀ tx ∈ txs, ∀ op ∈ tx.spends, op ∈ utxos

section

variable {C : Crypto}

/-- The stored diff of the block creates no output that the queue spends. -/
def KeepsFunding (w : Wallet C) (blockHash : BlockHash) : Prop :=
  ∀ diff ∈ w.producer.store.dbs.diff.lookup blockHash,
    ∀ tx ∈ w.producer.pending.transactions, ∀ op ∈ tx.spends, op ∈ diff.created → op ∈ diff.spent

/-- What the transaction spends is there, and no other txid of the queue spends it. -/
def IsFree (w : Wallet C) (tx : Transaction) : Prop :=
  ∀ op ∈ tx.spends, op ∈ w.producer.store.dbs.p2mrUtxos ∧
    ∀ tx' ∈ w.producer.pending.transactions, C.computeTxid tx' ≠ C.computeTxid tx → op ∉ tx'.spends

/-- A call that is about to queue its spend queues a free one. -/
def CallStage.IsFree (w : Wallet C) : CallStage → Prop
  | found _ _ => True
  | planned _ _ _ _ => True
  | prepared spend => Wallet.IsFree w spend.tx
  | accepted _ => True

/-- The transaction is in the block that the call has to reap. -/
def CallStage.Mines (C : Crypto) (tx : Transaction) : CallStage → Prop
  | found _ _ => False
  | planned _ _ _ _ => False
  | prepared _ => False
  | accepted block => C.computeTxid tx ∈ block.txdata.map C.computeTxid

/-- An accepted block has the transaction in it and has not been reaped yet. -/
def Session.Mined (s : Session C) (tx : Transaction) : Prop := ∃ stage ∈ s.calls, stage.Mines C tx

/-- If the action succeeds, it does not touch what the queue spends: a spend that is queued has its outputs
for itself, unspent (or replaces the spend of its txid), a connected block spends no output of a spend that
stays in the queue, and a disconnected one has created none. -/
def Action.Harmless (validator : Validator) (s : Session C) : Action → Prop
  | createP2mrAddress _ _ => True
  | spendP2mr _ => True
  | advance n _ => ∀ stage ∈ s.calls[n]?, stage.IsFree s.wallet
  | connectBlock block =>
      (validator.connectBlock C block s.wallet.producer.store).1 = .ok .accept →
      ∀ tx ∈ s.wallet.producer.pending.transactions, C.computeTxid tx ∉ block.txdata.map C.computeTxid →
        ∀ op ∈ tx.spends, op ∉ blockInputs block
  | syncConnectBlock block =>
      (BlockProducer.syncConnectBlock validator block s.wallet.producer).1.isOk = true →
      ∀ tx ∈ s.wallet.producer.pending.transactions, ∀ op ∈ tx.spends, op ∉ blockInputs block
  | disconnectBlock blockHash =>
      (BlockProducer.disconnectBlock blockHash s.wallet.producer).1.isOk = true →
      KeepsFunding s.wallet blockHash
  | syncDisconnectBlock blockHash =>
      (BlockProducer.syncDisconnectBlock blockHash s.wallet.producer).1.isOk = true →
      KeepsFunding s.wallet blockHash

instance (w : Wallet C) (blockHash : BlockHash) : Decidable (KeepsFunding w blockHash) :=
  inferInstanceAs (Decidable (∀ diff ∈ w.producer.store.dbs.diff.lookup blockHash, _))

instance (w : Wallet C) (tx : Transaction) : Decidable (IsFree w tx) :=
  inferInstanceAs (Decidable (∀ op ∈ tx.spends, _ ∧ _))

instance (w : Wallet C) : (stage : CallStage) → Decidable (stage.IsFree w)
  | .found _ _ => isTrue trivial
  | .planned _ _ _ _ => isTrue trivial
  | .prepared spend => inferInstanceAs (Decidable (IsFree w spend.tx))
  | .accepted _ => isTrue trivial

instance (tx : Transaction) : (stage : CallStage) → Decidable (stage.Mines C tx)
  | .found _ _ => isFalse id
  | .planned _ _ _ _ => isFalse id
  | .prepared _ => isFalse id
  | .accepted block => inferInstanceAs (Decidable (C.computeTxid tx ∈ block.txdata.map C.computeTxid))

instance (s : Session C) (tx : Transaction) : Decidable (s.Mined tx) :=
  inferInstanceAs (Decidable (∃ stage ∈ s.calls, stage.Mines C tx))

instance (validator : Validator) (s : Session C) : (action : Action) →
    Decidable (action.Harmless validator s)
  | .createP2mrAddress _ _ => isTrue trivial
  | .spendP2mr _ => isTrue trivial
  | .advance n _ => inferInstanceAs (Decidable (∀ stage ∈ s.calls[n]?, stage.IsFree s.wallet))
  | .connectBlock _ => inferInstanceAs (Decidable (_ → ∀ tx ∈ s.wallet.producer.pending.transactions, _))
  | .syncConnectBlock _ =>
      inferInstanceAs (Decidable (_ → ∀ tx ∈ s.wallet.producer.pending.transactions, _))
  | .disconnectBlock blockHash => inferInstanceAs (Decidable (_ → KeepsFunding s.wallet blockHash))
  | .syncDisconnectBlock blockHash => inferInstanceAs (Decidable (_ → KeepsFunding s.wallet blockHash))

end

variable {C : Crypto} {S : Signers} {json : P2mrJson} {isDust : Amount → Script → Bool}
  {validator : Validator} {w w' : Wallet C} {s : Session C}

/-! ## The queue -/

/-- The queue is minable on the P2MR outputs of the validator, but for what has been `mined` and is to be
reaped. -/
structure Queued (mined : Transaction → Prop) (w : Wallet C) : Prop where
  own : ∀ tx ∈ w.producer.pending.transactions, tx.spends.Nodup
  apart : ∀ tx ∈ w.producer.pending.transactions, ∀ tx' ∈ w.producer.pending.transactions,
    ∀ op ∈ tx.spends, op ∈ tx'.spends → tx = tx'
  unspent : ∀ tx ∈ w.producer.pending.transactions, ¬ mined tx → ∀ op ∈ tx.spends,
    op ∈ w.producer.store.dbs.p2mrUtxos

namespace Queued

variable {mined mined' : Transaction → Prop}

theorem empty (h : w.producer.pending = .empty) : Queued mined w := by
  constructor <;> simp [h]

theorem minable [DecidablePred mined] (h : Queued mined w) (template : FilledBlockTemplate) :
    Minable w.producer.store.dbs.p2mrUtxos
      ((appendedTransactions w.producer.pending template).filter fun tx => ¬ mined tx) := by
  rw [appendedTransactions_eq]
  have hin : ∀ tx ∈ w.producer.pending.transactions.filter fun tx => ¬ mined tx,
      tx ∈ w.producer.pending.transactions ∧ ¬ mined tx := by
    intro tx htx
    simpa using htx
  refine ⟨List.nodup_flatMap.mpr ⟨fun tx htx => h.own tx (hin tx htx).1, ?_⟩,
    fun tx htx => h.unspent tx (hin tx htx).1 (hin tx htx).2⟩
  refine (PendingP2mrSpends.transactions_nodup.filter _).pairwise_of_forall_ne ?_
  intro tx htx tx' htx' hne op hop hop'
  exact hne (h.apart tx (hin tx htx).1 tx' (hin tx' htx').1 op hop hop')

/-- Fewer spends, and none of the outputs that these need are lost. -/
theorem shrink (h : Queued mined w)
    (hpending : ∀ tx ∈ w'.producer.pending.transactions, tx ∈ w.producer.pending.transactions)
    (hmined : ∀ tx ∈ w'.producer.pending.transactions, mined tx → mined' tx)
    (hunspent : ∀ tx ∈ w'.producer.pending.transactions, ¬ mined' tx → ∀ op ∈ tx.spends,
      op ∈ w.producer.store.dbs.p2mrUtxos → op ∈ w'.producer.store.dbs.p2mrUtxos) : Queued mined' w' where
  own tx htx := h.own tx (hpending tx htx)
  apart tx htx tx' htx' := h.apart tx (hpending tx htx) tx' (hpending tx' htx')
  unspent tx htx hnot op hop :=
    hunspent tx htx hnot op hop (h.unspent tx (hpending tx htx) (mt (hmined tx htx) hnot) op hop)

theorem sameQueue (h : Queued mined w) (hsame : SameQueue w w') (hmined : ∀ tx, mined tx → mined' tx) :
    Queued mined' w' := by
  refine h.shrink ?_ (fun tx _ => hmined tx) ?_
  · rw [hsame.pending]
    exact fun _ htx => htx
  · rw [hsame.utxos]
    exact fun _ _ _ _ _ hop => hop

theorem enqueue (h : Queued mined w) {tx : Transaction} {fee : Amount} (hown : tx.spends.Nodup)
    (hfree : IsFree w tx) (hpending : w'.producer.pending = (w.producer.pending.enqueueP2mrSpend tx fee).1)
    (hutxos : w'.producer.store.dbs.p2mrUtxos = w.producer.store.dbs.p2mrUtxos)
    (hmined : ∀ tx, mined tx → mined' tx) : Queued mined' w' := by
  -- A spend in the queue is the new one, or an old one with another txid.
  have hcases : ∀ tx' ∈ w'.producer.pending.transactions, tx' = tx ∨
      (tx' ∈ w.producer.pending.transactions ∧ ∀ op ∈ tx.spends, op ∉ tx'.spends) := by
    intro tx' htx'
    rw [hpending, PendingP2mrSpends.mem_enqueueP2mrSpend] at htx'
    split at htx'
    · exact .inl htx'
    · rename_i hid
      exact .inr ⟨htx', fun op hop => (hfree op hop).2 tx' htx' hid⟩
  constructor
  · intro tx' htx'
    rcases hcases tx' htx' with rfl | ⟨hold, -⟩
    · exact hown
    · exact h.own tx' hold
  · intro tx₁ htx₁ tx₂ htx₂ op hop₁ hop₂
    rcases hcases tx₁ htx₁ with rfl | ⟨hold₁, hapart₁⟩ <;>
      rcases hcases tx₂ htx₂ with rfl | ⟨hold₂, hapart₂⟩
    · rfl
    · exact absurd hop₂ (hapart₂ op hop₁)
    · exact absurd hop₁ (hapart₁ op hop₂)
    · exact h.apart tx₁ hold₁ tx₂ hold₂ op hop₁ hop₂
  · intro tx' htx' hnot op hop
    rw [hutxos]
    rcases hcases tx' htx' with rfl | ⟨hold, -⟩
    · exact (hfree op hop).1
    · exact h.unspent tx' hold (mt (hmined tx') hnot) op hop

/-- What a block has mined leaves the queue. -/
theorem reap {block : Block} (h : Queued mined w)
    (hpending : w'.producer.pending = w.producer.pending.reapConfirmedP2mrSpends block)
    (hutxos : w'.producer.store.dbs.p2mrUtxos = w.producer.store.dbs.p2mrUtxos)
    (hmined : ∀ tx, mined tx → C.computeTxid tx ∉ block.txdata.map C.computeTxid → mined' tx) :
    Queued mined' w' := by
  refine h.shrink ?_ ?_ ?_
  · rw [hpending]
    exact fun tx htx => (PendingP2mrSpends.mem_reapConfirmedP2mrSpends.mp htx).2
  · rw [hpending]
    exact fun tx htx hin => hmined tx hin (PendingP2mrSpends.mem_reapConfirmedP2mrSpends.mp htx).1
  · rw [hutxos]
    exact fun _ _ _ _ _ hop => hop

/-- A block that is accepted spends only what its own transactions among the queued ones spend. -/
theorem connectBlock {block : Block} (h : Queued mined w)
    (hblock : (validator.connectBlock C block w.producer.store).1 = .ok .accept →
      ∀ tx ∈ w.producer.pending.transactions, C.computeTxid tx ∉ block.txdata.map C.computeTxid →
        ∀ op ∈ tx.spends, op ∉ blockInputs block) :
    wp (onProducer (BlockProducer.connectBlockValidator validator block))
      (fun action w' => match action with
        | .accept => ∀ mined', (∀ tx, mined tx → mined' tx) →
            (∀ tx, C.computeTxid tx ∈ block.txdata.map C.computeTxid → mined' tx) → Queued mined' w'
        | .reject => Queued mined w')
      (fun _ => Queued mined) w := by
  simp only [onProducer, BlockProducer.connectBlockValidator, BlockProducer.onStore, Program.wp_focus]
  refine (Validator.connectBlock_spentBy.and (Program.wp_self _ _)).mono ?_ ?_
  · rintro action t ⟨hspent, hrun⟩
    cases action with
    | reject => exact h.sameQueue ⟨hspent, rfl⟩ fun _ hin => hin
    | accept =>
        have haccept : (validator.connectBlock C block w.producer.store).1 = .ok .accept := by rw [hrun]
        intro mined' hold hnew
        refine h.shrink (fun _ htx => htx) (fun tx _ => hold tx) fun tx htx hnot op hop hin => ?_
        exact hspent op hin (hblock haccept tx htx (mt (hnew tx) hnot) op hop)
  · rintro e t ⟨hutxos, -⟩
    exact h.sameQueue ⟨hutxos, rfl⟩ fun _ hin => hin

/-- A call to the validator alone, which loses no output that the queue spends. -/
theorem onStore {ε α : Type} {x : Validator.Db ε α} (h : Queued mined w)
    (hx : wp x
      (fun _ t => ∀ tx ∈ w.producer.pending.transactions, ∀ op ∈ tx.spends,
        op ∈ w.producer.store.dbs.p2mrUtxos → op ∈ t.dbs.p2mrUtxos)
      (fun _ t => t.dbs.p2mrUtxos = w.producer.store.dbs.p2mrUtxos) w.producer.store) :
    wp (onProducer (BlockProducer.onStore x)) (fun _ => Queued mined) (fun _ => Queued mined) w := by
  simp only [onProducer, BlockProducer.onStore, Program.wp_focus]
  refine hx.mono ?_ ?_
  · intro a t ht
    exact h.shrink (fun _ htx => htx) (fun _ _ hin => hin) fun tx htx _ => ht tx htx
  · intro e t hutxos
    exact h.sameQueue ⟨hutxos, rfl⟩ fun _ hin => hin

theorem disconnectBlock {blockHash : BlockHash} (h : Queued mined w)
    (hkeeps : (BlockProducer.disconnectBlock blockHash w.producer).1.isOk = true →
      KeepsFunding w blockHash) :
    wp (onProducer (BlockProducer.disconnectBlock blockHash)) (fun _ => Queued mined)
      (fun _ => Queued mined) w := by
  refine h.onStore ((Validator.disconnectBlock_createdBy.and (Program.wp_self _ _)).mono ?_ fun _ _ => And.left)
  rintro a t ⟨hcreated, hrun⟩ tx htx op hop hin
  have hok : (BlockProducer.disconnectBlock blockHash w.producer).1.isOk = true :=
    congrArg (fun outcome => outcome.1.isOk) hrun
  exact hcreated op hin fun diff hdiff => hkeeps hok diff hdiff tx htx op hop

theorem syncDisconnectBlock {blockHash : BlockHash} (h : Queued mined w)
    (hkeeps : (BlockProducer.syncDisconnectBlock blockHash w.producer).1.isOk = true →
      KeepsFunding w blockHash) :
    wp (onProducer (BlockProducer.syncDisconnectBlock blockHash)) (fun _ => Queued mined)
      (fun _ => Queued mined) w := by
  refine h.onStore ((Validator.syncDisconnectBlock_createdBy.and (Program.wp_self _ _)).mono ?_
    fun _ _ => And.left)
  rintro a t ⟨hcreated, hrun⟩ tx htx op hop hin
  have hok : (BlockProducer.syncDisconnectBlock blockHash w.producer).1.isOk = true :=
    congrArg (fun outcome => outcome.1.isOk) hrun
  exact hcreated op hin fun diff hdiff => hkeeps hok diff hdiff tx htx op hop

theorem syncConnectBlock {block : Block} (h : Queued mined w)
    (hblock : (BlockProducer.syncConnectBlock validator block w.producer).1.isOk = true →
      ∀ tx ∈ w.producer.pending.transactions, ∀ op ∈ tx.spends, op ∉ blockInputs block) :
    wp (onProducer (BlockProducer.syncConnectBlock validator block)) (fun _ => Queued mined)
      (fun _ => Queued mined) w := by
  refine h.onStore ?_
  rw [Program.wp_bind]
  refine (Validator.syncConnectBlock_spentBy.and (Program.wp_self _ _)).mono ?_ fun _ _ => And.left
  rintro event t ⟨hspent, hrun⟩ tx htx op hop hin
  have hok : (BlockProducer.syncConnectBlock validator block w.producer).1.isOk = true := by
    simp only [BlockProducer.syncConnectBlock, BlockProducer.onStore, Program.focus, Program.bind_apply, hrun]
    rfl
  exact hspent op hin (hblock hok tx htx op hop)

end Queued

/-! ## Steps -/

/-- The queue is minable, and so is each prepared spend by itself. -/
structure Session.Ready (s : Session C) : Prop where
  queued : Queued s.Mined s.wallet
  prepared : ∀ spend, .prepared spend ∈ s.calls → spend.tx.spends.Nodup

namespace Session.Ready

theorem onWallet {ε α : Type} {x : Program (Wallet C) ε α} (h : s.Ready)
    (hx : wp x (fun _ => Queued s.Mined) (fun _ => Queued s.Mined) s.wallet) : (s.onWallet x).Ready :=
  ⟨hx.either rfl, h.prepared⟩

/-- Nothing that is to be reaped is forgotten where a call is added. -/
theorem mined_append {w' : Wallet C} {stages : List CallStage} {tx : Transaction} (h : s.Mined tx) :
    (⟨w', s.calls ++ stages⟩ : Session C).Mined tx := by
  obtain ⟨stage, hin, hmines⟩ := h
  exact ⟨stage, List.mem_append_left _ hin, hmines⟩

theorem beginSpend (request : SpendRequest) (h : s.Ready) : (s.beginSpend request).Ready := by
  have hfound : wp (findPrevout request) (fun _ => SameQueue s.wallet) (fun _ => SameQueue s.wallet)
      s.wallet := findPrevout_wp.mono (fun _ _ h => h.1) fun _ _ h => h
  rw [Session.beginSpend]
  rcases hrun : findPrevout request s.wallet with ⟨outcome, wallet⟩
  have hsame := hfound.either hrun
  cases outcome with
  | error e => exact ⟨h.queued.sameQueue hsame fun _ hin => hin, h.prepared⟩
  | ok prevout =>
      refine ⟨h.queued.sameQueue hsame fun _ => mined_append, fun spend hin => ?_⟩
      rcases List.mem_append.mp hin with hin | hin
      · exact h.prepared spend hin
      · cases List.mem_singleton.mp hin

theorem beginConnect {block : Block} (h : s.Ready)
    (hblock : (validator.connectBlock C block s.wallet.producer.store).1 = .ok .accept →
      ∀ tx ∈ s.wallet.producer.pending.transactions,
        C.computeTxid tx ∉ block.txdata.map C.computeTxid → ∀ op ∈ tx.spends, op ∉ blockInputs block) :
    (s.beginConnect validator block).Ready := by
  have hconnect := h.queued.connectBlock hblock
  rw [Session.beginConnect]
  rcases hrun : onProducer (BlockProducer.connectBlockValidator validator block) s.wallet with
    ⟨outcome, wallet⟩
  cases outcome with
  | error e => exact ⟨hconnect.error hrun, h.prepared⟩
  | ok action =>
      have hqueued := hconnect.ok hrun
      cases action with
      | reject => exact ⟨hqueued, h.prepared⟩
      | accept =>
          refine ⟨hqueued _ (fun _ => mined_append) fun tx hin => ?_, fun spend hin => ?_⟩
          · exact ⟨.accepted block, List.mem_append_right _ (List.mem_singleton_self _), hin⟩
          · rcases List.mem_append.mp hin with hin | hin
            · exact h.prepared spend hin
            · cases List.mem_singleton.mp hin

/-- What has been mined is still to be reaped by another call, unless the block of this call has it. -/
theorem mined_elsewhere {n : Nat} {stage : CallStage} {tx : Transaction} (hget : s.calls[n]? = some stage)
    (h : s.Mined tx) (hnot : ¬ stage.Mines C tx) :
    ∃ i other, i ≠ n ∧ s.calls[i]? = some other ∧ other.Mines C tx := by
  obtain ⟨other, hin, hmines⟩ := h
  obtain ⟨i, hi⟩ := List.getElem?_of_mem hin
  refine ⟨i, other, ?_, hi, hmines⟩
  rintro rfl
  obtain rfl := Option.some.inj (hi.symm.trans hget)
  exact hnot hmines

theorem mined_eraseIdx {n : Nat} {stage : CallStage} {w' : Wallet C} {tx : Transaction}
    (hget : s.calls[n]? = some stage) (h : s.Mined tx) (hnot : ¬ stage.Mines C tx) :
    (⟨w', s.calls.eraseIdx n⟩ : Session C).Mined tx := by
  obtain ⟨i, other, hne, hi, hmines⟩ := mined_elsewhere hget h hnot
  exact ⟨other, List.mem_eraseIdx_iff_getElem?.mpr ⟨i, hne, hi⟩, hmines⟩

theorem mined_set {n : Nat} {stage next : CallStage} {w' : Wallet C} {tx : Transaction}
    (hget : s.calls[n]? = some stage) (h : s.Mined tx) (hnot : ¬ stage.Mines C tx) :
    (⟨w', s.calls.set n next⟩ : Session C).Mined tx := by
  obtain ⟨i, other, hne, hi, hmines⟩ := mined_elsewhere hget h hnot
  exact ⟨other, List.mem_of_getElem? ((List.getElem?_set_ne hne.symm).trans hi), hmines⟩

/-- What a part of a call keeps. -/
theorem stage {mined mined' : Transaction → Prop} {stage : CallStage} {entropy : Option Bytes}
    (h : Queued mined w) (hown : ∀ spend, stage = .prepared spend → spend.tx.spends.Nodup)
    (hfree : stage.IsFree w) (hmined : ∀ tx, mined tx → ¬ stage.Mines C tx → mined' tx) :
    wp (stage.advance S json isDust entropy)
      (fun next w' => Queued mined' w' ∧ ∀ spend, next = some (.prepared spend) → spend.tx.spends.Nodup)
      (fun _ => Queued mined') w := by
  cases stage with
  | found request prevout =>
      have hkept : ∀ tx, mined tx → mined' tx := fun tx hin => hmined tx hin id
      rw [CallStage.advance, Program.wp_bind]
      refine planOwnSpend_wp.mono ?_ fun _ _ hsame => h.sameQueue hsame hkept
      exact fun _ _ hsame => ⟨h.sameQueue hsame hkept, by rintro _ ⟨⟩⟩
  | planned request prevout record plan =>
      have hkept : ∀ tx, mined tx → mined' tx := fun tx hin => hmined tx hin id
      rw [CallStage.advance, Program.wp_bind]
      refine signSpend_wp.mono ?_ fun _ _ hsame => h.sameQueue hsame hkept
      rintro spend w' ⟨hsame, hspends⟩
      refine ⟨h.sameQueue hsame hkept, ?_⟩
      rintro _ ⟨⟩
      rw [hspends]
      exact List.nodup_singleton _
  | prepared spend =>
      simp only [CallStage.advance, queueSpend, onProducer, BlockProducer.enqueueP2mrSpend,
        Program.wp_bind, Program.wp_focus, Program.wp_get, Program.wp_modify, Program.wp_pure]
      exact ⟨h.enqueue (hown spend rfl) hfree rfl rfl fun tx hin => hmined tx hin id, by rintro _ ⟨⟩⟩
  | accepted block =>
      simp only [CallStage.advance, onProducer, BlockProducer.reapConfirmedP2mrSpends, Program.wp_bind,
        Program.wp_focus, Program.wp_modify, Program.wp_pure]
      exact ⟨h.reap rfl rfl hmined, by rintro _ ⟨⟩⟩

theorem advance {n : Nat} {entropy : Option Bytes} (h : s.Ready)
    (hfree : ∀ stage ∈ s.calls[n]?, stage.IsFree s.wallet) :
    (s.advance S json isDust n entropy).Ready := by
  rw [Session.advance]
  cases hget : s.calls[n]? with
  | none => exact h
  | some stage =>
      dsimp only
      have hown : ∀ spend, stage = .prepared spend → spend.tx.spends.Nodup := by
        rintro spend rfl
        exact h.prepared spend (List.mem_of_getElem? hget)
      have hstage : ∀ mined', (∀ tx, s.Mined tx → ¬ stage.Mines C tx → mined' tx) →
          wp (stage.advance S json isDust entropy)
            (fun next w' => Queued mined' w' ∧
              ∀ spend, next = some (.prepared spend) → spend.tx.spends.Nodup)
            (fun _ => Queued mined') s.wallet :=
        fun _ hmined => Ready.stage h.queued hown (hfree stage hget) hmined
      have hrest : ∀ spend, .prepared spend ∈ s.calls.eraseIdx n → spend.tx.spends.Nodup :=
        fun spend hin => h.prepared spend (List.mem_of_mem_eraseIdx hin)
      rcases hrun : stage.advance S json isDust entropy s.wallet with ⟨outcome, wallet⟩
      cases outcome with
      | error e => exact ⟨(hstage _ fun _ => mined_eraseIdx hget).error hrun, hrest⟩
      | ok next =>
          cases next with
          | none => exact ⟨((hstage _ fun _ => mined_eraseIdx hget).ok hrun).1, hrest⟩
          | some next =>
              obtain ⟨hqueued, hnext⟩ := (hstage _ fun _ => mined_set hget).ok hrun
              refine ⟨hqueued, fun spend hin => ?_⟩
              rcases List.mem_or_eq_of_mem_set hin with hin | rfl
              · exact h.prepared spend hin
              · exact hnext spend rfl

/-- What one action keeps. -/
theorem step {action : Action} (h : s.Ready) (haction : action.Harmless validator s) :
    (s.step S json isDust validator action).Ready := by
  cases action with
  | createP2mrAddress scheme entropy =>
      refine h.onWallet ?_
      exact onP2mrStore_producer.mono
        (fun _ _ hsame => h.queued.sameQueue (.of_producer hsame) fun _ hin => hin)
        fun _ _ hsame => h.queued.sameQueue (.of_producer hsame) fun _ hin => hin
  | spendP2mr request => exact h.beginSpend request
  | connectBlock block => exact h.beginConnect haction
  | advance n entropy => exact h.advance haction
  | disconnectBlock block => exact h.onWallet (h.queued.disconnectBlock haction)
  | syncConnectBlock block => exact h.onWallet (h.queued.syncConnectBlock haction)
  | syncDisconnectBlock block => exact h.onWallet (h.queued.syncDisconnectBlock haction)

end Session.Ready

/-! ## Runs -/

/-- The states in which the actions of a run are taken are ones in which they are harmless. -/
def HarmlessRun (S : Signers) (json : P2mrJson) (isDust : Amount → Script → Bool) (validator : Validator)
    (s : Session C) : List Action → Prop
  | [] => True
  | action :: actions =>
      action.Harmless validator s ∧
        HarmlessRun S json isDust validator (s.step S json isDust validator action) actions

instance decidableHarmlessRun (s : Session C) :
    (actions : List Action) → Decidable (HarmlessRun S json isDust validator s actions)
  | [] => isTrue trivial
  | action :: actions =>
      let _ := decidableHarmlessRun (s.step S json isDust validator action) actions
      inferInstanceAs (Decidable (action.Harmless validator s ∧ _))

theorem HarmlessRun.ready {actions : List Action} (hrun : HarmlessRun S json isDust validator s actions)
    (h : s.Ready) : (s.after S json isDust validator actions).Ready := by
  induction actions generalizing s with
  | nil => exact h
  | cons action actions ih => exact ih hrun.2 (h.step hrun.1)

/-- As `Crypto.sample`, with ids that depend on the amounts of a transaction. -/
def amountCrypto : Crypto := { Crypto.sample with
  computeTxid := fun tx =>
    LittleEndian.encode 32 (tx.lockTime.toNat + 1 + (tx.output.map fun o => o.value.toNat).sum) }

def schnorrEntropy : Bytes := List.replicate 32 7

def schnorrLeaf : Script := Pqc.push32Checksig schnorrEntropy

def schnorrSpk : Script := Pqc.p2mrScriptPubkey (Pqc.singleLeafMerkleRoot .sample schnorrLeaf)

def foreignSpk : Script := Pqc.p2mrScriptPubkey (List.replicate 32 3)

def fundingBlock : Block :=
  ⟨Validator.sampleHeader .allZeros 0,
    [Validator.sampleCoinbase 0 [⟨50, schnorrSpk⟩, ⟨60, schnorrSpk⟩, ⟨20, foreignSpk⟩]]⟩

def fundingTxid : Txid := LittleEndian.encode 32 131

/-- The directory has the address in it. -/
def startSession : Session amountCrypto where
  wallet := {
    producer := ⟨Validator.freshStore .empty, .empty⟩
    disk := ⟨(P2mrFile.run amountCrypto sampleSigners P2mrFile.sampleJson
      [⟨.create .schnorr (some schnorrEntropy), fun _ => .none⟩] .empty).2, fun _ => .none⟩ }
  calls := []

/-- Spend one of the outputs. -/
def payRequest (vout : UInt32) (amount fee : Amount) : SpendRequest :=
  ⟨⟨fundingTxid, vout⟩, [0x51], amount, some fee⟩

def runSample (actions : List Action) : Session amountCrypto :=
  startSession.after sampleSigners P2mrFile.sampleJson (fun _ _ => false) Validator.sampleValidator actions

/-- Two calls at the same time, the first of them made before the block has been reaped. -/
def fullSpends : List Action :=
  [.connectBlock fundingBlock, .spendP2mr (payRequest 0 40 10), .advance 0 none,
    .spendP2mr (payRequest 1 50 10), .advance 0 none, .advance 1 none, .advance 1 none, .advance 0 none,
    .advance 0 none, .advance 0 none]

/-- A block with one of the two spends. -/
def fullBlock : Block :=
  ⟨Validator.child.header,
    Validator.sampleCoinbase 1 [] :: (runSample fullSpends).wallet.producer.pending.transactions.take 1⟩

/-- Spend an output twice. -/
def respends : List Action :=
  [.connectBlock fundingBlock, .advance 0 none, .spendP2mr (payRequest 0 40 10), .advance 0 none,
    .advance 0 none, .advance 0 none, .spendP2mr (payRequest 0 30 20), .advance 0 none, .advance 0 none,
    .advance 0 none]

def preparedSpends : List Action :=
  [.connectBlock fundingBlock, .advance 0 none, .spendP2mr (payRequest 0 40 10),
    .spendP2mr (payRequest 0 30 20), .advance 0 none, .advance 0 none, .advance 1 none, .advance 1 none]

def firstPrepared : Transaction :=
  match (runSample preparedSpends).calls with
  | .prepared spend :: _ => spend.tx
  | _ => Validator.sampleCoinbase 0 []

def overtakingBlock : Block := ⟨Validator.child.header, [Validator.sampleCoinbase 1 [], firstPrepared]⟩

example :
    let reached := (runSample (preparedSpends ++ [.connectBlock overtakingBlock, .advance 1 none])).wallet
    reached.producer.pending.transactions.flatMap Transaction.spends = [⟨fundingTxid, 0⟩] ∧
      ⟨fundingTxid, 0⟩ ∉ reached.producer.store.dbs.p2mrUtxos := by
  decide

end Bip360Enforcer.Wallet
