import Bip360Enforcer.BlockProducer.Theorems.Template
import Bip360Enforcer.Validator.Theorems.Ledger
import Bip360Enforcer.Wallet.Connect

/-!
# Mined spends and the queue
-/

namespace Bip360Enforcer.Wallet

open Validator (BlockHandler)

variable {C : Crypto} {validator : Validator} {w : Wallet C} {h : History C} {tx : Transaction}
  {block : Block}

/-! ## The queue after a call -/

/-- A live block that is accepted takes its spends out of the queue, whatever becomes of the wallet. -/
theorem pending_connectBlock :
    (ProducerCall.run validator w (.connectBlock block)).producer.pending =
      if (validator.connectBlock C block w.producer.store).1 = .ok .accept then
        w.producer.pending.reapConfirmedP2mrSpends block
      else w.producer.pending := by
  simp only [ProducerCall.run, onProducer, BlockProducer.connectBlock,
    BlockProducer.connectBlockValidator, BlockProducer.onStore, Program.focus, Program.bind_apply]
  cases hrun : validator.connectBlock C block w.producer.store with
  | mk outcome t =>
      cases outcome with
      | error e => rfl
      | ok action =>
          cases action with
          | accept => rfl
          | reject => rfl

theorem pending_walletConnectBlock {walletSync : Except ConnectBlockError Unit} :
    (ProducerCall.run validator w (.walletConnectBlock walletSync block)).producer.pending =
      if (validator.connectBlock C block w.producer.store).1 = .ok .accept then
        w.producer.pending.reapConfirmedP2mrSpends block
      else w.producer.pending := by
  simp only [ProducerCall.run, Wallet.connectBlock, onProducer, BlockProducer.connectBlockValidator,
    BlockProducer.onStore, Program.mapError, Program.focus, Program.bind_apply]
  cases hrun : validator.connectBlock C block w.producer.store with
  | mk outcome t =>
      cases outcome with
      | error e => rfl
      | ok action =>
          cases action with
          | reject => rfl
          | accept =>
              cases walletSync with
              | error e => rfl
              | ok _ => rfl

theorem pending_walletSyncToTip {headers : HeaderAnswers} {source : BlockHandler.SyncSource}
    {tip : BlockHash} {walletSync : Except InitialSyncError Unit} :
    (ProducerCall.run validator w (.walletSyncToTip headers source tip walletSync)).producer.pending =
      w.producer.pending := by
  simp only [ProducerCall.run, Wallet.syncToTip, onProducer, BlockProducer.syncToTip, BlockProducer.onStore,
    Program.mapError, Program.focus, Program.bind_apply]
  cases hrun : validator.syncToTip C headers source tip w.producer.store with
  | mk outcome t =>
      cases outcome with
      | error e => rfl
      | ok rejected =>
          cases rejected with
          | some _ => rfl
          | none =>
              cases walletSync with
              | error e => rfl
              | ok _ => rfl

/-- A spend stays in the queue unless an accepted live block holds it. -/
theorem mem_reaped (pending : PendingP2mrSpends C) {accepted : Prop} [Decidable accepted] :
    tx ∈ (if accepted then pending.reapConfirmedP2mrSpends block else pending).transactions ↔
      tx ∈ pending.transactions ∧ (accepted → C.computeTxid tx ∉ block.txdata.map C.computeTxid) := by
  split
  · rename_i haccepted
    rw [PendingP2mrSpends.mem_reapConfirmedP2mrSpends]
    tauto
  · rename_i haccepted
    exact ⟨fun htx => ⟨htx, fun h => absurd h haccepted⟩, And.left⟩

/-! ## One call -/

theorem noneMined_enqueue {fee : Amount} (hnone : h.NoneMined) :
    (h.step validator (.enqueueP2mrSpend tx fee)).NoneMined := by
  intro tx' htx'
  have hmem : tx' ∈ (h.wallet.producer.pending.enqueueP2mrSpend tx fee).1.transactions := htx'
  rw [PendingP2mrSpends.mem_enqueueP2mrSpend] at hmem
  rintro (⟨hmined, hqueues⟩ | ⟨_, hfalse, -⟩)
  · split at hmem
    · rename_i hid
      exact hqueues hid.symm
    · exact hnone tx' hmem hmined
  · exact hfalse

/-- The spends that an accepted live block has mined are those that it takes out of the queue. -/
theorem noneMined_connect {call : ProducerCall} (hnone : h.NoneMined)
    (haccepts : ∀ mined, call.Accepts validator h.wallet mined ↔ mined = block ∧
      (validator.connectBlock C block h.wallet.producer.store).1 = .ok .accept)
    (hpending : (call.run validator h.wallet).producer.pending =
      if (validator.connectBlock C block h.wallet.producer.store).1 = .ok .accept then
        h.wallet.producer.pending.reapConfirmedP2mrSpends block
      else h.wallet.producer.pending) :
    (h.step validator call).NoneMined := by
  intro tx htx
  have hmem : tx ∈ (call.run validator h.wallet).producer.pending.transactions := htx
  rw [hpending, mem_reaped] at hmem
  rintro (⟨hmined, -⟩ | ⟨mined, haccepted, hid⟩)
  · exact hnone tx hmem.1 hmined
  · obtain ⟨rfl, hverdict⟩ := (haccepts mined).mp haccepted
    exact hmem.2 hverdict hid

/-- A call that leaves the queue as it is leaves no mined spend in it if it accepts none. -/
theorem noneMined_sync_iff {call : ProducerCall} (hnone : h.NoneMined)
    (hpending : (call.run validator h.wallet).producer.pending = h.wallet.producer.pending) :
    (h.step validator call).NoneMined ↔ ∀ block, call.Accepts validator h.wallet block →
      ∀ tx ∈ h.wallet.producer.pending.transactions,
        C.computeTxid tx ∉ block.txdata.map C.computeTxid := by
  have hmem : ∀ tx, tx ∈ (h.step validator call).wallet.producer.pending.transactions ↔
      tx ∈ h.wallet.producer.pending.transactions := by
    intro tx
    have : (h.step validator call).wallet.producer.pending = h.wallet.producer.pending := hpending
    rw [this]
  constructor
  · intro hnone' block haccepts tx htx hid
    exact hnone' tx ((hmem tx).mpr htx) (.inr ⟨block, haccepts, hid⟩)
  · intro hapart tx htx
    rintro (⟨hmined, -⟩ | ⟨block, haccepts, hid⟩)
    · exact hnone tx ((hmem tx).mp htx) hmined
    · exact hapart block haccepts tx ((hmem tx).mp htx) hid

/-- What one call keeps, and when. -/
theorem noneMined_step_iff {call : ProducerCall} (hnone : h.NoneMined) :
    (h.step validator call).NoneMined ↔
      (call.IsSync → ∀ block, call.Accepts validator h.wallet block →
        ∀ tx ∈ h.wallet.producer.pending.transactions,
          C.computeTxid tx ∉ block.txdata.map C.computeTxid) := by
  cases call with
  | enqueueP2mrSpend tx fee => exact iff_of_true (noneMined_enqueue hnone) fun hsync => hsync.elim
  | connectBlock block =>
      exact iff_of_true (noneMined_connect hnone (fun _ => Iff.rfl) pending_connectBlock)
        fun hsync => hsync.elim
  | walletConnectBlock walletSync block =>
      exact iff_of_true (noneMined_connect hnone (fun _ => Iff.rfl) pending_walletConnectBlock)
        fun hsync => hsync.elim
  | disconnectBlock blockHash =>
      refine iff_of_true ((noneMined_sync_iff hnone rfl).mpr ?_) fun hsync => hsync.elim
      exact fun _ haccepts => haccepts.elim
  | syncToTip headers source tip =>
      rw [noneMined_sync_iff hnone rfl]
      exact ⟨fun hapart _ => hapart, fun hapart => hapart trivial⟩
  | walletSyncToTip headers source tip walletSync =>
      rw [noneMined_sync_iff hnone pending_walletSyncToTip]
      exact ⟨fun hapart _ => hapart, fun hapart => hapart trivial⟩

/-! ## Runs -/

theorem noneMined_run_iff {calls : List ProducerCall} (hnone : h.NoneMined) :
    (∀ done rest, calls = done ++ rest → (done.foldl (History.step validator) h).NoneMined) ↔
      SyncsApart validator h.wallet calls := by
  induction calls generalizing h with
  | nil =>
      refine iff_of_true (fun done rest hsplit => ?_) trivial
      obtain ⟨rfl, -⟩ := List.append_eq_nil_iff.mp hsplit.symm
      exact hnone
  | cons call calls ih =>
      have hprefixes : (∀ done rest, call :: calls = done ++ rest →
          (done.foldl (History.step validator) h).NoneMined) ↔
          (h.step validator call).NoneMined ∧ ∀ done rest, calls = done ++ rest →
            (done.foldl (History.step validator) (h.step validator call)).NoneMined := by
        constructor
        · intro hall
          exact ⟨hall [call] calls rfl, fun done rest hsplit => hall (call :: done) rest (by rw [hsplit]; rfl)⟩
        · rintro ⟨-, hrest⟩ done rest hsplit
          cases done with
          | nil => exact hnone
          | cons call' done =>
              obtain ⟨rfl, hcalls⟩ := List.cons.inj hsplit
              exact hrest done rest hcalls
      rw [hprefixes, SyncsApart, ← noneMined_step_iff hnone]
      constructor
      · rintro ⟨hstep, hrest⟩
        exact ⟨hstep, (ih hstep).mp hrest⟩
      · rintro ⟨hstep, hrest⟩
        exact ⟨hstep, (ih hstep).mpr hrest⟩

def emptyWallet : Wallet .sample := ⟨⟨Validator.freshStore .empty, .empty⟩, ⟨.empty, fun _ => .none⟩⟩

/-- A node that has one block to deliver. -/
def singleSource (block : Block) : BlockHandler.SyncSource where
  blocksDir := none
  cancelled _ := false
  fetchBlocksBatch _ _ := .ok [block]

/-- Catch up by one block. -/
def syncTo (block : Block) (height : Nat) : ProducerCall :=
  .syncToTip [.ok [(block.header, height)]] (singleSource block) (Crypto.sample.blockHash block.header)

def liveCalls : List ProducerCall :=
  [syncTo Validator.genesis 0, .enqueueP2mrSpend Validator.spendTx 10,
    .walletConnectBlock (.error .notUnlocked) Validator.child]

def caughtUpCalls : List ProducerCall :=
  [.connectBlock Validator.genesis, .enqueueP2mrSpend Validator.spendTx 10, syncTo Validator.child 1]

end Bip360Enforcer.Wallet
