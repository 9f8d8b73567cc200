import Bip360Enforcer.Validator.Chain
import Bip360Enforcer.Wallet.Spend

/-!
# The ways by which blocks reach the block producer
-/

namespace Bip360Enforcer

open Validator (BlockHandler ConnectBlockAction ConnectBlockError SyncError activeChain)

variable {C : Crypto}

/-- What the node answers to a header sync. -/
abbrev HeaderAnswers := List (Except SyncError (List (Header × Nat)))

/-- The blocks that the node or the block files may deliver. -/
def Validator.BlockHandler.SyncSource.Delivers (source : BlockHandler.SyncSource) (block : Block) : Prop :=
  (∃ n hashes blocks, source.fetchBlocksBatch n hashes = .ok blocks ∧ block ∈ blocks) ∨
    ∃ dir first items fileBlock, source.blocksDir = some dir ∧ dir.parse first = .ok items ∧
      .ok fileBlock ∈ items ∧ fileBlock.header = block.header ∧ fileBlock.txData = .ok block.txdata

namespace BlockProducer

variable (validator : Validator)

def syncToTip (headers : HeaderAnswers) (source : BlockHandler.SyncSource) (tip : BlockHash) :
    Program (BlockProducer C) SyncError (Option (BlockHash × ConnectBlockError)) :=
  onStore (validator.syncToTip C headers source tip)

end BlockProducer

namespace Wallet

inductive ConnectBlockError where
  | notUnlocked
  | validator (source : Validator.ConnectBlockError)
  | syncWalletToTip
  deriving DecidableEq, Repr

inductive InitialSyncError where
  | getMainchainTip
  | shutdown
  | validator (source : SyncError)
  | wallet
  deriving DecidableEq, Repr

variable (validator : Validator)

/-- `walletSync` is how the wallet itself comes up to the block. -/
def connectBlock (walletSync : Except ConnectBlockError Unit) (block : Block) :
    Program (Wallet C) ConnectBlockError ConnectBlockAction := do
  let res ← onProducer ((BlockProducer.connectBlockValidator validator block).mapError .validator)
  match res with
  | .accept => do
      onProducer (BlockProducer.reapConfirmedP2mrSpends block)
      Program.ofExcept walletSync
  | .reject => pure ()
  pure res

/-- `walletSync` is how the wallet itself comes up to the tip. -/
def syncToTip (headers : HeaderAnswers) (source : BlockHandler.SyncSource) (tip : BlockHash)
    (walletSync : Except InitialSyncError Unit) :
    Program (Wallet C) InitialSyncError (Option (BlockHash × Validator.ConnectBlockError)) := do
  let rejected ← onProducer ((BlockProducer.syncToTip validator headers source tip).mapError .validator)
  match rejected with
  | some _ => pure ()
  | none => Program.ofExcept walletSync
  pure rejected

/-! ## Calls -/

/-- A call to the block producer, directly or from the wallet around it. -/
inductive ProducerCall where
  | enqueueP2mrSpend (tx : Transaction) (fee : Amount)
  | connectBlock (block : Block)
  | walletConnectBlock (walletSync : Except ConnectBlockError Unit) (block : Block)
  | disconnectBlock (blockHash : BlockHash)
  | syncToTip (headers : HeaderAnswers) (source : BlockHandler.SyncSource) (tip : BlockHash)
  | walletSyncToTip (headers : HeaderAnswers) (source : BlockHandler.SyncSource) (tip : BlockHash)
      (walletSync : Except InitialSyncError Unit)

namespace ProducerCall

def run (w : Wallet C) : ProducerCall → Wallet C
  | enqueueP2mrSpend tx fee =>
      (onProducer (BlockProducer.enqueueP2mrSpend tx fee : Program _ ConnectBlockError _) w).2
  | connectBlock block => (onProducer (BlockProducer.connectBlock validator block) w).2
  | walletConnectBlock walletSync block => (Wallet.connectBlock validator walletSync block w).2
  | disconnectBlock blockHash => (onProducer (BlockProducer.disconnectBlock blockHash) w).2
  | syncToTip headers source tip => (onProducer (BlockProducer.syncToTip validator headers source tip) w).2
  | walletSyncToTip headers source tip walletSync =>
      (Wallet.syncToTip validator headers source tip walletSync w).2

/-- The block has come to be on the active chain. -/
def Activated (C : Crypto) (w w' : Wallet C) (block : Block) : Prop :=
  C.blockHash block.header ∈ activeChain w'.producer.store.dbs ∧
    C.blockHash block.header ∉ activeChain w.producer.store.dbs

/-- The blocks that a call accepts. -/
def Accepts (w : Wallet C) (call : ProducerCall) (block : Block) : Prop :=
  match call with
  | connectBlock connected | walletConnectBlock _ connected =>
      block = connected ∧ (validator.connectBlock C connected w.producer.store).1 = .ok .accept
  | syncToTip _ source _ | walletSyncToTip _ source _ _ =>
      source.Delivers block ∧ Activated C w (call.run validator w) block
  | enqueueP2mrSpend _ _ | disconnectBlock _ => False

/-- The call queues a spend of this txid. -/
def Queues (C : Crypto) (id : Txid) : ProducerCall → Prop
  | enqueueP2mrSpend tx _ => C.computeTxid tx = id
  | _ => False

def IsSync : ProducerCall → Prop
  | syncToTip _ _ _ | walletSyncToTip _ _ _ _ => True
  | _ => False

end ProducerCall

/-! ## Runs -/

/-- The wallet, and the txids in the blocks accepted since a spend of that txid was queued. -/
structure History (C : Crypto) where
  wallet : Wallet C
  mined : Set Txid

namespace History

def step (h : History C) (call : ProducerCall) : History C where
  wallet := call.run validator h.wallet
  mined := fun id => (id ∈ h.mined ∧ ¬ call.Queues C id) ∨
    ∃ block, call.Accepts validator h.wallet block ∧ id ∈ block.txdata.map C.computeTxid

/-- No spend in the queue has been mined since it was queued. -/
def NoneMined (h : History C) : Prop :=
  ∀ tx ∈ h.wallet.producer.pending.transactions, C.computeTxid tx ∉ h.mined

end History

/-- No block that is accepted while catching up has a spend of the queue in it. -/
def SyncsApart (w : Wallet C) : List ProducerCall → Prop
  | [] => True
  | call :: calls =>
      (call.IsSync → ∀ block, call.Accepts validator w block →
        ∀ tx ∈ w.producer.pending.transactions, C.computeTxid tx ∉ block.txdata.map C.computeTxid) ∧
      SyncsApart (call.run validator w) calls

end Wallet

end Bip360Enforcer
