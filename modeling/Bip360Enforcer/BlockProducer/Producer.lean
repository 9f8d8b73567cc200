import Bip360Enforcer.BlockProducer.Queue
import Bip360Enforcer.Validator.Enforcer

/-!
# The block producer, around the validator
-/

namespace Bip360Enforcer

open Validator (Db DbError Store ConnectBlockAction ConnectBlockError DisconnectBlockError)

/-- The validator's store and the queue of spends. -/
structure BlockProducer (C : Crypto) where
  store : Store
  pending : PendingP2mrSpends C

namespace BlockProducer

variable {C : Crypto} {ε α : Type}

/-- A program of the validator. -/
def onStore (x : Db ε α) : Program (BlockProducer C) ε α :=
  Program.focus BlockProducer.store (fun store producer => { producer with store := store }) x

def enqueueP2mrSpend (tx : Transaction) (fee : Amount) : Program (BlockProducer C) ε Txid := do
  let producer ← Program.get
  let (pending, txid) := producer.pending.enqueueP2mrSpend tx fee
  Program.modify fun producer => { producer with pending := pending }
  pure txid

def reapConfirmedP2mrSpends (block : Block) : Program (BlockProducer C) ε Unit :=
  Program.modify fun producer =>
    { producer with pending := producer.pending.reapConfirmedP2mrSpends block }

variable (validator : Validator)

/-- A connected block, for the validator alone. -/
def connectBlockValidator (block : Block) :
    Program (BlockProducer C) ConnectBlockError ConnectBlockAction :=
  onStore (validator.connectBlock C block)

/-- A block that the node has connected; the spends it has mined leave the queue. -/
def connectBlock (block : Block) : Program (BlockProducer C) ConnectBlockError ConnectBlockAction := do
  let res ← connectBlockValidator validator block
  match res with
  | .accept => reapConfirmedP2mrSpends block
  | .reject => pure ()
  pure res

def disconnectBlock (blockHash : BlockHash) : Program (BlockProducer C) DisconnectBlockError Unit :=
  onStore (Validator.disconnectBlock C blockHash)

/-! `sync_to_tip` is the validator's alone; these are its steps, a block at a time. -/

def syncConnectBlock (block : Block) : Program (BlockProducer C) ConnectBlockError Unit :=
  onStore do
    let _ ← Validator.transaction ((validator.handler ∅).connectBlock C block)

def syncDisconnectBlock (blockHash : BlockHash) : Program (BlockProducer C) DisconnectBlockError Unit :=
  onStore (Validator.transaction (Validator.BlockHandler.disconnectBlock C blockHash))

/-- `Validator::get_p2mr_utxo`. -/
def getP2mrUtxo (outpoint : OutPoint) : Program (BlockProducer C) DbError (Option TxOut) :=
  onStore do
    let utxos ← Validator.read Validator.Dbs.p2mrUtxos
    pure (utxos.lookup outpoint)

end BlockProducer

end Bip360Enforcer
