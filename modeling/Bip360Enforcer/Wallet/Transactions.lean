import Bip360Enforcer.BlockProducer.Queue
import Bip360Enforcer.Library.SortBy

/-!
# The transactions of the wallet, as listed
-/

namespace Bip360Enforcer

/-! ## Amounts -/

namespace Amount

variable {ε : Type}

/-- The sum of two amounts, which panics where it is too large. -/
def add (a b : Amount) : MayPanic ε Amount :=
  MayPanic.ensure (a.toNat + b.toNat < 2 ^ 64) .overflow (a + b)

/-- The difference of two amounts, which panics below zero. -/
def sub (a b : Amount) : MayPanic ε Amount := MayPanic.ensure (b ≤ a) .overflow (a - b)

def checkedSub (a b : Amount) : Option Amount := if b ≤ a then some (a - b) else none

end Amount

/-- The txid that an input names which spends no output. -/
def Txid.allZeros : Txid := List.replicate 32 0

namespace Wallet

inductive ListWalletTransactionsError where
  | fetchTransaction (txid : Txid)
  | deserializeHex
  deriving DecidableEq, Repr

/-- Where a transaction is in the chain; times are in seconds. -/
inductive ChainPosition where
  | confirmed (confirmationTime : UInt64)
  | unconfirmed (firstSeen lastSeen : Option UInt64)
  deriving DecidableEq, Repr

/-- A transaction that the wallet holds. -/
structure TxDetails where
  txid : Txid
  tx : Transaction
  chainPosition : ChainPosition
  deriving DecidableEq, Repr

structure BDKWalletTransaction where
  txid : Txid
  tx : Transaction
  chainPosition : ChainPosition
  fee : Amount
  received : Amount
  sent : Amount
  deriving DecidableEq, Repr

/-! ## Amounts of one transaction -/

section

variable (isMine : Script → Bool)
  (getRawTransaction : Txid → Except ListWalletTransactionsError Transaction)

/-- Add the value of an output, if it is the wallet's. -/
def addIfMine (amount : Amount) (output : TxOut) : MayPanic ListWalletTransactionsError Amount :=
  if isMine output.scriptPubkey then Amount.add amount output.value else pure amount

/-- Add an output of the transaction to the value of the outputs and to what is received. -/
def addOutput (sums : Amount × Amount) (output : TxOut) :
    MayPanic ListWalletTransactionsError (Amount × Amount) := do
  let outputValue ← Amount.add sums.1 output.value
  let received ← addIfMine isMine sums.2 output
  pure (outputValue, received)

def outputValues (outputs : List TxOut) : MayPanic ListWalletTransactionsError (Amount × Amount) :=
  outputs.foldlM (addOutput isMine) (0, 0)

/-- Add what an input spends to the value of the inputs and to what is sent. -/
def addInput (sums : Amount × Amount) (input : TxIn) :
    MayPanic ListWalletTransactionsError (Amount × Amount) :=
  -- The input of a coinbase spends nothing that could be fetched.
  if input.previousOutput.txid = Txid.allZeros then pure sums
  else do
    let prevTx ← MayPanic.lift (getRawTransaction input.previousOutput.txid)
    let prevOutput ← MayPanic.index prevTx.output input.previousOutput.vout.toNat
    let sent ← addIfMine isMine sums.2 prevOutput
    let inputValue ← Amount.add sums.1 prevOutput.value
    pure (inputValue, sent)

def inputValues (inputs : List TxIn) : MayPanic ListWalletTransactionsError (Amount × Amount) :=
  inputs.foldlM (addInput isMine getRawTransaction) (0, 0)

/-- The net change of the wallet, excluding the fee, as an amount received and an amount sent. -/
def netChange (received sent fee : Amount) : MayPanic ListWalletTransactionsError (Amount × Amount) :=
  if sent ≤ received then do
    let finalReceived ← Amount.sub received sent
    pure (finalReceived, 0)
  else do
    let loss ← Amount.sub sent received
    let finalSent ← Amount.sub loss fee
    pure (0, finalSent)

def walletTransaction (details : TxDetails) :
    MayPanic ListWalletTransactionsError BDKWalletTransaction := do
  let (outputValue, received) ← outputValues isMine details.tx.output
  let (inputValue, sent) ← inputValues isMine getRawTransaction details.tx.input
  let fee := (Amount.checkedSub inputValue outputValue).getD 0
  let (finalReceived, finalSent) ← netChange received sent fee
  pure {
    txid := details.txid
    tx := details.tx
    chainPosition := details.chainPosition
    fee := fee
    received := finalReceived
    sent := finalSent }

end

/-! ## The order of the list -/

/-- The comparison by which the list is sorted. -/
def compareTransactions (a b : BDKWalletTransaction) : Ordering :=
  match a.chainPosition, b.chainPosition with
  | .confirmed aTime, .confirmed bTime => compare aTime bTime
  | .confirmed aTime, .unconfirmed _ (some lastSeen) => compare aTime lastSeen
  | .unconfirmed _ (some lastSeen), .confirmed bTime => compare lastSeen bTime
  | .unconfirmed _ (some aLastSeen), .unconfirmed _ (some bLastSeen) => compare aLastSeen bLastSeen
  -- Fallback to comparing txids.
  | _, _ => compare a.txid b.txid

/-- `sortBy` is the sort of the standard library. -/
def listWalletTransactions (sortBy : SortBy ListWalletTransactionsError BDKWalletTransaction)
    (isMine : Script → Bool)
    (getRawTransaction : Txid → Except ListWalletTransactionsError Transaction)
    (transactions : List TxDetails) :
    MayPanic ListWalletTransactionsError (List BDKWalletTransaction) := do
  let txs ← transactions.mapM (walletTransaction isMine getRawTransaction)
  -- Make sure that the transaction list is in chronological order.
  sortBy compareTransactions txs

end Wallet

end Bip360Enforcer
