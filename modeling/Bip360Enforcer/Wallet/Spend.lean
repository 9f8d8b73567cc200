import Bip360Enforcer.BlockProducer.Producer
import Bip360Enforcer.Wallet.P2mrFile

/-!
# Spending P2MR outputs from the wallet
-/

namespace Bip360Enforcer

open Pqc (Signers)
open Validator (DbError)
open Wallet (P2mrAddressRecord P2mrFile P2mrFileError P2mrJson P2mrM P2mrPath P2mrScheme)

/-- The block producer, and the directory with the keys of the wallet. -/
structure Wallet (C : Crypto) where
  producer : BlockProducer C
  disk : Machine P2mrPath UInt8

namespace Wallet

def defaultP2mrFeeSats : Amount := 1000

inductive SpendP2mrError where
  | getP2mrUtxos (source : DbError)
  | store (source : P2mrFileError)
  | unknownUtxo (outpoint : OutPoint)
  | notOurs (outpoint : OutPoint) (scriptPubkey : Script)
  | amountBelowDust (amount : Amount) (scriptPubkey : Script)
  | feeExceedsRemainder (amount fee prevoutValue : Amount)
  deriving DecidableEq, Repr

structure P2mrSpendOutcome where
  txid : Txid
  /-- The script of the address, which the source renders as text: a P2MR script has one. -/
  changeAddress : Option Script
  changeSats : Amount
  deriving DecidableEq, Repr

structure SpendRequest where
  outpoint : OutPoint
  destination : Script
  amount : Amount
  feeSats : Option Amount
  deriving DecidableEq, Repr

/-- How the value of the output is divided. -/
structure SpendPlan where
  actualFee : Amount
  /-- The change, unless it goes to the fee. -/
  change : Option Amount
  deriving DecidableEq, Repr

/-- `isDust` is `Amount::is_dust`. -/
def planSpend (isDust : Amount → Script → Bool) (request : SpendRequest) (prevout : TxOut) :
    Except SpendP2mrError SpendPlan :=
  let amount := request.amount
  if isDust amount request.destination then .error (.amountBelowDust amount request.destination)
  else
    let fee := request.feeSats.getD defaultP2mrFeeSats
    -- The sum is a checked one.
    if prevout.value.toNat < amount.toNat + fee.toNat then
      .error (.feeExceedsRemainder amount fee prevout.value)
    else
      let change := prevout.value - (amount + fee)
      if change = 0 then .ok ⟨fee, none⟩
      else if isDust change prevout.scriptPubkey then .ok ⟨prevout.value - amount, none⟩
      else .ok ⟨fee, some change⟩

section

variable {C : Crypto} {ε α : Type}

/-- A program of the block producer. -/
def onProducer (x : Program (BlockProducer C) ε α) : Program (Wallet C) ε α :=
  Program.focus Wallet.producer (fun producer wallet => { wallet with producer := producer }) x

/-- A program of the store of keys. -/
def onP2mrStore (x : P2mrM α) : Program (Wallet C) P2mrFileError α :=
  Program.focus Wallet.disk (fun disk wallet => { wallet with disk := disk }) x

variable (S : Signers) (json : P2mrJson)

def createP2mrAddress (scheme : P2mrScheme) (entropy : Option Bytes) :
    Program (Wallet C) P2mrFileError P2mrAddressRecord :=
  onP2mrStore (P2mrFile.create C S json scheme entropy)

/-! ## The parts of `spend_p2mr` -/

/-- What is to be spent. -/
def findPrevout (request : SpendRequest) : Program (Wallet C) SpendP2mrError TxOut := do
  match ← onProducer ((BlockProducer.getP2mrUtxo request.outpoint).mapError .getP2mrUtxos) with
  | none => Program.fail (.unknownUtxo request.outpoint)
  | some prevout => pure prevout

/-- The key of the output, and how its value is divided. -/
def planOwnSpend (isDust : Amount → Script → Bool) (request : SpendRequest) (prevout : TxOut) :
    Program (Wallet C) SpendP2mrError (P2mrAddressRecord × SpendPlan) := do
  match ← Program.mapError .store (onP2mrStore (P2mrFile.getBySpk json prevout.scriptPubkey)) with
  | none => Program.fail (.notOurs request.outpoint prevout.scriptPubkey)
  | some record => do
      let plan ← Program.ofExcept (planSpend isDust request prevout)
      pure (record, plan)

/-- The outputs of a spend, with the script of the change address if there is change. -/
def spendOutputs (request : SpendRequest) (plan : SpendPlan) (scheme : P2mrScheme)
    (entropy : Option Bytes) : Program (Wallet C) SpendP2mrError (List TxOut × Option Script) := do
  let destination : TxOut := ⟨request.amount, request.destination⟩
  match plan.change with
  | none => pure ([destination], none)
  | some change => do
      let record ← Program.mapError .store (createP2mrAddress S json scheme entropy)
      pure ([destination, ⟨change, record.scriptPubkey⟩], some record.scriptPubkey)

/-- A signed spend with what is reported of it. -/
structure PreparedSpend where
  tx : Transaction
  actualFee : Amount
  changeAddress : Option Script
  changeSats : Amount
  deriving DecidableEq, Repr

/-- `entropy` is that of the change address. -/
def signSpend (request : SpendRequest) (prevout : TxOut) (record : P2mrAddressRecord) (plan : SpendPlan)
    (entropy : Option Bytes) : Program (Wallet C) SpendP2mrError PreparedSpend := do
  let (outputs, changeAddress) ← spendOutputs S json request plan record.scheme entropy
  let tx ← Program.ofExcept
    ((record.buildSpend C S request.outpoint prevout outputs .default).mapError (.store ∘ .store))
  pure ⟨tx, plan.actualFee, changeAddress, plan.change.getD 0⟩

def queueSpend (spend : PreparedSpend) : Program (Wallet C) SpendP2mrError P2mrSpendOutcome := do
  let txid ← onProducer (BlockProducer.enqueueP2mrSpend spend.tx spend.actualFee)
  pure ⟨txid, spend.changeAddress, spend.changeSats⟩

def spendP2mr (isDust : Amount → Script → Bool) (request : SpendRequest) (entropy : Option Bytes) :
    Program (Wallet C) SpendP2mrError P2mrSpendOutcome := do
  let prevout ← findPrevout request
  let (record, plan) ← planOwnSpend json isDust request prevout
  let spend ← signSpend S json request prevout record plan entropy
  queueSpend spend

end

end Wallet

end Bip360Enforcer
