import Bip360Enforcer.Pqc.P2mrUtxo
import Bip360Enforcer.Pqc.Spend
import Bip360Enforcer.Tapscript.Enforce

/-!
# Validation of transactions and blocks
-/

namespace Bip360Enforcer.Pqc

open Tapscript (TapscriptError enforceTransaction)

inductive PqcValidationError where
  | transaction (txid : Txid) (source : SpendError)
  | block (message : String)
  | tapscript (txid : Txid) (source : TapscriptError)
  deriving DecidableEq, Repr

section

variable (C : Crypto) (clock : Clock)

def validateTransaction (height : Nat) (activation : Bip360Activation) (tx : Transaction)
    (view : SpendView) (timer : Timer) : Except PqcValidationError Timer :=
  if !activation.isActive height then .ok timer
  else do
    let timer ←
      (validateTransactionSpends C clock tx view timer).mapError (.transaction (C.computeTxid tx))
    (enforceTransaction C tx view.availablePrevouts).mapError (.tapscript (C.computeTxid tx))
    .ok timer

def validateMempoolTransaction (tx : Transaction) (height : Nat) (activation : Bip360Activation) :
    Except PqcValidationError Unit :=
  if !activation.isActive height then .ok ()
  else do
    let _ ← validateTransaction C clock height activation tx ⟨∅, none, none⟩ ⟨none, 0⟩
    .ok ()

/-! ## Blocks -/

/-- What the transactions of a block are validated with, one after the other. -/
structure BlockState where
  validation : ValidationState
  timer : Timer

/-- Validate the next transaction of a block against what is available, then apply it. -/
def validateBlockTransaction (height : Nat) (activation : Bip360Activation)
    (chainP2mrUtxos : PrevoutMap) (st : BlockState) (tx : Transaction) :
    Except PqcValidationError BlockState := do
  let view : SpendView := {
    availablePrevouts := st.validation.availablePrevouts
    chainP2mrUtxos := some chainP2mrUtxos
    spentP2mrInBlock := some st.validation.spentP2mrInBlock }
  let timer ← validateTransaction C clock height activation tx view st.timer
  .ok ⟨applyTxToValidationAvailable C st.validation tx, timer⟩

def seedCoinbaseOutputs (block : Block) (available : PrevoutMap) : PrevoutMap :=
  match block.txdata with
  | [] => available
  | coinbase :: _ =>
      (txOutputs C coinbase).foldl (fun available entry => available.insert entry.1 entry.2) available

def seedCoinbaseP2mrDiff (block : Block) (st : ValidationState) : ValidationState :=
  match block.txdata with
  | [] => st
  | coinbase :: _ => (txOutputs C coinbase).foldl ValidationState.create st

def startTimer (pqcVerifyBudgetMs : Nat) : Timer := ⟨some (.withBudgetMs pqcVerifyBudgetMs), 0⟩

/-- The dry run: no diff is kept and no outside outputs are known. -/
def validateBlockTransactions (block : Block) (height : Nat) (activation : Bip360Activation)
    (chainP2mrUtxos : PrevoutMap) (pqcVerifyBudgetMs : Nat) : Except PqcValidationError Unit :=
  if !activation.isActive height then .ok ()
  else do
    let st : BlockState := {
      validation := ⟨seedCoinbaseOutputs C block chainP2mrUtxos, none, ∅⟩
      timer := startTimer pqcVerifyBudgetMs }
    let _ ←
      (block.txdata.drop 1).foldlM (validateBlockTransaction C clock height activation chainP2mrUtxos) st
    .ok ()

/-- Fill in outputs known from outside; what is available already is not replaced. -/
def addExtraPrevouts (available extraPrevouts : PrevoutMap) : PrevoutMap :=
  extraPrevouts.entries.foldl (fun available entry =>
    if entry.1 ∈ available then available else available.insert entry.1 entry.2) available

/-- The state in which the first transaction after the coinbase is validated. -/
def startValidation (block : Block) (chainP2mrUtxos extraPrevouts : PrevoutMap) : ValidationState :=
  let st := seedCoinbaseP2mrDiff C block ⟨chainP2mrUtxos, some .empty, ∅⟩
  { st with availablePrevouts := addExtraPrevouts st.availablePrevouts extraPrevouts }

def validateAndDiffBlockTransactions (block : Block) (height : Nat) (activation : Bip360Activation)
    (chainP2mrUtxos extraPrevouts : PrevoutMap) (pqcVerifyBudgetMs : Nat) :
    Except PqcValidationError P2mrUtxoBlockDiff :=
  if !activation.isActive height then .ok (computeBlockDiff C block chainP2mrUtxos)
  else do
    let start : BlockState :=
      ⟨startValidation C block chainP2mrUtxos extraPrevouts, startTimer pqcVerifyBudgetMs⟩
    let st ←
      (block.txdata.drop 1).foldlM (validateBlockTransaction C clock height activation chainP2mrUtxos) start
    .ok (st.validation.diff.getD .empty)

end

end Bip360Enforcer.Pqc
