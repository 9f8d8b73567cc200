import Bip360Enforcer.Pqc.Replay
import Bip360Enforcer.Pqc.Validation
import Bip360Enforcer.Tapscript.Lookups

/-!
# The outputs that the validation of a block looks up

Outpoints, read off the validation in which nothing that it looks up is unknown.
-/

namespace Bip360Enforcer.Pqc

open Except (trace)
open Tapscript (enforceOutpoints)

section

variable (C : Crypto) (clock : Clock)

/-- What the signatures of an input commit to beside its own output: the outputs of all inputs, unless
the input spends no P2MR output, the type of its first signature is ANYONECANPAY, or it is the only one. -/
def inputOutpoints (tx : Transaction) (available : PrevoutMap) (input : TxIn) : List OutPoint :=
  match available.lookup input.previousOutput with
  | none => []
  | some prevout =>
      if !isP2mr prevout then []
      else if input.witness.isEmpty then []
      else if (parseSighashType (input.witness.head?.getD [])).anyoneCanPay then []
      else if tx.input.length = 1 then []
      else tx.input.map TxIn.previousOutput

def spendOutpoints (tx : Transaction) (view : SpendView) (timer : Timer) : List OutPoint :=
  match validateP2mrOutputs tx with
  | .error _ => []
  | .ok () =>
      trace (validateInput C clock tx view)
        (fun _ entry => inputOutpoints tx view.availablePrevouts entry.1) timer tx.input.zipIdx

def transactionOutpoints (tx : Transaction) (view : SpendView) (timer : Timer) : List OutPoint :=
  spendOutpoints C clock tx view timer ++
    match validateTransactionSpends C clock tx view timer with
    | .error _ => []
    | .ok _ => enforceOutpoints C tx view.availablePrevouts

/-- What the next transaction of a block is validated against. -/
def BlockState.view (chainP2mrUtxos : PrevoutMap) (st : BlockState) : SpendView where
  availablePrevouts := st.validation.availablePrevouts
  chainP2mrUtxos := some chainP2mrUtxos
  spentP2mrInBlock := some st.validation.spentP2mrInBlock

/-- The outpoints that the transactions `txs` of a block look up, each beside the transaction. -/
def lookupsFrom (height : Nat) (activation : Bip360Activation) (chainP2mrUtxos : PrevoutMap) :
    BlockState → List Transaction → List (Transaction × OutPoint) :=
  trace (validateBlockTransaction C clock height activation chainP2mrUtxos) fun st tx =>
    (transactionOutpoints C clock tx (st.view chainP2mrUtxos) st.timer).map fun outpoint => (tx, outpoint)

/-- What the validation of a block looks up when `prevouts` are known from outside. -/
def blockLookups (block : Block) (height : Nat) (activation : Bip360Activation)
    (chainP2mrUtxos prevouts : PrevoutMap) (pqcVerifyBudgetMs : Nat) : List (Transaction × OutPoint) :=
  if !activation.isActive height then []
  else
    lookupsFrom C clock height activation chainP2mrUtxos
      ⟨startValidation C block chainP2mrUtxos prevouts, startTimer pqcVerifyBudgetMs⟩
      (block.txdata.drop 1)

end

/-- The rules of Core on what a block spends, when `utxos` are the unspent outputs of the chain. -/
structure CoreBlock (C : Crypto) (utxos : PrevoutMap) (block : Block) : Prop where
  fresh : ∀ op ∈ outpoints C block.txdata, op ∉ utxos
  /-- No output is spent twice. -/
  once : ((block.txdata.drop 1).flatMap fun tx => tx.input.map TxIn.previousOutput).Nodup
  /-- What is spent is an output of the chain, or of a transaction before. -/
  spends : ∀ entry ∈ block.txdata.zipIdx.drop 1, ∀ input ∈ entry.1.input,
    input.previousOutput ∈ utxos ∨ input.previousOutput ∈ outpoints C (block.txdata.take entry.2)

/-- Of the unspent outputs, `chainP2mrUtxos` are the P2MR outputs. -/
def TracksP2mr (chainP2mrUtxos utxos : PrevoutMap) : Prop :=
  ∀ op, chainP2mrUtxos.lookup op = (utxos.lookup op).filter isP2mr

end Bip360Enforcer.Pqc
