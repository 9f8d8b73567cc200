import Bip360Enforcer.Pqc.Limits
import Mathlib.Data.Finset.Insert

/-!
# The P2MR outputs that a block creates and spends
-/

namespace Bip360Enforcer.Pqc

/-- What connecting a block adds to and removes from the P2MR outputs of the chain. -/
structure P2mrUtxoBlockDiff where
  spent : PrevoutMap
  created : PrevoutMap
  deriving DecidableEq

namespace P2mrUtxoBlockDiff

def empty : P2mrUtxoBlockDiff := ⟨∅, ∅⟩

/-- An output created in the same block cancels out; any other is spent from the chain. -/
def spend (diff : P2mrUtxoBlockDiff) (outpoint : OutPoint) (prevout : TxOut) : P2mrUtxoBlockDiff :=
  if outpoint ∈ diff.created then { diff with created := diff.created.erase outpoint }
  else { diff with spent := diff.spent.insert outpoint prevout }

def create (diff : P2mrUtxoBlockDiff) (outpoint : OutPoint) (output : TxOut) : P2mrUtxoBlockDiff :=
  if isP2mr output then { diff with created := diff.created.insert outpoint output } else diff

end P2mrUtxoBlockDiff

/-- The outputs of a transaction with their outpoints. -/
def txOutputs (C : Crypto) (tx : Transaction) : List (OutPoint × TxOut) :=
  let txid := C.computeTxid tx
  tx.output.zipIdx.map fun (output, vout) => (⟨txid, UInt32.ofNat vout⟩, output)

/-! ## Without validation -/

/-- The P2MR outputs available and the diff so far. -/
structure DiffState where
  available : PrevoutMap
  diff : P2mrUtxoBlockDiff
  deriving DecidableEq

namespace DiffState

def spend (st : DiffState) (outpoint : OutPoint) : DiffState :=
  match st.available.lookup outpoint with
  | none => st
  | some prevout =>
      { available := st.available.erase outpoint
        diff := if isP2mr prevout then st.diff.spend outpoint prevout else st.diff }

def create (st : DiffState) (entry : OutPoint × TxOut) : DiffState where
  available := if isP2mr entry.2 then st.available.insert entry.1 entry.2 else st.available
  diff := st.diff.create entry.1 entry.2

end DiffState

section

variable (C : Crypto)

def applyTxToAvailable (st : DiffState) (tx : Transaction) : DiffState :=
  let st := tx.input.foldl (fun st input => st.spend input.previousOutput) st
  (txOutputs C tx).foldl DiffState.create st

def computeBlockDiff (block : Block) (chainUtxos : PrevoutMap) : P2mrUtxoBlockDiff :=
  (block.txdata.foldl (applyTxToAvailable C) ⟨chainUtxos, .empty⟩).diff

/-! ## During validation -/

/-- All outputs available, the diff when it is kept, and the P2MR outputs spent in the block. -/
structure ValidationState where
  availablePrevouts : PrevoutMap
  diff : Option P2mrUtxoBlockDiff
  spentP2mrInBlock : Finset OutPoint
  deriving DecidableEq

namespace ValidationState

def spend (st : ValidationState) (outpoint : OutPoint) : ValidationState :=
  match st.availablePrevouts.lookup outpoint with
  | none => st
  | some prevout =>
      let st := { st with availablePrevouts := st.availablePrevouts.erase outpoint }
      if isP2mr prevout then
        { st with
          spentP2mrInBlock := insert outpoint st.spentP2mrInBlock
          diff := st.diff.map fun diff => diff.spend outpoint prevout }
      else st

def create (st : ValidationState) (entry : OutPoint × TxOut) : ValidationState :=
  { st with
    availablePrevouts := st.availablePrevouts.insert entry.1 entry.2
    diff := st.diff.map fun diff => diff.create entry.1 entry.2 }

end ValidationState

def applyTxToValidationAvailable (st : ValidationState) (tx : Transaction) : ValidationState :=
  let st := tx.input.foldl (fun st input => st.spend input.previousOutput) st
  (txOutputs C tx).foldl ValidationState.create st

end

end Bip360Enforcer.Pqc
