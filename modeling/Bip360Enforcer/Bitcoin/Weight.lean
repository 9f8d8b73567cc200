import Bip360Enforcer.Bitcoin.Types

/-!
# The weight of transactions
-/

namespace Bip360Enforcer

namespace TxIn

/-- The size without the witness. -/
def baseSize (txin : TxIn) : Nat := 36 + (serializeScript txin.scriptSig).length + 4

def witnessSize (txin : TxIn) : Nat :=
  (compactSize txin.witness.length).length + (txin.witness.map fun e => (serializeScript e).length).sum

def totalSize (txin : TxIn) : Nat := txin.baseSize + txin.witnessSize

end TxIn

namespace Transaction

/-- A transaction without inputs is written in the segwit format, too. -/
def usesSegwitSerialization (tx : Transaction) : Bool :=
  tx.input.any (fun txin => !txin.witness.isEmpty) || tx.input.isEmpty

/-- Version, outputs, lock time and the two counts. -/
def frameSize (tx : Transaction) : Nat :=
  4 + (compactSize tx.input.length).length + (compactSize tx.output.length).length +
    (tx.output.map fun o => o.serialize.length).sum + 4

def baseSize (tx : Transaction) : Nat := tx.frameSize + (tx.input.map TxIn.baseSize).sum

def totalSize (tx : Transaction) : Nat :=
  if tx.usesSegwitSerialization then tx.frameSize + 2 + (tx.input.map TxIn.totalSize).sum
  else tx.baseSize

def weight (tx : Transaction) : Nat := tx.baseSize * 3 + tx.totalSize

end Transaction

end Bip360Enforcer
