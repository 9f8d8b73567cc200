import Bip360Enforcer.Tapscript.Enforce

/-!
# Transactions that differ in the witness of an input
-/

namespace Bip360Enforcer

/-! ## Witnesses -/

def TxIn.stripped (input : TxIn) : TxIn := { input with witness := [] }

/-- The transaction with the witnesses of all inputs removed. -/
def Transaction.stripped (tx : Transaction) : Transaction :=
  { tx with input := tx.input.map TxIn.stripped }

/-- The transaction with `witness` at the input `inputIndex`. -/
def Transaction.setWitness (tx : Transaction) (inputIndex : Nat) (witness : List Bytes) : Transaction :=
  { tx with input := tx.input.modify inputIndex fun input => { input with witness } }

namespace Tapscript

def LeafContext.stripped (ctx : LeafContext) : LeafContext := { ctx with tx := ctx.tx.stripped }

/-- The pass over all inputs but `inputIndex` accepts: the leaves that they reveal end true, and the
outputs carry the amounts of the checks queued by them. -/
def OthersPass (C : Crypto) (tx : Transaction) (prevouts : PrevoutMap) (inputIndex : Nat) : Prop :=
  ∃ deferred, (tx.input.zipIdx.eraseIdx inputIndex).foldlM (enforceInput C tx prevouts) [] = .ok deferred ∧
    evaluateDeferredChecks deferred tx = .ok ()

end Tapscript

end Bip360Enforcer
