import Bip360Enforcer.Library.SortedTable
import Bip360Enforcer.Validator.Summary
import Bip360Enforcer.Wallet.Spend

/-!
# The P2MR outputs, as the wallet shows them
-/

namespace Bip360Enforcer.Wallet

open Validator (DbError)

inductive ListP2mrOutputsError where
  | getP2mrUtxos (source : DbError)
  | store (source : P2mrFileError)
  deriving DecidableEq, Repr

structure P2mrOutput where
  outpoint : OutPoint
  txout : TxOut
  isMine : Bool
  deriving DecidableEq, Repr

variable {C : Crypto} (json : P2mrJson)

/-- `Validator::p2mr_utxos`. -/
def p2mrUtxos : Program (Wallet C) DbError PrevoutMap :=
  onProducer (BlockProducer.onStore (Validator.read Validator.Dbs.p2mrUtxos))

/-- An output is the wallet's own if its store has the key. -/
def p2mrOutput (entry : Sigma fun _ : OutPoint => TxOut) :
    Program (Wallet C) ListP2mrOutputsError P2mrOutput := do
  let record ← Program.mapError .store (onP2mrStore (P2mrFile.getBySpk json entry.2.scriptPubkey))
  pure ⟨entry.1, entry.2, record.isSome⟩

/-- The order of the entries is that of a hash map. -/
def listP2mrOutputs : Program (Wallet C) ListP2mrOutputsError (List P2mrOutput) := do
  let utxos ← Program.mapError .getP2mrUtxos p2mrUtxos
  let outputs ← utxos.entries.mapM (p2mrOutput json)
  pure (outputs.insertionSort fun a b => a.outpoint ≤ b.outpoint)

end Bip360Enforcer.Wallet
