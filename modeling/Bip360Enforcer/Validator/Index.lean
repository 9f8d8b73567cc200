import Bip360Enforcer.Pqc.Replay
import Bip360Enforcer.Validator.Enforcer
import Mathlib.Data.Set.Function

/-!
# Reachable databases and the active chain
-/

namespace Bip360Enforcer.Validator

open Pqc (CoreChain isP2mr)

/-- The hash of each of the headers is its own, and none is the one that stands for no block. -/
structure HonestHashes (C : Crypto) (headers : Set Header) : Prop where
  injective : Set.InjOn C.blockHash headers
  nonzero : ∀ header ∈ headers, C.blockHash header ≠ .allZeros

/-- Outputs from outside are not P2MR outputs: these are all in the table, or in the block. -/
def NoP2mr (extraPrevouts : PrevoutMap) : Prop :=
  ∀ op txout, extraPrevouts.lookup op = some txout → ¬ isP2mr txout

/-- Databases with the chain that is connected in them, newest block first. -/
inductive Reachable (C : Crypto) (headers : Set Header) : Dbs → List Block → Prop where
  | empty : Reachable C headers .empty []
  | putHeaders {ε : Type} [FromDb ε] {s t : Store} {chain : List Block}
      {stored : List (Header × Nat)} (start : Reachable C headers s.dbs chain)
      (known : ∀ entry ∈ stored, entry.1 ∈ headers)
      (run : (putHeaders C stored : Db ε Unit) s = (.ok (), t)) :
      Reachable C headers t.dbs chain
  | connect {s t : Store} {chain : List Block} {handler : BlockHandler} {block : Block} {event : Event}
      (start : Reachable C headers s.dbs chain) (known : block.header ∈ headers)
      (core : CoreChain C (block :: chain)) (extra : NoP2mr handler.extraPrevouts)
      (run : handler.connectBlock C block s = (.ok event, t)) :
      Reachable C headers t.dbs (block :: chain)
  | disconnect {s t : Store} {chain : List Block} {block : Block}
      (start : Reachable C headers s.dbs (block :: chain))
      (run : BlockHandler.disconnectBlock C (C.blockHash block.header) s = (.ok (), t)) :
      Reachable C headers t.dbs chain

/-- What is stored of a block of the active chain, on top of the blocks `below`. -/
structure Entry (dbs : Dbs) (blockHash : BlockHash) (below : List BlockHash) : Prop where
  header : ∃ header, dbs.header.lookup blockHash = some header ∧
    header.prevBlockhash = below.head?.getD .allZeros
  nonzero : blockHash ≠ .allZeros
  height : (dbs.height.lookup blockHash).isSome
  work : (dbs.cumulativeWork.lookup blockHash).isSome
  diff : (dbs.diff.lookup blockHash).isSome

/-- The tip and the headers spell the active chain `hashes`, of which everything is stored. -/
structure Indexed (C : Crypto) (headers : Set Header) (dbs : Dbs) (hashes : List BlockHash) : Prop where
  tip : dbs.currentChainTip = hashes.head?
  entry : ∀ blockHash below, blockHash :: below <:+ hashes → Entry dbs blockHash below
  nodup : hashes.Nodup
  keyed : ∀ blockHash header, dbs.header.lookup blockHash = some header →
    header ∈ headers ∧ C.blockHash header = blockHash

end Bip360Enforcer.Validator
