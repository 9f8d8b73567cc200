import Bip360Enforcer.Library.Forest
import Bip360Enforcer.Validator.Dbs

/-!
# The forest of stored headers
-/

namespace Bip360Enforcer.Validator

/-- `ancestor` is the stored block `blockHash` or a stored block before it. -/
inductive AncestorOf (headers : HashDb Header) : BlockHash → BlockHash → Prop where
  | self {blockHash : BlockHash} {header : Header} (stored : headers.lookup blockHash = some header) :
      AncestorOf headers blockHash blockHash
  | parent {ancestor blockHash : BlockHash} {header : Header}
      (stored : headers.lookup blockHash = some header)
      (above : AncestorOf headers ancestor header.prevBlockhash) : AncestorOf headers ancestor blockHash

/-- Headers are stored on top of stored headers or of no block, and heights count from there. -/
structure HeaderForest (dbs : Dbs) : Prop where
  parent : ∀ blockHash header, dbs.header.lookup blockHash = some header →
    header.prevBlockhash = .allZeros ∨ (dbs.header.lookup header.prevBlockhash).isSome
  height : ∀ blockHash header, dbs.header.lookup blockHash = some header →
    (dbs.height.lookup blockHash).isSome
  first : ∀ blockHash header, dbs.header.lookup blockHash = some header →
    header.prevBlockhash = .allZeros → dbs.height.lookup blockHash = some 0
  next : ∀ blockHash header, dbs.header.lookup blockHash = some header →
    (dbs.header.lookup header.prevBlockhash).isSome →
    dbs.height.lookup blockHash = (dbs.height.lookup header.prevBlockhash).map (· + 1)

/-- The block is stored, or it is the zero hash. -/
def StoredOrZero (dbs : Dbs) (blockHash : BlockHash) : Prop :=
  (dbs.header.lookup blockHash).isSome ∨ blockHash = .allZeros

/-- The common ancestor of greatest height; the zero hash where there is no common ancestor. -/
def IsLastCommonAncestor (dbs : Dbs) (blockHash0 blockHash1 ancestor : BlockHash) : Prop :=
  (ancestor = .allZeros ∧ ∀ other, AncestorOf dbs.header other blockHash0 →
      ¬ AncestorOf dbs.header other blockHash1) ∨
  AncestorOf dbs.header ancestor blockHash0 ∧ AncestorOf dbs.header ancestor blockHash1 ∧
    ∀ other, AncestorOf dbs.header other blockHash0 → AncestorOf dbs.header other blockHash1 →
      other = ancestor ∨ ∃ height greater, dbs.height.lookup other = some height ∧
        dbs.height.lookup ancestor = some greater ∧ height < greater

end Bip360Enforcer.Validator
