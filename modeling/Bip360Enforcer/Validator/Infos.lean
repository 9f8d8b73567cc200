import Bip360Enforcer.Validator.Enforcer

/-!
# Infos of blocks and their ancestors
-/

namespace Bip360Enforcer.Validator

/-- A list with at least one entry. -/
structure NonEmpty (α : Type) where
  head : α
  tail : List α
  deriving DecidableEq, Repr

namespace NonEmpty

def toList {α : Type} (xs : NonEmpty α) : List α := xs.head :: xs.tail

end NonEmpty

inductive GetBlockInfosError where
  | db (error : DbError)
  /-- A header is stored under another hash than its own. -/
  | panicked (blockHash : BlockHash)
  | missingHeaderBlock (blockHash : BlockHash)
  deriving DecidableEq, Repr

instance : FromDb GetBlockInfosError := ⟨.db⟩

/-! ## Databases -/

namespace BlockHashDbs

variable (C : Crypto)

def tryGetHeaderInfo (blockHash : BlockHash) : Db GetBlockInfosError (Option HeaderInfo) := do
  match ← tryGet Dbs.header blockHash with
  | none => pure none
  | some header =>
      if C.blockHash header ≠ blockHash then Program.fail (.panicked blockHash)
      else
        match ← tryGet Dbs.height blockHash with
        | none => Program.fail (.db .inconsistent)
        | some height => pure (some {
            blockHash := C.blockHash header
            prevBlockHash := header.prevBlockhash
            height := height
            work := C.work header
            timestamp := header.time })

/-- The infos of `ancestor` and the blocks before it, as far as they are stored, at most `ancestors`. -/
def ancestorInfos : Nat → BlockHash → Db GetBlockInfosError (List HeaderInfo)
  | 0, _ => pure []
  | ancestors + 1, ancestor => do
      if ancestor = .allZeros then pure []
      else
        match ← tryGetHeaderInfo C ancestor with
        | none => pure []
        | some headerInfo => do
            let rest ← ancestorInfos ancestors headerInfo.prevBlockHash
            pure (headerInfo :: rest)

/-- Newest first. -/
def tryGetHeaderInfos (blockHash : BlockHash) (maxAncestors : Nat) :
    Db GetBlockInfosError (Option (NonEmpty HeaderInfo)) := do
  match ← tryGetHeaderInfo C blockHash with
  | none => pure none
  | some headerInfo => do
      let rest ← ancestorInfos C maxAncestors headerInfo.prevBlockHash
      pure (some ⟨headerInfo, rest⟩)

def tryGetBlockInfo (blockHash : BlockHash) : Db GetBlockInfosError (Option BlockInfo) := do
  match ← tryGet Dbs.coinbaseTxid blockHash with
  | none => pure none
  | some coinbaseTxid => pure (some ⟨coinbaseTxid⟩)

/-- The infos of these blocks, up to the first one of which none is stored. -/
def blockInfosOf : List HeaderInfo → Db GetBlockInfosError (List (HeaderInfo × BlockInfo))
  | [] => pure []
  | headerInfo :: headerInfos => do
      match ← tryGetBlockInfo headerInfo.blockHash with
      | none => pure []
      | some info => do
          let rest ← blockInfosOf headerInfos
          pure ((headerInfo, info) :: rest)

end BlockHashDbs

/-! ## Validator -/

variable (C : Crypto)

def tryGetHeaderInfos (blockHash : BlockHash) (maxAncestors : Nat) :
    Db GetBlockInfosError (Option (NonEmpty HeaderInfo)) := do
  access
  BlockHashDbs.tryGetHeaderInfos C blockHash maxAncestors

/-- Newest first. -/
def tryGetBlockInfos (blockHash : BlockHash) (maxAncestors : Nat) :
    Db GetBlockInfosError (Option (NonEmpty (HeaderInfo × BlockInfo))) := do
  access
  match ← BlockHashDbs.tryGetHeaderInfos C blockHash maxAncestors with
  | none => pure none
  | some headerInfos =>
      match ← BlockHashDbs.tryGetBlockInfo blockHash with
      | none => pure none
      | some info => do
          let rest ← BlockHashDbs.blockInfosOf headerInfos.tail
          pure (some ⟨(headerInfos.head, info), rest⟩)

def getBlockInfos (blockHash : BlockHash) (maxAncestors : Nat) :
    Db GetBlockInfosError (NonEmpty (HeaderInfo × BlockInfo)) := do
  match ← tryGetBlockInfos C blockHash maxAncestors with
  | some res => pure res
  | none => Program.fail (.missingHeaderBlock blockHash)

end Bip360Enforcer.Validator
