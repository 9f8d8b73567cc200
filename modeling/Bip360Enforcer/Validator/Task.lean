import Bip360Enforcer.Validator.Dbs

/-!
# Connecting and disconnecting blocks
-/

namespace Bip360Enforcer.Validator

open Pqc (Clock Bip360Activation PqcValidationError validateAndDiffBlockTransactions
  validateMempoolTransaction)

/-! ## Errors -/

inductive ConnectBlockError where
  | blockParent (parent tip : BlockHash) (tipHeight : Nat)
  | db (error : DbError)
  | noCoinbase
  | putBlockInfo (error : PutBlockInfoError)
  | bip360 (blockHash : BlockHash) (source : PqcValidationError)
  deriving DecidableEq, Repr

instance : FromDb ConnectBlockError := ⟨.db⟩

/-- An error that is not fatal rejects the block. -/
def ConnectBlockError.isFatal : ConnectBlockError → Bool
  | db _ | putBlockInfo _ => true
  | blockParent _ _ _ | noCoinbase | bip360 _ _ => false

inductive DisconnectBlockError where
  | db (error : DbError)
  | getHeaderInfo (error : GetHeaderInfoError)
  | tipHash (blockHash tipHash : BlockHash)
  | undo (error : DbError)
  deriving DecidableEq, Repr

instance : FromDb DisconnectBlockError := ⟨.db⟩

inductive ValidateTransactionError where
  | db (error : DbError)
  | noChainTip
  deriving DecidableEq, Repr

instance : FromDb ValidateTransactionError := ⟨.db⟩

/-! ## Block handler -/

structure BlockHandler where
  /-- The height at which P2MR spends begin to be validated. -/
  activationHeight : Nat
  pqcVerifyBudgetMs : Nat
  /-- Outputs looked up before the block is connected; none on the paths of sync and disconnect. -/
  extraPrevouts : PrevoutMap
  /-- How long the verifications of each block take. -/
  clock : BlockHash → Clock

namespace BlockHandler

variable (C : Crypto) (handler : BlockHandler)

def activation : Bip360Activation := ⟨handler.activationHeight⟩

def validateTx (transaction : Transaction) : Db ValidateTransactionError Bool := do
  access
  match ← read Dbs.currentChainTip with
  | none => Program.fail .noChainTip
  | some tipHash =>
      let tipHeight ← get Dbs.height tipHash
      match validateMempoolTransaction C (handler.clock []) transaction tipHeight handler.activation with
      | .ok () => pure true
      | .error _ => pure false

/-- Whether a chain of this much work becomes the active one. -/
def hasMoreWork (cumulativeWork : Nat) (currentTipCumulativeWork : Option Nat) : Bool :=
  currentTipCumulativeWork.all fun work => work < cumulativeWork

def currentTipCumulativeWork : Db ConnectBlockError (Option Nat) := do
  match ← read Dbs.currentChainTip with
  | none => pure none
  | some currentTip =>
      let work ← get Dbs.cumulativeWork currentTip
      pure (some work)

def connectBlockPassThrough (block : Block) (height : Nat) (coinbase : Transaction)
    (blockHash prevMainchainBlockHash : BlockHash) : Db ConnectBlockError Event := do
  let chainUtxos ← read Dbs.p2mrUtxos
  let p2mrUtxo ← Program.mapError (.bip360 blockHash) (Program.ofExcept
    (validateAndDiffBlockTransactions C (handler.clock blockHash) block height handler.activation
      chainUtxos handler.extraPrevouts handler.pqcVerifyBudgetMs))
  let blockInfo : BlockInfo := ⟨C.computeTxid coinbase⟩
  applyDiff p2mrUtxo
  Program.mapError .putBlockInfo (putBlockInfo C blockHash blockInfo p2mrUtxo)
  let tipCumulativeWork ← currentTipCumulativeWork
  let cumulativeWork ← get Dbs.cumulativeWork blockHash
  if hasMoreWork cumulativeWork tipCumulativeWork then
    write fun dbs => { dbs with currentChainTip := some blockHash }
  let headerInfo : HeaderInfo := {
    blockHash := blockHash
    prevBlockHash := prevMainchainBlockHash
    height := height
    work := C.work block.header
    timestamp := block.header.time }
  pure (.connectBlock headerInfo blockInfo)

/-- The parent of a block to connect is the current tip; with no tip it has no parent. -/
def checkParent (parent : BlockHash) : Db ConnectBlockError Unit := do
  match ← read Dbs.currentChainTip with
  | some tip =>
      if parent = tip then pure ()
      else
        let tipHeight ← Program.attempt (get Dbs.height tip : Db DbError Nat)
        Program.fail (.blockParent parent tip (tipHeight.toOption.getD 0))
  | none =>
      if parent = .allZeros then pure ()
      else Program.fail (.blockParent parent .allZeros 0)

/-- The header of the block should be stored before. -/
def connectBlock (block : Block) : Db ConnectBlockError Event := do
  checkParent block.header.prevBlockhash
  let blockHash := C.blockHash block.header
  let height ← get Dbs.height blockHash
  match block.txdata with
  | [] => Program.fail .noCoinbase
  | coinbase :: _ =>
      handler.connectBlockPassThrough C block height coinbase blockHash block.header.prevBlockhash

/-- The tip after the block with this parent is disconnected. -/
def tipBefore (prevBlockHash : BlockHash) : Option BlockHash :=
  if prevBlockHash ≠ .allZeros then some prevBlockHash else none

/-- The part of `disconnectBlock` that works on the databases: whether there was a block to undo. A
block without a stored diff was rejected, so that nothing is to do. -/
def undoBlock (blockHash : BlockHash) : Db DisconnectBlockError Bool := do
  match ← tryGet Dbs.diff blockHash with
  | none => pure false
  | some diff =>
      let tip ← read Dbs.currentChainTip
      match tip.filter (· ≠ blockHash) with
      | some tipHash => Program.fail (.tipHash blockHash tipHash)
      | none =>
          let headerInfo ← Program.mapError .getHeaderInfo (getHeaderInfo C blockHash)
          Program.mapError .undo (undoDiff diff)
          write fun dbs => { dbs with currentChainTip := tipBefore headerInfo.prevBlockHash }
          pure true

def disconnectBlock (blockHash : BlockHash) : Db DisconnectBlockError Unit := do
  if ← undoBlock C blockHash then broadcast (.disconnectBlock blockHash)

end BlockHandler

/-! ## Catching up -/

inductive SyncError where
  | batchJsonRpc
  | blockDirectoryParser
  | blockFileParserSetOffset
  | blockNotInActiveChain (blockHash : BlockHash)
  | connectBlock (error : ConnectBlockError)
  | db (error : DbError)
  | decode
  | disconnectBlock (error : DisconnectBlockError)
  | fetchBlockIndex
  | headerSyncInProgress
  | hex
  | jsonRpc (method : String)
  | lastCommonAncestor (error : LastCommonAncestorError)
  | parseBlockFiles
  | rest
  | shutdown
  /-- The loop that disconnects blocks does not come to its end. -/
  | diverged
  deriving DecidableEq, Repr

instance : FromDb SyncError := ⟨.db⟩

namespace BlockHandler

variable (C : Crypto) (handler : BlockHandler)

/-- The first block that is rejected, with the reason; `none` where all are connected. -/
def handleBlockBatch : List Block → Db SyncError (Option (BlockHash × ConnectBlockError))
  | [] => pure none
  | block :: blocks => do
      match ← Program.attempt (handler.connectBlock C block) with
      | .ok event =>
          broadcast event
          handleBlockBatch blocks
      | .error err =>
          if err.isFatal then Program.fail (.connectBlock err)
          else pure (some (C.blockHash block.header, err))

/-- Disconnect the tip, until it is `target`. -/
def disconnectDownTo (target : BlockHash) : Nat → BlockHash → Db SyncError BlockHash
  | fuel, currentEnforcerTip =>
      if currentEnforcerTip = target then pure currentEnforcerTip
      else
        match fuel with
        | 0 => Program.fail .diverged
        | fuel + 1 => do
            Program.mapError .disconnectBlock (disconnectBlock C currentEnforcerTip)
            let tip ← read Dbs.currentChainTip
            disconnectDownTo target fuel (tip.getD .allZeros)

/-- Disconnect the blocks that are not ancestors of `mainTip`. -/
def disconnectStale (mainTip : BlockHash) : Db SyncError BlockHash := do
  let tip ← read Dbs.currentChainTip
  let currentEnforcerTip := tip.getD .allZeros
  let ancestor ← Program.mapError .lastCommonAncestor (lastCommonAncestor currentEnforcerTip mainTip)
  -- Without a block to disconnect, the transaction is dropped; it has written nothing.
  if currentEnforcerTip = ancestor then pure currentEnforcerTip
  else do
    let s ← Program.get
    let currentEnforcerTip ← disconnectDownTo C ancestor s.dbs.header.entries.length currentEnforcerTip
    commit
    pure currentEnforcerTip

/-- The blocks from `mainTip` back to the current tip, which is left out. -/
def missingBlocks (dbs : Dbs) (mainTip currentEnforcerTip : BlockHash) : List BlockHash :=
  ((ancestorHeaders dbs.header dbs.header.entries.length mainTip).map Prod.fst).takeWhile
    (· ≠ currentEnforcerTip)

/-- Connect a batch of blocks and commit them. -/
def connectBatch (blocks : List Block) : Db SyncError (Option (BlockHash × ConnectBlockError)) :=
  transaction do
    let rejected ← handler.handleBlockBatch C blocks
    commit
    pure rejected

end BlockHandler

end Bip360Enforcer.Validator
