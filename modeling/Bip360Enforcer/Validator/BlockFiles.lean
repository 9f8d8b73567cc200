import Bip360Enforcer.Validator.Task

/-!
# Catching up from the block files of the node
-/

namespace Bip360Enforcer.Validator

/-! ## Block cache -/

/-- Blocks that were read before they were expected; the oldest one gives way. -/
structure BlockCache where
  blocks : HashDb Block
  insertionOrder : List BlockHash
  maxSize : Nat
  maxSize_pos : 0 < maxSize

namespace BlockCache

def new (maxSize : Nat) (h : 0 < maxSize) : BlockCache := ⟨∅, [], maxSize, h⟩

/-- Evict the oldest blocks, as long as there are `maxSize` of them. -/
def evict (maxSize : Nat) : List BlockHash → HashDb Block → List BlockHash × HashDb Block
  | [], blocks => ([], blocks)
  | oldestHash :: insertionOrder, blocks =>
      if blocks.entries.length < maxSize then (oldestHash :: insertionOrder, blocks)
      else evict maxSize insertionOrder (blocks.erase oldestHash)

def insert (cache : BlockCache) (blockHash : BlockHash) (block : Block) : BlockCache :=
  if blockHash ∈ cache.blocks then cache
  else
    let (insertionOrder, blocks) := evict cache.maxSize cache.insertionOrder cache.blocks
    { cache with
      blocks := blocks.insert blockHash block
      insertionOrder := insertionOrder ++ [blockHash] }

def remove (cache : BlockCache) (blockHash : BlockHash) : Option (Block × BlockCache) :=
  (cache.blocks.lookup blockHash).map fun block =>
    (block, { cache with
      blocks := cache.blocks.erase blockHash
      insertionOrder := cache.insertionOrder.erase blockHash })

end BlockCache

/-! ## File sync -/

/-- A block as the parser delivers it: its transactions may turn out not to be readable. -/
structure FileBlock where
  header : Header
  txData : Except SyncError (List Transaction)

structure FileConfig where
  maxBlockCacheSize : Nat
  maxBlockCacheSize_pos : 0 < maxBlockCacheSize
  maxIterationsWithoutMatch : Nat
  blocksDirConnectBatchSize : Nat

def FileConfig.default : FileConfig := ⟨5000, by decide, 5000, 2000⟩

/-- The block files and the token that stops reading them. -/
structure BlocksDir where
  config : FileConfig
  /-- What the parser delivers once it is set to the position of the given block. -/
  parse : BlockHash → Except SyncError (List (Except SyncError FileBlock))
  /-- Whether the token is cancelled when it is looked at before the n-th block. -/
  cancelled : Nat → Bool

/-- The variables of a file sync. The next expected block is the last one of `missingBlocks`. -/
structure FileSync where
  store : Store
  missingBlocks : List BlockHash
  pendingBlocks : List Block
  totalHandledBlocks : Nat
  blockCache : BlockCache
  hasFoundStart : Bool
  iterationsWithoutMatch : Nat

abbrev FileM (α : Type) := Program FileSync SyncError α

def liftDb {α : Type} (x : Db SyncError α) : FileM α := fun st =>
  ((x st.store).1, { st with store := (x st.store).2 })

namespace BlockHandler

variable (C : Crypto) (handler : BlockHandler)

/-- Connect the pending blocks: whether all of them are connected. Those that are not go back to the
missing ones. -/
def connectPendingBlocks : FileM Bool := do
  let st ← Program.get
  match ← liftDb (handler.connectBatch C st.pendingBlocks) with
  | none => do
      Program.modify fun st => { st with
        totalHandledBlocks := st.totalHandledBlocks + st.pendingBlocks.length
        pendingBlocks := [] }
      pure true
  | some (rejectedBlock, _) => do
      let rejectedIdx := st.pendingBlocks.findIdx fun block => C.blockHash block.header = rejectedBlock
      let unconnected := (st.pendingBlocks.drop rejectedIdx).map fun block => C.blockHash block.header
      Program.modify fun st => { st with
        missingBlocks := st.missingBlocks ++ unconnected.reverse
        totalHandledBlocks := st.totalHandledBlocks + rejectedIdx
        pendingBlocks := [] }
      pure false

/-- Take the expected block as the next one to connect. -/
def pushPending (block : Block) : FileM Unit :=
  Program.modify fun st => { st with
    pendingBlocks := st.pendingBlocks ++ [block]
    missingBlocks := st.missingBlocks.dropLast }

/-- Connect the pending blocks once there are enough of them, or none is missing. -/
def connectFullBatch (config : FileConfig) : FileM Bool := do
  let st ← Program.get
  if config.blocksDirConnectBatchSize ≤ st.pendingBlocks.length ∨ st.missingBlocks.isEmpty then
    handler.connectPendingBlocks C
  else pure true

/-- Take expected blocks from the cache, at most `n` of them. -/
def processCachedBlocks (config : FileConfig) : Nat → FileM Bool
  | 0 => pure true
  | n + 1 => do
      let st ← Program.get
      match st.missingBlocks.getLast?.bind st.blockCache.remove with
      | none => pure true
      | some (cachedBlock, blockCache) => do
          Program.modify fun st => { st with blockCache := blockCache }
          pushPending cachedBlock
          if ← handler.connectFullBatch C config then processCachedBlocks config n
          else pure false

/-- Connect what is pending when the files are left early or are at their end. -/
def flushPending : FileM Unit := do
  let st ← Program.get
  if st.pendingBlocks.isEmpty then pure ()
  else do
    let _ ← handler.connectPendingBlocks C
    pure ()

/-- Keep a block that is not expected yet. -/
def cacheBlock (block : FileBlock) : FileM Unit := do
  let txData ← Program.ofExcept block.txData
  Program.modify fun st => { st with
    blockCache := st.blockCache.insert (C.blockHash block.header) ⟨block.header, txData⟩ }

/-- One block of the files: whether to go on to the next one. -/
def handleFileBlock (config : FileConfig) (firstMissingBlock : BlockHash) (block : FileBlock) :
    FileM Bool := do
  let st ← Program.get
  let blockHash := C.blockHash block.header
  if !st.hasFoundStart && blockHash ≠ firstMissingBlock then do
    cacheBlock C block
    pure true
  else do
    Program.modify fun st => { st with hasFoundStart := true }
    match st.missingBlocks.getLast? with
    | none => pure false
    | some expectedBlockHash =>
        if blockHash = expectedBlockHash then do
          Program.modify fun st => { st with iterationsWithoutMatch := 0 }
          let txData ← Program.ofExcept block.txData
          pushPending ⟨block.header, txData⟩
          if ← handler.connectFullBatch C config then do
            let st ← Program.get
            handler.processCachedBlocks C config st.missingBlocks.length
          else pure false
        else do
          cacheBlock C block
          Program.modify fun st => { st with iterationsWithoutMatch := st.iterationsWithoutMatch + 1 }
          let st ← Program.get
          if config.maxIterationsWithoutMatch ≤ st.iterationsWithoutMatch then do
            handler.flushPending C
            pure false
          else pure true

/-- The loop over the blocks of the files, before the `iteration`-th of which it stands. -/
def fileLoop (dir : BlocksDir) (firstMissingBlock : BlockHash) :
    Nat → List (Except SyncError FileBlock) → FileM Unit
  | iteration, items => do
      if iteration % 100 = 0 ∧ dir.cancelled iteration then do
        handler.flushPending C
        Program.fail .shutdown
      else
        match items with
        | [] => pure ()
        | item :: items => do
            let block ← Program.ofExcept item
            if ← handler.handleFileBlock C dir.config firstMissingBlock block then
              fileLoop dir firstMissingBlock (iteration + 1) items
            else pure ()

def syncFromDirectory (dir : BlocksDir) : FileM Nat := do
  let st ← Program.get
  match st.missingBlocks.getLast? with
  | none => pure 0
  | some firstMissingBlock => do
      let items ← Program.ofExcept (dir.parse firstMissingBlock)
      let _ ← liftDb (get Dbs.height (st.missingBlocks.head?.getD firstMissingBlock))
      handler.fileLoop C dir firstMissingBlock 0 items
      handler.flushPending C
      let st ← Program.get
      pure st.totalHandledBlocks

/-- File sync before anything has been read. -/
def startFileSync (dir : BlocksDir) (missingBlocks : List BlockHash) (store : Store) : FileSync where
  store := store
  missingBlocks := missingBlocks
  pendingBlocks := []
  totalHandledBlocks := 0
  blockCache := .new dir.config.maxBlockCacheSize dir.config.maxBlockCacheSize_pos
  hasFoundStart := false
  iterationsWithoutMatch := 0

/-- The blocks that are still missing after a file sync, the error of which is only logged. -/
def missingAfterFileSync (dir : Option BlocksDir) (missingBlocks : List BlockHash) :
    Db SyncError (List BlockHash) :=
  match dir with
  | none => pure missingBlocks
  | some dir => fun s =>
      let st := (handler.syncFromDirectory C dir (startFileSync dir missingBlocks s)).2
      (.ok st.missingBlocks, st.store)

/-! ## The rest of the blocks, from the node -/

/-- What catching up asks the outside for. -/
structure SyncSource where
  blocksDir : Option BlocksDir
  /-- Whether the token is cancelled before the n-th batch. -/
  cancelled : Nat → Bool
  /-- The answer of the node to the n-th batch of block hashes. -/
  fetchBlocksBatch : Nat → List BlockHash → Except SyncError (List Block)

def blockFetchBatchSize : Nat := 50

/-- Fetch and connect the blocks of `chunks`, the first of which is the n-th batch. -/
def syncBatches (source : SyncSource) :
    Nat → List (List BlockHash) → Db SyncError (Option (BlockHash × ConnectBlockError))
  | _, [] => pure none
  | n, chunk :: chunks => do
      if source.cancelled n then Program.fail .shutdown
      else do
        let blocks ← Program.ofExcept (source.fetchBlocksBatch n chunk)
        match ← handler.connectBatch C blocks with
        | some rejected => pure (some rejected)
        | none => syncBatches source (n + 1) chunks

/-- To be called after the headers are stored. -/
def syncBlocks (source : SyncSource) (mainTip : BlockHash) :
    Db SyncError (Option (BlockHash × ConnectBlockError)) := do
  let currentEnforcerTip ← transaction (disconnectStale C mainTip)
  let missing ← read fun dbs => missingBlocks dbs mainTip currentEnforcerTip
  if missing.isEmpty then pure none
  else do
    let missing ← handler.missingAfterFileSync C source.blocksDir missing
    handler.syncBatches C source 0 (missing.reverse.toChunks blockFetchBatchSize)

end BlockHandler

end Bip360Enforcer.Validator
