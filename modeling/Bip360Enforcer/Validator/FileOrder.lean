import Bip360Enforcer.Validator.BlockFiles

/-!
# Which blocks of the files are taken, and in which order
-/

namespace Bip360Enforcer.Validator

def FileConfig.emptyCache (config : FileConfig) : BlockCache :=
  .new config.maxBlockCacheSize config.maxBlockCacheSize_pos

/-- What is taken of the blocks that the files deliver. What becomes of the blocks then, and in which
batches, is left open. -/
structure Taking where
  missing : List BlockHash
  taken : List Block
  cache : BlockCache
  hasFoundStart : Bool
  iterationsWithoutMatch : Nat

namespace Taking

variable (C : Crypto)

def start (dir : BlocksDir) (missing : List BlockHash) : Taking where
  missing := missing
  taken := []
  cache := dir.config.emptyCache
  hasFoundStart := false
  iterationsWithoutMatch := 0

/-- Take the expected block. -/
def take (block : Block) (st : Taking) : Taking :=
  { st with missing := st.missing.dropLast, taken := st.taken ++ [block] }

/-- Take expected blocks from the cache, at most `n` of them. -/
def takeCached : Nat → Taking → Taking
  | 0, st => st
  | n + 1, st =>
      match st.missing.getLast?.bind st.cache.remove with
      | none => st
      | some (block, cache) => takeCached n ({ st with cache := cache }.take block)

/-- Keep a block that is not expected yet. -/
def keep (block : Block) (st : Taking) : Taking :=
  { st with cache := st.cache.insert (C.blockHash block.header) block }

/-- One block of the files: whether to go on to the next one. -/
def read (maxIterationsWithoutMatch : Nat) (first : BlockHash) (block : Block) (st : Taking) :
    Bool × Taking :=
  if st.hasFoundStart = false ∧ C.blockHash block.header ≠ first then (true, st.keep C block)
  else
    match st.missing.getLast? with
    | none => (false, { st with hasFoundStart := true })
    | some expected =>
        if C.blockHash block.header = expected then
          (true, ({ st with hasFoundStart := true, iterationsWithoutMatch := 0 }.take block).takeCached
            st.missing.dropLast.length)
        else
          (st.iterationsWithoutMatch + 1 < maxIterationsWithoutMatch,
            { st.keep C block with
              hasFoundStart := true
              iterationsWithoutMatch := st.iterationsWithoutMatch + 1 })

/-- All blocks of the files from the n-th one on. -/
def readAll (dir : BlocksDir) (first : BlockHash) : Nat → List Block → Taking → Taking
  | _, [], st => st
  | n, block :: blocks, st =>
      if n % 100 = 0 ∧ dir.cancelled n then st
      else
        match st.read C dir.config.maxIterationsWithoutMatch first block with
        | (true, st) => readAll dir first (n + 1) blocks st
        | (false, st) => st

/-- Whether the block is one to keep. -/
def Keeps (first : BlockHash) (block : Block) (st : Taking) : Prop :=
  (st.hasFoundStart = false ∧ C.blockHash block.header ≠ first) ∨
    ∃ expected, st.missing.getLast? = some expected ∧ C.blockHash block.header ≠ expected

/-- A block that is kept has room in the cache, so that none gives way to it. -/
def Roomy (dir : BlocksDir) (first : BlockHash) : Nat → List Block → Taking → Prop
  | _, [], _ => True
  | n, block :: blocks, st =>
      ¬ (n % 100 = 0 ∧ dir.cancelled n) →
        (st.Keeps C first block → C.blockHash block.header ∈ st.cache.blocks ∨
          st.cache.blocks.entries.length < st.cache.maxSize) ∧
        ∀ st', st.read C dir.config.maxIterationsWithoutMatch first block = (true, st') →
          Roomy dir first (n + 1) blocks st'

end Taking

/-- The blocks that can be read of what the parser delivers, up to the first error. -/
def readBlocks : List (Except SyncError FileBlock) → List Block
  | .ok ⟨header, .ok txData⟩ :: items => ⟨header, txData⟩ :: readBlocks items
  | _ => []

/-- The error is one of the parser, or that of a block whose transactions are not readable. -/
def ParseError (items : List (Except SyncError FileBlock)) (e : SyncError) : Prop :=
  .error e ∈ items ∨ ∃ header, .ok ⟨header, .error e⟩ ∈ items

/-- The blocks that a sync of `missing` takes from the files, which deliver the blocks `delivered`. -/
def takenBlocks (C : Crypto) (dir : BlocksDir) (missing : List BlockHash) (first : BlockHash)
    (delivered : List Block) : List Block :=
  (Taking.readAll C dir first 0 delivered (.start dir missing)).taken

end Bip360Enforcer.Validator
