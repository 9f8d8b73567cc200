import Bip360Enforcer.Validator.BlockFiles

/-!
# The block cache over a run of calls
-/

namespace Bip360Enforcer.Validator

namespace BlockCache

/-- The eviction loop as it stands, in at most `fuel` turns: one that finds nothing to evict goes round
again. -/
def evictLoop (maxSize : Nat) : Nat → List BlockHash → HashDb Block →
    Option (List BlockHash × HashDb Block)
  | 0, insertionOrder, blocks =>
      if blocks.entries.length < maxSize then some (insertionOrder, blocks) else none
  | fuel + 1, insertionOrder, blocks =>
      if blocks.entries.length < maxSize then some (insertionOrder, blocks)
      else
        match insertionOrder with
        | [] => evictLoop maxSize fuel [] blocks
        | oldestHash :: insertionOrder =>
            evictLoop maxSize fuel insertionOrder (blocks.erase oldestHash)

/-- `insert` with that loop. -/
def insertLoop (fuel : Nat) (cache : BlockCache) (blockHash : BlockHash) (block : Block) :
    Option BlockCache :=
  if blockHash ∈ cache.blocks then some cache
  else
    (evictLoop cache.maxSize fuel cache.insertionOrder cache.blocks).map fun (insertionOrder, blocks) =>
      { cache with
        blocks := blocks.insert blockHash block
        insertionOrder := insertionOrder ++ [blockHash] }

end BlockCache

inductive CacheCall where
  | insert (blockHash : BlockHash) (block : Block)
  | remove (blockHash : BlockHash)

/-- A cache with its history: how many calls there were, and with which of them a block was added last. -/
structure CacheRun where
  cache : BlockCache
  calls : Nat
  added : BlockHash → Nat

namespace CacheRun

def start (maxSize : Nat) (h : 0 < maxSize) : CacheRun := ⟨.new maxSize h, 0, fun _ => 0⟩

def step (run : CacheRun) : CacheCall → CacheRun
  | .insert blockHash block =>
      { cache := run.cache.insert blockHash block
        calls := run.calls + 1
        added := if blockHash ∈ run.cache.blocks then run.added
          else Function.update run.added blockHash run.calls }
  | .remove blockHash =>
      { run with
        cache := (run.cache.remove blockHash).elim run.cache Prod.snd
        calls := run.calls + 1 }

def steps (run : CacheRun) (calls : List CacheCall) : CacheRun := calls.foldl step run

end CacheRun

end Bip360Enforcer.Validator
