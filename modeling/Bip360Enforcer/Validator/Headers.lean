import Bip360Enforcer.Validator.Enforcer
import Mathlib.Data.List.Sort

/-!
# The header sync and the list of headers
-/

namespace Bip360Enforcer.Validator

/-- An entry of the node's answer to a request for headers: a header, its hash and its height. -/
structure RestHeader where
  header : Header
  hash : BlockHash
  height : Nat
  deriving DecidableEq, Repr

/-- What the header sync asks the node. -/
structure HeaderSource where
  /-- The height of a block. -/
  getblockheader : BlockHash → Except SyncError Nat
  /-- The block at a height of the active chain, when it is asked for the n-th time. -/
  getblockhash : Nat → Nat → Except SyncError BlockHash
  /-- The answers to the requests for headers, up to the one before which the sync is cancelled. -/
  getBlockHeaders : List (BlockHash → Nat → Except SyncError (List RestHeader))

def headerFetchBatchSize : Nat := 2000

section

variable (source : HeaderSource)

/-- The loop of `fetch_best_ancestor`, between the best known ancestor and a missing one. -/
def searchBestAncestor : Nat → Nat → Option (BlockHash × Nat) → Nat →
    Db SyncError (Option (BlockHash × Nat))
  | 0, _, _, _ => Program.fail .diverged
  | fuel + 1, asked, bestKnownAncestor, oldestKnownMissingAncestorHeight =>
      let bestKnownAncestorHeight := bestKnownAncestor.map Prod.snd
      let midpointHeight := (oldestKnownMissingAncestorHeight + bestKnownAncestorHeight.getD 0) / 2
      if bestKnownAncestorHeight = some midpointHeight
          ∨ midpointHeight = oldestKnownMissingAncestorHeight then
        pure bestKnownAncestor
      else do
        let midpoint ← Program.ofExcept (source.getblockhash asked midpointHeight)
        access
        if ← containsHeader midpoint then
          searchBestAncestor fuel (asked + 1) (some (midpoint, midpointHeight))
            oldestKnownMissingAncestorHeight
        else searchBestAncestor fuel (asked + 1) bestKnownAncestor midpointHeight

/-- The best ancestor of the node's tip whose header is stored, with its height. -/
def fetchBestAncestor (nodeTip : BlockHash) (nodeTipHeight : Nat) :
    Db SyncError (Option (BlockHash × Nat)) :=
  if nodeTip = .allZeros then pure none
  else do
    access
    if ← containsHeader nodeTip then pure (some (nodeTip, nodeTipHeight))
    else searchBestAncestor source (nodeTipHeight + 1) 0 none nodeTipHeight

/-- Store the headers from the current one up to the main tip, one answer after the other. -/
def fetchHeaders (C : Crypto) (mainTip : BlockHash) (mainTipHeight : Nat) :
    List (BlockHash → Nat → Except SyncError (List RestHeader)) → BlockHash → Nat → Db SyncError Unit
  | [], _, _ => Program.fail .shutdown
  | answer :: answers, currentBlockHash, currentHeight => do
      let headersNeeded := mainTipHeight - currentHeight + 1
      let headers ← Program.ofExcept
        (answer currentBlockHash (min headerFetchBatchSize headersNeeded))
      match headers.getLast? with
      | none => Program.fail (.blockNotInActiveChain currentBlockHash)
      | some last => do
          Validator.storeHeaders C (headers.map fun entry => (entry.header, entry.height))
          if last.hash = mainTip then pure ()
          else if last.height = mainTipHeight then Program.fail (.blockNotInActiveChain mainTip)
          else fetchHeaders C mainTip mainTipHeight answers last.hash last.height

def syncHeaders (C : Crypto) (mainTip : BlockHash) : Db SyncError Unit :=
  if mainTip = .allZeros then pure ()
  else do
    let mainTipHeight ← Program.ofExcept (source.getblockheader mainTip)
    match ← fetchBestAncestor source mainTip mainTipHeight with
    | some (ancestor, height) =>
        if ancestor = mainTip then pure ()
        else fetchHeaders C mainTip mainTipHeight source.getBlockHeaders ancestor height
    | none => do
        let genesisBlockHash ← Program.ofExcept (source.getblockhash (mainTipHeight + 1) 0)
        fetchHeaders C mainTip mainTipHeight source.getBlockHeaders genesisBlockHash 0

end

/-! ## The list of stored headers -/

/-- The entries of a database in the order of its keys. -/
def iter {υ : Type} (db : HashDb υ) : List (Sigma fun _ : BlockHash => υ) :=
  db.entries.insertionSort fun entry other => entry.1 ≤ other.1

/-- The stored blocks from a height on, lowest first. -/
def headersFrom (dbs : Dbs) (startHeight : Nat) : List (Nat × BlockHash) :=
  let res := (iter dbs.height).filterMap fun entry =>
    if startHeight ≤ entry.2 then some (entry.2, entry.1) else none
  res.insertionSort fun entry other => entry.1 ≤ other.1

def listHeaders (startHeight : Nat) : Db DbError (List (Nat × BlockHash)) := do
  access
  read fun dbs => headersFrom dbs startHeight

end Bip360Enforcer.Validator
