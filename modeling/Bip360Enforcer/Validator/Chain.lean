import Bip360Enforcer.Validator.Task

/-!
# The active chain, as stored and as broadcast

Chains are lists of block hashes, newest first.
-/

namespace Bip360Enforcer.Validator

/-- The chain that the stored tip and headers spell. -/
def activeChain (dbs : Dbs) : List BlockHash :=
  match dbs.currentChainTip with
  | none => []
  | some tip => (ancestorHeaders dbs.header dbs.header.entries.length tip).map Prod.fst

/-- The stored header of each of the blocks leads to the next one, and that of the last to no block. -/
def Linked (headers : HashDb Header) (hashes : List BlockHash) : Prop :=
  ∀ blockHash below, blockHash :: below <:+ hashes → ∃ header, headers.lookup blockHash = some header ∧
    header.prevBlockhash = below.head?.getD .allZeros

/-! ## Events -/

/-- The chain of a subscriber after an event; `none` where the event does not fit. -/
def Event.apply : List BlockHash → Event → Option (List BlockHash)
  | chain, .connectBlock headerInfo _ =>
      if headerInfo.prevBlockHash = chain.head?.getD .allZeros then some (headerInfo.blockHash :: chain)
      else none
  | [], .disconnectBlock _ => none
  | tip :: below, .disconnectBlock blockHash => if blockHash = tip then some below else none

/-- The chain of a subscriber that has seen these events from the start. -/
def replayEvents (events : List Event) : Option (List BlockHash) := events.foldlM Event.apply []

theorem replayEvents_append {events : List Event} {event : Event} {chain : List BlockHash}
    (h : replayEvents events = some chain) : replayEvents (events ++ [event]) = event.apply chain := by
  rw [replayEvents] at h
  rw [replayEvents, List.foldlM_append, h]
  simp

/-! ## Moments -/

/-- The events that have been sent. -/
def sentEvents (log : List Seen) : List Event :=
  log.filterMap fun
    | .sent event => some event
    | .ended _ => none

def Seen.committed : Dbs → Seen → Dbs
  | dbs, .sent _ => dbs
  | _, .ended dbs => dbs

/-- The databases after the last write transaction that has ended. -/
def committedDbs (log : List Seen) : Dbs := log.foldl Seen.committed .empty

/-- The events that have been sent spell the committed chain; right after a commit, whose event is still
to come, that from before it. -/
def Abreast (moment : List Seen) : Prop :=
  replayEvents (sentEvents moment) = some (activeChain (committedDbs moment)) ∨
    ∃ before dbs, moment = before ++ [.ended dbs] ∧
      replayEvents (sentEvents before) = some (activeChain (committedDbs before))

/-- At every moment so far, inside of open transactions too. -/
def KeepsUp (log : List Seen) : Prop := ∀ moment, moment <+: log → Abreast moment

end Bip360Enforcer.Validator
