import Bip360Enforcer.Library.FileSystem
import Bip360Enforcer.Library.Hex
import Bip360Enforcer.Library.SortedTable
import Bip360Enforcer.Validator.Enforcer

/-!
# Summaries of the state, and the modes that write and verify them
-/

namespace Bip360Enforcer

/-! ## Canonical order -/

/-- By transaction, then by index. -/
instance : LE OutPoint := ⟨fun a b => a.txid < b.txid ∨ a.txid = b.txid ∧ a.vout ≤ b.vout⟩

instance : DecidableLE OutPoint := fun a b =>
  inferInstanceAs (Decidable (a.txid < b.txid ∨ a.txid = b.txid ∧ a.vout ≤ b.vout))

namespace Validator

/-! ## Summaries -/

structure P2mrUtxoSummary where
  outpoint : OutPoint
  valueSats : UInt64
  scriptPubkeyHex : String
  deriving DecidableEq, Repr

structure SyncStateSummary where
  tipHash : BlockHash
  tipHeight : Nat
  /-- In canonical order. -/
  p2mrUtxos : List P2mrUtxoSummary
  deriving DecidableEq, Repr

inductive SyncStateSummaryError where
  | db (error : DbError)
  | notSynced
  deriving DecidableEq, Repr

instance : FromDb SyncStateSummaryError := ⟨.db⟩

def P2mrUtxoSummary.ofEntry (entry : Sigma fun _ : OutPoint => TxOut) : P2mrUtxoSummary where
  outpoint := entry.1
  valueSats := entry.2.value
  scriptPubkeyHex := Hex.encode entry.2.scriptPubkey

def getMainchainTip : Db DbError BlockHash := do
  access
  require (read Dbs.currentChainTip)

def syncStateSummary : Db SyncStateSummaryError SyncStateSummary := do
  let tipHash ← Program.mapError .db getMainchainTip
  match ← Program.mapError .db tryGetBlockHeight with
  | none => Program.fail .notSynced
  | some tipHeight => do
      access
      let utxos ← read Dbs.p2mrUtxos
      pure ⟨tipHash, tipHeight, utxos.sortedRecords P2mrUtxoSummary.ofEntry P2mrUtxoSummary.outpoint⟩

/-- The JSON crate. -/
structure SummaryJson where
  isUtf8 : Bytes → Bool
  toStringPretty : SyncStateSummary → Bytes
  fromStr : Bytes → Option SyncStateSummary

/-- A block hash as it is displayed. -/
def displayHash (blockHash : BlockHash) : String := Hex.encode blockHash.reverse

variable (C : Crypto) (json : SummaryJson)

def SyncStateSummary.digest (summary : SyncStateSummary) : String :=
  Hex.encode (C.sha256 (json.toStringPretty summary))

/-! ## Bounded syncs -/

/-- A running enforcer: its databases and its files. -/
structure Process where
  store : Store
  machine : Machine String UInt8

inductive SyncToTipError where
  | invalidBlock (blockHash : BlockHash) (reason : ConnectBlockError)
  | other (source : SyncError)
  deriving DecidableEq, Repr

inductive ExitAfterSyncError where
  | alreadySynced (current goalHeight : Nat)
  | resolveBlock (label : String) (goalHeight : Nat)
  | syncToTip (source : SyncToTipError)
  | summary (source : SyncStateSummaryError)
  | writeSummary (source : FileError)
  | loadReference (source : FileError)
  | invalidReference (path : String)
  | verificationFailed (report : String)
  deriving DecidableEq, Repr

abbrev ProcessM (α : Type) := Program Process ExitAfterSyncError α

section

variable {ε α : Type}

def onStore (x : Program Store ε α) : Program Process ε α :=
  Program.focus Process.store (fun store process => { process with store := store }) x

def onMachine (x : Program (Machine String UInt8) ε α) : Program Process ε α :=
  Program.focus Process.machine (fun machine process => { process with machine := machine }) x

end

/-- What the node answers during a bounded sync. -/
structure NodeAnswers where
  getblockhash : Nat → Option BlockHash
  headers : List (Except SyncError (List (Header × Nat)))
  source : BlockHandler.SyncSource

variable (validator : Validator)

/-- `sync_to_tip` of the enforcer, which takes a rejected block for an error. -/
def enforcerSyncToTip (node : NodeAnswers) (tip : BlockHash) : Db SyncToTipError Unit := do
  match ← Program.mapError .other (validator.syncToTip C node.headers node.source tip) with
  | none => pure ()
  | some (blockHash, reason) => Program.fail (.invalidBlock blockHash reason)

/-- The height of the tip, where it can be read. -/
def knownBlockHeight : ProcessM (Option Nat) := do
  let height ← onStore (Program.attempt tryGetBlockHeight)
  pure (height.toOption.join)

def syncToHeight (node : NodeAnswers) (goalHeight : Nat) (label : String) : ProcessM (Option Nat) := do
  let startHeight ← knownBlockHeight
  match startHeight.filter (goalHeight < ·) with
  | some current => Program.fail (.alreadySynced current goalHeight)
  | none =>
      match node.getblockhash goalHeight with
      | none => Program.fail (.resolveBlock label goalHeight)
      | some targetHash => do
          Program.mapError .syncToTip (onStore (enforcerSyncToTip C validator node targetHash))
          knownBlockHeight

/-! ## Reports -/

/-- Write the file anew; it is not flushed. -/
def writeStateFile (stateFile : String) (contents : Bytes) :
    Program (Machine String UInt8) FileError Unit := do
  let file ← Machine.openFile stateFile
  Machine.writeAll file contents

def reportSyncState (stateFile : String) : ProcessM SyncStateSummary := do
  let summary ← Program.mapError .summary (onStore syncStateSummary)
  let contents := json.toStringPretty summary ++ [10]
  Program.mapError .writeSummary (onMachine (writeStateFile stateFile contents))
  pure summary

def loadConsensusReference (path : String) :
    Program (Machine String UInt8) ExitAfterSyncError SyncStateSummary := do
  let contents ← Program.mapError .loadReference (Machine.readFile path)
  if json.isUtf8 contents then
    match json.fromStr contents with
    | none => Program.fail (.invalidReference path)
    | some reference => pure reference
  else Program.fail (.loadReference .io)

/-- The first 12 characters. -/
def short (text : String) : String := String.ofList (text.toList.take 12)

def verificationReport (produced reference : SyncStateSummary) : String :=
  "consensus-state verification FAILED\n"
    ++ "  current   tip:    height " ++ toString produced.tipHeight
    ++ " (" ++ short (displayHash produced.tipHash) ++ "..)\n"
    ++ "  reference tip:    height " ++ toString reference.tipHeight
    ++ " (" ++ short (displayHash reference.tipHash) ++ "..)\n"
    ++ "  current   digest: " ++ short (produced.digest C json) ++ "..\n"
    ++ "  reference digest: " ++ short (reference.digest C json) ++ ".."

def verifyAgainstReference (produced : SyncStateSummary) (reference : Option SyncStateSummary) :
    Except ExitAfterSyncError Unit :=
  match reference with
  | none => .ok ()
  | some reference =>
      if produced = reference then .ok ()
      else .error (.verificationFailed (verificationReport C json produced reference))

def runExitAfterSync (node : NodeAnswers) (goalHeight : Nat) (stateFile : String)
    (reference : Option SyncStateSummary) : ProcessM Unit := do
  let _ ← syncToHeight C validator node goalHeight "exit-after-sync"
  let produced ← reportSyncState json stateFile
  Program.ofExcept (verifyAgainstReference C json produced reference)

/-- What the program does with `--verify-consensus-state` or `--exit-after-sync`; `blocks` is the height
of the node. -/
def exitAfterSyncMode (node : NodeAnswers) (stateFile : String) (verifyConsensusState : Option String)
    (exitAfterSync : Option Nat) (blocks : Nat) : ProcessM Unit := do
  match verifyConsensusState with
  | some path => do
      let reference ← onMachine (loadConsensusReference json path)
      runExitAfterSync C json validator node reference.tipHeight stateFile (some reference)
  | none =>
      let exitAfterSync := exitAfterSync.getD 0
      let goalHeight := if exitAfterSync ≠ 0 then exitAfterSync else blocks
      runExitAfterSync C json validator node goalHeight stateFile none

end Validator

end Bip360Enforcer
