import Bip360Enforcer.Validator.BlockFiles

/-!
# The validator as the driver of the node uses it
-/

namespace Bip360Enforcer.Validator

open Pqc (txOutputs)
open Tapscript (inputRevealsVaultLeaf)

/-! ## Outputs from outside -/

/-- What `getblock` with verbosity 3 says of an output; a field is `none` where it cannot be read. -/
structure GbPrevout where
  value : Option UInt64
  scriptPubKey : Option Script
  deriving DecidableEq, Repr

structure GbVin where
  txid : Option Txid
  vout : Option UInt32
  prevout : Option GbPrevout
  deriving DecidableEq, Repr

structure GbTx where
  vin : List GbVin
  deriving DecidableEq, Repr

structure GbBlock where
  tx : List GbTx
  deriving DecidableEq, Repr

section

variable (C : Crypto)

/-- The outpoints of all outputs of a block. -/
def sameBlockOutpoints (block : Block) : List OutPoint :=
  block.txdata.flatMap fun tx => (txOutputs C tx).map Prod.fst

/-- Whether outputs are looked up for a transaction: it spends from a vault, or a P2MR output of the
chain beside others. -/
def needsPrefetch (chainP2mr : PrevoutMap) (tx : Transaction) : Bool :=
  tx.input.any (fun input => inputRevealsVaultLeaf C input.witness)
    || (2 ≤ tx.input.length && tx.input.any fun input => input.previousOutput ∈ chainP2mr)

/-- The outpoints to look up: those that are neither in the table nor created in the block. -/
def wantedOutpoints (chainP2mr : PrevoutMap) (block : Block) : List OutPoint :=
  (block.txdata.drop 1).flatMap fun tx =>
    if needsPrefetch C chainP2mr tx then
      (tx.input.map TxIn.previousOutput).filter fun outpoint =>
        outpoint ∉ chainP2mr ∧ outpoint ∉ sameBlockOutpoints C block
    else []

end

/-- The output that an entry of the answer gives, if it is complete. -/
def GbVin.resolve (vin : GbVin) : Option (OutPoint × TxOut) := do
  let txid ← vin.txid
  let vout ← vin.vout
  let prevout ← vin.prevout
  let value ← prevout.value
  let scriptPubkey ← prevout.scriptPubKey
  pure (⟨txid, vout⟩, ⟨value, scriptPubkey⟩)

/-- The outputs of `wanted` that the answer gives. -/
def GbBlock.resolve (block : GbBlock) (wanted : List OutPoint) : PrevoutMap :=
  (block.tx.flatMap GbTx.vin).foldl (fun resolved vin =>
    match vin.resolve with
    | some (outpoint, txout) =>
        if outpoint ∈ wanted then resolved.insert outpoint txout else resolved
    | none => resolved) ∅

/-! ## Outcomes -/

inductive RejectReason where
  | connectBlock (error : ConnectBlockError)
  | missingParentHeight (blockHash parent : BlockHash)
  deriving DecidableEq, Repr

inductive ConnectBlockAction where
  | accept
  | reject
  deriving DecidableEq, Repr

/-- What connecting a block has come to, before anything is committed. -/
inductive ConnectBlockRwTxnAction where
  | accept (event : Event)
  | reject (reason : RejectReason)
  deriving DecidableEq, Repr

end Bip360Enforcer.Validator

namespace Bip360Enforcer

open Pqc (Clock PqcValidationError validateBlockTransactions)

/-! ## Validator -/

structure Validator where
  activationHeight : Nat
  pqcVerifyBudgetMs : Nat
  clock : BlockHash → Clock
  /-- The answer of the node to `getblock` with verbosity 3. -/
  getblock : BlockHash → Option Validator.GbBlock

namespace Validator

variable (C : Crypto) (validator : Validator)

def handler (extraPrevouts : PrevoutMap) : BlockHandler where
  activationHeight := validator.activationHeight
  pqcVerifyBudgetMs := validator.pqcVerifyBudgetMs
  extraPrevouts := extraPrevouts
  clock := validator.clock

/-- The outputs of other transactions that connecting `block` is given. -/
def prefetchedPrevouts (chainP2mr : PrevoutMap) (block : Block) : PrevoutMap :=
  let wanted := wantedOutpoints C chainP2mr block
  if wanted.isEmpty then ∅
  else
    match validator.getblock (C.blockHash block.header) with
    | none => ∅
    | some answer => answer.resolve wanted

def prefetchExternalPrevouts (block : Block) : Db ConnectBlockError PrevoutMap := do
  match ← Program.attempt (read Dbs.p2mrUtxos : Db DbError PrevoutMap) with
  | .error _ => pure ∅
  | .ok chainP2mr => pure (validator.prefetchedPrevouts C chainP2mr block)

/-- Store the header of a block, unless it is stored: whether the block has a height then. -/
def storeHeader (block : Block) : Db ConnectBlockError Bool := do
  if ← containsHeader (C.blockHash block.header) then pure true
  else
    let parent := block.header.prevBlockhash
    if parent = .allZeros then do
      putHeaders C [(block.header, 0)]
      pure true
    else
      match ← tryGet Dbs.height parent with
      | some parentHeight => do
          putHeaders C [(block.header, parentHeight + 1)]
          pure true
      | none => pure false

/-- Connect a block in a nested transaction, which is dropped if the block is rejected. -/
def connectBlockNoCommit (block : Block) (extraPrevouts : PrevoutMap) :
    Db ConnectBlockError ConnectBlockRwTxnAction := do
  if ← storeHeader C block then do
    access
    let parent ← Program.get
    match ← Program.attempt ((validator.handler extraPrevouts).connectBlock C block) with
    | .ok event => pure (.accept event)
    | .error err =>
        if err.isFatal then Program.fail err
        else do
          Program.modify fun s => s.setDbs parent.dbs
          pure (.reject (.connectBlock err))
  else pure (.reject (.missingParentHeight (C.blockHash block.header) block.header.prevBlockhash))

/-- The header is committed in any case, the block if it is accepted. -/
def connectBlockCommit (block : Block) (extraPrevouts : PrevoutMap) :
    Db ConnectBlockError ConnectBlockAction := do
  let action ← transaction do
    let action ← validator.connectBlockNoCommit C block extraPrevouts
    match action with
    | .accept _ => do
        commit
        commit
    | .reject _ => commit
    pure action
  match action with
  | .accept event => do
      broadcast event
      pure .accept
  | .reject _ => pure .reject

def connectBlock (block : Block) : Db ConnectBlockError ConnectBlockAction := do
  let extraPrevouts ← validator.prefetchExternalPrevouts C block
  validator.connectBlockCommit C block extraPrevouts

def disconnectBlock (blockHash : BlockHash) : Db DisconnectBlockError Unit :=
  transaction do
    BlockHandler.disconnectBlock C blockHash
    commit

def acceptTx (tx : Transaction) : Db ValidateTransactionError ConnectBlockAction :=
  transaction do
    if ← (validator.handler ∅).validateTx C tx then pure .accept else pure .reject

def tryGetBlockHeight : Db DbError (Option Nat) := do
  match ← read Dbs.currentChainTip with
  | none => pure none
  | some tip =>
      let height ← get Dbs.height tip
      pure (some height)

/-- The dry run of a block on top of the current tip: the reason why it is invalid, if it is. -/
def validateBlock (block : Block) : Db DbError (Option PqcValidationError) := do
  match ← tryGetBlockHeight with
  | none => pure none
  | some tipHeight =>
      let chainP2mr ← read Dbs.p2mrUtxos
      match validateBlockTransactions C (validator.clock (C.blockHash block.header)) block
        (tipHeight + 1) ⟨validator.activationHeight⟩ chainP2mr validator.pqcVerifyBudgetMs with
      | .ok () => pure none
      | .error err => pure (some err)

/-- Store the headers of one answer of the node. -/
def storeHeaders (headers : List (Header × Nat)) : Db SyncError Unit :=
  transaction do
    putHeaders C headers
    commit

/-- Catch up with the node; `headers` are its answers during the header sync. -/
def syncToTip (headers : List (Except SyncError (List (Header × Nat))))
    (source : BlockHandler.SyncSource) (tip : BlockHash) :
    Db SyncError (Option (BlockHash × ConnectBlockError)) := do
  headers.forM fun answer => do
    let headers ← Program.ofExcept answer
    storeHeaders C headers
  (validator.handler ∅).syncBlocks C source tip

end Validator

end Bip360Enforcer
