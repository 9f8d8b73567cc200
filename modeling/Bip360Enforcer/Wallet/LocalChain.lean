import Bip360Enforcer.Validator.Infos
import Bip360Enforcer.Validator.Headers
import Bip360Enforcer.Wallet.FullScan

/-!
# The local chain of the wallet
-/

namespace Bip360Enforcer.Wallet

open Validator (BlockInfo DbError GetBlockInfosError GetHeaderInfoError HeaderInfo Store)

/-! ## What the wallet is built on -/

structure CannotConnectError where
  tryIncludeHeight : Nat
  deriving DecidableEq, Repr

structure BlockId where
  height : Nat
  hash : BlockHash
  deriving DecidableEq, Repr

/-- The BDK wallet with states `σ`, checkpoints `κ` and updates `υ`. -/
structure BdkWallet (σ κ υ : Type) where
  /-- The block of the local chain at a height. -/
  blockAt : σ → Nat → Option BlockHash
  tip : σ → κ
  blockId : κ → BlockId
  extend : κ → List BlockId → Option κ
  ofCheckpoint : κ → υ
  applyUpdate : υ → σ → Except CannotConnectError σ
  applyBlock : Block → Nat → σ → Except CannotConnectError σ
  keychains : σ → List KeychainKind
  revealAddressesTo : List (KeychainKind × Nat) → σ → σ

/-- The Electrum or Esplora server, as it answers at the n-th call. -/
structure ChainSource (σ κ υ : Type) where
  addressHasTxs : Nat → KeychainKind → Nat → Except FullScanError Bool
  sync : Nat → σ → κ → Option υ

/-- What is outside of the wallet; each call is told how many there were before it. -/
structure Surroundings (σ κ υ : Type) where
  getblockhash : Nat → Nat → Option BlockHash
  getBlock : Nat → BlockHash → Option Block
  persists : Nat → Bool
  birthdayHeight : Option Nat
  chainSource : Option (ChainSource σ κ υ)

inductive SyncWalletError where
  | bitcoinCoreRpc (method : String)
  | getHeaderInfo (source : GetHeaderInfoError)
  | getBlockInfos (source : GetBlockInfosError)
  | listHeaders (source : DbError)
  | notUnlocked
  | persistWallet
  | createCheckPointFromHeaders
  | cannotConnect (source : CannotConnectError)
  | invalidSyncSource
  | fullScan (source : FullScanError)
  | chainSourceClient
  | bdkConnect (blockHeight : Nat) (source : CannotConnectError)
  /-- A missing block has other than one info. -/
  | panicked
  /-- A loop does not come to its end. -/
  | diverged
  deriving DecidableEq, Repr

structure SyncState (σ : Type) where
  store : Store
  /-- `none` while the wallet is locked. -/
  bdk : Option σ
  calls : Nat
  lastSync : Option Nat

abbrev SyncM (σ α : Type) := Program (SyncState σ) SyncWalletError α

section

variable {σ κ υ α ε : Type}

/-- A read from the databases of the validator. -/
def onStore (f : ε → SyncWalletError) (x : Validator.Db ε α) : SyncM σ α :=
  Program.mapError f (Program.focus SyncState.store (fun store st => { st with store := store }) x)

/-- A call to the outside. -/
def call (f : Nat → Option α) (e : SyncWalletError) : SyncM σ α := do
  let st ← Program.get
  Program.modify fun st => { st with calls := st.calls + 1 }
  match f st.calls with
  | some a => pure a
  | none => Program.fail e

def readWallet : SyncM σ σ := do
  let st ← Program.get
  match st.bdk with
  | some bdk => pure bdk
  | none => Program.fail .notUnlocked

variable (C : Crypto) (B : BdkWallet σ κ υ) (env : Surroundings σ κ υ)

def persist : SyncM σ Unit := call (fun n => if env.persists n then some () else none) .persistWallet

/-- Put the wallet into a new state and persist it. -/
def putWallet (bdk : σ) : SyncM σ Unit := do
  Program.modify fun st => { st with bdk := some bdk }
  persist env

def getTip : SyncM σ BlockId := do
  let bdk ← readWallet
  pure (B.blockId (B.tip bdk))

def setLastSyncedNow : SyncM σ Unit :=
  Program.modify fun st => { st with lastSync := some st.calls }

def handleConnectBlock (block : Block) (blockHeight : Nat) : SyncM σ (Except CannotConnectError Unit) := do
  let bdk ← readWallet
  match B.applyBlock block blockHeight bdk with
  | .error err => pure (.error err)
  | .ok bdk => do
      putWallet env bdk
      pure (.ok ())

/-! ## Missing blocks -/

structure TryInclude where
  blockHeight : Nat
  block : Option Block
  deriving DecidableEq, Repr

def fetchBlock (blockHash : BlockHash) : SyncM σ Block :=
  call (fun n => env.getBlock n blockHash) (.bitcoinCoreRpc "getblock")

/-- The block to include, which is fetched but once. -/
def includedBlock (tryInclude : TryInclude) : SyncM σ Block :=
  match tryInclude.block with
  | some block => pure block
  | none => do
      let blockHash ← call (fun n => env.getblockhash n tryInclude.blockHeight)
        (.bitcoinCoreRpc "getblockhash")
      fetchBlock env blockHash

/-- The loop over the stack, the top of which comes first. -/
def connectTryIncludes : Nat → List TryInclude → SyncM σ Unit
  | _, [] => pure ()
  | 0, _ :: _ => Program.fail .diverged
  | fuel + 1, tryInclude :: tryIncludes => do
      let block ← includedBlock env tryInclude
      let infos ← onStore .getBlockInfos (Validator.getBlockInfos C (C.blockHash block.header) 0)
      if infos.toList.length ≠ 1 then Program.fail .panicked
      else
        match ← handleConnectBlock B env block tryInclude.blockHeight with
        | .ok () => connectTryIncludes fuel tryIncludes
        | .error err =>
            if err.tryIncludeHeight < tryInclude.blockHeight then
              -- One height at a time, whatever height is suggested.
              connectTryIncludes fuel (⟨tryInclude.blockHeight - 1, none⟩ ::
                ⟨tryInclude.blockHeight, some block⟩ :: tryIncludes)
            else Program.fail (.bdkConnect tryInclude.blockHeight err)

def connectMissingBlock (fuel tryIncludeHeight : Nat) : SyncM σ Unit :=
  connectTryIncludes C B env fuel [⟨tryIncludeHeight, none⟩]

/-! ## Checkpoints -/

def getChainCheckpoint (bdk : σ) (upToHeight : Option Nat) : SyncM σ κ := do
  let tip := B.tip bdk
  let tipHeight := (B.blockId tip).height
  let headers ← onStore .listHeaders (Validator.listHeaders tipHeight)
  let headers := headers.filter fun (height, _) => upToHeight.all fun upTo => height ≤ upTo
  let blockIds := (headers.filter fun (height, _) => tipHeight < height).map fun (height, hash) =>
    (⟨height, hash⟩ : BlockId)
  match B.extend tip blockIds with
  | some checkpoint => pure checkpoint
  | none => Program.fail .createCheckPointFromHeaders

/-- Apply an update to the wallet and persist it. -/
def applyUpdate (update : υ) (bdk : σ) : SyncM σ Unit := do
  let bdk ← Program.ofExcept ((B.applyUpdate update bdk).mapError .cannotConnect)
  putWallet env bdk

def fastForwardChain (upToHeight : Option Nat) : SyncM σ Unit := do
  let bdk ← readWallet
  let checkpoint ← getChainCheckpoint B bdk upToHeight
  applyUpdate B env (B.ofCheckpoint checkpoint) bdk

def fullScanWallet (fuel : Nat) : SyncM σ BlockHash := do
  match env.chainSource with
  | none => Program.fail .invalidSyncSource
  | some chainSource => do
      let bdk ← readWallet
      let st ← Program.get
      let revealMap ← Program.ofExcept
        ((fullScan (B.keychains bdk) (chainSource.addressHasTxs st.calls) fuel).mapError .fullScan)
      let bdk := B.revealAddressesTo revealMap bdk
      Program.modify fun st => { st with bdk := some bdk }
      let checkpoint ← getChainCheckpoint B bdk none
      let update ← call (fun n => chainSource.sync n bdk checkpoint) .chainSourceClient
      applyUpdate B env update bdk
      let tip ← getTip B
      pure tip.hash

/-! ## Coming up to a block -/

def birthdayReorgMargin : Nat := 100

def maxBlockByBlockReplay : Nat := 2000

/-- The tip of the wallet once it has been brought to just below its birthday. -/
def skipToBirthday (newTipHeight : Nat) (walletTip : BlockId) : SyncM σ BlockId :=
  match env.birthdayHeight with
  | none => pure walletTip
  | some birthdayHeight => do
      let skipBelow := min (birthdayHeight - birthdayReorgMargin) newTipHeight
      if walletTip.height < skipBelow then do
        fastForwardChain B env (some skipBelow)
        getTip B
      else pure walletTip

/-- The tip of the wallet from which blocks are replayed. -/
def closeGap (fuel newTipHeight : Nat) (walletTip : BlockId) : SyncM σ BlockId := do
  let walletTip ← skipToBirthday B env newTipHeight walletTip
  if newTipHeight - walletTip.height ≤ maxBlockByBlockReplay then pure walletTip
  else if env.chainSource.isSome then do
    let _ ← fullScanWallet B env fuel
    getTip B
  else pure walletTip

/-- Connect a block, and the blocks that are missing below it. -/
def connectWithMissing (fuel : Nat) (block : Block) (blockHeight : Nat) : Nat → SyncM σ Unit
  | 0 => Program.fail .diverged
  | tries + 1 => do
      match ← handleConnectBlock B env block blockHeight with
      | .ok () => pure ()
      | .error err => do
          connectMissingBlock C B env fuel (err.tryIncludeHeight + 1)
          connectWithMissing fuel block blockHeight tries

/-- A block to connect; `given` is the block of the new tip, if the caller has it. -/
def blockToConnect (newTipHash : BlockHash) (given : Option Block) (blockHash : BlockHash) : SyncM σ Block :=
  match given.filter fun _ => blockHash = newTipHash with
  | some block => pure block
  | none => fetchBlock env blockHash

def processBlocks (fuel : Nat) (newTipHash : BlockHash) (given : Option Block) :
    List (HeaderInfo × BlockInfo) → SyncM σ Unit
  | [] => pure ()
  | (headerInfo, _) :: blockInfos => do
      let block ← blockToConnect env newTipHash given headerInfo.blockHash
      connectWithMissing C B env fuel block headerInfo.height fuel
      processBlocks fuel newTipHash given blockInfos

/-- Replay the blocks above the tip of the wallet, but at least that of the new tip. -/
def replayBlocks (fuel : Nat) (newTipHash : BlockHash) (newTipHeight : Nat) (given : Option Block)
    (walletTip : BlockId) : SyncM σ Unit := do
  let expectedBlocks := max 1 (newTipHeight - walletTip.height)
  let blockInfos ← onStore .getBlockInfos (Validator.getBlockInfos C newTipHash (expectedBlocks - 1))
  processBlocks C B env fuel newTipHash given (blockInfos.toList.take expectedBlocks)
  setLastSyncedNow

/-- The validator should be at the new tip; the given block is that of the new tip. -/
def syncWalletToTip (fuel : Nat) (newTipHash : BlockHash) (given : Option Block) : SyncM σ Unit := do
  let headerInfo ← onStore .getHeaderInfo do
    Validator.access
    Validator.getHeaderInfo C newTipHash
  let walletTip ← getTip B
  if walletTip.hash = newTipHash then setLastSyncedNow
  else do
    let walletTip ← closeGap B env fuel headerInfo.height walletTip
    replayBlocks C B env fuel newTipHash headerInfo.height given walletTip

end

end Bip360Enforcer.Wallet
