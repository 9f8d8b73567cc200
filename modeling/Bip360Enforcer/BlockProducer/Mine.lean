import Bip360Enforcer.BlockProducer.Queue
import Bip360Enforcer.Library.HashPairs
import Bip360Enforcer.Library.SignMagnitude
import Bip360Enforcer.Validator.Infos
import Bip360Enforcer.Validator.ParseBlockFiles

/-!
# Mining blocks without a wallet
-/

namespace Bip360Enforcer

/-! ## Writing scripts -/

def pushSlice (data : Bytes) : Script :=
  if data.length < 0x4c then PushForm.direct.write data
  else if data.length < 0x100 then PushForm.pushdata1.write data
  else if data.length < 0x10000 then PushForm.pushdata2.write data
  else PushForm.pushdata4.write data

def pushInt (n : Int) : Script :=
  if n = -1 ∨ (1 ≤ n ∧ n ≤ 16) then [UInt8.ofNat (n + 0x50).toNat]
  else if n = 0 then [0x00]
  else pushSlice (SignMagnitude.encode n)

def newOpReturn (data : Bytes) : Script := 0x6a :: pushSlice data

namespace Mining

open Validator (Db DbError GetBlockInfosError GetHeaderInfoError Network Store)

/-! ## Outcomes -/

inductive GenerateBlockError where
  | tryGetMainchainTip (source : DbError)
  | validatorNotSynced
  | getBlockTemplate
  | templateTipMismatch (templateTip validatorTip : BlockHash)
  | decodeTemplateTransaction (txid : Txid)
  | getMainchainTip (source : DbError)
  | getHeaderInfo (source : GetHeaderInfoError)
  | systemTime
  | submitblock
  | blockRejected (reason : String)
  | tryGetBlockInfos (source : GetBlockInfosError)
  | timeout (blockHash : BlockHash)
  | getSignetMinerPath
  | signetMiner
  | signetMinerTimeout
  | fetchMostRecentBlockHash
  /-- A list of hashes has no root. -/
  | panicked
  /-- No nonce fits, so that the search does not end. -/
  | endless
  deriving DecidableEq, Repr

/-! ## Parts of a block -/

/-- The crates that blocks are made with, beside `Crypto`. -/
structure Miner where
  computeWtxid : Transaction → Bytes
  validatePow : Header → Bool
  /-- A transaction read from its serialisation. -/
  deserialize : Bytes → Option Transaction

def oneBtc : Nat := 100_000_000

def subsidyHalvingInterval : Network → Nat
  | .regtest => 150
  | .bitcoin | .testnet | .testnet4 | .signet => 210_000

def getBlockValue (height fees : Nat) (network : Network) : Nat :=
  let subsidySats := 50 * oneBtc
  let halvings := height / subsidyHalvingInterval network
  if 64 ≤ halvings then fees else fees + subsidySats >>> halvings

def witnessReservedValue : Bytes := List.replicate 32 0

def witnessCommitmentHeader : Bytes := [0xaa, 0x21, 0xa9, 0xed]

/-- `NO_SOFT_FORK_SIGNALLING`. -/
def noSoftForkSignalling : Int32 := 0x20000000

/-- The target of the genesis block of the regtest network. -/
def regtestBits : UInt32 := 0x207fffff

def finalizeCoinbase (bestBlockHeight : Nat) (coinbaseSpk : Script) (coinbaseOutputs : List TxOut) :
    Transaction :=
  let value := getBlockValue (bestBlockHeight + 1) 0 .regtest
  let output : TxOut := if 0 < value then ⟨UInt64.ofNat value, coinbaseSpk⟩ else ⟨0, [0x6a]⟩
  {
    version := 2
    lockTime := 0
    input := [{
      previousOutput := .null
      scriptSig := pushInt (bestBlockHeight + 1 : Nat) ++ [0x00]
      sequence := 0xffffffff
      witness := [witnessReservedValue] }]
    output := output :: coinbaseOutputs }

section

variable (C : Crypto) (M : Miner)

def pairHash (a b : Bytes) : Bytes := C.sha256d (a ++ b)

/-- The root over the transactions with their witnesses; zeros stand for the coinbase. -/
def witnessRoot (block : Block) : Option Bytes :=
  match block.txdata with
  | [] => none
  | _ :: txs => HashPairs.root (pairHash C) (List.replicate 32 0 :: txs.map M.computeWtxid)

def computeWitnessCommitment (witnessRoot reserved : Bytes) : Bytes := C.sha256d (witnessRoot ++ reserved)

def merkleRoot (block : Block) : Option Bytes :=
  HashPairs.root (pairHash C) (block.txdata.map C.computeTxid)

/-- The coinbase with an output that commits to the root over the witnesses. -/
def addCommitment (witnessRoot : Bytes) (coinbaseTx : Transaction) : Transaction :=
  let commitment := computeWitnessCommitment C witnessRoot witnessReservedValue
  { coinbaseTx with
    output := coinbaseTx.output ++ [⟨0, newOpReturn (witnessCommitmentHeader ++ commitment)⟩] }

/-- `saturating_add(1)`. -/
def succTime (time : UInt32) : UInt32 := if time = 0xffffffff then time else time + 1

/-- `now` is in seconds; `none` if the clock is before 1970. -/
def finalizeBlock (now : Option Nat) (coinbaseSpk : Script) (coinbaseOutputs : List TxOut)
    (transactions : List Transaction) : Db GenerateBlockError Block := do
  let bestBlockHash ← Program.mapError .getMainchainTip do
    Validator.access
    Validator.require (Validator.read Validator.Dbs.currentChainTip)
  let tipHeader ← Program.mapError .getHeaderInfo do
    Validator.access
    Validator.getHeaderInfo C bestBlockHash
  let coinbaseTx := finalizeCoinbase tipHeader.height coinbaseSpk coinbaseOutputs
  match now with
  | none => Program.fail .systemTime
  | some now =>
      let header : Header := {
        version := noSoftForkSignalling
        prevBlockhash := bestBlockHash
        merkleRoot := List.replicate 32 0
        time := max (UInt32.ofNat now) (succTime tipHeader.timestamp)
        bits := regtestBits
        nonce := 0 }
      match witnessRoot C M ⟨header, coinbaseTx :: transactions⟩ with
      | none => Program.fail .panicked
      | some root =>
          let block : Block := ⟨header, addCommitment C root coinbaseTx :: transactions⟩
          match merkleRoot C block with
          | none => Program.fail .panicked
          | some root => pure { block with header := { header with merkleRoot := root } }

/-! ## Proof of work -/

/-- Try the nonces from the next one on, at most `fuel` of them. -/
def searchNonce (validatePow : Header → Bool) : Nat → Header → Option Header
  | 0, _ => none
  | fuel + 1, header =>
      let header := { header with nonce := header.nonce + 1 }
      if validatePow header then some header else searchNonce validatePow fuel header

end

/-! ## Surroundings -/

structure TemplateTransaction where
  txid : Txid
  data : Bytes
  deriving DecidableEq, Repr

structure BlockTemplate where
  prevBlockhash : BlockHash
  transactions : List TemplateTransaction
  deriving DecidableEq, Repr

/-- What the signet miner is told. -/
structure SignetMinerArgs where
  /-- In seconds. -/
  blockInterval : Option Nat
  coinbaseRecipient : Script
  setBlockTime : Option UInt32
  deriving DecidableEq, Repr

inductive SignetMinerExit where
  /-- The program cannot be run. -/
  | failed
  | timedOut
  | exited (success badDiffbits : Bool)
  deriving DecidableEq, Repr

/-- A run of the signet miner, which submits blocks by itself. -/
structure SignetMinerRun where
  accepted : List Block
  exit : SignetMinerExit

/-- The node, the signet miner, the clock and the schedule; each call is told how many there were before
it. -/
structure MiningNode where
  network : Network
  signetChallenge : Option Script
  getBlockTemplate : Nat → Option BlockTemplate
  /-- The reason of a refusal, in an answer; a block without one is accepted. -/
  submitBlock : Nat → Block → Option (Option String)
  now : Nat → Option Nat
  /-- Whether the clock is past the full second. -/
  pastSecond : Nat → Bool
  /-- Whether the program is there, or can be downloaded. -/
  hasSignetMiner : Nat → Bool
  runSignetMiner : Nat → SignetMinerArgs → SignetMinerRun
  getBestBlockHash : Nat → Option BlockHash
  /-- How many blocks the sync task connects during a call. -/
  connects : Nat → Nat
  /-- How often the validator is asked for a block before the time is over. -/
  polls : Nat → Nat

structure MineState where
  store : Store
  calls : Nat
  /-- The accepted blocks that the sync task has not connected. -/
  submitted : List Block

abbrev MineM (α : Type) := Program MineState GenerateBlockError α

section

variable {α ε ε' : Type}

def onStore (f : ε → ε') (x : Db ε α) : Program MineState ε' α :=
  Program.mapError f (Program.focus MineState.store (fun store st => { st with store := store }) x)

variable (C : Crypto) (M : Miner) (validator : Validator) (node : MiningNode)

/-- The sync task connects blocks until it fails. -/
def connectSubmitted : Nat → MineM Unit
  | 0 => pure ()
  | n + 1 => do
      let st ← Program.get
      match st.submitted with
      | [] => pure ()
      | block :: rest => do
          let action ← Program.attempt (onStore id (validator.connectBlock C block))
          match action with
          | .error _ => pure ()
          | .ok _ => do
              Program.modify fun st => { st with submitted := rest }
              connectSubmitted n

/-- What happens while a call is waited for. -/
def wait : MineM Unit := do
  let st ← Program.get
  Program.modify fun st => { st with calls := st.calls + 1 }
  connectSubmitted C validator (node.connects st.calls)

def decodeTransactions : List TemplateTransaction → Except GenerateBlockError (List Transaction)
  | [] => .ok []
  | tx :: txs =>
      match M.deserialize tx.data with
      | none => .error (.decodeTemplateTransaction tx.txid)
      | some transaction => do
          let rest ← decodeTransactions txs
          .ok (transaction :: rest)

/-- The transactions of a template for a block on `mainchainTip`. -/
def selectBlockTxs (mainchainTip : BlockHash) : MineM (List Transaction) := do
  let st ← Program.get
  wait C validator node
  match node.getBlockTemplate st.calls with
  | none => Program.fail .getBlockTemplate
  | some template =>
      if template.prevBlockhash ≠ mainchainTip then
        Program.fail (.templateTipMismatch template.prevBlockhash mainchainTip)
      else Program.ofExcept (decodeTransactions M template.transactions)

def submitBlock (block : Block) : MineM Unit := do
  let st ← Program.get
  match node.submitBlock st.calls block with
  | none => do
      wait C validator node
      Program.fail .submitblock
  | some (some reason) => do
      wait C validator node
      Program.fail (.blockRejected reason)
  | some none => do
      Program.modify fun st => { st with submitted := st.submitted ++ [block] }
      wait C validator node

/-- Ask for the infos of the block until they are there, at most `polls` times. -/
def awaitBlockConnection (blockHash : BlockHash) : Nat → MineM Unit
  | 0 => Program.fail (.timeout blockHash)
  | polls + 1 => do
      match ← onStore .tryGetBlockInfos (Validator.tryGetBlockInfos C blockHash 0) with
      | some _ => pure ()
      | none => do
          wait C validator node
          awaitBlockConnection blockHash polls

def mine (coinbaseSpk : Script) (coinbaseOutputs : List TxOut) (transactions : List Transaction) :
    MineM BlockHash := do
  let st ← Program.get
  let block ← onStore id (finalizeBlock C M (node.now st.calls) coinbaseSpk coinbaseOutputs transactions)
  match searchNonce M.validatePow (2 ^ 32) block.header with
  | none => Program.fail .endless
  | some header => do
      let block : Block := { block with header := header }
      submitBlock C validator node block
      let st ← Program.get
      awaitBlockConnection C validator node (C.blockHash block.header) (node.polls st.calls)
      pure (C.blockHash block.header)

/-! ## Signet -/

/-- The challenge, in hexadecimal letters. -/
def l2lSignetChallenge : Bytes := "00141551188e5153533b4fdd555449e640d9cc129456".toUTF8.toList

def targetBlockInterval (signetChallenge : Script) : Nat :=
  if signetChallenge = l2lSignetChallenge then 60 else 600

/-- The time to set on a block whose parent is older than the target interval. -/
def nextBlockTime (timestamp : UInt32) (now : Option Nat) (pastSecond : Bool) (interval : Nat) :
    Option UInt32 :=
  match now with
  | none => none
  | some now =>
      if now < timestamp.toNat then none
      else
        let tipAge := now - timestamp.toNat
        if interval < tipAge ∨ (interval = tipAge ∧ pastSecond) then
          some (timestamp + UInt32.ofNat ((tipAge + interval) / 2))
        else none

/-- Have the signet miner mine a block; the hash is that of the best block of the node afterwards. -/
def generateSignetBlock (coinbaseSpk : Script) : MineM BlockHash := do
  let tipHeader ← onStore id do
    let mainchainTip ← Program.mapError .getMainchainTip do
      Validator.access
      Validator.require (Validator.read Validator.Dbs.currentChainTip)
    Program.mapError .getHeaderInfo do
      Validator.access
      Validator.getHeaderInfo C mainchainTip
  let interval := node.signetChallenge.map targetBlockInterval
  let st ← Program.get
  wait C validator node
  if node.hasSignetMiner st.calls then do
    let st ← Program.get
    let args : SignetMinerArgs := {
      blockInterval := interval
      coinbaseRecipient := coinbaseSpk
      setBlockTime := interval.bind fun interval =>
        nextBlockTime tipHeader.timestamp (node.now st.calls) (node.pastSecond st.calls) interval }
    let run := node.runSignetMiner st.calls args
    Program.modify fun st => { st with submitted := st.submitted ++ run.accepted }
    wait C validator node
    match run.exit with
    | .failed => Program.fail .signetMiner
    | .timedOut => Program.fail .signetMinerTimeout
    | .exited success badDiffbits =>
        if badDiffbits || !success then Program.fail .signetMiner
        else do
          let st ← Program.get
          wait C validator node
          match node.getBestBlockHash st.calls with
          | none => Program.fail .fetchMostRecentBlockHash
          | some blockHash => do
              let st ← Program.get
              awaitBlockConnection C validator node blockHash (node.polls st.calls)
              pure blockHash
  else Program.fail .getSignetMinerPath

/-! ## Blocks on request -/

def generateBlock (coinbaseSpk : Script) : MineM BlockHash := do
  if node.network = .signet then generateSignetBlock C validator node coinbaseSpk
  else do
    let mainchainTip ← onStore .tryGetMainchainTip do
      Validator.access
      Validator.read Validator.Dbs.currentChainTip
    match mainchainTip with
    | none => Program.fail .validatorNotSynced
    | some mainchainTip => do
        let transactions ← selectBlockTxs C M validator node mainchainTip
        mine C M validator node coinbaseSpk [] transactions

/-- The blocks of a request, one after the other. -/
def generateBlocks (coinbaseSpk : Script) : Nat → MineM (List BlockHash)
  | 0 => pure []
  | blocks + 1 => do
      let blockHash ← generateBlock C M validator node coinbaseSpk
      let blockHashes ← generateBlocks coinbaseSpk blocks
      pure (blockHash :: blockHashes)

end

end Mining

end Bip360Enforcer
