import Bip360Enforcer.Pqc.LeafScript
import Bip360Enforcer.Pqc.Schemes
import Mathlib.Data.UInt

/-!
# The signer of single-leaf P2MR spends
-/

namespace Bip360Enforcer

def TapSighashType.toU8 : TapSighashType → UInt8
  | default => 0x00
  | all => 0x01
  | none => 0x02
  | single => 0x03
  | allPlusAnyoneCanPay => 0x81
  | nonePlusAnyoneCanPay => 0x82
  | singlePlusAnyoneCanPay => 0x83

namespace Pqc

/-! ## External key generation and signing -/

inductive KeyAlgorithm where
  | secp256k1Schnorr
  | mlDsa44
  | slhDsaSha2128s
  deriving DecidableEq, Repr

structure SecretKey where
  algorithm : KeyAlgorithm
  bytes : Bytes
  deriving DecidableEq, Repr

structure KeyPair where
  publicKey : Bytes
  secretKey : SecretKey
  deriving DecidableEq, Repr

/-- A secp256k1 secret key and the x coordinate of its public key. -/
structure EcKeypair where
  secretKey : Bytes
  xOnlyPublicKey : Bytes
  deriving DecidableEq, Repr

/-- The key generation and signing functions of the external crates. -/
structure Signers where
  generateKeypair : KeyAlgorithm → Bytes → Option KeyPair
  sign : SecretKey → (message : Bytes) → Option Bytes
  ecKeypair : Bytes → Option EcKeypair
  signSchnorr : EcKeypair → (message : Bytes) → Bytes

/-! ## Leaves and outputs -/

inductive SignAlgorithm where
  | schnorr
  | mldsa
  | slh
  deriving DecidableEq, Repr

def SignAlgorithm.toBitcoinpqc : SignAlgorithm → KeyAlgorithm
  | schnorr => .secp256k1Schnorr
  | mldsa => .mlDsa44
  | slh => .slhDsaSha2128s

inductive SignerError where
  | schnorrEntropy
  | pqcEntropy
  | ecEntropy
  | slhEntropy
  | invalidEcEntropy
  | outputValue (outputValue prevoutValue : UInt64)
  | pubkeySize (size : Nat)
  | keyGeneration
  | sighash (error : SighashError)
  | signing
  deriving DecidableEq, Repr

def validateEntropy (entropy : Bytes) : SignAlgorithm → Except SignerError Unit
  | .schnorr => if entropy.length ≠ 32 then .error .schnorrEntropy else .ok ()
  | .mldsa | .slh => if entropy.length < 128 then .error .pqcEntropy else .ok ()

def validateHybridEntropy (ecEntropy slhEntropy : Bytes) : Except SignerError Unit :=
  if ecEntropy.length ≠ 32 then .error .ecEntropy
  else if slhEntropy.length < 128 then .error .slhEntropy
  else .ok ()

def validateOutputValue (outputValue prevoutValue : UInt64) : Except SignerError Unit :=
  if outputValue > prevoutValue then .error (.outputValue outputValue prevoutValue) else .ok ()

def push32Checksig (pubkey : Bytes) : Script := 0x20 :: (pubkey ++ [0xac])

/-- `PUSH <pk> OP_CHECKSIG`. -/
def buildChecksigLeaf (pubkey : Bytes) : Except SignerError Script :=
  if pubkey.length = mlDsa44PublicKeySize then
    .ok (0x4d :: (LittleEndian.encode 2 pubkey.length ++ (pubkey ++ [0xac])))
  else if pubkey.length = 32 then .ok (push32Checksig pubkey)
  else .error (.pubkeySize pubkey.length)

/-- Two `PUSH32 OP_CHECKSIG`, then `OP_BOOLAND OP_VERIFY`. -/
def buildHybridEcSlhLeaf (ecPk slhPk : Bytes) : Script :=
  push32Checksig ecPk ++ (push32Checksig slhPk ++ [0x9a, 0x69])

def singleLeafControlBlock : Bytes := [0xc1]

def p2mrScriptPubkey (merkleRoot : Bytes) : Script := 0x52 :: 0x20 :: merkleRoot

def appendSighash (sig : Bytes) (sighashType : TapSighashType) : Bytes :=
  if sighashType ≠ .default then sig ++ [sighashType.toU8] else sig

variable (C : Crypto) (S : Signers)

def singleLeafMerkleRoot (leafScript : Script) : Bytes := C.p2mrLeafHash p2mrLeafVersion leafScript

def generateP2mrKeypair (algorithm : SignAlgorithm) (entropy : Bytes) : Except SignerError KeyPair := do
  validateEntropy entropy algorithm
  (S.generateKeypair algorithm.toBitcoinpqc entropy).elim (.error .keyGeneration) .ok

def ecKeypairFromEntropy (ecEntropy : Bytes) : Except SignerError EcKeypair :=
  (S.ecKeypair ecEntropy).elim (.error .invalidEcEntropy) .ok

def generateSlhKeypair (slhEntropy : Bytes) : Except SignerError KeyPair :=
  (S.generateKeypair .slhDsaSha2128s slhEntropy).elim (.error .keyGeneration) .ok

def slhPk32 (keypair : KeyPair) : Except SignerError Bytes :=
  if keypair.publicKey.length = 32 then .ok keypair.publicKey
  else .error (.pubkeySize keypair.publicKey.length)

/-- The output script and the leaf of one key. -/
def p2mrOutputForAlgorithm (algorithm : SignAlgorithm) (entropy : Bytes) :
    Except SignerError (Script × Script) := do
  let keypair ← generateP2mrKeypair S algorithm entropy
  let leafScript ← buildChecksigLeaf keypair.publicKey
  .ok (p2mrScriptPubkey (singleLeafMerkleRoot C leafScript), leafScript)

def p2mrOutputForHybridEcSlh (ecEntropy slhEntropy : Bytes) : Except SignerError (Script × Script) := do
  validateHybridEntropy ecEntropy slhEntropy
  let ecKeypair ← ecKeypairFromEntropy S ecEntropy
  let slhKeypair ← generateSlhKeypair S slhEntropy
  let slhPk ← slhPk32 slhKeypair
  let leafScript := buildHybridEcSlhLeaf ecKeypair.xOnlyPublicKey slhPk
  .ok (p2mrScriptPubkey (singleLeafMerkleRoot C leafScript), leafScript)

/-! ## Spends -/

/-- A version 2 transaction with one final input. -/
def p2mrSpendTx (previousOutput : OutPoint) (outputs : List TxOut) (witness : List Bytes) :
    Transaction where
  version := 2
  lockTime := 0
  input := [⟨previousOutput, [], 0xffffffff, witness⟩]
  output := outputs

/-- The sum wraps around, as `u64` does in a release build. -/
def totalOut (outputs : List TxOut) : UInt64 := (outputs.map TxOut.value).sum

def p2mrSpendSighash (unsignedSpendTx : Transaction) (prevout : TxOut) (leafScript : Script)
    (sighashType : TapSighashType) : Except SignerError Bytes :=
  (C.taprootSignatureHash unsignedSpendTx 0 (.all [prevout]) none
    (C.tapLeafHash p2mrLeafVersion leafScript) sighashType).mapError .sighash

def signMessage (secretKey : SecretKey) (message : Bytes) : Except SignerError Bytes :=
  (S.sign secretKey message).elim (.error .signing) .ok

structure P2mrSpendSigningResult where
  publicKey : Bytes
  leafScript : Script
  merkleRoot : Bytes
  scriptPubkey : Script
  controlBlock : Bytes
  sighash : Bytes
  witnessSig : Bytes
  witness : List Bytes
  unsignedSpendTx : Transaction
  signedSpendTx : Transaction
  deriving DecidableEq, Repr

def signP2mrSpendCore (keypair : KeyPair) (sighashType : TapSighashType) (prevout : TxOut)
    (spendPreviousOutput : OutPoint) (outputs : List TxOut) :
    Except SignerError P2mrSpendSigningResult := do
  validateOutputValue (totalOut outputs) prevout.value
  let leafScript ← buildChecksigLeaf keypair.publicKey
  let merkleRoot := singleLeafMerkleRoot C leafScript
  let unsignedSpendTx := p2mrSpendTx spendPreviousOutput outputs []
  let sighash ← p2mrSpendSighash C unsignedSpendTx prevout leafScript sighashType
  let signature ← signMessage S keypair.secretKey sighash
  let witnessSig := appendSighash signature sighashType
  let witness := [witnessSig, leafScript, singleLeafControlBlock]
  .ok {
    publicKey := keypair.publicKey
    leafScript := leafScript
    merkleRoot := merkleRoot
    scriptPubkey := p2mrScriptPubkey merkleRoot
    controlBlock := singleLeafControlBlock
    sighash := sighash
    witnessSig := witnessSig
    witness := witness
    unsignedSpendTx := unsignedSpendTx
    signedSpendTx := p2mrSpendTx spendPreviousOutput outputs witness }

def buildP2mrSpendFromPrevout (algorithm : SignAlgorithm) (entropy : Bytes)
    (sighashType : TapSighashType) (spendPreviousOutput : OutPoint) (prevout : TxOut)
    (outputs : List TxOut) : Except SignerError Transaction := do
  let keypair ← generateP2mrKeypair S algorithm entropy
  let signed ← signP2mrSpendCore C S keypair sighashType prevout spendPreviousOutput outputs
  .ok signed.signedSpendTx

def buildHybridEcSlhSpendFromPrevout (ecEntropy slhEntropy : Bytes) (sighashType : TapSighashType)
    (spendPreviousOutput : OutPoint) (prevout : TxOut) (outputs : List TxOut) :
    Except SignerError Transaction := do
  validateHybridEntropy ecEntropy slhEntropy
  validateOutputValue (totalOut outputs) prevout.value
  let ecKeypair ← ecKeypairFromEntropy S ecEntropy
  let slhKeypair ← generateSlhKeypair S slhEntropy
  let slhPk ← slhPk32 slhKeypair
  let leafScript := buildHybridEcSlhLeaf ecKeypair.xOnlyPublicKey slhPk
  let unsignedSpendTx := p2mrSpendTx spendPreviousOutput outputs []
  let sighash ← p2mrSpendSighash C unsignedSpendTx prevout leafScript sighashType
  let ecSig := S.signSchnorr ecKeypair sighash
  let slhSig ← signMessage S slhKeypair.secretKey sighash
  .ok (p2mrSpendTx spendPreviousOutput outputs
    [appendSighash ecSig sighashType, appendSighash slhSig sighashType, leafScript,
      singleLeafControlBlock])

end Pqc

end Bip360Enforcer
