import Bip360Enforcer.Bitcoin.Script

/-!
# Hashes, signatures and the taproot signature message

What the external crates compute is a field of `Crypto`; what they check and select is defined here.
-/

namespace Bip360Enforcer

/-! ## Signature hash types -/

inductive TapSighashType where
  | default
  | all
  | none
  | single
  | allPlusAnyoneCanPay
  | nonePlusAnyoneCanPay
  | singlePlusAnyoneCanPay
  deriving DecidableEq, Repr

namespace TapSighashType

def fromConsensusU8 (byte : UInt8) : Option TapSighashType :=
  if byte = 0x00 then some default
  else if byte = 0x01 then some all
  else if byte = 0x02 then some none
  else if byte = 0x03 then some single
  else if byte = 0x81 then some allPlusAnyoneCanPay
  else if byte = 0x82 then some nonePlusAnyoneCanPay
  else if byte = 0x83 then some singlePlusAnyoneCanPay
  else Option.none

def anyoneCanPay : TapSighashType → Bool
  | allPlusAnyoneCanPay | nonePlusAnyoneCanPay | singlePlusAnyoneCanPay => true
  | default | all | none | single => false

def commitsAllOutputs : TapSighashType → Bool
  | default | all | allPlusAnyoneCanPay => true
  | none | single | nonePlusAnyoneCanPay | singlePlusAnyoneCanPay => false

def isSingle : TapSighashType → Bool
  | single | singlePlusAnyoneCanPay => true
  | default | all | none | allPlusAnyoneCanPay | nonePlusAnyoneCanPay => false

end TapSighashType

/-! ## The signature message -/

/-- The outputs a signature hash may be computed from: the input's own, or those of all inputs. -/
inductive Prevouts where
  | one (index : Nat) (txout : TxOut)
  | all (txouts : List TxOut)
  deriving DecidableEq, Repr

inductive SighashError where
  | prevoutsSize
  | prevoutsIndex
  | prevoutsKind
  | inputsIndex
  | singleMissingOutput
  deriving DecidableEq, Repr

namespace Prevouts

def get : Prevouts → Nat → Except SighashError TxOut
  | one index txout, i => if i = index then .ok txout else .error .prevoutsIndex
  | all txouts, i =>
      match txouts[i]? with
      | some txout => .ok txout
      | none => .error .prevoutsIndex

def getAll : Prevouts → Except SighashError (List TxOut)
  | one _ _ => .error .prevoutsKind
  | all txouts => .ok txouts

def checkAll (tx : Transaction) : Prevouts → Except SighashError Unit
  | one _ _ => .ok ()
  | all txouts => if txouts.length = tx.input.length then .ok () else .error .prevoutsSize

end Prevouts

/-- What the spends of all inputs contribute, when the type commits to them. -/
structure CommittedInputs where
  prevouts : List OutPoint
  spent : List TxOut
  sequences : List UInt32
  deriving DecidableEq, Repr

/-- The input being signed: in full under ANYONECANPAY, else by its index. -/
inductive SignedInput where
  | full (previousOutput : OutPoint) (txout : TxOut) (sequence : UInt32)
  | index (i : Nat)
  deriving DecidableEq, Repr

/-- The fields that a taproot script-path signature commits to. -/
structure TapSigMsg where
  hashType : TapSighashType
  version : Int32
  lockTime : UInt32
  inputs : Option CommittedInputs
  outputs : Option (List TxOut)
  current : SignedInput
  annex : Option Bytes
  singleOutput : Option TxOut
  leafHash : Bytes
  codeSeparator : UInt32
  deriving DecidableEq, Repr

/-- `OP_CODESEPARATOR` is not implemented, so its position is always this one. -/
def noCodeseparator : UInt32 := 0xffffffff

def committedInputs (tx : Transaction) (prevouts : Prevouts) (sighashType : TapSighashType) :
    Except SighashError (Option CommittedInputs) :=
  if sighashType.anyoneCanPay then .ok none
  else do
    let spent ← prevouts.getAll
    .ok (some ⟨tx.input.map TxIn.previousOutput, spent, tx.input.map TxIn.sequence⟩)

def signedInput (tx : Transaction) (inputIndex : Nat) (prevouts : Prevouts)
    (sighashType : TapSighashType) : Except SighashError SignedInput :=
  if sighashType.anyoneCanPay then
    match tx.input[inputIndex]? with
    | none => .error .inputsIndex
    | some txin => do
        let txout ← prevouts.get inputIndex
        .ok (.full txin.previousOutput txout txin.sequence)
  else .ok (.index inputIndex)

def singleOutput (tx : Transaction) (inputIndex : Nat) (sighashType : TapSighashType) :
    Except SighashError (Option TxOut) :=
  if sighashType.isSingle then
    match tx.output[inputIndex]? with
    | none => .error .singleMissingOutput
    | some txout => .ok (some txout)
  else .ok none

/-- `SighashCache::taproot_encode_signing_data_to` for a script-path spend. -/
def taprootSigMsg (tx : Transaction) (inputIndex : Nat) (prevouts : Prevouts) (annex : Option Bytes)
    (leafHash : Bytes) (sighashType : TapSighashType) : Except SighashError TapSigMsg := do
  prevouts.checkAll tx
  let inputs ← committedInputs tx prevouts sighashType
  let current ← signedInput tx inputIndex prevouts sighashType
  let single ← singleOutput tx inputIndex sighashType
  .ok {
    hashType := sighashType
    version := tx.version
    lockTime := tx.lockTime
    inputs := inputs
    outputs := if sighashType.commitsAllOutputs then some tx.output else none
    current := current
    annex := annex
    singleOutput := single
    leafHash := leafHash
    codeSeparator := noCodeseparator }

/-! ## External functions -/

/-- The post-quantum signature algorithms. -/
inductive Algorithm where
  | mlDsa44
  | slhDsaSha2128s
  deriving DecidableEq, Repr

/-- The functions of the hash, signature and consensus crates. -/
structure Crypto where
  computeTxid : Transaction → Txid
  blockHash : Header → BlockHash
  /-- The work of a header as a number. `Work` has 256 bits: the totals of all chains of headers are
  assumed to be below `2 ^ 256`, so that its sums and comparisons are those of numbers. -/
  work : Header → Nat
  work_pos : ∀ header, 0 < work header
  sha256 : Bytes → Bytes
  ripemd160 : Bytes → Bytes
  /-- `TapLeafHash::from_script`, by leaf version. -/
  tapLeafHash : UInt8 → Script → Bytes
  tapBranchHash : Bytes → Bytes → Bytes
  /-- The leaf and branch hashes of the P2MR script tree. -/
  p2mrLeafHash : UInt8 → Script → Bytes
  p2mrBranchHash : Bytes → Bytes → Bytes
  /-- The output key of an internal key and a merkle root. -/
  tapTweak : Bytes → Bytes → Bytes
  tapSighash : TapSigMsg → Bytes
  /-- Whether 32 bytes are the x coordinate of a point of the curve. -/
  xonlyValid : Bytes → Bool
  schnorrVerify : (signature message pubkey : Bytes) → Bool
  pqcSignatureValid : Algorithm → Bytes → Bool
  pqcPublicKeyValid : Algorithm → Bytes → Bool
  pqcVerify : Algorithm → (pubkey message signature : Bytes) → Bool

namespace Crypto

variable (C : Crypto)

def sha256d (data : Bytes) : Bytes := C.sha256 (C.sha256 data)

def hash160 (data : Bytes) : Bytes := C.ripemd160 (C.sha256 data)

/-- `SHA256(SHA256(tag) || SHA256(tag) || msg)`. -/
def taggedHash (tag msg : Bytes) : Bytes :=
  C.sha256 (C.sha256 tag ++ C.sha256 tag ++ msg)

/-- `SighashCache::taproot_signature_hash`. -/
def taprootSignatureHash (tx : Transaction) (inputIndex : Nat) (prevouts : Prevouts)
    (annex : Option Bytes) (leafHash : Bytes) (sighashType : TapSighashType) :
    Except SighashError Bytes :=
  (taprootSigMsg tx inputIndex prevouts annex leafHash sighashType).map C.tapSighash

/-- `XOnlyPublicKey::from_slice`. -/
def xonlyFromSlice (bytes : Bytes) : Bool := bytes.length = 32 && C.xonlyValid bytes

/-- The first 32 bytes of `data`, filled up with zeros. -/
def front (data : Bytes) : Bytes := (data ++ List.replicate 32 0).take 32

/-- An instance to run the definitions on: hashes keep the front of their data, and the signature
of a message under a key is the message followed by the key. -/
def sample : Crypto where
  computeTxid tx := LittleEndian.encode 32 (tx.lockTime.toNat + 1)
  blockHash header := LittleEndian.encode 32 (header.nonce.toNat + 1)
  work _ := 1
  work_pos _ := Nat.one_pos
  sha256 := front
  ripemd160 data := data.take 20
  tapLeafHash version script := front (version :: script)
  tapBranchHash a b := front (a.zipWith (· ^^^ ·) b)
  p2mrLeafHash version script := front (version :: script)
  p2mrBranchHash a b := front (a.zipWith (· ^^^ ·) b)
  tapTweak key root := front (key.zipWith (· ^^^ ·) root)
  tapSighash msg := LittleEndian.encode 32 (msg.lockTime.toNat + 1)
  xonlyValid _ := true
  schnorrVerify signature message pubkey := signature == message ++ pubkey
  pqcSignatureValid _ _ := true
  pqcPublicKeyValid _ _ := true
  pqcVerify _ pubkey message signature := signature.take 64 == message ++ pubkey.take 32

end Crypto

/-! ## Taproot control blocks -/

/-- The leaf version of tapscript. -/
def tapscriptLeafVersion : UInt8 := 0xc0

def annexPrefix : UInt8 := 0x50

structure ControlBlock where
  leafVersion : UInt8
  outputKeyParity : Bool
  internalKey : Bytes
  merkleBranch : List Bytes
  deriving DecidableEq, Repr

/-- Cut `data` into pieces of `n` bytes, at most `count` of them. -/
def chunks (n : Nat) : Nat → Bytes → List Bytes
  | 0, _ => []
  | count + 1, data => data.take n :: chunks n count (data.drop n)

/-- `LeafVersion::from_consensus`. -/
def leafVersionFromConsensus (byte : UInt8) : Option UInt8 :=
  if byte = annexPrefix || byte &&& 0xfe != byte then none else some byte

/-- `ControlBlock::decode`. -/
def ControlBlock.decode (C : Crypto) (sl : Bytes) : Option ControlBlock :=
  match sl with
  | [] => none
  | first :: rest =>
      if sl.length < 33 || (sl.length - 33) % 32 != 0 then none
      else do
        let leafVersion ← leafVersionFromConsensus (first &&& 0xfe)
        let internalKey := rest.take 32
        if !C.xonlyFromSlice internalKey then none
        else
          let depth := (sl.length - 33) / 32
          if 128 < depth then none
          else some {
            leafVersion := leafVersion
            outputKeyParity := first &&& 1 != 0
            internalKey := internalKey
            merkleBranch := chunks 32 depth (rest.drop 32) }

end Bip360Enforcer
