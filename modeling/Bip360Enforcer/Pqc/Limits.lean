import Bip360Enforcer.Bitcoin.Crypto

/-!
# Limits, activation and the shape of P2MR outputs
-/

namespace Bip360Enforcer.Pqc

def slhDsaPublicKeySize : Nat := 32

def mlDsa44PublicKeySize : Nat := 1312

def schnorrSignatureSize : Nat := 64

def mlDsa44SignatureSize : Nat := 2420

def slhDsa128sSignatureSize : Nat := 7856

def maxP2mrWitnessStack : Nat := 100

def maxP2mrLeafScriptSize : Nat := 10000

def maxPqcSigWuPerInput : Nat := 12288

def pqcSignatureSizeTolerance : Nat := 4

def estimateSigWu (sigLen : Nat) : Nat := sigLen

/-! ## Verification time -/

/-- Durations are in nanoseconds. -/
structure PqcVerifyBudget where
  budget : Nat
  elapsed : Nat
  deriving DecidableEq, Repr

namespace PqcVerifyBudget

def withBudgetMs (ms : Nat) : PqcVerifyBudget := ⟨ms * 1000000, 0⟩

def exceeded (b : PqcVerifyBudget) : Bool := b.elapsed > b.budget

def record (b : PqcVerifyBudget) (duration : Nat) : PqcVerifyBudget :=
  { b with elapsed := b.elapsed + duration }

end PqcVerifyBudget

/-- The wall clock of a validation: how long its n-th post-quantum verification takes. -/
abbrev Clock := Nat → Nat

/-- The budget of a validation and the number of verifications it has timed. -/
structure Timer where
  pqcBudget : Option PqcVerifyBudget
  calls : Nat
  deriving DecidableEq, Repr

def Timer.exhausted (timer : Timer) : Bool := timer.pqcBudget.any PqcVerifyBudget.exceeded

def Timer.record (timer : Timer) (clock : Clock) : Timer where
  pqcBudget := timer.pqcBudget.map fun b => b.record (clock timer.calls)
  calls := timer.calls + 1

/-! ## Activation -/

structure Bip360Activation where
  height : Nat
  deriving DecidableEq, Repr

def Bip360Activation.isActive (activation : Bip360Activation) (height : Nat) : Bool :=
  height ≥ activation.height

/-! ## Outputs -/

inductive P2mrOutputError where
  | notP2mr
  | invalidLength
  | invalidMerkleRoot
  deriving DecidableEq, Repr

def isP2mrScript (script : Script) : Bool :=
  script.length = 34 && script[0]? = some 0x52 && script[1]? = some 0x20

def isP2mr (txout : TxOut) : Bool := isP2mrScript txout.scriptPubkey

/-- The merkle root that the output commits to. -/
def validateP2mrOutput (script : Script) : Except P2mrOutputError Bytes :=
  if !isP2mrScript script then .error .notP2mr
  else if script.length ≠ 34 ∨ script[0]? ≠ some 0x52 ∨ script[1]? ≠ some 0x20 then
    .error .invalidLength
  else
    let merkleRoot := (script.drop 2).take 32
    if merkleRoot.length ≠ 32 then .error .invalidMerkleRoot else .ok merkleRoot

/-! ## Merkle paths -/

def p2mrLeafVersion : UInt8 := 0xc0

def p2mrControlByte : UInt8 := 0xc1

inductive MerkleError where
  | invalidControlBlockSize
  | invalidControlByte
  | decodeFailed
  | merkleRootMismatch
  deriving DecidableEq, Repr

def merkleNodeSize : Nat := 32

def legacyPaddedBaseSize : Nat := 33

/-- The nodes of the path: after the control byte, or after a pad of zeros where there is one. -/
def merkleBranchBytes (controlBlockBytes : Bytes) : Except MerkleError Bytes :=
  match controlBlockBytes with
  | [] => .error .invalidControlBlockSize
  | control :: branch =>
      if control ≠ p2mrControlByte then .error .invalidControlByte
      else if legacyPaddedBaseSize ≤ controlBlockBytes.length
          ∧ (branch.take merkleNodeSize).all (· == 0)
          ∧ (controlBlockBytes.length - legacyPaddedBaseSize) % merkleNodeSize = 0 then
        .ok (branch.drop merkleNodeSize)
      else if branch.length % merkleNodeSize ≠ 0 then .error .invalidControlBlockSize
      else .ok branch

def recomputeMerkleRoot (C : Crypto) (leafScript controlBlockBytes : Bytes) :
    Except MerkleError Bytes := do
  let branch ← merkleBranchBytes controlBlockBytes
  match leafVersionFromConsensus p2mrLeafVersion with
  | none => .error .decodeFailed
  | some leafVersion =>
      .ok ((chunks merkleNodeSize (branch.length / merkleNodeSize) branch).foldl C.p2mrBranchHash
        (C.p2mrLeafHash leafVersion leafScript))

def verifyMerklePath (C : Crypto) (leafScript merkleRoot controlBlockBytes : Bytes) :
    Except MerkleError Unit := do
  let derived ← recomputeMerkleRoot C leafScript controlBlockBytes
  if derived ≠ merkleRoot then .error .merkleRootMismatch else .ok ()

end Bip360Enforcer.Pqc
