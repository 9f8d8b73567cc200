import Bip360Enforcer.Pqc.Limits

/-!
# Signature schemes, selected by the size of the witness element
-/

namespace Bip360Enforcer.Pqc

inductive SignatureScheme where
  | schnorr
  | mlDsa44
  | slhDsaSha2128s
  deriving DecidableEq, Repr

inductive SchemeError where
  | unrecognizedSize (size : Nat)
  | invalidSchnorr
  | invalidMlDsa44
  | invalidSlhDsaSha2128s
  | pubkeySchemeMismatch (pubkeySize : Nat) (scheme : SignatureScheme)
  | sighash (error : SighashError)
  | pqcVerifyBudgetExceeded
  | blockVerifyBudgetExhausted
  deriving DecidableEq, Repr

/-! ## The sighash byte -/

def isCanonicalSize (size : Nat) : Bool :=
  size = schnorrSignatureSize || size = mlDsa44SignatureSize || size = slhDsa128sSignatureSize

def parseSighashType (signature : Bytes) : TapSighashType :=
  match signature.getLast? with
  | none => .default
  | some last =>
      if signature.length ≤ 1 then .default
      else if isCanonicalSize (signature.length - 1) then
        (TapSighashType.fromConsensusU8 last).getD .default
      else .default

def stripSighashByte (signature : Bytes) : Bytes :=
  match signature.getLast? with
  | none => signature
  | some last =>
      if signature.length ≤ 1 then signature
      else if (TapSighashType.fromConsensusU8 last).isNone then signature
      else if isCanonicalSize (signature.length - 1) then signature.dropLast
      else signature

/-! ## Sizes -/

def withinTolerance (size expected : Nat) : Bool :=
  size + pqcSignatureSizeTolerance ≥ expected && size ≤ expected + pqcSignatureSizeTolerance

def classifySignature (signature : Bytes) : Except SchemeError SignatureScheme :=
  let size := (stripSighashByte signature).length
  if size = schnorrSignatureSize then .ok .schnorr
  else if withinTolerance size mlDsa44SignatureSize then .ok .mlDsa44
  else if withinTolerance size slhDsa128sSignatureSize then .ok .slhDsaSha2128s
  else .error (.unrecognizedSize size)

def expectedPubkeySize : SignatureScheme → Nat
  | .schnorr | .slhDsaSha2128s => slhDsaPublicKeySize
  | .mlDsa44 => mlDsa44PublicKeySize

def validatePubkeyForScheme (pubkeyBytes : Bytes) (scheme : SignatureScheme) :
    Except SchemeError Unit :=
  if pubkeyBytes.length = expectedPubkeySize scheme then .ok ()
  else .error (.pubkeySchemeMismatch pubkeyBytes.length scheme)

/-! ## Verification -/

/-- What the signatures of one input are verified over. -/
structure TapscriptVerifyContext where
  tx : Transaction
  inputIndex : Nat
  prevouts : Prevouts
  leafHash : Bytes

section

variable (C : Crypto) (clock : Clock)

/-- The message of a signature of the given type. -/
def scriptSpendSighash (ctx : TapscriptVerifyContext) (sighashType : TapSighashType) :
    Except SighashError Bytes :=
  C.taprootSignatureHash ctx.tx ctx.inputIndex ctx.prevouts none ctx.leafHash sighashType

def verifySchnorr (signature message pubkeyBytes : Bytes) : Except SchemeError Unit :=
  let sigBytes := stripSighashByte signature
  if sigBytes.length ≠ schnorrSignatureSize then .error .invalidSchnorr
  else if !C.xonlyFromSlice pubkeyBytes then .error .invalidSchnorr
  else if C.schnorrVerify sigBytes message pubkeyBytes then .ok ()
  else .error .invalidSchnorr

/-- A post-quantum verification is timed whether or not it succeeds. -/
def verifyPqc (algorithm : Algorithm) (sigBytes message pubkeyBytes : Bytes)
    (invalid : SchemeError) (timer : Timer) : Except SchemeError Timer :=
  let timer := timer.record clock
  if timer.exhausted then .error .pqcVerifyBudgetExceeded
  else if C.pqcSignatureValid algorithm sigBytes && C.pqcPublicKeyValid algorithm pubkeyBytes
      && C.pqcVerify algorithm pubkeyBytes message sigBytes then .ok timer
  else .error invalid

def verifyMlDsa44 (signature message pubkeyBytes : Bytes) (timer : Timer) :
    Except SchemeError Timer :=
  verifyPqc C clock .mlDsa44 (stripSighashByte signature) message pubkeyBytes .invalidMlDsa44 timer

def verifySlhDsaSha2128s (signature message pubkeyBytes : Bytes) (timer : Timer) :
    Except SchemeError Timer :=
  verifyPqc C clock .slhDsaSha2128s (stripSighashByte signature) message pubkeyBytes
    .invalidSlhDsaSha2128s timer

def verifyTapscriptSignature (scheme : SignatureScheme) (signature pubkeyBytes : Bytes)
    (ctx : TapscriptVerifyContext) (timer : Timer) : Except SchemeError Timer := do
  let sighash ← (scriptSpendSighash C ctx (parseSighashType signature)).mapError .sighash
  match scheme with
  | .schnorr => do
      verifySchnorr C signature sighash pubkeyBytes
      .ok timer
  | .mlDsa44 => verifyMlDsa44 C clock signature sighash pubkeyBytes timer
  | .slhDsaSha2128s => verifySlhDsaSha2128s C clock signature sighash pubkeyBytes timer

def verifyOverloadedChecksig (pubkeyBytes signature : Bytes) (ctx : TapscriptVerifyContext)
    (timer : Timer) : Except SchemeError Timer :=
  if timer.exhausted then .error .blockVerifyBudgetExhausted
  else do
    let scheme ← classifySignature signature
    validatePubkeyForScheme pubkeyBytes scheme
    verifyTapscriptSignature C clock scheme signature pubkeyBytes ctx timer

end

end Bip360Enforcer.Pqc
