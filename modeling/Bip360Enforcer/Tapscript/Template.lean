import Bip360Enforcer.Tapscript.Interp

/-!
# What a template hash commits to
-/

namespace Bip360Enforcer.Tapscript

open LittleEndian (encode)

/-- Two transactions, at these inputs, with the same template. -/
structure SameTemplate (tx : Transaction) (inputIndex : Nat) (tx' : Transaction) (inputIndex' : Nat) :
    Prop where
  version : tx.version = tx'.version
  lockTime : tx.lockTime = tx'.lockTime
  scriptSigs : tx.input.map TxIn.scriptSig = tx'.input.map TxIn.scriptSig
  numInputs : tx.input.length = tx'.input.length
  sequences : tx.input.map TxIn.sequence = tx'.input.map TxIn.sequence
  outputs : tx.output = tx'.output
  index : inputIndex = inputIndex'

/-- The counts and the index fit in 32 bits, the lengths of the scripts in 64. -/
structure TemplateBounds (tx : Transaction) (inputIndex : Nat) : Prop where
  inputs : tx.input.length < 2 ^ 32
  outputs : tx.output.length < 2 ^ 32
  index : inputIndex < 2 ^ 32
  scriptSigs : ∀ input ∈ tx.input, input.scriptSig.length < 2 ^ 64
  scriptPubkeys : ∀ out ∈ tx.output, out.scriptPubkey.length < 2 ^ 64

/-! ## Hashed messages -/

def scriptSigsMessage (tx : Transaction) : Bytes :=
  tx.input.flatMap fun input => serializeScript input.scriptSig

def sequencesMessage (tx : Transaction) : Bytes :=
  tx.input.flatMap fun input => encode 4 input.sequence.toNat

def outputsMessage (tx : Transaction) : Bytes := tx.output.flatMap TxOut.serialize

def hasScriptSig (tx : Transaction) : Bool := tx.input.any fun input => !input.scriptSig.isEmpty

/-- What the template hash is the hash of. -/
def templatePreimage (C : Crypto) (tx : Transaction) (inputIndex : Nat) : Bytes :=
  encode 4 tx.version.toUInt32.toNat ++ encode 4 tx.lockTime.toNat
    ++ (if hasScriptSig tx then C.sha256 (scriptSigsMessage tx) else [])
    ++ encode 4 tx.input.length ++ C.sha256 (sequencesMessage tx) ++ encode 4 tx.output.length
    ++ C.sha256 (outputsMessage tx) ++ encode 4 inputIndex

/-- All that is hashed on the way to the template hash. -/
def templateMessages (C : Crypto) (tx : Transaction) (inputIndex : Nat) : List Bytes :=
  [templatePreimage C tx inputIndex, sequencesMessage tx, outputsMessage tx]
    ++ if hasScriptSig tx then [scriptSigsMessage tx] else []

theorem defaultCheckTemplateVerifyHash_eq (C : Crypto) (tx : Transaction) (inputIndex : Nat) :
    defaultCheckTemplateVerifyHash C tx inputIndex = C.sha256 (templatePreimage C tx inputIndex) := rfl

end Bip360Enforcer.Tapscript
