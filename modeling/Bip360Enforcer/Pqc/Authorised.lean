import Bip360Enforcer.Library.Table
import Bip360Enforcer.Pqc.LeafScript
import Bip360Enforcer.Pqc.Schemes

/-!
# What authorises a P2MR spend
-/

namespace Bip360Enforcer.Pqc

variable (C : Crypto)

/-- The verifier of a scheme, given a signature without its hash type. -/
def SignatureScheme.accepts (pubkey message signature : Bytes) : SignatureScheme → Bool
  | .schnorr => C.xonlyFromSlice pubkey && C.schnorrVerify signature message pubkey
  | .mlDsa44 => C.pqcSignatureValid .mlDsa44 signature && C.pqcPublicKeyValid .mlDsa44 pubkey
      && C.pqcVerify .mlDsa44 pubkey message signature
  | .slhDsaSha2128s => C.pqcSignatureValid .slhDsaSha2128s signature
      && C.pqcPublicKeyValid .slhDsaSha2128s pubkey
      && C.pqcVerify .slhDsaSha2128s pubkey message signature

/-- The scheme that the signature selects accepts it, over the message of its own hash type. -/
def SignatureAccepted (ctx : TapscriptVerifyContext) (pubkey signature : Bytes) : Prop :=
  ∃ scheme message, classifySignature signature = .ok scheme ∧
    pubkey.length = expectedPubkeySize scheme ∧
    scriptSpendSighash C ctx (parseSighashType signature) = .ok message ∧
    scheme.accepts C pubkey message (stripSighashByte signature) = true

/-- The outputs that a signature hash is computed from are those that the transaction spends: the
input's own is `prevout`, and the others are as in the table `t` where it has them. -/
structure SpentOutputs (tx : Transaction) (inputIndex : Nat) (prevout : TxOut)
    (t : Table OutPoint TxOut) (prevouts : Prevouts) : Prop where
  own : prevouts.get inputIndex = .ok prevout
  all : ∀ txouts, prevouts = .all txouts → txouts.length = tx.input.length ∧
    ∀ (i : Nat) (input : TxIn) (txout : TxOut), tx.input[i]? = some input →
      t input.previousOutput = some txout → txouts[i]? = some txout

/-- How the witness of an input authorises the spend of `prevout`. -/
structure Authorisation (tx : Transaction) (inputIndex : Nat) (input : TxIn) (prevout : TxOut)
    (t : Table OutPoint TxOut) (signatures : List Bytes) (leafScript controlBlock : Bytes)
    (sites : List SigCheckSite) (prevouts : Prevouts) : Prop where
  witness : input.witness = signatures ++ [leafScript, controlBlock]
  root : recomputeMerkleRoot C leafScript controlBlock = .ok ((prevout.scriptPubkey.drop 2).take 32)
  parsed : parseLeafScript leafScript = .ok ⟨sites⟩
  nonempty : sites ≠ []
  count : signatures.length = sites.length
  keys : ∀ site ∈ sites, some (.pushBytes site.pubkey) ∈ instructions leafScript
  spent : SpentOutputs tx inputIndex prevout t prevouts
  accepted : ∀ entry ∈ sites.zip signatures,
    SignatureAccepted C ⟨tx, inputIndex, prevouts, C.tapLeafHash p2mrLeafVersion leafScript⟩
      entry.1.pubkey entry.2

def Authorised (tx : Transaction) (inputIndex : Nat) (input : TxIn) (prevout : TxOut)
    (t : Table OutPoint TxOut) : Prop :=
  ∃ signatures leafScript controlBlock sites prevouts,
    Authorisation C tx inputIndex input prevout t signatures leafScript controlBlock sites prevouts

end Bip360Enforcer.Pqc
