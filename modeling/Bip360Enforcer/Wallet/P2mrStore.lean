import Bip360Enforcer.Library.Except
import Bip360Enforcer.Pqc.Signer

/-!
# The wallet's store of P2MR keys
-/

namespace Bip360Enforcer.Wallet

open Pqc (SignAlgorithm SignerError Signers)

inductive P2mrScheme where
  | schnorr
  | mldsa
  | slh
  | hybridEcSlh
  deriving DecidableEq, Repr

/-- One address, with what is needed to spend from it. -/
structure P2mrAddressRecord where
  scheme : P2mrScheme
  entropy : Bytes
  leafScript : Script
  merkleRoot : Bytes
  scriptPubkey : Script
  deriving DecidableEq, Repr

inductive P2mrStoreError where
  | hybridEntropyTooShort (size : Nat)
  | buildOutput (source : SignerError)
  deriving DecidableEq, Repr

def ecEntropyLen : Nat := 32

def pqcEntropyLen : Nat := 128

/-- Entropy of the EC key, followed by that of the post-quantum key. -/
def splitEcPqc (entropy : Bytes) : Except P2mrStoreError (Bytes × Bytes) :=
  if entropy.length < ecEntropyLen + pqcEntropyLen then .error (.hybridEntropyTooShort entropy.length)
  else .ok (entropy.take ecEntropyLen, entropy.drop ecEntropyLen)

variable (C : Crypto) (S : Signers)

/-- The output script and the leaf of an address. -/
def mkOutput (scheme : P2mrScheme) (entropy : Bytes) : Except P2mrStoreError (Script × Script) :=
  match scheme with
  | .schnorr => (Pqc.p2mrOutputForAlgorithm C S .schnorr entropy).mapError .buildOutput
  | .mldsa => (Pqc.p2mrOutputForAlgorithm C S .mldsa entropy).mapError .buildOutput
  | .slh => (Pqc.p2mrOutputForAlgorithm C S .slh entropy).mapError .buildOutput
  | .hybridEcSlh => do
      let (ec, slh) ← splitEcPqc entropy
      (Pqc.p2mrOutputForHybridEcSlh C S ec slh).mapError .buildOutput

/-- The entropy is drawn at random. -/
def buildRecord (scheme : P2mrScheme) (entropy : Bytes) : Except P2mrStoreError P2mrAddressRecord := do
  let (spk, leaf) ← mkOutput C S scheme entropy
  .ok ⟨scheme, entropy, leaf, spk.drop 2, spk⟩

namespace P2mrAddressRecord

def buildSpend (record : P2mrAddressRecord) (outpoint : OutPoint) (prevout : TxOut)
    (outputs : List TxOut) (sighashType : TapSighashType) : Except P2mrStoreError Transaction :=
  let single (algorithm : SignAlgorithm) : Except P2mrStoreError Transaction :=
    (Pqc.buildP2mrSpendFromPrevout C S algorithm record.entropy sighashType outpoint prevout
      outputs).mapError .buildOutput
  match record.scheme with
  | .schnorr => single .schnorr
  | .mldsa => single .mldsa
  | .slh => single .slh
  | .hybridEcSlh => do
      let (ec, slh) ← splitEcPqc record.entropy
      (Pqc.buildHybridEcSlhSpendFromPrevout C S ec slh sighashType outpoint prevout
        outputs).mapError .buildOutput

variable {C S} in
/-- A spend is signed with the key that its output was made for, or with the two of a hybrid address. -/
theorem buildSpend_cases {record : P2mrAddressRecord} {outpoint : OutPoint} {prevout : TxOut}
    {outputs : List TxOut} {sighashType : TapSighashType} {tx : Transaction}
    (h : record.buildSpend C S outpoint prevout outputs sighashType = .ok tx) :
    (∃ algorithm,
      mkOutput C S record.scheme record.entropy =
        (Pqc.p2mrOutputForAlgorithm C S algorithm record.entropy).mapError .buildOutput ∧
      Pqc.buildP2mrSpendFromPrevout C S algorithm record.entropy sighashType outpoint prevout outputs =
        .ok tx) ∨
    ∃ ec slh,
      mkOutput C S record.scheme record.entropy =
        (Pqc.p2mrOutputForHybridEcSlh C S ec slh).mapError .buildOutput ∧
      Pqc.buildHybridEcSlhSpendFromPrevout C S ec slh sighashType outpoint prevout outputs = .ok tx := by
  unfold buildSpend at h
  cases hscheme : record.scheme with
  | schnorr =>
      rw [hscheme] at h
      exact .inl ⟨.schnorr, rfl, Except.mapError_eq_ok_iff.mp h⟩
  | mldsa =>
      rw [hscheme] at h
      exact .inl ⟨.mldsa, rfl, Except.mapError_eq_ok_iff.mp h⟩
  | slh =>
      rw [hscheme] at h
      exact .inl ⟨.slh, rfl, Except.mapError_eq_ok_iff.mp h⟩
  | hybridEcSlh =>
      rw [hscheme] at h
      obtain ⟨⟨ec, slh⟩, hseeds, h⟩ := Except.bind_eq_ok_iff.mp h
      refine .inr ⟨ec, slh, ?_, Except.mapError_eq_ok_iff.mp h⟩
      rw [mkOutput, hseeds]
      rfl

end P2mrAddressRecord

/-- The addresses of the file, oldest first. -/
abbrev P2mrStore := List P2mrAddressRecord

def P2mrStore.getBySpk (store : P2mrStore) (spk : Script) : Option P2mrAddressRecord :=
  store.find? fun record => record.scriptPubkey = spk

end Bip360Enforcer.Wallet
