import Bip360Enforcer.Pqc.Lemmas.Signer
import Bip360Enforcer.Wallet.P2mrStore

/-!
# What the wallet signs, the validator accepts
-/

namespace Bip360Enforcer.Wallet

open Except (mapError_eq_ok_iff isOk_iff)
open Pqc

variable {C : Crypto} {S : Signers} {record : P2mrAddressRecord} {outpoint : OutPoint} {prevout : TxOut}
  {outputs : List TxOut} {sighashType : TapSighashType} {leafScript : Script} {tx : Transaction}

theorem buildSpend_signed (hC : Digests C) (hS : S.Sound C)
    (hout : mkOutput C S record.scheme record.entropy = .ok (prevout.scriptPubkey, leafScript))
    (h : record.buildSpend C S outpoint prevout outputs sighashType = .ok tx) :
    ∃ sites signatures, SignedSpend C tx outpoint prevout sighashType leafScript sites signatures := by
  rcases P2mrAddressRecord.buildSpend_cases h with ⟨algorithm, hmk, h⟩ | ⟨ec, slh, hmk, h⟩
  · rw [hmk] at hout
    exact buildP2mrSpendFromPrevout_signed hC hS (mapError_eq_ok_iff.mp hout) h
  · rw [hmk] at hout
    exact buildHybridEcSlhSpendFromPrevout_signed hC hS (mapError_eq_ok_iff.mp hout) h

/-- A spend of an output of the address is in order, and is rejected for lack of time only. -/
theorem buildSpend_accepted (hC : Digests C) (hS : S.Sound C)
    (hout : mkOutput C S record.scheme record.entropy = .ok (prevout.scriptPubkey, leafScript))
    (h : record.buildSpend C S outpoint prevout outputs sighashType = .ok tx) {clock : Clock}
    {view : SpendView} {timer : Timer}
    (hprevout : view.availablePrevouts.lookup outpoint = some prevout) :
    (∃ sites signatures, SignedSpend C tx outpoint prevout sighashType leafScript sites signatures) ∧
    ∀ e, validateTransactionSpends C clock tx view timer = .error e → e.Exhausted := by
  obtain ⟨sites, signatures, hsigned⟩ := buildSpend_signed hC hS hout h
  exact ⟨⟨sites, signatures, hsigned⟩, fun _ he => hsigned.rejected hprevout he⟩

/-! Signers for `Crypto.sample`: a signature is the message and the front of the key, padded. -/

def pad (n : Nat) (bytes : Bytes) : Bytes := (bytes ++ List.replicate n 0).take n

theorem length_pad (n : Nat) (bytes : Bytes) : (pad n bytes).length = n := by
  simp [pad]

theorem take_pad {n : Nat} {bytes : Bytes} (h : bytes.length ≤ n) :
    (pad n bytes).take bytes.length = bytes := by
  rw [pad, List.take_take, Nat.min_eq_left h, List.take_left']
  rfl

def sampleSigners : Signers where
  generateKeypair algorithm entropy :=
    let bytes := pad (expectedPubkeySize algorithm.scheme) entropy
    some ⟨bytes, ⟨algorithm, bytes⟩⟩
  sign secretKey message :=
    some (pad (signatureSize secretKey.algorithm.scheme) (message ++ secretKey.bytes.take 32))
  ecKeypair entropy := some ⟨entropy, pad 32 entropy⟩
  signSchnorr keypair message := message ++ keypair.xOnlyPublicKey

theorem sample_digests : Digests .sample where
  tapSighash _ := LittleEndian.length_encode 32 _
  p2mrLeafHash _ _ := length_pad 32 _

theorem signed_pad {scheme : SignatureScheme} {pubkey message : Bytes} (hmessage : message.length = 32)
    (hkey : pubkey.length = expectedPubkeySize scheme) :
    Signed .sample scheme pubkey message (pad (signatureSize scheme) (message ++ pubkey.take 32)) where
  pubkeySize := hkey
  signatureSize := length_pad _ _
  accepts := by
    have hlen : (message ++ pubkey.take 32).length = 64 := by
      cases scheme <;> simp [hmessage, hkey, expectedPubkeySize, slhDsaPublicKeySize, mlDsa44PublicKeySize]
    have htake := @take_pad (signatureSize scheme) (message ++ pubkey.take 32) (by
      rw [hlen]
      cases scheme <;> decide)
    rw [hlen] at htake
    cases scheme with
    | schnorr =>
        have hwhole : pubkey.take 32 = pubkey := List.take_of_length_le hkey.le
        have hall : pad 64 (message ++ pubkey.take 32) = message ++ pubkey.take 32 :=
          (List.take_of_length_le (length_pad 64 _).le).symm.trans htake
        rw [hwhole] at hall
        simp [SignatureScheme.accepts, Crypto.xonlyFromSlice, Crypto.sample, signatureSize,
          schnorrSignatureSize, hwhole, hall]
        exact hkey
    | mlDsa44 => simp [SignatureScheme.accepts, Crypto.sample, htake]
    | slhDsaSha2128s => simp [SignatureScheme.accepts, Crypto.sample, htake]

theorem sampleSigners_sound : sampleSigners.Sound .sample where
  sign algorithm entropy keypair message sig hkey hmessage hsig := by
    obtain rfl := Option.some.inj hkey
    obtain rfl := Option.some.inj hsig
    exact signed_pad hmessage (length_pad _ _)
  signSchnorr entropy keypair message hkey hmessage := by
    obtain rfl := Option.some.inj hkey
    have hlen : (pad 32 entropy).length = 32 := length_pad 32 entropy
    refine ⟨hlen, by simp [sampleSigners, hmessage, hlen, signatureSize, schnorrSignatureSize], ?_⟩
    simp [SignatureScheme.accepts, Crypto.xonlyFromSlice, Crypto.sample, sampleSigners, hlen]

/-! An ML-DSA output, its spend, and a clock that is slower than the budget of a validation. -/

def mldsaEntropy : Bytes := List.replicate 128 7

def mldsaLeaf : Script :=
  0x4d :: (LittleEndian.encode 2 1312 ++ (pad 1312 mldsaEntropy ++ [0xac]))

def mldsaRecord : P2mrAddressRecord where
  scheme := .mldsa
  entropy := mldsaEntropy
  leafScript := mldsaLeaf
  merkleRoot := Crypto.sample.p2mrLeafHash 0xc0 mldsaLeaf
  scriptPubkey := p2mrScriptPubkey (Crypto.sample.p2mrLeafHash 0xc0 mldsaLeaf)

def mldsaOutpoint : OutPoint := ⟨[1], 0⟩

def mldsaPrevout : TxOut := ⟨50, mldsaRecord.scriptPubkey⟩

def mldsaView : SpendView where
  availablePrevouts := AList.insert mldsaOutpoint mldsaPrevout ∅
  chainP2mrUtxos := some (AList.insert mldsaOutpoint mldsaPrevout ∅)
  spentP2mrInBlock := some ∅

theorem mldsaView_prevout : mldsaView.availablePrevouts.lookup mldsaOutpoint = some mldsaPrevout :=
  AList.lookup_insert _

theorem mldsa_output : mkOutput .sample sampleSigners mldsaRecord.scheme mldsaRecord.entropy =
    .ok (mldsaPrevout.scriptPubkey, mldsaLeaf) := by
  decide +kernel

def mldsaSpend : Except P2mrStoreError Transaction :=
  mldsaRecord.buildSpend .sample sampleSigners mldsaOutpoint mldsaPrevout [⟨40, [0x51]⟩] .all

theorem mldsaSpend_isOk : mldsaSpend.isOk = true := by decide +kernel

theorem mldsaSpend_accepted : ∃ tx sites signatures, mldsaSpend = .ok tx ∧
    SignedSpend .sample tx mldsaOutpoint mldsaPrevout .all mldsaLeaf sites signatures ∧
    ∀ e, validateTransactionSpends .sample (fun _ => 0) tx mldsaView (startTimer 1000) = .error e →
      e.Exhausted := by
  obtain ⟨tx, htx⟩ := isOk_iff.mp mldsaSpend_isOk
  obtain ⟨⟨sites, signatures, hsigned⟩, hrejected⟩ := @buildSpend_accepted _ _ mldsaRecord _ _ _ _ _ _
    sample_digests sampleSigners_sound mldsa_output htx (fun _ => 0) _ (startTimer 1000) mldsaView_prevout
  exact ⟨tx, sites, signatures, htx, hsigned, hrejected⟩

theorem mldsaSpend_late : Digests .sample ∧ sampleSigners.Sound .sample ∧
    mkOutput .sample sampleSigners mldsaRecord.scheme mldsaRecord.entropy =
      .ok (mldsaPrevout.scriptPubkey, mldsaLeaf) ∧
    mldsaView.availablePrevouts.lookup mldsaOutpoint = some mldsaPrevout ∧
    ∃ tx, mldsaSpend = .ok tx ∧
      validateTransactionSpends .sample (fun _ => 2000000) tx mldsaView (startTimer 1) =
        .error (.scheme .pqcVerifyBudgetExceeded) := by
  refine ⟨sample_digests, sampleSigners_sound, mldsa_output, mldsaView_prevout, ?_⟩
  obtain ⟨tx, htx⟩ := isOk_iff.mp mldsaSpend_isOk
  have hlate : mldsaSpend.toOption.map (fun tx => validateTransactionSpends .sample (fun _ => 2000000) tx
      mldsaView (startTimer 1)) = some (.error (.scheme .pqcVerifyBudgetExceeded)) := by
    decide +kernel
  rw [htx] at hlate
  exact ⟨tx, htx, Option.some.inj hlate⟩

end Bip360Enforcer.Wallet
