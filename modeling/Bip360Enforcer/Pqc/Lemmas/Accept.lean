import Bip360Enforcer.Pqc.Lemmas.Knowledge
import Bip360Enforcer.Pqc.Lemmas.Spend

/-!
# An authorised P2MR spend is accepted
-/

namespace Bip360Enforcer.Pqc

open Except (mapError_eq_ok_iff isOk_iff)

variable {C : Crypto} {clock : Clock} {ctx : TapscriptVerifyContext} {pubkey signature : Bytes}
  {timer : Timer}

/-! ## Signatures -/

theorem verifyPqc_accepted {algorithm : Algorithm} {sigBytes message : Bytes} {invalid : SchemeError}
    (h : (C.pqcSignatureValid algorithm sigBytes && C.pqcPublicKeyValid algorithm pubkey
      && C.pqcVerify algorithm pubkey message sigBytes) = true)
    (htime : (verifyPqc C clock algorithm sigBytes message pubkey invalid timer).Avoids
      SchemeError.Exhausted) :
    ∃ timer', verifyPqc C clock algorithm sigBytes message pubkey invalid timer = .ok timer' := by
  by_cases hlate : (timer.record clock).exhausted = true
  · refine absurd .verification (htime .pqcVerifyBudgetExceeded ?_)
    simp only [verifyPqc, hlate, if_true]
  · refine ⟨timer.record clock, ?_⟩
    simp only [verifyPqc, hlate, h, if_true]
    rfl

theorem classifySignature_schnorr (h : classifySignature signature = .ok .schnorr) :
    (stripSighashByte signature).length = schnorrSignatureSize := by
  by_contra hne
  simp only [classifySignature, if_neg hne] at h
  split at h
  · cases h
  · split at h
    · cases h
    · cases h

theorem verifySchnorr_accepted {message : Bytes}
    (hscheme : classifySignature signature = .ok .schnorr)
    (h : SignatureScheme.accepts C pubkey message (stripSighashByte signature) .schnorr = true) :
    verifySchnorr C signature message pubkey = .ok () := by
  obtain ⟨hkey, hverify⟩ := Bool.and_eq_true_iff.mp h
  unfold verifySchnorr
  rw [if_neg (not_not.mpr (classifySignature_schnorr hscheme)), hkey, hverify]
  rfl

theorem verifyOverloadedChecksig_accepted (h : SignatureAccepted C ctx pubkey signature)
    (htime : (verifyOverloadedChecksig C clock pubkey signature ctx timer).Avoids
      SchemeError.Exhausted) :
    ∃ timer', verifyOverloadedChecksig C clock pubkey signature ctx timer = .ok timer' := by
  obtain ⟨scheme, message, hscheme, hsize, hmessage, haccepts⟩ := h
  by_cases hlate : timer.exhausted = true
  · refine absurd .block (htime .blockVerifyBudgetExhausted ?_)
    rw [verifyOverloadedChecksig, if_pos hlate]
  · have hkey : validatePubkeyForScheme pubkey scheme = .ok () := if_pos hsize
    have hrun : verifyOverloadedChecksig C clock pubkey signature ctx timer =
        verifyTapscriptSignature C clock scheme signature pubkey ctx timer := by
      rw [verifyOverloadedChecksig, if_neg hlate, hscheme]
      change (validatePubkeyForScheme pubkey scheme >>= _) = _
      rw [hkey]
      rfl
    rw [hrun, verifyTapscriptSignature, hmessage] at htime ⊢
    cases scheme with
    | schnorr =>
        refine ⟨timer, ?_⟩
        change (verifySchnorr C signature message pubkey >>= _) = _
        rw [verifySchnorr_accepted hscheme haccepts]
        rfl
    | mlDsa44 => exact verifyPqc_accepted haccepts htime
    | slhDsaSha2128s => exact verifyPqc_accepted haccepts htime

/-- Within the time given, signatures pass just if the scheme of each accepts it. -/
theorem verifySites_isOk_iff {entries : List (SigCheckSite × Bytes)}
    (htime : (entries.foldlM (verifySite C clock ctx) timer).Avoids SpendError.Exhausted) :
    (entries.foldlM (verifySite C clock ctx) timer).isOk = true ↔
      ∀ entry ∈ entries, SignatureAccepted C ctx entry.1.pubkey entry.2 := by
  constructor
  · intro hok
    obtain ⟨timer', hok⟩ := isOk_iff.mp hok
    refine Except.foldlM_induction (motive := fun done _ => ∀ entry ∈ done,
      SignatureAccepted C ctx entry.1.pubkey entry.2) (by simp) ?_ hok
    intro done entry _ _ _ ih hstep e he
    rcases List.mem_append.mp he with he | he
    · exact ih e he
    · obtain rfl := List.mem_singleton.mp he
      exact verifyOverloadedChecksig_ok (mapError_eq_ok_iff.mp hstep)
  · intro hall
    induction entries generalizing timer with
    | nil => rfl
    | cons entry entries ih =>
        rw [List.foldlM_cons] at htime ⊢
        have haccepted := hall entry List.mem_cons_self
        have hstep : (verifyOverloadedChecksig C clock entry.1.pubkey entry.2 ctx timer).Avoids
            SchemeError.Exhausted := by
          intro e he hlate
          refine htime (.scheme e) ?_ (.scheme hlate)
          rw [verifySite, he]
          rfl
        obtain ⟨timer', hok⟩ := verifyOverloadedChecksig_accepted haccepted hstep
        have hsite : verifySite C clock ctx timer entry = .ok timer' := mapError_eq_ok_iff.mpr hok
        rw [hsite] at htime ⊢
        exact ih htime fun e he => hall e (List.mem_cons_of_mem _ he)

/-! ## Inputs -/

/-- All but the signatures of an input is in order: it spends the P2MR output `prevout`, and its
witness keeps the limits and reveals a leaf of that output with a signature for each site. -/
structure Reveals (C : Crypto) (tx : Transaction) (inputIndex : Nat) (input : TxIn) (prevout : TxOut)
    (signatures : List Bytes) (leafScript controlBlock : Bytes) (sites : List SigCheckSite) : Prop where
  hasInput : tx.input[inputIndex]? = some input
  p2mr : isP2mr prevout = true
  witness : input.witness = signatures ++ [leafScript, controlBlock]
  stackSize : input.witness.length ≤ maxP2mrWitnessStack
  leafSize : leafScript.length ≤ maxP2mrLeafScriptSize
  weight : (signatures.map fun sig => estimateSigWu sig.length).sum ≤ maxPqcSigWuPerInput
  parsed : parseLeafScript leafScript = .ok ⟨sites⟩
  count : signatures.length = sites.length
  root : recomputeMerkleRoot C leafScript controlBlock = .ok ((prevout.scriptPubkey.drop 2).take 32)

namespace Reveals

variable {tx : Transaction} {inputIndex : Nat} {input : TxIn} {prevout : TxOut}
  {signatures : List Bytes} {leafScript controlBlock : Bytes} {sites : List SigCheckSite}

/-- What the signatures of the input are verified over. -/
def context (C : Crypto) (tx : Transaction) (inputIndex : Nat) (leafScript : Bytes)
    (prevouts : Prevouts) : TapscriptVerifyContext :=
  ⟨tx, inputIndex, prevouts, C.tapLeafHash p2mrLeafVersion leafScript⟩

theorem signatures_ne (h : Reveals C tx inputIndex input prevout signatures leafScript controlBlock sites) :
    signatures ≠ [] := by
  rintro rfl
  exact (parseLeafScript_sites h.parsed).1 (List.length_eq_zero_iff.mp h.count.symm)

theorem validateP2mrOutput_eq (h : isP2mr prevout = true) :
    validateP2mrOutput prevout.scriptPubkey = .ok ((prevout.scriptPubkey.drop 2).take 32) := by
  have hscript : isP2mrScript prevout.scriptPubkey = true := h
  simp only [isP2mrScript, Bool.and_eq_true, decide_eq_true_eq] at hscript
  obtain ⟨⟨hlen, hfirst⟩, hsecond⟩ := hscript
  have hp : isP2mrScript prevout.scriptPubkey = true := h
  have hroot : ((prevout.scriptPubkey.drop 2).take 32).length = 32 := by simp [hlen]
  rw [validateP2mrOutput, hp, if_neg (by decide), if_neg (by simp only [hlen, hfirst, hsecond]; decide)]
  exact if_neg (not_not.mpr hroot)

/-- What is left of the validation is the verification of the signatures. -/
theorem validateP2mrInputSpend_eq
    (h : Reveals C tx inputIndex input prevout signatures leafScript controlBlock sites)
    (prevouts : Prevouts) (timer : Timer) :
    validateP2mrInputSpend C clock tx inputIndex prevout prevouts timer =
      (sites.zip signatures).foldlM (verifySite C clock (context C tx inputIndex leafScript prevouts))
        timer := by
  have hne : input.witness.isEmpty = false := by simp [h.witness]
  have hreverse : input.witness.reverse = controlBlock :: leafScript :: signatures.reverse := by
    simp [h.witness]
  have hlen : signatures.length ≠ 0 := fun hzero => h.signatures_ne (List.length_eq_zero_iff.mp hzero)
  have hparsed : validateWitnessSigCount leafScript signatures.length = .ok ⟨sites⟩ := by
    rw [validateWitnessSigCount, h.parsed, h.count]
    simp [bind, Except.bind]
  have hmerkle : verifyMerklePath C leafScript ((prevout.scriptPubkey.drop 2).take 32) controlBlock =
      .ok () := by
    rw [verifyMerklePath, h.root]
    simp [bind, Except.bind]
  have hversion : leafVersionFromConsensus p2mrLeafVersion = some p2mrLeafVersion := by decide
  simp only [validateP2mrInputSpend, h.hasInput, hne, hreverse, validateP2mrOutput_eq h.p2mr,
    List.reverse_reverse, if_neg (Nat.not_lt.mpr h.stackSize), if_neg (Nat.not_lt.mpr h.leafSize),
    if_neg hlen, if_neg (Nat.not_lt.mpr h.weight), hparsed, hversion, Except.mapError_ok, bind, Except.bind,
    hmerkle]
  rfl

end Reveals

end Bip360Enforcer.Pqc
