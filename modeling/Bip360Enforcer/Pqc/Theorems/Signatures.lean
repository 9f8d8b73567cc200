import Bip360Enforcer.Pqc.Lemmas.Accept

/-!
# Signatures with hash types of their own
-/

namespace Bip360Enforcer.Pqc

open Reveals (context)

variable {C : Crypto} {clock : Clock} {tx : Transaction} {inputIndex : Nat} {input : TxIn}
  {prevout : TxOut} {txouts : List TxOut} {leafScript : Bytes}

/-- The hash type commits to the outputs of the other inputs too, unless it says otherwise. -/
abbrev anyoneCanPay (signature : Bytes) : Bool := (parseSighashType signature).anyoneCanPay

/-! ## The input's own output, or those of all inputs -/

/-- Of the hash types, the input's own output is enough for ANYONECANPAY only. -/
theorem scriptSpendSighash_one (hprevout : txouts[inputIndex]? = some prevout)
    (hlen : txouts.length = tx.input.length) (sighashType : TapSighashType) :
    scriptSpendSighash C (context C tx inputIndex leafScript (.one inputIndex prevout)) sighashType =
      if sighashType.anyoneCanPay then
        scriptSpendSighash C (context C tx inputIndex leafScript (.all txouts)) sighashType
      else .error .prevoutsKind := by
  have hone : (Prevouts.one inputIndex prevout).get inputIndex = .ok prevout := if_pos rfl
  have hget : (Prevouts.all txouts).get inputIndex = .ok prevout := by simp [Prevouts.get, hprevout]
  have hcheck : (Prevouts.all txouts).checkAll tx = .ok () := if_pos hlen
  split
  · rename_i hacp
    simp only [scriptSpendSighash, Crypto.taprootSignatureHash, taprootSigMsg, context, hcheck,
      committedInputs, signedInput, hacp, if_true, hone, hget]
    rfl
  · rename_i hacp
    simp only [scriptSpendSighash, Crypto.taprootSignatureHash, taprootSigMsg, context,
      committedInputs, hacp]
    rfl

theorem signatureAccepted_one_iff (hprevout : txouts[inputIndex]? = some prevout)
    (hlen : txouts.length = tx.input.length) {pubkey signature : Bytes} :
    SignatureAccepted C (context C tx inputIndex leafScript (.one inputIndex prevout)) pubkey
        signature ↔
      anyoneCanPay signature = true ∧
        SignatureAccepted C (context C tx inputIndex leafScript (.all txouts)) pubkey signature := by
  constructor
  · rintro ⟨scheme, message, hscheme, hsize, hmessage, haccepts⟩
    rw [scriptSpendSighash_one hprevout hlen] at hmessage
    split at hmessage
    · rename_i hacp
      exact ⟨hacp, scheme, message, hscheme, hsize, hmessage, haccepts⟩
    · cases hmessage
  · rintro ⟨hacp, scheme, message, hscheme, hsize, hmessage, haccepts⟩
    refine ⟨scheme, message, hscheme, hsize, ?_, haccepts⟩
    rw [scriptSpendSighash_one hprevout hlen, if_pos hacp]
    exact hmessage

/-! ## Inputs -/

/-- Every signature is valid for the key of its site, over the message of its own hash type. -/
def OwnTypes (C : Crypto) (tx : Transaction) (inputIndex : Nat) (leafScript : Bytes)
    (txouts : List TxOut) (sites : List SigCheckSite) (signatures : List Bytes) : Prop :=
  ∀ entry ∈ sites.zip signatures,
    SignatureAccepted C (context C tx inputIndex leafScript (.all txouts)) entry.1.pubkey entry.2

/-- The first signature commits to its own output alone, a later one to those of all inputs. -/
def MixedTypes : List Bytes → Prop
  | [] => False
  | first :: rest => anyoneCanPay first = true ∧ ∃ sig ∈ rest, anyoneCanPay sig = false

theorem mixedTypes_iff {first : Bytes} {rest : List Bytes} (hfirst : anyoneCanPay first = true) :
    MixedTypes (first :: rest) ↔ ¬ ∀ sig ∈ first :: rest, anyoneCanPay sig = true := by
  simp [MixedTypes, hfirst]

/-- From the input's own output, only signatures with ANYONECANPAY are accepted. -/
theorem accepted_one_iff (hprevout : txouts[inputIndex]? = some prevout)
    (hlen : txouts.length = tx.input.length) {sites : List SigCheckSite} {signatures : List Bytes}
    (hcount : signatures.length = sites.length) :
    (∀ entry ∈ sites.zip signatures, SignatureAccepted C
        (context C tx inputIndex leafScript (.one inputIndex prevout)) entry.1.pubkey entry.2) ↔
      (∀ sig ∈ signatures, anyoneCanPay sig = true) ∧
        OwnTypes C tx inputIndex leafScript txouts sites signatures := by
  simp only [signatureAccepted_one_iff hprevout hlen]
  constructor
  · intro hall
    refine ⟨fun sig hsig => ?_, fun entry hentry => (hall entry hentry).2⟩
    have hmem : sig ∈ (sites.zip signatures).map Prod.snd := by
      rw [List.map_snd_zip hcount.le]
      exact hsig
    obtain ⟨entry, hentry, rfl⟩ := List.mem_map.mp hmem
    exact (hall entry hentry).1
  · rintro ⟨hacp, hall⟩ entry hentry
    exact ⟨hacp entry.2 (List.of_mem_zip hentry).2, hall entry hentry⟩

/-- The outputs that a signature hash may be computed from are chosen by the first signature. -/
theorem prevoutsForP2mrInput_first {available : PrevoutMap}
    (hinput : tx.input[inputIndex]? = some input)
    (hprevout : available.lookup input.previousOutput = some prevout)
    (hall : allPrevouts tx available = some txouts) (signature : Bytes) :
    txouts.length = tx.input.length ∧ txouts[inputIndex]? = some prevout ∧
    prevoutsForP2mrInput tx inputIndex prevout available (parseSighashType signature) =
      some (if anyoneCanPay signature then .one inputIndex prevout else .all txouts) := by
  obtain ⟨hlen, hget⟩ := mapM_option_getElem hall
  have hown : txouts[inputIndex]? = some prevout := (hget inputIndex input hinput).trans hprevout
  refine ⟨hlen, hown, ?_⟩
  unfold prevoutsForP2mrInput
  split_ifs with hacp hone
  · rfl
  · obtain ⟨txout, rfl⟩ := List.length_eq_one_iff.mp (hlen.trans hone)
    have hlt : inputIndex < tx.input.length := (List.getElem?_eq_some_iff.mp hinput).1
    obtain rfl : inputIndex = 0 := by omega
    obtain rfl : txout = prevout := by simpa using hown
    rfl
  · rw [hall]
    rfl

/-- With all outputs known and within the time given, an input passes just if all of its signatures are
valid, and not a first one with ANYONECANPAY is followed by one without. -/
theorem validateInput_isOk_iff {view : SpendView} {timer : Timer} {signatures : List Bytes}
    {controlBlock : Bytes} {sites : List SigCheckSite}
    (h : Reveals C tx inputIndex input prevout signatures leafScript controlBlock sites)
    (hprevout : view.availablePrevouts.lookup input.previousOutput = some prevout)
    (hall : allPrevouts tx view.availablePrevouts = some txouts)
    (htime : (validateInput C clock tx view timer (input, inputIndex)).Avoids SpendError.Exhausted) :
    (validateInput C clock tx view timer (input, inputIndex)).isOk = true ↔
      ¬ MixedTypes signatures ∧ OwnTypes C tx inputIndex leafScript txouts sites signatures := by
  obtain ⟨first, rest, rfl⟩ := List.exists_cons_of_ne_nil h.signatures_ne
  obtain ⟨hlen, hown, hchosen⟩ := prevoutsForP2mrInput_first h.hasInput hprevout hall first
  have hrun : validateInput C clock tx view timer (input, inputIndex) =
      (sites.zip (first :: rest)).foldlM (verifySite C clock (context C tx inputIndex leafScript
        (if anyoneCanPay first then .one inputIndex prevout else .all txouts))) timer := by
    simp only [validateInput, hprevout, h.p2mr, h.witness, List.cons_append, List.head?_cons,
      Option.getD_some, hchosen, List.isEmpty_cons]
    exact h.validateP2mrInputSpend_eq _ timer
  rw [hrun] at htime ⊢
  rw [verifySites_isOk_iff htime]
  cases hacp : anyoneCanPay first with
  | false =>
      have hunmixed : ¬ MixedTypes (first :: rest) := fun hmixed => by
        rw [hmixed.1] at hacp
        cases hacp
      exact (and_iff_right hunmixed).symm
  | true =>
      simp only [if_true]
      rw [accepted_one_iff hown hlen h.count, mixedTypes_iff hacp, not_not]

/-- With all outputs known and within the time given, the signatures of an input are judged each by its
own hash type, unless the first is ANYONECANPAY and a later one is not. -/
theorem validateInput_ownTypes_iff {view : SpendView} {timer : Timer} {signatures : List Bytes}
    {controlBlock : Bytes} {sites : List SigCheckSite}
    (h : Reveals C tx inputIndex input prevout signatures leafScript controlBlock sites)
    (hprevout : view.availablePrevouts.lookup input.previousOutput = some prevout)
    (hall : allPrevouts tx view.availablePrevouts = some txouts)
    (htime : (validateInput C clock tx view timer (input, inputIndex)).Avoids SpendError.Exhausted) :
    ((validateInput C clock tx view timer (input, inputIndex)).isOk = true ↔
        OwnTypes C tx inputIndex leafScript txouts sites signatures) ↔
      ¬ (MixedTypes signatures ∧ OwnTypes C tx inputIndex leafScript txouts sites signatures) := by
  rw [validateInput_isOk_iff h hprevout hall htime]
  constructor
  · rintro hiff ⟨hmixed, hown⟩
    exact (hiff.mpr hown).1 hmixed
  · intro hnot
    exact ⟨fun hboth => hboth.2, fun hown => ⟨fun hmixed => hnot ⟨hmixed, hown⟩, hown⟩⟩

/-! A leaf with two keys; one signature commits to the outputs of all inputs, the other does not. -/

def jointKey : Bytes := List.replicate 32 7

/-- `<key> OP_CHECKSIG <key> OP_CHECKSIGADD`. -/
def jointLeaf : Script := 0x20 :: jointKey ++ 0xac :: 0x20 :: jointKey ++ [0xba]

def jointSites : List SigCheckSite := [⟨jointKey, .checksig⟩, ⟨jointKey, .checksigadd⟩]

def jointSpk : Script := 0x52 :: 0x20 :: Crypto.sample.p2mrLeafHash 0xc0 jointLeaf

/-- What `Crypto.sample` accepts from the key, with the default hash type. -/
def wholeSignature : Bytes := LittleEndian.encode 32 1 ++ jointKey

def ownSignature : Bytes := wholeSignature ++ [0x81]

def jointInput (signatures : List Bytes) : TxIn where
  previousOutput := ⟨[1], 0⟩
  scriptSig := []
  sequence := 0
  witness := signatures ++ [jointLeaf, [0xc1]]

def jointTx (signatures : List Bytes) : Transaction where
  version := 2
  lockTime := 0
  input := [jointInput signatures, ⟨⟨[2], 0⟩, [], 0, []⟩]
  output := [⟨55, []⟩]

def jointTxouts : List TxOut := [⟨50, jointSpk⟩, ⟨10, []⟩]

def jointView : SpendView where
  availablePrevouts := AList.insert ⟨[1], 0⟩ ⟨50, jointSpk⟩ (AList.insert ⟨[2], 0⟩ ⟨10, []⟩ ∅)
  chainP2mrUtxos := none
  spentP2mrInBlock := none

def judgeJoint (signatures : List Bytes) : Except SpendError Timer :=
  validateInput .sample (fun _ => 0) (jointTx signatures) jointView ⟨none, 0⟩ (jointInput signatures, 0)

theorem joint_reveals {signatures : List Bytes} (hlen : signatures.length = 2)
    (hweight : (signatures.map fun sig => estimateSigWu sig.length).sum ≤ maxPqcSigWuPerInput) :
    Reveals .sample (jointTx signatures) 0 (jointInput signatures) ⟨50, jointSpk⟩ signatures jointLeaf
      [0xc1] jointSites where
  hasInput := rfl
  p2mr := by decide
  witness := rfl
  stackSize := by simp [jointInput, hlen, maxP2mrWitnessStack]
  leafSize := by decide
  weight := hweight
  parsed := by decide
  count := hlen
  root := by decide

theorem wholeFirst_judged :
    ¬ MixedTypes [wholeSignature, ownSignature] ∧
    (judgeJoint [wholeSignature, ownSignature]).isOk = true ∧
    OwnTypes .sample (jointTx [wholeSignature, ownSignature]) 0 jointLeaf jointTxouts jointSites
      [wholeSignature, ownSignature] := by
  have hunmixed : ¬ MixedTypes [wholeSignature, ownSignature] := fun hmixed => by
    have hfirst : anyoneCanPay wholeSignature = false := by decide
    rw [hmixed.1] at hfirst
    cases hfirst
  have hok : (judgeJoint [wholeSignature, ownSignature]).isOk = true := by decide
  have htime : (judgeJoint [wholeSignature, ownSignature]).Avoids SpendError.Exhausted := by
    intro e he
    rw [he] at hok
    cases hok
  have hiff := (validateInput_ownTypes_iff (joint_reveals rfl (by decide)) (by decide)
    (show allPrevouts (jointTx [wholeSignature, ownSignature]) jointView.availablePrevouts =
      some jointTxouts by decide) htime).mpr fun hboth => hunmixed hboth.1
  exact ⟨hunmixed, hok, hiff.mp hok⟩

theorem ownFirst_rejected :
    Reveals .sample (jointTx [ownSignature, wholeSignature]) 0 (jointInput [ownSignature, wholeSignature])
      ⟨50, jointSpk⟩ [ownSignature, wholeSignature] jointLeaf [0xc1] jointSites ∧
    allPrevouts (jointTx [ownSignature, wholeSignature]) jointView.availablePrevouts = some jointTxouts ∧
    (judgeJoint [ownSignature, wholeSignature]).isOk = false ∧
    OwnTypes .sample (jointTx [ownSignature, wholeSignature]) 0 jointLeaf jointTxouts jointSites
      [ownSignature, wholeSignature] := by
  refine ⟨joint_reveals rfl (by decide), by decide, by decide, ?_⟩
  rintro entry (- | ⟨_, - | ⟨_, hentry⟩⟩)
  · exact ⟨.schnorr, LittleEndian.encode 32 1, by decide⟩
  · exact ⟨.schnorr, LittleEndian.encode 32 1, by decide⟩
  · cases hentry

end Bip360Enforcer.Pqc
