import Bip360Enforcer.Bitcoin.Encoding
import Bip360Enforcer.Tapscript.Lemmas.Witnesses
import Bip360Enforcer.Tapscript.Template

/-!
# The template hash and what it commits to
-/

namespace Bip360Enforcer.Tapscript

open LittleEndian (encode encode_inj length_encode)

variable {C : Crypto} {tx tx' : Transaction} {i i' : Nat}

/-! ## The parts -/

theorem version_inj {version version' : Int32}
    (h : encode 4 version.toUInt32.toNat = encode 4 version'.toUInt32.toNat) : version = version' :=
  congrArg Int32.ofUInt32
    (UInt32.toNat.inj (encode_inj version.toUInt32.toNat_lt version'.toUInt32.toNat_lt h))

theorem sequencesMessage_inj (hlen : tx.input.length = tx'.input.length)
    (h : sequencesMessage tx = sequencesMessage tx') :
    tx.input.map TxIn.sequence = tx'.input.map TxIn.sequence := by
  have hcode : SelfDelimiting (fun _ : UInt32 => True) fun sequence => encode 4 sequence.toNat :=
    .of_length 4 (fun _ _ => length_encode 4 _) fun a b _ _ h =>
      UInt32.toNat.inj (encode_inj a.toNat_lt b.toNat_lt h)
  refine hcode.flatMap_inj (by simpa using hlen) (fun _ _ => trivial) (fun _ _ => trivial) ?_
  rw [List.flatMap_map, List.flatMap_map]
  exact h

theorem scriptSigsMessage_inj (hlen : tx.input.length = tx'.input.length)
    (hbound : ∀ input ∈ tx.input, input.scriptSig.length < 2 ^ 64)
    (hbound' : ∀ input ∈ tx'.input, input.scriptSig.length < 2 ^ 64)
    (h : scriptSigsMessage tx = scriptSigsMessage tx') :
    tx.input.map TxIn.scriptSig = tx'.input.map TxIn.scriptSig := by
  refine serializeScript_selfDelimiting.flatMap_inj (by simpa using hlen) ?_ ?_ ?_
  · simpa using hbound
  · simpa using hbound'
  · rw [List.flatMap_map, List.flatMap_map]
    exact h

/-- Without a script signature, all of them are empty. -/
theorem scriptSigs_of_none (h : hasScriptSig tx = false) :
    tx.input.map TxIn.scriptSig = List.replicate tx.input.length [] := by
  apply List.eq_replicate_iff.mpr
  refine ⟨List.length_map .., fun script hscript => ?_⟩
  obtain ⟨input, hinput, rfl⟩ := List.mem_map.mp hscript
  have hempty := List.any_eq_false.mp h input hinput
  simpa using hempty

theorem hasScriptSig_congr (h : tx.input.map TxIn.scriptSig = tx'.input.map TxIn.scriptSig) :
    hasScriptSig tx = hasScriptSig tx' := by
  have hany : ∀ tx : Transaction, hasScriptSig tx = (tx.input.map TxIn.scriptSig).any (!·.isEmpty) := by
    intro tx
    rw [List.any_map]
    rfl
  rw [hany, hany, h]

/-! ## The preimage -/

/-- Transactions with the same template have the same preimage: nothing else of them is in it. -/
theorem SameTemplate.preimage_eq (h : SameTemplate tx i tx' i') :
    templatePreimage C tx i = templatePreimage C tx' i' := by
  have hscripts : ∀ tx : Transaction,
      scriptSigsMessage tx = (tx.input.map TxIn.scriptSig).flatMap serializeScript := by
    intro tx
    rw [List.flatMap_map]
    rfl
  have hsequences : ∀ tx : Transaction,
      sequencesMessage tx = (tx.input.map TxIn.sequence).flatMap fun sequence => encode 4 sequence.toNat := by
    intro tx
    rw [List.flatMap_map]
    rfl
  have houtputs : outputsMessage tx = outputsMessage tx' := congrArg (List.flatMap TxOut.serialize) h.outputs
  rw [templatePreimage, templatePreimage, hasScriptSig_congr h.scriptSigs, hscripts tx, hscripts tx',
    hsequences tx, hsequences tx', houtputs, h.version, h.lockTime, h.scriptSigs, h.numInputs, h.sequences,
    h.outputs, h.index]

/-- The fields of equal preimages; only the hash of the script signatures may be missing. -/
theorem templatePreimage_fields (hlen : ∀ message, (C.sha256 message).length = 32)
    (h : templatePreimage C tx i = templatePreimage C tx' i') :
    encode 4 tx.version.toUInt32.toNat = encode 4 tx'.version.toUInt32.toNat ∧
    encode 4 tx.lockTime.toNat = encode 4 tx'.lockTime.toNat ∧
    (if hasScriptSig tx then C.sha256 (scriptSigsMessage tx) else []) =
      (if hasScriptSig tx' then C.sha256 (scriptSigsMessage tx') else []) ∧
    encode 4 tx.input.length = encode 4 tx'.input.length ∧
    C.sha256 (sequencesMessage tx) = C.sha256 (sequencesMessage tx') ∧
    encode 4 tx.output.length = encode 4 tx'.output.length ∧
    C.sha256 (outputsMessage tx) = C.sha256 (outputsMessage tx') ∧
    encode 4 i = encode 4 i' := by
  obtain ⟨h, hindex⟩ := List.append_inj' h (by rw [length_encode, length_encode])
  obtain ⟨h, houtputs⟩ := List.append_inj' h (by rw [hlen, hlen])
  obtain ⟨h, hnumOutputs⟩ := List.append_inj' h (by rw [length_encode, length_encode])
  obtain ⟨h, hsequences⟩ := List.append_inj' h (by rw [hlen, hlen])
  obtain ⟨h, hnumInputs⟩ := List.append_inj' h (by rw [length_encode, length_encode])
  rw [List.append_assoc, List.append_assoc] at h
  obtain ⟨hversion, h⟩ := List.append_inj h (by rw [length_encode, length_encode])
  obtain ⟨hlockTime, hscripts⟩ := List.append_inj h (by rw [length_encode, length_encode])
  exact ⟨hversion, hlockTime, hscripts, hnumInputs, hsequences, hnumOutputs, houtputs, hindex⟩

/-- One preimage has the script signatures of one transaction, also where it does without their hash. -/
theorem scriptSigs_of_preimage (hlen : ∀ message, (C.sha256 message).length = 32)
    (hbound : TemplateBounds tx i) (hbound' : TemplateBounds tx' i')
    (hfree : ∀ m ∈ templateMessages C tx i, ∀ m' ∈ templateMessages C tx' i',
      C.sha256 m = C.sha256 m' → m = m')
    (hnum : tx.input.length = tx'.input.length)
    (h : (if hasScriptSig tx then C.sha256 (scriptSigsMessage tx) else []) =
      (if hasScriptSig tx' then C.sha256 (scriptSigsMessage tx') else [])) :
    tx.input.map TxIn.scriptSig = tx'.input.map TxIn.scriptSig := by
  have hne : ∀ message, C.sha256 message ≠ [] := by
    intro message hnil
    have := hlen message
    rw [hnil] at this
    cases this
  cases hsome : hasScriptSig tx with
  | true =>
      cases hsome' : hasScriptSig tx' with
      | true =>
          rw [hsome, hsome', if_pos rfl, if_pos rfl] at h
          have hmem : scriptSigsMessage tx ∈ templateMessages C tx i := by simp [templateMessages, hsome]
          have hmem' : scriptSigsMessage tx' ∈ templateMessages C tx' i' := by simp [templateMessages, hsome']
          exact scriptSigsMessage_inj hnum hbound.scriptSigs hbound'.scriptSigs (hfree _ hmem _ hmem' h)
      | false =>
          rw [hsome, hsome'] at h
          exact absurd h (hne _)
  | false =>
      cases hsome' : hasScriptSig tx' with
      | true =>
          rw [hsome, hsome'] at h
          exact absurd h.symm (hne _)
      | false => rw [scriptSigs_of_none hsome, scriptSigs_of_none hsome', hnum]

theorem sameTemplate_of_preimage (hlen : ∀ message, (C.sha256 message).length = 32)
    (hbound : TemplateBounds tx i) (hbound' : TemplateBounds tx' i')
    (hfree : ∀ m ∈ templateMessages C tx i, ∀ m' ∈ templateMessages C tx' i',
      C.sha256 m = C.sha256 m' → m = m')
    (h : templatePreimage C tx i = templatePreimage C tx' i') : SameTemplate tx i tx' i' := by
  obtain ⟨hversion, hlockTime, hscripts, hnumInputs, hsequences, hnumOutputs, houtputs, hindex⟩ :=
    templatePreimage_fields hlen h
  have hnumInputs : tx.input.length = tx'.input.length := encode_inj hbound.inputs hbound'.inputs hnumInputs
  have hnumOutputs : tx.output.length = tx'.output.length :=
    encode_inj hbound.outputs hbound'.outputs hnumOutputs
  have hmem : ∀ (tx : Transaction) (i : Nat), sequencesMessage tx ∈ templateMessages C tx i ∧
      outputsMessage tx ∈ templateMessages C tx i := by
    intro tx i
    simp [templateMessages]
  have hsequences := hfree _ (hmem tx i).1 _ (hmem tx' i').1 hsequences
  have houtputs := hfree _ (hmem tx i).2 _ (hmem tx' i').2 houtputs
  exact {
    version := version_inj hversion
    lockTime := UInt32.toNat.inj (encode_inj tx.lockTime.toNat_lt tx'.lockTime.toNat_lt hlockTime)
    scriptSigs := scriptSigs_of_preimage hlen hbound hbound' hfree hnumInputs hscripts
    numInputs := hnumInputs
    sequences := sequencesMessage_inj hnumInputs hsequences
    outputs := TxOut.serialize_selfDelimiting.flatMap_inj hnumOutputs hbound.scriptPubkeys
      hbound'.scriptPubkeys houtputs
    index := encode_inj hbound.index hbound'.index hindex }

/-! ## The hash -/

/-- With no two of the hashed messages colliding, equal hashes, equal preimages and equal templates are
the same. -/
theorem defaultCheckTemplateVerifyHash_eq_iff (hlen : ∀ message, (C.sha256 message).length = 32)
    (hbound : TemplateBounds tx i) (hbound' : TemplateBounds tx' i')
    (hfree : ∀ m ∈ templateMessages C tx i, ∀ m' ∈ templateMessages C tx' i',
      C.sha256 m = C.sha256 m' → m = m') :
    (defaultCheckTemplateVerifyHash C tx i = defaultCheckTemplateVerifyHash C tx' i' ↔
      SameTemplate tx i tx' i') ∧
    (templatePreimage C tx i = templatePreimage C tx' i' ↔ SameTemplate tx i tx' i') := by
  have hmem : ∀ (tx : Transaction) (i : Nat), templatePreimage C tx i ∈ templateMessages C tx i := by
    intro tx i
    simp [templateMessages]
  refine ⟨⟨fun h => ?_, fun h => congrArg C.sha256 h.preimage_eq⟩,
    ⟨sameTemplate_of_preimage hlen hbound hbound' hfree, SameTemplate.preimage_eq⟩⟩
  exact sameTemplate_of_preimage hlen hbound hbound' hfree (hfree _ (hmem tx i) _ (hmem tx' i') h)

/-! A transaction with a script signature and one without. -/

def unsignedTemplate : Transaction where
  version := 2
  lockTime := 0
  input := [⟨⟨[1], 0⟩, [], 0xffffffff, [[1]]⟩]
  output := [⟨1000, [0x51]⟩]

def signedTemplate : Transaction :=
  { unsignedTemplate with input := [⟨⟨[2], 0⟩, [0x51], 0xffffffff, []⟩] }

theorem unsignedTemplate_ne_signedTemplate :
    defaultCheckTemplateVerifyHash .sample unsignedTemplate 0 ≠
      defaultCheckTemplateVerifyHash .sample signedTemplate 0 ∧
    defaultCheckTemplateVerifyHash .sample unsignedTemplate 0 =
      defaultCheckTemplateVerifyHash .sample unsignedTemplate.stripped 0 := by
  have hlen : ∀ message, (Crypto.sample.sha256 message).length = 32 := by
    intro message
    show ((message ++ List.replicate 32 0).take 32).length = 32
    rw [List.length_take, List.length_append, List.length_replicate]
    omega
  have hbound : TemplateBounds unsignedTemplate 0 :=
    ⟨by decide, by decide, by decide, by decide, by decide⟩
  have hbound' : TemplateBounds signedTemplate 0 :=
    ⟨by decide, by decide, by decide, by decide, by decide⟩
  have hbound'' : TemplateBounds unsignedTemplate.stripped 0 :=
    ⟨by decide, by decide, by decide, by decide, by decide⟩
  obtain ⟨hsigned, -⟩ := defaultCheckTemplateVerifyHash_eq_iff hlen hbound hbound' (by decide)
  obtain ⟨hstripped, -⟩ := defaultCheckTemplateVerifyHash_eq_iff hlen hbound hbound'' (by decide)
  refine ⟨fun h => ?_, hstripped.mpr ⟨rfl, rfl, rfl, rfl, rfl, rfl, rfl⟩⟩
  cases (hsigned.mp h).scriptSigs

end Bip360Enforcer.Tapscript
