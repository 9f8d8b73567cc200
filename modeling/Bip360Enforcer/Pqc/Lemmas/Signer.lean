import Bip360Enforcer.Pqc.Signer
import Bip360Enforcer.Pqc.Theorems.Signatures
import Bip360Enforcer.Tapscript.Lemmas.Pushes

/-!
# What the signer builds
-/

namespace Bip360Enforcer.Pqc

open Except (bind_eq_ok_iff mapError_eq_ok_iff elim_eq_ok_iff)
open Tapscript (instructions_of_next nextInstruction_opcode nextInstruction_write)
open Reveals (context)

/-! ## The external crates -/

/-- The digests that the types of the source fix at 32 bytes. -/
structure Digests (C : Crypto) : Prop where
  tapSighash : ∀ msg, (C.tapSighash msg).length = 32
  p2mrLeafHash : ∀ version script, (C.p2mrLeafHash version script).length = 32

def signatureSize : SignatureScheme → Nat
  | .schnorr => schnorrSignatureSize
  | .mlDsa44 => mlDsa44SignatureSize
  | .slhDsaSha2128s => slhDsa128sSignatureSize

def KeyAlgorithm.scheme : KeyAlgorithm → SignatureScheme
  | secp256k1Schnorr => .schnorr
  | mlDsa44 => .mlDsa44
  | slhDsaSha2128s => .slhDsaSha2128s

/-- A signature of a 32-byte message that a scheme accepts, with the sizes of the scheme. -/
structure Signed (C : Crypto) (scheme : SignatureScheme) (pubkey message sig : Bytes) : Prop where
  pubkeySize : pubkey.length = expectedPubkeySize scheme
  signatureSize : sig.length = signatureSize scheme
  accepts : scheme.accepts C pubkey message sig = true

/-- Each scheme verifies what it signs. -/
structure Signers.Sound (S : Signers) (C : Crypto) : Prop where
  sign : ∀ algorithm entropy keypair message sig,
    S.generateKeypair algorithm entropy = some keypair → message.length = 32 →
      S.sign keypair.secretKey message = some sig →
        Signed C algorithm.scheme keypair.publicKey message sig
  signSchnorr : ∀ entropy keypair message, S.ecKeypair entropy = some keypair → message.length = 32 →
    Signed C .schnorr keypair.xOnlyPublicKey message (S.signSchnorr keypair message)

variable {C : Crypto} {S : Signers} {pubkey sig message : Bytes} {leafScript : Script}
  {sighashType : TapSighashType} {scheme : SignatureScheme}

/-! ## The sighash byte -/

theorem isCanonicalSize_signatureSize : isCanonicalSize (signatureSize scheme) = true := by
  cases scheme <;> rfl

theorem isCanonicalSize_pred : isCanonicalSize (signatureSize scheme - 1) = false := by
  cases scheme <;> rfl

theorem fromConsensusU8_toU8 : TapSighashType.fromConsensusU8 sighashType.toU8 = some sighashType := by
  cases sighashType <;> rfl

/-- A type other than the default is read back from its byte, which is the one that is removed. -/
theorem appendSighash_spec (h : sig.length = signatureSize scheme) :
    parseSighashType (appendSighash sig sighashType) = sighashType ∧
    stripSighashByte (appendSighash sig sighashType) = sig := by
  by_cases htype : sighashType = .default
  · subst htype
    have hcanonical : isCanonicalSize (sig.length - 1) = false := h ▸ isCanonicalSize_pred
    rw [appendSighash, if_neg (not_not.mpr rfl)]
    simp only [parseSighashType, stripSighashByte, hcanonical]
    constructor
    · cases sig.getLast? <;> simp
    · cases sig.getLast? <;> simp
  · have hcanonical : isCanonicalSize sig.length = true := h ▸ isCanonicalSize_signatureSize
    have hpos : 0 < sig.length := by
      rw [h]
      cases scheme <;> decide
    have hlen : ¬ sig.length + 1 ≤ 1 := by omega
    rw [appendSighash, if_pos htype]
    simp [parseSighashType, stripSighashByte, fromConsensusU8_toU8, hcanonical, hlen]

theorem classifySignature_appendSighash (h : sig.length = signatureSize scheme) :
    classifySignature (appendSighash sig sighashType) = .ok scheme := by
  rw [classifySignature, (appendSighash_spec h).2, h]
  cases scheme <;> rfl

/-! ## Leaves -/

theorem instructions_writeChecksig {form : PushForm} {rest : Bytes}
    (h : pubkey.length ≤ form.maxLength) : instructions (form.write pubkey ++ (0xac :: rest)) =
      some (.pushBytes pubkey) :: some (.op .checksig) :: instructions rest := by
  rw [instructions_of_next (nextInstruction_write h)]
  exact congrArg _ (instructions_of_next (nextInstruction_opcode (by decide)))

theorem instructions_push32Checksig {rest : Bytes} (h : pubkey.length = 32) :
    instructions (push32Checksig pubkey ++ rest) =
      some (.pushBytes pubkey) :: some (.op .checksig) :: instructions rest := by
  have hread := @instructions_writeChecksig pubkey .direct rest (h.trans_le (by decide))
  rw [PushForm.write, h] at hread
  rw [push32Checksig, List.cons_append, List.append_assoc]
  exact hread

theorem instructions_push1312Checksig (h : pubkey.length = mlDsa44PublicKeySize) :
    instructions (0x4d :: (LittleEndian.encode 2 pubkey.length ++ (pubkey ++ [0xac]))) =
      [some (.pushBytes pubkey), some (.op .checksig)] := by
  have hread := @instructions_writeChecksig pubkey .pushdata2 [] (h.trans_le (by decide))
  rw [PushForm.write, List.cons_append, List.append_assoc] at hread
  exact hread

theorem foldlM_parse_checksig {st : ParserState} {items : List Item}
    (h : validatePubkeySize pubkey = .ok ()) (hne : pubkey ≠ []) :
    (some (.pushBytes pubkey) :: some (.op .checksig) :: items).foldlM parseItem st =
      items.foldlM parseItem ⟨st.sigSites ++ [⟨pubkey, .checksig⟩], none, [], none⟩ := by
  have hpush : parseItem st (some (.pushBytes pubkey)) =
      .ok { st with pushBuffer := st.pushBuffer ++ [pubkey], lastPush := some pubkey } := by
    simp [parseItem, parsePush, hne]
  rw [List.foldlM_cons, hpush]
  change (parseItem _ _ >>= _) = _
  have hcheck : parseItem { st with pushBuffer := st.pushBuffer ++ [pubkey], lastPush := some pubkey }
      (some (.op .checksig)) = .ok ⟨st.sigSites ++ [⟨pubkey, .checksig⟩], none, [], none⟩ := by
    simp [parseItem, parseSigCheck, isSigCheckOpcode, sigCheckOpcodes, pushSingleSigSite, h, bind,
      Except.bind]
  rw [hcheck]
  rfl

theorem parseLeafScript_of_fold {script : Script} {st : ParserState} (hne : script ≠ [])
    (hlen : script.length ≤ maxP2mrLeafScriptSize)
    (hfold : (instructions script).foldlM parseItem .initial = .ok st)
    (hpending : st.pendingMultisigKeys = none) (hsites : st.sigSites ≠ []) :
    parseLeafScript script = .ok ⟨st.sigSites⟩ := by
  have hempty : script.isEmpty = false := by simpa using hne
  rw [parseLeafScript, hempty, if_neg (by decide), if_neg (Nat.not_lt.mpr hlen), hfold]
  simp [hpending, hsites, bind, Except.bind]

theorem ne_nil_of_size (h : pubkey.length = expectedPubkeySize scheme) : pubkey ≠ [] := by
  rintro rfl
  cases scheme <;> cases h

theorem validatePubkeySize_expected (h : pubkey.length = expectedPubkeySize scheme) :
    validatePubkeySize pubkey = .ok () := by
  cases scheme with
  | schnorr => exact if_pos (.inl h)
  | mlDsa44 => exact if_pos (.inr h)
  | slhDsaSha2128s => exact if_pos (.inl h)

theorem parse_buildChecksigLeaf (hsize : pubkey.length = expectedPubkeySize scheme)
    (h : buildChecksigLeaf pubkey = .ok leafScript) :
    leafScript.length ≤ maxP2mrLeafScriptSize ∧
    parseLeafScript leafScript = .ok ⟨[⟨pubkey, .checksig⟩]⟩ := by
  suffices hleaf : leafScript ≠ [] ∧ leafScript.length ≤ maxP2mrLeafScriptSize ∧
      instructions leafScript = [some (.pushBytes pubkey), some (.op .checksig)] by
    obtain ⟨hne, hlen, hitems⟩ := hleaf
    have hfold := @foldlM_parse_checksig pubkey .initial [] (validatePubkeySize_expected hsize)
      (ne_nil_of_size hsize)
    rw [← hitems] at hfold
    exact ⟨hlen, parseLeafScript_of_fold hne hlen hfold rfl (List.cons_ne_nil _ _)⟩
  unfold buildChecksigLeaf at h
  split at h
  · rename_i h1312
    obtain rfl := Except.ok.inj h
    refine ⟨List.cons_ne_nil _ _, ?_, instructions_push1312Checksig h1312⟩
    simp [h1312, mlDsa44PublicKeySize, maxP2mrLeafScriptSize]
  · split at h
    · rename_i h32
      obtain rfl := Except.ok.inj h
      refine ⟨List.cons_ne_nil _ _, ?_, ?_⟩
      · simp [push32Checksig, h32, maxP2mrLeafScriptSize]
      · simpa using @instructions_push32Checksig pubkey [] h32
    · cases h

theorem parse_buildHybridEcSlhLeaf {ecPk slhPk : Bytes} (hec : ecPk.length = 32)
    (hslh : slhPk.length = 32) :
    (buildHybridEcSlhLeaf ecPk slhPk).length ≤ maxP2mrLeafScriptSize ∧
    parseLeafScript (buildHybridEcSlhLeaf ecPk slhPk) =
      .ok ⟨[⟨ecPk, .checksig⟩, ⟨slhPk, .checksig⟩]⟩ := by
  have hlen : (buildHybridEcSlhLeaf ecPk slhPk).length ≤ maxP2mrLeafScriptSize := by
    simp [buildHybridEcSlhLeaf, push32Checksig, hec, hslh, maxP2mrLeafScriptSize]
  have hecKey : ecPk.length = expectedPubkeySize .schnorr := hec
  have hslhKey : slhPk.length = expectedPubkeySize .slhDsaSha2128s := hslh
  have hfold : (instructions (buildHybridEcSlhLeaf ecPk slhPk)).foldlM parseItem .initial =
      .ok ⟨[⟨ecPk, .checksig⟩, ⟨slhPk, .checksig⟩], none, [], none⟩ := by
    rw [buildHybridEcSlhLeaf, instructions_push32Checksig hec, instructions_push32Checksig hslh,
      foldlM_parse_checksig (validatePubkeySize_expected hecKey) (ne_nil_of_size hecKey),
      foldlM_parse_checksig (validatePubkeySize_expected hslhKey) (ne_nil_of_size hslhKey)]
    rfl
  exact ⟨hlen, parseLeafScript_of_fold (List.cons_ne_nil _ _) hlen hfold rfl (List.cons_ne_nil _ _)⟩

/-! ## Signatures -/

variable {prevout : TxOut} {outpoint : OutPoint} {outputs : List TxOut}

/-- The sighash does not cover the witness. -/
theorem p2mrSpendSighash_witness {witness : List Bytes}
    (h : p2mrSpendSighash C (p2mrSpendTx outpoint outputs []) prevout leafScript sighashType =
      .ok message) :
    scriptSpendSighash C (context C (p2mrSpendTx outpoint outputs witness) 0 leafScript
      (.all [prevout])) sighashType = .ok message :=
  mapError_eq_ok_iff.mp h

theorem length_sighash (hC : Digests C) {tx : Transaction}
    (h : p2mrSpendSighash C tx prevout leafScript sighashType = .ok message) : message.length = 32 := by
  obtain ⟨msg, -, rfl⟩ := Except.map_eq_ok_iff.mp (mapError_eq_ok_iff.mp h)
  exact hC.tapSighash msg

theorem signatureAccepted_appendSighash {witness : List Bytes} (hsigned : Signed C scheme pubkey message sig)
    (h : p2mrSpendSighash C (p2mrSpendTx outpoint outputs []) prevout leafScript sighashType =
      .ok message) :
    SignatureAccepted C (context C (p2mrSpendTx outpoint outputs witness) 0 leafScript (.all [prevout]))
      pubkey (appendSighash sig sighashType) := by
  obtain ⟨hparse, hstrip⟩ := @appendSighash_spec sig sighashType scheme hsigned.signatureSize
  refine ⟨scheme, message, classifySignature_appendSighash hsigned.signatureSize, hsigned.pubkeySize, ?_, ?_⟩
  · rw [hparse]
    exact p2mrSpendSighash_witness h
  · rw [hstrip]
    exact hsigned.accepts

theorem length_appendSighash_le : (appendSighash sig sighashType).length ≤ sig.length + 1 := by
  unfold appendSighash
  split <;> simp

/-! ## Spends -/

/-- A spend of `prevout` that reveals its only leaf, with a signature of the given type for each site. -/
structure SignedSpend (C : Crypto) (tx : Transaction) (outpoint : OutPoint) (prevout : TxOut)
    (sighashType : TapSighashType) (leafScript : Script) (sites : List SigCheckSite)
    (signatures : List Bytes) : Prop where
  built : ∃ outputs, tx = p2mrSpendTx outpoint outputs (signatures ++ [leafScript, singleLeafControlBlock])
  reveals : Reveals C tx 0 ⟨outpoint, [], 0xffffffff, signatures ++ [leafScript, singleLeafControlBlock]⟩
    prevout signatures leafScript singleLeafControlBlock sites
  types : ∀ sig ∈ signatures, parseSighashType sig = sighashType
  accepted : OwnTypes C tx 0 leafScript [prevout] sites signatures

variable {sites : List SigCheckSite} {signatures : List Bytes}

theorem reveals_p2mrSpendTx (hC : Digests C)
    (hspk : prevout.scriptPubkey = p2mrScriptPubkey (singleLeafMerkleRoot C leafScript))
    (hparsed : parseLeafScript leafScript = .ok ⟨sites⟩)
    (hleaf : leafScript.length ≤ maxP2mrLeafScriptSize) (hcount : signatures.length = sites.length)
    (hstack : signatures.length + 2 ≤ maxP2mrWitnessStack)
    (hweight : (signatures.map fun sig => estimateSigWu sig.length).sum ≤ maxPqcSigWuPerInput) :
    Reveals C (p2mrSpendTx outpoint outputs (signatures ++ [leafScript, singleLeafControlBlock])) 0
      ⟨outpoint, [], 0xffffffff, signatures ++ [leafScript, singleLeafControlBlock]⟩ prevout signatures
      leafScript singleLeafControlBlock sites where
  hasInput := rfl
  p2mr := by
    have hlen := hC.p2mrLeafHash p2mrLeafVersion leafScript
    simp [isP2mr, isP2mrScript, hspk, p2mrScriptPubkey, singleLeafMerkleRoot, hlen]
  witness := rfl
  stackSize := by simpa using hstack
  leafSize := hleaf
  weight := hweight
  parsed := hparsed
  count := hcount
  root := by
    have hlen := hC.p2mrLeafHash p2mrLeafVersion leafScript
    have hroot : (prevout.scriptPubkey.drop 2).take 32 = C.p2mrLeafHash p2mrLeafVersion leafScript := by
      rw [hspk, p2mrScriptPubkey, singleLeafMerkleRoot]
      exact List.take_of_length_le hlen.le
    rw [hroot]
    rfl

theorem SignedSpend.single (hC : Digests C) (hsigned : Signed C scheme pubkey message sig)
    (hleaf : buildChecksigLeaf pubkey = .ok leafScript)
    (hspk : prevout.scriptPubkey = p2mrScriptPubkey (singleLeafMerkleRoot C leafScript))
    (hmessage : p2mrSpendSighash C (p2mrSpendTx outpoint outputs []) prevout leafScript sighashType =
      .ok message) :
    SignedSpend C (p2mrSpendTx outpoint outputs
        [appendSighash sig sighashType, leafScript, singleLeafControlBlock])
      outpoint prevout sighashType leafScript [⟨pubkey, .checksig⟩] [appendSighash sig sighashType] := by
  obtain ⟨hlen, hparsed⟩ := parse_buildChecksigLeaf hsigned.pubkeySize hleaf
  have hsize : (appendSighash sig sighashType).length ≤ signatureSize scheme + 1 :=
    hsigned.signatureSize ▸ length_appendSighash_le
  have hmax : signatureSize scheme + 1 ≤ maxPqcSigWuPerInput := by cases scheme <;> decide
  refine ⟨⟨outputs, rfl⟩, ?_, ?_, ?_⟩
  · refine @reveals_p2mrSpendTx C _ _ _ _ _ [appendSighash sig sighashType] hC hspk hparsed hlen rfl
      (by simp [maxP2mrWitnessStack]) ?_
    simpa [estimateSigWu] using hsize.trans hmax
  · intro s hs
    obtain rfl := List.mem_singleton.mp hs
    exact (appendSighash_spec hsigned.signatureSize).1
  · intro entry hentry
    obtain rfl := List.mem_singleton.mp hentry
    exact signatureAccepted_appendSighash hsigned hmessage

theorem SignedSpend.hybrid (hC : Digests C) {ecPk slhPk ecSig slhSig : Bytes}
    (hec : Signed C .schnorr ecPk message ecSig) (hslh : Signed C .slhDsaSha2128s slhPk message slhSig)
    (hspk : prevout.scriptPubkey =
      p2mrScriptPubkey (singleLeafMerkleRoot C (buildHybridEcSlhLeaf ecPk slhPk)))
    (hmessage : p2mrSpendSighash C (p2mrSpendTx outpoint outputs []) prevout
      (buildHybridEcSlhLeaf ecPk slhPk) sighashType = .ok message) :
    SignedSpend C (p2mrSpendTx outpoint outputs [appendSighash ecSig sighashType,
        appendSighash slhSig sighashType, buildHybridEcSlhLeaf ecPk slhPk, singleLeafControlBlock])
      outpoint prevout sighashType (buildHybridEcSlhLeaf ecPk slhPk)
      [⟨ecPk, .checksig⟩, ⟨slhPk, .checksig⟩]
      [appendSighash ecSig sighashType, appendSighash slhSig sighashType] := by
  obtain ⟨hlen, hparsed⟩ := parse_buildHybridEcSlhLeaf hec.pubkeySize hslh.pubkeySize
  have hecSize : (appendSighash ecSig sighashType).length ≤ 65 :=
    length_appendSighash_le.trans_eq (congrArg (· + 1) hec.signatureSize)
  have hslhSize : (appendSighash slhSig sighashType).length ≤ 7857 :=
    length_appendSighash_le.trans_eq (congrArg (· + 1) hslh.signatureSize)
  refine ⟨⟨outputs, rfl⟩, ?_, ?_, ?_⟩
  · refine @reveals_p2mrSpendTx C _ _ _ _ _ [appendSighash ecSig sighashType,
      appendSighash slhSig sighashType] hC hspk hparsed hlen rfl (by simp [maxP2mrWitnessStack]) ?_
    simp only [List.map_cons, List.map_nil, List.sum_cons, List.sum_nil, estimateSigWu, maxPqcSigWuPerInput]
    omega
  · intro s hs
    rcases List.mem_pair.mp hs with rfl | rfl
    · exact (appendSighash_spec hec.signatureSize).1
    · exact (appendSighash_spec hslh.signatureSize).1
  · intro entry hentry
    rcases List.mem_pair.mp hentry with rfl | rfl
    · exact signatureAccepted_appendSighash hec hmessage
    · exact signatureAccepted_appendSighash hslh hmessage

/-! ## Builders -/

theorem signP2mrSpendCore_signed (hC : Digests C) (hS : S.Sound C) {algorithm : KeyAlgorithm}
    {entropy : Bytes} {keypair : KeyPair} {result : P2mrSpendSigningResult}
    (hkey : S.generateKeypair algorithm entropy = some keypair)
    (hleaf : buildChecksigLeaf keypair.publicKey = .ok leafScript)
    (hspk : prevout.scriptPubkey = p2mrScriptPubkey (singleLeafMerkleRoot C leafScript))
    (h : signP2mrSpendCore C S keypair sighashType prevout outpoint outputs = .ok result) :
    ∃ sites signatures,
      SignedSpend C result.signedSpendTx outpoint prevout sighashType leafScript sites signatures := by
  obtain ⟨_, -, h⟩ := bind_eq_ok_iff.mp h
  obtain ⟨_, hleaf', h⟩ := bind_eq_ok_iff.mp h
  obtain rfl := Except.ok.inj (hleaf.symm.trans hleaf')
  obtain ⟨message, hmessage, h⟩ := bind_eq_ok_iff.mp h
  obtain ⟨sig, hsig, h⟩ := bind_eq_ok_iff.mp h
  obtain rfl := Except.ok.inj h
  have hsigned := hS.sign algorithm entropy keypair message sig hkey (length_sighash hC hmessage)
    (elim_eq_ok_iff.mp hsig)
  exact ⟨_, _, .single hC hsigned hleaf hspk hmessage⟩

theorem generateP2mrKeypair_eq_ok {algorithm : SignAlgorithm} {entropy : Bytes} {keypair : KeyPair}
    (h : generateP2mrKeypair S algorithm entropy = .ok keypair) :
    S.generateKeypair algorithm.toBitcoinpqc entropy = some keypair := by
  obtain ⟨_, -, h⟩ := bind_eq_ok_iff.mp h
  exact elim_eq_ok_iff.mp h

theorem buildP2mrSpendFromPrevout_signed (hC : Digests C) (hS : S.Sound C) {algorithm : SignAlgorithm}
    {entropy : Bytes} {tx : Transaction}
    (hout : p2mrOutputForAlgorithm C S algorithm entropy = .ok (prevout.scriptPubkey, leafScript))
    (h : buildP2mrSpendFromPrevout C S algorithm entropy sighashType outpoint prevout outputs = .ok tx) :
    ∃ sites signatures, SignedSpend C tx outpoint prevout sighashType leafScript sites signatures := by
  obtain ⟨keypair, hkey, hout⟩ := bind_eq_ok_iff.mp hout
  obtain ⟨_, hleaf, hout⟩ := bind_eq_ok_iff.mp hout
  obtain ⟨hspk, rfl⟩ := Prod.mk.injEq .. ▸ Except.ok.inj hout
  obtain ⟨_, hkey', h⟩ := bind_eq_ok_iff.mp h
  obtain rfl := Except.ok.inj (hkey.symm.trans hkey')
  obtain ⟨result, hresult, h⟩ := bind_eq_ok_iff.mp h
  obtain rfl := Except.ok.inj h
  exact signP2mrSpendCore_signed hC hS (generateP2mrKeypair_eq_ok hkey) hleaf hspk.symm hresult

theorem slhPk32_eq_ok {keypair : KeyPair} (h : slhPk32 keypair = .ok pubkey) :
    pubkey = keypair.publicKey := by
  unfold slhPk32 at h
  split at h
  · exact (Except.ok.inj h).symm
  · cases h

theorem buildHybridEcSlhSpendFromPrevout_signed (hC : Digests C) (hS : S.Sound C)
    {ecEntropy slhEntropy : Bytes} {tx : Transaction}
    (hout : p2mrOutputForHybridEcSlh C S ecEntropy slhEntropy = .ok (prevout.scriptPubkey, leafScript))
    (h : buildHybridEcSlhSpendFromPrevout C S ecEntropy slhEntropy sighashType outpoint prevout outputs =
      .ok tx) :
    ∃ sites signatures, SignedSpend C tx outpoint prevout sighashType leafScript sites signatures := by
  obtain ⟨_, -, hout⟩ := bind_eq_ok_iff.mp hout
  obtain ⟨ecKeypair, hec, hout⟩ := bind_eq_ok_iff.mp hout
  obtain ⟨slhKeypair, hslh, hout⟩ := bind_eq_ok_iff.mp hout
  obtain ⟨slhPk, hpk, hout⟩ := bind_eq_ok_iff.mp hout
  obtain ⟨hspk, rfl⟩ := Prod.mk.injEq .. ▸ Except.ok.inj hout
  obtain ⟨_, -, h⟩ := bind_eq_ok_iff.mp h
  obtain ⟨_, -, h⟩ := bind_eq_ok_iff.mp h
  obtain ⟨_, hec', h⟩ := bind_eq_ok_iff.mp h
  obtain rfl := Except.ok.inj (hec.symm.trans hec')
  obtain ⟨_, hslh', h⟩ := bind_eq_ok_iff.mp h
  obtain rfl := Except.ok.inj (hslh.symm.trans hslh')
  obtain ⟨_, hpk', h⟩ := bind_eq_ok_iff.mp h
  obtain rfl := Except.ok.inj (hpk.symm.trans hpk')
  obtain rfl := slhPk32_eq_ok hpk
  obtain ⟨message, hmessage, h⟩ := bind_eq_ok_iff.mp h
  obtain ⟨slhSig, hslhSig, h⟩ := bind_eq_ok_iff.mp h
  obtain rfl := Except.ok.inj h
  have hlen := length_sighash hC hmessage
  have hecSigned := hS.signSchnorr ecEntropy ecKeypair message (elim_eq_ok_iff.mp hec) hlen
  have hslhSigned := hS.sign _ slhEntropy slhKeypair message slhSig (elim_eq_ok_iff.mp hslh) hlen
    (elim_eq_ok_iff.mp hslhSig)
  exact ⟨_, _, .hybrid hC hecSigned hslhSigned hspk.symm hmessage⟩

/-! ## Validation -/

theorem validateP2mrOutputs_eq_ok (tx : Transaction) : validateP2mrOutputs tx = .ok () := by
  apply Except.forM_eq_ok_iff.mpr
  intro output _
  by_cases hp : isP2mr output = true
  · rw [if_pos hp, Reveals.validateP2mrOutput_eq hp]
    rfl
  · rw [if_neg hp]

/-- The only input of a spend decides about it. -/
theorem validateTransactionSpends_eq_error {clock : Clock} {view : SpendView} {timer : Timer}
    {tx : Transaction} {input : TxIn} {e : SpendError} (hinput : tx.input = [input])
    (h : validateTransactionSpends C clock tx view timer = .error e) :
    validateInput C clock tx view timer (input, 0) = .error e := by
  rw [validateTransactionSpends, validateP2mrOutputs_eq_ok, hinput] at h
  cases hrun : validateInput C clock tx view timer (input, 0) with
  | error e' => simpa [hrun, bind, Except.bind] using h
  | ok timer' => simp [hrun, bind, Except.bind, pure, Except.pure] at h

/-- A signed spend is rejected for lack of time only. -/
theorem SignedSpend.rejected {clock : Clock} {view : SpendView} {timer : Timer} {tx : Transaction}
    (h : SignedSpend C tx outpoint prevout sighashType leafScript sites signatures)
    (hprevout : view.availablePrevouts.lookup outpoint = some prevout) {e : SpendError}
    (he : validateTransactionSpends C clock tx view timer = .error e) : e.Exhausted := by
  by_contra hlate
  obtain ⟨outputs, hbuilt⟩ := h.built
  have hinput : tx.input = [⟨outpoint, [], 0xffffffff, signatures ++ [leafScript, singleLeafControlBlock]⟩] := by
    rw [hbuilt, p2mrSpendTx]
  have hunmixed : ¬ MixedTypes signatures := by
    obtain ⟨first, rest, rfl⟩ := List.exists_cons_of_ne_nil h.reveals.signatures_ne
    rintro ⟨hfirst, sig, hsig, hother⟩
    rw [anyoneCanPay, h.types first List.mem_cons_self] at hfirst
    rw [anyoneCanPay, h.types sig (List.mem_cons_of_mem _ hsig), hfirst] at hother
    cases hother
  have hall : allPrevouts tx view.availablePrevouts = some [prevout] := by
    simp [allPrevouts, hinput, hprevout]
  have hrun := validateTransactionSpends_eq_error hinput he
  have htime : (Except.error e : Except SpendError Timer).Avoids SpendError.Exhausted := by
    rintro e' he'
    exact Except.error.inj he' ▸ hlate
  rw [← hrun] at htime
  have hok := (validateInput_isOk_iff h.reveals hprevout hall htime).mpr ⟨hunmixed, h.accepted⟩
  rw [hrun] at hok
  cases hok

end Bip360Enforcer.Pqc
