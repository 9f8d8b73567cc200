import Bip360Enforcer.Pqc.Lemmas.Signer

/-!
# The encodings of a signature element
-/

namespace Bip360Enforcer.Pqc

variable {C : Crypto} {clock : Clock} {pubkey body element : Bytes} {sighashType : TapSighashType}
  {scheme : SignatureScheme}

/-! ## Splitting an element -/

/-- A body of a canonical size and the byte of the default type, which `appendSighash` leaves out. -/
def ExplicitDefault (element : Bytes) : Prop :=
  ∃ body, isCanonicalSize body.length = true ∧ element = body ++ [0x00]

theorem isCanonicalSize_iff {size : Nat} :
    isCanonicalSize size = true ↔ size = 64 ∨ size = 2420 ∨ size = 7856 := by
  simp only [isCanonicalSize, Bool.or_eq_true, decide_eq_true_eq, or_assoc]
  rfl

theorem eq_toU8_of_fromConsensusU8 {byte : UInt8}
    (h : TapSighashType.fromConsensusU8 byte = some sighashType) : byte = sighashType.toU8 := by
  rw [TapSighashType.fromConsensusU8] at h
  split_ifs at h with h0 h1 h2 h3 h4 h5 h6
  all_goals
    cases h
    assumption

theorem toU8_eq_zero_iff : sighashType.toU8 = 0x00 ↔ sighashType = .default := by
  cases sighashType <;> decide

/-- An element with a type byte is split into its body and its type. -/
theorem split_typed (h : isCanonicalSize body.length = true) :
    stripSighashByte (body ++ [sighashType.toU8]) = body ∧
    parseSighashType (body ++ [sighashType.toU8]) = sighashType := by
  have hpos : 0 < body.length := by
    cases body with
    | nil => cases h
    | cons byte body => exact Nat.succ_pos _
  have hlen : ¬ body.length + 1 ≤ 1 := by omega
  constructor
  · simp [stripSighashByte, hlen, fromConsensusU8_toU8, h]
  · simp [parseSighashType, hlen, fromConsensusU8_toU8, h]

theorem split_explicit (h : isCanonicalSize body.length = true) :
    stripSighashByte (body ++ [0x00]) = body ∧ parseSighashType (body ++ [0x00]) = .default :=
  @split_typed body .default h

/-- An element is its body alone, of the default type, or a body of a canonical size and its type. -/
theorem split_cases (element : Bytes) :
    stripSighashByte element = element ∧ parseSighashType element = .default ∨
    ∃ body, ∃ sighashType : TapSighashType,
      isCanonicalSize body.length = true ∧ element = body ++ [sighashType.toU8] := by
  rcases List.eq_nil_or_concat element with rfl | ⟨body, last, rfl⟩
  · exact .inl ⟨rfl, rfl⟩
  · rw [List.concat_eq_append]
    by_cases hcanonical : isCanonicalSize body.length = true
    · cases htype : TapSighashType.fromConsensusU8 last with
      | none =>
          left
          constructor
          · simp [stripSighashByte, htype]
          · simp [parseSighashType, htype]
      | some sighashType =>
          right
          exact ⟨body, sighashType, hcanonical, by rw [eq_toU8_of_fromConsensusU8 htype]⟩
    · left
      constructor
      · simp [stripSighashByte, hcanonical]
      · simp [parseSighashType, hcanonical]

/-- A body of a canonical size is not cut. -/
theorem split_bare (h : isCanonicalSize body.length = true) :
    stripSighashByte body = body ∧ parseSighashType body = .default := by
  rcases split_cases body with hbare | ⟨inner, sighashType, hinner, rfl⟩
  · exact hbare
  · rw [List.length_append, List.length_singleton] at h
    rw [isCanonicalSize_iff] at hinner h
    omega

/-- With the explicit byte of the default type, a body is judged as it is without. -/
theorem verifyOverloadedChecksig_explicitDefault {ctx : TapscriptVerifyContext} {timer : Timer}
    (h : isCanonicalSize body.length = true) :
    verifyOverloadedChecksig C clock pubkey (body ++ [0x00]) ctx timer =
      verifyOverloadedChecksig C clock pubkey body ctx timer := by
  obtain ⟨hstrip, hparse⟩ := split_explicit h
  obtain ⟨hbare, hbody⟩ := split_bare h
  simp only [verifyOverloadedChecksig, classifySignature, verifyTapscriptSignature, verifySchnorr,
    verifyMlDsa44, verifySlhDsaSha2128s, hstrip, hparse, hbare, hbody]

/-! ## The encodings of one body and type -/

/-- Putting the parts of an element together gives the element back, unless it writes the default type. -/
theorem appendSighash_split_iff :
    appendSighash (stripSighashByte element) (parseSighashType element) = element ↔
      ¬ ExplicitDefault element := by
  rcases split_cases element with ⟨hstrip, hparse⟩ | ⟨body, sighashType, hcanonical, rfl⟩
  · rw [hstrip, hparse, appendSighash, if_neg (not_not.mpr rfl)]
    refine iff_of_true rfl ?_
    rintro ⟨body, hcanonical, rfl⟩
    obtain ⟨hbody, -⟩ := split_explicit hcanonical
    rw [hbody] at hstrip
    simp at hstrip
  · obtain ⟨hstrip, hparse⟩ := @split_typed body sighashType hcanonical
    rw [hstrip, hparse, appendSighash]
    constructor
    · intro h hexplicit
      obtain ⟨other, -, hother⟩ := hexplicit
      obtain ⟨rfl, hbyte⟩ := List.append_inj' hother rfl
      have htype : sighashType = .default := toU8_eq_zero_iff.mp (List.cons.inj hbyte).1
      rw [if_neg (not_not.mpr htype)] at h
      simp at h
    · intro hexplicit
      apply if_pos
      rintro rfl
      exact hexplicit ⟨body, hcanonical, rfl⟩

/-- A body and a type have one encoding, unless the type is the default and may be written or not. -/
theorem split_unique_iff :
    (∀ other, stripSighashByte other = stripSighashByte element →
      parseSighashType other = parseSighashType element → other = element) ↔
    ¬ (isCanonicalSize (stripSighashByte element).length = true ∧ parseSighashType element = .default) := by
  constructor
  · rintro hunique ⟨hcanonical, hdefault⟩
    obtain ⟨hstrip, hparse⟩ := split_explicit hcanonical
    have htyped := hunique _ hstrip (hparse.trans hdefault.symm)
    rcases split_cases element with ⟨hbare, -⟩ | ⟨body, sighashType, hbody, rfl⟩
    · rw [hbare] at htyped
      simp at htyped
    · obtain ⟨hbare, hbareType⟩ := split_bare hbody
      have hsplit := (@split_typed body sighashType hbody).1
      have hshort := hunique body (hbare.trans hsplit.symm) (hbareType.trans hdefault.symm)
      simp at hshort
  · intro hnot other hstrip hparse
    have hcore : ∀ e, stripSighashByte e = stripSighashByte element →
        parseSighashType e = parseSighashType element →
        appendSighash (stripSighashByte e) (parseSighashType e) = e := by
      intro e hs hp
      rw [appendSighash_split_iff]
      rintro ⟨body, hcanonical, rfl⟩
      obtain ⟨hbody, htype⟩ := split_explicit hcanonical
      exact hnot ⟨by rw [← hs, hbody]; exact hcanonical, by rw [← hp, htype]⟩
    calc other = appendSighash (stripSighashByte other) (parseSighashType other) :=
          (hcore other hstrip hparse).symm
      _ = appendSighash (stripSighashByte element) (parseSighashType element) := by rw [hstrip, hparse]
      _ = element := hcore element rfl rfl

/-- What the signer appends is read back, and what is accepted is what the signer appends, for the parts
it is read as, unless it writes the default type; it is the only encoding of these parts unless the
type is the default and the body has a canonical size. -/
theorem signatureElement_encodings {accepted : SignatureScheme} (hsize : body.length = signatureSize scheme)
    (haccepted : classifySignature element = .ok accepted) :
    (stripSighashByte (appendSighash body sighashType) = body ∧
      parseSighashType (appendSighash body sighashType) = sighashType ∧
      classifySignature (appendSighash body sighashType) = .ok scheme) ∧
    (appendSighash (stripSighashByte element) (parseSighashType element) = element ↔
      ¬ ExplicitDefault element) ∧
    ((∀ other, classifySignature other = .ok accepted →
        stripSighashByte other = stripSighashByte element →
        parseSighashType other = parseSighashType element → other = element) ↔
      ¬ (isCanonicalSize (stripSighashByte element).length = true ∧ parseSighashType element = .default)) := by
  obtain ⟨hparse, hstrip⟩ := @appendSighash_spec body sighashType scheme hsize
  refine ⟨⟨hstrip, hparse, classifySignature_appendSighash hsize⟩, appendSighash_split_iff, ?_⟩
  rw [← split_unique_iff]
  constructor
  · intro hunique other hstrip hparse
    exact hunique other (by rw [classifySignature, hstrip]; exact haccepted) hstrip hparse
  · intro hunique other _ hstrip hparse
    exact hunique other hstrip hparse

theorem ownSignature_encodings :
    stripSighashByte (appendSighash wholeSignature .all) = wholeSignature ∧
    appendSighash (stripSighashByte ownSignature) (parseSighashType ownSignature) = ownSignature := by
  have hexplicit : ¬ ExplicitDefault ownSignature := by
    rintro ⟨body, -, hbody⟩
    have := congrArg List.getLast? hbody
    rw [ownSignature, List.getLast?_concat, List.getLast?_concat] at this
    cases this
  obtain ⟨⟨hstrip, -⟩, happend, -⟩ := @signatureElement_encodings wholeSignature ownSignature .all .schnorr
    .schnorr (by decide) (by decide)
  exact ⟨hstrip, happend.mpr hexplicit⟩

/-- The spend of an input is accepted with the signature alone and with a zero byte after it. -/
theorem zeroByte_accepted :
    verifyOverloadedChecksig .sample (fun _ => 0) jointKey wholeSignature
      ⟨jointTx [], 0, .all jointTxouts, []⟩ ⟨none, 0⟩ = .ok ⟨none, 0⟩ ∧
    verifyOverloadedChecksig .sample (fun _ => 0) jointKey (wholeSignature ++ [0x00])
      ⟨jointTx [], 0, .all jointTxouts, []⟩ ⟨none, 0⟩ = .ok ⟨none, 0⟩ ∧
    appendSighash (stripSighashByte (wholeSignature ++ [0x00]))
      (parseSighashType (wholeSignature ++ [0x00])) ≠ wholeSignature ++ [0x00] := by
  refine ⟨by decide, by decide, ?_⟩
  intro h
  exact appendSighash_split_iff.mp h ⟨wholeSignature, by decide, rfl⟩

end Bip360Enforcer.Pqc
