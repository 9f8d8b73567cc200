import Bip360Enforcer.Library.Except
import Bip360Enforcer.Pqc.Authorised
import Bip360Enforcer.Pqc.Spend

/-!
# An accepted P2MR spend is authorised
-/

namespace Bip360Enforcer.Pqc

open Except (bind_eq_ok_iff mapError_eq_ok_iff ite_error_eq_ok_iff)

variable {C : Crypto} {clock : Clock}

/-! ## Leaf scripts -/

/-- What the parser holds of a leaf script was pushed by the instructions read so far. -/
structure ParserState.Pushed (items : List Item) (st : ParserState) : Prop where
  sites : ∀ site ∈ st.sigSites, some (.pushBytes site.pubkey) ∈ items
  lastPush : ∀ data ∈ st.lastPush, some (.pushBytes data) ∈ items
  pushBuffer : ∀ data ∈ st.pushBuffer, some (.pushBytes data) ∈ items

namespace ParserState.Pushed

variable {items : List Item} {st st' : ParserState}

theorem concat (h : st.Pushed items) (item : Item) : st.Pushed (items ++ [item]) where
  sites site hsite := List.mem_append_left _ (h.sites site hsite)
  lastPush data hdata := List.mem_append_left _ (h.lastPush data hdata)
  pushBuffer data hdata := List.mem_append_left _ (h.pushBuffer data hdata)

theorem push (h : st.Pushed items) (data : Bytes) :
    (parsePush st data).Pushed (items ++ [some (.pushBytes data)]) := by
  have h' := h.concat (some (.pushBytes data))
  unfold parsePush
  split
  · exact ⟨h'.sites, by simp, h'.pushBuffer⟩
  · refine ⟨h'.sites, fun d hd => ?_, fun d hd => ?_⟩
    · obtain rfl : data = d := by simpa using hd
      simp
    · rcases List.mem_append.mp hd with hd | hd
      · exact h'.pushBuffer d hd
      · obtain rfl : d = data := by simpa using hd
        simp

end ParserState.Pushed

theorem pushSingleSigSite_ok {opcode : Opcode} {sites sites' : List SigCheckSite} {pubkey : Bytes}
    (h : pushSingleSigSite opcode sites pubkey = .ok sites') : sites' = sites ++ [⟨pubkey, opcode⟩] := by
  obtain ⟨-, -, h⟩ := bind_eq_ok_iff.mp h
  exact (Except.ok.inj h).symm

theorem pushMultisigSites_pushed {st st' : ParserState} {keyCount : Nat} {opcode : Opcode}
    {items : List Item} (hst : st.Pushed items)
    (h : pushMultisigSites st keyCount opcode = .ok st') : st'.Pushed items := by
  unfold pushMultisigSites at h
  obtain ⟨-, h⟩ := ite_error_eq_ok_iff.mp h
  obtain ⟨sites, hsites, h⟩ := bind_eq_ok_iff.mp h
  obtain rfl := Except.ok.inj h
  refine ⟨?_, hst.lastPush, fun d hd => hst.pushBuffer d (List.mem_of_mem_take hd)⟩
  refine Except.foldlM_induction (motive := fun _ sites => ∀ site ∈ sites,
    some (.pushBytes site.pubkey) ∈ items) hst.sites ?_ hsites
  intro _ pubkey sites sites' hpubkey ih hstep site hsite
  rw [pushSingleSigSite_ok hstep] at hsite
  rcases List.mem_append.mp hsite with hsite | hsite
  · exact ih site hsite
  · obtain rfl : site = ⟨pubkey, opcode⟩ := by simpa using hsite
    exact hst.pushBuffer pubkey (List.mem_of_mem_drop hpubkey)

theorem parseSigCheck_pushed {st st' : ParserState} {opcode : Opcode} {items : List Item}
    (hst : st.Pushed items) (h : parseSigCheck st opcode = .ok st') : st'.Pushed items := by
  unfold parseSigCheck at h
  split at h
  · split at h
    · cases h
    · obtain ⟨st₁, hst₁, h⟩ := bind_eq_ok_iff.mp h
      obtain rfl := Except.ok.inj h
      have hkept : ({ st with pendingMultisigKeys := none } : ParserState).Pushed items :=
        ⟨hst.sites, hst.lastPush, hst.pushBuffer⟩
      have := pushMultisigSites_pushed hkept hst₁
      exact ⟨this.sites, by simp, this.pushBuffer⟩
  · split at h
    · cases h
    · rename_i pubkey hpubkey
      obtain ⟨sites, hsites, h⟩ := bind_eq_ok_iff.mp h
      obtain rfl := Except.ok.inj h
      refine ⟨fun site hsite => ?_, by simp, by simp⟩
      rw [pushSingleSigSite_ok hsites] at hsite
      rcases List.mem_append.mp hsite with hsite | hsite
      · exact hst.sites site hsite
      · obtain rfl : site = ⟨pubkey, opcode⟩ := by simpa using hsite
        exact hst.lastPush pubkey hpubkey

theorem parseItem_pushed {st st' : ParserState} {item : Item} {items : List Item}
    (hst : st.Pushed items) (h : parseItem st item = .ok st') : st'.Pushed (items ++ [item]) := by
  have hconcat := hst.concat item
  unfold parseItem at h
  split at h
  · cases h
  · obtain rfl := Except.ok.inj h
    exact hst.push _
  · obtain ⟨-, h⟩ := ite_error_eq_ok_iff.mp h
    split at h
    · exact parseSigCheck_pushed hconcat h
    · split at h
      · obtain rfl := Except.ok.inj h
        exact ⟨hconcat.sites, by simp, hconcat.pushBuffer⟩
      · split at h
        · obtain rfl := Except.ok.inj h
          exact ⟨hconcat.sites, by simp, hconcat.pushBuffer⟩
        · cases h

/-- The sites of an accepted leaf script: there are some, each with a key that the script pushes. -/
theorem parseLeafScript_sites {script : Script} {parsed : ParsedLeafScript}
    (h : parseLeafScript script = .ok parsed) : parsed.sigSites ≠ [] ∧
      ∀ site ∈ parsed.sigSites, some (.pushBytes site.pubkey) ∈ instructions script := by
  unfold parseLeafScript at h
  obtain ⟨-, h⟩ := ite_error_eq_ok_iff.mp h
  obtain ⟨-, h⟩ := ite_error_eq_ok_iff.mp h
  obtain ⟨st, hst, h⟩ := bind_eq_ok_iff.mp h
  obtain ⟨-, h⟩ := ite_error_eq_ok_iff.mp h
  obtain ⟨hsites, h⟩ := ite_error_eq_ok_iff.mp h
  obtain rfl := Except.ok.inj h
  have hpushed : st.Pushed (instructions script) := by
    refine Except.foldlM_induction (motive := fun items st => st.Pushed items) ?_ ?_ hst
    · constructor <;> simp [ParserState.initial]
    · intro _ _ _ _ _ ih hstep
      exact parseItem_pushed ih hstep
  exact ⟨by simpa using hsites, hpushed.sites⟩

/-! ## Signatures -/

theorem verifyPqc_ok {algorithm : Algorithm} {sigBytes message pubkey : Bytes} {invalid : SchemeError}
    {timer timer' : Timer}
    (h : verifyPqc C clock algorithm sigBytes message pubkey invalid timer = .ok timer') :
    (C.pqcSignatureValid algorithm sigBytes && C.pqcPublicKeyValid algorithm pubkey
      && C.pqcVerify algorithm pubkey message sigBytes) = true := by
  unfold verifyPqc at h
  obtain ⟨-, h⟩ := ite_error_eq_ok_iff.mp h
  split at h
  · assumption
  · cases h

theorem verifySchnorr_ok {signature message pubkey : Bytes}
    (h : verifySchnorr C signature message pubkey = .ok ()) :
    SignatureScheme.schnorr.accepts C pubkey message (stripSighashByte signature) = true := by
  unfold verifySchnorr at h
  obtain ⟨-, h⟩ := ite_error_eq_ok_iff.mp h
  obtain ⟨hkey, h⟩ := ite_error_eq_ok_iff.mp h
  split at h
  · rename_i hverify
    simp only [Bool.not_eq_true', Bool.not_eq_false] at hkey
    simp [SignatureScheme.accepts, hkey, hverify]
  · cases h

theorem verifyOverloadedChecksig_ok {pubkey signature : Bytes} {ctx : TapscriptVerifyContext}
    {timer timer' : Timer}
    (h : verifyOverloadedChecksig C clock pubkey signature ctx timer = .ok timer') :
    SignatureAccepted C ctx pubkey signature := by
  unfold verifyOverloadedChecksig at h
  obtain ⟨-, h⟩ := ite_error_eq_ok_iff.mp h
  obtain ⟨scheme, hscheme, h⟩ := bind_eq_ok_iff.mp h
  obtain ⟨_, hkey, h⟩ := bind_eq_ok_iff.mp h
  obtain ⟨message, hmessage, h⟩ := bind_eq_ok_iff.mp h
  have hsize : pubkey.length = expectedPubkeySize scheme := by
    unfold validatePubkeyForScheme at hkey
    split at hkey
    · assumption
    · cases hkey
  refine ⟨scheme, message, hscheme, hsize, mapError_eq_ok_iff.mp hmessage, ?_⟩
  cases scheme with
  | schnorr =>
      obtain ⟨_, hverify, -⟩ := bind_eq_ok_iff.mp h
      exact verifySchnorr_ok hverify
  | mlDsa44 => exact verifyPqc_ok h
  | slhDsaSha2128s => exact verifyPqc_ok h

/-! ## Inputs -/

theorem validateP2mrOutput_ok {script root : Bytes} (h : validateP2mrOutput script = .ok root) :
    root = (script.drop 2).take 32 := by
  unfold validateP2mrOutput at h
  obtain ⟨-, h⟩ := ite_error_eq_ok_iff.mp h
  obtain ⟨-, h⟩ := ite_error_eq_ok_iff.mp h
  obtain ⟨-, h⟩ := ite_error_eq_ok_iff.mp h
  exact (Except.ok.inj h).symm

theorem verifyMerklePath_ok {leafScript root controlBlock : Bytes}
    (h : verifyMerklePath C leafScript root controlBlock = .ok ()) :
    recomputeMerkleRoot C leafScript controlBlock = .ok root := by
  obtain ⟨derived, hderived, h⟩ := bind_eq_ok_iff.mp h
  obtain ⟨heq, -⟩ := ite_error_eq_ok_iff.mp h
  rw [hderived, not_not.mp heq]

theorem validateWitnessSigCount_ok {script : Script} {count : Nat} {parsed : ParsedLeafScript}
    (h : validateWitnessSigCount script count = .ok parsed) :
    parseLeafScript script = .ok parsed ∧ count = parsed.sigSites.length := by
  obtain ⟨parsed', hparsed, h⟩ := bind_eq_ok_iff.mp h
  obtain ⟨hcount, h⟩ := ite_error_eq_ok_iff.mp h
  obtain rfl := Except.ok.inj h
  exact ⟨hparsed, not_not.mp hcount⟩

theorem validateP2mrInputSpend_authorised {tx : Transaction} {inputIndex : Nat} {input : TxIn}
    {prevout : TxOut} {prevouts : Prevouts} {timer timer' : Timer} {t : Table OutPoint TxOut}
    (hinput : tx.input[inputIndex]? = some input)
    (hspent : SpentOutputs tx inputIndex prevout t prevouts)
    (h : validateP2mrInputSpend C clock tx inputIndex prevout prevouts timer = .ok timer') :
    Authorised C tx inputIndex input prevout t := by
  unfold validateP2mrInputSpend at h
  rw [hinput] at h
  obtain ⟨-, h⟩ := ite_error_eq_ok_iff.mp h
  obtain ⟨-, h⟩ := ite_error_eq_ok_iff.mp h
  obtain ⟨root, hroot, h⟩ := bind_eq_ok_iff.mp h
  split at h
  · rename_i controlBlock leafScript sigs hwitness
    obtain ⟨-, h⟩ := ite_error_eq_ok_iff.mp h
    obtain ⟨-, h⟩ := ite_error_eq_ok_iff.mp h
    obtain ⟨-, h⟩ := ite_error_eq_ok_iff.mp h
    obtain ⟨parsed, hparsed, h⟩ := bind_eq_ok_iff.mp h
    obtain ⟨_, hmerkle, h⟩ := bind_eq_ok_iff.mp h
    obtain ⟨hparse, hcount⟩ := validateWitnessSigCount_ok (mapError_eq_ok_iff.mp hparsed)
    obtain ⟨hne, hkeys⟩ := parseLeafScript_sites hparse
    have hpath := verifyMerklePath_ok (mapError_eq_ok_iff.mp hmerkle)
    rw [validateP2mrOutput_ok (mapError_eq_ok_iff.mp hroot)] at hpath
    have hversion : leafVersionFromConsensus p2mrLeafVersion = some p2mrLeafVersion := by decide
    rw [hversion] at h
    refine ⟨sigs.reverse, leafScript, controlBlock, parsed.sigSites, prevouts, ?_, hpath, hparse, hne,
      hcount, hkeys, hspent, ?_⟩
    · have := congrArg List.reverse hwitness
      simpa using this
    · refine Except.foldlM_induction (motive := fun done _ => ∀ entry ∈ done,
        SignatureAccepted C ⟨tx, inputIndex, prevouts, C.tapLeafHash p2mrLeafVersion leafScript⟩
          entry.1.pubkey entry.2) (by simp) ?_ h
      intro done entry _ _ _ ih hstep e he
      rcases List.mem_append.mp he with he | he
      · exact ih e he
      · obtain rfl : e = entry := by simpa using he
        exact verifyOverloadedChecksig_ok (mapError_eq_ok_iff.mp hstep)
  · cases h

theorem mapM_option_getElem {α β : Type} {f : α → Option β} {xs : List α} {ys : List β}
    (h : xs.mapM f = some ys) : ys.length = xs.length ∧
      ∀ (i : Nat) (x : α), xs[i]? = some x → ys[i]? = f x := by
  induction xs generalizing ys with
  | nil =>
      obtain rfl : [] = ys := by simpa using h
      simp
  | cons x xs ih =>
      rw [List.mapM_cons] at h
      obtain ⟨y, hy, ys', hys, rfl⟩ : ∃ y, f x = some y ∧ ∃ ys', xs.mapM f = some ys' ∧ y :: ys' = ys := by
        simpa [Option.bind_eq_some_iff] using h
      obtain ⟨hlen, hget⟩ := ih hys
      refine ⟨by simp [hlen], fun i x' hx' => ?_⟩
      cases i with
      | zero =>
          obtain rfl : x = x' := by simpa using hx'
          simp [hy]
      | succ i => simpa using hget i x' (by simpa using hx')

/-- The outputs that are hashed are the transaction's own, whatever the hash type. -/
theorem prevoutsForP2mrInput_spent {tx : Transaction} {inputIndex : Nat} {input : TxIn}
    {prevout : TxOut} {available : PrevoutMap} {sighashType : TapSighashType} {prevouts : Prevouts}
    {t : Table OutPoint TxOut} (hinput : tx.input[inputIndex]? = some input)
    (hprevout : available.lookup input.previousOutput = some prevout)
    (ht : ∀ op txout, t op = some txout → available.lookup op = some txout)
    (h : prevoutsForP2mrInput tx inputIndex prevout available sighashType = some prevouts) :
    SpentOutputs tx inputIndex prevout t prevouts := by
  unfold prevoutsForP2mrInput at h
  split at h
  · obtain rfl := Option.some.inj h
    exact ⟨by simp [Prevouts.get], by simp⟩
  · split at h
    · rename_i hone
      obtain rfl := Option.some.inj h
      obtain ⟨only, honly⟩ := List.length_eq_one_iff.mp hone
      have hlt : inputIndex < tx.input.length := (List.getElem?_eq_some_iff.mp hinput).1
      obtain rfl : inputIndex = 0 := by omega
      have hsame : only = input := by simpa [honly] using hinput
      refine ⟨rfl, fun txouts htxouts => ?_⟩
      obtain rfl : [prevout] = txouts := by simpa using htxouts
      refine ⟨hone.symm, fun i input' txout hinput' htxout => ?_⟩
      have hlt' : i < tx.input.length := (List.getElem?_eq_some_iff.mp hinput').1
      obtain rfl : i = 0 := by omega
      obtain rfl : input = input' := by simpa [hinput] using hinput'
      have := ht _ _ htxout
      rw [hprevout] at this
      simpa using this
    · obtain ⟨txouts, htxouts, rfl⟩ := Option.map_eq_some_iff.mp h
      obtain ⟨hlen, hget⟩ := mapM_option_getElem htxouts
      refine ⟨by simp [Prevouts.get, hget inputIndex input hinput, hprevout], ?_⟩
      intro txouts' heq
      obtain rfl : txouts = txouts' := by simpa using heq
      refine ⟨hlen, fun i input' txout hinput' htxout => ?_⟩
      rw [hget i input' hinput', ht _ _ htxout]

theorem validateInput_authorised {tx : Transaction} {view : SpendView} {timer timer' : Timer}
    {inputIndex : Nat} {input : TxIn} {prevout : TxOut} {t : Table OutPoint TxOut}
    (hinput : tx.input[inputIndex]? = some input) (hprevout : t input.previousOutput = some prevout)
    (ht : ∀ op txout, t op = some txout →
      view.availablePrevouts.lookup op = some txout ∧ isP2mr txout)
    (h : validateInput C clock tx view timer (input, inputIndex) = .ok timer') :
    Authorised C tx inputIndex input prevout t := by
  obtain ⟨hlookup, hp⟩ := ht _ _ hprevout
  simp only [validateInput, hlookup, hp, Bool.not_true, Bool.false_eq_true, if_false] at h
  obtain ⟨-, h⟩ := ite_error_eq_ok_iff.mp h
  split at h
  · cases h
  · rename_i prevouts hprevouts
    exact validateP2mrInputSpend_authorised hinput
      (prevoutsForP2mrInput_spent hinput hlookup (fun op txout hop => (ht op txout hop).1) hprevouts) h

theorem validateTransactionSpends_authorised {tx : Transaction} {view : SpendView}
    {timer timer' : Timer} {t : Table OutPoint TxOut}
    (ht : ∀ op txout, t op = some txout →
      view.availablePrevouts.lookup op = some txout ∧ isP2mr txout)
    (h : validateTransactionSpends C clock tx view timer = .ok timer') (inputIndex : Nat)
    (input : TxIn) (prevout : TxOut) (hinput : tx.input[inputIndex]? = some input)
    (hprevout : t input.previousOutput = some prevout) :
    Authorised C tx inputIndex input prevout t := by
  obtain ⟨-, -, h⟩ := bind_eq_ok_iff.mp h
  have hmem : (input, inputIndex) ∈ tx.input.zipIdx := by
    simpa [List.mem_zipIdx_iff_getElem?] using hinput
  obtain ⟨done, rest, hsplit⟩ := List.append_of_mem hmem
  rw [hsplit] at h
  obtain ⟨timer₁, -, h⟩ := Except.foldlM_append_ok_iff.mp h
  obtain ⟨timer₂, hstep, -⟩ := Except.foldlM_cons_ok_iff.mp h
  exact validateInput_authorised hinput hprevout ht hstep

end Bip360Enforcer.Pqc
