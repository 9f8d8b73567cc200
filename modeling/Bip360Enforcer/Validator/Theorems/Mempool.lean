import Bip360Enforcer.Tapscript.Theorems.Witnesses
import Bip360Enforcer.Validator.Theorems.DryRun

/-!
# Mempool admission and the rules of the next block
-/

namespace Bip360Enforcer.Validator

open Except (Agree bind_eq_ok_iff mapError_eq_ok_iff)
open Pqc (Bip360Activation Clock validateMempoolTransaction validateP2mrOutputs validateTransaction)
open Program (wp)
open Tapscript (bareCat bareCat_fails enforceInput enforceTransaction enforceTransaction_agrees)

variable {C : Crypto} {validator : Validator} {tx : Transaction}

/-- At this height, the transaction passes the checks that need no P2MR output. -/
structure PassesScripts (C : Crypto) (height : Nat) (activation : Bip360Activation) (tx : Transaction)
    (prevouts : PrevoutMap) : Prop where
  outputs : activation.isActive height = true → validateP2mrOutputs tx = .ok ()
  leaves : activation.isActive height = true → enforceTransaction C tx prevouts = .ok ()

/-! ## Admission -/

theorem validateTx_spec {handler : BlockHandler} {dbs : Dbs} {tip : BlockHash} {tipHeight : Nat}
    {fault : ValidateTransactionError → Prop} (hfault : fault (fromDb .io))
    (htip : dbs.currentChainTip = some tip) (hheight : dbs.height.lookup tip = some tipHeight) :
    Spec (handler.validateTx C tx) dbs
      (fun admitted _ => admitted =
        (validateMempoolTransaction C (handler.clock []) tx tipHeight handler.activation).isOk)
      (fun _ _ => False) fault := by
  refine Spec.bind (Spec.access hfault (Spec.bind (Spec.read hfault ?_)))
  rw [htip]
  refine Spec.bind (Spec.get hfault ?_ fun hnone => ?_)
  · intro tipHeight' hheight'
    obtain rfl : tipHeight = tipHeight' := Option.some.inj (hheight.symm.trans hheight')
    cases hresult : validateMempoolTransaction C (handler.clock []) tx tipHeight handler.activation with
    | ok _ => exact Spec.pure rfl
    | error _ => exact Spec.pure rfl
  · rw [hheight] at hnone
    cases hnone

/-- A transaction is admitted where the rules at the height of the tip let it pass. -/
theorem acceptTx_wp {s : Store} {tip : BlockHash} {tipHeight : Nat}
    (htip : s.dbs.currentChainTip = some tip) (hheight : s.dbs.height.lookup tip = some tipHeight) :
    wp (validator.acceptTx C tx)
      (fun action _ => action = .accept ↔ (validateMempoolTransaction C (validator.clock []) tx tipHeight
        ⟨validator.activationHeight⟩).isOk = true)
      (fun _ _ => ∃ n sent, s.faults n sent = true) s := by
  refine wp_transaction (fun hfails => ⟨0, _, hfails⟩) ?_
  rw [Program.wp_bind]
  have hspec : Spec ((validator.handler ∅).validateTx C tx) s.next.begin.dbs _ (fun _ _ => False)
      fun _ => True := validateTx_spec trivial htip hheight
  refine (hspec s.next.begin rfl).mono ?_ ?_
  · rintro admitted t ⟨-, hadmitted⟩
    have hadmitted : admitted = (validateMempoolTransaction C (validator.clock []) tx tipHeight
      ⟨validator.activationHeight⟩).isOk := hadmitted
    rw [← hadmitted]
    cases admitted with
    | true => exact ⟨fun _ => rfl, fun _ => rfl⟩
    | false => exact ⟨fun h => (by cases h), fun h => (by cases h)⟩
  · rintro e t ⟨-, hfalse | ⟨⟨n, hn⟩, -⟩⟩
    · exact hfalse.elim
    · exact ⟨n + 1, _, hn⟩

/-- A transaction is judged with none of the outputs that it spends. -/
theorem validateMempoolTransaction_ok {clock : Clock} {height : Nat} {activation : Bip360Activation}
    (hactive : activation.isActive height = true)
    (h : validateMempoolTransaction C clock tx height activation = .ok ()) :
    validateP2mrOutputs tx = .ok () ∧ enforceTransaction C tx ∅ = .ok () := by
  simp only [validateMempoolTransaction, hactive, Bool.not_true, Bool.false_eq_true, if_false] at h
  obtain ⟨timer, h, -⟩ := bind_eq_ok_iff.mp h
  simp only [validateTransaction, hactive, Bool.not_true, Bool.false_eq_true, if_false] at h
  obtain ⟨_, hspends, h⟩ := bind_eq_ok_iff.mp h
  obtain ⟨_, henforce, -⟩ := bind_eq_ok_iff.mp h
  obtain ⟨_, houtputs, -⟩ := bind_eq_ok_iff.mp (mapError_eq_ok_iff.mp hspends)
  exact ⟨houtputs, mapError_eq_ok_iff.mp henforce⟩

theorem enforceTransaction_known {prevouts : PrevoutMap} (h : enforceTransaction C tx ∅ = .ok ()) :
    enforceTransaction C tx prevouts = .ok () := by
  have hagree : Agree Tapscript.TapscriptError.Lacks (fun _ => False) Eq
      (enforceTransaction C tx ∅) (enforceTransaction C tx prevouts) :=
    enforceTransaction_agrees (.empty prevouts) tx
  exact hagree.eq_ok h fun _ _ => id

/-! ## A transaction that no active height lets pass -/

/-- Its only input reveals a leaf of OP_CAT alone, and leaves the stack empty. -/
def emptyCat (key : Bytes) : Transaction where
  version := 2
  lockTime := 3
  input := [⟨⟨sampleHash 9, 0⟩, [], 0, [[0xfe], 0xc0 :: key]⟩]
  output := []

theorem emptyCat_fails {key : Bytes} (hkey : C.xonlyFromSlice key = true) (prevouts : PrevoutMap) :
    enforceTransaction C (emptyCat key) prevouts =
      .error (.interp 0 (.stackUnderflow "OP_CAT")) := by
  have hinput : ∀ deferred, enforceInput C (emptyCat key) prevouts deferred
      (⟨⟨sampleHash 9, 0⟩, [], 0, bareCat key⟩, 0) = _ := fun _ => bareCat_fails hkey rfl
  rw [enforceTransaction]
  simp only [emptyCat, List.zipIdx_cons, List.zipIdx_nil, List.foldlM_cons]
  exact congrArg (· >>= _) (congrArg (· >>= _) (hinput []))

/-! ## Admission and the next block -/

/-- What the mempool admits passes in the next block, unless that is the first block at which the
rules are in force. -/
theorem acceptTx_next_iff (hkey : ∃ key, C.xonlyFromSlice key = true) (validator : Validator)
    {dbs : Dbs} {tip : BlockHash} {tipHeight : Nat} (htip : dbs.currentChainTip = some tip)
    (hheight : dbs.height.lookup tip = some tipHeight) :
    (∀ (tx : Transaction) (s t : Store), s.dbs = dbs → validator.acceptTx C tx s = (.ok .accept, t) →
      ∀ prevouts, PassesScripts C (tipHeight + 1) ⟨validator.activationHeight⟩ tx prevouts) ↔
    tipHeight + 1 ≠ validator.activationHeight := by
  constructor
  · rintro hall hfirst
    obtain ⟨key, hkey⟩ := hkey
    have hinactive : (validateMempoolTransaction C (validator.clock []) (emptyCat key) tipHeight
        ⟨validator.activationHeight⟩).isOk = true := by
      have : ¬ validator.activationHeight ≤ tipHeight := by omega
      simp [validateMempoolTransaction, Bip360Activation.isActive, this, Except.isOk, Except.toBool]
    have hwp : wp (validator.acceptTx C (emptyCat key)) _ _ (freshStore dbs) := acceptTx_wp htip hheight
    cases hrun : validator.acceptTx C (emptyCat key) (freshStore dbs) with
    | mk outcome t =>
        cases outcome with
        | error e =>
            obtain ⟨n, sent, hfault⟩ := hwp.error hrun
            cases hfault
        | ok action =>
            obtain rfl := (hwp.ok hrun).mpr hinactive
            have hactive : (⟨validator.activationHeight⟩ : Bip360Activation).isActive (tipHeight + 1) =
                true := decide_eq_true hfirst.ge
            have hpass := (hall (emptyCat key) (freshStore dbs) t rfl hrun ∅).leaves hactive
            rw [emptyCat_fails hkey] at hpass
            cases hpass
  · rintro hnext tx s t rfl hrun prevouts
    obtain ⟨_, haccepted⟩ := Except.isOk_iff.mp (((acceptTx_wp htip hheight).ok hrun).mp rfl)
    have hactive : (⟨validator.activationHeight⟩ : Bip360Activation).isActive (tipHeight + 1) = true →
        (⟨validator.activationHeight⟩ : Bip360Activation).isActive tipHeight = true := by
      intro h
      have hle : validator.activationHeight ≤ tipHeight + 1 := of_decide_eq_true h
      exact decide_eq_true (show validator.activationHeight ≤ tipHeight by omega)
    refine ⟨fun h => ?_, fun h => ?_⟩
    · exact (validateMempoolTransaction_ok (hactive h) haccepted).1
    · exact enforceTransaction_known (validateMempoolTransaction_ok (hactive h) haccepted).2

/-- The validator of a node whose rules are in force from `activationHeight` on. -/
def activatedAt (activationHeight : Nat) : Validator := { sampleValidator with activationHeight }

theorem acceptTx_next_genesis :
    ((activatedAt 0).acceptTx .sample spendTx (freshStore genesisStore.dbs)).1 = .ok .accept ∧
      PassesScripts .sample 1 ⟨0⟩ spendTx fundedUtxos := by
  have hadmitted : (activatedAt 0).acceptTx .sample spendTx (freshStore genesisStore.dbs) =
      (.ok .accept, ((activatedAt 0).acceptTx .sample spendTx (freshStore genesisStore.dbs)).2) :=
    Program.eq_of_fst (by decide)
  have hkey : ∃ key, Crypto.sample.xonlyFromSlice key = true := ⟨List.replicate 32 0, by decide⟩
  have hnext := (acceptTx_next_iff hkey (activatedAt 0)
    (show genesisStore.dbs.currentChainTip = some genesisHash by decide)
    (show genesisStore.dbs.height.lookup genesisHash = some 0 by decide)).mpr (by decide)
  exact ⟨by decide, hnext spendTx (freshStore genesisStore.dbs) _ rfl hadmitted fundedUtxos⟩

/-- The first block at an active height, with a transaction that the mempool has admitted. -/
def firstActiveBlock : Block :=
  ⟨sampleHeader genesisHash 1, [sampleCoinbase 1 [], emptyCat (List.replicate 32 0)]⟩

theorem emptyCat_admitted :
    ((activatedAt 1).acceptTx .sample (emptyCat (List.replicate 32 0)) (freshStore genesisStore.dbs)).1 =
      .ok .accept ∧
    ¬ PassesScripts .sample 1 ⟨1⟩ (emptyCat (List.replicate 32 0)) ∅ ∧
    ((activatedAt 1).connectBlock .sample firstActiveBlock (freshStore genesisStore.dbs)).1 =
      .ok .reject := by
  refine ⟨by decide, fun hpass => ?_, by decide⟩
  have hleaves := hpass.leaves (by decide)
  rw [emptyCat_fails (by decide)] at hleaves
  cases hleaves

end Bip360Enforcer.Validator
