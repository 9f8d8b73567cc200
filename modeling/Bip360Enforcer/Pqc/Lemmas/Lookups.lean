import Bip360Enforcer.Library.Except
import Bip360Enforcer.Pqc.Lemmas.Knowledge
import Bip360Enforcer.Pqc.Lookups
import Bip360Enforcer.Tapscript.Lemmas.Lookups

/-!
# Validation fails for lack of an output exactly where it looks one up that is unknown
-/

namespace Bip360Enforcer.Pqc

open Except (Avoids Stops)
open Tapscript (Missing not_missing_nil enforceOutpoints enforceOutpoints_subset enforceTransaction
  enforceTransaction_knows enforceTransaction_stops)

variable {C : Crypto} {clock : Clock} {timer : Timer}

/-! ## What looks up nothing -/

theorem avoids_mapError {ε α : Type} {x : Except ε α} {f : ε → SpendError} (hf : ∀ e, ¬ (f e).Lacks) :
    (x.mapError f).Avoids SpendError.Lacks := by
  have hany : x.Avoids fun _ => False := fun _ _ hf => hf
  exact hany.mapError fun e _ => hf e

theorem verifySites_know {ctx : TapscriptVerifyContext} (entries : List (SigCheckSite × Bytes)) :
    (entries.foldlM (verifySite C clock ctx) timer).Avoids SpendError.Lacks :=
  Avoids.foldlM (fun _ _ _ => avoids_mapError nofun) timer

theorem validateP2mrInputSpend_knows {tx : Transaction} {input : TxIn} {inputIndex : Nat}
    (hinput : tx.input[inputIndex]? = some input) (prevout : TxOut) (prevouts : Prevouts) :
    (validateP2mrInputSpend C clock tx inputIndex prevout prevouts timer).Avoids SpendError.Lacks := by
  unfold validateP2mrInputSpend
  rw [hinput]
  refine .ite (fun _ => .error nofun) fun _ => .ite (fun _ => .error nofun) fun _ => ?_
  refine (avoids_mapError nofun).bind fun _ _ => ?_
  split
  · refine .ite (fun _ => .error nofun) fun _ => .ite (fun _ => .error nofun) fun _ => ?_
    refine .ite (fun _ => .error nofun) fun _ => (avoids_mapError nofun).bind fun _ _ => ?_
    refine (avoids_mapError nofun).bind fun _ _ => ?_
    split
    · exact .error nofun
    · exact verifySites_know _
  · exact .error nofun

theorem validateP2mrOutputs_knows (tx : Transaction) :
    (validateP2mrOutputs tx).Avoids SpendError.Lacks := by
  unfold validateP2mrOutputs
  generalize tx.output = outputs
  induction outputs with
  | nil => exact .ok _
  | cons output outputs ih =>
      rw [List.forM_eq_forM, List.forM_cons]
      refine Avoids.bind (.ite (fun _ => ?_) fun _ => .ok _) fun _ _ => ih
      exact (avoids_mapError nofun).bind fun _ _ => .ok _

/-! ## Validation with all outputs known -/

theorem allPrevouts_eq_none_iff {tx : Transaction} {p : PrevoutMap} :
    allPrevouts tx p = none ↔ Missing p (tx.input.map TxIn.previousOutput) := by
  unfold allPrevouts
  generalize tx.input = inputs
  induction inputs with
  | nil => simp [Missing]
  | cons input inputs ih =>
      rw [List.mapM_cons, List.map_cons]
      cases hknown : p.lookup input.previousOutput with
      | none => exact ⟨fun _ => ⟨_, List.mem_cons_self, hknown⟩, fun _ => rfl⟩
      | some txout =>
          have hrest : Missing p (input.previousOutput :: inputs.map TxIn.previousOutput) ↔
              Missing p (inputs.map TxIn.previousOutput) := by
            simp [Missing, hknown]
          rw [hrest, ← ih]
          cases inputs.mapM fun input => p.lookup input.previousOutput with
          | none => exact ⟨fun _ => rfl, fun _ => rfl⟩
          | some txouts => exact ⟨nofun, nofun⟩

/-- The outputs that the inputs spend are known. -/
def Supplies (p : PrevoutMap) (tx : Transaction) : Prop :=
  ∀ input ∈ tx.input, ∃ txout, p.lookup input.previousOutput = some txout

theorem prevoutsForP2mrInput_eq_none {tx : Transaction} {p : PrevoutMap} {inputIndex : Nat}
    {prevout : TxOut} {sighashType : TapSighashType} :
    prevoutsForP2mrInput tx inputIndex prevout p sighashType = none ↔
      sighashType.anyoneCanPay = false ∧ tx.input.length ≠ 1 ∧
        Missing p (tx.input.map TxIn.previousOutput) := by
  unfold prevoutsForP2mrInput
  split_ifs with hacp hone
  · simp [hacp]
  · simp [hone]
  · rw [Option.map_eq_none_iff, allPrevouts_eq_none_iff]
    simp [hacp, hone]

section

variable {view view' : SpendView} {tx : Transaction} {input : TxIn} {inputIndex : Nat}

theorem validateInput_knows (hall : Supplies view.availablePrevouts tx)
    (hinput : tx.input[inputIndex]? = some input) :
    (validateInput C clock tx view timer (input, inputIndex)).Avoids SpendError.Lacks := by
  obtain ⟨prevout, hprevout⟩ := hall input (List.mem_of_getElem? hinput)
  simp only [validateInput, hprevout]
  refine .ite (fun _ => .ok _) fun _ => .ite (fun _ => .error ?_) fun _ => ?_
  · intro hlacks
    cases hlacks
  cases hp : prevoutsForP2mrInput tx inputIndex prevout view.availablePrevouts
      (parseSighashType (input.witness.head?.getD [])) with
  | none =>
      obtain ⟨-, -, outpoint, hin, hnone⟩ := prevoutsForP2mrInput_eq_none.mp hp
      obtain ⟨other, hother, rfl⟩ := List.mem_map.mp hin
      obtain ⟨txout, htxout⟩ := hall other hother
      rw [hnone] at htxout
      cases htxout
  | some prevouts => exact validateP2mrInputSpend_knows hinput prevout prevouts

theorem validateTransaction_knows (hall : Supplies view.availablePrevouts tx) (height : Nat)
    (activation : Bip360Activation) : (validateTransaction C clock height activation tx view timer).Avoids
      PqcValidationError.Lacks := by
  refine .ite (fun _ => .ok _) fun _ => ?_
  have hspends : (validateTransactionSpends C clock tx view timer).Avoids SpendError.Lacks := by
    refine (validateP2mrOutputs_knows tx).bind fun _ _ => Avoids.foldlM ?_ timer
    rintro ⟨input, inputIndex⟩ hentry timer
    exact validateInput_knows hall (List.mem_zipIdx_iff_getElem?.mp hentry)
  refine (hspends.mapError ?_).bind fun _ _ => Avoids.bind ?_ fun _ _ => .ok _
  · intro e he hlacks
    cases hlacks with
    | transaction _ hlacks => exact he hlacks
  · refine (enforceTransaction_knows hall).mapError ?_
    intro e he hlacks
    cases hlacks with
    | tapscript _ hlacks => exact he hlacks

/-! ## Validation with outputs unknown -/

variable (h : view.Learns view')

include h

/-- An input whose output is gone has not been spent before in the block. -/
theorem validateInput_stops (hfresh : view.wasP2mr input.previousOutput = true →
      ∃ txout, view.availablePrevouts.lookup input.previousOutput = some txout) :
    Stops SpendError.Lacks
      (Missing view.availablePrevouts (inputOutpoints tx view'.availablePrevouts input)) Eq
      (validateInput C clock tx view timer (input, inputIndex))
      (validateInput C clock tx view' timer (input, inputIndex)) := by
  simp only [validateInput, inputOutpoints]
  cases hknown : view.availablePrevouts.lookup input.previousOutput with
  | none =>
      have hwas : view.wasP2mr input.previousOutput = false := by
        by_contra hwas
        obtain ⟨txout, htxout⟩ := hfresh (by simpa using hwas)
        rw [hknown] at htxout
        cases htxout
      have hwas' : view'.wasP2mr input.previousOutput = false := by
        rw [← hwas, SpendView.wasP2mr, h.chain, h.spent, SpendView.wasP2mr]
      cases hlearned : view'.availablePrevouts.lookup input.previousOutput with
      | none => exact .of_eq not_missing_nil (by simp [hwas, hwas'])
      | some txout =>
          have hplain : ¬ isP2mr txout := h.available.plain _ _ hknown hlearned
          have hnone : ¬ Missing view.availablePrevouts [] := not_missing_nil
          simpa [hplain, hwas] using .of_eq hnone rfl
  | some prevout =>
      rw [h.available.known _ _ hknown]
      dsimp only
      split
      · exact .of_eq not_missing_nil rfl
      · split
        · exact .of_eq not_missing_nil rfl
        · cases hp : prevoutsForP2mrInput tx inputIndex prevout view.availablePrevouts
              (parseSighashType (input.witness.head?.getD [])) with
          | none =>
              obtain ⟨hacp, hone, hmissing⟩ := prevoutsForP2mrInput_eq_none.mp hp
              simp only [hacp, Bool.false_eq_true, if_false, if_neg hone]
              exact .lacks hmissing (.unverifiableSpend inputIndex)
          | some prevouts =>
              rw [prevoutsForP2mrInput_known h.available.known hp]
              refine .of_eq ?_ rfl
              split
              · exact not_missing_nil
              · rename_i hacp
                split
                · exact not_missing_nil
                · rename_i hone
                  intro hmissing
                  rw [prevoutsForP2mrInput_eq_none.mpr ⟨by simpa using hacp, hone, hmissing⟩] at hp
                  cases hp

/-- No input spends what was spent before in the block. -/
def SpendView.Fresh (view : SpendView) (tx : Transaction) : Prop :=
  ∀ input ∈ tx.input, view.wasP2mr input.previousOutput = true →
    ∃ txout, view.availablePrevouts.lookup input.previousOutput = some txout

theorem validateTransactionSpends_stops (hfresh : view.Fresh tx) :
    Stops SpendError.Lacks (Missing view.availablePrevouts (spendOutpoints C clock tx view' timer)) Eq
      (validateTransactionSpends C clock tx view timer)
      (validateTransactionSpends C clock tx view' timer) := by
  unfold validateTransactionSpends spendOutpoints
  cases validateP2mrOutputs tx with
  | error e => exact .of_agree not_missing_nil (.error e)
  | ok _ =>
      let S : List (TxIn × Nat) → Timer → Timer → Prop := fun rest t t' =>
        (∀ entry ∈ rest, entry.1 ∈ tx.input) ∧ t = t'
      have hstart : S tx.input.zipIdx timer timer :=
        ⟨fun _ hentry => List.mem_of_getElem? (List.mem_zipIdx_iff_getElem?.mp hentry), rfl⟩
      refine Stops.mono (Stops.foldlM hstart ?_) fun _ _ hst => hst.2
      rintro ⟨input, inputIndex⟩ rest timer _ ⟨hinputs, rfl⟩
      refine (validateInput_stops h (hfresh input (hinputs _ List.mem_cons_self))).mono ?_
      rintro t _ rfl
      exact ⟨fun entry hentry => hinputs entry (List.mem_cons_of_mem _ hentry), rfl⟩

theorem validateTransaction_stops (hfresh : view.Fresh tx) {height : Nat}
    {activation : Bip360Activation} (hactive : activation.isActive height = true) :
    Stops PqcValidationError.Lacks
      (Missing view.availablePrevouts (transactionOutpoints C clock tx view' timer)) Eq
      (validateTransaction C clock height activation tx view timer)
      (validateTransaction C clock height activation tx view' timer) := by
  have hspends : Stops PqcValidationError.Lacks
      (Missing view.availablePrevouts (spendOutpoints C clock tx view' timer)) Eq
      ((validateTransactionSpends C clock tx view timer).mapError (.transaction (C.computeTxid tx)))
      ((validateTransactionSpends C clock tx view' timer).mapError (.transaction (C.computeTxid tx))) :=
    (validateTransactionSpends_stops h hfresh).mapError fun _ he => .transaction _ he
  have henforce : ∀ t t' : Timer, t = t' → Stops PqcValidationError.Lacks
      (Missing view.availablePrevouts (enforceOutpoints C tx view'.availablePrevouts)) Eq
      (do
        (enforceTransaction C tx view.availablePrevouts).mapError (.tapscript (C.computeTxid tx))
        .ok t)
      (do
        (enforceTransaction C tx view'.availablePrevouts).mapError (.tapscript (C.computeTxid tx))
        .ok t') := by
    rintro t _ rfl
    have hstops := enforceTransaction_stops (C := C) h.available.known tx
    exact (hstops.mapError fun _ he => .tapscript _ he).bind_left
  unfold validateTransaction
  rw [hactive, Bool.not_true, if_neg Bool.false_ne_true, if_neg Bool.false_ne_true]
  refine (hspends.bind fun t t' _ htt' => henforce t t' htt').congr ?_
  unfold transactionOutpoints
  cases hok : validateTransactionSpends C clock tx view' timer with
  | error e => simp [Missing]
  | ok t => simp [Missing, or_and_right, exists_or]

end

/-! ## Only outputs that the transaction spends -/

theorem inputOutpoints_subset (tx : Transaction) (available : PrevoutMap) (input : TxIn) :
    inputOutpoints tx available input ⊆ tx.input.map TxIn.previousOutput := by
  unfold inputOutpoints
  split
  · exact List.nil_subset _
  · split_ifs
    · exact List.nil_subset _
    · exact List.nil_subset _
    · exact List.nil_subset _
    · exact List.nil_subset _
    · exact List.Subset.refl _

theorem transactionOutpoints_subset (tx : Transaction) (view : SpendView) (timer : Timer) :
    transactionOutpoints C clock tx view timer ⊆ tx.input.map TxIn.previousOutput := by
  unfold transactionOutpoints spendOutpoints
  refine List.append_subset.mpr ⟨?_, ?_⟩
  · split
    · exact List.nil_subset _
    · intro op hop
      obtain ⟨_, entry, -, hop⟩ := Except.mem_trace hop
      exact inputOutpoints_subset tx _ entry.1 hop
  · split
    · exact List.nil_subset _
    · exact enforceOutpoints_subset

end Bip360Enforcer.Pqc
