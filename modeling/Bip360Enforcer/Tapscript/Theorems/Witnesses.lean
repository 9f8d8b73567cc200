import Bip360Enforcer.Tapscript.Lemmas.Witnesses
import Bip360Enforcer.Tapscript.Theorems.Revealed

/-!
# The witness of one input and the verdict on the transaction
-/

namespace Bip360Enforcer.Tapscript

open Except (bind_eq_ok_iff foldlM_append_ok_iff foldlM_commute foldlM_cons_ok_iff map_eq_ok_iff
  mapError_eq_ok_iff)

variable {C : Crypto} {ctx : LeafContext} {tx : Transaction} {prevouts : PrevoutMap} {inputIndex : Nat}
  {witness : List Bytes} {deferred : List DeferredCheck}

/-! ## What is queued before does not matter -/

theorem step_queue {m : Machine} {item : Item} :
    step C ctx ⟨m.stack, deferred ++ m.deferred⟩ item =
      (step C ctx m item).map fun m => ⟨m.stack, deferred ++ m.deferred⟩ := by
  simp only [step]
  cases execItem C ctx m.stack item with
  | error e => rfl
  | ok result => exact congrArg (fun queue => Except.ok (Machine.mk result.1 queue)) (List.append_assoc ..)

theorem executeLeaf_queue {initialStack : List Bytes} {queue : List DeferredCheck} :
    executeLeaf C ctx initialStack (deferred ++ queue) =
      (executeLeaf C ctx initialStack queue).map (deferred ++ ·) := by
  simp only [executeLeaf]
  cases Stack.new initialStack with
  | error e => rfl
  | ok stack =>
      have hrun : (instructions ctx.leaf).foldlM (step C ctx) ⟨stack, deferred ++ queue⟩ = _ :=
        foldlM_commute (g := fun m : Machine => ⟨m.stack, deferred ++ m.deferred⟩)
          (fun _ _ => step_queue) _ ⟨stack, queue⟩
      simp only [bind, Except.bind, hrun]
      cases (instructions ctx.leaf).foldlM (step C ctx) ⟨stack, queue⟩ with
      | error e => rfl
      | ok m =>
          simp only [Except.map]
          cases checkFinalStack m.stack with
          | error e => rfl
          | ok _ => rfl

theorem enforceInput_queue (deferred queue : List DeferredCheck) (entry : TxIn × Nat) :
    enforceInput C tx prevouts (deferred ++ queue) entry =
      (enforceInput C tx prevouts queue entry).map (deferred ++ ·) := by
  obtain ⟨input, inputIndex⟩ := entry
  simp only [enforceInput]
  cases detectEnforcedLeaf C input.witness with
  | none => rfl
  | some enforced =>
      simp only [executeLeaf_queue]
      cases executeLeaf C (leafContext tx prevouts inputIndex input enforced) enforced.stack queue with
      | error e => rfl
      | ok after => rfl

/-- The pass over `entries` accepts with a queue `deferred` before it just where it does without. -/
theorem enforceInputs_queue {entries : List (TxIn × Nat)} {after : List DeferredCheck} :
    entries.foldlM (enforceInput C tx prevouts) deferred = .ok after ↔
      ∃ queue, entries.foldlM (enforceInput C tx prevouts) [] = .ok queue ∧ deferred ++ queue = after := by
  have hcommute : entries.foldlM (enforceInput C tx prevouts) (deferred ++ []) = _ :=
    foldlM_commute (enforceInput_queue deferred) entries []
  rw [List.append_nil] at hcommute
  rw [hcommute, map_eq_ok_iff]

/-! ## Fewer checks ask for less -/

/-- `outMap` asks no more of any output than `outMap'` does. -/
def OutMap.Le (outMap outMap' : OutMap) : Prop :=
  ∀ idx amount, outMap.lookup idx = some amount →
    ∃ amount', outMap'.lookup idx = some amount' ∧ amount ≤ amount'

namespace OutMap.Le

variable {a b c a' b' : OutMap} {idx : Nat} {amount : UInt64} {check : DeferredCheck}

theorem refl : OutMap.Le a a := fun _ amount h => ⟨amount, h, UInt64.le_refl amount⟩

theorem trans (hab : a.Le b) (hbc : b.Le c) : a.Le c := by
  intro idx amount h
  obtain ⟨mid, hmid, hle⟩ := hab idx amount h
  obtain ⟨last, hlast, hle'⟩ := hbc idx mid hmid
  exact ⟨last, hlast, UInt64.le_trans hle hle'⟩

theorem amount_le (h : a.Le b) (idx : Nat) : (a.lookup idx).getD 0 ≤ (b.lookup idx).getD 0 := by
  cases hlookup : a.lookup idx with
  | none => exact UInt64.le_iff_toNat_le.mpr (Nat.zero_le _)
  | some amount =>
      obtain ⟨amount', hlookup', hle⟩ := h idx amount hlookup
      rw [hlookup']
      exact hle

end OutMap.Le

theorem checkedAdd_mono {x y amount total : UInt64} (h : x ≤ y) (htotal : checkedAdd y amount = some total) :
    ∃ less, checkedAdd x amount = some less ∧ less ≤ total := by
  unfold checkedAdd at htotal ⊢
  split at htotal
  · rename_i hlt
    obtain rfl := Option.some.inj htotal
    have hle := UInt64.le_iff_toNat_le.mp h
    have hlt' : x.toNat + amount.toNat < 2 ^ 64 := by omega
    refine ⟨x + amount, if_pos hlt', UInt64.le_iff_toNat_le.mpr ?_⟩
    rw [UInt64.toNat_add, UInt64.toNat_add, Nat.mod_eq_of_lt hlt, Nat.mod_eq_of_lt hlt']
    omega
  · cases htotal

theorem le_checkedAdd {x amount total : UInt64} (h : checkedAdd x amount = some total) : x ≤ total := by
  unfold checkedAdd at h
  split at h
  · rename_i hlt
    obtain rfl := Option.some.inj h
    rw [UInt64.le_iff_toNat_le, UInt64.toNat_add, Nat.mod_eq_of_lt hlt]
    exact Nat.le_add_right _ _
  · cases h

theorem addAmount_ok_iff {outMap after : OutMap} {idx : Nat} {amount : UInt64} :
    addAmount outMap idx amount = .ok after ↔
      ∃ total, checkedAdd ((outMap.lookup idx).getD 0) amount = some total ∧ outMap.insert idx total = after := by
  unfold addAmount
  cases checkedAdd ((outMap.lookup idx).getD 0) amount with
  | none => simp
  | some total => simp

theorem addAmount_mono {a b b' : OutMap} {idx : Nat} {amount : UInt64} (hle : a.Le b)
    (h : addAmount b idx amount = .ok b') : ∃ a', addAmount a idx amount = .ok a' ∧ a'.Le b' := by
  obtain ⟨total, htotal, rfl⟩ := addAmount_ok_iff.mp h
  obtain ⟨less, hless, hmono⟩ := checkedAdd_mono (hle.amount_le idx) htotal
  refine ⟨_, addAmount_ok_iff.mpr ⟨less, hless, rfl⟩, fun k value hvalue => ?_⟩
  by_cases hk : k = idx
  · subst hk
    rw [AList.lookup_insert] at hvalue ⊢
    obtain rfl := Option.some.inj hvalue
    exact ⟨total, rfl, hmono⟩
  · rw [AList.lookup_insert_ne hk] at hvalue ⊢
    exact hle k value hvalue

theorem addAmount_le {a a' : OutMap} {idx : Nat} {amount : UInt64} (h : addAmount a idx amount = .ok a') :
    a.Le a' := by
  obtain ⟨total, htotal, rfl⟩ := addAmount_ok_iff.mp h
  intro k value hvalue
  by_cases hk : k = idx
  · subst hk
    rw [hvalue] at htotal
    exact ⟨total, AList.lookup_insert .., le_checkedAdd htotal⟩
  · exact ⟨value, by rw [AList.lookup_insert_ne hk, hvalue], UInt64.le_refl value⟩

theorem collectCheck_mono {a b b' : OutMap} {check : DeferredCheck} (hle : a.Le b)
    (h : collectCheck b check = .ok b') : ∃ a', collectCheck a check = .ok a' ∧ a'.Le b' := by
  cases check with
  | trigger inputAmount revaultAmount triggerIdx revaultIdx =>
      simp only [collectCheck] at h ⊢
      cases hcarry : checkedSub inputAmount revaultAmount with
      | none =>
          rw [hcarry] at h
          cases h
      | some carry =>
          rw [hcarry] at h
          obtain ⟨mid, hmid, h⟩ := bind_eq_ok_iff.mp h
          obtain ⟨less, hless, hlessLe⟩ := addAmount_mono hle hmid
          simp only [hless, bind, Except.bind]
          split at h
          · rename_i hrevault
            rw [if_pos hrevault]
            exact addAmount_mono hlessLe h
          · rename_i hrevault
            rw [if_neg hrevault]
            obtain rfl := Except.ok.inj h
            exact ⟨less, rfl, hlessLe⟩
  | recovery inputAmount voutIdx => exact addAmount_mono hle h

theorem collectCheck_le {a a' : OutMap} {check : DeferredCheck} (h : collectCheck a check = .ok a') :
    a.Le a' := by
  cases check with
  | trigger inputAmount revaultAmount triggerIdx revaultIdx =>
      simp only [collectCheck] at h
      split at h
      · cases h
      · obtain ⟨mid, hmid, h⟩ := bind_eq_ok_iff.mp h
        split at h
        · exact (addAmount_le hmid).trans (addAmount_le h)
        · obtain rfl := Except.ok.inj h
          exact addAmount_le hmid
  | recovery inputAmount voutIdx => exact addAmount_le h

theorem collectChecks_sublist {checks more : List DeferredCheck} (hsub : checks.Sublist more)
    {a b b' : OutMap} (hle : a.Le b) (h : more.foldlM collectCheck b = .ok b') :
    ∃ a', checks.foldlM collectCheck a = .ok a' ∧ a'.Le b' := by
  induction hsub generalizing a b with
  | slnil =>
      obtain rfl := Except.ok.inj h
      exact ⟨a, rfl, hle⟩
  | cons check _ ih =>
      obtain ⟨mid, hmid, hrest⟩ := foldlM_cons_ok_iff.mp h
      exact ih (hle.trans (collectCheck_le hmid)) hrest
  | cons_cons check _ ih =>
      obtain ⟨mid, hmid, hrest⟩ := foldlM_cons_ok_iff.mp h
      obtain ⟨less, hless, hlessLe⟩ := collectCheck_mono hle hmid
      obtain ⟨a', ha', hle'⟩ := ih hlessLe hrest
      exact ⟨a', foldlM_cons_ok_iff.mpr ⟨less, hless, ha'⟩, hle'⟩

/-- Outputs that cover the checks `more` cover every selection of them. -/
theorem evaluateDeferredChecks_sublist {checks more : List DeferredCheck} (hsub : checks.Sublist more)
    (h : evaluateDeferredChecks more tx = .ok ()) : evaluateDeferredChecks checks tx = .ok () := by
  cases checks with
  | nil => rfl
  | cons check checks =>
      cases more with
      | nil => cases hsub
      | cons check' more =>
          obtain ⟨outMap, hcollect, houtputs⟩ := bind_eq_ok_iff.mp h
          obtain ⟨less, hless, hle⟩ := collectChecks_sublist hsub OutMap.Le.refl hcollect
          refine bind_eq_ok_iff.mpr ⟨less, hless, Except.forM_eq_ok_iff.mpr fun entry hentry => ?_⟩
          obtain ⟨idx, amount⟩ := entry
          obtain ⟨amount', hamount', hamountLe⟩ := hle idx amount (AList.mem_lookup_iff.mpr hentry)
          have houtput := Except.forM_eq_ok_iff.mp houtputs ⟨idx, amount'⟩ (AList.mem_lookup_iff.mp hamount')
          cases hout : tx.output[idx]? with
          | none =>
              simp only [checkOutput, hout] at houtput
              cases houtput
          | some out =>
              simp only [checkOutput, hout] at houtput ⊢
              split at houtput
              · cases houtput
              · rename_i hcovered
                exact if_neg fun hlt => hcovered (UInt64.lt_of_lt_of_le hlt hamountLe)

/-! ## The verdict -/

theorem enforceTransaction_setWitness_iff {front back : List TxIn} {input : TxIn}
    (hinput : tx.input = front ++ input :: back) :
    enforceTransaction C (tx.setWitness front.length witness) prevouts = .ok () ↔
      ∃ q q' q'', front.zipIdx.foldlM (enforceInput C tx prevouts) [] = .ok q ∧
        enforceInput C tx prevouts [] ({ input with witness }, front.length) = .ok q' ∧
        (back.zipIdx (front.length + 1)).foldlM (enforceInput C tx prevouts) [] = .ok q'' ∧
        evaluateDeferredChecks (q ++ (q' ++ q'')) tx = .ok () := by
  have hevaluate : ∀ deferred, evaluateDeferredChecks deferred (tx.setWitness front.length witness) =
      evaluateDeferredChecks deferred tx := fun _ => rfl
  simp only [enforceTransaction, Transaction.setWitness_input hinput, enforceInput_setWitness, hevaluate,
    bind_eq_ok_iff, mapError_eq_ok_iff, List.zipIdx_append, List.zipIdx_cons, Nat.zero_add]
  constructor
  · rintro ⟨deferred, hrun, hchecks⟩
    obtain ⟨q, hfront, hrun⟩ := foldlM_append_ok_iff.mp hrun
    obtain ⟨mid, hmid, hback⟩ := foldlM_cons_ok_iff.mp hrun
    have hown : enforceInput C tx prevouts (q ++ []) ({ input with witness }, front.length) = _ :=
      enforceInput_queue q [] _
    rw [List.append_nil, hmid] at hown
    obtain ⟨q', hq', rfl⟩ := map_eq_ok_iff.mp hown.symm
    obtain ⟨q'', hq'', rfl⟩ := enforceInputs_queue.mp hback
    exact ⟨q, q', q'', hfront, hq', hq'', by rwa [← List.append_assoc]⟩
  · rintro ⟨q, q', q'', hfront, hown, hback, hchecks⟩
    have hmid : enforceInput C tx prevouts (q ++ []) ({ input with witness }, front.length) = _ :=
      enforceInput_queue q [] _
    rw [List.append_nil, hown] at hmid
    have hrest := enforceInputs_queue.mpr ⟨q'', hback, List.append_assoc q q' q''⟩
    exact ⟨_, foldlM_append_ok_iff.mpr ⟨q, hfront, foldlM_cons_ok_iff.mpr ⟨q ++ q', hmid, hrest⟩⟩, hchecks⟩

theorem othersPass_iff {front back : List TxIn} {input : TxIn} (hinput : tx.input = front ++ input :: back) :
    OthersPass C tx prevouts front.length ↔
      ∃ q q', front.zipIdx.foldlM (enforceInput C tx prevouts) [] = .ok q ∧
        (back.zipIdx (front.length + 1)).foldlM (enforceInput C tx prevouts) [] = .ok q' ∧
        evaluateDeferredChecks (q ++ q') tx = .ok () := by
  have herase : tx.input.zipIdx.eraseIdx front.length = front.zipIdx ++ back.zipIdx (front.length + 1) := by
    have hlen : front.zipIdx.length = front.length := List.length_zipIdx
    rw [hinput, List.zipIdx_append, List.zipIdx_cons, Nat.zero_add,
      List.eraseIdx_append_of_length_le hlen.le, hlen, Nat.sub_self]
    rfl
  rw [OthersPass, herase]
  constructor
  · rintro ⟨deferred, hrun, hchecks⟩
    obtain ⟨q, hq, hrest⟩ := foldlM_append_ok_iff.mp hrun
    obtain ⟨q', hq', rfl⟩ := enforceInputs_queue.mp hrest
    exact ⟨q, q', hq, hq', hchecks⟩
  · rintro ⟨q, q', hq, hq', hchecks⟩
    exact ⟨q ++ q', foldlM_append_ok_iff.mpr ⟨q, hq, enforceInputs_queue.mpr ⟨q', hq', rfl⟩⟩, hchecks⟩

/-- Where the transaction is accepted, it is so for the other inputs alone. -/
theorem othersPass_of_accepted {front back : List TxIn} {input : TxIn}
    (hinput : tx.input = front ++ input :: back)
    (h : enforceTransaction C (tx.setWitness front.length witness) prevouts = .ok ()) :
    OthersPass C tx prevouts front.length := by
  obtain ⟨q, q', q'', hfront, -, hback, hchecks⟩ := (enforceTransaction_setWitness_iff hinput).mp h
  refine (othersPass_iff hinput).mpr ⟨q, q'', hfront, hback, evaluateDeferredChecks_sublist ?_ hchecks⟩
  exact (List.sublist_append_right q' q'').append_left q

/-- With a witness that reveals no enforced leaf, the verdict is that on the other inputs. -/
theorem accepted_iff_othersPass {front back : List TxIn} {input : TxIn}
    (hinput : tx.input = front ++ input :: back) (hnone : detectEnforcedLeaf C witness = none) :
    enforceTransaction C (tx.setWitness front.length witness) prevouts = .ok () ↔
      OthersPass C tx prevouts front.length := by
  constructor
  · exact othersPass_of_accepted hinput
  · intro h
    obtain ⟨q, q', hfront, hback, hchecks⟩ := (othersPass_iff hinput).mp h
    refine (enforceTransaction_setWitness_iff hinput).mpr ⟨q, [], q', hfront, ?_, hback, hchecks⟩
    simp only [enforceInput, hnone]

/-! ## A witness that is always rejected -/

/-- The leaf is OP_CAT alone, with nothing on the stack. -/
def bareCat (key : Bytes) : List Bytes := [[0xfe], 0xc0 :: key]

theorem bareCat_fails {key : Bytes} (hkey : C.xonlyFromSlice key = true) {input : TxIn}
    (hwitness : input.witness = bareCat key) :
    enforceInput C tx prevouts deferred (input, inputIndex) =
      .error (.interp inputIndex (.stackUnderflow "OP_CAT")) := by
  have hlen : key.length = 32 := of_decide_eq_true (Bool.and_eq_true_iff.mp hkey).1
  have hcontrol : TapscriptControl C (0xc0 :: key) := by
    refine ⟨⟨0xc0, key, rfl, by decide⟩, ?_, ⟨0, by decide, by simp [hlen]⟩⟩
    show C.xonlyFromSlice (key.take 32) = true
    rw [List.take_of_length_le hlen.le]
    exact hkey
  have hreveals : RevealsLeaf C [0xfe] [] (bareCat key) := .plain hcontrol
  obtain ⟨block, annex, hdetect⟩ := hreveals.detect
  rw [if_pos (by decide)] at hdetect
  simp only [enforceInput, hwitness, hdetect]
  rfl

/-! ## The witness of one input -/

/-- Whatever the input spends: no witness at it changes the verdict just where the other inputs are
rejected without it, and a witness that reveals no enforced leaf leaves the verdict to the others. -/
theorem enforceTransaction_setWitness (hkey : ∃ key, C.xonlyFromSlice key = true)
    (hindex : inputIndex < tx.input.length) :
    ((∀ witness, enforceTransaction C (tx.setWitness inputIndex witness) prevouts = .ok () ↔
        enforceTransaction C tx prevouts = .ok ()) ↔ ¬ OthersPass C tx prevouts inputIndex) ∧
    ∀ witness, detectEnforcedLeaf C witness = none →
      (enforceTransaction C (tx.setWitness inputIndex witness) prevouts = .ok () ↔
        OthersPass C tx prevouts inputIndex) := by
  obtain ⟨front, input, back, hinput, rfl⟩ : ∃ front input back, tx.input = front ++ input :: back ∧
      front.length = inputIndex :=
    ⟨tx.input.take inputIndex, tx.input[inputIndex], tx.input.drop (inputIndex + 1),
      by rw [List.getElem_cons_drop, List.take_append_drop], List.length_take_of_le hindex.le⟩
  refine ⟨⟨fun hsame hothers => ?_, fun hothers witness => ?_⟩,
    fun witness hnone => accepted_iff_othersPass hinput hnone⟩
  · obtain ⟨key, hkey⟩ := hkey
    have hempty : enforceTransaction C (tx.setWitness front.length []) prevouts = .ok () :=
      (accepted_iff_othersPass hinput rfl).mpr hothers
    have hcat := (hsame (bareCat key)).mpr ((hsame []).mp hempty)
    obtain ⟨_, _, _, -, hfails, -⟩ := (enforceTransaction_setWitness_iff hinput).mp hcat
    rw [bareCat_fails hkey rfl] at hfails
    cases hfails
  · have hself : tx.setWitness front.length input.witness = tx := by
      obtain ⟨version, lockTime, inputs, output⟩ := tx
      exact congrArg (Transaction.mk version lockTime · output)
        ((Transaction.setWitness_input hinput).trans hinput.symm)
    constructor
    · intro h
      exact absurd (othersPass_of_accepted hinput h) hothers
    · intro h
      rw [← hself] at h
      exact absurd (othersPass_of_accepted hinput h) hothers

/-! An output of witness version 3, which Core lets anybody spend with any witness. -/

def version3Output : TxOut where
  value := 1000
  scriptPubkey := 0x53 :: 0x20 :: List.replicate 32 5

def version3Prevouts : PrevoutMap := AList.insert ⟨[1], 0⟩ version3Output ∅

def version3Spend : Transaction where
  version := 2
  lockTime := 0
  input := [⟨⟨[1], 0⟩, [], 0, bareCat (List.replicate 32 0)⟩]
  output := []

/-- The same spend, beside a second input which is rejected whatever the first one carries. -/
def version3Pair : Transaction :=
  { version3Spend with input := version3Spend.input ++ [⟨⟨[2], 0⟩, [], 0, bareCat (List.replicate 32 0)⟩] }

theorem version3Spend_setWitness :
    OthersPass .sample version3Spend version3Prevouts 0 ∧
    (¬ ∀ witness, enforceTransaction .sample (version3Spend.setWitness 0 witness) version3Prevouts = .ok () ↔
      enforceTransaction .sample version3Spend version3Prevouts = .ok ()) ∧
    enforceTransaction .sample (version3Spend.setWitness 0 [[1], [2]]) version3Prevouts = .ok () ∧
    ¬ OthersPass .sample version3Pair version3Prevouts 0 ∧
    (∀ witness, enforceTransaction .sample (version3Pair.setWitness 0 witness) version3Prevouts = .ok () ↔
      enforceTransaction .sample version3Pair version3Prevouts = .ok ()) := by
  have hkey : ∃ key, Crypto.sample.xonlyFromSlice key = true := ⟨List.replicate 32 0, by decide⟩
  have hothers : OthersPass .sample version3Spend version3Prevouts 0 := ⟨[], rfl, rfl⟩
  have hothers' : ¬ OthersPass .sample version3Pair version3Prevouts 0 := by
    rintro ⟨deferred, hrun, -⟩
    have hfails : enforceInput .sample version3Pair version3Prevouts []
        (⟨⟨[2], 0⟩, [], 0, bareCat (List.replicate 32 0)⟩, 1) =
          .error (.interp 1 (.stackUnderflow "OP_CAT")) := bareCat_fails (by decide) rfl
    have hrun' : (enforceInput .sample version3Pair version3Prevouts []
        (⟨⟨[2], 0⟩, [], 0, bareCat (List.replicate 32 0)⟩, 1) >>= .ok) = .ok deferred := hrun
    rw [hfails] at hrun'
    cases hrun'
  obtain ⟨hall, hnone⟩ := enforceTransaction_setWitness hkey
    (show 0 < version3Spend.input.length by decide)
  refine ⟨hothers, mt hall.mp (not_not.mpr hothers), (hnone [[1], [2]] (by decide)).mpr hothers,
    hothers', ?_⟩
  exact (enforceTransaction_setWitness hkey (show 0 < version3Pair.input.length by decide)).1.mpr hothers'

theorem version3Spend_rejected :
    (∃ input ∈ version3Spend.input, version3Prevouts.lookup input.previousOutput = some version3Output) ∧
    isP2tr version3Output.scriptPubkey = false ∧
    enforceTransaction .sample version3Spend version3Prevouts =
      .error (.interp 0 (.stackUnderflow "OP_CAT")) ∧
    enforceTransaction .sample (version3Spend.setWitness 0 []) version3Prevouts = .ok () := by
  refine ⟨⟨_, List.mem_singleton_self _, AList.lookup_insert ..⟩, by decide, ?_, by decide⟩
  decide

end Bip360Enforcer.Tapscript
