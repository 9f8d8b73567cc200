import Bip360Enforcer.Library.Except
import Bip360Enforcer.Tapscript.Witnesses

/-!
# What the interpreter reads of a transaction
-/

namespace Bip360Enforcer

variable {C : Crypto} {tx : Transaction} {prevouts : PrevoutMap} {inputIndex : Nat}
  {witness : List Bytes} {sighashType : TapSighashType}

/-! ## Transactions -/

theorem Transaction.stripped_setWitness : (tx.setWitness inputIndex witness).stripped = tx.stripped := by
  have hinput : (tx.input.modify inputIndex fun input => { input with witness }).map TxIn.stripped =
      tx.input.map TxIn.stripped := by
    apply List.ext_getElem?
    intro i
    rw [List.getElem?_map, List.getElem?_map, List.getElem?_modify]
    cases tx.input[i]? with
    | none => rfl
    | some input =>
        by_cases hi : inputIndex = i
        · simp [hi, TxIn.stripped]
        · simp [hi]
  simp [Transaction.stripped, Transaction.setWitness, hinput]

theorem Transaction.setWitness_input {front back : List TxIn} {input : TxIn}
    (h : tx.input = front ++ input :: back) :
    (tx.setWitness front.length witness).input = front ++ { input with witness } :: back := by
  simp [Transaction.setWitness, h, List.modify_eq_take_cons_drop]

/-! ## Signature hashes -/

theorem signedInput_stripped {prevouts : Prevouts} :
    signedInput tx.stripped inputIndex prevouts sighashType =
      signedInput tx inputIndex prevouts sighashType := by
  simp only [signedInput, Transaction.stripped, List.getElem?_map]
  cases tx.input[inputIndex]? with
  | none => rfl
  | some input => rfl

theorem committedInputs_stripped {prevouts : Prevouts} :
    committedInputs tx.stripped prevouts sighashType = committedInputs tx prevouts sighashType := by
  simp only [committedInputs, Transaction.stripped, List.map_map]
  rfl

theorem checkAll_stripped {prevouts : Prevouts} : prevouts.checkAll tx.stripped = prevouts.checkAll tx := by
  cases prevouts with
  | one index txout => rfl
  | all txouts => simp [Prevouts.checkAll, Transaction.stripped]

theorem taprootSignatureHash_stripped {prevouts : Prevouts} {annex : Option Bytes} {leafHash : Bytes} :
    C.taprootSignatureHash tx.stripped inputIndex prevouts annex leafHash sighashType =
      C.taprootSignatureHash tx inputIndex prevouts annex leafHash sighashType := by
  simp only [Crypto.taprootSignatureHash, taprootSigMsg, checkAll_stripped, committedInputs_stripped,
    signedInput_stripped]
  rfl

namespace Tapscript

variable {ctx : LeafContext} {stack : Stack} {op : Opcode}

theorem orderedPrevouts_stripped : orderedPrevouts tx.stripped prevouts = orderedPrevouts tx prevouts := by
  simp only [orderedPrevouts, Transaction.stripped, List.mapM_map]
  rfl

theorem verifySchnorr_stripped {sig pubkey : Bytes} :
    verifySchnorr C sig pubkey ctx.stripped = verifySchnorr C sig pubkey ctx := by
  simp only [verifySchnorr, sighashPrevouts, LeafContext.stripped, orderedPrevouts_stripped,
    taprootSignatureHash_stripped]

/-! ## Opcodes -/

/-- The template hash is computed without the witnesses. -/
theorem defaultCheckTemplateVerifyHash_stripped :
    defaultCheckTemplateVerifyHash C tx.stripped inputIndex =
      defaultCheckTemplateVerifyHash C tx inputIndex := by
  simp only [defaultCheckTemplateVerifyHash, Transaction.stripped, List.flatMap_map, List.any_map,
    List.length_map]
  rfl

theorem checkSequence_stripped {n : Int64} :
    checkSequence n tx.stripped inputIndex = checkSequence n tx inputIndex := by
  simp only [checkSequence, Transaction.stripped, List.getElem?_map]
  cases tx.input[inputIndex]? with
  | none => rfl
  | some input => rfl

theorem checkLocktime_stripped {n : Int64} :
    checkLocktime n tx.stripped inputIndex = checkLocktime n tx inputIndex := by
  simp only [checkLocktime, Transaction.stripped, List.getElem?_map]
  cases tx.input[inputIndex]? with
  | none => rfl
  | some input => rfl

theorem execStackOp_stripped : execStackOp C ctx.stripped op stack = execStackOp C ctx op stack := by
  cases op with
  | ctv =>
      simp only [execStackOp]
      rw [show ctx.stripped.tx = ctx.tx.stripped from rfl, defaultCheckTemplateVerifyHash_stripped]
      rfl
  | csv =>
      simp only [execStackOp]
      rw [show ctx.stripped.tx = ctx.tx.stripped from rfl]
      simp only [checkSequence_stripped]
      rfl
  | cltv =>
      simp only [execStackOp]
      rw [show ctx.stripped.tx = ctx.tx.stripped from rfl]
      simp only [checkLocktime_stripped]
      rfl
  | checksig => simp only [execStackOp, requireSchnorr, verifySchnorr_stripped]
  | checksigverify => simp only [execStackOp, requireSchnorr, verifySchnorr_stripped]
  | checksigadd => simp only [execStackOp, requireSchnorr, verifySchnorr_stripped]
  | _ => rfl

theorem execItem_stripped {item : Item} : execItem C ctx.stripped stack item = execItem C ctx stack item := by
  cases item with
  | none => rfl
  | some instruction =>
      cases instruction with
      | pushBytes bytes => rfl
      | op op =>
          cases op with
          | vault => rfl
          | vaultRecover => rfl
          | _ => simp only [execItem, execOp, execStackOp_stripped]

/-! ## Inputs -/

theorem executeLeaf_stripped {initialStack : List Bytes} {deferred : List DeferredCheck} :
    executeLeaf C ctx.stripped initialStack deferred = executeLeaf C ctx initialStack deferred := by
  have hstep : step C ctx.stripped = step C ctx := by
    funext m item
    simp only [step, execItem_stripped]
  rw [executeLeaf, hstep]
  rfl

theorem enforceInput_stripped {deferred : List DeferredCheck} {entry : TxIn × Nat} :
    enforceInput C tx.stripped prevouts deferred entry = enforceInput C tx prevouts deferred entry := by
  obtain ⟨input, inputIndex⟩ := entry
  simp only [enforceInput]
  cases detectEnforcedLeaf C input.witness with
  | none => rfl
  | some enforced =>
      have hleaf : executeLeaf C (leafContext tx prevouts inputIndex input enforced).stripped
          enforced.stack deferred = _ := executeLeaf_stripped
      exact congrArg (Except.mapError (TapscriptError.interp inputIndex)) hleaf

theorem enforceInput_setWitness :
    enforceInput C (tx.setWitness inputIndex witness) prevouts = enforceInput C tx prevouts := by
  funext deferred entry
  rw [← enforceInput_stripped, Transaction.stripped_setWitness, enforceInput_stripped]

end Tapscript

end Bip360Enforcer
