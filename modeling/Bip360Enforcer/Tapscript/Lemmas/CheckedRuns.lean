import Bip360Enforcer.Tapscript.Lemmas.Checked
import Bip360Enforcer.Tapscript.Lemmas.Simulation

/-!
# No run of a leaf panics
-/

namespace Bip360Enforcer.Tapscript.Checked

open MayPanic (Refines ensure index)

variable {C : Crypto} {tx : Transaction} {prevouts : PrevoutMap} {ctx : LeafContext} {stack : Stack}
  {opcode : String}

/-! ## Hashes and signatures -/

theorem vaultRecoverySpkHash_eq {spk : Script} (h : spk.length + txOutSize < 2 ^ 63) :
    vaultRecoverySpkHash C spk = .ok (Tapscript.vaultRecoverySpkHash C spk) := by
  rw [txOutSize] at h
  rw [vaultRecoverySpkHash, MayPanic.usizeAdd, ensure, if_pos (by omega)]
  simp only [bind, Except.bind, MayPanic.withCapacity]
  rw [ensure, if_pos (by omega)]

theorem defaultCheckTemplateVerifyHash_eq (h : InMemory tx) (inputIndex : Nat) :
    defaultCheckTemplateVerifyHash C tx inputIndex =
      .ok (Tapscript.defaultCheckTemplateVerifyHash C tx inputIndex) := by
  have hinputs := h.inputs_lt
  rw [txInSize] at hinputs
  rw [defaultCheckTemplateVerifyHash, MayPanic.usizeMul, ensure, if_pos (by omega)]
  simp only [bind, Except.bind, MayPanic.withCapacity]
  rw [ensure, if_pos (by omega)]

theorem orderedPrevouts_refines (h : InMemory tx) :
    Refines id (orderedPrevouts tx prevouts) (Tapscript.orderedPrevouts tx prevouts) := by
  have hinputs := h.inputs_lt
  have hsize : tx.input.length * txOutSize < 2 ^ 63 := by
    rw [txInSize] at hinputs
    rw [txOutSize]
    omega
  exact .ensure_bind hsize (.lift _)

theorem sighashPrevouts_refines (h : InMemory ctx.tx) (sighashType : TapSighashType) :
    Refines id (sighashPrevouts ctx sighashType) (Tapscript.sighashPrevouts ctx sighashType) := by
  unfold sighashPrevouts
  split
  · exact .lift _
  · rename_i hall
    rw [Tapscript.sighashPrevouts, if_neg hall]
    exact (orderedPrevouts_refines h).bind fun _ _ => .pure _

theorem verifySchnorr_refines (h : InMemory ctx.tx) (sigBytes pubkeyBytes : Bytes) :
    Refines id (verifySchnorr C sigBytes pubkeyBytes ctx)
      (Tapscript.verifySchnorr C sigBytes pubkeyBytes ctx) := by
  unfold verifySchnorr Tapscript.verifySchnorr
  refine .ite (fun _ => .fail _) fun _ => .ite (fun _ => .fail _) fun _ => ?_
  cases TaprootSignature.fromSlice sigBytes with
  | none => exact .fail _
  | some sig =>
      refine .ite (fun _ => .fail _) fun _ => ?_
      refine (sighashPrevouts_refines h sig.sighashType).bind fun prevouts _ => ?_
      dsimp only [id]
      cases C.taprootSignatureHash ctx.tx ctx.inputIndex prevouts ctx.annex
          (C.tapLeafHash tapscriptLeafVersion ctx.leaf) sig.sighashType with
      | error e => exact .fail _
      | ok sighash => exact .pure _

theorem requireSchnorr_refines (h : InMemory ctx.tx) (sig pubkey : Bytes) :
    Refines id (requireSchnorr C sig pubkey ctx) (Tapscript.requireSchnorr C sig pubkey ctx) := by
  refine (verifySchnorr_refines h sig pubkey).bind fun valid _ => ?_
  exact .ite (fun _ => .pure _) fun _ => .fail _

/-! ## Timelocks -/

theorem checkSequence_refines {n : Int64} {inputIndex : Nat} (h : inputIndex < tx.input.length) :
    Refines id (checkSequence n tx inputIndex) (Tapscript.checkSequence n tx inputIndex) := by
  have hinput : tx.input[inputIndex]? = some tx.input[inputIndex] := List.getElem?_eq_getElem h
  unfold checkSequence Tapscript.checkSequence
  rw [hinput]
  refine .ite (fun _ => .pure _) fun _ => .ite (fun _ => .fail _) fun _ => ?_
  refine .index_bind hinput (.ite (fun _ => .fail _) fun _ => ?_)
  exact .ite (fun _ => .fail _) fun _ => .pure _

theorem checkLocktime_refines {n : Int64} {inputIndex : Nat} (h : inputIndex < tx.input.length) :
    Refines id (checkLocktime n tx inputIndex) (Tapscript.checkLocktime n tx inputIndex) := by
  have hinput : tx.input[inputIndex]? = some tx.input[inputIndex] := List.getElem?_eq_getElem h
  unfold checkLocktime Tapscript.checkLocktime
  rw [hinput]
  refine .ite (fun _ => .fail _) fun _ => .index_bind hinput ?_
  exact .ite (fun _ => .fail _) fun _ => .pure _

/-! ## Vaults -/

def VaultArgs.of (args : Tapscript.VaultArgs) : VaultArgs :=
  ⟨args.leafUpdate, args.triggerIdx.toUInt64.toNat, args.revaultIdx, args.revaultAmount.toUInt64⟩

theorem nonneg {n : Int64} (h : ¬ n < 0) : 0 ≤ n := Int64.not_lt.mp h

theorem popVaultArgs_refines {numOutputs : Int64} :
    Refines (fun result => (VaultArgs.of result.1, result.2.items)) (popVaultArgs stack.items numOutputs)
      (Tapscript.popVaultArgs stack numOutputs) := by
  refine pop_refines.bind fun body _ => ?_
  refine (popNum_refines (by omega)).bind fun count _ => ?_
  refine .ite (fun _ => .fail _) fun hcount => ?_
  refine .ensure_bind (nonneg hcount) ?_
  have hlt : count.1.toUInt64.toNat < 2 ^ 63 := by
    rw [toNat_toUInt64 (Int64.le_iff_toInt_le.mp (nonneg hcount))]
    have := count.1.toInt_lt
    omega
  have hsum : 3 + count.1.toUInt64.toNat < 2 ^ 64 := by omega
  refine .ensure_bind hsum (.ite (fun _ => .fail _) fun hneeded => ?_)
  have hlength := count.2.length_le
  have hmax : maxStackSize = 1000 := rfl
  have hcapacity : count.1.toUInt64.toNat * vecSize < 2 ^ 63 := by
    rw [vecSize]
    omega
  refine .ensure_bind hcapacity ?_
  refine (popN_refines _).bind fun popped hpopped => ?_
  have hpushed : ∀ item ∈ popped.1.reverse, item.length ≤ maxScriptElementSize := by
    intro item hitem
    have hitems := (Stack.popN_eq_ok.mp hpopped).2
    apply count.2.element_le
    rw [hitems]
    exact List.mem_append_left _ (List.mem_reverse.mp hitem)
  refine .ok_bind (pushAll_eq hpushed) ?_
  refine (popNum_refines (by omega)).bind fun trigger _ => ?_
  refine .ite (fun _ => .fail _) fun htrigger => ?_
  refine .ensure_bind (nonneg fun hneg => htrigger (.inl hneg)) ?_
  refine (popNum_refines (by omega)).bind fun revault _ => .ite (fun _ => .fail _) fun _ => ?_
  refine (popNum_refines (by omega)).bind fun amount _ => .ite (fun _ => .fail _) fun hamount => ?_
  refine .ensure_bind (nonneg fun hneg => hamount (.inl hneg)) ?_
  exact .pure ((⟨popped.1.reverse.flatMap Tapscript.pushMinimal ++ body.1, trigger.1, revault.1, amount.1⟩,
    amount.2) : Tapscript.VaultArgs × Stack)

theorem toInt_ofNat (h : InMemory tx) : (Int64.ofNat tx.output.length).toInt = tx.output.length := by
  have houtputs := h.outputs_lt
  rw [txOutSize] at houtputs
  exact Int64.toInt_ofNat_of_lt (by omega)

/-- The output at an index that is read as a script number. -/
theorem index_refines {idx : Int64} (hidx : 0 ≤ idx.toInt) (hlt : idx.toInt < tx.output.length) :
    Refines id (index tx.output idx.toUInt64.toNat) (outputAt tx idx) := by
  have hnat : idx.toUInt64.toNat < tx.output.length := by
    rw [toNat_toUInt64 hidx]
    omega
  rw [index, outputAt, List.getElem?_eq_getElem hnat]
  exact .pure _

theorem checkRevaultOut_refines {inputTxout : TxOut} {revaultIdx : Int64}
    (h : revaultIdx.toInt < tx.output.length) :
    Refines id (checkRevaultOut tx inputTxout revaultIdx)
      (Tapscript.checkRevaultOut tx inputTxout revaultIdx) := by
  refine .ite (fun hidx => .ensure_bind hidx ?_) fun _ => .pure _
  refine (index_refines (Int64.le_iff_toInt_le.mp hidx) h).bind fun out _ => ?_
  exact .ite (fun _ => .fail _) fun _ => .pure _

/-- What is left of the stack after an opcode, and what the opcode queues. -/
def outcome {α : Type} (result : Stack × α) : List Bytes × α := (result.1.items, result.2)

theorem execOpVault_refines (h : InMemory ctx.tx) :
    Refines outcome (execOpVault C ctx stack.items) (Tapscript.execOpVault C ctx stack) := by
  have houtputs := h.outputs_lt
  have hcount := toInt_ofNat h
  rw [txOutSize] at houtputs
  unfold execOpVault Tapscript.execOpVault
  cases ctx.inputTxout with
  | none => exact .fail _
  | some inputTxout =>
      refine .ensure_bind (by omega) ?_
      refine popVaultArgs_refines.bind fun args hargs => ?_
      obtain ⟨body, pushCount, trigger, revault, amount, pushed, hpop⟩ := popVaultArgs_ok hargs
      have htrigger := hpop.triggerIdx_lt
      have hrevault := hpop.revaultIdx_lt
      rw [hcount] at htrigger hrevault
      refine (index_refines hpop.triggerIdx_nonneg htrigger).bind fun out _ => ?_
      refine .ite (fun _ => .fail _) fun _ => .ite (fun _ => .fail _) fun _ => ?_
      refine (checkRevaultOut_refines hrevault).bind fun value _ => ?_
      dsimp only [id]
      cases checkedAdd out.value value with
      | none => exact .fail _
      | some total =>
          refine .ite (fun _ => .fail _) fun _ => (push_refines [1]).bind fun stack _ => ?_
          exact .pure (stack, _)

theorem execOpVaultRecover_refines (h : InMemory ctx.tx) :
    Refines outcome (execOpVaultRecover C ctx stack.items) (Tapscript.execOpVaultRecover C ctx stack) := by
  have houtputs := h.outputs_lt
  have hcount := toInt_ofNat h
  rw [txOutSize] at houtputs
  unfold execOpVaultRecover Tapscript.execOpVaultRecover
  cases ctx.inputTxout with
  | none => exact .fail _
  | some inputTxout =>
      refine .ensure_bind (by omega) ?_
      refine pop_refines.bind fun hashArg _ => .ite (fun _ => .fail _) fun _ => ?_
      refine (popNum_refines (by omega)).bind fun vout _ => .ite (fun _ => .fail _) fun hvout => ?_
      obtain ⟨hneg, hle⟩ := not_or.mp hvout
      have hlt := Int64.lt_iff_toInt_lt.mp (Int64.not_le.mp hle)
      rw [hcount] at hlt
      refine .ensure_bind (nonneg hneg) ?_
      refine (index_refines (Int64.le_iff_toInt_le.mp (nonneg hneg)) hlt).bind fun out hout => ?_
      have hmem := List.mem_of_getElem? (outputAt_ok (Int64.le_iff_toInt_le.mp (nonneg hneg)) hout)
      refine .ok_bind (vaultRecoverySpkHash_eq (h.script_lt out hmem)) ?_
      refine .ite (fun _ => .fail _) fun _ => (push_refines [1]).bind fun stack _ => ?_
      exact .pure (stack, _)

/-! ## Opcodes -/

theorem hashTop_refines (hash : Bytes → Bytes) :
    Refines Stack.items (hashTop stack.items opcode hash) (Tapscript.hashTop stack opcode hash) :=
  pop_refines.bind fun popped _ => push_refines (hash popped.1)

/-- The counter of OP_CHECKSIGADD is far from the largest number. -/
theorem i64Add_one {stack rest : Stack} {n : Int64}
    (h : Tapscript.popNum stack opcode 4 = .ok (n, rest)) : i64Add n 1 = .ok (n + 1) := by
  obtain ⟨item, -, hnum⟩ := popNum_reads (by omega) h
  have hlt := natAbs_value_lt hnum.length_le
  rw [← hnum.toInt_eq] at hlt
  have hone : (1 : Int64).toInt = 1 := rfl
  rw [i64Add, ensure, if_pos (by omega)]

section

variable (h : InMemory ctx.tx) (hi : ctx.inputIndex < ctx.tx.input.length)

include h hi

theorem execStackOp_refines (op : Opcode) :
    Refines Stack.items (execStackOp C ctx op stack.items) (Tapscript.execStackOp C ctx op stack) := by
  cases op with
  | cat =>
      refine pop_refines.bind fun x2 _ => pop_refines.bind fun x1 _ => ?_
      exact .ite (fun _ => .fail _) fun _ => push_refines _
  | ctv =>
      refine top_refines.bind fun arg _ => .ite (fun _ => .fail _) fun _ => ?_
      refine .ok_bind (defaultCheckTemplateVerifyHash_eq h _) ?_
      exact .ite (fun _ => .fail _) fun _ => .pure _
  | pushnum n =>
      have hsub : u8Sub (Opcode.pushnum n).toU8 0x50 = .ok (UInt8.ofNat (n + 1)) := by
        revert n
        decide
      exact .ensure_bind (by decide) (.ok_bind hsub (push_refines _))
  | dup =>
      refine pop_refines.bind fun top _ => (push_refines top.1).bind fun _ _ => ?_
      exact push_refines top.1
  | drop => exact pop_refines.bind fun top _ => .pure top.2
  | swap =>
      refine pop_refines.bind fun a _ => pop_refines.bind fun b _ => ?_
      exact (push_refines a.1).bind fun _ _ => push_refines b.1
  | equal => exact pop_refines.bind fun a _ => pop_refines.bind fun b _ => push_refines _
  | equalverify =>
      refine pop_refines.bind fun a _ => pop_refines.bind fun b _ => ?_
      exact .ite (fun _ => .pure b.2) fun _ => .fail _
  | verify =>
      refine pop_refines.bind fun top _ => .ok_bind (isTruthy_eq top.1) ?_
      exact .ite (fun _ => .pure top.2) fun _ => .fail _
  | sha256 => exact hashTop_refines _
  | hash256 => exact hashTop_refines _
  | hash160 => exact hashTop_refines _
  | ripemd160 => exact hashTop_refines _
  | csv =>
      refine top_refines.bind fun top _ => (readScriptnum_refines (by omega)).bind fun n _ => ?_
      refine .ite (fun _ => .fail _) fun _ => ?_
      exact (checkSequence_refines hi).bind fun _ _ => .pure stack
  | cltv =>
      refine top_refines.bind fun top _ => (readScriptnum_refines (by omega)).bind fun n _ => ?_
      refine .ite (fun _ => .fail _) fun _ => ?_
      exact (checkLocktime_refines hi).bind fun _ _ => .pure stack
  | checksig =>
      refine pop_refines.bind fun pubkey _ => pop_refines.bind fun sig _ => ?_
      refine .ite (fun _ => push_refines []) fun _ => ?_
      exact (requireSchnorr_refines h sig.1 pubkey.1).bind fun _ _ => push_refines [1]
  | checksigverify =>
      refine pop_refines.bind fun pubkey _ => pop_refines.bind fun sig _ => ?_
      refine .ite (fun _ => .fail _) fun _ => ?_
      exact (requireSchnorr_refines h sig.1 pubkey.1).bind fun _ _ => .pure sig.2
  | checksigadd =>
      refine pop_refines.bind fun pubkey _ => (popNum_refines (by omega)).bind fun n hn => ?_
      refine pop_refines.bind fun sig _ => ?_
      refine .ite (fun _ => .ok_bind (encodeScriptnum_eq n.1) (push_refines _)) fun _ => ?_
      refine (requireSchnorr_refines h sig.1 pubkey.1).bind fun _ _ => .ok_bind (i64Add_one hn) ?_
      exact .ok_bind (encodeScriptnum_eq (n.1 + 1)) (push_refines _)
  | _ => exact .fail _

theorem execOp_refines (op : Opcode) :
    Refines outcome (execOp C ctx op stack.items) (Tapscript.execOp C ctx op stack) := by
  cases op with
  | vault => exact (execOpVault_refines h).bind fun result _ => .pure (result.1, [result.2])
  | vaultRecover => exact (execOpVaultRecover_refines h).bind fun result _ => .pure (result.1, [result.2])
  | _ => exact (execStackOp_refines h hi _).bind fun stack _ => .pure (stack, [])

/-! ## Leaves -/

theorem execItem_refines (item : Item) :
    Refines outcome (execItem C ctx stack.items item) (Tapscript.execItem C ctx stack item) := by
  cases item with
  | none => exact .fail _
  | some instruction =>
      cases instruction with
      | pushBytes bytes => exact (push_refines bytes).bind fun stack _ => .pure (stack, [])
      | op op => exact execOp_refines h hi op

/-- The machine without what is known about its stack. -/
def Machine.of (m : Tapscript.Machine) : Machine := ⟨m.stack.items, m.deferred⟩

theorem step_refines (m : Tapscript.Machine) (item : Item) :
    Refines Machine.of (step C ctx (.of m) item) (Tapscript.step C ctx m item) :=
  (execItem_refines h hi item).bind fun result _ => .pure (Tapscript.Machine.mk result.1 (m.deferred ++ result.2))

theorem steps_refines (m : Tapscript.Machine) (items : List Item) :
    Refines Machine.of (items.foldlM (step C ctx) (.of m)) (items.foldlM (Tapscript.step C ctx) m) :=
  .foldlM (fun _ => True) trivial (fun m _ item _ => step_refines h hi m item) fun _ _ _ _ _ _ => trivial

omit h hi in
theorem checkFinalStack_refines :
    Refines id (checkFinalStack stack.items) (Tapscript.checkFinalStack stack) := by
  obtain ⟨items, hitems, hlen⟩ := stack
  rcases items with _ | ⟨item, _ | ⟨item', items⟩⟩
  · exact .fail _
  · refine .index_bind rfl (.ok_bind (isTruthy_eq item) ?_)
    exact .ite (fun _ => .pure _) fun _ => .fail _
  · exact .fail _

theorem executeLeaf_refines (initialStack : List Bytes) (deferred : List DeferredCheck) :
    Refines id (executeLeaf C ctx initialStack deferred)
      (Tapscript.executeLeaf C ctx initialStack deferred) := by
  refine (newStack_refines initialStack).bind fun stack _ => ?_
  refine (steps_refines h hi ⟨stack, deferred⟩ _).bind fun m _ => ?_
  exact checkFinalStack_refines.bind fun _ _ => .pure m.deferred

end

/-! ## Deferred checks -/

/-- Amounts are collected only for outputs that there are. -/
def InRange (tx : Transaction) (outMap : OutMap) : Prop := ∀ idx ∈ outMap, idx < tx.output.length

section

variable {outMap outMap' : OutMap} {check : DeferredCheck}

theorem addAmount_inRange {idx : Nat} {amount : UInt64} (hmap : InRange tx outMap)
    (hidx : idx < tx.output.length) (h : addAmount outMap idx amount = .ok outMap') :
    InRange tx outMap' := by
  unfold addAmount at h
  split at h
  · cases h
    intro k hk
    rcases (AList.mem_insert outMap).mp hk with rfl | hk
    · exact hidx
    · exact hmap k hk
  · cases h

theorem collectCheck_inRange (hwf : check.WellFormed tx) (hmap : InRange tx outMap)
    (h : Tapscript.collectCheck outMap check = .ok outMap') : InRange tx outMap' := by
  cases check with
  | trigger inputAmount revaultAmount triggerIdx revaultIdx =>
      obtain ⟨htrigger, hrevault⟩ := hwf
      simp only [Tapscript.collectCheck] at h
      split at h
      · cases h
      · obtain ⟨mid, hmid, h⟩ := Except.bind_eq_ok_iff.mp h
        have hrange := addAmount_inRange hmap htrigger hmid
        split at h
        · rename_i hpos
          obtain ⟨hidx, hlt⟩ := hrevault (UInt64.lt_iff_toNat_lt.mp hpos)
          rw [← toNat_toUInt64 hidx] at hlt
          exact addAmount_inRange hrange hlt h
        · cases h
          exact hrange
  | recovery inputAmount voutIdx => exact addAmount_inRange hmap hwf h

theorem collectCheck_refines (hwf : check.WellFormed tx) :
    Refines id (collectCheck outMap check) (Tapscript.collectCheck outMap check) := by
  cases check with
  | trigger inputAmount revaultAmount triggerIdx revaultIdx =>
      unfold collectCheck Tapscript.collectCheck
      dsimp only
      cases checkedSub inputAmount revaultAmount with
      | none => exact .fail _
      | some carry =>
          refine (Refines.lift _).bind fun outMap _ => .ite (fun hpos => ?_) fun _ => .pure _
          have hidx := (hwf.2 (UInt64.lt_iff_toNat_lt.mp hpos)).1
          exact .ensure_bind (Int64.le_iff_toInt_le.mpr hidx) (.lift _)
  | recovery inputAmount voutIdx => exact .lift _

theorem checkOutput_refines {entry : Sigma fun _ : Nat => UInt64} (h : entry.1 < tx.output.length) :
    Refines id (checkOutput tx entry) (Tapscript.checkOutput tx entry) := by
  have hout : tx.output[entry.1]? = some tx.output[entry.1] := List.getElem?_eq_getElem h
  unfold checkOutput Tapscript.checkOutput
  rw [hout]
  refine .index_bind hout ?_
  exact .ite (fun _ => .fail _) fun _ => .pure _

theorem evaluateDeferredChecks_refines {checks : List DeferredCheck}
    (hwf : ∀ check ∈ checks, check.WellFormed tx) :
    Refines id (evaluateDeferredChecks checks tx) (Tapscript.evaluateDeferredChecks checks tx) := by
  have hinv : ∀ outMap, InRange tx outMap → ∀ check ∈ checks, ∀ outMap',
      Tapscript.collectCheck outMap check = .ok outMap' → InRange tx outMap' :=
    fun _ hmap check hcheck _ => collectCheck_inRange (hwf check hcheck) hmap
  have hempty : InRange tx ∅ := fun idx hidx => absurd hidx (AList.notMem_empty idx)
  refine .ite (fun _ => .pure _) fun _ => ?_
  refine (Refines.foldlM (InRange tx) hempty (fun _ _ check hcheck =>
    collectCheck_refines (hwf check hcheck)) hinv).bind fun outMap houtMap => ?_
  have hrange : InRange tx outMap := by
    refine Except.foldlM_induction (motive := fun _ => InRange tx) hempty ?_ houtMap
    exact fun _ check _ _ hcheck hmap hstep => hinv _ hmap check hcheck _ hstep
  exact .forM fun entry hentry => checkOutput_refines
    (hrange entry.1 (AList.mem_keys.mpr (List.mem_keys_of_mem hentry)))

end

/-! ## Transactions -/

theorem detectEnforcedLeaf_eq (witness : List Bytes) :
    detectEnforcedLeaf C witness = .ok (Tapscript.detectEnforcedLeaf C witness) := by
  unfold detectEnforcedLeaf Tapscript.detectEnforcedLeaf
  split
  · rfl
  · rcases splitAnnex witness.reverse with ⟨annex, _ | ⟨controlBlock, _ | ⟨leaf, elems⟩⟩⟩
    · rfl
    · rfl
    · rfl

theorem enforceInput_refines {inputIndex : Nat} {input : TxIn} (h : InMemory tx)
    (hinput : tx.input[inputIndex]? = some input) (deferred : List DeferredCheck) :
    Refines id (enforceInput C tx prevouts deferred (input, inputIndex))
      (Tapscript.enforceInput C tx prevouts deferred (input, inputIndex)) := by
  refine .ok_bind (detectEnforcedLeaf_eq input.witness) ?_
  dsimp only [Tapscript.enforceInput]
  cases Tapscript.detectEnforcedLeaf C input.witness with
  | none => exact .pure deferred
  | some enforced =>
      have hi := (List.getElem?_eq_some_iff.mp hinput).1
      exact (executeLeaf_refines h hi _ _).mapError _

theorem enforceInputs_refines (h : InMemory tx) :
    Refines id (tx.input.zipIdx.foldlM (enforceInput C tx prevouts) [])
      (tx.input.zipIdx.foldlM (Tapscript.enforceInput C tx prevouts) []) :=
  .foldlM (fun _ => True) trivial (fun deferred _ _ hentry =>
    enforceInput_refines h (List.mem_zipIdx_iff_getElem?.mp hentry) deferred) fun _ _ _ _ _ _ => trivial

theorem enforceTransaction_refines (h : InMemory tx) :
    Refines id (enforceTransaction C tx prevouts) (Tapscript.enforceTransaction C tx prevouts) := by
  refine (enforceInputs_refines h).bind fun deferred hdeferred => ?_
  have hwf := (enforceInputs_queues hdeferred).wellFormed
  exact (evaluateDeferredChecks_refines hwf).mapError _

end Bip360Enforcer.Tapscript.Checked
