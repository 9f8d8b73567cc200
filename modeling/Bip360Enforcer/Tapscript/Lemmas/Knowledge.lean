import Bip360Enforcer.Library.Agree
import Bip360Enforcer.Tapscript.Enforce

/-!
# Enforcement with more of the spent outputs known

With more outputs known, enforcement ends as before unless it failed for want of an output.
-/

namespace Bip360Enforcer

/-- Every output of `prevouts` is known in `prevouts'`. -/
def KnownIn (prevouts prevouts' : PrevoutMap) : Prop :=
  ∀ outpoint txout, prevouts.lookup outpoint = some txout → prevouts'.lookup outpoint = some txout

theorem KnownIn.refl (prevouts : PrevoutMap) : KnownIn prevouts prevouts := fun _ _ h => h

theorem KnownIn.empty (prevouts : PrevoutMap) : KnownIn ∅ prevouts := by
  intro op txout hop
  simp at hop

end Bip360Enforcer

namespace Bip360Enforcer.Tapscript

open Except (Agree)

variable {C : Crypto}

/-- The errors of a run that lacks an output. -/
inductive InterpError.Lacks : InterpError → Prop where
  | missingPrevout : Lacks .missingPrevout

/-- `ctx'` differs from `ctx` in the outputs known only, and knows those that `ctx` does. -/
structure LeafContext.KnownIn (ctx ctx' : LeafContext) : Prop where
  tx : ctx'.tx = ctx.tx
  inputIndex : ctx'.inputIndex = ctx.inputIndex
  control : ctx'.control = ctx.control
  annex : ctx'.annex = ctx.annex
  leaf : ctx'.leaf = ctx.leaf
  prevouts : Bip360Enforcer.KnownIn ctx.prevouts ctx'.prevouts
  inputTxout : ∀ txout, ctx.inputTxout = some txout → ctx'.inputTxout = some txout

section

variable {right : InterpError → Prop} {ctx ctx' : LeafContext} (h : ctx.KnownIn ctx')

include h

/-! ## Signatures -/

theorem orderedPrevouts_agrees : Agree InterpError.Lacks right Eq
    (orderedPrevouts ctx.tx ctx.prevouts) (orderedPrevouts ctx'.tx ctx'.prevouts) := by
  rw [h.tx]
  apply Agree.mapM
  intro input _
  cases hknown : ctx.prevouts.lookup input.previousOutput with
  | none => exact .left .missingPrevout _
  | some txout => rw [h.prevouts _ _ hknown]; exact .ok rfl

theorem sighashPrevouts_agrees (sighashType : TapSighashType) :
    Agree InterpError.Lacks right Eq (sighashPrevouts ctx sighashType) (sighashPrevouts ctx' sighashType) := by
  unfold sighashPrevouts
  apply Agree.ite
  · intro _
    cases hknown : ctx.inputTxout with
    | none => exact .left .missingPrevout _
    | some txout => rw [h.inputTxout _ hknown, h.inputIndex]; exact .ok rfl
  · intro _
    exact (orderedPrevouts_agrees h).bind_left

theorem verifySchnorr_agrees (sigBytes pubkeyBytes : Bytes) :
    Agree InterpError.Lacks right Eq (verifySchnorr C sigBytes pubkeyBytes ctx)
      (verifySchnorr C sigBytes pubkeyBytes ctx') := by
  unfold verifySchnorr
  rw [h.tx, h.inputIndex, h.annex, h.leaf]
  refine .ite (fun _ => .error _) fun _ => .ite (fun _ => .error _) fun _ => ?_
  cases TaprootSignature.fromSlice sigBytes with
  | none => exact .error _
  | some sig =>
      refine .ite (fun _ => .error _) fun _ => ?_
      exact (sighashPrevouts_agrees h sig.sighashType).bind_left

theorem requireSchnorr_agrees (sig pubkey : Bytes) : Agree InterpError.Lacks right Eq
    (requireSchnorr C sig pubkey ctx) (requireSchnorr C sig pubkey ctx') :=
  (verifySchnorr_agrees h sig pubkey).bind_left

/-! ## Opcodes -/

theorem execStackOp_agrees (op : Opcode) (stack : Stack) :
    Agree InterpError.Lacks right Eq (execStackOp C ctx op stack) (execStackOp C ctx' op stack) := by
  cases op with
  | checksig =>
      refine .bind_same fun key _ => .bind_same fun sig _ => .ite (fun _ => .rfl_eq _) fun _ => ?_
      exact (requireSchnorr_agrees h sig.1 key.1).bind_left
  | checksigverify =>
      refine .bind_same fun key _ => .bind_same fun sig _ => .ite (fun _ => .error _) fun _ => ?_
      exact (requireSchnorr_agrees h sig.1 key.1).bind_left
  | checksigadd =>
      refine .bind_same fun key _ => .bind_same fun n _ => .bind_same fun sig _ => ?_
      refine .ite (fun _ => .rfl_eq _) fun _ => ?_
      exact (requireSchnorr_agrees h sig.1 key.1).bind_left
  | _ => exact .of_eq (by simp only [execStackOp, h.tx, h.inputIndex])

theorem execOpVault_agrees (stack : Stack) :
    Agree InterpError.Lacks right Eq (execOpVault C ctx stack) (execOpVault C ctx' stack) := by
  unfold execOpVault
  cases hknown : ctx.inputTxout with
  | none => exact .left .missingPrevout _
  | some txout => rw [h.inputTxout _ hknown, h.tx, h.control]; exact .rfl_eq _

theorem execOpVaultRecover_agrees (stack : Stack) : Agree InterpError.Lacks right Eq
    (execOpVaultRecover C ctx stack) (execOpVaultRecover C ctx' stack) := by
  unfold execOpVaultRecover
  cases hknown : ctx.inputTxout with
  | none => exact .left .missingPrevout _
  | some txout => rw [h.inputTxout _ hknown, h.tx]; exact .rfl_eq _

theorem execOp_agrees (op : Opcode) (stack : Stack) :
    Agree InterpError.Lacks right Eq (execOp C ctx op stack) (execOp C ctx' op stack) := by
  unfold execOp
  split
  · exact (execOpVault_agrees h stack).bind_left
  · exact (execOpVaultRecover_agrees h stack).bind_left
  · exact (execStackOp_agrees h op stack).bind_left

/-! ## Leaves -/

theorem execItem_agrees (stack : Stack) (item : Item) :
    Agree InterpError.Lacks right Eq (execItem C ctx stack item) (execItem C ctx' stack item) := by
  cases item with
  | none => exact .error _
  | some instruction =>
      cases instruction with
      | pushBytes bytes => exact .rfl_eq _
      | op op => exact execOp_agrees h op stack

theorem step_agrees (m : Machine) (item : Item) :
    Agree InterpError.Lacks right Eq (step C ctx m item) (step C ctx' m item) :=
  (execItem_agrees h m.stack item).bind_left

theorem executeLeaf_agrees (initialStack : List Bytes) (deferred : List DeferredCheck) :
    Agree InterpError.Lacks right Eq (executeLeaf C ctx initialStack deferred)
      (executeLeaf C ctx' initialStack deferred) := by
  unfold executeLeaf
  rw [h.leaf]
  refine .bind_same fun stack _ => ?_
  refine Agree.bind_left (Agree.foldlM rfl ?_)
  rintro item _ m _ rfl
  exact step_agrees h m item

end

/-! ## Transactions -/

/-- The errors of an enforcement that lacks an output. -/
inductive TapscriptError.Lacks : TapscriptError → Prop where
  | interp (inputIndex : Nat) {source : InterpError} (h : source.Lacks) :
      Lacks (.interp inputIndex source)

variable {right : TapscriptError → Prop} {prevouts prevouts' : PrevoutMap}

theorem leafContext_knownIn (h : KnownIn prevouts prevouts') (tx : Transaction) (inputIndex : Nat)
    (input : TxIn) (enforced : EnforcedLeaf) :
    (leafContext tx prevouts inputIndex input enforced).KnownIn
      (leafContext tx prevouts' inputIndex input enforced) where
  tx := rfl
  inputIndex := rfl
  control := rfl
  annex := rfl
  leaf := rfl
  prevouts := h
  inputTxout := h _

theorem enforceInput_agrees (h : KnownIn prevouts prevouts') (tx : Transaction)
    (deferred : List DeferredCheck) (entry : TxIn × Nat) : Agree TapscriptError.Lacks right Eq
      (enforceInput C tx prevouts deferred entry) (enforceInput C tx prevouts' deferred entry) := by
  obtain ⟨input, inputIndex⟩ := entry
  simp only [enforceInput]
  cases detectEnforcedLeaf C input.witness with
  | none => exact .ok rfl
  | some enforced =>
      have hleaf : Agree InterpError.Lacks (fun _ => False) Eq
          (executeLeaf C (leafContext tx prevouts inputIndex input enforced) enforced.stack deferred)
          (executeLeaf C (leafContext tx prevouts' inputIndex input enforced) enforced.stack deferred) :=
        executeLeaf_agrees (leafContext_knownIn h tx inputIndex input enforced) _ _
      exact hleaf.mapError (fun _ hsource => .interp inputIndex hsource) fun _ hf => hf.elim

theorem enforceTransaction_agrees (h : KnownIn prevouts prevouts') (tx : Transaction) :
    Agree TapscriptError.Lacks right Eq (enforceTransaction C tx prevouts)
      (enforceTransaction C tx prevouts') := by
  unfold enforceTransaction
  refine Agree.bind_left (Agree.foldlM rfl ?_)
  rintro entry _ deferred _ rfl
  exact enforceInput_agrees h tx deferred entry

end Bip360Enforcer.Tapscript
