import Bip360Enforcer.Tapscript.Lemmas.Deferred
import Bip360Enforcer.Tapscript.Lemmas.Simulation

/-!
# What acceptance by the tapscript pass guarantees
-/

namespace Bip360Enforcer.Tapscript

open Except (bind_eq_ok_iff)

variable {C : Crypto} {tx : Transaction} {prevouts : PrevoutMap} {ctx : LeafContext}

/-! ## Vault value -/

/-- Each output carries all that the vault executions of all inputs assign to it, and each execution
assigns exactly the value of its input. -/
theorem enforceTransaction_value (h : enforceTransaction C tx prevouts = .ok ()) :
    (∀ idx, tally (txAssigned C tx prevouts) idx ≤ outputValue tx idx) ∧
    ∀ entry ∈ tx.input.zipIdx, ∀ e ∈ inputExecutions C tx prevouts entry, ∃ txout,
      prevouts.lookup entry.1.previousOutput = some txout ∧ e.total = txout.value.toNat := by
  obtain ⟨deferred, hinputs, heval⟩ := bind_eq_ok_iff.mp h
  have hqueue := enforceInputs_queues hinputs
  obtain ⟨houtputs, htotals⟩ :=
    evaluateDeferredChecks_ok hqueue.wellFormed (Except.mapError_eq_ok_iff.mp heval)
  constructor
  · intro idx
    rw [txAssigned, hqueue.executions_eq, List.flatMap_map]
    exact houtputs idx
  · intro entry hentry e he
    obtain ⟨queued, hsub, hexec, hamounts⟩ := hqueue.byInput entry hentry
    rw [hexec] at he
    obtain ⟨check, hcheck, rfl⟩ := List.mem_map.mp he
    obtain ⟨txout, hlookup, hamount⟩ := hamounts check hcheck
    exact ⟨txout, hlookup, by rw [htotals check (hsub hcheck), hamount]⟩

/-! Two vault inputs share a trigger output; the first also revaults 30 of its 100. -/

def vaultSpk : Script := newP2trTweaked (List.replicate 32 0)

def triggerSpk : Script := newP2trTweaked (0xc0 :: 0x51 :: List.replicate 30 0)

def vaultWitness (revaultAmount revaultIdx : Bytes) : List Bytes :=
  [revaultAmount, revaultIdx, [], [], [0x51], [0xfc], 0xc0 :: List.replicate 32 0]

def vaultOutPoint (vout : UInt32) : OutPoint := ⟨List.replicate 32 1, vout⟩

def vaultTx : Transaction where
  version := 2
  lockTime := 0
  input := [
    { previousOutput := vaultOutPoint 0, scriptSig := [], sequence := 0,
      witness := vaultWitness [30] [1] },
    { previousOutput := vaultOutPoint 1, scriptSig := [], sequence := 0,
      witness := vaultWitness [] [0x81] }]
  output := [⟨120, triggerSpk⟩, ⟨30, vaultSpk⟩]

def vaultPrevouts : PrevoutMap :=
  ((∅ : PrevoutMap).insert (vaultOutPoint 0) ⟨100, vaultSpk⟩).insert (vaultOutPoint 1) ⟨50, vaultSpk⟩

theorem vaultTx_value :
    tally (txAssigned .sample vaultTx vaultPrevouts) 0 = 120 ∧
    tally (txAssigned .sample vaultTx vaultPrevouts) 0 ≤ outputValue vaultTx 0 :=
  ⟨by decide, (enforceTransaction_value (by decide)).1 0⟩

/-! ## Soundness against the reference semantics -/

/-- An accepted leaf is one that the reference accepts, with the same stack after every instruction,
just when every signature check that its run reaches is clean. -/
theorem executeLeaf_sound_iff {policy : Policy} {initialStack : List Bytes}
    {deferred deferred' : List DeferredCheck}
    (h : executeLeaf C ctx initialStack deferred = .ok deferred') :
    ReferenceAgrees C ctx policy initialStack deferred ↔ cleanLeaf C ctx initialStack = true := by
  simp only [executeLeaf, bind_eq_ok_iff] at h
  obtain ⟨start, hstart, m, hrun, _, hfinal, -⟩ := h
  have hinitial : Bip342.initialState initialStack = referenceState start := by
    rw [Bip342.initialState, referenceState, Stack.new_eq_ok hstart]
  have hclean : cleanLeaf C ctx initialStack = cleanRun C ctx start (instructions ctx.leaf) := by
    rw [cleanLeaf, hstart]
  rw [hclean]
  constructor
  · intro hagrees
    have hsucceeds := hagrees.succeeds
    rw [Bip342.succeeds, hasOpSuccess_of_run hrun, Bool.false_or, Bool.and_eq_true, hinitial,
      Option.any_eq_true] at hsucceeds
    obtain ⟨-, st, hst, -⟩ := hsucceeds
    exact clean_of_run_some hrun hst
  · intro hclean
    constructor
    · rw [Bip342.succeeds, hinitial, run_eq_of_clean hclean hrun, withinLimits_referenceState]
      simp [acceptsState_of_checkFinalStack hfinal]
    · intro n
      obtain ⟨t, ht⟩ := run_take hrun n
      refine ⟨start, t, referenceState t.stack, hstart, ht, ?_, rfl⟩
      rw [hinitial]
      exact run_eq_of_clean (cleanRun_take hrun hclean n) ht

def leafContext₀ (leaf : Script) : LeafContext where
  tx := vaultTx
  inputIndex := 0
  prevouts := vaultPrevouts
  inputTxout := vaultPrevouts.lookup (vaultOutPoint 0)
  control := ⟨tapscriptLeafVersion, false, List.replicate 32 0, []⟩
  annex := none
  leaf := leaf

def strictPolicy : Policy := ⟨true, fun _ _ => none⟩

/-- `<key> OP_CHECKSIG 1 OP_CAT`, given a signature of its transaction. -/
def checksigLeaf : Script := 0x20 :: List.replicate 32 2 ++ [0xac, 0x51, 0xfe]

def checksigWitness : Bytes := (1 :: List.replicate 31 0) ++ List.replicate 32 2

theorem checksigLeaf_sound :
    ReferenceAgrees .sample (leafContext₀ checksigLeaf) strictPolicy [checksigWitness] [] :=
  have haccepts : executeLeaf .sample (leafContext₀ checksigLeaf) [checksigWitness] [] = .ok [] := by
    decide
  (executeLeaf_sound_iff haccepts).mpr (by decide)

/-- `0 0 OP_CHECKSIG 1 OP_CAT`: an empty signature for an empty key, at which BIP342 fails. -/
def emptyKeyLeaf : Script := [0x00, 0x00, 0xac, 0x51, 0xfe]

theorem emptyKeyLeaf_unsound :
    executeLeaf .sample (leafContext₀ emptyKeyLeaf) [] [] = .ok [] ∧
    Bip342.succeeds .sample (rulesOf .sample (leafContext₀ emptyKeyLeaf) strictPolicy)
      emptyKeyLeaf [] = false :=
  ⟨by decide, by decide⟩

end Bip360Enforcer.Tapscript
