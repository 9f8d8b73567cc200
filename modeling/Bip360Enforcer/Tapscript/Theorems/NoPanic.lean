import Bip360Enforcer.Tapscript.Lemmas.CheckedRuns
import Bip360Enforcer.Tapscript.Theorems

/-!
# The tapscript pass does not panic
-/

namespace Bip360Enforcer.Tapscript

variable {C : Crypto} {tx : Transaction} {prevouts : PrevoutMap} {ctx : LeafContext}

/-- An execution without the checks is where one of a `Stack` is, which carries the limits. -/
theorem Checked.Reaches.limits {initialStack : List Bytes} {deferred : List DeferredCheck}
    {m : Checked.Machine} (h : Checked.InMemory ctx.tx) (hi : ctx.inputIndex < ctx.tx.input.length)
    (hm : Checked.Reaches C ctx initialStack deferred m) :
    m.items.length ≤ maxStackSize ∧ ∀ item ∈ m.items, item.length ≤ maxScriptElementSize := by
  obtain ⟨items, done, hnew, -, hrun⟩ := hm
  obtain ⟨stack, -, rfl⟩ := (Checked.newStack_refines initialStack).ok_inv hnew
  obtain ⟨m', -, rfl⟩ := (Checked.steps_refines h hi ⟨stack, deferred⟩ done).ok_inv hrun
  exact ⟨m'.stack.length_le, m'.stack.element_le⟩

/-- With every operation that may panic made explicit, the pass comes out with a verdict, the indices
and amounts queued are ones that exist, and no stack on the way is over the limits. -/
theorem enforceTransaction_noPanic (h : Checked.InMemory tx) :
    (∀ panic, Checked.enforceTransaction C tx prevouts ≠ .error (.panic panic)) ∧
    (∀ deferred, tx.input.zipIdx.foldlM (Checked.enforceInput C tx prevouts) [] = .ok deferred →
      ∀ check ∈ deferred, check.WellFormed tx) ∧
    ∀ input inputIndex enforced, tx.input[inputIndex]? = some input →
      Checked.detectEnforcedLeaf C input.witness = .ok (some enforced) →
      ∀ deferred m, Checked.Reaches C (leafContext tx prevouts inputIndex input enforced) enforced.stack
          deferred m →
        m.items.length ≤ 1000 ∧ ∀ item ∈ m.items, item.length ≤ 520 := by
  refine ⟨(Checked.enforceTransaction_refines h).ne_panic, ?_, ?_⟩
  · intro deferred hdeferred
    obtain ⟨deferred', hqueue, rfl⟩ := (Checked.enforceInputs_refines h).ok_inv hdeferred
    exact (enforceInputs_queues hqueue).wellFormed
  · intro input inputIndex enforced hinput _ deferred m hm
    exact hm.limits h (List.getElem?_eq_some_iff.mp hinput).1

theorem vaultTx_noPanic :
    (∀ panic, Checked.enforceTransaction .sample vaultTx vaultPrevouts ≠ .error (.panic panic)) ∧
    Checked.enforceTransaction .sample vaultTx vaultPrevouts = .ok () :=
  ⟨(enforceTransaction_noPanic ⟨by decide, by decide, by decide⟩).1, by decide⟩

end Bip360Enforcer.Tapscript
