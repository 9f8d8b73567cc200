import Bip360Enforcer.Tapscript.Lemmas.Vault

/-!
# The checks queued by a run, and what evaluating them shows
-/

namespace Bip360Enforcer.Tapscript

open Except (bind_eq_ok_iff foldlM_cons_ok_iff)

variable {C : Crypto} {ctx : LeafContext} {stack stack' : Stack} {tx : Transaction}
  {prevouts : PrevoutMap} {queued : List DeferredCheck}

/-! ## Queueing -/

/-- `queued` is what the executions `es` of the leaf of `ctx` have queued. -/
structure Queues (ctx : LeafContext) (es : List VaultExecution) (queued : List DeferredCheck) :
    Prop where
  executions_eq : es = queued.map DeferredCheck.execution
  queuedBy : ∀ check ∈ queued, QueuedBy ctx check

theorem Queues.nil : Queues ctx [] [] := ⟨rfl, by simp⟩

theorem Queues.append {es es' : List VaultExecution} {queued queued' : List DeferredCheck}
    (h : Queues ctx es queued) (h' : Queues ctx es' queued') :
    Queues ctx (es ++ es') (queued ++ queued') where
  executions_eq := by rw [h.executions_eq, h'.executions_eq, List.map_append]
  queuedBy check hcheck := by
    rcases List.mem_append.mp hcheck with hc | hc
    · exact h.queuedBy check hc
    · exact h'.queuedBy check hc

theorem execOp_queues {op : Opcode} (h : execOp C ctx op stack = .ok (stack', queued)) :
    Queues ctx (vaultExecution ctx.inputValue op stack.items) queued := by
  unfold execOp at h
  split at h
  · simp only [bind_eq_ok_iff, Prod.exists, Except.ok.injEq, Prod.mk.injEq] at h
    obtain ⟨_, check, hvault, -, rfl⟩ := h
    obtain ⟨hqueued, hexec⟩ := execOpVault_queues hvault
    exact ⟨hexec, by simpa using hqueued⟩
  · simp only [bind_eq_ok_iff, Prod.exists, Except.ok.injEq, Prod.mk.injEq] at h
    obtain ⟨_, check, hrecover, -, rfl⟩ := h
    obtain ⟨hqueued, hexec⟩ := execOpVaultRecover_queues hrecover
    exact ⟨hexec, by simpa using hqueued⟩
  · rename_i hvault hrecover
    simp only [bind_eq_ok_iff, Except.ok.injEq, Prod.mk.injEq] at h
    obtain ⟨_, -, -, rfl⟩ := h
    have hnone : vaultExecution ctx.inputValue op stack.items = [] := by
      unfold vaultExecution
      split
      · exact absurd rfl hvault
      · exact absurd rfl hrecover
      · rfl
    rw [hnone]
    exact .nil

theorem execItem_queues {item : Item} (h : execItem C ctx stack item = .ok (stack', queued)) :
    Queues ctx (itemExecutions ctx stack item) queued := by
  unfold execItem at h
  split at h
  · simp at h
  · simp only [bind_eq_ok_iff, Except.ok.injEq, Prod.mk.injEq] at h
    obtain ⟨_, -, -, rfl⟩ := h
    exact .nil
  · exact execOp_queues h

/-- A run queues one check for each vault execution on its way, and keeps what was queued before. -/
theorem run_queues {items : List Item} {m m' : Machine} (h : items.foldlM (step C ctx) m = .ok m') :
    ∃ queued, m'.deferred = m.deferred ++ queued ∧
      Queues ctx (runExecutions C ctx m.stack items) queued := by
  induction items generalizing m with
  | nil =>
      obtain rfl : m = m' := by simpa [pure, Except.pure] using h
      exact ⟨[], by simp, .nil⟩
  | cons item items ih =>
      obtain ⟨t, hstep, hrest⟩ := foldlM_cons_ok_iff.mp h
      simp only [step, bind_eq_ok_iff, Prod.exists, Except.ok.injEq] at hstep
      obtain ⟨stack, queued, hitem, rfl⟩ := hstep
      obtain ⟨queued', hdeferred, hqueues⟩ := ih hrest
      refine ⟨queued ++ queued', by rw [hdeferred, List.append_assoc], ?_⟩
      rw [runExecutions, hitem]
      exact (execItem_queues hitem).append hqueues

theorem enforceInput_queues {before after : List DeferredCheck} {entry : TxIn × Nat}
    (h : enforceInput C tx prevouts before entry = .ok after) :
    ∃ queued, after = before ++ queued ∧
      inputExecutions C tx prevouts entry = queued.map DeferredCheck.execution ∧
      ∀ check ∈ queued, check.WellFormed tx ∧ ∃ txout,
        prevouts.lookup entry.1.previousOutput = some txout ∧ check.inputAmount = txout.value := by
  obtain ⟨input, inputIndex⟩ := entry
  simp only [enforceInput] at h
  split at h
  · rename_i hnone
    simp only [Except.ok.injEq] at h
    exact ⟨[], by simp [h], by simp [inputExecutions, hnone], by simp⟩
  · rename_i enforced henforced
    simp only [Except.mapError_eq_ok_iff, executeLeaf, bind_eq_ok_iff, Except.ok.injEq] at h
    obtain ⟨stack, hstack, m, hrun, -, -, rfl⟩ := h
    obtain ⟨queued, hdeferred, hqueues⟩ := run_queues hrun
    refine ⟨queued, hdeferred, ?_, fun check hcheck => ?_⟩
    · rw [← hqueues.executions_eq]
      simp only [inputExecutions, henforced, hstack]
      rfl
    · have := hqueues.queuedBy check hcheck
      exact ⟨this.wellFormed, this.inputAmount_eq⟩

/-- What the inputs `entries` of `tx` have queued. -/
structure InputsQueue (C : Crypto) (tx : Transaction) (prevouts : PrevoutMap)
    (entries : List (TxIn × Nat)) (deferred : List DeferredCheck) : Prop where
  executions_eq :
    entries.flatMap (inputExecutions C tx prevouts) = deferred.map DeferredCheck.execution
  wellFormed : ∀ check ∈ deferred, check.WellFormed tx
  byInput : ∀ entry ∈ entries, ∃ queued : List DeferredCheck, queued ⊆ deferred ∧
    inputExecutions C tx prevouts entry = queued.map DeferredCheck.execution ∧
    ∀ check ∈ queued, ∃ txout,
      prevouts.lookup entry.1.previousOutput = some txout ∧ check.inputAmount = txout.value

theorem enforceInputs_queues {entries : List (TxIn × Nat)} {deferred : List DeferredCheck}
    (h : entries.foldlM (enforceInput C tx prevouts) [] = .ok deferred) :
    InputsQueue C tx prevouts entries deferred := by
  refine Except.foldlM_induction (motive := InputsQueue C tx prevouts) ⟨rfl, by simp, by simp⟩ ?_ h
  intro done entry before after _ hqueue hstep
  obtain ⟨queued, rfl, hqueued, hchecks⟩ := enforceInput_queues hstep
  refine ⟨by simp [hqueue.executions_eq, hqueued], ?_, ?_⟩
  · intro check hcheck
    rcases List.mem_append.mp hcheck with hc | hc
    · exact hqueue.wellFormed check hc
    · exact (hchecks check hc).1
  · intro e he
    rcases List.mem_append.mp he with he | he
    · obtain ⟨q, hq, hrest⟩ := hqueue.byInput e he
      exact ⟨q, List.subset_append_of_subset_left _ hq, hrest⟩
    · obtain rfl := List.mem_singleton.mp he
      exact ⟨queued, List.subset_append_right _ _, hqueued, fun check hc => (hchecks check hc).2⟩

/-! ## Evaluation -/

/-- The amount collected for the output at `idx`. -/
def OutMap.amount (outMap : OutMap) (idx : Nat) : Nat := ((outMap.lookup idx).getD 0).toNat

theorem addAmount_ok {outMap outMap' : OutMap} {idx : Nat} {amount : UInt64}
    (h : addAmount outMap idx amount = .ok outMap') (k : Nat) :
    outMap'.amount k = outMap.amount k + if idx = k then amount.toNat else 0 := by
  unfold addAmount checkedAdd at h
  split at h
  · rename_i total htotal
    split_ifs at htotal with hlt
    simp only [Option.some.injEq] at htotal
    simp only [Except.ok.injEq] at h
    subst h htotal
    by_cases hk : idx = k
    · subst hk
      rw [OutMap.amount, AList.lookup_insert, Option.getD_some, UInt64.toNat_add,
        Nat.mod_eq_of_lt hlt, if_pos rfl]
      rfl
    · rw [OutMap.amount, AList.lookup_insert_ne (Ne.symm hk), if_neg hk]
      rfl
  · simp at h

/-- A check adds what its execution assigns, and nothing is subtracted below zero. -/
theorem collectCheck_ok {outMap outMap' : OutMap} {check : DeferredCheck}
    (hwf : check.WellFormed tx) (h : collectCheck outMap check = .ok outMap') :
    (∀ k, outMap'.amount k = outMap.amount k + tally check.execution.assigned k) ∧
      check.execution.total = check.inputAmount.toNat := by
  cases check with
  | trigger inputAmount revaultAmount triggerIdx revaultIdx =>
      simp only [collectCheck, checkedSub] at h
      split at h
      · simp at h
      · rename_i carry hcarry
        split_ifs at hcarry with hle
        simp only [Option.some.injEq] at hcarry
        subst hcarry
        have hle' : revaultAmount.toNat ≤ inputAmount.toNat := UInt64.le_iff_toNat_le.mp hle
        have hsub : (inputAmount - revaultAmount).toNat = inputAmount.toNat - revaultAmount.toNat :=
          UInt64.toNat_sub_of_le _ _ hle
        obtain ⟨mid, hmid, h⟩ := bind_eq_ok_iff.mp h
        have htrigger := addAmount_ok hmid
        rw [hsub] at htrigger
        refine ⟨fun k => ?_, ?_⟩
        · have happend : tally (DeferredCheck.trigger inputAmount revaultAmount triggerIdx
              revaultIdx).execution.assigned k
              = (if triggerIdx = k then inputAmount.toNat - revaultAmount.toNat else 0)
                + if revaultIdx.toInt.toNat = k then revaultAmount.toNat else 0 := by
            rw [← Tally.singleton, ← Tally.concat]
            rfl
          rw [happend]
          split_ifs at h with hpos
          · have hpos' : 0 < revaultAmount.toNat := UInt64.lt_iff_toNat_lt.mp hpos
            have hidx := toNat_toUInt64 (hwf.2 hpos').1
            have hrevault := addAmount_ok h k
            rw [hidx] at hrevault
            rw [hrevault, htrigger k]
            omega
          · simp only [Except.ok.injEq] at h
            subst h
            have hzero : revaultAmount.toNat = 0 := by
              have := mt UInt64.lt_iff_toNat_lt.mpr hpos
              simpa using this
            rw [htrigger k, hzero]
            simp
        · show inputAmount.toNat - revaultAmount.toNat + revaultAmount.toNat = inputAmount.toNat
          omega
  | recovery inputAmount voutIdx =>
      refine ⟨fun k => ?_, rfl⟩
      rw [addAmount_ok h k]
      exact congrArg _ (Tally.singleton voutIdx k inputAmount.toNat).symm

theorem collectChecks_ok {checks : List DeferredCheck} {outMap : OutMap}
    (hwf : ∀ check ∈ checks, check.WellFormed tx) (h : checks.foldlM collectCheck ∅ = .ok outMap) :
    (∀ k, outMap.amount k = tally (checks.flatMap fun check => check.execution.assigned) k) ∧
      ∀ check ∈ checks, check.execution.total = check.inputAmount.toNat := by
  refine Except.foldlM_induction (motive := fun done outMap =>
    (∀ k, outMap.amount k = tally (done.flatMap fun check => check.execution.assigned) k) ∧
      ∀ check ∈ done, check.execution.total = check.inputAmount.toNat)
    ⟨fun k => by simp [OutMap.amount], by simp⟩ ?_ h
  rintro done check before after hmem ⟨hamounts, htotals⟩ hstep
  obtain ⟨hadd, htotal⟩ := collectCheck_ok (hwf check hmem) hstep
  refine ⟨fun k => ?_, fun c hc => ?_⟩
  · rw [hadd k, hamounts k, List.flatMap_append, Tally.append]
    simp
  · rcases List.mem_append.mp hc with hc | hc
    · exact htotals c hc
    · rw [List.mem_singleton.mp hc]; exact htotal

/-- Every output carries what the checks assign to it, and each check assigns its input amount. -/
theorem evaluateDeferredChecks_ok {checks : List DeferredCheck}
    (hwf : ∀ check ∈ checks, check.WellFormed tx) (h : evaluateDeferredChecks checks tx = .ok ()) :
    (∀ idx, tally (checks.flatMap fun check => check.execution.assigned) idx ≤ outputValue tx idx) ∧
      ∀ check ∈ checks, check.execution.total = check.inputAmount.toNat := by
  unfold evaluateDeferredChecks at h
  split_ifs at h with hempty
  · obtain rfl : checks = [] := by simpa using hempty
    simp
  · obtain ⟨outMap, hcollect, hcheck⟩ := bind_eq_ok_iff.mp h
    obtain ⟨hamounts, htotals⟩ := collectChecks_ok hwf hcollect
    refine ⟨fun idx => ?_, htotals⟩
    rw [← hamounts, OutMap.amount, outputValue]
    cases hlookup : outMap.lookup idx with
    | none => simp
    | some amount =>
        have hentry := Except.forM_eq_ok_iff.mp hcheck ⟨idx, amount⟩
          (AList.mem_lookup_iff.mp hlookup)
        simp only [checkOutput] at hentry
        split at hentry
        · simp at hentry
        · rename_i out hout
          split_ifs at hentry with hlt
          simpa [hout] using UInt64.le_iff_toNat_le.mp (UInt64.not_lt.mp hlt)

end Bip360Enforcer.Tapscript
