import Bip360Enforcer.Tapscript.Lemmas.Stack
import Bip360Enforcer.Tapscript.Vault

/-!
# What the vault opcodes take from the stack and queue
-/

namespace Bip360Enforcer.Tapscript

open Except (bind_eq_ok_iff)
open SignMagnitude (value Minimal)

variable {C : Crypto} {ctx : LeafContext} {stack stack' : Stack} {check : DeferredCheck} {tx : Transaction}

/-! ## Arguments -/

/-- `n` is the number of at most `maxLen` bytes on the stack as `item`. -/
structure ReadsNum (item : Bytes) (maxLen : Nat) (n : Int64) : Prop where
  length_le : item.length ≤ maxLen
  minimal : Minimal item
  toInt_eq : n.toInt = value item

/-- The elements that OP_VAULT pops, and the checks they have passed. -/
structure PopsVaultArgs (items below : List Bytes) (numOutputs : Int64) (args : VaultArgs)
    (body pushCount trigger revault amount : Bytes) (pushed : List Bytes) : Prop where
  items_eq : items = body :: pushCount :: (pushed ++ trigger :: revault :: amount :: below)
  leafUpdate_eq : args.leafUpdate = pushed.reverse.flatMap pushMinimal ++ body
  pushCount_len : pushCount.length ≤ 4
  pushCount_minimal : Minimal pushCount
  pushCount_eq : value pushCount = pushed.length
  triggerIdx : ReadsNum trigger 4 args.triggerIdx
  triggerIdx_nonneg : 0 ≤ args.triggerIdx.toInt
  triggerIdx_lt : args.triggerIdx.toInt < numOutputs.toInt
  revaultIdx : ReadsNum revault 4 args.revaultIdx
  revaultIdx_ge : -1 ≤ args.revaultIdx.toInt
  revaultIdx_lt : args.revaultIdx.toInt < numOutputs.toInt
  revaultAmount : ReadsNum amount 7 args.revaultAmount
  revaultAmount_nonneg : 0 ≤ args.revaultAmount.toInt
  revault_iff : 0 < args.revaultAmount.toInt ↔ 0 ≤ args.revaultIdx.toInt

theorem toNat_toUInt64 {n : Int64} (h : 0 ≤ n.toInt) : n.toUInt64.toNat = n.toInt.toNat := by
  have hlt := n.toInt_lt
  have heq : n.toInt = if 2 * n.toBitVec.toNat < 2 ^ 64 then (n.toBitVec.toNat : Int)
      else n.toBitVec.toNat - 2 ^ 64 := BitVec.toInt_eq_toNat_cond n.toBitVec
  have hnat : n.toUInt64.toNat = n.toBitVec.toNat := rfl
  have := n.toBitVec.isLt
  rw [hnat]
  split at heq <;> omega

theorem popNum_reads {stack rest : Stack} {opcode : String} {maxLen : Nat} {n : Int64}
    (hm : maxLen ≤ 8) (h : popNum stack opcode maxLen = .ok (n, rest)) :
    ∃ item, stack.items = item :: rest.items ∧ ReadsNum item maxLen n := by
  obtain ⟨item, hitems, hlen, hmin, hval⟩ := (popNum_eq_ok hm).mp h
  exact ⟨item, hitems, hlen, hmin, hval⟩

theorem popVaultArgs_ok {stack rest : Stack} {numOutputs : Int64} {args : VaultArgs}
    (h : popVaultArgs stack numOutputs = .ok (args, rest)) :
    ∃ body pushCount trigger revault amount pushed,
      PopsVaultArgs stack.items rest.items numOutputs args body pushCount trigger revault amount
        pushed := by
  simp only [popVaultArgs, bind_eq_ok_iff, Prod.exists] at h
  obtain ⟨body, s₁, h₁, count, s₂, h₂, h⟩ := h
  split_ifs at h with hneg hlen
  simp only [bind_eq_ok_iff, Prod.exists] at h
  obtain ⟨pushed, s₃, h₃, triggerIdx, s₄, h₄, h⟩ := h
  split_ifs at h with htrigger
  simp only [bind_eq_ok_iff, Prod.exists] at h
  obtain ⟨revaultIdx, s₅, h₅, h⟩ := h
  split_ifs at h with hrevault
  simp only [bind_eq_ok_iff, Prod.exists] at h
  obtain ⟨revaultAmount, s₆, h₆, h⟩ := h
  split_ifs at h with hamount
  simp only [Except.ok.injEq, Prod.mk.injEq] at h
  obtain ⟨rfl, rfl⟩ := h
  obtain ⟨pushCount, i₂, hcount⟩ := popNum_reads (by omega) h₂
  obtain ⟨trigger, i₄, htrig⟩ := popNum_reads (by omega) h₄
  obtain ⟨revault, i₅, hrev⟩ := popNum_reads (by omega) h₅
  obtain ⟨amount, i₆, ham⟩ := popNum_reads (by omega) h₆
  obtain ⟨i₃, hpushed⟩ := Stack.popN_eq_ok.mp h₃
  have hminus : (-1 : Int64).toInt = -1 := rfl
  simp only [gt_iff_lt, ne_eq, Int64.lt_iff_toInt_lt, Int64.le_iff_toInt_le, ← Int64.toInt_inj,
    Int64.toInt_zero, hminus, not_or, not_and, not_lt, not_le, not_not]
    at hneg htrigger hrevault hamount
  have hcountNat := toNat_toUInt64 hneg
  refine ⟨body, pushCount, trigger, revault, amount, pushed, ?_⟩
  constructor
  · rw [Stack.pop_eq_ok.mp h₁, i₂, hpushed, i₄, i₅, i₆]
  · rfl
  · exact hcount.length_le
  · exact hcount.minimal
  · rw [← hcount.toInt_eq]; omega
  · exact htrig
  · exact htrigger.1
  · exact htrigger.2
  · exact hrev
  · have := hrevault.2; show -1 ≤ revaultIdx.toInt; omega
  · exact hrevault.1
  · exact ham
  · exact hamount.1
  · show 0 < revaultAmount.toInt ↔ 0 ≤ revaultIdx.toInt
    omega

/-! ## Outputs -/

theorem outputAt_ok {idx : Int64} {out : TxOut} (hidx : 0 ≤ idx.toInt)
    (h : outputAt tx idx = .ok out) : tx.output[idx.toInt.toNat]? = some out := by
  unfold outputAt at h
  rw [toNat_toUInt64 hidx] at h
  split at h
  · rename_i out' hout
    simp only [Except.ok.injEq] at h
    rw [hout, h]
  · simp at h

/-! ## Queued checks -/

namespace DeferredCheck

/-- The execution that queued the check. -/
def execution : DeferredCheck → VaultExecution
  | trigger inputAmount revaultAmount triggerIdx revaultIdx =>
      .vault triggerIdx (inputAmount.toNat - revaultAmount.toNat) revaultIdx.toInt.toNat
        revaultAmount.toNat
  | recovery inputAmount voutIdx => .recover voutIdx inputAmount.toNat

def inputAmount : DeferredCheck → UInt64
  | trigger inputAmount _ _ _ => inputAmount
  | recovery inputAmount _ => inputAmount

/-- The outputs named exist, and there is a revault output when an amount is assigned to it. -/
def WellFormed (tx : Transaction) : DeferredCheck → Prop
  | trigger _ revaultAmount triggerIdx revaultIdx =>
      triggerIdx < tx.output.length ∧ (0 < revaultAmount.toNat →
        0 ≤ revaultIdx.toInt ∧ revaultIdx.toInt.toNat < tx.output.length)
  | recovery _ voutIdx => voutIdx < tx.output.length

end DeferredCheck

/-- A check that the input of `ctx` may queue. -/
structure QueuedBy (ctx : LeafContext) (check : DeferredCheck) : Prop where
  inputAmount_eq : ∃ txout, ctx.inputTxout = some txout ∧ check.inputAmount = txout.value
  wellFormed : check.WellFormed ctx.tx

/-- OP_VAULT queues one check, made of what it reads off the stack. -/
theorem execOpVault_queues (h : execOpVault C ctx stack = .ok (stack', check)) :
    QueuedBy ctx check ∧ vaultExecution ctx.inputValue .vault stack.items = [check.execution] := by
  unfold execOpVault at h
  split at h
  · simp at h
  · rename_i txout htxout
    simp only [bind_eq_ok_iff, Prod.exists] at h
    obtain ⟨args, rest, hargs, triggerOut, htrigger, h⟩ := h
    split_ifs at h with hv1 hspk
    obtain ⟨revaultValue, hrevault, h⟩ := bind_eq_ok_iff.mp h
    split at h
    · simp at h
    · split_ifs at h
      simp only [bind_eq_ok_iff, Except.ok.injEq, Prod.mk.injEq] at h
      obtain ⟨_, -, -, rfl⟩ := h
      obtain ⟨body, pushCount, trigger, revault, amount, pushed, hpop⟩ := popVaultArgs_ok hargs
      have hout := outputAt_ok hpop.triggerIdx_nonneg htrigger
      have hamount := toNat_toUInt64 hpop.revaultAmount_nonneg
      have htrig := toNat_toUInt64 hpop.triggerIdx_nonneg
      refine ⟨⟨⟨txout, htxout, rfl⟩, ?_⟩, ?_⟩
      · refine ⟨?_, fun hpos => ?_⟩
        · rw [htrig]; exact (List.getElem?_eq_some_iff.mp hout).1
        · have hidx := hpop.revault_iff.mp (by omega)
          refine ⟨hidx, ?_⟩
          unfold checkRevaultOut at hrevault
          rw [if_pos (Int64.le_iff_toInt_le.mpr (by simpa using hidx))] at hrevault
          obtain ⟨out, hrev, -⟩ := bind_eq_ok_iff.mp hrevault
          exact (List.getElem?_eq_some_iff.mp (outputAt_ok hidx hrev)).1
      · simp only [vaultExecution, hpop.items_eq, hpop.pushCount_eq, Int.toNat_natCast,
          List.drop_left, DeferredCheck.execution, ← hpop.triggerIdx.toInt_eq,
          ← hpop.revaultIdx.toInt_eq, ← hpop.revaultAmount.toInt_eq, hamount, htrig,
          LeafContext.inputValue, htxout, Option.map_some, Option.getD_some]

/-- OP_VAULT_RECOVER queues one check, made of what it reads off the stack. -/
theorem execOpVaultRecover_queues (h : execOpVaultRecover C ctx stack = .ok (stack', check)) :
    QueuedBy ctx check ∧ vaultExecution ctx.inputValue .vaultRecover stack.items = [check.execution] := by
  unfold execOpVaultRecover at h
  split at h
  · simp at h
  · rename_i txout htxout
    simp only [bind_eq_ok_iff, Prod.exists] at h
    obtain ⟨hashArg, rest, hhash, h⟩ := h
    split_ifs at h
    simp only [bind_eq_ok_iff, Prod.exists] at h
    obtain ⟨voutIdx, rest', hvout, h⟩ := h
    split_ifs at h with hrange
    obtain ⟨out, hout, h⟩ := bind_eq_ok_iff.mp h
    split_ifs at h
    simp only [bind_eq_ok_iff, Except.ok.injEq, Prod.mk.injEq] at h
    obtain ⟨_, -, -, rfl⟩ := h
    obtain ⟨item, hitems, hnum⟩ := popNum_reads (by omega) hvout
    simp only [not_or, Int64.lt_iff_toInt_lt, Int64.toInt_zero, not_lt] at hrange
    have hidx := toNat_toUInt64 hrange.1
    refine ⟨⟨⟨txout, htxout, rfl⟩, ?_⟩, ?_⟩
    · show voutIdx.toUInt64.toNat < ctx.tx.output.length
      rw [hidx]
      exact (List.getElem?_eq_some_iff.mp (outputAt_ok hrange.1 hout)).1
    · simp only [vaultExecution, Stack.pop_eq_ok.mp hhash, hitems, DeferredCheck.execution,
        ← hnum.toInt_eq, hidx, LeafContext.inputValue, htxout, Option.map_some, Option.getD_some]

end Bip360Enforcer.Tapscript
