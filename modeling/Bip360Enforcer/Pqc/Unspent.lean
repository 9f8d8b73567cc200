import Bip360Enforcer.Pqc.Replay

/-!
# What the transactions of a chain leave unspent
-/

namespace Bip360Enforcer.Pqc

variable {C : Crypto} {txs : List Transaction} {tx : Transaction} {t : Table OutPoint TxOut}
  {op : OutPoint} {txout : TxOut}

/-- The transactions of a chain, oldest first. -/
def history : List Block → List Transaction
  | [] => []
  | block :: chain => history chain ++ block.txdata

/-- A transaction creates the P2MR output, and none after it spends it. -/
def Unspent (C : Crypto) (txs : List Transaction) (op : OutPoint) (txout : TxOut) : Prop :=
  ∃ before tx after, txs = before ++ tx :: after ∧ (op, txout) ∈ txOutputs C tx ∧ isP2mr txout ∧
    ∀ later ∈ after, ∀ input ∈ later.input, input.previousOutput ≠ op

theorem unspent_concat_iff :
    Unspent C (txs ++ [tx]) op txout ↔ ((op, txout) ∈ txOutputs C tx ∧ isP2mr txout) ∨
      (Unspent C txs op txout ∧ ∀ input ∈ tx.input, input.previousOutput ≠ op) := by
  constructor
  · rintro ⟨before, creator, after, htxs, hout, hp, hkept⟩
    cases after using List.reverseRecOn with
    | nil =>
        obtain ⟨-, heq⟩ := List.append_inj' htxs rfl
        cases heq
        exact .inl ⟨hout, hp⟩
    | append_singleton after last _ =>
        rw [← List.cons_append, ← List.append_assoc] at htxs
        obtain ⟨rfl, heq⟩ := List.append_inj' htxs rfl
        cases heq
        have hlast := hkept tx (List.mem_append_right _ (List.mem_singleton_self _))
        have hafter : ∀ later ∈ after, ∀ input ∈ later.input, input.previousOutput ≠ op := by
          intro later hlater
          exact hkept later (List.mem_append_left _ hlater)
        exact .inr ⟨⟨before, creator, after, rfl, hout, hp, hafter⟩, hlast⟩
  · rintro (⟨hout, hp⟩ | ⟨⟨before, creator, after, rfl, hout, hp, hkept⟩, hlast⟩)
    · exact ⟨txs, tx, [], rfl, hout, hp, fun _ hin => by cases hin⟩
    · refine ⟨before, creator, after ++ [tx], by simp, hout, hp, ?_⟩
      intro later hlater
      rcases List.mem_append.mp hlater with hlater | hlater
      · exact hkept later hlater
      · rw [List.mem_singleton.mp hlater]
        exact hlast

theorem Unspent.mem_outpoints (h : Unspent C txs op txout) : op ∈ outpoints C txs := by
  obtain ⟨before, creator, after, rfl, hout, -, -⟩ := h
  rw [Pqc.mem_outpoints]
  exact ⟨creator, List.mem_append_right _ List.mem_cons_self, (op, txout), hout, rfl⟩

/-! ## One transaction -/

/-- Adding outputs with keys of their own. -/
theorem act_addMoves_iff {outputs : List (OutPoint × TxOut)} (hnodup : (outputs.map Prod.fst).Nodup) :
    (addMoves outputs).foldl Move.act t op = some txout ↔ ((op, txout) ∈ outputs ∧ isP2mr txout) ∨
      ((∀ other, (op, other) ∈ outputs → ¬ isP2mr other) ∧ t op = some txout) := by
  induction outputs generalizing t with
  | nil => simp [addMoves]
  | cons e outputs ih =>
      obtain ⟨key, value⟩ := e
      obtain ⟨hkey, hnodup⟩ := List.nodup_cons.mp hnodup
      have hnone : ∀ other, (key, other) ∉ outputs := by
        intro other hin
        exact hkey (List.mem_map.mpr ⟨_, hin, rfl⟩)
      rw [addMoves_cons, List.foldl_append, ih hnodup]
      by_cases hp : isP2mr value
      · have hadd : addMoves [(key, value)] = [.add key value] := by simp [addMoves, hp]
        rw [hadd]
        by_cases hop : op = key
        · subst hop
          simp only [hnone, false_and, List.foldl_cons, List.foldl_nil, Move.act, Function.update_self,
            false_or, List.mem_cons, Prod.mk.injEq, true_and, or_false]
          constructor
          · rintro ⟨-, heq⟩
            cases heq
            exact .inl ⟨rfl, hp⟩
          · rintro (⟨rfl, -⟩ | ⟨hnot, -⟩)
            · exact ⟨fun _ h => h.elim, rfl⟩
            · exact absurd hp (hnot value rfl)
        · simp [Move.act, hop]
      · have hskip : addMoves [(key, value)] = [] := by simp [addMoves, hp]
        rw [hskip]
        by_cases hop : op = key
        · subst hop
          simp only [hnone, false_and, List.foldl_nil, false_or, List.mem_cons, Prod.mk.injEq, true_and,
            or_false]
          constructor
          · rintro ⟨-, hold⟩
            refine .inr ⟨fun other heq => ?_, hold⟩
            rw [heq]
            exact hp
          · rintro (⟨rfl, hp'⟩ | ⟨-, hold⟩)
            · exact absurd hp' hp
            · exact ⟨fun _ h => h.elim, hold⟩
        · simp [hop]

theorem act_txMoves_iff (hnodup : ((txOutputs C tx).map Prod.fst).Nodup)
    (hfresh : ∀ other, t op = some other → op ∉ (txOutputs C tx).map Prod.fst) :
    (txMoves C tx).foldl Move.act t op = some txout ↔ ((op, txout) ∈ txOutputs C tx ∧ isP2mr txout) ∨
      (t op = some txout ∧ ∀ input ∈ tx.input, input.previousOutput ≠ op) := by
  rw [txMoves, List.foldl_append, act_addMoves_iff hnodup, act_removes]
  constructor
  · rintro (hout | ⟨-, hold⟩)
    · exact .inl hout
    · split at hold
      · cases hold
      · rename_i hkept
        exact .inr ⟨hold, fun input hin heq => hkept ⟨input, hin, heq⟩⟩
  · rintro (hout | ⟨hold, hkept⟩)
    · exact .inl hout
    · have hspent : ¬ ∃ input ∈ tx.input, input.previousOutput = op := by
        rintro ⟨input, hin, heq⟩
        exact hkept input hin heq
      rw [if_neg hspent]
      have hnone : ∀ other, (op, other) ∈ txOutputs C tx → ¬ isP2mr other := by
        intro other hin
        exact absurd (List.mem_map_of_mem hin) (hfresh txout hold)
      exact .inr ⟨hnone, hold⟩

/-! ## Transactions and chains -/

theorem replayTxs_eq_some_iff (hnodup : (outpoints C txs).Nodup) :
    replayTxs C (fun _ => none) txs op = some txout ↔ Unspent C txs op txout := by
  induction txs using List.reverseRecOn generalizing txout with
  | nil =>
      refine iff_of_false (by simp [replayTxs]) ?_
      rintro ⟨before, creator, after, htxs, -⟩
      simp at htxs
  | append_singleton txs tx ih =>
      rw [outpoints_concat, List.nodup_append'] at hnodup
      obtain ⟨hbefore, hlast, hdisjoint⟩ := hnodup
      rw [replayTxs_append, unspent_concat_iff]
      have hsingle : replayTxs C (replayTxs C (fun _ => none) txs) [tx] op =
          (txMoves C tx).foldl Move.act (replayTxs C (fun _ => none) txs) op := by
        rw [replayTxs_cons]
        rfl
      rw [hsingle, act_txMoves_iff hlast, ih hbefore]
      intro other hold hin
      exact hdisjoint ((ih hbefore).mp hold).mem_outpoints hin

theorem replay_eq_replayTxs (chain : List Block) :
    replay C chain = replayTxs C (fun _ => none) (history chain) := by
  induction chain with
  | nil => rfl
  | cons block chain ih => rw [replay, history, replayTxs_append, ih]

theorem history_perm (chain : List Block) : (history chain).Perm (chain.flatMap Block.txdata) := by
  induction chain with
  | nil => exact .refl _
  | cons block chain ih => exact List.perm_append_comm.trans (ih.append_left block.txdata)

/-- The replay of a chain has what the chain leaves unspent. -/
theorem CoreChain.replay_eq_some_iff {chain : List Block} (h : CoreChain C chain) :
    replay C chain op = some txout ↔ Unspent C (history chain) op txout := by
  rw [replay_eq_replayTxs]
  have hperm : (outpoints C (history chain)).Perm (outpoints C (chain.flatMap Block.txdata)) :=
    ((history_perm chain).flatMap_right _).map Prod.fst
  exact replayTxs_eq_some_iff (hperm.nodup_iff.mpr h.nodup_outpoints)

end Bip360Enforcer.Pqc
