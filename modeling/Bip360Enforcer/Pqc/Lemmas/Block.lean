import Bip360Enforcer.Pqc.Lemmas.Spend
import Bip360Enforcer.Pqc.Lemmas.Tracking

/-!
# The P2MR spends of an accepted block are authorised
-/

namespace Bip360Enforcer.Pqc

open Except (bind_eq_ok_iff mapError_eq_ok_iff)

variable {C : Crypto} {clock : Clock}

/-- Each transaction after the coinbase is authorised to spend what it spends of the table `t`, as it
is after the transactions before it. -/
def BlockAuthorised (C : Crypto) (t : Table OutPoint TxOut) (block : Block) : Prop :=
  ∀ before tx after, block.txdata = before ++ tx :: after → before ≠ [] →
    ∀ (inputIndex : Nat) (input : TxIn) (prevout : TxOut), tx.input[inputIndex]? = some input →
      replayTxs C t before input.previousOutput = some prevout →
      Authorised C tx inputIndex input prevout (replayTxs C t before)

theorem validateTransaction_authorised {height : Nat} {activation : Bip360Activation}
    {tx : Transaction} {view : SpendView} {timer timer' : Timer} {t : Table OutPoint TxOut}
    (hactive : activation.isActive height = true)
    (ht : ∀ op txout, t op = some txout →
      view.availablePrevouts.lookup op = some txout ∧ isP2mr txout)
    (h : validateTransaction C clock height activation tx view timer = .ok timer') (inputIndex : Nat)
    (input : TxIn) (prevout : TxOut) (hinput : tx.input[inputIndex]? = some input)
    (hprevout : t input.previousOutput = some prevout) :
    Authorised C tx inputIndex input prevout t := by
  rw [validateTransaction, hactive] at h
  obtain ⟨_, hspends, -⟩ := bind_eq_ok_iff.mp h
  exact validateTransactionSpends_authorised ht (mapError_eq_ok_iff.mp hspends) inputIndex input
    prevout hinput hprevout

theorem validateAndDiff_authorised {block : Block} {chain : List Block} {height budget : Nat}
    {activation : Bip360Activation} {chainUtxos extraPrevouts : PrevoutMap}
    {diff : P2mrUtxoBlockDiff} (hcore : CoreChain C (block :: chain))
    (hchain : ∀ op, chainUtxos.lookup op = replay C chain op)
    (hextra : ∀ op txout, extraPrevouts.lookup op = some txout → ¬ isP2mr txout)
    (hactive : activation.isActive height = true)
    (hok : validateAndDiffBlockTransactions C clock block height activation chainUtxos extraPrevouts
      budget = .ok diff) :
    BlockAuthorised C (replay C chain) block := by
  intro before tx after hsplit hne
  cases before with
  | nil => exact absurd rfl hne
  | cons coinbase done =>
      rw [List.cons_append] at hsplit
      unfold validateAndDiffBlockTransactions at hok
      rw [hactive, if_neg (by simp)] at hok
      obtain ⟨last, hlast, -⟩ := bind_eq_ok_iff.mp hok
      rw [hsplit, List.drop_one, List.tail_cons] at hlast
      obtain ⟨st, hdone, hrest⟩ := Except.foldlM_append_ok_iff.mp hlast
      obtain ⟨st', hstep, -⟩ := Except.foldlM_cons_ok_iff.mp hrest
      obtain ⟨timer, htx, -⟩ := bind_eq_ok_iff.mp hstep
      have htracks := hcore.blockOn.validateBlockTransactions_tracks hchain hextra hsplit rfl hdone
      refine validateTransaction_authorised hactive ?_ htx
      intro op txout hop
      rw [← htracks.available op] at hop
      exact Option.filter_eq_some_iff.mp hop

end Bip360Enforcer.Pqc
