import Bip360Enforcer.Validator.Lemmas.Presented
import Bip360Enforcer.Validator.Theorems.Ledger

/-!
# Disconnecting a block that is not connected
-/

namespace Bip360Enforcer.Validator

variable {C : Crypto} {headers : Set Header} {dbs : Dbs} {accepted : List BlockHash}

/-- Disconnecting the block succeeds and changes nothing. -/
def NoOp (C : Crypto) (blockHash : BlockHash) (s : Store) : Prop :=
  ∃ t, Validator.disconnectBlock C blockHash s = (.ok (), t) ∧ t.dbs = s.dbs ∧ t.events = s.events

/-- The absence of a stored diff is what makes a disconnect succeed without effect. -/
theorem noOp_iff {blockHash : BlockHash} {s : Store} (hfaults : ∀ n sent, s.faults n sent = false) :
    NoOp C blockHash s ↔ s.dbs.diff.lookup blockHash = none := by
  constructor
  · rintro ⟨t, hrun, -, hevents⟩
    obtain ⟨-, -, ⟨hnone, -⟩ | ⟨diff, header, -, hsent⟩⟩ := disconnectBlock_live_wp.ok hrun
    · exact hnone
    · rw [hevents] at hsent
      simp at hsent
  · intro hnone
    rcases hrun : Validator.disconnectBlock C blockHash s with ⟨outcome, t⟩
    cases outcome with
    | ok =>
        obtain ⟨-, -, ⟨-, hdbs, hevents⟩ | ⟨diff, header, hdisconnects, -⟩⟩ :=
          disconnectBlock_live_wp.ok hrun
        · exact ⟨t, hrun, hdbs, hevents⟩
        · have hdiff := hdisconnects.hasDiff
          rw [hnone] at hdiff
          cases hdiff
    | error e =>
        have hfault : ¬ ∃ n sent, s.faults n sent = true := by
          rintro ⟨n, sent, hn⟩
          rw [hfaults] at hn
          cases hn
        obtain ⟨-, -, -, ⟨-, hreason⟩ | ⟨-, n, hn⟩⟩ := disconnectBlock_live_wp.error hrun
        · rcases hreason with hreason | hstuck
          · exact absurd hreason hfault
          · have hdiff := hstuck.hasDiff
            rw [hnone] at hdiff
            cases hdiff
        · exact absurd ⟨n, true, hn⟩ hfault

/-- Whatever was presented before, disconnecting a block is without effect if and only if it was never
accepted; and the stored diffs are those of the active chain if and only if no other block was ever
accepted. -/
theorem disconnectBlock_noOp_iff (hhashes : HonestHashes C headers)
    (h : Presented C headers dbs accepted) :
    (∀ (s : Store) (blockHash : BlockHash), s.dbs = dbs → (∀ n sent, s.faults n sent = false) →
      (NoOp C blockHash s ↔ blockHash ∉ accepted)) ∧
    ((∀ blockHash, (dbs.diff.lookup blockHash).isSome ↔ OnChain dbs blockHash) ↔
      ∀ blockHash ∈ accepted, OnChain dbs blockHash) := by
  have hrecorded := h.recorded hhashes
  constructor
  · rintro s blockHash rfl hfaults
    rw [noOp_iff hfaults, ← hrecorded.diff blockHash, Option.not_isSome_iff_eq_none]
  · constructor
    · intro hdiff blockHash hin
      exact (hdiff blockHash).mp ((hrecorded.diff blockHash).mpr hin)
    · intro hchain blockHash
      rw [hrecorded.diff blockHash]
      exact ⟨hchain blockHash, hrecorded.onChain⟩

theorem headerStore_presented : Presented .sample sampleHeaders headerStore.dbs [] :=
  .putHeaders (s := freshStore .empty) .empty (by simp [sampleHeaders]) headers_stored

theorem genesisStore_presented : Presented .sample sampleHeaders genesisStore.dbs
    [genesisHash] := .accept headerStore_presented genesis_connects

theorem child_noOp : NoOp .sample childHash (freshStore genesisStore.dbs) :=
  ((disconnectBlock_noOp_iff sampleHeaders_honest genesisStore_presented).1 (freshStore genesisStore.dbs)
    childHash rfl fun _ _ => rfl).mpr (by decide)

/-! The second block is accepted and disconnected; then it is presented again, and rejected as its
verification takes too long. -/

def slowHandler : BlockHandler := { sampleHandler with clock := fun _ _ => 1000000001 }

def slowError : Pqc.PqcValidationError :=
  .transaction (Crypto.sample.computeTxid spendTx) (.scheme .pqcVerifyBudgetExceeded)

def disconnectedStore : Store := (BlockHandler.disconnectBlock .sample childHash childStore).2

def rejectedStore : Store := (slowHandler.connectBlock .sample child disconnectedStore).2

theorem child_disconnects :
    BlockHandler.disconnectBlock .sample childHash childStore = (.ok (), disconnectedStore) := by
  unfold disconnectedStore
  exact Program.eq_of_fst (by decide +kernel)

theorem child_rejected : slowHandler.connectBlock .sample child disconnectedStore =
    (.error (.bip360 childHash slowError), rejectedStore) := by
  unfold rejectedStore
  exact Program.eq_of_fst (by decide +kernel)

theorem rejectedStore_presented : Presented .sample sampleHeaders rejectedStore.dbs
    [childHash, genesisHash] :=
  .reject (.disconnect (.accept genesisStore_presented child_connects) child_disconnects)
    child_rejected rfl

/-- The block was last rejected, but the diff of its first connection is still there: disconnecting it
fails. -/
theorem rejected_disconnect_fails :
    Presented .sample sampleHeaders rejectedStore.dbs
      [childHash, genesisHash] ∧
    slowHandler.connectBlock .sample child disconnectedStore =
      (.error (.bip360 childHash slowError), rejectedStore) ∧
    rejectedStore.dbs.currentChainTip ≠ some childHash ∧
    (Validator.disconnectBlock .sample childHash rejectedStore).1 =
      .error (.tipHash childHash (genesisHash)) ∧
    ¬ NoOp .sample childHash rejectedStore := by
  obtain ⟨htip, hfails⟩ : rejectedStore.dbs.currentChainTip ≠ some childHash ∧
      (Validator.disconnectBlock .sample childHash rejectedStore).1 =
        .error (.tipHash childHash (genesisHash)) := by decide +kernel
  refine ⟨rejectedStore_presented, child_rejected, htip, hfails, ?_⟩
  rintro ⟨t, hrun, -⟩
  rw [hrun] at hfails
  cases hfails

end Bip360Enforcer.Validator
