import Bip360Enforcer.Validator.Lemmas.Connect

/-!
# What disconnecting a block does
-/

namespace Bip360Enforcer.Validator

open Pqc (P2mrUtxoBlockDiff)
open Program (wp)

variable {C : Crypto} {dbs : Dbs}

/-- Disconnecting the block takes the databases `dbs` to `dbs'`. -/
structure Disconnects (blockHash : BlockHash) (dbs dbs' : Dbs) (diff : P2mrUtxoBlockDiff)
    (header : Header) : Prop where
  hasDiff : dbs.diff.lookup blockHash = some diff
  onTip : ∀ tip, dbs.currentChainTip = some tip → tip = blockHash
  hasHeader : dbs.header.lookup blockHash = some header
  hasHeight : (dbs.height.lookup blockHash).isSome
  result : dbs' = { dbs with
    p2mrUtxos := undoneUtxos diff dbs.p2mrUtxos
    currentChainTip := BlockHandler.tipBefore header.prevBlockhash }

/-- Why a block with a stored diff cannot be disconnected. -/
structure Stuck (blockHash : BlockHash) (dbs : Dbs) : Prop where
  hasDiff : (dbs.diff.lookup blockHash).isSome
  lacks : (∃ tip, dbs.currentChainTip = some tip ∧ tip ≠ blockHash) ∨
    dbs.header.lookup blockHash = none ∨ dbs.height.lookup blockHash = none

theorem getHeaderInfo_spec {blockHash : BlockHash} {fault : GetHeaderInfoError → Prop}
    (hfault : fault (fromDb .io)) :
    Spec (getHeaderInfo C blockHash) dbs
      (fun info d => d = dbs ∧ (dbs.height.lookup blockHash).isSome ∧
        ∃ header, dbs.header.lookup blockHash = some header ∧ info.prevBlockHash = header.prevBlockhash)
      (fun _ d => d = dbs ∧
        (dbs.header.lookup blockHash = none ∨ dbs.height.lookup blockHash = none)) fault := by
  refine Spec.bind (Spec.tryGet hfault ?_)
  cases hheader : dbs.header.lookup blockHash with
  | none => exact Spec.fail ⟨rfl, .inl rfl⟩
  | some header =>
      refine Spec.bind (Spec.tryGet hfault ?_)
      cases hheight : dbs.height.lookup blockHash with
      | none => exact Spec.fail ⟨rfl, .inr rfl⟩
      | some height => exact Spec.pure ⟨rfl, rfl, header, rfl, rfl⟩

theorem undoBlock_spec {blockHash : BlockHash} {fault : DisconnectBlockError → Prop}
    (hfault : ∀ e, fault e) :
    Spec (BlockHandler.undoBlock C blockHash) dbs
      (fun undone d => if undone then ∃ diff header, Disconnects blockHash dbs d diff header
        else dbs.diff.lookup blockHash = none ∧ d = dbs)
      (fun _ _ => Stuck blockHash dbs) fault := by
  refine Spec.bind (Spec.tryGet (hfault _) ?_)
  cases hdiff : dbs.diff.lookup blockHash with
  | none => exact Spec.pure ⟨rfl, rfl⟩
  | some diff =>
      have hstored : (dbs.diff.lookup blockHash).isSome := by rw [hdiff]; rfl
      refine Spec.bind (Spec.read (hfault _) ?_)
      cases htip : dbs.currentChainTip.filter (· ≠ blockHash) with
      | some tip =>
          obtain ⟨htip, hne⟩ := Option.filter_eq_some_iff.mp htip
          exact Spec.fail ⟨hstored, .inl ⟨tip, htip, by simpa using hne⟩⟩
      | none =>
          have honTip : ∀ tip, dbs.currentChainTip = some tip → tip = blockHash := by
            intro tip htip'
            simpa [htip'] using htip
          refine Spec.bind (Spec.mapError ((getHeaderInfo_spec (hfault (.getHeaderInfo _))).mono ?_ ?_ fun _ h => h))
          · rintro info d ⟨rfl, hheight, header, hheader, hprev⟩
            refine Spec.bind (Spec.mapError ((undoDiff_spec (hfault (.undo .io))).mono ?_ (fun _ _ h => h)
              fun _ h => h))
            rintro - d' rfl
            refine Spec.bind (Spec.write (hfault _) (Spec.pure ?_))
            exact ⟨diff, header, hdiff, honTip, hheader, hheight, by rw [hprev]⟩
          · rintro e d ⟨-, hnone⟩
            exact ⟨hstored, .inr hnone⟩

/-- Either nothing is stored of the block and nothing is done, or the block is undone and this is
broadcast. -/
theorem disconnectBlock_wp {blockHash : BlockHash} {s : Store} :
    wp (BlockHandler.disconnectBlock C blockHash)
      (fun _ t => (s.dbs.diff.lookup blockHash = none ∧ Quiet s t ∧ t.dbs = s.dbs) ∨
        ∃ diff header u, Disconnects blockHash s.dbs u.dbs diff header ∧ Quiet s u ∧
          t = u.send (.disconnectBlock blockHash))
      (fun _ t => Quiet s t ∧ (Faulty s ∨ Stuck blockHash s.dbs)) s := by
  unfold BlockHandler.disconnectBlock
  rw [Program.wp_bind]
  refine (undoBlock_spec (fun _ => trivial) s rfl).mono ?_ fun e t ht => ⟨ht.1, ht.2.symm.imp_left And.left⟩
  rintro undone t ⟨hquiet, ht⟩
  cases undone with
  | false => exact .inl ⟨ht.1, hquiet, ht.2⟩
  | true =>
      obtain ⟨diff, header, hdisconnects⟩ := ht
      exact .inr ⟨diff, header, t, hdisconnects, hquiet, rfl⟩

end Bip360Enforcer.Validator
