import Bip360Enforcer.Pqc.Lemmas.Spend
import Bip360Enforcer.Validator.Lemmas.Index

/-!
# Invariants of the reachable databases
-/

namespace Bip360Enforcer.Validator

open Pqc (CoreChain P2mrUtxoBlockDiff replay outpoints)

variable {C : Crypto} {headers : Set Header} {dbs dbs' : Dbs} {chain : List Block}

def hashesOf (C : Crypto) (chain : List Block) : List BlockHash :=
  chain.map fun block => C.blockHash block.header

/-- The table is the replay of the chain, and the stored diff of each block leads to its replay. -/
structure Tracked (C : Crypto) (headers : Set Header) (dbs : Dbs) (chain : List Block) : Prop where
  indexed : Indexed C headers dbs (hashesOf C chain)
  core : CoreChain C chain
  utxos : (fun op => dbs.p2mrUtxos.lookup op) = replay C chain
  diffs : ∀ block below, block :: below <:+ chain → ∃ diff,
    dbs.diff.lookup (C.blockHash block.header) = some diff ∧
      diff.Leads (replay C below) (replay C (block :: below)) (outpoints C block.txdata)

namespace Tracked

theorem empty : Tracked C headers .empty [] where
  indexed := by
    refine ⟨rfl, fun b below hb => ?_, List.nodup_nil, fun b hd hb => by cases hb⟩
    exact absurd (suffix_mem hb) List.not_mem_nil
  core := ⟨by simp, by simp, by simp⟩
  utxos := rfl
  diffs block below hb := absurd (suffix_mem hb) List.not_mem_nil

theorem moreHeaders (h : Tracked C headers dbs chain) (hmore : MoreHeaders C headers dbs dbs') :
    Tracked C headers dbs' chain := by
  have hindexed := h.indexed.moreHeaders hmore
  obtain ⟨header, height, rfl⟩ := hmore.rest
  exact ⟨hindexed, h.core, h.utxos, h.diffs⟩

variable {handler : BlockHandler} {block : Block} {height work : Nat} {coinbase : Transaction}
  {txs : List Transaction} {diff : P2mrUtxoBlockDiff} {header : Header}

theorem leads (h : Tracked C headers dbs chain) (hcore : CoreChain C (block :: chain))
    (hextra : NoP2mr handler.extraPrevouts)
    (hconnects : Connects C handler block dbs dbs' height coinbase txs diff header work) :
    diff.Leads (replay C chain) (replay C (block :: chain)) (outpoints C block.txdata) :=
  hcore.blockOn.validateAndDiff_leads (congrFun h.utxos) hextra hconnects.txdata hconnects.valid

theorem connect (h : Tracked C headers dbs chain) (hhashes : HonestHashes C headers)
    (hblock : block.header ∈ headers) (hcore : CoreChain C (block :: chain))
    (hextra : NoP2mr handler.extraPrevouts)
    (hconnects : Connects C handler block dbs dbs' height coinbase txs diff header work) :
    Tracked C headers dbs' (block :: chain) := by
  have hleads := h.leads hcore hextra hconnects
  have hindexed := h.indexed.connect hhashes hblock hconnects
  have hnotin := h.indexed.notMem hhashes hblock hconnects.onTip
  obtain rfl := hconnects.tip h.indexed hhashes hblock
  refine ⟨hindexed, hcore, ?_, fun b below hb => ?_⟩
  · change (fun op => (appliedUtxos diff dbs.p2mrUtxos).lookup op) = _
    rw [lookup_appliedUtxos, h.utxos, hleads.apply]
  · rcases suffix_cons hb with ⟨rfl, rfl⟩ | hb
    · exact ⟨diff, AList.lookup_insert _, hleads⟩
    · obtain ⟨diff', hdiff', hleads'⟩ := h.diffs b below hb
      have hne : C.blockHash b.header ≠ C.blockHash block.header := by
        intro heq
        exact hnotin (heq ▸ List.mem_map_of_mem (suffix_mem hb))
      exact ⟨diff', (AList.lookup_insert_ne hne).trans hdiff', hleads'⟩

theorem disconnect (h : Tracked C headers dbs (block :: chain))
    (hdisconnects : Disconnects (C.blockHash block.header) dbs dbs' diff header) :
    Tracked C headers dbs' chain := by
  obtain ⟨diff', hdiff', hleads⟩ := h.diffs block chain (List.suffix_refl _)
  obtain rfl : diff = diff' := Option.some.inj (hdisconnects.hasDiff.symm.trans hdiff')
  have hindexed := h.indexed.disconnect hdisconnects
  obtain rfl := hdisconnects.result
  refine ⟨hindexed, h.core.tail, ?_, fun b below hb => h.diffs b below (hb.trans (List.suffix_cons _ _))⟩
  change (fun op => (undoneUtxos diff dbs.p2mrUtxos).lookup op) = _
  rw [lookup_undoneUtxos, h.utxos, ← hleads.apply, TableDiff.undo_apply hleads.fits]

end Tracked

theorem Reachable.tracked (hhashes : HonestHashes C headers) (h : Reachable C headers dbs chain) :
    Tracked C headers dbs chain := by
  induction h with
  | empty => exact .empty
  | @putHeaders ε _ s _ _ stored _ known run ih =>
      have hput : Spec (Validator.putHeaders C stored : Db ε Unit) s.dbs
          (fun _ d => MoreHeaders C headers s.dbs d) (fun _ _ => True) fun _ => True :=
        putHeaders_spec hhashes ih.indexed.keyed known trivial
      exact ih.moreHeaders (hput.ok run).2
  | connect _ known core extra run ih =>
      obtain ⟨-, height, coinbase, txs, diff, header, work, hconnects, -⟩ :=
        (connectBlock_spec fun _ h => h).ok run
      exact ih.connect hhashes known core extra hconnects
  | disconnect _ run ih =>
      rcases disconnectBlock_wp.ok run with ⟨hnone, -⟩ | ⟨diff, header, u, hdisconnects, -, rfl⟩
      · obtain ⟨diff, hdiff, -⟩ := ih.diffs _ _ (List.suffix_refl _)
        rw [hnone] at hdiff
        cases hdiff
      · exact ih.disconnect hdisconnects

end Bip360Enforcer.Validator
