import Bip360Enforcer.Validator.Lemmas.Live

/-!
# Which diffs are stored

The diff of a block stays stored when the block is disconnected.
-/

namespace Bip360Enforcer.Validator

open Pqc (P2mrUtxoBlockDiff)

variable {C : Crypto} {headers : Set Header} {dbs dbs' : Dbs} {accepted : List BlockHash}

/-- Databases that blocks were presented to in any order and any number of times, with the blocks that
were accepted at some time. -/
inductive Presented (C : Crypto) (headers : Set Header) : Dbs → List BlockHash → Prop where
  | empty : Presented C headers .empty []
  | putHeaders {ε : Type} [FromDb ε] {s t : Store} {accepted : List BlockHash}
      {stored : List (Header × Nat)} (start : Presented C headers s.dbs accepted)
      (known : ∀ entry ∈ stored, entry.1 ∈ headers)
      (run : (putHeaders C stored : Db ε Unit) s = (.ok (), t)) : Presented C headers t.dbs accepted
  | accept {s t : Store} {accepted : List BlockHash} {handler : BlockHandler} {block : Block}
      {event : Event} (start : Presented C headers s.dbs accepted)
      (run : handler.connectBlock C block s = (.ok event, t)) :
      Presented C headers t.dbs (C.blockHash block.header :: accepted)
  | reject {s t : Store} {accepted : List BlockHash} {handler : BlockHandler} {block : Block}
      {err : ConnectBlockError} (start : Presented C headers s.dbs accepted)
      (run : handler.connectBlock C block s = (.error err, t)) (rejected : err.isFatal = false) :
      Presented C headers t.dbs accepted
  | disconnect {s t : Store} {accepted : List BlockHash} {blockHash : BlockHash}
      (start : Presented C headers s.dbs accepted)
      (run : BlockHandler.disconnectBlock C blockHash s = (.ok (), t)) :
      Presented C headers t.dbs accepted

/-- The blocks from the tip back to the first one. -/
inductive OnChain (dbs : Dbs) : BlockHash → Prop where
  | tip {blockHash : BlockHash} (h : dbs.currentChainTip = some blockHash) : OnChain dbs blockHash
  | parent {blockHash : BlockHash} {header : Header} (h : OnChain dbs blockHash)
      (hlookup : dbs.header.lookup blockHash = some header)
      (hzero : header.prevBlockhash ≠ .allZeros) : OnChain dbs header.prevBlockhash

/-- What is stored is stored of the blocks that were accepted, whether connected now or not. -/
structure Recorded (C : Crypto) (headers : Set Header) (dbs : Dbs) (accepted : List BlockHash) : Prop where
  diff : ∀ hash, (dbs.diff.lookup hash).isSome ↔ hash ∈ accepted
  work : ∀ hash, (dbs.cumulativeWork.lookup hash).isSome ↔ hash ∈ accepted
  header : ∀ hash ∈ accepted, ∃ header, dbs.header.lookup hash = some header ∧
    (header.prevBlockhash ≠ .allZeros → header.prevBlockhash ∈ accepted)
  height : ∀ hash ∈ accepted, (dbs.height.lookup hash).isSome
  tip : ∀ tip, dbs.currentChainTip = some tip → tip ∈ accepted
  keyed : Keyed C headers dbs

namespace Recorded

theorem empty : Recorded C headers .empty [] := by
  have hnone : ∀ {υ : Type} (hash : BlockHash), ((∅ : HashDb υ).lookup hash).isSome ↔ hash ∈ [] := by
    intro υ hash
    rw [AList.lookup_empty]
    simp
  refine ⟨hnone, hnone, fun hash h => ?_, fun hash h => ?_, fun tip h => ?_, fun hash header h => ?_⟩
  · cases h
  · cases h
  · cases h
  · cases h

theorem moreHeaders (h : Recorded C headers dbs accepted) (hmore : MoreHeaders C headers dbs dbs') :
    Recorded C headers dbs' accepted := by
  obtain ⟨stored, heights, rfl⟩ := hmore.rest
  refine ⟨h.diff, h.work, fun hash hin => ?_, fun hash hin => hmore.height hash (h.height hash hin),
    h.tip, hmore.keyed⟩
  obtain ⟨header, hlookup, hprev⟩ := h.header hash hin
  exact ⟨header, hmore.header hash header hlookup, hprev⟩

theorem isSome_insert_iff {υ : Type} {m : HashDb υ} {key : BlockHash} {v : υ}
    (h : ∀ hash, (m.lookup hash).isSome ↔ hash ∈ accepted) (hash : BlockHash) :
    ((m.insert key v).lookup hash).isSome ↔ hash ∈ key :: accepted := by
  by_cases hk : hash = key
  · subst hk
    simp
  · rw [AList.lookup_insert_ne hk, h hash]
    simp [hk]

theorem connect {handler : BlockHandler} {block : Block} {height work : Nat} {coinbase : Transaction}
    {txs : List Transaction} {diff : P2mrUtxoBlockDiff} {header : Header}
    (h : Recorded C headers dbs accepted)
    (hconnects : Connects C handler block dbs dbs' height coinbase txs diff header work) :
    Recorded C headers dbs' (C.blockHash block.header :: accepted) := by
  have hprev : header.prevBlockhash ≠ .allZeros → header.prevBlockhash ∈ accepted := by
    intro hzero
    have hwork := hconnects.hasWork
    rw [chainWorkOf, if_neg hzero] at hwork
    obtain ⟨parentWork, hparent, -⟩ := Option.map_eq_some_iff.mp hwork
    exact (h.work _).mp (Option.isSome_iff_exists.mpr ⟨parentWork, hparent⟩)
  -- Apart from the tip, which becomes the block or stays.
  have hrecorded : Recorded C headers (recordBlock (C.blockHash block.header) (C.computeTxid coinbase)
      work diff { dbs with p2mrUtxos := appliedUtxos diff dbs.p2mrUtxos })
      (C.blockHash block.header :: accepted) := by
    refine ⟨isSome_insert_iff h.diff, isSome_insert_iff h.work, fun hash hin => ?_, fun hash hin => ?_,
      fun tip htip => List.mem_cons_of_mem _ (h.tip tip htip), h.keyed⟩
    · rcases List.mem_cons.mp hin with rfl | hin
      · exact ⟨header, hconnects.hasHeader, fun hzero => List.mem_cons_of_mem _ (hprev hzero)⟩
      · obtain ⟨header', hlookup, hprev'⟩ := h.header hash hin
        exact ⟨header', hlookup, fun hzero => List.mem_cons_of_mem _ (hprev' hzero)⟩
    · rcases List.mem_cons.mp hin with rfl | hin
      · exact Option.isSome_iff_exists.mpr ⟨height, hconnects.hasHeight⟩
      · exact h.height hash hin
  obtain ⟨recorded, tipWork, rfl, -, hdbs'⟩ := hconnects.recorded
  subst hdbs'
  split
  · refine ⟨hrecorded.diff, hrecorded.work, hrecorded.header, hrecorded.height, fun tip htip => ?_,
      hrecorded.keyed⟩
    obtain rfl : C.blockHash block.header = tip := by simpa using htip
    exact List.mem_cons_self
  · exact hrecorded

theorem disconnect {blockHash : BlockHash} {diff : P2mrUtxoBlockDiff} {header : Header}
    (h : Recorded C headers dbs accepted) (hdisconnects : Disconnects blockHash dbs dbs' diff header) :
    Recorded C headers dbs' accepted := by
  obtain rfl := hdisconnects.result
  refine ⟨h.diff, h.work, h.header, h.height, fun tip htip => ?_, h.keyed⟩
  have hin : blockHash ∈ accepted :=
    (h.diff blockHash).mp (Option.isSome_iff_exists.mpr ⟨diff, hdisconnects.hasDiff⟩)
  obtain ⟨header', hlookup, hprev⟩ := h.header blockHash hin
  obtain rfl : header = header' := Option.some.inj (hdisconnects.hasHeader.symm.trans hlookup)
  have htip' : BlockHandler.tipBefore header.prevBlockhash = some tip := htip
  unfold BlockHandler.tipBefore at htip'
  split at htip'
  · obtain rfl := Option.some.inj htip'
    exact hprev ‹_›
  · cases htip'

theorem onChain (h : Recorded C headers dbs accepted) {hash : BlockHash} (hchain : OnChain dbs hash) :
    hash ∈ accepted := by
  induction hchain with
  | tip htip => exact h.tip _ htip
  | parent _ hlookup hzero ih =>
      obtain ⟨header, hheader, hprev⟩ := h.header _ ih
      obtain rfl := Option.some.inj (hheader.symm.trans hlookup)
      exact hprev hzero

end Recorded

theorem Presented.recorded (hhashes : HonestHashes C headers) (h : Presented C headers dbs accepted) :
    Recorded C headers dbs accepted := by
  induction h with
  | empty => exact .empty
  | @putHeaders ε _ s _ _ stored _ known run ih =>
      have hput : Spec (Validator.putHeaders C stored : Db ε Unit) s.dbs
          (fun _ d => MoreHeaders C headers s.dbs d) (fun _ _ => True) fun _ => True :=
        putHeaders_spec hhashes ih.keyed known trivial
      exact ih.moreHeaders (hput.ok run).2
  | accept _ run ih =>
      obtain ⟨-, height, coinbase, txs, diff, header, work, hconnects, -⟩ :=
        (connectBlock_spec fun _ h => h).ok run
      exact ih.connect hconnects
  | reject _ run rejected ih =>
      rw [connectBlock_rejected run rejected]
      exact ih
  | disconnect _ run ih =>
      rcases disconnectBlock_wp.ok run with ⟨-, -, hdbs⟩ | ⟨diff, header, u, hdisconnects, -, rfl⟩
      · rw [hdbs]
        exact ih
      · exact ih.disconnect hdisconnects

end Bip360Enforcer.Validator
