import Bip360Enforcer.Library.Table
import Bip360Enforcer.Pqc.Lemmas.Tracking
import Bip360Enforcer.Validator.Lemmas.Programs
import Bip360Enforcer.Validator.Task

/-!
# What connecting a block does
-/

namespace Bip360Enforcer.Validator

open Pqc (P2mrUtxoBlockDiff validateAndDiffBlockTransactions)

variable {ε : Type} [FromDb ε] {C : Crypto} {handler : BlockHandler} {dbs : Dbs}

/-! ## Diffs of the P2MR outputs -/

def eraseUtxos (ops : List OutPoint) (utxos : PrevoutMap) : PrevoutMap :=
  ops.foldl (fun m op => m.erase op) utxos

def insertUtxos (entries : List (Sigma fun _ : OutPoint => TxOut)) (utxos : PrevoutMap) : PrevoutMap :=
  entries.foldl (fun m e => m.insert e.1 e.2) utxos

def appliedUtxos (diff : P2mrUtxoBlockDiff) (utxos : PrevoutMap) : PrevoutMap :=
  insertUtxos diff.created.entries (eraseUtxos diff.spent.keys utxos)

def undoneUtxos (diff : P2mrUtxoBlockDiff) (utxos : PrevoutMap) : PrevoutMap :=
  insertUtxos diff.spent.entries (eraseUtxos diff.created.keys utxos)

theorem lookup_erase_insert (removed added utxos : PrevoutMap) (op : OutPoint) :
    (insertUtxos added.entries (eraseUtxos removed.keys utxos)).lookup op =
      (added.lookup op).or ((removed.lookup op).elim (utxos.lookup op) fun _ => none) := by
  rw [insertUtxos, eraseUtxos, AList.lookup_insert_all, AList.lookup_erase_all]
  by_cases hop : op ∈ removed
  · obtain ⟨txout, htxout⟩ := Option.isSome_iff_exists.mp (AList.lookup_isSome.mpr hop)
    rw [if_pos (AList.mem_keys.mp hop), htxout]
    rfl
  · rw [if_neg fun hin => hop (AList.mem_keys.mpr hin), AList.lookup_eq_none.mpr hop]
    rfl

theorem lookup_appliedUtxos (diff : P2mrUtxoBlockDiff) (utxos : PrevoutMap) :
    (fun op => (appliedUtxos diff utxos).lookup op) = diff.table.apply fun op => utxos.lookup op :=
  funext fun op => lookup_erase_insert diff.spent diff.created utxos op

theorem lookup_undoneUtxos (diff : P2mrUtxoBlockDiff) (utxos : PrevoutMap) :
    (fun op => (undoneUtxos diff utxos).lookup op) = diff.table.undo fun op => utxos.lookup op :=
  funext fun op => lookup_erase_insert diff.created diff.spent utxos op

theorem putUtxos_spec {entries : List (Sigma fun _ : OutPoint => TxOut)} {fault : ε → Prop}
    {failed : ε → Dbs → Prop} (hfault : fault (fromDb .io)) :
    Spec (entries.forM putUtxo) dbs (fun _ d => d = { dbs with
      p2mrUtxos := insertUtxos entries dbs.p2mrUtxos }) failed fault := by
  refine Spec.forM (fun done d => d = { dbs with
    p2mrUtxos := insertUtxos done dbs.p2mrUtxos }) rfl ?_
  rintro done e rest d - rfl
  refine Spec.write hfault ?_
  simp [insertUtxos]

theorem removeUtxos_spec {ops : List OutPoint} {fault : ε → Prop} {failed : ε → Dbs → Prop}
    (hfault : fault (fromDb .io)) :
    Spec (ops.forM removeUtxo) dbs (fun _ d => d = { dbs with
      p2mrUtxos := eraseUtxos ops dbs.p2mrUtxos }) failed fault := by
  refine Spec.forM (fun done d => d = { dbs with
    p2mrUtxos := eraseUtxos done dbs.p2mrUtxos }) rfl ?_
  rintro done op rest d - rfl
  refine Spec.write hfault ?_
  simp [eraseUtxos]

theorem undoDiff_spec {diff : P2mrUtxoBlockDiff} {fault : ε → Prop} {failed : ε → Dbs → Prop}
    (hfault : fault (fromDb .io)) :
    Spec (undoDiff diff) dbs
      (fun _ d => d = { dbs with p2mrUtxos := undoneUtxos diff dbs.p2mrUtxos }) failed fault := by
  refine Spec.bind ((removeUtxos_spec hfault).mono ?_ (fun _ _ h => h) fun _ h => h)
  rintro - d rfl
  exact putUtxos_spec hfault

/-- Applying a diff fails where it spends what is not in the table. -/
theorem applyDiff_spec {diff : P2mrUtxoBlockDiff} {fault : ε → Prop} (hfault : fault (fromDb .io)) :
    Spec (applyDiff diff) dbs
      (fun _ d => d = { dbs with p2mrUtxos := appliedUtxos diff dbs.p2mrUtxos } ∧
        ∀ op ∈ diff.spent, op ∈ dbs.p2mrUtxos)
      (fun e _ => e = fromDb .missingValue ∧ ∃ op ∈ diff.spent, op ∉ dbs.p2mrUtxos) fault := by
  have hspend : Spec (diff.spent.keys.forM spendUtxo) dbs
      (fun _ d => d = { dbs with
          p2mrUtxos := eraseUtxos diff.spent.keys dbs.p2mrUtxos } ∧
        ∀ op ∈ diff.spent.keys, op ∈ dbs.p2mrUtxos)
      (fun e _ => e = fromDb .missingValue ∧ ∃ op ∈ diff.spent, op ∉ dbs.p2mrUtxos) fault := by
    refine Spec.forM (fun done d => d = { dbs with
        p2mrUtxos := eraseUtxos done dbs.p2mrUtxos } ∧
      ∀ op ∈ done, op ∈ dbs.p2mrUtxos) ⟨rfl, by simp⟩ ?_
    rintro done op rest d hsplit ⟨rfl, hdone⟩
    have hnotin : op ∉ done := by
      have hnodup := hsplit ▸ diff.spent.keys_nodup
      exact fun hin => (List.nodup_append'.mp hnodup).2.2 hin (by simp)
    have hlookup : (eraseUtxos done dbs.p2mrUtxos).lookup op =
        dbs.p2mrUtxos.lookup op := by rw [eraseUtxos, AList.lookup_erase_all, if_neg hnotin]
    refine Spec.bind (Spec.require hfault ?_ ?_)
    · intro txout htxout
      refine Spec.write hfault ⟨by simp [eraseUtxos], fun op' hop' => ?_⟩
      rcases List.mem_append.mp hop' with hop' | hop'
      · exact hdone op' hop'
      · obtain rfl : op' = op := by simpa using hop'
        exact AList.lookup_isSome.mp (by rw [← hlookup, htxout]; rfl)
    · intro hnone
      have hmem : op ∈ diff.spent := AList.mem_keys.mpr (by rw [← hsplit]; simp)
      exact ⟨rfl, op, hmem, AList.lookup_eq_none.mp (hlookup ▸ hnone)⟩
  refine Spec.bind (hspend.mono ?_ (fun _ _ h => h) fun _ h => h)
  rintro - d ⟨rfl, hspent⟩
  refine (putUtxos_spec hfault).mono ?_ (fun _ _ h => h) fun _ h => h
  rintro - d rfl
  exact ⟨rfl, fun op hop => hspent op (AList.mem_keys.mp hop)⟩

/-! ## Records of a block -/

/-- The work of a chain that ends with `header`, where that of its parent is recorded. -/
def chainWorkOf (C : Crypto) (dbs : Dbs) (header : Header) : Option Nat :=
  if header.prevBlockhash = .allZeros then some (C.work header)
  else (dbs.cumulativeWork.lookup header.prevBlockhash).map (· + C.work header)

def recordBlock (blockHash : BlockHash) (coinbaseTxid : Txid) (work : Nat) (diff : P2mrUtxoBlockDiff)
    (dbs : Dbs) : Dbs :=
  { dbs with
    coinbaseTxid := dbs.coinbaseTxid.insert blockHash coinbaseTxid
    cumulativeWork := dbs.cumulativeWork.insert blockHash work
    diff := dbs.diff.insert blockHash diff }

theorem putBlockInfo_spec {blockHash : BlockHash} {info : BlockInfo} {diff : P2mrUtxoBlockDiff}
    {fault : PutBlockInfoError → Prop} (hfault : fault (fromDb .io)) :
    Spec (putBlockInfo C blockHash info diff) dbs
      (fun _ d => ∃ header work, dbs.header.lookup blockHash = some header ∧
        chainWorkOf C dbs header = some work ∧ d = recordBlock blockHash info.coinbaseTxid work diff dbs)
      (fun _ _ => ∀ header, dbs.header.lookup blockHash = some header →
        chainWorkOf C dbs header = none) fault := by
  refine Spec.bind (Spec.tryGet hfault ?_)
  cases hheader : dbs.header.lookup blockHash with
  | none => exact Spec.fail (by simp)
  | some header =>
      have hwork : Spec (chainWork C blockHash header) dbs
          (fun work d => d = dbs ∧ chainWorkOf C dbs header = some work)
          (fun _ _ => ∀ header', some header = some header' → chainWorkOf C dbs header' = none)
          fault := by
        refine Spec.ite (fun hzero => Spec.pure ⟨rfl, by simp [chainWorkOf, hzero]⟩) fun hzero => ?_
        refine Spec.bind (Spec.tryGet hfault ?_)
        cases hparent : dbs.cumulativeWork.lookup header.prevBlockhash with
        | none => exact Spec.fail (by simp [chainWorkOf, hzero, hparent])
        | some parentWork => exact Spec.pure ⟨rfl, by simp [chainWorkOf, hzero, hparent]⟩
      refine Spec.bind (hwork.mono ?_ (fun _ _ h => h) fun _ h => h)
      rintro work d ⟨rfl, hwork⟩
      refine Spec.bind (Spec.write hfault ?_)
      refine Spec.bind (Spec.write hfault ?_)
      exact Spec.write hfault ⟨header, work, rfl, hwork, rfl⟩

/-! ## Connecting -/

open BlockHandler (hasMoreWork)

/-- Connecting `block` takes the databases `dbs` to `dbs'`. -/
structure Connects (C : Crypto) (handler : BlockHandler) (block : Block) (dbs dbs' : Dbs)
    (height : Nat) (coinbase : Transaction) (txs : List Transaction) (diff : P2mrUtxoBlockDiff)
    (header : Header) (work : Nat) : Prop where
  onTip : dbs.currentChainTip.getD .allZeros = block.header.prevBlockhash
  hasHeight : dbs.height.lookup (C.blockHash block.header) = some height
  txdata : block.txdata = coinbase :: txs
  valid : validateAndDiffBlockTransactions C (handler.clock (C.blockHash block.header)) block height
    handler.activation dbs.p2mrUtxos handler.extraPrevouts handler.pqcVerifyBudgetMs = .ok diff
  spent : ∀ op ∈ diff.spent, op ∈ dbs.p2mrUtxos
  hasHeader : dbs.header.lookup (C.blockHash block.header) = some header
  hasWork : chainWorkOf C dbs header = some work
  recorded : ∃ recorded tipWork, recorded = recordBlock (C.blockHash block.header)
      (C.computeTxid coinbase) work diff { dbs with p2mrUtxos := appliedUtxos diff dbs.p2mrUtxos } ∧
    dbs.currentChainTip.map (fun tip => recorded.cumulativeWork.lookup tip) = tipWork.map some ∧
    dbs' = if hasMoreWork work tipWork then
        { recorded with currentChainTip := some (C.blockHash block.header) }
      else recorded

/-- The event of a connected block. -/
def connectEvent (C : Crypto) (block : Block) (height : Nat) (coinbase : Transaction) : Event :=
  .connectBlock {
    blockHash := C.blockHash block.header
    prevBlockHash := block.header.prevBlockhash
    height := height
    work := C.work block.header
    timestamp := block.header.time } ⟨C.computeTxid coinbase⟩

/-- Why a block can be rejected. -/
structure Rejects (block : Block) (dbs : Dbs) (err : ConnectBlockError) : Prop where
  notFatal : err.isFatal = false
  parent : ∀ parent tip height, err = .blockParent parent tip height →
    dbs.currentChainTip.getD .allZeros ≠ block.header.prevBlockhash

/-- What a block lacks that neither is connected nor rejected. -/
structure Broken (C : Crypto) (handler : BlockHandler) (block : Block) (dbs : Dbs) : Prop where
  parent : dbs.currentChainTip.getD .allZeros = block.header.prevBlockhash
  lacks : dbs.height.lookup (C.blockHash block.header) = none ∨
    (∀ header, dbs.header.lookup (C.blockHash block.header) = some header →
      chainWorkOf C dbs header = none) ∨
    (∃ tip, dbs.currentChainTip = some tip ∧ tip ≠ C.blockHash block.header ∧
      dbs.cumulativeWork.lookup tip = none) ∨
    ∃ height diff, validateAndDiffBlockTransactions C (handler.clock (C.blockHash block.header)) block
      height handler.activation dbs.p2mrUtxos handler.extraPrevouts handler.pqcVerifyBudgetMs =
        .ok diff ∧ ∃ op ∈ diff.spent, op ∉ dbs.p2mrUtxos

omit [FromDb ε] in
theorem attempt_get_spec {key : BlockHash} {failed : ε → Dbs → Prop} {fault : ε → Prop} :
    Spec (Program.attempt (get Dbs.height key : Db DbError Nat)) dbs (fun _ d => d = dbs) failed
      fault := by
  rintro s rfl
  rw [Program.wp_attempt]
  unfold get tryGet require
  rw [Program.wp_bind, wp_read]
  refine ⟨fun _ => ⟨.next s, rfl⟩, fun _ => ?_⟩
  cases s.dbs.height.lookup key with
  | none => exact ⟨.next s, rfl⟩
  | some height => exact ⟨.next s, rfl⟩

theorem checkParent_spec {parent : BlockHash} {fault : ConnectBlockError → Prop}
    (hfault : fault (fromDb .io)) :
    Spec (BlockHandler.checkParent parent) dbs
      (fun _ d => d = dbs ∧ dbs.currentChainTip.getD .allZeros = parent)
      (fun e d => e.isFatal = false ∧ d = dbs ∧ dbs.currentChainTip.getD .allZeros ≠ parent)
      fault := by
  refine Spec.bind (Spec.read hfault ?_)
  cases htip : dbs.currentChainTip with
  | none =>
      exact Spec.ite (fun hzero => Spec.pure ⟨rfl, hzero.symm⟩) fun hne =>
        Spec.fail ⟨rfl, rfl, fun heq => hne heq.symm⟩
  | some tip =>
      refine Spec.ite (fun heq => Spec.pure ⟨rfl, heq.symm⟩) fun hne => ?_
      refine Spec.bind (attempt_get_spec.mono ?_ (fun _ _ h => h) fun _ h => h)
      rintro - d rfl
      exact Spec.fail ⟨rfl, rfl, fun heq => hne heq.symm⟩

theorem currentTipCumulativeWork_spec {fault : ConnectBlockError → Prop}
    (hfault : fault (fromDb .io)) :
    Spec BlockHandler.currentTipCumulativeWork dbs
      (fun tipWork d => d = dbs ∧
        dbs.currentChainTip.map (fun tip => dbs.cumulativeWork.lookup tip) = tipWork.map some)
      (fun e _ => e.isFatal = true ∧
        ∃ tip, dbs.currentChainTip = some tip ∧ dbs.cumulativeWork.lookup tip = none) fault := by
  refine Spec.bind (Spec.read hfault ?_)
  cases htip : dbs.currentChainTip with
  | none => exact Spec.pure ⟨rfl, rfl⟩
  | some tip =>
      refine Spec.bind (Spec.get hfault ?_ ?_)
      · intro work hwork
        exact Spec.pure ⟨rfl, by simp [hwork]⟩
      · intro hnone
        exact ⟨rfl, tip, rfl, hnone⟩

/-- A block is connected, or rejected without a change of the databases, or something is missing. -/
theorem connectBlock_spec {block : Block} {fault : ConnectBlockError → Prop}
    (hfault : ∀ e : ConnectBlockError, e.isFatal = true → fault e) :
    Spec (handler.connectBlock C block) dbs
      (fun event dbs' => ∃ height coinbase txs diff header work,
        Connects C handler block dbs dbs' height coinbase txs diff header work ∧
          event = connectEvent C block height coinbase)
      (fun e dbs' => (Rejects block dbs e ∧ dbs' = dbs) ∨
        (e.isFatal = true ∧ Broken C handler block dbs)) fault := by
  have hio : fault (fromDb .io) := hfault _ rfl
  refine Spec.bind ((checkParent_spec hio).mono ?_
    (fun _ _ h => .inl ⟨⟨h.1, fun _ _ _ _ => h.2.2⟩, h.2.1⟩) fun _ h => h)
  rintro - d ⟨rfl, hparent⟩
  refine Spec.bind (Spec.get hio ?_ fun hnone => .inr ⟨rfl, hparent, .inl hnone⟩)
  intro height hheight
  cases htx : block.txdata with
  | nil => exact Spec.fail (.inl ⟨⟨rfl, fun _ _ _ h => by cases h⟩, rfl⟩)
  | cons coinbase txs =>
      refine Spec.bind (Spec.read hio ?_)
      refine Spec.bind (Spec.mapError (Spec.ofExcept ?_ fun _ _ =>
        .inl ⟨⟨rfl, fun _ _ _ h => by cases h⟩, rfl⟩))
      intro diff hvalid
      refine Spec.bind ((applyDiff_spec hio).mono ?_ ?_ fun _ h => h)
      · rintro - d₁ ⟨rfl, hspent⟩
        refine Spec.bind (Spec.mapError ((putBlockInfo_spec (hfault _ rfl)).mono ?_ ?_ fun _ h => h))
        · rintro - d₂ ⟨header, work, hheader, hwork, rfl⟩
          refine Spec.bind ((currentTipCumulativeWork_spec hio).mono ?_ ?_ fun _ h => h)
          · rintro tipWork d₃ ⟨rfl, htipWork⟩
            refine Spec.bind (Spec.get hio ?_ fun hnone => by simp [recordBlock] at hnone)
            intro work' hwork'
            obtain rfl : work = work' := by simpa [recordBlock] using hwork'
            have hconnects : ∀ dbs', dbs' = (if hasMoreWork work tipWork then
                  { recordBlock (C.blockHash block.header) (C.computeTxid coinbase) work diff
                      { d with p2mrUtxos := appliedUtxos diff d.p2mrUtxos } with
                    currentChainTip := some (C.blockHash block.header) }
                else recordBlock (C.blockHash block.header) (C.computeTxid coinbase) work diff
                  { d with p2mrUtxos := appliedUtxos diff d.p2mrUtxos }) →
                Connects C handler block d dbs' height coinbase txs diff header work :=
              fun dbs' hdbs' => ⟨hparent, hheight, htx, hvalid, hspent, hheader, hwork, _, tipWork,
                rfl, htipWork, hdbs'⟩
            by_cases hmore : hasMoreWork work tipWork = true
            · simp only [if_pos hmore] at hconnects ⊢
              refine Spec.bind (Spec.write hio ?_)
              exact Spec.pure ⟨height, coinbase, txs, diff, header, work, hconnects _ rfl, rfl⟩
            · simp only [if_neg hmore] at hconnects ⊢
              refine Spec.bind (Spec.pure ?_)
              exact Spec.pure ⟨height, coinbase, txs, diff, header, work, hconnects _ rfl, rfl⟩
          · rintro e d₃ ⟨hfatal, tip, htip, hnone⟩
            have htip' : d.currentChainTip = some tip := htip
            refine .inr ⟨hfatal, hparent, .inr (.inr (.inl ⟨tip, htip', ?_⟩))⟩
            have hne : tip ≠ C.blockHash block.header := by
              rintro rfl
              simp [recordBlock] at hnone
            exact ⟨hne, by simpa [recordBlock, AList.lookup_insert_ne hne] using hnone⟩
        · intro e d₂ hnone
          exact .inr ⟨rfl, hparent, .inr (.inl hnone)⟩
      · rintro e d₁ ⟨rfl, op, hop, hnotin⟩
        exact .inr ⟨rfl, hparent, .inr (.inr (.inr ⟨height, diff, hvalid, op, hop, hnotin⟩))⟩

end Bip360Enforcer.Validator
