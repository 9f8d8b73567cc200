import Bip360Enforcer.Validator.Lemmas.Events
import Bip360Enforcer.Validator.Lemmas.Interrupted

/-!
# What is seen of the events and the databases at every moment
-/

namespace Bip360Enforcer.Validator

open Pqc (validateAndDiffBlockTransactions)
open Program (wp)

variable {C : Crypto} {headers : Set Header} {handler : BlockHandler} {hashes : List BlockHash}
  {dbs dbs' : Dbs} {log moment : List Seen} {event : Event} {s t : Store}

/-! ## Logs -/

@[simp] theorem sentEvents_sent (log : List Seen) (event : Event) :
    sentEvents (log ++ [.sent event]) = sentEvents log ++ [event] := by
  simp [sentEvents, List.filterMap_append]

@[simp] theorem sentEvents_ended (log : List Seen) (dbs : Dbs) :
    sentEvents (log ++ [.ended dbs]) = sentEvents log := by
  simp [sentEvents, List.filterMap_append]

@[simp] theorem committedDbs_sent (log : List Seen) (event : Event) :
    committedDbs (log ++ [.sent event]) = committedDbs log := by
  simp [committedDbs, Seen.committed]

@[simp] theorem committedDbs_ended (log : List Seen) (dbs : Dbs) :
    committedDbs (log ++ [.ended dbs]) = dbs := by
  simp [committedDbs, Seen.committed]

theorem KeepsUp.empty : KeepsUp [] := by
  intro moment hmoment
  obtain rfl := List.prefix_nil.mp hmoment
  exact .inl rfl

theorem KeepsUp.append {seen : Seen} (h : KeepsUp log) (hseen : Abreast (log ++ [seen])) :
    KeepsUp (log ++ [seen]) := by
  intro moment hmoment
  rcases List.prefix_concat_iff.mp hmoment with rfl | hmoment
  · exact hseen
  · exact h moment hmoment

/-! ## Between two calls -/

/-- What was seen has kept up, and now the events spell the stored chain. -/
structure UpToDate (C : Crypto) (headers : Set Header) (hashes : List BlockHash) (s : Store) : Prop where
  indexed : Indexed C headers s.dbs hashes
  keepsUp : KeepsUp s.log
  replayed : replayEvents (sentEvents s.log) = some hashes
  committed : committedDbs s.log = s.dbs
  events : sentEvents s.log = s.events

namespace UpToDate

/-- A transaction that leaves the chain as it is. -/
theorem ended (h : UpToDate C headers hashes s) (hhashes : HonestHashes C headers)
    (hindexed : Indexed C headers t.dbs hashes) (hevents : t.events = s.events)
    (hlog : t.log = s.log ++ [.ended t.dbs]) : UpToDate C headers hashes t where
  indexed := hindexed
  keepsUp := by
    rw [hlog]
    refine h.keepsUp.append (.inl ?_)
    rw [sentEvents_ended, committedDbs_ended, h.replayed, hindexed.activeChain_eq hhashes]
  replayed := by rw [hlog, sentEvents_ended, h.replayed]
  committed := by rw [hlog, committedDbs_ended]
  events := by rw [hlog, sentEvents_ended, h.events, hevents]

theorem unchanged (h : UpToDate C headers hashes s) (hhashes : HonestHashes C headers)
    (hunchanged : Unchanged s t) : UpToDate C headers hashes t := by
  obtain ⟨n, hlog⟩ := hunchanged.log
  have hkept : ∀ n, UpToDate C headers hashes
      { s with log := s.log ++ List.replicate n (.ended s.dbs) } := by
    intro n
    induction n with
    | zero => simpa using h
    | succ n ih =>
        refine ih.ended hhashes h.indexed rfl ?_
        simp [List.replicate_succ']
  have hn := hkept n
  exact ⟨hunchanged.dbs ▸ h.indexed, hlog ▸ hn.keepsUp, hlog ▸ hn.replayed,
    (congrArg committedDbs hlog).trans (hn.committed.trans hunchanged.dbs.symm),
    (congrArg sentEvents hlog).trans (hn.events.trans hunchanged.events.symm)⟩

/-- A block is committed, and then broadcast. -/
theorem connected {blockHash : BlockHash} (h : UpToDate C headers hashes s)
    (hhashes : HonestHashes C headers) (hindexed : Indexed C headers t.dbs (blockHash :: hashes))
    (happly : event.apply hashes = some (blockHash :: hashes)) (hevents : t.events = s.events ++ [event])
    (hlog : t.log = s.log ++ [.ended t.dbs, .sent event]) :
    UpToDate C headers (blockHash :: hashes) t := by
  have hsplit : t.log = s.log ++ [.ended t.dbs] ++ [.sent event] := by rw [hlog, List.append_assoc]; rfl
  have hreplayed : replayEvents (sentEvents s.log ++ [event]) = some (blockHash :: hashes) := by
    rw [replayEvents_append h.replayed, happly]
  refine ⟨hindexed, ?_, ?_, ?_, ?_⟩
  · have hbefore : replayEvents (sentEvents s.log) = some (activeChain (committedDbs s.log)) := by
      rw [h.replayed, h.committed, h.indexed.activeChain_eq hhashes]
    have hcommitted : KeepsUp (s.log ++ [.ended t.dbs]) :=
      h.keepsUp.append (.inr ⟨s.log, t.dbs, rfl, hbefore⟩)
    rw [hsplit]
    refine hcommitted.append (.inl ?_)
    rw [sentEvents_sent, sentEvents_ended, committedDbs_sent, committedDbs_ended, hreplayed,
      hindexed.activeChain_eq hhashes]
  · rw [hsplit, sentEvents_sent, sentEvents_ended, hreplayed]
  · rw [hsplit, committedDbs_sent, committedDbs_ended]
  · rw [hsplit, sentEvents_sent, sentEvents_ended, h.events, hevents]

end UpToDate

/-! ## Catch-ups with nothing to do -/

/-- Nothing keeps the block from being connected. -/
structure Connectable (C : Crypto) (handler : BlockHandler) (block : Block) (dbs : Dbs) : Prop where
  onTip : dbs.currentChainTip.getD .allZeros = block.header.prevBlockhash
  txdata : block.txdata ≠ []
  valid : ∃ height, dbs.height.lookup (C.blockHash block.header) = some height ∧
    (validateAndDiffBlockTransactions C (handler.clock (C.blockHash block.header)) block height
      handler.activation dbs.p2mrUtxos handler.extraPrevouts handler.pqcVerifyBudgetMs).isOk

theorem connectBatch_unchanged {blocks : List Block}
    (hblocks : ∀ block ∈ blocks, ¬ Connectable C handler block s.dbs) :
    wp (handler.connectBatch C blocks)
      (fun outcome t => Unchanged s t ∧ match outcome with
        | none => blocks = []
        | some (hash, _) => ∃ rejected rest, blocks = rejected :: rest ∧
            C.blockHash rejected.header = hash)
      (fun _ t => Unchanged s t) s := by
  refine transaction_unchanged ?_
  rw [Program.wp_bind]
  cases blocks with
  | nil =>
      rw [BlockHandler.handleBlockBatch, Program.wp_pure]
      simp only [commit, Program.wp_bind, wp_access, Program.wp_pure]
      exact ⟨fun _ => .next _, fun _ => ⟨.next _, rfl, trivial⟩⟩
  | cons block blocks =>
      unfold BlockHandler.handleBlockBatch
      rw [Program.wp_bind, Program.wp_attempt]
      have hspec : Spec (handler.connectBlock C block) s.next.begin.dbs _ _ fun e => e.isFatal = true :=
        connectBlock_spec fun _ h => h
      refine (hspec s.next.begin rfl).mono ?_ ?_
      · rintro event u ⟨-, height, coinbase, txs, diff, header, work, hconnects, -⟩
        refine absurd ⟨hconnects.onTip, ?_, height, hconnects.hasHeight, ?_⟩ (hblocks block (by simp))
        · rw [hconnects.txdata]
          exact List.cons_ne_nil _ _
        · have hvalid := hconnects.valid
          exact (congrArg Except.isOk hvalid).trans rfl
      · rintro e u ⟨hquiet, hreason⟩
        refine Program.wp_ite.mpr ⟨fun _ => hquiet, fun hfatal => ?_⟩
        have hnext := hquiet.trans (.next u)
        simp only [commit, Program.wp_bind, wp_access, Program.wp_pure]
        refine ⟨fun _ => hnext, fun _ => ⟨hnext, ?_, block, blocks, rfl, rfl⟩⟩
        rcases hreason with (⟨-, hdbs⟩ | ⟨hfatal', -⟩) | ⟨-, hfatal'⟩
        · exact hdbs
        · exact absurd hfatal' hfatal
        · exact absurd hfatal' hfatal

theorem disconnectStale_unchanged {mainTip : BlockHash} (honBranch : ∀ ancestor,
    findLastCommonAncestor s.dbs (s.dbs.currentChainTip.getD .allZeros) mainTip = .ok ancestor →
      s.dbs.currentChainTip.getD .allZeros = ancestor) :
    wp (transaction (BlockHandler.disconnectStale C mainTip))
      (fun tip t => Unchanged s t ∧ tip = s.dbs.currentChainTip.getD .allZeros)
      (fun _ t => Unchanged s t) s := by
  refine transaction_unchanged ?_
  unfold BlockHandler.disconnectStale
  have hnext : Quiet s.next.begin s.next.begin.next := .next _
  have hnext' := hnext.trans (.next _)
  rw [Program.wp_bind, wp_read]
  refine ⟨fun _ => hnext, fun _ => ?_⟩
  rw [Program.wp_bind, Program.wp_mapError, lastCommonAncestor, Program.wp_bind, wp_read]
  refine ⟨fun _ => hnext', fun _ => ?_⟩
  rw [Program.wp_ofExcept]
  refine ⟨fun ancestor hancestor => ?_, fun _ _ => hnext'⟩
  exact Program.wp_ite.mpr ⟨fun _ => ⟨hnext', rfl, rfl⟩, fun hne => absurd (honBranch ancestor hancestor) hne⟩

/-- The blocks that a catch-up can get: those of the first answer of the node, unless it is cancelled
before, and those of the files. -/
def BlockHandler.SyncSource.Gives (source : BlockHandler.SyncSource) (block : Block) : Prop :=
  (source.cancelled 0 = false ∧
    ∃ asked blocks, source.fetchBlocksBatch 0 asked = .ok blocks ∧ block ∈ blocks) ∨
  ∃ dir ∈ source.blocksDir, ∃ first items fileBlock, dir.parse first = .ok items ∧
    .ok fileBlock ∈ items ∧ fileBlock.header = block.header ∧ fileBlock.txData = .ok block.txdata

/-- A catch-up to `mainTip` has no block to disconnect, and none that it gets and misses can be
connected. -/
structure AtRest (C : Crypto) (handler : BlockHandler) (source : BlockHandler.SyncSource)
    (mainTip : BlockHash) (dbs : Dbs) : Prop where
  onBranch : ∀ ancestor,
    findLastCommonAncestor dbs (dbs.currentChainTip.getD .allZeros) mainTip = .ok ancestor →
      dbs.currentChainTip.getD .allZeros = ancestor
  blocks : ∀ block, source.Gives block → C.blockHash block.header ∈
      BlockHandler.missingBlocks dbs mainTip (dbs.currentChainTip.getD .allZeros) →
    ¬ Connectable C handler block dbs

/-- Neither do the files of such a catch-up change anything. -/
theorem unchanged_batch {known : Set Block} {missing : List BlockHash}
    (hblocks : ∀ block ∈ known, C.blockHash block.header ∈ missing → ¬ Connectable C handler block s.dbs) :
    BatchInvariant C handler known missing fun connected t => connected = [] ∧ Unchanged s t where
  next h := ⟨h.1, h.2.trans (.next _)⟩
  batch := by
    rintro _ t blocks ⟨rfl, ht⟩ hknown
    have hrest : ∀ block ∈ blocks, ¬ Connectable C handler block t.dbs := fun block hblock => by
      rw [ht.dbs]
      exact hblocks block (hknown block hblock).1 (hknown block hblock).2
    refine (connectBatch_unchanged hrest).mono ?_ fun e u hu => ⟨rfl, ht.trans hu⟩
    rintro outcome u ⟨hu, hmatch⟩
    rcases outcome with _ | ⟨hash, err⟩
    · obtain rfl := hmatch
      exact ⟨rfl, ht.trans hu⟩
    · obtain ⟨rejected, rest, rfl, hhash⟩ := hmatch
      exact ⟨[], rejected, rest, rfl, hhash, rfl, ht.trans hu⟩

end Bip360Enforcer.Validator
