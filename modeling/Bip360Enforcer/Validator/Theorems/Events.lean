import Bip360Enforcer.Validator.Lemmas.Events
import Bip360Enforcer.Validator.Lemmas.Interrupted
import Bip360Enforcer.Validator.Theorems.Ledger

/-!
# The events never run ahead of the databases
-/

namespace Bip360Enforcer.Validator

open Program (wp)

variable {C : Crypto} {headers : Set Header} {handler : BlockHandler} {s : Store}
  {hashes : List BlockHash}

/-! ## What the node and the files deliver -/

/-- No block is its own ancestor. -/
def NoCycles (C : Crypto) (headers : Set Header) : Prop :=
  ∃ rank : BlockHash → Nat, ∀ header ∈ headers, rank header.prevBlockhash < rank (C.blockHash header)

/-- The node answers with the blocks that it is asked for, and all blocks that it or the files deliver
are blocks of the run. -/
structure HonestSync (C : Crypto) (headers : Set Header) (source : BlockHandler.SyncSource) : Prop where
  answers : ∀ n asked blocks, source.fetchBlocksBatch n asked = .ok blocks → hashesOf C blocks = asked
  blocks : ∀ n asked blocks, source.fetchBlocksBatch n asked = .ok blocks →
    ∀ block ∈ blocks, block.header ∈ headers
  files : ∀ dir ∈ source.blocksDir, ∀ first items, dir.parse first = .ok items →
    ∀ block, .ok block ∈ items → block.header ∈ headers

/-! ## The blocks that are missing -/

theorem ancestorHeaders_stored {stored : HashDb Header} {n : Nat} {start blockHash : BlockHash}
    (h : blockHash ∈ (ancestorHeaders stored n start).map Prod.fst) :
    (stored.lookup blockHash).isSome := by
  induction n generalizing start with
  | zero => cases h
  | succ n ih =>
      rw [ancestorHeaders] at h
      cases hlookup : stored.lookup start with
      | none => simp [hlookup] at h
      | some header =>
          rw [hlookup, List.map_cons] at h
          rcases List.mem_cons.mp h with rfl | h
          · rw [hlookup]
            rfl
          · exact ih h

theorem ancestorHeaders_nodup {dbs : Dbs} (hkeyed : Keyed C headers dbs) (hcycles : NoCycles C headers)
    (n : Nat) (start : BlockHash) : ((ancestorHeaders dbs.header n start).map Prod.fst).Nodup := by
  obtain ⟨rank, hrank⟩ := hcycles
  suffices hgen : ((ancestorHeaders dbs.header n start).map Prod.fst).Nodup ∧
      ∀ blockHash ∈ (ancestorHeaders dbs.header n start).map Prod.fst, rank blockHash ≤ rank start from
    hgen.1
  induction n generalizing start with
  | zero => exact ⟨List.nodup_nil, fun _ h => by cases h⟩
  | succ n ih =>
      rw [ancestorHeaders]
      cases hlookup : dbs.header.lookup start with
      | none => exact ⟨List.nodup_nil, fun _ h => by cases h⟩
      | some header =>
          obtain ⟨hmem, rfl⟩ := hkeyed start header hlookup
          obtain ⟨hnodup, hbelow⟩ := ih header.prevBlockhash
          have hless := hrank header hmem
          simp only [List.map_cons]
          refine ⟨List.nodup_cons.mpr ⟨fun hin => ?_, hnodup⟩, fun blockHash hin => ?_⟩
          · exact absurd (hbelow _ hin) (Nat.not_le.mpr hless)
          · rcases List.mem_cons.mp hin with rfl | hin
            · exact Nat.le_refl _
            · exact Nat.le_of_lt (Nat.lt_of_le_of_lt (hbelow _ hin) hless)

theorem missingBlocks_nodup {dbs : Dbs} (hkeyed : Keyed C headers dbs) (hcycles : NoCycles C headers)
    (mainTip current : BlockHash) : (BlockHandler.missingBlocks dbs mainTip current).Nodup := by
  have hsublist : (BlockHandler.missingBlocks dbs mainTip current).Sublist
      ((ancestorHeaders dbs.header dbs.header.entries.length mainTip).map Prod.fst) :=
    List.takeWhile_sublist _
  exact hsublist.nodup (ancestorHeaders_nodup hkeyed hcycles _ _)

theorem missingBlocks_stored {dbs : Dbs} {mainTip current blockHash : BlockHash}
    (h : blockHash ∈ BlockHandler.missingBlocks dbs mainTip current) :
    (dbs.header.lookup blockHash).isSome :=
  ancestorHeaders_stored ((List.takeWhile_sublist _).subset h)

/-! ## Catching up -/

theorem missingAfterFileSync_synced {missing : List BlockHash} {dir : Option BlocksDir}
    (hhashes : HonestHashes C headers) (hextra : NoP2mr handler.extraPrevouts)
    (hfiles : ∀ d ∈ dir, ∀ first items, d.parse first = .ok items →
      ∀ block, .ok block ∈ items → block.header ∈ headers)
    (hnodup : missing.Nodup) (hmissing : ∀ blockHash ∈ missing, (s.dbs.header.lookup blockHash).isSome)
    (h : Synced C headers hashes s) :
    wp (handler.missingAfterFileSync C dir missing)
      (fun left t => left ⊆ missing ∧ t.dbs.header = s.dbs.header ∧ ∃ hashes', Synced C headers hashes' t)
      (fun _ _ => False) s := by
  refine (missingAfterFileSync_wp (synced_batch hhashes hextra hmissing) hnodup (fun d hd first items
    hparse block hblock _ _ => hfiles d hd first items hparse block hblock)
    (⟨h, rfl⟩ : Synced C headers ([] ++ hashes) s ∧ s.dbs.header = s.dbs.header)).mono ?_ fun _ _ h => h
  rintro left t ⟨lost, connected, rfl, ⟨ht, hheader⟩, -⟩
  rw [List.append_assoc]
  exact ⟨List.subset_append_left _ _, hheader, _, ht⟩

theorem syncBatches_synced {source : BlockHandler.SyncSource} {n : Nat} {chunks : List (List BlockHash)}
    (hhashes : HonestHashes C headers) (hextra : NoP2mr handler.extraPrevouts)
    (hsource : HonestSync C headers source)
    (hchunks : ∀ chunk ∈ chunks, ∀ blockHash ∈ chunk, (s.dbs.header.lookup blockHash).isSome)
    (h : Synced C headers hashes s) :
    wp (handler.syncBatches C source n chunks) (fun _ t => ∃ hashes', Synced C headers hashes' t)
      (fun _ t => ∃ hashes', Synced C headers hashes' t) s := by
  induction chunks generalizing n s hashes with
  | nil => exact ⟨hashes, h⟩
  | cons chunk chunks ih =>
      rw [BlockHandler.syncBatches]
      refine Program.wp_ite.mpr ⟨fun _ => ⟨hashes, h⟩, fun _ => ?_⟩
      rw [Program.wp_bind, Program.wp_ofExcept]
      refine ⟨fun blocks hblocks => ?_, fun _ _ => ⟨hashes, h⟩⟩
      have hknown : ∀ block ∈ blocks, block.header ∈ headers ∧
          (s.dbs.header.lookup (C.blockHash block.header)).isSome := by
        intro block hblock
        refine ⟨hsource.blocks n chunk blocks hblocks block hblock, hchunks chunk (by simp) _ ?_⟩
        rw [← hsource.answers n chunk blocks hblocks]
        exact List.mem_map_of_mem hblock
      rw [Program.wp_bind]
      refine (connectBatch_synced hhashes hextra h hknown).mono ?_ fun e t ht => ⟨hashes, ht.2⟩
      rintro outcome t ⟨hheader, hmatch⟩
      rcases outcome with _ | ⟨hash, err⟩
      · refine ih (fun chunk hchunk => ?_) hmatch
        rw [hheader]
        exact hchunks chunk (List.mem_cons_of_mem _ hchunk)
      · obtain ⟨accepted, rejected, rest, -, -, haccepted⟩ := hmatch
        exact ⟨_, haccepted⟩

theorem syncBlocks_synced {source : BlockHandler.SyncSource} {mainTip : BlockHash}
    (hhashes : HonestHashes C headers) (hcycles : NoCycles C headers)
    (hextra : NoP2mr handler.extraPrevouts) (hsource : HonestSync C headers source)
    (h : Synced C headers hashes s) :
    wp (handler.syncBlocks C source mainTip) (fun _ t => ∃ hashes', Synced C headers hashes' t)
      (fun _ t => ∃ hashes', Synced C headers hashes' t) s := by
  unfold BlockHandler.syncBlocks
  rw [Program.wp_bind]
  refine (transaction_disconnectStale_wp hhashes h).mono ?_ fun _ _ h => h
  rintro current t ⟨hashes', ht⟩
  rw [Program.wp_bind, wp_read]
  refine ⟨fun _ => ⟨hashes', ht.next⟩, fun _ => Program.wp_ite.mpr ⟨fun _ => ⟨hashes', ht.next⟩, fun _ => ?_⟩⟩
  have hnodup := missingBlocks_nodup ht.indexed.keyed hcycles mainTip current
  have hstored : ∀ blockHash ∈ BlockHandler.missingBlocks t.dbs mainTip current,
      (t.next.dbs.header.lookup blockHash).isSome := fun _ => missingBlocks_stored
  rw [Program.wp_bind]
  refine (missingAfterFileSync_synced hhashes hextra hsource.files hnodup hstored ht.next).mono ?_
    fun _ _ h => h.elim
  rintro left u ⟨hleft, hheader, hashes'', hu⟩
  refine syncBatches_synced hhashes hextra hsource (fun chunk hchunk blockHash hin => ?_) hu
  have hflat : blockHash ∈ (left.reverse.toChunks BlockHandler.blockFetchBatchSize).flatten :=
    List.mem_flatten.mpr ⟨chunk, hchunk, hin⟩
  rw [Chunks.flatten_toChunks, List.mem_reverse] at hflat
  rw [hheader]
  exact hstored blockHash (hleft hflat)

theorem syncToTip_synced {validator : Validator} {answers : List (Except SyncError (List (Header × Nat)))}
    {source : BlockHandler.SyncSource} {mainTip : BlockHash} (hhashes : HonestHashes C headers)
    (hcycles : NoCycles C headers) (hsource : HonestSync C headers source)
    (hanswers : ∀ stored, .ok stored ∈ answers → ∀ entry ∈ stored, entry.1 ∈ headers)
    (h : Synced C headers hashes s) :
    wp (validator.syncToTip C answers source mainTip) (fun _ t => ∃ hashes', Synced C headers hashes' t)
      (fun _ t => ∃ hashes', Synced C headers hashes' t) s := by
  have hextra : NoP2mr (validator.handler ∅).extraPrevouts := fun _ _ hlookup => by cases hlookup
  unfold Validator.syncToTip
  rw [Program.wp_bind]
  refine (Program.wp_forM (fun _ t => ∃ hashes', Synced C headers hashes' t) ⟨hashes, h⟩ ?_).mono ?_
    fun _ _ h => h
  · rintro done answer rest t hsplit ⟨hashes', ht⟩
    rw [Program.wp_bind, Program.wp_ofExcept]
    refine ⟨fun stored hstored => ?_, fun _ _ => ⟨hashes', ht⟩⟩
    exact storeHeaders_synced hhashes (hanswers stored (by rw [← hsplit, hstored]; simp)) ht
  · rintro - t ⟨hashes', ht⟩
    exact syncBlocks_synced hhashes hcycles hextra hsource ht

/-! ## Runs -/

/-- Runs of live connects, live disconnects and catch-ups, each of which may fail anywhere but where an
event was sent in the open write transaction. -/
inductive Run (C : Crypto) (headers : Set Header) : Store → Prop where
  | start {faults : Nat → Bool → Bool} (steady : ∀ n, faults n true = false) :
      Run C headers ⟨.empty, [], none, faults, []⟩
  | connect {s t : Store} {validator : Validator} {block : Block}
      {outcome : Except ConnectBlockError Validator.ConnectBlockAction} (start : Run C headers s)
      (known : block.header ∈ headers) (run : validator.connectBlock C block s = (outcome, t)) :
      Run C headers t
  /-- With no block connected, no block is disconnected that was connected before. -/
  | disconnect {s t : Store} {blockHash : BlockHash} {outcome : Except DisconnectBlockError Unit}
      (start : Run C headers s)
      (connected : s.dbs.currentChainTip = none → s.dbs.diff.lookup blockHash = none)
      (run : Validator.disconnectBlock C blockHash s = (outcome, t)) : Run C headers t
  | sync {s t : Store} {validator : Validator} {answers : List (Except SyncError (List (Header × Nat)))}
      {source : BlockHandler.SyncSource} {mainTip : BlockHash}
      {outcome : Except SyncError (Option (BlockHash × ConnectBlockError))} (start : Run C headers s)
      (known : ∀ stored, .ok stored ∈ answers → ∀ entry ∈ stored, entry.1 ∈ headers)
      (honest : HonestSync C headers source)
      (run : validator.syncToTip C answers source mainTip s = (outcome, t)) : Run C headers t

theorem Run.synced (hhashes : HonestHashes C headers) (hcycles : NoCycles C headers)
    (h : Run C headers s) : ∃ hashes, Synced C headers hashes s := by
  induction h with
  | start steady =>
      refine ⟨[], Tracked.empty.indexed, fun blockHash h => ?_, rfl, rfl, steady⟩
      simp [Dbs.empty] at h
  | connect _ known run ih =>
      obtain ⟨hashes, h⟩ := ih
      exact (connectBlock_synced hhashes known h).either run
  | disconnect _ connected run ih =>
      obtain ⟨hashes, h⟩ := ih
      exact (disconnectBlock_synced h connected).either run
  | sync _ known honest run ih =>
      obtain ⟨hashes, h⟩ := ih
      exact (syncToTip_synced hhashes hcycles honest known h).either run

/-- After every call of such a run, whether it has failed or not, the events spell the chain that is
stored. -/
theorem run_events (hhashes : HonestHashes C headers) (hcycles : NoCycles C headers)
    (h : Run C headers s) : replayEvents s.events = some (activeChain s.dbs) := by
  obtain ⟨hashes, hsynced⟩ := h.synced hhashes hcycles
  rw [hsynced.events, hsynced.indexed.activeChain_eq hhashes]

/-! Two blocks are connected, and the second one is disconnected. -/

def genesisLive : Store := (sampleValidator.connectBlock .sample genesis (freshStore .empty)).2

def childLive : Store := (sampleValidator.connectBlock .sample child genesisLive).2

def rewoundLive : Store := (Validator.disconnectBlock .sample childHash childLive).2

theorem sampleHeaders_noCycles : NoCycles .sample sampleHeaders := by
  refine ⟨LittleEndian.decode, ?_⟩
  rintro header (rfl | rfl)
  · decide
  · decide

theorem rewoundLive_run : Run .sample sampleHeaders rewoundLive := by
  have hgenesis : sampleValidator.connectBlock .sample genesis (freshStore .empty) =
      (.ok .accept, genesisLive) := by
    unfold genesisLive
    exact Program.eq_of_fst (by decide)
  have hchild : sampleValidator.connectBlock .sample child genesisLive = (.ok .accept, childLive) := by
    unfold childLive
    exact Program.eq_of_fst (by decide +kernel)
  have hrewound : Validator.disconnectBlock .sample childHash childLive = (.ok (), rewoundLive) := by
    unfold rewoundLive
    exact Program.eq_of_fst (by decide +kernel)
  have htip : childLive.dbs.currentChainTip ≠ none := by decide +kernel
  have hstart : Run .sample sampleHeaders (freshStore .empty) := .start fun _ => rfl
  exact .disconnect (.connect (.connect hstart (.inl rfl) hgenesis) (.inr rfl) hchild)
    (fun hnone => absurd hnone htip) hrewound

example : replayEvents rewoundLive.events = some (activeChain rewoundLive.dbs) ∧
    rewoundLive.events.length = 3 :=
  ⟨run_events sampleHeaders_honest sampleHeaders_noCycles rewoundLive_run, by decide +kernel⟩

end Bip360Enforcer.Validator
