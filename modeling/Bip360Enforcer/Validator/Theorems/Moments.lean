import Bip360Enforcer.Validator.Lemmas.Moments
import Bip360Enforcer.Validator.Theorems.Events

/-!
# At no moment do the events run ahead of the databases
-/

namespace Bip360Enforcer.Validator

open Program (wp)

variable {C : Crypto} {headers : Set Header} {handler : BlockHandler} {validator : Validator}
  {source : BlockHandler.SyncSource} {mainTip blockHash : BlockHash} {block : Block}
  {stored : List (Header × Nat)} {hashes : List BlockHash} {s t : Store}

/-! ## Calls -/

theorem connectBlock_upToDate (hhashes : HonestHashes C headers) (hblock : block.header ∈ headers)
    (h : UpToDate C headers hashes s) :
    wp (validator.connectBlock C block) (fun _ t => ∃ hashes', UpToDate C headers hashes' t)
      (fun _ t => ∃ hashes', UpToDate C headers hashes' t) s := by
  refine connectBlock_wp.mono ?_ fun e t ht => ⟨hashes, h.unchanged hhashes ht⟩
  rintro action t ⟨extra, -, -, -, haction⟩
  cases action with
  | accept =>
      obtain ⟨event, u, v, haccepted, hevents, hlog⟩ := haction
      obtain ⟨hindexed, happly, -⟩ := haccepted.grows hhashes hblock h.indexed
      exact ⟨_, h.connected hhashes hindexed happly hevents hlog⟩
  | reject =>
      obtain ⟨hheader, hevents, hlog⟩ := haction
      exact ⟨hashes, h.ended hhashes (hheader.indexed hhashes hblock h.indexed) hevents hlog⟩

theorem storeHeaders_upToDate (hhashes : HonestHashes C headers)
    (hknown : ∀ entry ∈ stored, entry.1 ∈ headers) (h : UpToDate C headers hashes s) :
    wp (Validator.storeHeaders C stored) (fun _ t => ∃ hashes', UpToDate C headers hashes' t)
      (fun _ t => ∃ hashes', UpToDate C headers hashes' t) s := by
  have hinv : ∀ entry ∈ stored, ∀ dbs, Indexed C headers dbs hashes →
      Indexed C headers (withHeader C entry.1 entry.2 dbs) hashes := fun entry hentry dbs hindexed =>
    hindexed.moreHeaders (putHeader_moreHeaders hhashes hindexed.keyed (hknown entry hentry))
  refine (storeHeaders_wp hinv h.indexed).mono ?_ fun e t ht => ⟨hashes, h.unchanged hhashes ht⟩
  rintro - t ⟨hindexed, -, -, hevents, hlog⟩
  exact ⟨hashes, h.ended hhashes hindexed hevents hlog⟩

/-- The first batch from the node is the last one. -/
theorem syncBatches_unchanged {missing left : List BlockHash} (hsource : HonestSync C headers source)
    (hleft : left ⊆ missing)
    (hblocks : ∀ block, source.Gives block → C.blockHash block.header ∈ missing →
      ¬ Connectable C handler block s.dbs) :
    wp (handler.syncBatches C source 0 (left.toChunks BlockHandler.blockFetchBatchSize))
      (fun _ t => Unchanged s t) (fun _ t => Unchanged s t) s := by
  have hsame : Unchanged s s := .quiet (.refl s) rfl
  cases hchunks : left.toChunks BlockHandler.blockFetchBatchSize with
  | nil => exact hsame
  | cons chunk chunks =>
      have hchunk : chunk ∈ left.toChunks BlockHandler.blockFetchBatchSize := by rw [hchunks]; simp
      have hne : chunk ≠ [] := Chunks.ne_nil_of_mem_toChunks (by decide) hchunk
      have hsubset : chunk ⊆ left := fun hash hhash => by
        rw [← Chunks.flatten_toChunks BlockHandler.blockFetchBatchSize left]
        exact List.mem_flatten.mpr ⟨chunk, hchunk, hhash⟩
      rw [BlockHandler.syncBatches]
      refine Program.wp_ite.mpr ⟨fun _ => hsame, fun hgoing => ?_⟩
      rw [Program.wp_bind, Program.wp_ofExcept]
      refine ⟨fun blocks hanswer => ?_, fun _ _ => hsame⟩
      have hasked := hsource.answers 0 chunk blocks hanswer
      have hrest : ∀ block ∈ blocks, ¬ Connectable C handler block s.dbs := fun block hblock => by
        refine hblocks block (.inl ⟨by simpa using hgoing, chunk, blocks, hanswer, hblock⟩) ?_
        refine hleft (hsubset ?_)
        rw [← hasked]
        exact List.mem_map_of_mem hblock
      rw [Program.wp_bind]
      refine (connectBatch_unchanged hrest).mono ?_ fun _ _ ht => ht
      rintro outcome t ⟨ht, hmatch⟩
      cases outcome with
      | some rejected => exact ht
      | none =>
          obtain rfl := hmatch
          exact absurd hasked.symm hne

/-- A catch-up with nothing to do. -/
theorem syncBlocks_unchanged (hcycles : NoCycles C headers) (hsource : HonestSync C headers source)
    (hindexed : Indexed C headers s.dbs hashes) (hrest : AtRest C handler source mainTip s.dbs) :
    wp (handler.syncBlocks C source mainTip) (fun _ t => Unchanged s t) (fun _ t => Unchanged s t) s := by
  unfold BlockHandler.syncBlocks
  rw [Program.wp_bind]
  refine (disconnectStale_unchanged hrest.onBranch).mono ?_ fun _ _ ht => ht
  rintro current t ⟨ht, rfl⟩
  have hnext := ht.trans (.next t)
  rw [Program.wp_bind, wp_read]
  refine ⟨fun _ => hnext, fun _ => Program.wp_ite.mpr ⟨fun _ => hnext, fun _ => ?_⟩⟩
  rw [ht.dbs]
  have hnodup := missingBlocks_nodup hindexed.keyed hcycles mainTip
    (s.dbs.currentChainTip.getD .allZeros)
  have hfiles : ∀ dir ∈ source.blocksDir, ∀ first items, dir.parse first = .ok items →
      ∀ block, .ok block ∈ items → block.Known {block | source.Gives block} :=
    fun dir hdir first items hparse block hblock txData htxData =>
      .inr ⟨dir, hdir, first, items, block, hparse, hblock, rfl, htxData⟩
  rw [Program.wp_bind]
  refine (missingAfterFileSync_wp (unchanged_batch hrest.blocks) hnodup hfiles ⟨rfl, hnext⟩).mono ?_
    fun _ _ h => h.elim
  rintro left u ⟨lost, connected, hsplit, ⟨-, hu⟩, -⟩
  have hleft : left.reverse ⊆ BlockHandler.missingBlocks s.dbs mainTip
      (s.dbs.currentChainTip.getD .allZeros) := fun hash hhash => by
    rw [hsplit, List.append_assoc]
    exact List.mem_append_left _ (List.mem_reverse.mp hhash)
  refine (syncBatches_unchanged hsource hleft fun block hgives hmissing => ?_).mono
    (fun _ _ hv => hu.trans hv) fun _ _ hv => hu.trans hv
  rw [hu.dbs]
  exact hrest.blocks block hgives hmissing

/-! ## Runs -/

/-- Runs of live connects, live disconnects and catch-ups, the header and block parts of which are steps
of their own. Any operation may fail, and no event is sent while a write transaction is open. -/
inductive CommitFirst (C : Crypto) (headers : Set Header) : Store → Prop where
  | start {faults : Nat → Bool → Bool} : CommitFirst C headers ⟨.empty, [], none, faults, []⟩
  | connect {s t : Store} {validator : Validator} {block : Block}
      {outcome : Except ConnectBlockError Validator.ConnectBlockAction} (start : CommitFirst C headers s)
      (known : block.header ∈ headers) (run : validator.connectBlock C block s = (outcome, t)) :
      CommitFirst C headers t
  | disconnect {s t : Store} {blockHash : BlockHash} {outcome : Except DisconnectBlockError Unit}
      (start : CommitFirst C headers s) (kept : ¬ Undoes blockHash s.dbs)
      (run : Validator.disconnectBlock C blockHash s = (outcome, t)) : CommitFirst C headers t
  | storeHeaders {s t : Store} {stored : List (Header × Nat)} {outcome : Except SyncError Unit}
      (start : CommitFirst C headers s) (known : ∀ entry ∈ stored, entry.1 ∈ headers)
      (run : Validator.storeHeaders C stored s = (outcome, t)) : CommitFirst C headers t
  | syncBlocks {s t : Store} {handler : BlockHandler} {source : BlockHandler.SyncSource}
      {mainTip : BlockHash} {outcome : Except SyncError (Option (BlockHash × ConnectBlockError))}
      (start : CommitFirst C headers s) (honest : HonestSync C headers source)
      (rest : AtRest C handler source mainTip s.dbs)
      (run : handler.syncBlocks C source mainTip s = (outcome, t)) : CommitFirst C headers t

theorem UpToDate.start {faults : Nat → Bool → Bool} :
    UpToDate C headers [] ⟨.empty, [], none, faults, []⟩ :=
  ⟨Tracked.empty.indexed, .empty, rfl, rfl, rfl⟩

theorem CommitFirst.upToDate (hhashes : HonestHashes C headers) (hcycles : NoCycles C headers)
    (h : CommitFirst C headers s) : ∃ hashes, UpToDate C headers hashes s := by
  induction h with
  | start => exact ⟨[], .start⟩
  | connect _ known run ih =>
      obtain ⟨hashes, h⟩ := ih
      exact (connectBlock_upToDate hhashes known h).either run
  | disconnect _ kept run ih =>
      obtain ⟨hashes, h⟩ := ih
      exact ⟨hashes, h.unchanged hhashes ((disconnectBlock_unchanged kept).either run)⟩
  | storeHeaders _ known run ih =>
      obtain ⟨hashes, h⟩ := ih
      exact (storeHeaders_upToDate hhashes known h).either run
  | syncBlocks _ honest rest run ih =>
      obtain ⟨hashes, h⟩ := ih
      exact ⟨hashes, h.unchanged hhashes
        ((syncBlocks_unchanged hcycles honest h.indexed rest).either run)⟩

/-- A whole catch-up is such steps. -/
theorem CommitFirst.syncToTip {answers : List (Except SyncError (List (Header × Nat)))}
    (hknown : ∀ stored, .ok stored ∈ answers → ∀ entry ∈ stored, entry.1 ∈ headers)
    (hsource : HonestSync C headers source) (h : CommitFirst C headers s)
    (hrest : ∀ u, (answers.forM fun answer => do
        let stored ← Program.ofExcept answer
        Validator.storeHeaders C stored) s = (.ok (), u) →
      AtRest C (validator.handler ∅) source mainTip u.dbs) :
    wp (validator.syncToTip C answers source mainTip) (fun _ t => CommitFirst C headers t)
      (fun _ t => CommitFirst C headers t) s := by
  unfold Validator.syncToTip
  rw [Program.wp_bind]
  have hheaders : wp (answers.forM fun answer => do
      let stored ← Program.ofExcept answer
      Validator.storeHeaders C stored) (fun _ t => CommitFirst C headers t)
      (fun _ t => CommitFirst C headers t) s := by
    refine Program.wp_forM (fun _ t => CommitFirst C headers t) h ?_
    rintro done answer rest t hsplit ht
    rw [Program.wp_bind, Program.wp_ofExcept]
    refine ⟨fun stored hstored => ?_, fun _ _ => ht⟩
    have hentries := hknown stored (by rw [← hsplit, hstored]; simp)
    exact (Program.wp_self _ _).mono (fun _ _ hrun => .storeHeaders ht hentries hrun)
      fun _ _ hrun => .storeHeaders ht hentries hrun
  refine (hheaders.and (Program.wp_self _ _)).mono ?_ fun _ _ ht => ht.1
  rintro ⟨⟩ u ⟨hu, hrun⟩
  exact (Program.wp_self _ _).mono (fun _ _ hrun' => .syncBlocks hu hsource (hrest u hrun) hrun')
    fun _ _ hrun' => .syncBlocks hu hsource (hrest u hrun) hrun'

/-- At every moment of such a run, the events that have been sent spell the chain that was committed
last, or are about to. -/
theorem commitFirst_keepsUp (hhashes : HonestHashes C headers) (hcycles : NoCycles C headers)
    (h : CommitFirst C headers s) : KeepsUp s.log ∧ sentEvents s.log = s.events := by
  obtain ⟨hashes, hupToDate⟩ := h.upToDate hhashes hcycles
  exact ⟨hupToDate.keepsUp, hupToDate.events⟩

/-! One block is connected, another one comes without its transactions and is not, and is then
connected live. -/

/-- A store in which the next operation fails, as soon as an event was sent in the open transaction. -/
def unsteadyStore : Store := ⟨.empty, [], none, fun _ sent => sent, []⟩

def hollowSource : BlockHandler.SyncSource where
  blocksDir := none
  cancelled _ := false
  fetchBlocksBatch _ asked := if asked = [childHash] then .ok [⟨child.header, []⟩] else .error .rest

def baseStore : Store := (sampleValidator.connectBlock .sample genesis unsteadyStore).2

def announcedStore : Store := (Validator.storeHeaders .sample [(child.header, 1)] baseStore).2

def hollowStore : Store := (sampleHandler.syncBlocks .sample hollowSource childHash announcedStore).2

def untouchedStore : Store := (Validator.disconnectBlock .sample childHash hollowStore).2

def recoveredStore : Store := (sampleValidator.connectBlock .sample child untouchedStore).2

theorem hollowSource_honest : HonestSync .sample sampleHeaders hollowSource where
  answers n asked blocks h := by
    simp only [hollowSource] at h
    split at h
    · obtain rfl := Except.ok.inj h
      rename_i hasked
      rw [hasked]
      rfl
    · cases h
  blocks n asked blocks h block hblock := by
    simp only [hollowSource] at h
    split at h
    · obtain rfl := Except.ok.inj h
      obtain rfl := List.mem_singleton.mp hblock
      exact .inr rfl
    · cases h
  files dir hdir := by cases hdir

theorem announcedStore_atRest : AtRest .sample sampleHandler hollowSource childHash announcedStore.dbs where
  onBranch ancestor h := by
    have hfound : findLastCommonAncestor announcedStore.dbs
        (announcedStore.dbs.currentChainTip.getD .allZeros) childHash = .ok genesisHash := by decide
    rw [hfound] at h
    obtain rfl := Except.ok.inj h
    decide
  blocks block hgives _ hconnectable := by
    rcases hgives with ⟨-, asked, blocks, hanswer, hblock⟩ | ⟨dir, hdir, -⟩
    · simp only [hollowSource] at hanswer
      split at hanswer
      · obtain rfl := Except.ok.inj hanswer
        obtain rfl := List.mem_singleton.mp hblock
        exact hconnectable.txdata rfl
      · cases hanswer
    · cases hdir

theorem recoveredStore_commitFirst : CommitFirst .sample sampleHeaders recoveredStore := by
  have hbase : sampleValidator.connectBlock .sample genesis unsteadyStore = (.ok .accept, baseStore) := by
    unfold baseStore
    exact Program.eq_of_fst (by decide)
  have hannounced : Validator.storeHeaders .sample [(child.header, 1)] baseStore =
      (.ok (), announcedStore) := by
    unfold announcedStore
    exact Program.eq_of_fst (by decide)
  have hhollow : sampleHandler.syncBlocks .sample hollowSource childHash announcedStore =
      (.ok (some (childHash, .noCoinbase)), hollowStore) := by
    unfold hollowStore
    exact Program.eq_of_fst (by decide)
  have huntouched : Validator.disconnectBlock .sample childHash hollowStore = (.ok (), untouchedStore) := by
    unfold untouchedStore
    exact Program.eq_of_fst (by decide)
  have hcaughtUp : sampleValidator.connectBlock .sample child untouchedStore =
      (.ok .accept, recoveredStore) := by
    unfold recoveredStore
    exact Program.eq_of_fst (by decide +kernel)
  have hkept : ¬ Undoes childHash hollowStore.dbs := fun h => absurd h.hasDiff (by decide)
  have hstart : CommitFirst .sample sampleHeaders unsteadyStore := .start
  have hmissed := (CommitFirst.connect hstart (.inl rfl) hbase).storeHeaders
    (by simp [sampleHeaders]) hannounced
  exact ((hmissed.syncBlocks hollowSource_honest announcedStore_atRest hhollow).disconnect hkept
    huntouched).connect (.inr rfl) hcaughtUp

theorem recoveredStore_keepsUp :
    (KeepsUp recoveredStore.log ∧ sentEvents recoveredStore.log = recoveredStore.events) ∧
      recoveredStore.log.length = 8 ∧ recoveredStore.events.length = 2 :=
  ⟨commitFirst_keepsUp sampleHeaders_honest sampleHeaders_noCycles recoveredStore_commitFirst,
    by decide +kernel⟩

/-- The commit of a disconnect fails: the block stays connected, but its disconnect was broadcast. -/
theorem failedCommit_ahead :
    let connected := sampleValidator.connectBlock .sample genesis unsteadyStore
    let disconnected := Validator.disconnectBlock .sample genesisHash connected.2
    connected.1 = .ok .accept ∧ disconnected.1 = .error (.db .io) ∧
      replayEvents disconnected.2.events = some [] ∧ activeChain disconnected.2.dbs = [genesisHash] ∧
      ¬ KeepsUp disconnected.2.log := by
  refine ⟨by decide, by decide, by decide, by decide, fun h => ?_⟩
  rcases h _ (List.prefix_refl _) with hnow | ⟨before, dbs, hlog, hbefore⟩
  · exact absurd hnow (by decide)
  · obtain rfl : before = (Validator.disconnectBlock .sample genesisHash
        (sampleValidator.connectBlock .sample genesis unsteadyStore).2).2.log.dropLast := by
      rw [hlog]
      simp
    exact absurd hbefore (by decide)

/-! ## The other calls -/

theorem Event.apply_ne (event : Event) (hashes : List BlockHash) : event.apply hashes ≠ some hashes := by
  cases event with
  | connectBlock headerInfo blockInfo =>
      rw [Event.apply]
      split
      · simp
      · simp
  | disconnectBlock blockHash =>
      cases hashes with
      | nil => simp [Event.apply]
      | cons tip below =>
          rw [Event.apply]
          split
          · simp
          · simp

/-- An event that is sent before anything is committed. -/
theorem UpToDate.ahead {event : Event} {log : List Seen} (h : UpToDate C headers hashes s)
    (hhashes : HonestHashes C headers) (hlog : s.log ++ [.sent event] <+: log) : ¬ KeepsUp log := by
  intro hkeepsUp
  rcases hkeepsUp _ hlog with hnow | ⟨before, dbs, heq, -⟩
  · rw [sentEvents_sent, committedDbs_sent, replayEvents_append h.replayed, h.committed,
      h.indexed.activeChain_eq hhashes] at hnow
    exact event.apply_ne hashes hnow
  · have hlast := (List.append_inj' heq rfl).2
    cases hlast

/-- Every live disconnect that takes back a block. -/
theorem disconnectBlock_ahead (hhashes : HonestHashes C headers) (h : UpToDate C headers hashes s)
    (hundoes : Undoes blockHash s.dbs) (hrun : Validator.disconnectBlock C blockHash s = (.ok (), t)) :
    ¬ KeepsUp t.log := by
  have hlog : wp (Validator.disconnectBlock C blockHash)
      (fun _ t => s.log ++ [.sent (.disconnectBlock blockHash)] <+: t.log) (fun _ _ => True) s := by
    refine wp_transaction (fun _ => trivial) ?_
    rw [Program.wp_bind]
    refine disconnectBlock_wp.mono ?_ fun _ _ _ => trivial
    rintro - t (⟨hnone, -, -⟩ | ⟨diff, header, u, -, hquiet, rfl⟩)
    · have hdiff := hundoes.hasDiff
      rw [show s.dbs.diff.lookup blockHash = none from hnone] at hdiff
      cases hdiff
    · refine wp_access.mpr ⟨fun _ => trivial, fun _ => ?_⟩
      have hlog : u.log = s.log := hquiet.log
      change _ <+: u.log ++ _ ++ _
      rw [hlog]
      exact List.prefix_append _ _
  exact h.ahead hhashes (hlog.ok hrun)

theorem handleBlockBatch_log {blocks : List Block} :
    wp (handler.handleBlockBatch C blocks) (fun _ t => s.log <+: t.log) (fun _ t => s.log <+: t.log) s := by
  induction blocks generalizing s with
  | nil => exact List.prefix_refl _
  | cons block blocks ih =>
      unfold BlockHandler.handleBlockBatch
      rw [Program.wp_bind, Program.wp_attempt]
      have hspec : Spec (handler.connectBlock C block) s.dbs _ _ fun e => e.isFatal = true :=
        connectBlock_spec fun _ h => h
      refine (hspec s rfl).mono ?_ ?_
      · rintro event u ⟨hquiet, -⟩
        have hsent : s.log <+: (u.send event).log := by
          change _ <+: u.log ++ _
          rw [hquiet.log]
          exact List.prefix_append _ _
        exact ih.mono (fun _ _ ht => hsent.trans ht) fun _ _ ht => hsent.trans ht
      · rintro e u ⟨hquiet, -⟩
        exact Program.wp_ite.mpr ⟨fun _ => hquiet.log ▸ List.prefix_refl _,
          fun _ => hquiet.log ▸ List.prefix_refl _⟩

/-- Every batch of a catch-up of which a block is connected. -/
theorem connectBatch_ahead {blocks : List Block} {event : Event} {u : Store}
    (hhashes : HonestHashes C headers) (h : UpToDate C headers hashes s) (hbegins : s.fails = false)
    (hconnects : handler.connectBlock C block s.next.begin = (.ok event, u)) :
    ¬ KeepsUp (handler.connectBatch C (block :: blocks) s).2.log := by
  have hspec : Spec (handler.connectBlock C block) s.next.begin.dbs _ _ fun e => e.isFatal = true :=
    connectBlock_spec fun _ h => h
  have hsent : s.log ++ [.sent event] = (u.send event).log := by
    change _ = u.log ++ _
    rw [(hspec.ok hconnects).1.log]
    rfl
  have hlog : wp (handler.connectBatch C (block :: blocks)) (fun _ t => s.log ++ [.sent event] <+: t.log)
      (fun _ t => s.log ++ [.sent event] <+: t.log) s := by
    refine wp_transaction (fun hfails => absurd hfails (by simp [hbegins])) ?_
    rw [Program.wp_bind]
    have hbatch : wp (handler.handleBlockBatch C (block :: blocks))
        (fun _ t => s.log ++ [.sent event] <+: t.log) (fun _ t => s.log ++ [.sent event] <+: t.log)
        s.next.begin := by
      rw [wp, BlockHandler.handleBlockBatch_accept hconnects, ← wp, hsent]
      exact handleBlockBatch_log
    refine hbatch.mono ?_ fun e t ht => ht.trans (List.prefix_append _ _)
    rintro outcome t ht
    simp only [commit, Program.wp_bind, wp_access, Program.wp_pure]
    exact ⟨fun _ => ht.trans (List.prefix_append _ _), fun _ => ht.trans (List.prefix_append _ _)⟩
  rcases hrun : handler.connectBatch C (block :: blocks) s with ⟨outcome, t⟩
  exact h.ahead hhashes (hlog.either hrun)

end Bip360Enforcer.Validator
