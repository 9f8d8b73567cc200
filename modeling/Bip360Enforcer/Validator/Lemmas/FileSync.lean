import Bip360Enforcer.Library.Chunks
import Bip360Enforcer.Validator.BlockFiles
import Bip360Enforcer.Validator.Lemmas.Batch

/-!
# Where the missing blocks are during a file sync
-/

namespace Bip360Enforcer.Validator

open Program (wp)

variable {C : Crypto} {handler : BlockHandler} {known : Set Block} {missing connected : List BlockHash}
  {inv : List BlockHash → Store → Prop} {st : FileSync} {config : FileConfig}

/-! ## Block cache -/

/-- Every block of the cache is kept under its own hash. -/
def CacheHonest (C : Crypto) (known : Set Block) (blocks : HashDb Block) : Prop :=
  ∀ hash block, blocks.lookup hash = some block → C.blockHash block.header = hash ∧ block ∈ known

theorem CacheHonest.erase {blocks : HashDb Block} (h : CacheHonest C known blocks)
    (hash : BlockHash) : CacheHonest C known (blocks.erase hash) := by
  intro hash' block hlookup
  by_cases hk : hash' = hash
  · subst hk
    simp at hlookup
  · exact h hash' block (by rwa [AList.lookup_erase_ne hk] at hlookup)

theorem CacheHonest.evict {maxSize : Nat} {order : List BlockHash} {blocks : HashDb Block}
    (h : CacheHonest C known blocks) :
    CacheHonest C known (BlockCache.evict maxSize order blocks).2 := by
  induction order generalizing blocks with
  | nil => exact h
  | cons oldest order ih =>
      rw [BlockCache.evict]
      split
      · exact h
      · exact ih (h.erase oldest)

theorem CacheHonest.insert {cache : BlockCache} {block : Block}
    (h : CacheHonest C known cache.blocks) (hblock : block ∈ known) :
    CacheHonest C known (cache.insert (C.blockHash block.header) block).blocks := by
  unfold BlockCache.insert
  split
  · exact h
  · intro hash block' hlookup
    by_cases hk : hash = C.blockHash block.header
    · subst hk
      obtain rfl : block = block' := by simpa using hlookup
      exact ⟨rfl, hblock⟩
    · exact h.evict hash block' (by simpa [AList.lookup_insert_ne hk] using hlookup)

theorem CacheHonest.remove {cache cache' : BlockCache} {hash : BlockHash} {block : Block}
    (h : CacheHonest C known cache.blocks) (hremove : cache.remove hash = some (block, cache')) :
    C.blockHash block.header = hash ∧ block ∈ known ∧ CacheHonest C known cache'.blocks := by
  obtain ⟨block', hlookup, heq⟩ := Option.map_eq_some_iff.mp hremove
  cases heq
  obtain ⟨hhash, hmem⟩ := h hash _ hlookup
  exact ⟨hhash, hmem, h.erase hash⟩

/-- A block of the files is one of the known ones, if it can be read. -/
def FileBlock.Known (known : Set Block) (block : FileBlock) : Prop :=
  ∀ txData, block.txData = .ok txData → ⟨block.header, txData⟩ ∈ known

/-! ## The missing blocks -/

/-- What is kept of the store while batches of missing blocks are connected: `inv connected` where the
blocks `connected`, newest first, are connected. -/
structure BatchInvariant (C : Crypto) (handler : BlockHandler) (known : Set Block)
    (missing : List BlockHash) (inv : List BlockHash → Store → Prop) : Prop where
  next : ∀ {connected s}, inv connected s → inv connected s.next
  batch : ∀ {connected s} {blocks : List Block}, inv connected s →
    (∀ block ∈ blocks, block ∈ known ∧ C.blockHash block.header ∈ missing) →
    wp (handler.connectBatch C blocks)
      (fun outcome t => match outcome with
        | none => inv ((hashesOf C blocks).reverse ++ connected) t
        | some (hash, _) => ∃ accepted rejected rest, blocks = accepted ++ rejected :: rest ∧
            C.blockHash rejected.header = hash ∧ inv ((hashesOf C accepted).reverse ++ connected) t)
      (fun _ t => inv connected t) s

/-- Each of the blocks that were missing is missing still, pending, or connected, in this order. -/
structure Syncing (C : Crypto) (known : Set Block) (missing : List BlockHash)
    (inv : List BlockHash → Store → Prop) (connected : List BlockHash) (st : FileSync) : Prop where
  split : missing = st.missingBlocks ++ (hashesOf C st.pendingBlocks).reverse ++ connected
  store : inv connected st.store
  pending : ∀ block ∈ st.pendingBlocks, block ∈ known
  cache : CacheHonest C known st.blockCache.blocks

/-- The state between two blocks of the files: once no block is missing, none is pending. -/
structure Going (C : Crypto) (known : Set Block) (missing : List BlockHash)
    (inv : List BlockHash → Store → Prop) (st : FileSync) : Prop where
  syncing : ∃ connected, Syncing C known missing inv connected st
  flushed : st.missingBlocks = [] → st.pendingBlocks = []

/-- The state in which all that is not connected is missing. -/
structure Settled (C : Crypto) (known : Set Block) (missing : List BlockHash)
    (inv : List BlockHash → Store → Prop) (st : FileSync) : Prop where
  syncing : ∃ connected, Syncing C known missing inv connected st
  settled : st.pendingBlocks = []

/-- The state in which blocks are lost: they are pending, and nothing will connect them. -/
structure Losing (C : Crypto) (known : Set Block) (missing : List BlockHash)
    (inv : List BlockHash → Store → Prop) (st : FileSync) : Prop where
  syncing : ∃ connected, Syncing C known missing inv connected st
  pending : st.pendingBlocks ≠ []

theorem Settled.going (h : Settled C known missing inv st) : Going C known missing inv st :=
  ⟨h.syncing, fun _ => h.settled⟩

theorem Syncing.push {block : Block} (h : Syncing C known missing inv connected st)
    (hlast : st.missingBlocks.getLast? = some (C.blockHash block.header)) (hblock : block ∈ known) :
    Syncing C known missing inv connected { st with
      pendingBlocks := st.pendingBlocks ++ [block]
      missingBlocks := st.missingBlocks.dropLast } where
  split := by
    have hsplit := List.dropLast_append_getLast? _ hlast
    rw [h.split]
    change st.missingBlocks ++ _ ++ _ =
      st.missingBlocks.dropLast ++ (hashesOf C (st.pendingBlocks ++ [block])).reverse ++ _
    conv_lhs => rw [← hsplit]
    simp [hashesOf]
  store := h.store
  pending b hb := by
    rcases List.mem_append.mp hb with hb | hb
    · exact h.pending b hb
    · obtain rfl : b = block := by simpa using hb
      exact hblock
  cache := h.cache

theorem wp_liftDb {α : Type} {x : Db SyncError α} {post : α → FileSync → Prop}
    {failed : SyncError → FileSync → Prop} :
    wp (liftDb x) post failed st ↔
      wp x (fun a s => post a { st with store := s }) (fun e s => failed e { st with store := s })
        st.store := by
  simp only [wp, liftDb]
  rcases x st.store with ⟨r, t⟩
  cases r <;> rfl

/-- The first pending block with the rejected hash is the rejected one. -/
theorem findIdx_rejected {accepted rest : List Block} {rejected : Block}
    (hnodup : (hashesOf C (accepted ++ rejected :: rest)).Nodup) :
    (accepted ++ rejected :: rest).findIdx
      (fun block => C.blockHash block.header = C.blockHash rejected.header) = accepted.length := by
  induction accepted with
  | nil => simp [List.findIdx_cons]
  | cons block accepted ih =>
      obtain ⟨hnotin, hnodup⟩ := List.nodup_cons.mp hnodup
      have hne : C.blockHash block.header ≠ C.blockHash rejected.header := by
        intro heq
        have hin : C.blockHash rejected.header ∈ hashesOf C (accepted ++ rejected :: rest) := by
          simp [hashesOf]
        rw [← heq] at hin
        exact hnotin hin
      rw [List.cons_append, List.findIdx_cons, ih hnodup]
      simp [hne]

/-! ## Connecting what is pending -/

variable (hinv : BatchInvariant C handler known missing inv) (hnodup : missing.Nodup)

include hinv hnodup

theorem connectPendingBlocks_wp (h : ∃ connected, Syncing C known missing inv connected st) :
    wp (handler.connectPendingBlocks C) (fun _ st' => Settled C known missing inv st')
      (fun _ st' => (∃ connected, Syncing C known missing inv connected st') ∧
        st'.pendingBlocks = st.pendingBlocks) st := by
  obtain ⟨connected, h⟩ := h
  have hpending : ∀ block ∈ st.pendingBlocks,
      block ∈ known ∧ C.blockHash block.header ∈ missing := by
    intro block hblock
    refine ⟨h.pending block hblock, ?_⟩
    have hin : C.blockHash block.header ∈ hashesOf C st.pendingBlocks := List.mem_map_of_mem hblock
    rw [h.split]
    simp [hin]
  unfold BlockHandler.connectPendingBlocks
  rw [Program.wp_bind, Program.wp_get, Program.wp_bind, wp_liftDb]
  refine (hinv.batch h.store hpending).mono ?_ fun e t ht => ?_
  · intro outcome t ht
    rcases outcome with _ | ⟨hash, err⟩
    · refine ⟨⟨(hashesOf C st.pendingBlocks).reverse ++ connected, ?_, ht, by simp, h.cache⟩, rfl⟩
      rw [h.split]
      simp [hashesOf]
    · obtain ⟨accepted, rejected, rest, hsplit, rfl, hstore⟩ := ht
      have hdrop : st.pendingBlocks.drop (st.pendingBlocks.findIdx
          fun block => C.blockHash block.header = C.blockHash rejected.header) = rejected :: rest := by
        have hsub : (hashesOf C (accepted ++ rejected :: rest)).Nodup := by
          rw [h.split, hsplit] at hnodup
          exact List.nodup_reverse.mp (List.Nodup.of_append_right (List.Nodup.of_append_left hnodup))
        rw [hsplit, findIdx_rejected hsub]
        simp
      refine ⟨⟨(hashesOf C accepted).reverse ++ connected, ?_, hstore, by simp, h.cache⟩, rfl⟩
      change missing = (st.missingBlocks ++ ((st.pendingBlocks.drop (st.pendingBlocks.findIdx
        fun block => C.blockHash block.header = C.blockHash rejected.header)).map
          fun block => C.blockHash block.header).reverse) ++ _ ++ _
      rw [hdrop, h.split, hsplit]
      simp [hashesOf]
  · exact ⟨⟨connected, h.split, ht, h.pending, h.cache⟩, rfl⟩

/-- After an expected block was pushed. -/
theorem connectFullBatch_wp (h : Losing C known missing inv st) :
    wp (handler.connectFullBatch C config)
      (fun all st' => if all then Going C known missing inv st' else Settled C known missing inv st')
      (fun _ st' => Losing C known missing inv st') st := by
  unfold BlockHandler.connectFullBatch
  rw [Program.wp_bind, Program.wp_get]
  refine Program.wp_ite.mpr ⟨fun _ => ?_, fun hfull => ?_⟩
  · refine (connectPendingBlocks_wp hinv hnodup h.syncing).mono (fun all st' hst' => ?_)
      fun e st' hst' => ⟨hst'.1, hst'.2 ▸ h.pending⟩
    cases all with
    | true => exact hst'.going
    | false => exact hst'
  · refine ⟨h.syncing, fun hempty => ?_⟩
    exact absurd (.inr (by rw [hempty]; rfl)) hfull

theorem processCachedBlocks_wp {n : Nat} (h : Going C known missing inv st) :
    wp (handler.processCachedBlocks C config n)
      (fun all st' => if all then Going C known missing inv st' else Settled C known missing inv st')
      (fun _ st' => Losing C known missing inv st') st := by
  induction n generalizing st with
  | zero => exact h
  | succ n ih =>
      unfold BlockHandler.processCachedBlocks
      rw [Program.wp_bind, Program.wp_get]
      split
      · exact h
      · rename_i cachedBlock cache hfound
        obtain ⟨hash, hlast, hremove⟩ := Option.bind_eq_some_iff.mp hfound
        obtain ⟨connected, hsyncing⟩ := h.syncing
        obtain ⟨rfl, hblock, hcache⟩ := hsyncing.cache.remove hremove
        have hpushed : Losing C known missing inv { st with
            blockCache := cache
            pendingBlocks := st.pendingBlocks ++ [cachedBlock]
            missingBlocks := st.missingBlocks.dropLast } := by
          have hremoved : Syncing C known missing inv connected { st with blockCache := cache } :=
            ⟨hsyncing.split, hsyncing.store, hsyncing.pending, hcache⟩
          exact ⟨⟨connected, hremoved.push hlast hblock⟩, by simp⟩
        rw [Program.wp_bind, Program.wp_modify, Program.wp_bind, BlockHandler.pushPending,
          Program.wp_modify, Program.wp_bind]
        refine (connectFullBatch_wp hinv hnodup hpushed).mono (fun all st' hst' => ?_) fun _ _ h => h
        cases all with
        | true => exact ih hst'
        | false => exact hst'

/-- What is pending is connected, unless this fails. -/
theorem flushPending_wp (h : ∃ connected, Syncing C known missing inv connected st) :
    wp (handler.flushPending C)
      (fun _ st' => Settled C known missing inv st' ∧ (st.pendingBlocks ≠ [] →
        ∀ e u, handler.connectPendingBlocks C st ≠ (.error e, u)))
      (fun e st' => Losing C known missing inv st' ∧ st.pendingBlocks ≠ [] ∧
        handler.connectPendingBlocks C st = (.error e, st')) st := by
  unfold BlockHandler.flushPending
  rw [Program.wp_bind, Program.wp_get]
  refine Program.wp_ite.mpr ⟨fun hempty => ?_, fun hpending => ?_⟩
  · have hnil := List.isEmpty_iff.mp hempty
    exact ⟨⟨h, hnil⟩, fun hne => absurd hnil hne⟩
  · have hne : st.pendingBlocks ≠ [] := fun hnil => hpending (List.isEmpty_iff.mpr hnil)
    rw [Program.wp_bind]
    refine ((connectPendingBlocks_wp hinv hnodup h).and (Program.wp_self _ _)).mono ?_ ?_
    · rintro all st' ⟨hst', hrun⟩
      refine ⟨hst', fun _ e u herror => ?_⟩
      rw [hrun] at herror
      cases herror
    · rintro e st' ⟨hst', hrun⟩
      exact ⟨⟨hst'.1, hst'.2 ▸ hne⟩, hne, hrun⟩

/-! ## One block of the files -/

omit hinv hnodup in
theorem cacheBlock_wp {block : FileBlock} (h : Syncing C known missing inv connected st)
    (hblock : block.Known known) :
    wp (BlockHandler.cacheBlock C block)
      (fun _ st' => block.txData.isOk ∧ Syncing C known missing inv connected st' ∧
        st'.missingBlocks = st.missingBlocks ∧ st'.pendingBlocks = st.pendingBlocks)
      (fun e st' => block.txData = .error e ∧ st' = st) st := by
  unfold BlockHandler.cacheBlock
  rw [Program.wp_bind, Program.wp_ofExcept]
  refine ⟨fun txData htxData => ?_, fun e herror => ⟨herror, rfl⟩⟩
  rw [Program.wp_modify]
  have hcache : CacheHonest C known
      (st.blockCache.insert (C.blockHash block.header) ⟨block.header, txData⟩).blocks :=
    @CacheHonest.insert C known st.blockCache ⟨block.header, txData⟩ h.cache (hblock txData htxData)
  exact ⟨by rw [htxData]; rfl, ⟨h.split, h.store, h.pending, hcache⟩, rfl, rfl⟩

/-- A failure at one block leaves blocks pending, if the block was readable; if it was not, those that
were pending before. -/
theorem handleFileBlock_wp {firstMissingBlock : BlockHash} {block : FileBlock}
    (h : Going C known missing inv st) (hblock : block.Known known) :
    wp (handler.handleFileBlock C config firstMissingBlock block)
      (fun all st' => (st.pendingBlocks ≠ [] → block.txData.isOk) ∧
        if all then Going C known missing inv st' else Settled C known missing inv st')
      (fun e st' => (Losing C known missing inv st' ∧ (st.pendingBlocks ≠ [] ∨ block.txData.isOk)) ∨
        (Settled C known missing inv st' ∧ st.pendingBlocks = [] ∧ block.txData = .error e)) st := by
  obtain ⟨connected, hsyncing⟩ := h.syncing
  -- A block that cannot be read leaves what is pending as it is.
  have hunreadable : ∀ e (st' : FileSync), block.txData = .error e →
      Syncing C known missing inv connected st' → st'.pendingBlocks = st.pendingBlocks →
      (Losing C known missing inv st' ∧ (st.pendingBlocks ≠ [] ∨ block.txData.isOk)) ∨
        (Settled C known missing inv st' ∧ st.pendingBlocks = [] ∧ block.txData = .error e) := by
    intro e st' herror hst' hpending
    by_cases hnil : st.pendingBlocks = []
    · exact .inr ⟨⟨⟨connected, hst'⟩, hpending.trans hnil⟩, hnil, herror⟩
    · exact .inl ⟨⟨⟨connected, hst'⟩, hpending ▸ hnil⟩, .inl hnil⟩
  unfold BlockHandler.handleFileBlock
  rw [Program.wp_bind, Program.wp_get]
  refine Program.wp_ite.mpr ⟨fun _ => ?_, fun _ => ?_⟩
  · rw [Program.wp_bind]
    refine (cacheBlock_wp hsyncing hblock).mono ?_ ?_
    · rintro - st' ⟨hok, hst', hmissing, hpending⟩
      exact ⟨fun _ => hok, ⟨connected, hst'⟩, fun hnil => hpending.trans (h.flushed (hmissing.symm.trans hnil))⟩
    · rintro e st' ⟨herror, rfl⟩
      exact hunreadable e _ herror hsyncing rfl
  · rw [Program.wp_bind, Program.wp_modify]
    have hfound : Syncing C known missing inv connected { st with hasFoundStart := true } :=
      ⟨hsyncing.split, hsyncing.store, hsyncing.pending, hsyncing.cache⟩
    cases hlast : st.missingBlocks.getLast? with
    | none =>
        have hnil := h.flushed (List.getLast?_eq_none_iff.mp hlast)
        exact ⟨fun hne => absurd hnil hne, ⟨connected, hfound⟩, hnil⟩
    | some expected =>
        refine Program.wp_ite.mpr ⟨fun heq => ?_, fun _ => ?_⟩
        · rw [Program.wp_bind, Program.wp_modify, Program.wp_bind, Program.wp_ofExcept]
          refine ⟨fun txData htxData => ?_, fun e herror => ?_⟩
          · have hok : block.txData.isOk = true := by rw [htxData]; rfl
            have hmatch : Syncing C known missing inv connected
                { st with hasFoundStart := true, iterationsWithoutMatch := 0 } :=
              ⟨hsyncing.split, hsyncing.store, hsyncing.pending, hsyncing.cache⟩
            have hpushed : Losing C known missing inv { st with
                hasFoundStart := true
                iterationsWithoutMatch := 0
                pendingBlocks := st.pendingBlocks ++ [⟨block.header, txData⟩]
                missingBlocks := st.missingBlocks.dropLast } :=
              ⟨⟨connected, hmatch.push (heq ▸ hlast) (hblock txData htxData)⟩, by simp⟩
            rw [Program.wp_bind, BlockHandler.pushPending, Program.wp_modify, Program.wp_bind]
            refine (connectFullBatch_wp hinv hnodup hpushed).mono ?_ fun e st' hst' => .inl ⟨hst', .inr hok⟩
            intro all st' hst'
            cases all with
            | true =>
                rw [if_pos rfl, Program.wp_bind, Program.wp_get]
                exact (processCachedBlocks_wp hinv hnodup hst').mono (fun _ _ h => ⟨fun _ => hok, h⟩)
                  fun e st' hst' => .inl ⟨hst', .inr hok⟩
            | false => exact ⟨fun _ => hok, hst'⟩
          · exact hunreadable e _ herror
              ⟨hsyncing.split, hsyncing.store, hsyncing.pending, hsyncing.cache⟩ rfl
        · rw [Program.wp_bind]
          refine (cacheBlock_wp hfound hblock).mono ?_ ?_
          · rintro - st' ⟨hok, hst', hmissing, hpending⟩
            have hgoing : Going C known missing inv
                { st' with iterationsWithoutMatch := st'.iterationsWithoutMatch + 1 } :=
              ⟨⟨connected, hst'.split, hst'.store, hst'.pending, hst'.cache⟩, fun hnil =>
                hpending.trans (h.flushed (hmissing.symm.trans hnil))⟩
            rw [Program.wp_bind, Program.wp_modify, Program.wp_bind, Program.wp_get]
            refine Program.wp_ite.mpr ⟨fun _ => ?_, fun _ => ⟨fun _ => hok, hgoing⟩⟩
            rw [Program.wp_bind]
            refine (flushPending_wp hinv hnodup hgoing.syncing).mono (fun _ _ h => ⟨fun _ => hok, h.1⟩) ?_
            rintro e u ⟨hu, hne, -⟩
            exact .inl ⟨hu, .inl fun hnil => hne (hpending.trans hnil)⟩
          · rintro e st' ⟨herror, rfl⟩
            exact hunreadable e _ herror hfound rfl

end Bip360Enforcer.Validator
