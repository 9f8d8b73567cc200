import Bip360Enforcer.Validator.Lemmas.FileOrder
import Bip360Enforcer.Validator.Theorems.BlockFiles

/-!
# A file sync connects blocks in the order of the chain
-/

namespace Bip360Enforcer.Validator

open Program (wp)
open Taking (Ordered Waiting)

variable {C : Crypto} {handler : BlockHandler} {dir : BlocksDir} {config : FileConfig}
  {missing : List BlockHash} {first : BlockHash} {delivered final : List Block} {block : Block}
  {s : Store} {a last : Taking} {st : FileSync} {batches : List (List Block)} {size : Nat}

/-! ## Handing over -/

/-- The store `t` comes out of `s` when the batches are handed over to connection one after another, and
all of them are connected. -/
inductive Handed (C : Crypto) (handler : BlockHandler) (s : Store) : List (List Block) → Store → Prop where
  | start : Handed C handler s [] s
  | batch {batches : List (List Block)} {batch : List Block} {t u : Store}
      (before : Handed C handler s batches t) (run : handler.connectBatch C batch t = (.ok none, u)) :
      Handed C handler s (batches ++ [batch]) u

/-- Where the batches are handed over to connection one after another, no block is rejected. -/
def noneRejected (C : Crypto) (handler : BlockHandler) : List (List Block) → Store → Bool
  | [], _ => true
  | batch :: batches, s =>
      match handler.connectBatch C batch s with
      | (.ok none, t) => noneRejected C handler batches t
      | (.ok (some _), _) => false
      | (.error _, _) => true

/-- The number of blocks that make a full batch. -/
def FileConfig.batchSize (config : FileConfig) : Nat := max 1 config.blocksDirConnectBatchSize

theorem FileConfig.batchSize_pos (config : FileConfig) : 0 < config.batchSize := by
  unfold FileConfig.batchSize
  omega

/-- The last of the batches that were handed over met an error. -/
def Fails (C : Crypto) (handler : BlockHandler) (missing : List BlockHash) (size : Nat)
    (final : List Block) (s : Store) (e : SyncError) (st : FileSync) : Prop :=
  ∃ front last t, front ++ [last] <+: final.toChunks size ∧ Handed C handler s front t ∧
    handler.connectBatch C last t = (.error e, st.store) ∧
    missing = st.missingBlocks ++ (hashesOf C (front ++ [last]).flatten).reverse

theorem noneRejected_handed {rest : List (List Block)} {t : Store} (h : Handed C handler s batches t) :
    noneRejected C handler (batches ++ rest) s = noneRejected C handler rest t := by
  induction h generalizing rest with
  | start => rfl
  | batch _ run ih =>
      rw [List.append_assoc, ih, List.singleton_append, noneRejected, run]

theorem not_rejected {chunks : List (List Block)} {batch : List Block} {t u : Store}
    {rejected : BlockHash × ConnectBlockError} (hnone : noneRejected C handler chunks s)
    (h : Handed C handler s batches t) (hnext : batches ++ [batch] <+: chunks) :
    handler.connectBatch C batch t ≠ (.ok (some rejected), u) := by
  intro hrun
  obtain ⟨more, rfl⟩ := hnext
  rw [List.append_assoc, noneRejected_handed h, List.singleton_append, noneRejected, hrun] at hnone
  cases hnone

theorem connectPendingBlocks_handed (hnone : noneRejected C handler (final.toChunks size) s)
    (h : Handed C handler s batches st.store)
    (hnext : batches ++ [st.pendingBlocks] <+: final.toChunks size) :
    wp (handler.connectPendingBlocks C)
      (fun all st' => all = true ∧ Handed C handler s (batches ++ [st.pendingBlocks]) st'.store ∧
        ∃ total, st' = { st with store := st'.store, totalHandledBlocks := total, pendingBlocks := [] })
      (fun e st' => handler.connectBatch C st.pendingBlocks st.store = (.error e, st'.store) ∧
        st'.missingBlocks = st.missingBlocks) st := by
  unfold BlockHandler.connectPendingBlocks
  rw [Program.wp_bind, Program.wp_get, Program.wp_bind, wp_liftDb]
  refine (Program.wp_self _ _).mono ?_ fun e t hrun => ⟨hrun, rfl⟩
  intro outcome t hrun
  cases outcome with
  | none => exact ⟨rfl, .batch h hrun, _, rfl⟩
  | some rejected => exact absurd hrun (not_rejected hnone h hnext)

/-! ## The sync does as the order says -/

/-- The sync between two blocks: it has handed over all that is taken but the pending blocks. -/
structure Follows (C : Crypto) (handler : BlockHandler) (size : Nat) (s : Store)
    (batches : List (List Block)) (a : Taking) (st : FileSync) : Prop where
  missing : st.missingBlocks = a.missing
  cache : st.blockCache = a.cache
  found : st.hasFoundStart = a.hasFoundStart
  iterations : st.iterationsWithoutMatch = a.iterationsWithoutMatch
  handed : Handed C handler s batches st.store
  chunks : a.taken.toChunks size = batches ++ st.pendingBlocks.toChunks size
  full : a.missing ≠ [] → ∀ batch ∈ batches, batch.length = size
  short : st.pendingBlocks.length < size
  flushed : a.missing = [] → st.pendingBlocks = []

/-- The sync after it has taken an expected block. -/
structure Pushed (C : Crypto) (handler : BlockHandler) (size : Nat) (s : Store)
    (batches : List (List Block)) (a : Taking) (st : FileSync) : Prop where
  missing : st.missingBlocks = a.missing
  cache : st.blockCache = a.cache
  found : st.hasFoundStart = a.hasFoundStart
  iterations : st.iterationsWithoutMatch = a.iterationsWithoutMatch
  handed : Handed C handler s batches st.store
  taken : a.taken = batches.flatten ++ st.pendingBlocks
  full : ∀ batch ∈ batches, batch.length = size
  pending : st.pendingBlocks ≠ []
  fits : st.pendingBlocks.length ≤ size

/-- The sync at its end. -/
structure Done (C : Crypto) (handler : BlockHandler) (size : Nat) (s : Store) (a : Taking)
    (st : FileSync) : Prop where
  missing : st.missingBlocks = a.missing
  cache : st.blockCache = a.cache
  handed : Handed C handler s (a.taken.toChunks size) st.store
  pending : st.pendingBlocks = []

theorem Follows.taken (h : Follows C handler size s batches a st) :
    a.taken = batches.flatten ++ st.pendingBlocks := by
  rw [← Chunks.flatten_toChunks size a.taken, h.chunks, List.flatten_append, Chunks.flatten_toChunks]

theorem Follows.push {cache cache' : BlockCache} (h : Follows C handler size s batches a st)
    (hne : a.missing ≠ []) (block : Block) (hcache : cache' = cache) :
    Pushed C handler size s batches ({ a with cache := cache }.take block)
      { st with
        blockCache := cache'
        pendingBlocks := st.pendingBlocks ++ [block]
        missingBlocks := st.missingBlocks.dropLast } where
  missing := congrArg List.dropLast h.missing
  cache := hcache
  found := h.found
  iterations := h.iterations
  handed := h.handed
  taken := by
    change a.taken ++ [block] = _
    rw [h.taken, List.append_assoc]
  full := h.full hne
  pending := by simp
  fits := by
    have hshort := h.short
    simp only [List.length_append, List.length_singleton]
    omega

/-- Where handing over the pending blocks fails, all that is taken was handed over. -/
theorem fails_of_error {e : SyncError} {st' : FileSync} {t : Store} (hord : Ordered C missing delivered a)
    (hmissing : st'.missingBlocks = a.missing) (htaken : a.taken = batches.flatten ++ st.pendingBlocks)
    (hhanded : Handed C handler s batches t) (hnext : batches ++ [st.pendingBlocks] <+: final.toChunks size)
    (hrun : handler.connectBatch C st.pendingBlocks t = (.error e, st'.store)) :
    Fails C handler missing size final s e st' := by
  refine ⟨batches, st.pendingBlocks, t, hnext, hhanded, hrun, ?_⟩
  rw [hmissing, List.flatten_concat, ← htaken]
  exact hord.split

theorem connectFullBatch_follows (hnone : noneRejected C handler (final.toChunks config.batchSize) s)
    (hord : Ordered C missing delivered a) (hleads : a.Leads final)
    (h : Pushed C handler config.batchSize s batches a st) :
    wp (handler.connectFullBatch C config)
      (fun all st' => all = true ∧ ∃ batches', Follows C handler config.batchSize s batches' a st')
      (Fails C handler missing config.batchSize final s) st := by
  have hpos := config.batchSize_pos
  have hlength := List.length_pos_iff.mpr h.pending
  have hchunk := Chunks.toChunks_of_length_le h.pending h.fits
  have hchunks : a.taken.toChunks config.batchSize =
      batches ++ st.pendingBlocks.toChunks config.batchSize := by
    rw [h.taken, Chunks.toChunks_flatten_append hpos h.full]
  unfold BlockHandler.connectFullBatch
  rw [Program.wp_bind, Program.wp_get]
  refine Program.wp_ite.mpr ⟨fun hfull => ?_, fun hfull => ?_⟩
  · have hsize : config.batchSize = max 1 config.blocksDirConnectBatchSize := rfl
    have hcases : st.pendingBlocks.length = config.batchSize ∨ a.missing = [] := by
      rcases hfull with hle | hempty
      · have hfits := h.fits
        exact .inl (by omega)
      · exact .inr (h.missing.symm.trans (List.isEmpty_iff.mp hempty))
    have hnext : batches ++ [st.pendingBlocks] <+: final.toChunks config.batchSize := by
      rcases hcases with hfull | hempty
      · obtain ⟨more, rfl⟩ := hleads.more
        have hall : ∀ batch ∈ batches ++ [st.pendingBlocks], batch.length = config.batchSize := by
          intro batch hbatch
          rcases List.mem_append.mp hbatch with hbatch | hbatch
          · exact h.full batch hbatch
          · rw [List.mem_singleton.mp hbatch, hfull]
        rw [h.taken, ← List.flatten_concat, Chunks.toChunks_flatten_append hpos hall]
        exact List.prefix_append _ _
      · rw [hleads.complete hempty, hchunks, hchunk]
    refine (connectPendingBlocks_handed hnone h.handed hnext).mono ?_ ?_
    · rintro all st' ⟨rfl, hhanded, total, heq⟩
      rw [heq]
      refine ⟨rfl, batches ++ [st.pendingBlocks], h.missing, h.cache, h.found, h.iterations, hhanded, ?_, ?_,
        hpos, fun _ => rfl⟩
      · rw [hchunks, hchunk]
        exact (List.append_nil _).symm
      · intro hne batch hbatch
        rcases List.mem_append.mp hbatch with hbatch | hbatch
        · exact h.full batch hbatch
        · rw [List.mem_singleton.mp hbatch]
          exact hcases.resolve_right hne
    · rintro e st' ⟨hrun, hmissing⟩
      exact fails_of_error hord (hmissing.trans h.missing) h.taken h.handed hnext hrun
  · obtain ⟨hlt, hne⟩ := not_or.mp hfull
    refine ⟨rfl, batches, h.missing, h.cache, h.found, h.iterations, h.handed, hchunks, fun _ => h.full, ?_,
      fun hnil => ?_⟩
    · have hsize : config.batchSize = max 1 config.blocksDirConnectBatchSize := rfl
      omega
    · rw [h.missing, hnil] at hne
      exact absurd rfl hne

theorem processCachedBlocks_follows {n : Nat}
    (hnone : noneRejected C handler (final.toChunks config.batchSize) s)
    (hord : Ordered C missing delivered a) (hleads : (a.takeCached n).Leads final)
    (h : Follows C handler config.batchSize s batches a st) :
    wp (handler.processCachedBlocks C config n)
      (fun all st' => all = true ∧
        ∃ batches', Follows C handler config.batchSize s batches' (a.takeCached n) st')
      (Fails C handler missing config.batchSize final s) st := by
  induction n generalizing a st batches with
  | zero => exact ⟨rfl, batches, h⟩
  | succ n ih =>
      unfold BlockHandler.processCachedBlocks
      rw [Program.wp_bind, Program.wp_get, h.missing, h.cache]
      rw [Taking.takeCached] at hleads ⊢
      cases hfound : a.missing.getLast?.bind a.cache.remove with
      | none =>
          rw [hfound] at hleads
          exact ⟨rfl, batches, h⟩
      | some found =>
          obtain ⟨cached, cache⟩ := found
          rw [hfound] at hleads
          obtain ⟨hash, hlast, -⟩ := Option.bind_eq_some_iff.mp hfound
          have hne := List.ne_nil_of_mem (List.mem_of_getLast? hlast)
          have htaken := hord.takeOne hfound
          rw [Program.wp_bind, Program.wp_modify, Program.wp_bind, BlockHandler.pushPending,
            Program.wp_modify, Program.wp_bind]
          refine (connectFullBatch_follows hnone htaken hleads.of_takeCached (h.push hne cached rfl)).mono ?_
            fun _ _ hfails => hfails
          rintro all st' ⟨rfl, batches', h'⟩
          exact ih htaken hleads h'

/-- Where nothing is pending, all that is taken is connected. -/
theorem Follows.done (h : Follows C handler size s batches a st) (hnil : st.pendingBlocks = []) :
    Done C handler size s a st where
  missing := h.missing
  cache := h.cache
  handed := by
    have hchunks : a.taken.toChunks size = batches ++ [].toChunks size := hnil ▸ h.chunks
    rw [hchunks]
    exact (List.append_nil batches).symm ▸ h.handed
  pending := hnil

/-- All that is pending is connected at the end. -/
theorem flushPending_done (hnone : noneRejected C handler (a.taken.toChunks size) s)
    (hord : Ordered C missing delivered a) (h : Follows C handler size s batches a st) :
    wp (handler.flushPending C) (fun _ => Done C handler size s a)
      (Fails C handler missing size a.taken s) st := by
  unfold BlockHandler.flushPending
  rw [Program.wp_bind, Program.wp_get]
  refine Program.wp_ite.mpr ⟨fun hempty => h.done (List.isEmpty_iff.mp hempty), fun hpending => ?_⟩
  have hne : st.pendingBlocks ≠ [] := fun hnil => hpending (List.isEmpty_iff.mpr hnil)
  have hchunks := h.chunks
  rw [Chunks.toChunks_of_length_le hne (Nat.le_of_lt h.short)] at hchunks
  have hnext : batches ++ [st.pendingBlocks] <+: a.taken.toChunks size := by rw [hchunks]
  rw [Program.wp_bind]
  refine (connectPendingBlocks_handed hnone h.handed hnext).mono ?_ ?_
  · rintro all st' ⟨-, hhanded, total, heq⟩
    rw [← hchunks] at hhanded
    rw [heq]
    exact ⟨h.missing, h.cache, hhanded, rfl⟩
  · rintro e st' ⟨hrun, hmissing⟩
    exact fails_of_error hord (hmissing.trans h.missing) h.taken h.handed hnext hrun

theorem Done.flush {post : Unit → FileSync → Prop} {failed : SyncError → FileSync → Prop}
    (h : Done C handler size s a st) (hpost : post () st) :
    wp (handler.flushPending C) post failed st := by
  unfold BlockHandler.flushPending
  rw [Program.wp_bind, Program.wp_get, h.pending]
  exact hpost

/-! ## One block of the files -/

/-- Keeping a block changes nothing of what is handed over. -/
theorem Follows.keep (h : Follows C handler size s batches a st) (block : Block) :
    Follows C handler size s batches (a.keep C block)
      { st with blockCache := st.blockCache.insert (C.blockHash block.header) block } where
  missing := h.missing
  cache := congrArg (BlockCache.insert · (C.blockHash block.header) block) h.cache
  found := h.found
  iterations := h.iterations
  handed := h.handed
  chunks := h.chunks
  full := h.full
  short := h.short
  flushed := h.flushed

/-- Nor do the variables that say how far the search is. -/
theorem Follows.search (h : Follows C handler size s batches a st) {iterations iterations' : Nat}
    (hiterations : iterations = iterations') :
    Follows C handler size s batches
      { a with hasFoundStart := true, iterationsWithoutMatch := iterations' }
      { st with hasFoundStart := true, iterationsWithoutMatch := iterations } :=
  ⟨h.missing, h.cache, rfl, hiterations, h.handed, h.chunks, h.full, h.short, h.flushed⟩

theorem handleFileBlock_follows (hnone : noneRejected C handler (final.toChunks config.batchSize) s)
    (hwaiting : Waiting C missing first delivered a) (hblock : block ∈ delivered)
    {result : Bool × Taking} (hread : a.read C config.maxIterationsWithoutMatch first block = result)
    (hleads : result.2.Leads final) (hends : result.1 = false → final = result.2.taken)
    (h : Follows C handler config.batchSize s batches a st) :
    wp (handler.handleFileBlock C config first (fileBlock block))
      (fun all st' => all = result.1 ∧
        if all then ∃ batches', Follows C handler config.batchSize s batches' result.2 st'
        else Done C handler config.batchSize s result.2 st')
      (Fails C handler missing config.batchSize final s) st := by
  have hearly : (!st.hasFoundStart && decide (C.blockHash (fileBlock block).header ≠ first)) = true ↔
      a.hasFoundStart = false ∧ C.blockHash block.header ≠ first := by
    rw [h.found, Bool.and_eq_true, Bool.not_eq_true', decide_eq_true_iff]
    rfl
  unfold BlockHandler.handleFileBlock
  unfold Taking.read at hread
  rw [Program.wp_bind, Program.wp_get]
  refine Program.wp_ite.mpr ⟨fun hstart => ?_, fun hstart => ?_⟩
  · rw [if_pos (hearly.mp hstart)] at hread
    subst hread
    exact ⟨rfl, batches, h.keep block⟩
  · rw [if_neg fun hnot => hstart (hearly.mpr hnot)] at hread
    rw [Program.wp_bind, Program.wp_modify]
    cases hlast : st.missingBlocks.getLast? with
    | none =>
        rw [h.missing] at hlast
        simp only [hlast] at hread
        subst hread
        exact ⟨rfl, (h.search h.iterations).done (h.flushed (List.getLast?_eq_none_iff.mp hlast))⟩
    | some expected =>
        rw [h.missing] at hlast
        simp only [hlast] at hread
        refine Program.wp_ite.mpr ⟨fun heq => ?_, fun hother => ?_⟩
        · have hpos : C.blockHash block.header = expected := heq
          rw [if_pos hpos] at hread
          subst hread
          have hne := List.ne_nil_of_mem (List.mem_of_getLast? hlast)
          have hreset : Ordered C missing delivered
              { a with hasFoundStart := true, iterationsWithoutMatch := 0 } :=
            ⟨hwaiting.split, hwaiting.taken, hwaiting.cache⟩
          have htaken := hreset.take (hlast.trans (congrArg some hpos.symm)) hblock
          rw [Program.wp_bind, Program.wp_modify, Program.wp_bind, Program.wp_ofExcept]
          refine ⟨fun txData htxData => ?_, fun e herror => by cases herror⟩
          cases htxData
          rw [Program.wp_bind, BlockHandler.pushPending, Program.wp_modify, Program.wp_bind]
          have hpushed := (h.search (Eq.refl 0)).push hne block h.cache
          refine (connectFullBatch_follows hnone htaken hleads.of_takeCached hpushed).mono ?_
            fun _ _ hfails => hfails
          rintro all st' ⟨rfl, batches', h'⟩
          rw [if_pos rfl, Program.wp_bind, Program.wp_get, h'.missing]
          refine (processCachedBlocks_follows hnone htaken hleads h').mono ?_ fun _ _ hfails => hfails
          rintro all st'' ⟨rfl, hfollows⟩
          exact ⟨rfl, hfollows⟩
        · have hneg : ¬ C.blockHash block.header = expected := hother
          rw [if_neg hneg] at hread
          subst hread
          have hkept := ((h.search h.iterations).keep block).search
            (congrArg (· + 1) h.iterations : st.iterationsWithoutMatch + 1 = a.iterationsWithoutMatch + 1)
          rw [Program.wp_bind]
          unfold BlockHandler.cacheBlock
          rw [Program.wp_bind, Program.wp_ofExcept]
          refine ⟨fun txData htxData => ?_, fun e herror => by cases herror⟩
          cases htxData
          rw [Program.wp_modify, Program.wp_bind, Program.wp_modify, Program.wp_bind, Program.wp_get]
          have hiterations : st.iterationsWithoutMatch = a.iterationsWithoutMatch := h.iterations
          refine Program.wp_ite.mpr ⟨fun hmax => ?_, fun hmax => ?_⟩
          · have hstops : decide (a.iterationsWithoutMatch + 1 < config.maxIterationsWithoutMatch) = false :=
              decide_eq_false (Nat.not_lt.mpr (hiterations ▸ hmax))
            have hordered := hwaiting.toOrdered.keep hblock
            obtain rfl := hends hstops
            rw [Program.wp_bind]
            refine (flushPending_done hnone ⟨hordered.split, hordered.taken, hordered.cache⟩ hkept).mono ?_
              fun _ _ hfails => hfails
            intro _ st' hdone
            exact ⟨hstops.symm, hdone⟩
          · have hgoes : decide (a.iterationsWithoutMatch + 1 < config.maxIterationsWithoutMatch) = true :=
              decide_eq_true (hiterations ▸ Nat.lt_of_not_le hmax)
            exact ⟨hgoes.symm, batches, hkept⟩

/-- A block that is not readable is an error, unless nothing is missing. -/
theorem handleFileBlock_unreadable {header : Header} {e : SyncError}
    (h : Follows C handler size s batches a st) :
    wp (handler.handleFileBlock C config first ⟨header, .error e⟩)
      (fun all st' => all = false ∧ Done C handler size s a st') (fun e' _ => e' = e) st := by
  unfold BlockHandler.handleFileBlock BlockHandler.cacheBlock
  rw [Program.wp_bind, Program.wp_get]
  refine Program.wp_ite.mpr ⟨fun _ => rfl, fun _ => ?_⟩
  rw [Program.wp_bind, Program.wp_modify]
  cases hlast : st.missingBlocks.getLast? with
  | none =>
      rw [h.missing] at hlast
      have hdone := h.done (h.flushed (List.getLast?_eq_none_iff.mp hlast))
      exact ⟨rfl, hdone.missing, hdone.cache, hdone.handed, hdone.pending⟩
  | some expected => exact Program.wp_ite.mpr ⟨fun _ => rfl, fun _ => rfl⟩

/-! ## The files as a whole -/

theorem Taking.readAll_cancelled {n : Nat} (h : n % 100 = 0 ∧ dir.cancelled n) (blocks : List Block) :
    a.readAll C dir first n blocks = a := by
  cases blocks with
  | nil => rfl
  | cons block blocks => exact if_pos h

theorem ParseError.tail {item : Except SyncError FileBlock} {items : List (Except SyncError FileBlock)}
    {e : SyncError} (h : ParseError items e) : ParseError (item :: items) e := by
  rcases h with hitem | ⟨header, hitem⟩
  · exact .inl (List.mem_cons_of_mem _ hitem)
  · exact .inr ⟨header, List.mem_cons_of_mem _ hitem⟩

/-- What is pending is connected before the sync is shut down. -/
theorem shutdown_done {post : Unit → FileSync → Prop}
    (hnone : noneRejected C handler (a.taken.toChunks size) s) (hord : Ordered C missing delivered a)
    (h : Follows C handler size s batches a st) :
    wp (handler.flushPending C >>= fun _ => (Program.fail .shutdown : FileM Unit)) post
      (fun e st' => (e = .shutdown ∧ Done C handler size s a st') ∨
        Fails C handler missing size a.taken s e st') st := by
  rw [Program.wp_bind]
  refine (flushPending_done hnone hord h).mono ?_ fun _ _ hfails => .inr hfails
  intro _ st' hdone
  exact .inl ⟨rfl, hdone⟩

theorem fileLoop_done {n : Nat} {items : List (Except SyncError FileBlock)}
    (hwaiting : Waiting C missing first delivered a)
    (hblocks : ∀ block ∈ readBlocks items, block ∈ delivered)
    (hlast : a.readAll C dir first n (readBlocks items) = last)
    (hnone : noneRejected C handler (last.taken.toChunks dir.config.batchSize) s)
    (h : Follows C handler dir.config.batchSize s batches a st) :
    wp (handler.fileLoop C dir first n items)
      (fun _ => wp (handler.flushPending C) (fun _ => Done C handler dir.config.batchSize s last)
        (Fails C handler missing dir.config.batchSize last.taken s))
      (fun e st' => ((e = .shutdown ∧ Done C handler dir.config.batchSize s last st') ∨
        Fails C handler missing dir.config.batchSize last.taken s e st') ∨ ParseError items e) st := by
  induction items generalizing n a st batches with
  | nil =>
      obtain rfl : a = last := hlast
      unfold BlockHandler.fileLoop
      refine Program.wp_ite.mpr ⟨fun _ => ?_, fun _ => flushPending_done hnone hwaiting.toOrdered h⟩
      exact (shutdown_done hnone hwaiting.toOrdered h).mono (fun _ _ hpost => hpost)
          fun _ _ hends => .inl hends
  | cons item items ih =>
      unfold BlockHandler.fileLoop
      refine Program.wp_ite.mpr ⟨fun hstop => ?_, fun hgoing => ?_⟩
      · rw [Taking.readAll_cancelled hstop] at hlast
        subst hlast
        exact (shutdown_done hnone hwaiting.toOrdered h).mono (fun _ _ hpost => hpost)
          fun _ _ hends => .inl hends
      · rw [Program.wp_bind, Program.wp_ofExcept]
        refine ⟨fun block hitem => ?_, fun e hitem => .inr (.inl (hitem ▸ List.mem_cons_self))⟩
        subst hitem
        obtain ⟨header, txData⟩ := block
        rw [Program.wp_bind]
        cases txData with
        | error e =>
            obtain rfl : a = last := hlast
            refine (handleFileBlock_unreadable h).mono ?_ ?_
            · rintro all st' ⟨rfl, hdone⟩
              exact hdone.flush hdone
            · rintro e' st' rfl
              exact .inr (.inr ⟨header, List.mem_cons_self⟩)
        | ok txdata =>
            have hblock := hblocks ⟨header, txdata⟩ List.mem_cons_self
            have hrest : ∀ block ∈ readBlocks items, block ∈ delivered := fun other hother =>
              hblocks other (List.mem_cons_of_mem _ hother)
            have hreads := hwaiting.reads hblock
              (@Taking.read_reads C first ⟨header, txdata⟩ a dir.config.maxIterationsWithoutMatch)
            rw [readBlocks, Taking.readAll, if_neg hgoing] at hlast
            cases hread : a.read C dir.config.maxIterationsWithoutMatch first ⟨header, txdata⟩ with
            | mk all next =>
                rw [hread] at hreads hlast
                have hleads : next.Leads last.taken ∧ (all = false → last.taken = next.taken) := by
                  cases all with
                  | true => exact ⟨hlast ▸ Taking.leads_readAll, fun hfalse => by cases hfalse⟩
                  | false => exact ⟨hlast ▸ .refl next, fun _ => hlast ▸ rfl⟩
                refine (handleFileBlock_follows hnone hwaiting hblock hread hleads.1 hleads.2 h).mono ?_
                  fun e st' hfails => .inl (.inr hfails)
                rintro all' st' ⟨rfl, hends⟩
                cases all' with
                | true =>
                    obtain ⟨batches', h'⟩ := hends
                    refine (ih hreads hrest hlast h').mono (fun _ _ hpost => hpost) ?_
                    rintro e st'' (hends | hparse)
                    · exact .inl hends
                    · exact .inr hparse.tail
                | false =>
                    obtain rfl : next = last := hlast
                    exact hends.flush hends

/-! ## A file sync as a whole -/

variable {dir' : BlocksDir} {items : List (Except SyncError FileBlock)} {taken : List Block}
  {outcome outcome' : Except SyncError Nat} {st' : FileSync} {batches' : List (List Block)}

/-- A file sync of `missing` without a parse error and without a rejected block. -/
structure CleanSync (C : Crypto) (handler : BlockHandler) (dir : BlocksDir) (missing : List BlockHash)
    (first : BlockHash) (items : List (Except SyncError FileBlock)) (s : Store)
    (outcome : Except SyncError Nat) (st : FileSync) : Prop where
  parse : dir.parse first = .ok items
  run : handler.syncFromDirectory C dir (BlockHandler.startFileSync dir missing s) = (outcome, st)
  parsed : ∀ e, outcome = .error e → ¬ ParseError items e
  accepted : noneRejected C handler
    ((takenBlocks C dir missing first (readBlocks items)).toChunks dir.config.batchSize) s.next

/-- How a file sync ends that has handed over these batches. -/
inductive SyncEnds (C : Crypto) (handler : BlockHandler) (taken : List Block) (size : Nat) (s : Store) :
    List (List Block) → Except SyncError Nat → FileSync → Prop where
  /-- By itself or on shutdown, with all batches connected. -/
  | stops {outcome : Except SyncError Nat} {st : FileSync}
      (unfailed : ∀ e, outcome = .error e → e = .shutdown)
      (connected : Handed C handler s.next (taken.toChunks size) st.store)
      (next : ∀ needed, st.missingBlocks.getLast? = some needed →
        st.blockCache.blocks.lookup needed = none) :
      SyncEnds C handler taken size s (taken.toChunks size) outcome st
  /-- With a failure of the databases, all batches but the last one connected. -/
  | fails {front : List (List Block)} {batch : List Block} {t : Store} {e : SyncError} {st : FileSync}
      (connected : Handed C handler s.next front t)
      (run : handler.connectBatch C batch t = (.error e, st.store)) :
      SyncEnds C handler taken size s (front ++ [batch]) (.error e) st
  /-- With a failure of the databases before the first block is read. -/
  | unread {hash : BlockHash} {e : SyncError} {st : FileSync}
      (run : (get Dbs.height hash : Db SyncError Nat) s = (.error e, st.store)) :
      SyncEnds C handler taken size s [] (.error e) st

/-- The first of the missing blocks were handed over to connection in the order of the chain, each of
them once, and the others are missing still. -/
structure HandedInOrder (C : Crypto) (handler : BlockHandler) (missing : List BlockHash)
    (delivered taken : List Block) (size : Nat) (s : Store) (batches : List (List Block))
    (outcome : Except SyncError Nat) (st : FileSync) : Prop where
  split : missing.reverse = hashesOf C batches.flatten ++ st.missingBlocks.reverse
  once : missing.Nodup → (hashesOf C batches.flatten).Nodup
  delivered : ∀ block ∈ batches.flatten, block ∈ delivered
  chunks : batches <+: taken.toChunks size
  ends : SyncEnds C handler taken size s batches outcome st

theorem connectBatch_unshut {blocks : List Block} {e : SyncError} {t : Store}
    (h : handler.connectBatch C blocks s = (.error e, t)) : e ≠ .shutdown := by
  have hbatch : ∀ (blocks : List Block) (s : Store),
      wp (handler.handleBlockBatch C blocks) (fun _ _ => True) (fun e _ => e ≠ SyncError.shutdown) s := by
    intro blocks
    induction blocks with
    | nil => exact fun _ => trivial
    | cons block blocks ih =>
        intro s
        unfold BlockHandler.handleBlockBatch
        rw [Program.wp_bind, Program.wp_attempt]
        refine (Program.wp_self _ _).mono ?_ ?_
        · intro event t _
          rw [Program.wp_bind, broadcast, Program.wp_modify]
          exact ih _
        · intro err t _
          exact Program.wp_ite.mpr ⟨fun _ => (by rintro ⟨⟩), fun _ => trivial⟩
  have hwp : wp (handler.connectBatch C blocks) (fun _ _ => True) (fun e _ => e ≠ .shutdown) s := by
    refine wp_transaction (fun _ heq => by cases heq) ?_
    rw [Program.wp_bind]
    refine (hbatch blocks _).mono ?_ fun _ _ hne => hne
    intro outcome t _
    rw [Program.wp_bind, commit, wp_access]
    exact ⟨fun _ => (by rintro ⟨⟩), fun _ => trivial⟩
  exact hwp.error h

/-- Before the first block is read. -/
theorem start_waiting (hfirst : missing.getLast? = some first) :
    Waiting C missing first delivered (.start dir missing) where
  split := (List.append_nil missing).symm
  taken _ hblock := by cases hblock
  cache _ _ hfound := by cases hfound
  awaits _ _ := rfl
  unfound _ := hfirst

theorem start_follows :
    Follows C handler dir.config.batchSize s [] (.start dir missing)
      (BlockHandler.startFileSync dir missing s) where
  missing := rfl
  cache := rfl
  found := rfl
  iterations := rfl
  handed := .start
  chunks := rfl
  full _ _ hbatch := by cases hbatch
  short := dir.config.batchSize_pos
  flushed _ := rfl

theorem syncFromDirectory_done (hfirst : missing.getLast? = some first)
    (hparse : dir.parse first = .ok items)
    (hlast : Taking.readAll C dir first 0 (readBlocks items) (.start dir missing) = last)
    (hnone : noneRejected C handler (last.taken.toChunks dir.config.batchSize) s.next) :
    wp (handler.syncFromDirectory C dir)
      (fun _ => Done C handler dir.config.batchSize s.next last)
      (fun e st => (((e = .shutdown ∧ Done C handler dir.config.batchSize s.next last st) ∨
        Fails C handler missing dir.config.batchSize last.taken s.next e st) ∨ ParseError items e) ∨
        st.missingBlocks = missing ∧ ∃ hash,
          (get Dbs.height hash : Db SyncError Nat) s = (.error e, st.store))
      (BlockHandler.startFileSync dir missing s) := by
  unfold BlockHandler.syncFromDirectory
  rw [Program.wp_bind, Program.wp_get]
  cases hfound : (BlockHandler.startFileSync dir missing s).missingBlocks.getLast? with
  | none => cases hfirst.symm.trans hfound
  | some found =>
      obtain rfl : first = found := Option.some.inj (hfirst.symm.trans hfound)
      simp only [Program.wp_bind, hparse, Program.wp_ofExcept, wp_liftDb]
      refine ⟨fun items' hitems => ?_, fun e herror => by cases herror⟩
      obtain rfl : items = items' := Except.ok.inj hitems
      have hread : wp (get Dbs.height (missing.head?.getD first) : Db SyncError Nat) (fun _ t => t = s.next)
          (fun _ _ => True) s := get_wp (fun _ => rfl) fun _ => trivial
      refine (hread.and (Program.wp_self _ _)).mono ?_ ?_
      · rintro height t ⟨rfl, -⟩
        refine (fileLoop_done (start_waiting hfirst) (fun _ hblock => hblock) hlast hnone start_follows).mono
          ?_ fun _ _ hends => .inl hends
        intro _ st' hflush
        rw [Program.wp_bind]
        exact hflush.mono (fun _ _ hdone => hdone) fun _ _ hfails => .inl (.inl (.inr hfails))
      · rintro e t ⟨-, hrun⟩
        exact .inr ⟨rfl, _, hrun⟩

theorem handedInOrder_of_split
    (hsplit : missing = st.missingBlocks ++ (hashesOf C batches.flatten).reverse)
    (htaken : ∀ block ∈ taken, block ∈ delivered) (hchunks : batches <+: taken.toChunks size)
    (hends : SyncEnds C handler taken size s batches outcome st) :
    HandedInOrder C handler missing delivered taken size s batches outcome st where
  split := by rw [hsplit, List.reverse_append, List.reverse_reverse]
  once hnodup := by
    rw [hsplit] at hnodup
    exact List.nodup_reverse.mp hnodup.of_append_right
  delivered block hblock := by
    obtain ⟨rest, hrest⟩ := hchunks
    have hall := Chunks.flatten_toChunks size taken
    rw [← hrest, List.flatten_append] at hall
    exact htaken block (hall ▸ List.mem_append_left _ hblock)
  chunks := hchunks
  ends := hends

theorem CleanSync.handedInOrder (hfirst : missing.getLast? = some first)
    (h : CleanSync C handler dir missing first items s outcome st) :
    ∃ batches, HandedInOrder C handler missing (readBlocks items)
      (takenBlocks C dir missing first (readBlocks items)) dir.config.batchSize s batches outcome st := by
  have hwaiting : Waiting C missing first (readBlocks items)
      (Taking.readAll C dir first 0 (readBlocks items) (.start dir missing)) :=
    (start_waiting hfirst).readAll fun _ hblock => hblock
  have hdone : Done C handler dir.config.batchSize s.next
      (Taking.readAll C dir first 0 (readBlocks items) (.start dir missing)) st →
      (∀ e, outcome = .error e → e = .shutdown) →
      HandedInOrder C handler missing (readBlocks items)
        (takenBlocks C dir missing first (readBlocks items)) dir.config.batchSize s
        ((takenBlocks C dir missing first (readBlocks items)).toChunks dir.config.batchSize) outcome st := by
    intro hdone hunfailed
    refine handedInOrder_of_split ?_ hwaiting.taken (List.prefix_refl _)
      (.stops hunfailed hdone.handed fun needed hneeded => ?_)
    · rw [Chunks.flatten_toChunks, hdone.missing]
      exact hwaiting.split
    · rw [hdone.missing] at hneeded
      rw [hdone.cache]
      exact hwaiting.awaits needed hneeded
  have hwp := syncFromDirectory_done hfirst h.parse rfl h.accepted
  cases outcome with
  | ok handled => exact ⟨_, hdone (hwp.ok h.run) fun e herror => by cases herror⟩
  | error e =>
      rcases hwp.error h.run with ((⟨rfl, hshut⟩ | hfails) | hparse) | ⟨hmissing, hash, hrun⟩
      · exact ⟨_, hdone hshut fun e herror => (Except.error.inj herror).symm⟩
      · obtain ⟨front, batch, t, hchunks, hconnected, hbatch, hsplit⟩ := hfails
        exact ⟨_, handedInOrder_of_split hsplit hwaiting.taken hchunks (.fails hconnected hbatch)⟩
      · exact absurd hparse (h.parsed e rfl)
      · refine ⟨[], handedInOrder_of_split ?_ hwaiting.taken List.nil_prefix (.unread hrun)⟩
        rw [hmissing]
        exact (List.append_nil missing).symm

theorem SyncEnds.complete (h : SyncEnds C handler taken size s batches outcome st)
    (hunfailed : ∀ e, outcome = .error e → e = .shutdown) : batches.flatten = taken := by
  cases h with
  | stops => exact Chunks.flatten_toChunks size taken
  | fails _ run => exact absurd (hunfailed _ rfl) (connectBatch_unshut run)
  | @unread hash _ _ run =>
      have hread : wp (get Dbs.height hash : Db SyncError Nat) (fun _ _ => True)
          (fun e _ => e ≠ SyncError.shutdown) s := by
        unfold get tryGet require
        rw [Program.wp_bind, wp_read]
        refine ⟨fun _ => (by rintro ⟨⟩), fun _ => ?_⟩
        cases s.dbs.height.lookup hash with
        | none => exact (by rintro ⟨⟩)
        | some height => trivial
      exact absurd (hunfailed _ rfl) (hread.error run)

/-- Without a parse error and a rejection, a file sync hands over the blocks that it takes, which are
missing blocks in the order of the chain, whatever their order in the files is; which ones does not
depend on the size of a cache with room for all that is kept, nor on the size of the batches. -/
theorem syncFromDirectory_inOrder (hfirst : missing.getLast? = some first)
    (h : CleanSync C handler dir missing first items s outcome st) :
    ∃ batches,
      HandedInOrder C handler missing (readBlocks items)
        (takenBlocks C dir missing first (readBlocks items)) dir.config.batchSize s batches outcome st ∧
      ∀ dir' outcome' st', CleanSync C handler dir' missing first items s outcome' st' →
        dir'.cancelled = dir.cancelled →
        dir'.config.maxIterationsWithoutMatch = dir.config.maxIterationsWithoutMatch →
        dir.config.maxBlockCacheSize ≤ dir'.config.maxBlockCacheSize →
        (Taking.start dir missing).Roomy C dir first 0 (readBlocks items) →
        ∃ batches',
          HandedInOrder C handler missing (readBlocks items)
            (takenBlocks C dir missing first (readBlocks items)) dir'.config.batchSize s batches'
            outcome' st' ∧
          ((∀ e, outcome = .error e → e = .shutdown) → (∀ e, outcome' = .error e → e = .shutdown) →
            batches'.flatten = batches.flatten ∧ st'.missingBlocks = st.missingBlocks) := by
  obtain ⟨batches, hbatches⟩ := h.handedInOrder hfirst
  refine ⟨batches, hbatches, fun dir' outcome' st' h' hcancelled hmax hsize hroomy => ?_⟩
  obtain ⟨batches', hbatches'⟩ := h'.handedInOrder hfirst
  rw [takenBlocks_enlarged hcancelled hmax hsize hroomy] at hbatches'
  refine ⟨batches', hbatches', fun hunfailed hunfailed' => ?_⟩
  have hsame : batches'.flatten = batches.flatten :=
    (hbatches'.ends.complete hunfailed').trans (hbatches.ends.complete hunfailed).symm
  refine ⟨hsame, ?_⟩
  have hsplit := hbatches.split.symm.trans hbatches'.split
  rw [hsame] at hsplit
  exact (List.reverse_injective (List.append_cancel_left hsplit)).symm

/-! The files hold both blocks in the wrong order. -/

def reversedItems : List (Except SyncError FileBlock) := [.ok (fileBlock child), .ok (fileBlock genesis)]

def reversedDir : BlocksDir := sampleDir reversedItems

/-- The same files, a larger cache and batches of one block. -/
def singlyDir : BlocksDir := { reversedDir with config := ⟨6000, by decide, 5000, 1⟩ }

def reversedSync (dir : BlocksDir) : Except SyncError Nat × FileSync :=
  sampleHandler.syncFromDirectory .sample dir (BlockHandler.startFileSync dir bothMissing headerStore)

theorem reversed_cleanSync (hparse : dir.parse genesisHash = .ok reversedItems)
    (hnone : noneRejected .sample sampleHandler
      ((takenBlocks .sample dir bothMissing genesisHash [child, genesis]).toChunks dir.config.batchSize)
      headerStore.next) :
    CleanSync .sample sampleHandler dir bothMissing genesisHash reversedItems headerStore
      (reversedSync dir).1 (reversedSync dir).2 where
  parse := hparse
  run := rfl
  parsed e _ := by
    rintro (herror | ⟨header, herror⟩)
    · simp [reversedItems] at herror
    · simp [reversedItems, fileBlock] at herror
  accepted := hnone

theorem reversedDir_inOrder : ∃ batches batches',
    HandedInOrder .sample sampleHandler bothMissing (readBlocks reversedItems) [genesis, child] 2000
      headerStore batches (reversedSync reversedDir).1 (reversedSync reversedDir).2 ∧
    HandedInOrder .sample sampleHandler bothMissing (readBlocks reversedItems) [genesis, child] 1
      headerStore batches' (reversedSync singlyDir).1 (reversedSync singlyDir).2 ∧
    batches'.flatten = batches.flatten ∧
    (reversedSync singlyDir).2.missingBlocks = (reversedSync reversedDir).2.missingBlocks ∧
    (reversedSync reversedDir).1 = .ok 2 ∧ (reversedSync singlyDir).1 = .ok 2 := by
  have hclean := @reversed_cleanSync reversedDir rfl (by decide +kernel)
  have hsingly := @reversed_cleanSync singlyDir rfl (by decide +kernel)
  have hfirst : bothMissing.getLast? = some genesisHash := rfl
  have htaken : takenBlocks .sample reversedDir bothMissing genesisHash (readBlocks reversedItems) =
      [genesis, child] := by decide +kernel
  have hok : (reversedSync reversedDir).1 = .ok 2 := by decide +kernel
  have hok' : (reversedSync singlyDir).1 = .ok 2 := by decide +kernel
  obtain ⟨batches, hbatches, hsame⟩ := syncFromDirectory_inOrder hfirst hclean
  obtain ⟨batches', hbatches', heq⟩ := hsame singlyDir _ _ hsingly rfl rfl (by decide)
    (Taking.roomy_of_length (by decide))
  rw [htaken] at hbatches hbatches'
  obtain ⟨hflatten, hmissing⟩ := heq (fun e herror => by rw [hok] at herror; cases herror)
    fun e herror => by rw [hok'] at herror; cases herror
  exact ⟨batches, batches', hbatches, hbatches', hflatten, hmissing, hok, hok'⟩

end Bip360Enforcer.Validator
