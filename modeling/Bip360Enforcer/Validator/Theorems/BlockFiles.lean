import Bip360Enforcer.Validator.Lemmas.Interrupted
import Bip360Enforcer.Validator.Theorems.Ledger

/-!
# No block is lost by a file sync that is not interrupted
-/

namespace Bip360Enforcer.Validator

open Program (wp)

variable {C : Crypto} {handler : BlockHandler} {headers : Set Header} {dir : BlocksDir}
  {missing : List BlockHash} {inv : List BlockHash → Store → Prop}

/-! ## The chain and what is missing on top of it -/

/-- The chain grows by the connected blocks, and no header is stored meanwhile. -/
def GrowsOn (C : Crypto) (headers : Set Header) (hashes : List BlockHash) (stored : HashDb Header)
    (connected : List BlockHash) (s : Store) : Prop :=
  Indexed C headers s.dbs (connected ++ hashes) ∧ s.dbs.header = stored

theorem growsOn_batch {hashes : List BlockHash} {stored : HashDb Header}
    (hhashes : HonestHashes C headers) :
    BatchInvariant C handler {block | block.header ∈ headers} missing
      (GrowsOn C headers hashes stored) where
  next h := h
  batch := by
    rintro connected s blocks ⟨hindexed, hstored⟩ hblocks
    refine (connectBatch_wp hhashes hindexed fun b hb => (hblocks b hb).1).mono ?_ ?_
    · rintro outcome t ⟨-, hmatch⟩
      rcases outcome with _ | ⟨hash, err⟩
      · exact ⟨by rw [List.append_assoc]; exact hmatch.indexed, hmatch.header.trans hstored⟩
      · obtain ⟨accepted, rejected, rest, hsplit, hhash, -, hgrown⟩ := hmatch
        exact ⟨accepted, rejected, rest, hsplit, hhash,
          by rw [List.append_assoc]; exact hgrown.indexed, hgrown.header.trans hstored⟩
    · rintro e t ⟨-, -, hdbs, -⟩
      rw [GrowsOn, hdbs]
      exact ⟨hindexed, hstored⟩

/-- The blocks that were missing are missing still or connected now, in this order. -/
def NothingLost (missing : List BlockHash) (s : Store) (st : FileSync) : Prop :=
  ∃ connected, activeChain st.store.dbs = connected ++ activeChain s.dbs ∧
    missing = st.missingBlocks ++ connected

/-- The node answers with the blocks that it is asked for. -/
def HonestSource (C : Crypto) (headers : Set Header) (source : BlockHandler.SyncSource) : Prop :=
  ∀ n hashes blocks, source.fetchBlocksBatch n hashes = .ok blocks →
    hashesOf C blocks = hashes ∧ ∀ block ∈ blocks, block.header ∈ headers

/-- The next block to ask the node for is the one after the tip, and no block that the node is asked for
is presented before its parent. -/
structure AsksInOrder (C : Crypto) (handler : BlockHandler) (headers : Set Header) (st : FileSync) :
    Prop where
  next : ∀ blockHash, st.missingBlocks.getLast? = some blockHash → ∃ header,
    st.store.dbs.header.lookup blockHash = some header ∧
      header.prevBlockhash = st.store.dbs.currentChainTip.getD .allZeros
  parents : ∀ source hash parent tip tipHeight t, HonestSource C headers source →
    handler.syncBatches C source 0 (st.missingBlocks.reverse.toChunks BlockHandler.blockFetchBatchSize)
      st.store ≠ (.ok (some (hash, .blockParent parent tip tipHeight)), t)

/-- Blocks that the headers link to the tip are not presented without their parent. -/
theorem syncBatches_parents (hhashes : HonestHashes C headers) {source : BlockHandler.SyncSource}
    (hsource : HonestSource C headers source) {n : Nat} {chunks : List (List BlockHash)} {s : Store}
    {hashes : List BlockHash} (hindexed : Indexed C headers s.dbs hashes)
    (hlinked : Linked s.dbs.header (chunks.flatten.reverse ++ hashes)) :
    wp (handler.syncBatches C source n chunks)
      (fun outcome _ => ∀ hash parent tip tipHeight,
        outcome ≠ some (hash, .blockParent parent tip tipHeight))
      (fun _ _ => True) s := by
  induction chunks generalizing n s hashes with
  | nil => exact fun _ _ _ _ h => by cases h
  | cons chunk chunks ih =>
      rw [BlockHandler.syncBatches]
      refine Program.wp_ite.mpr ⟨fun _ => trivial, fun _ => ?_⟩
      rw [Program.wp_bind, Program.wp_ofExcept]
      refine ⟨fun blocks hblocks => ?_, fun _ _ => trivial⟩
      obtain ⟨rfl, hknown⟩ := hsource n chunk blocks hblocks
      rw [List.flatten_cons, List.reverse_append, List.append_assoc] at hlinked
      rw [Program.wp_bind]
      refine (connectBatch_wp hhashes hindexed hknown).mono ?_ fun _ _ _ => trivial
      rintro outcome t ⟨-, hmatch⟩
      rcases outcome with _ | ⟨hash, err⟩
      · refine ih hmatch.indexed ?_
        rw [hmatch.header]
        exact hlinked
      · obtain ⟨accepted, rejected, rest, rfl, rfl, hrejects, hgrown⟩ := hmatch
        rintro hash parent tip tipHeight heq
        have herr : err = .blockParent parent tip tipHeight := congrArg Prod.snd (Option.some.inj heq)
        refine hrejects.parent parent tip tipHeight herr ?_
        have hsuffix : C.blockHash rejected.header :: ((hashesOf C accepted).reverse ++ hashes) <:+
            chunks.flatten.reverse ++ ((hashesOf C (accepted ++ rejected :: rest)).reverse ++ hashes) :=
          ⟨chunks.flatten.reverse ++ (hashesOf C rest).reverse, by simp [hashesOf]⟩
        obtain ⟨header, hlookup, hprev⟩ := hlinked _ _ hsuffix
        rw [← hgrown.header] at hlookup
        obtain rfl := hgrown.indexed.header_eq hhashes (hknown rejected (by simp)) hlookup
        rw [hprev, hgrown.indexed.tip]

/-- However a file sync ends, no missing block is lost if and only if no error was met while blocks were
pending; and then the rest of the sync asks for the blocks in their order. -/
theorem syncFromDirectory_keeps_iff (hhashes : HonestHashes C headers) {s : Store} {chain : List Block}
    (hreachable : Reachable C headers s.dbs chain)
    (hfiles : ∀ first items, dir.parse first = .ok items →
      ∀ block, .ok block ∈ items → block.header ∈ headers)
    (hnodup : missing.Nodup) {outcome : Except SyncError Nat} {st : FileSync}
    (hrun : handler.syncFromDirectory C dir (BlockHandler.startFileSync dir missing s) = (outcome, st)) :
    (NothingLost missing s st ↔ ¬ InterruptedSync C handler dir missing s) ∧
    (¬ InterruptedSync C handler dir missing s →
      Linked s.dbs.header (missing ++ activeChain s.dbs) → AsksInOrder C handler headers st) := by
  have hindexed := (hreachable.tracked hhashes).indexed
  have hchain := hindexed.activeChain_eq hhashes
  have hends : Ends C {block | block.header ∈ headers} missing (GrowsOn C headers (hashesOf C chain) s.dbs.header)
      (InterruptedSync C handler dir missing s) st := by
    have hbatch := @growsOn_batch C handler headers missing (hashesOf C chain) s.dbs.header hhashes
    have hwp := syncFromDirectory_ends hbatch hnodup
      (fun first items hparse block hblock _ _ => hfiles first items hparse block hblock)
      (⟨hindexed, rfl⟩ : GrowsOn C headers (hashesOf C chain) s.dbs.header [] s)
    cases outcome with
    | ok _ => exact hwp.ok hrun
    | error _ => exact hwp.error hrun
  have hsplit : ∀ connected, Syncing C {block | block.header ∈ headers} missing
      (GrowsOn C headers (hashesOf C chain) s.dbs.header) connected st →
      activeChain st.store.dbs = connected ++ activeChain s.dbs := by
    intro connected h
    rw [h.store.1.activeChain_eq hhashes, hchain]
  constructor
  · rcases hends with ⟨hsettled, hnot⟩ | ⟨hlosing, hinterrupted⟩
    · refine ⟨fun _ => hnot, fun _ => ?_⟩
      obtain ⟨connected, h⟩ := hsettled.syncing
      refine ⟨connected, hsplit connected h, ?_⟩
      have hmissing := h.split
      rw [hsettled.settled] at hmissing
      simpa [hashesOf] using hmissing
    · refine ⟨fun hkept => ?_, fun hnot => absurd hinterrupted hnot⟩
      obtain ⟨connected, h⟩ := hlosing.syncing
      obtain ⟨connected', hgrown, hmissing⟩ := hkept
      obtain rfl : connected' = connected :=
        List.append_cancel_right (hgrown.symm.trans (hsplit connected h))
      -- The pending blocks are neither missing nor connected.
      have hpending : (hashesOf C st.pendingBlocks).reverse = [] := by
        have heq := hmissing.symm.trans h.split
        rw [List.append_assoc, List.append_cancel_left_eq] at heq
        exact List.append_left_eq_self.mp heq.symm
      exact absurd (by simpa [hashesOf] using hpending) hlosing.pending
  · intro hnot hlinked
    obtain ⟨hsettled, -⟩ := hends.resolve_right fun h => hnot h.2
    obtain ⟨connected, h⟩ := hsettled.syncing
    have hmissing := h.split
    rw [hsettled.settled] at hmissing
    simp only [hashesOf, List.map_nil, List.reverse_nil, List.append_nil] at hmissing
    rw [hchain, hmissing, ← h.store.2, List.append_assoc] at hlinked
    refine ⟨fun blockHash hlast => ?_, fun source hash parent tip tipHeight t hsource hrun => ?_⟩
    · have hdrop := List.dropLast_append_getLast? _ hlast
      have hsuffix : blockHash :: (connected ++ hashesOf C chain) <:+
          st.missingBlocks ++ (connected ++ hashesOf C chain) :=
        ⟨st.missingBlocks.dropLast, by rw [List.append_cons, hdrop]⟩
      obtain ⟨header, hlookup, hprev⟩ := hlinked _ _ hsuffix
      exact ⟨header, hlookup, by rw [hprev, h.store.1.tip]⟩
    · refine (syncBatches_parents hhashes hsource h.store.1 ?_).ok hrun hash parent
        tip tipHeight rfl
      rw [Chunks.flatten_toChunks, List.reverse_reverse]
      exact hlinked

/-! Both blocks are missing, and the files hold them in their order. -/

def sampleDir (items : List (Except SyncError FileBlock)) : BlocksDir :=
  ⟨.default, fun _ => .ok items, fun _ => false⟩

def bothMissing : List BlockHash := [childHash, genesisHash]

def fileBlock (block : Block) : FileBlock := ⟨block.header, .ok block.txdata⟩

def fullDir : BlocksDir := sampleDir [.ok (fileBlock genesis), .ok (fileBlock child)]

def fullSync : FileSync :=
  (sampleHandler.syncFromDirectory .sample fullDir
    (BlockHandler.startFileSync fullDir bothMissing headerStore)).2

theorem headerStore_reachable : Reachable .sample sampleHeaders headerStore.dbs [] :=
  .putHeaders (s := freshStore .empty) .empty (by simp [sampleHeaders]) headers_stored

theorem fullDir_honest : ∀ first items, fullDir.parse first = .ok items →
    ∀ block, .ok block ∈ items → block.header ∈ sampleHeaders := by
  intro first items hparse block hblock
  obtain rfl := Except.ok.inj hparse
  simp only [List.mem_cons, Except.ok.injEq, List.not_mem_nil, or_false] at hblock
  rcases hblock with rfl | rfl
  · exact .inl rfl
  · exact .inr rfl

theorem fullSync_keeps :
    NothingLost bothMissing headerStore fullSync ↔
      ¬ InterruptedSync .sample sampleHandler fullDir bothMissing headerStore := by
  have hrun : sampleHandler.syncFromDirectory .sample fullDir
      (BlockHandler.startFileSync fullDir bothMissing headerStore) = (.ok 2, fullSync) := by
    unfold fullSync
    exact Program.eq_of_fst (by decide +kernel)
  exact (syncFromDirectory_keeps_iff sampleHeaders_honest headerStore_reachable fullDir_honest
    (by decide) hrun).1

/-! After the first block the parser fails. -/

def brokenDir : BlocksDir := sampleDir [.ok (fileBlock genesis), .error .blockDirectoryParser]

def brokenSync : FileSync :=
  (sampleHandler.syncFromDirectory .sample brokenDir
    (BlockHandler.startFileSync brokenDir bothMissing headerStore)).2

/-- A node that has both blocks. -/
def brokenSource : BlockHandler.SyncSource where
  blocksDir := some brokenDir
  cancelled _ := false
  fetchBlocksBatch _ hashes := .ok (hashes.map fun hash => if hash = genesisHash then genesis else child)

/-- The first block is neither missing nor connected, and the second one, which is valid, is rejected
for lack of its parent. -/
theorem brokenSync_loses :
    ¬ NothingLost bothMissing headerStore brokenSync ∧
    (sampleHandler.syncBlocks .sample brokenSource childHash headerStore).1 =
      .ok (some (childHash, .blockParent genesisHash .allZeros 0)) := by
  refine ⟨?_, by decide⟩
  rintro ⟨connected, hchain, hmissing⟩
  have hempty : activeChain brokenSync.store.dbs = [] := by decide
  have hleft : brokenSync.missingBlocks = [childHash] := by decide
  rw [hempty] at hchain
  have hconnected : connected = [] := (List.append_eq_nil_iff.mp hchain.symm).1
  rw [hleft, hconnected] at hmissing
  exact absurd hmissing (by decide)

end Bip360Enforcer.Validator
