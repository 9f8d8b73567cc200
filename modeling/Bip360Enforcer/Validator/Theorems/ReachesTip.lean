import Bip360Enforcer.Validator.Theorems.Events
import Bip360Enforcer.Validator.Theorems.BlockFiles
import Bip360Enforcer.Validator.Theorems.Reorg

/-!
# A catch-up that reports success has come to the main tip
-/

namespace Bip360Enforcer.Validator

open Forest (Path)
open Program (wp)

variable {C : Crypto} {headers : Set Header} {heightOf : BlockHash → Nat} {handler : BlockHandler}
  {source : BlockHandler.SyncSource} {mainTip blockHash : BlockHash} {s t : Store} {chain : List Block}
  {hashes missing left lost connected : List BlockHash} {stored : HashDb Header}

/-! ## Whole chains -/

/-- Where blocks are cut out below others, the rest is no chain. -/
theorem lost_nil_of_linked (hzeros : stored.lookup .allZeros = none)
    (hfull : Linked stored (left ++ lost ++ hashes)) (hkept : Linked stored (left ++ hashes))
    (hnodup : (left ++ lost ++ hashes).Nodup) (hleft : left ≠ []) : lost = [] := by
  cases lost with
  | nil => rfl
  | cons top lost =>
      obtain ⟨front, last, rfl⟩ := (List.eq_nil_or_concat' left).resolve_left hleft
      obtain ⟨header, hstored, hprev⟩ := hfull last (top :: lost ++ hashes) ⟨front, by simp⟩
      obtain ⟨header', hstored', hprev'⟩ := hkept last hashes ⟨front, by simp⟩
      obtain rfl := Option.some.inj (hstored.symm.trans hstored')
      have htop : top = hashes.head?.getD .allZeros := hprev.symm.trans hprev'
      cases hashes with
      | nil =>
          obtain ⟨topHeader, htopStored, -⟩ := hfull top lost ⟨front ++ [last], by simp⟩
          rw [htop] at htopStored
          exact absurd htopStored (by simp [hzeros])
      | cons next hashes =>
          obtain rfl : top = next := htop
          have htwice : (top :: (lost ++ top :: hashes)).Nodup := by
            have hsplit : front ++ [last] ++ top :: lost ++ top :: hashes =
                (front ++ [last]) ++ top :: (lost ++ top :: hashes) := by simp
            rw [hsplit] at hnodup
            exact hnodup.of_append_right
          exact absurd (by simp) (List.nodup_cons.mp htwice).1

/-! ## The three steps -/

/-- The stale branch is gone, and what is missing leads from there to the main tip. -/
theorem disconnectStale_branch (hhashes : HonestHashes C headers)
    (hheights : BlockHeights C headers heightOf) (h : HonestReachable C headers heightOf s.dbs chain)
    (hmain : (s.dbs.header.lookup mainTip).isSome) :
    ∃ below new, Path (parentOf s.dbs.header) .allZeros mainTip (new ++ hashesOf C below) ∧
      (new ++ hashesOf C below).Nodup ∧
      wp (transaction (BlockHandler.disconnectStale C mainTip))
        (fun tip t => Indexed C headers t.dbs (hashesOf C below) ∧ t.dbs.header = s.dbs.header ∧
          BlockHandler.missingBlocks t.dbs mainTip tip = new)
        (fun _ _ => True) s := by
  have htracked := h.reachable.tracked hhashes
  have hindex := h.chainIndex hhashes hheights
  have hforest := hindex.forest hhashes hheights
  have htip : StoredOrZero s.dbs (s.dbs.currentChainTip.getD .allZeros) := by
    cases hnone : s.dbs.currentChainTip with
    | none => exact .inr rfl
    | some tip =>
        obtain ⟨header, -, hstored, -⟩ := hindex.tip_header hnone
        exact .inl (by rw [Option.getD_some, hstored]; rfl)
  obtain ⟨ancestor, hfound, -, hcommon⟩ := hforest.findLastCommonAncestor htip (.inl hmain)
  obtain ⟨above, below, rfl, rfl⟩ := (htracked.indexed.lastCommonAncestor hhashes hfound).split
  obtain ⟨new, hnew⟩ := hcommon.right.exists_path
  have hnotin : tipOf C below ∉ new := fun hin => Nat.lt_irrefl _ (hnew.level_lt hforest.graded _ hin).1
  have hrun := disconnectStale_rewound htracked hfound
  have hbelow : Path (parentOf s.dbs.header) .allZeros (tipOf C below) (hashesOf C below) := by
    refine path_of_linked fun hash rest hsuffix => htracked.indexed.linked hash rest (hsuffix.trans ?_)
    rw [hashesOf, hashesOf, List.map_append]
    exact List.suffix_append _ _
  have hwhole := hnew.append hbelow
  refine ⟨below, new, hwhole, hwhole.nodup hforest.graded, hrun.mono ?_ fun _ _ _ => trivial⟩
  rintro tip t ⟨rfl, htracked', hheader, -⟩
  refine ⟨htracked'.indexed, hheader, ?_⟩
  rw [BlockHandler.missingBlocks, hheader]
  exact missingBlocks_path hnew hnotin (hforest.path_length_le hnew)

/-- What is missing after a file sync, and what this has lost. -/
theorem missingAfterFileSync_grows {dir : Option BlocksDir} (hhashes : HonestHashes C headers)
    (hfiles : ∀ d ∈ dir, ∀ first items, d.parse first = .ok items →
      ∀ block, .ok block ∈ items → block.header ∈ headers)
    (hnodup : missing.Nodup) (h : GrowsOn C headers hashes stored [] s) :
    wp (handler.missingAfterFileSync C dir missing)
      (fun left t => ∃ lost connected, missing = left ++ lost ++ connected ∧
        GrowsOn C headers hashes stored connected t ∧
        (lost = [] ↔ ¬ ∃ d, dir = some d ∧ InterruptedSync C handler d missing s))
      (fun _ _ => False) s := by
  refine missingAfterFileSync_wp (growsOn_batch hhashes) hnodup (fun d hd first items hparse block hblock
    _ _ => hfiles d hd first items hparse block hblock) h

/-- Batches of which no block is rejected are on the chain. -/
theorem syncBatches_grows {n : Nat} {chunks : List (List BlockHash)} (hhashes : HonestHashes C headers)
    (hsource : HonestSync C headers source) (h : GrowsOn C headers hashes stored connected s) :
    wp (handler.syncBatches C source n chunks)
      (fun outcome t => outcome = none →
        GrowsOn C headers hashes stored (chunks.flatten.reverse ++ connected) t)
      (fun _ _ => True) s := by
  induction chunks generalizing n s connected with
  | nil => exact fun _ => h
  | cons chunk chunks ih =>
      rw [BlockHandler.syncBatches]
      refine Program.wp_ite.mpr ⟨fun _ => trivial, fun _ => ?_⟩
      rw [Program.wp_bind, Program.wp_ofExcept]
      refine ⟨fun blocks hblocks => ?_, fun _ _ => trivial⟩
      obtain rfl := hsource.answers n chunk blocks hblocks
      rw [Program.wp_bind]
      refine (connectBatch_wp hhashes h.1 (hsource.blocks n _ blocks hblocks)).mono ?_ fun _ _ _ => trivial
      rintro outcome t ⟨-, hmatch⟩
      cases outcome with
      | none =>
          have hgrown : GrowsOn C headers hashes stored ((hashesOf C blocks).reverse ++ connected) t :=
            ⟨by rw [List.append_assoc]; exact hmatch.indexed, hmatch.header.trans h.2⟩
          refine (ih hgrown).mono ?_ fun _ _ _ => trivial
          intro outcome u hu hnone
          have hall := hu hnone
          rwa [← List.append_assoc, ← List.reverse_append, ← List.flatten_cons] at hall
      | some rejected => exact fun hnone => by cases hnone

/-! ## The whole catch-up -/

/-- The file sync of a catch-up meets an error while blocks are pending. -/
def FilesInterrupted (C : Crypto) (handler : BlockHandler) (source : BlockHandler.SyncSource)
    (mainTip : BlockHash) (s : Store) : Prop :=
  ∃ tip t dir, transaction (BlockHandler.disconnectStale C mainTip) s = (.ok tip, t) ∧
    source.blocksDir = some dir ∧
    InterruptedSync C handler dir (BlockHandler.missingBlocks t.dbs mainTip tip) t.next

/-- What is connected reaches the main tip if no block on the way to it is lost, and only then. -/
theorem reachesTip_iff (hhashes : HonestHashes C headers) {rest : List BlockHash}
    (hindexed : Indexed C headers t.dbs (left ++ rest)) (hmain : (t.dbs.header.lookup mainTip).isSome)
    (hpath : Path (parentOf t.dbs.header) .allZeros mainTip (left ++ lost ++ rest))
    (hnodup : (left ++ lost ++ rest).Nodup) :
    (t.dbs.currentChainTip = some mainTip ↔ lost = []) ∧
    (t.dbs.currentChainTip = some mainTip →
      Path (parentOf t.dbs.header) .allZeros mainTip (activeChain t.dbs)) := by
  obtain ⟨hfull, hhead⟩ := linked_of_path hpath
  have hzeros : t.dbs.header.lookup .allZeros = none := by
    cases hlookup : t.dbs.header.lookup .allZeros with
    | none => rfl
    | some header =>
        obtain ⟨hmem, hhash⟩ := hindexed.keyed _ _ hlookup
        exact absurd hhash (hhashes.nonzero header hmem)
  have htip : t.dbs.currentChainTip = some mainTip ↔ lost = [] := by
    rw [hindexed.tip]
    constructor
    · intro htip
      cases left with
      | cons top left => exact lost_nil_of_linked hzeros hfull hindexed.linked hnodup (by simp)
      | nil =>
          cases lost with
          | nil => rfl
          | cons top lost =>
              obtain rfl : top = mainTip := hhead
              have hin : top ∈ lost ++ rest := List.mem_append_right _ (List.mem_of_head? htip)
              exact absurd hin (List.nodup_cons.mp hnodup).1
    · rintro rfl
      rw [List.append_nil] at hhead
      cases hnone : (left ++ rest).head? with
      | none =>
          rw [hnone] at hhead
          rw [← hhead] at hmain
          exact absurd hmain (by simp [hzeros])
      | some top =>
          rw [hnone] at hhead
          exact congrArg some hhead
  refine ⟨htip, fun hreached => ?_⟩
  obtain rfl := htip.mp hreached
  rw [List.append_nil] at hpath
  rwa [hindexed.activeChain_eq hhashes]

/-- A catch-up in which no block is rejected ends with the main tip and all of its ancestors connected,
whatever was connected before and however the blocks were got, if and only if its file sync was not
interrupted. -/
theorem syncBlocks_reachesTip_iff (hhashes : HonestHashes C headers)
    (hheights : BlockHeights C headers heightOf) (h : HonestReachable C headers heightOf s.dbs chain)
    (hmain : (s.dbs.header.lookup mainTip).isSome) (hsource : HonestSync C headers source)
    (hrun : handler.syncBlocks C source mainTip s = (.ok none, t)) :
    (t.dbs.currentChainTip = some mainTip ↔ ¬ FilesInterrupted C handler source mainTip s) ∧
    (t.dbs.currentChainTip = some mainTip →
      Path (parentOf s.dbs.header) .allZeros mainTip (activeChain t.dbs)) := by
  obtain ⟨below, new, hpath, hnodup, hstale⟩ := disconnectStale_branch hhashes hheights h hmain
  suffices hwp : wp (handler.syncBlocks C source mainTip)
      (fun outcome t => outcome = none → t.dbs.header = s.dbs.header ∧
        ∃ left lost rest, Indexed C headers t.dbs (left ++ rest) ∧
          new ++ hashesOf C below = left ++ lost ++ rest ∧
          (lost = [] ↔ ¬ FilesInterrupted C handler source mainTip s))
      (fun _ _ => True) s by
    obtain ⟨hheader, left, lost, rest, hindexed, hsplit, hlost⟩ := hwp.ok hrun rfl
    rw [← hheader] at hmain hpath ⊢
    rw [hsplit] at hpath hnodup
    rw [← hlost]
    exact reachesTip_iff hhashes hindexed hmain hpath hnodup
  rw [BlockHandler.syncBlocks, Program.wp_bind]
  refine (hstale.and (Program.wp_self _ _)).mono ?_ fun _ _ _ => trivial
  rintro tip u ⟨⟨hindexed, hheader, hmissing⟩, hdone⟩
  have hfiles : FilesInterrupted C handler source mainTip s ↔
      ∃ dir, source.blocksDir = some dir ∧ InterruptedSync C handler dir new u.next := by
    constructor
    · rintro ⟨tip', u', dir, hdone', hdir, hinterrupted⟩
      rw [hdone] at hdone'
      cases hdone'
      exact ⟨dir, hdir, hmissing ▸ hinterrupted⟩
    · rintro ⟨dir, hdir, hinterrupted⟩
      exact ⟨tip, u, dir, hdone, hdir, hmissing.symm ▸ hinterrupted⟩
  rw [Program.wp_bind, wp_read]
  refine ⟨fun _ => trivial, fun _ => ?_⟩
  rw [hmissing]
  refine Program.wp_ite.mpr ⟨fun hempty => ?_, fun _ => ?_⟩
  · obtain rfl := List.isEmpty_iff.mp hempty
    refine fun _ => ⟨hheader, [], [], hashesOf C below, hindexed, rfl, fun _ hinterrupted => ?_, fun _ => rfl⟩
    obtain ⟨dir, -, first, items, height, t, hlast, -⟩ := hfiles.mp hinterrupted
    cases hlast
  · rw [Program.wp_bind]
    have hgrows : GrowsOn C headers (hashesOf C below) s.dbs.header [] u.next := ⟨hindexed, hheader⟩
    refine (missingAfterFileSync_grows hhashes hsource.files hnodup.of_append_left hgrows).mono ?_
      fun _ _ hfalse => hfalse.elim
    rintro left v ⟨lost, connected, hsplit, hgrown, hlost⟩
    refine (syncBatches_grows hhashes hsource hgrown).mono ?_ fun _ _ _ => trivial
    intro outcome w hw hnone
    obtain ⟨hindexed', hheader'⟩ := hw hnone
    rw [Chunks.flatten_toChunks, List.reverse_reverse, List.append_assoc] at hindexed'
    refine ⟨hheader', left, lost, connected ++ hashesOf C below, hindexed', ?_, ?_⟩
    · rw [hsplit]
      simp
    · rw [hlost, hfiles]

/-! The second block gives way to its sibling, which the node is asked for. -/

def siblingSource : BlockHandler.SyncSource where
  blocksDir := none
  cancelled _ := false
  fetchBlocksBatch _ hashes := if hashes = [siblingHash] then .ok [sibling] else .error .rest

theorem siblingSource_honest : HonestSync .sample forkHeaders siblingSource := by
  have hanswer : ∀ n asked blocks, siblingSource.fetchBlocksBatch n asked = .ok blocks →
      asked = [siblingHash] ∧ blocks = [sibling] := by
    intro n asked blocks hok
    simp only [siblingSource] at hok
    split at hok
    · exact ⟨‹_›, (Except.ok.inj hok).symm⟩
    · cases hok
  constructor
  · intro n asked blocks hok
    obtain ⟨rfl, rfl⟩ := hanswer n asked blocks hok
    rfl
  · intro n asked blocks hok block hblock
    obtain ⟨-, rfl⟩ := hanswer n asked blocks hok
    obtain rfl := List.mem_singleton.mp hblock
    exact .inr (.inr rfl)
  · intro dir hdir
    cases hdir

def caughtUpStore : Store := (sampleHandler.syncBlocks .sample siblingSource siblingHash reorgStore).2

theorem caughtUpStore_reachesTip : caughtUpStore.dbs.currentChainTip = some siblingHash ∧
    Path (parentOf reorgStore.dbs.header) .allZeros siblingHash (activeChain caughtUpStore.dbs) := by
  have hrun : sampleHandler.syncBlocks .sample siblingSource siblingHash reorgStore =
      (.ok none, caughtUpStore) := by
    unfold caughtUpStore
    exact Program.eq_of_fst (by decide +kernel)
  obtain ⟨hiff, hpath⟩ := syncBlocks_reachesTip_iff forkHeaders_honest forkHeights reorgStore_reachable
    (show (reorgStore.dbs.header.lookup siblingHash).isSome by decide +kernel) siblingSource_honest hrun
  have htip := hiff.mpr (by rintro ⟨tip, t, dir, -, hdir, -⟩; cases hdir)
  exact ⟨htip, hpath htip⟩

end Bip360Enforcer.Validator
