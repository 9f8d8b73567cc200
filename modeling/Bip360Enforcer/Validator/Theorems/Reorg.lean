import Bip360Enforcer.Validator.Theorems.Ancestry
import Bip360Enforcer.Validator.Theorems.ListHeaders

/-!
# Catching up after a reorganisation
-/

namespace Bip360Enforcer.Validator

open Forest (Path)
open Pqc (CoreChain)
open Program (wp)

variable {C : Crypto} {headers : Set Header} {heightOf : BlockHash → Nat} {dbs : Dbs} {s t : Store}
  {chain above below : List Block}

/-! ## Databases of honest headers -/

/-- Reachable databases with the chain that is connected in them, newest block first. Headers are stored
on top of stored ones, as an honest node answers them. -/
inductive HonestReachable (C : Crypto) (headers : Set Header) (heightOf : BlockHash → Nat) :
    Dbs → List Block → Prop where
  | empty : HonestReachable C headers heightOf .empty []
  | putHeaders {ε : Type} [FromDb ε] {s t : Store} {chain : List Block} {first : RestHeader}
      {rest : List RestHeader} (start : HonestReachable C headers heightOf s.dbs chain)
      (parent : first.header.prevBlockhash ≠ .allZeros →
        (s.dbs.header.lookup first.header.prevBlockhash).isSome)
      (honest : first.Honest C headers heightOf) (ascends : Ascends C headers heightOf first.hash rest)
      (run : (putHeaders C (storedEntries (first :: rest)) : Db ε Unit) s = (.ok (), t)) :
      HonestReachable C headers heightOf t.dbs chain
  | connect {s t : Store} {chain : List Block} {handler : BlockHandler} {block : Block} {event : Event}
      (start : HonestReachable C headers heightOf s.dbs chain) (known : block.header ∈ headers)
      (core : CoreChain C (block :: chain)) (extra : NoP2mr handler.extraPrevouts)
      (run : handler.connectBlock C block s = (.ok event, t)) :
      HonestReachable C headers heightOf t.dbs (block :: chain)
  | disconnect {s t : Store} {chain : List Block} {block : Block}
      (start : HonestReachable C headers heightOf s.dbs (block :: chain))
      (run : BlockHandler.disconnectBlock C (C.blockHash block.header) s = (.ok (), t)) :
      HonestReachable C headers heightOf t.dbs chain

theorem Ascends.known {parent : BlockHash} {entries : List RestHeader}
    (h : Ascends C headers heightOf parent entries) : ∀ entry ∈ entries, entry.header ∈ headers := by
  induction entries generalizing parent with
  | nil => exact fun entry hentry => absurd hentry List.not_mem_nil
  | cons first rest ih =>
      intro entry hentry
      rcases List.mem_cons.mp hentry with rfl | hentry
      · exact h.1.known
      · exact ih h.2.2 entry hentry

namespace HonestReachable

theorem reachable (h : HonestReachable C headers heightOf dbs chain) : Reachable C headers dbs chain := by
  induction h with
  | empty => exact .empty
  | putHeaders _ _ honest ascends run ih =>
      refine .putHeaders ih (fun entry hentry => ?_) run
      obtain ⟨restHeader, hmem, rfl⟩ := List.mem_map.mp hentry
      rcases List.mem_cons.mp hmem with rfl | hmem
      · exact honest.known
      · exact ascends.known restHeader hmem
  | connect _ known core extra run ih => exact .connect ih known core extra run
  | disconnect _ run ih => exact .disconnect ih run

theorem chainIndex (hhashes : HonestHashes C headers) (hheights : BlockHeights C headers heightOf)
    (h : HonestReachable C headers heightOf dbs chain) : ChainIndex C headers heightOf dbs := by
  induction h with
  | empty => exact .empty
  | @putHeaders ε _ s _ _ first rest _ parent honest ascends run ih =>
      have hput : Spec (Validator.putHeaders C (storedEntries (first :: rest)) : Db ε Unit) s.dbs _
          (fun _ _ => True) fun _ => True :=
        putHeaders_chainIndex hhashes hheights ih parent honest ascends trivial
      exact (hput.ok run).2.1
  | connect _ known _ _ run ih =>
      obtain ⟨-, height, coinbase, txs, diff, header, work, hconnects, -⟩ :=
        (connectBlock_spec fun _ h => h).ok run
      exact ih.connect hhashes hheights known hconnects
  | disconnect _ run ih => exact (disconnectBlock_chainIndex ih).ok run

/-- The databases in which a part of the chain is connected have been there before. -/
theorem suffix (h : HonestReachable C headers heightOf dbs chain) (hbelow : below <:+ chain) :
    ∃ earlier, HonestReachable C headers heightOf earlier below := by
  induction h with
  | empty =>
      obtain rfl := List.suffix_nil.mp hbelow
      exact ⟨_, .empty⟩
  | putHeaders _ _ _ _ _ ih => exact ih hbelow
  | connect start known core extra run ih =>
      rcases List.suffix_cons_iff.mp hbelow with rfl | hbelow
      · exact ⟨_, .connect start known core extra run⟩
      · exact ih hbelow
  | disconnect _ _ ih => exact ih (hbelow.trans (List.suffix_cons _ _))

end HonestReachable

/-! ## Branches -/

/-- The newest block of the chain, or the zero hash where there is none. -/
def tipOf (C : Crypto) (chain : List Block) : BlockHash := (hashesOf C chain).head?.getD .allZeros

/-- The walk back from the main tip meets the blocks of its branch, then the ancestor. -/
theorem missingBlocks_path {stored : HashDb Header} {ancestor mainTip : BlockHash}
    {hashes : List BlockHash} {n : Nat} (h : Path (parentOf stored) ancestor mainTip hashes)
    (hnotin : ancestor ∉ hashes) (hn : hashes.length ≤ n) :
    ((ancestorHeaders stored n mainTip).map Prod.fst).takeWhile (· ≠ ancestor) = hashes := by
  induction h generalizing n with
  | here =>
      cases n with
      | zero => rfl
      | succ n =>
          rw [ancestorHeaders]
          cases stored.lookup ancestor with
          | none => rfl
          | some header => simp
  | @above blockHash parent hashes hparent _ ih =>
      cases n with
      | zero => cases hn
      | succ n =>
          obtain ⟨header, hstored, rfl⟩ := Option.map_eq_some_iff.mp hparent
          have hne : blockHash ≠ ancestor := (List.ne_of_not_mem_cons hnotin).symm
          rw [ancestorHeaders, hstored, List.map_cons, List.takeWhile_cons_of_pos (by simpa using hne),
            ih (List.not_mem_of_not_mem_cons hnotin) (Nat.le_of_succ_le_succ hn)]

theorem HeaderForest.path_length_le (h : HeaderForest dbs) {ancestor mainTip : BlockHash}
    {hashes : List BlockHash} (hpath : Path (parentOf dbs.header) ancestor mainTip hashes) :
    hashes.length ≤ dbs.header.entries.length := by
  have hsubset : hashes ⊆ dbs.header.keys := by
    induction hpath with
    | here => exact List.nil_subset _
    | above hparent _ ih =>
        obtain ⟨header, hstored, -⟩ := Option.map_eq_some_iff.mp hparent
        refine List.cons_subset.mpr ⟨?_, ih⟩
        exact AList.mem_keys.mp (AList.lookup_isSome.mp (by rw [hstored]; rfl))
  have hlength := (List.subperm_of_subset (hpath.nodup h.graded) hsubset).length_le
  rwa [AList.keys, List.keys, List.length_map] at hlength

/-- The blocks on top of a part of the chain are a branch. -/
theorem Tracked.path (h : Tracked C headers dbs (above ++ below)) :
    Path (parentOf dbs.header) (tipOf C below) (tipOf C (above ++ below)) (hashesOf C above) := by
  have hlinked := h.indexed.linked
  clear h
  induction above with
  | nil => exact .here
  | cons block above ih =>
      obtain ⟨header, hstored, hprev⟩ := hlinked _ _ (List.suffix_refl _)
      have hparent : parentOf dbs.header (C.blockHash block.header) = some (tipOf C (above ++ below)) := by
        rw [parentOf_of_lookup hstored, hprev]
        rfl
      exact .above hparent (ih hlinked.tail)

/-! ## The loop -/

theorem Tracked.tip_ne {block : Block} (h : Tracked C headers dbs (block :: above ++ below)) :
    C.blockHash block.header ≠ tipOf C below := by
  intro heq
  cases below with
  | nil => exact (h.indexed.entry _ _ (List.suffix_refl _)).nonzero heq
  | cons tip below =>
      have hnotin : C.blockHash block.header ∉ hashesOf C (above ++ tip :: below) :=
        (List.nodup_cons.mp h.indexed.nodup).1
      rw [heq] at hnotin
      exact hnotin (List.mem_map_of_mem (List.mem_append_right _ List.mem_cons_self))

/-- The store after the blocks `removed` are disconnected from the chain of `s`, so that `chain` is left. -/
structure Rewound (C : Crypto) (headers : Set Header) (removed chain : List Block) (s t : Store) : Prop where
  tracked : Tracked C headers t.dbs chain
  header : t.dbs.header = s.dbs.header
  events : t.events = s.events ++ removed.map fun block => .disconnectBlock (C.blockHash block.header)
  later : Later s t

namespace Rewound

variable {removed removed' chain' : List Block} {u : Store}

theorem refl (h : Tracked C headers s.dbs chain) : Rewound C headers [] chain s s :=
  ⟨h, rfl, (List.append_nil _).symm, 0, fun _ => rfl⟩

theorem next (h : Rewound C headers removed chain s t) : Rewound C headers removed chain s t.next :=
  ⟨h.tracked, h.header, h.events, h.later.trans ⟨1, fun _ => rfl⟩⟩

theorem trans (h : Rewound C headers removed chain s t) (h' : Rewound C headers removed' chain' t u) :
    Rewound C headers (removed ++ removed') chain' s u where
  tracked := h'.tracked
  header := h'.header.trans h.header
  events := by rw [h'.events, h.events, List.map_append, List.append_assoc]
  later := h.later.trans h'.later

end Rewound

/-- The tip is disconnected, unless the database fails. -/
theorem disconnectBlock_rewound {block : Block} (h : Tracked C headers s.dbs (block :: chain)) :
    wp (BlockHandler.disconnectBlock C (C.blockHash block.header))
      (fun _ t => Rewound C headers [block] chain s t) (fun _ _ => ∃ n sent, s.faults n sent = true) s := by
  refine disconnectBlock_wp.mono ?_ ?_
  · rintro - t (⟨hnone, -⟩ | ⟨diff, header, u, hdisconnects, hquiet, rfl⟩)
    · obtain ⟨diff, hdiff, -⟩ := h.diffs _ _ (List.suffix_refl _)
      rw [hdiff] at hnone
      cases hnone
    · refine ⟨h.disconnect hdisconnects, ?_, ?_, hquiet.faults⟩
      · change u.dbs.header = _
        rw [hdisconnects.result]
      · change u.events ++ _ = _
        rw [hquiet.events]
        rfl
  · rintro e t ⟨-, hreason⟩
    obtain ⟨n, hn⟩ := hreason.resolve_right h.indexed.not_stuck
    exact ⟨n, _, hn⟩

/-- The loop comes to its end, unless the database fails. -/
theorem disconnectDownTo_rewound {fuel : Nat} (h : Tracked C headers s.dbs (above ++ below))
    (hfuel : above.length ≤ fuel) :
    wp (BlockHandler.disconnectDownTo C (tipOf C below) fuel (tipOf C (above ++ below)))
      (fun tip t => tip = tipOf C below ∧ Rewound C headers above below s t)
      (fun e _ => e ≠ .diverged ∧ ∃ n sent, s.faults n sent = true) s := by
  induction above generalizing s fuel with
  | nil =>
      have hstop : BlockHandler.disconnectDownTo C (tipOf C below) fuel (tipOf C below) =
          pure (tipOf C below) := by
        cases fuel <;> exact if_pos rfl
      rw [List.nil_append, hstop]
      exact ⟨rfl, .refl h⟩
  | cons block above ih =>
      cases fuel with
      | zero => cases hfuel
      | succ fuel =>
          have hne : tipOf C (block :: above ++ below) ≠ tipOf C below := h.tip_ne
          rw [BlockHandler.disconnectDownTo, if_neg hne, Program.wp_bind, Program.wp_mapError]
          refine (disconnectBlock_rewound h).mono ?_ fun e t hfault => ⟨fun h => (by cases h), hfault⟩
          rintro - t ht
          rw [Program.wp_bind, wp_read]
          refine ⟨fun hfails => ⟨fun h => (by cases h), ht.later.fault ⟨0, _, hfails⟩⟩, fun _ => ?_⟩
          have htip : t.dbs.currentChainTip.getD .allZeros = tipOf C (above ++ below) := by
            rw [ht.tracked.indexed.tip]
            rfl
          rw [htip]
          refine (ih ht.next.tracked (Nat.le_of_succ_le_succ hfuel)).mono ?_ ?_
          · rintro tip u ⟨rfl, hu⟩
            exact ⟨rfl, ht.next.trans hu⟩
          · rintro e - ⟨hdiverged, hfault⟩
            exact ⟨hdiverged, ht.next.later.fault hfault⟩

/-! ## The whole step -/

theorem Trail.split {blockHash : BlockHash} (h : Trail (hashesOf C chain) blockHash) :
    ∃ above below, chain = above ++ below ∧ blockHash = tipOf C below := by
  rcases h with hin | rfl
  · obtain ⟨block, hblock, rfl⟩ := List.mem_map.mp hin
    obtain ⟨above, below, rfl⟩ := List.append_of_mem hblock
    exact ⟨above, block :: below, rfl, rfl⟩
  · exact ⟨chain, [], (List.append_nil _).symm, rfl⟩

theorem Tracked.tip_eq (h : Tracked C headers dbs chain) :
    dbs.currentChainTip.getD .allZeros = tipOf C chain := by
  rw [h.indexed.tip, tipOf]

/-- The blocks above the ancestor that the search finds are disconnected, and these only. -/
theorem disconnectStale_rewound {mainTip : BlockHash} (h : Tracked C headers s.dbs (above ++ below))
    (hancestor : findLastCommonAncestor s.dbs (s.dbs.currentChainTip.getD .allZeros) mainTip =
      .ok (tipOf C below)) :
    wp (transaction (BlockHandler.disconnectStale C mainTip))
      (fun tip t => tip = tipOf C below ∧ Tracked C headers t.dbs below ∧ t.dbs.header = s.dbs.header ∧
        t.events = s.events ++ above.map fun block => .disconnectBlock (C.blockHash block.header))
      (fun e _ => e ≠ .diverged ∧ ∃ n sent, s.faults n sent = true) s := by
  have hlater : Later s s.next.begin := ⟨1, fun _ => rfl⟩
  have hfails : ∀ {t}, Later s t → t.fails = true → ∃ n sent, s.faults n sent = true :=
    fun hlater hfails => hlater.fault ⟨0, _, hfails⟩
  refine wp_transaction (fun hfault => ⟨fun h => (by cases h), hfails ⟨0, fun _ => rfl⟩ hfault⟩) ?_
  unfold BlockHandler.disconnectStale
  rw [Program.wp_bind, wp_read]
  refine ⟨fun hfault => ⟨fun h => (by cases h), hfails hlater hfault⟩, fun _ => ?_⟩
  rw [Program.wp_bind, Program.wp_mapError, lastCommonAncestor, Program.wp_bind, wp_read]
  have hlater' : Later s s.next.begin.next := hlater.trans ⟨1, fun _ => rfl⟩
  refine ⟨fun hfault => ⟨fun h => (by cases h), hfails hlater' hfault⟩, fun _ => ?_⟩
  have hfound : findLastCommonAncestor s.next.begin.next.dbs
      (s.next.begin.dbs.currentChainTip.getD .allZeros) mainTip = .ok (tipOf C below) := hancestor
  rw [Program.wp_ofExcept, hfound]
  refine ⟨fun ancestor heq => ?_, fun e he => by cases he⟩
  obtain rfl := Except.ok.inj heq
  have htip : s.next.begin.dbs.currentChainTip.getD .allZeros = tipOf C (above ++ below) := h.tip_eq
  rw [htip]
  have hlater'' : Later s s.next.begin.next.next := hlater'.trans ⟨1, fun _ => rfl⟩
  refine Program.wp_ite.mpr ⟨fun heq => ?_, fun _ => ?_⟩
  · cases above with
    | nil => exact ⟨heq, h, rfl, (List.append_nil _).symm⟩
    | cons block above => exact absurd heq h.tip_ne
  · rw [Program.wp_bind, Program.wp_get, Program.wp_bind]
    have hstart : Tracked C headers s.next.begin.next.next.dbs (above ++ below) := h
    have hlength : above.length ≤ s.dbs.header.entries.length := by
      have hle := h.indexed.length_le
      rw [hashesOf, List.length_map, List.length_append] at hle
      omega
    refine (disconnectDownTo_rewound hstart hlength).mono ?_ ?_
    · rintro tip t ⟨rfl, ht⟩
      simp only [commit, Program.wp_bind, wp_access, Program.wp_pure]
      refine ⟨fun hfault => ⟨fun h => (by cases h), hfails (hlater''.trans ht.later) hfault⟩, fun _ => ?_⟩
      exact ⟨trivial, ht.tracked, ht.header, ht.events⟩
    · rintro e - ⟨hdiverged, hfault⟩
      exact ⟨hdiverged, hlater''.fault hfault⟩

/-- A reorganisation while catching up: the old branch is undone down to the last common ancestor, as if
its blocks had never been connected, and the new branch is what is missing. -/
theorem disconnectStale_reorganises {mainTip : BlockHash} (hhashes : HonestHashes C headers)
    (hheights : BlockHeights C headers heightOf) (h : HonestReachable C headers heightOf s.dbs chain)
    (hmain : (s.dbs.header.lookup mainTip).isSome) :
    ∃ above below new, chain = above ++ below ∧
      IsLastCommonAncestor s.dbs (s.dbs.currentChainTip.getD .allZeros) mainTip (tipOf C below) ∧
      Path (parentOf s.dbs.header) (tipOf C below) (s.dbs.currentChainTip.getD .allZeros)
        (hashesOf C above) ∧
      Path (parentOf s.dbs.header) (tipOf C below) mainTip new ∧
      (∀ blockHash ∈ hashesOf C above, (s.dbs.diff.lookup blockHash).isSome) ∧
      (∃ earlier, HonestReachable C headers heightOf earlier below) ∧
      (∀ tip t, transaction (BlockHandler.disconnectStale C mainTip) s = (.ok tip, t) →
        tip = tipOf C below ∧ t.dbs.currentChainTip = (hashesOf C below).head? ∧
        t.events = s.events ++ (hashesOf C above).map .disconnectBlock ∧
        (∀ earlier, HonestReachable C headers heightOf earlier below →
          earlier.currentChainTip = (hashesOf C below).head? ∧
          ∀ op, t.dbs.p2mrUtxos.lookup op = earlier.p2mrUtxos.lookup op) ∧
        BlockHandler.missingBlocks t.dbs mainTip tip = new) ∧
      ∀ e t, transaction (BlockHandler.disconnectStale C mainTip) s = (.error e, t) →
        e ≠ .diverged ∧ ∃ n sent, s.faults n sent = true := by
  have htracked := h.reachable.tracked hhashes
  have hindex := h.chainIndex hhashes hheights
  have hforest := hindex.forest hhashes hheights
  have htip : StoredOrZero s.dbs (s.dbs.currentChainTip.getD .allZeros) := by
    cases hnone : s.dbs.currentChainTip with
    | none => exact .inr rfl
    | some tip =>
        obtain ⟨header, -, hstored, -⟩ := hindex.tip_header hnone
        exact .inl (by rw [Option.getD_some, hstored]; rfl)
  obtain ⟨ancestor, hfound, hancestor, hcommon⟩ := hforest.findLastCommonAncestor htip (.inl hmain)
  obtain ⟨above, below, rfl, rfl⟩ := (htracked.indexed.lastCommonAncestor hhashes hfound).split
  obtain ⟨new, hnew⟩ := hcommon.right.exists_path
  have hnotin : tipOf C below ∉ new := fun hin => Nat.lt_irrefl _ (hnew.level_lt hforest.graded _ hin).1
  have hrun := disconnectStale_rewound htracked hfound
  refine ⟨above, below, new, rfl, hforest.isLastCommonAncestor hcommon hancestor, ?_, hnew, ?_,
    h.suffix (List.suffix_append _ _), fun tip t hok => ?_, fun e t herror => hrun.error herror⟩
  · rw [htracked.tip_eq]
    exact htracked.path
  · intro blockHash hin
    have hmem : blockHash ∈ hashesOf C (above ++ below) := by
      rw [hashesOf, List.map_append]
      exact List.mem_append_left _ hin
    obtain ⟨front, rest, hsplit⟩ := List.append_of_mem hmem
    exact (htracked.indexed.entry blockHash rest ⟨front, hsplit.symm⟩).diff
  · obtain ⟨rfl, htracked', hheader, hevents⟩ := hrun.ok hok
    refine ⟨rfl, htracked'.indexed.tip, ?_, fun earlier hearlier => ?_, ?_⟩
    · rw [hevents, hashesOf, List.map_map]
      rfl
    · have htracked'' := hearlier.reachable.tracked hhashes
      exact ⟨htracked''.indexed.tip, congrFun (htracked'.utxos.trans htracked''.utxos.symm)⟩
    · rw [BlockHandler.missingBlocks, hheader]
      exact missingBlocks_path hnew hnotin (hforest.path_length_le hnew)

/-! The second block gives way to its sibling. -/

def headersStore : Store :=
  (putHeaders .sample (storedEntries [genesisEntry, childEntry]) (freshStore .empty) :
    Except SyncError Unit × Store).2

def chainStore : Store :=
  (sampleHandler.connectBlock .sample child (sampleHandler.connectBlock .sample genesis headersStore).2).2

def reorgStore : Store :=
  (putHeaders .sample (storedEntries [siblingEntry]) chainStore : Except SyncError Unit × Store).2

theorem reorgStore_reachable :
    HonestReachable .sample forkHeaders forkHeightOf reorgStore.dbs [child, genesis] := by
  have hreturned : ∀ {ε α : Type} {x : Db ε α} {s : Store}, (x s).1.toOption.isSome →
      ∃ a, x s = (.ok a, (x s).2) := by
    intro ε α x s h
    cases hx : (x s).1 with
    | ok a => exact ⟨a, Program.eq_of_fst hx⟩
    | error e =>
        rw [hx] at h
        cases h
  have hheaders : (putHeaders .sample (storedEntries [genesisEntry, childEntry]) : Db SyncError Unit)
      (freshStore .empty) = (.ok (), headersStore) := by
    unfold headersStore
    exact Program.eq_of_fst (by decide)
  obtain ⟨_, hgenesis⟩ := hreturned (x := sampleHandler.connectBlock .sample genesis) (s := headersStore)
    (by decide)
  obtain ⟨_, hchild⟩ := hreturned (x := sampleHandler.connectBlock .sample child)
    (s := (sampleHandler.connectBlock .sample genesis headersStore).2) (by decide +kernel)
  have hsibling : (putHeaders .sample (storedEntries [siblingEntry]) : Db SyncError Unit) chainStore =
      (.ok (), reorgStore) := by
    unfold reorgStore
    exact Program.eq_of_fst (by decide +kernel)
  have hextra : NoP2mr sampleHandler.extraPrevouts := fun _ _ hlookup => by cases hlookup
  have hfirst : genesisEntry.Honest .sample forkHeaders forkHeightOf := ⟨.inl rfl, rfl, by decide⟩
  have hascends : Ascends .sample forkHeaders forkHeightOf genesisEntry.hash [childEntry] :=
    ⟨⟨.inr (.inl rfl), rfl, by decide⟩, by decide, trivial⟩
  have hsiblingHonest : siblingEntry.Honest .sample forkHeaders forkHeightOf :=
    ⟨.inr (.inr rfl), rfl, by decide⟩
  have halone : Ascends .sample forkHeaders forkHeightOf siblingEntry.hash [] := trivial
  have hfetched : HonestReachable .sample forkHeaders forkHeightOf headersStore.dbs [] :=
    .putHeaders (s := freshStore .empty) .empty (fun hzero => absurd rfl hzero) hfirst hascends hheaders
  have hconnected : HonestReachable .sample forkHeaders forkHeightOf chainStore.dbs [child, genesis] :=
    .connect (.connect hfetched (.inl rfl) sampleCore.tail hextra hgenesis) (.inr (.inl rfl)) sampleCore
      hextra hchild
  exact .putHeaders (s := chainStore) hconnected (fun _ => by decide +kernel) hsiblingHonest halone hsibling

theorem reorgStore_reorganises :
    ∃ above below t, [child, genesis] = above ++ below ∧ tipOf .sample below = genesisHash ∧
      transaction (BlockHandler.disconnectStale .sample siblingHash) reorgStore = (.ok genesisHash, t) ∧
      t.dbs.currentChainTip = (hashesOf .sample below).head? ∧
      t.events = reorgStore.events ++ (hashesOf .sample above).map .disconnectBlock := by
  have hrun : (transaction (BlockHandler.disconnectStale .sample siblingHash) reorgStore).1 =
      .ok genesisHash := by decide +kernel
  obtain ⟨above, below, new, hchain, -, -, -, -, -, hok, -⟩ :=
    disconnectStale_reorganises forkHeaders_honest forkHeights reorgStore_reachable
      (show (reorgStore.dbs.header.lookup siblingHash).isSome by decide +kernel)
  obtain ⟨htip, hhead, hevents, -⟩ := hok _ _ (Program.eq_of_fst hrun)
  exact ⟨above, below, _, hchain, htip.symm, Program.eq_of_fst hrun, hhead, hevents⟩

end Bip360Enforcer.Validator
