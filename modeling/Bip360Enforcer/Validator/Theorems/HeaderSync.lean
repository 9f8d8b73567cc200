import Bip360Enforcer.Validator.Theorems.ChainIndex
import Mathlib.Data.List.TakeWhile

/-!
# The rounds of a header sync
-/

namespace Bip360Enforcer.Validator

open Program (wp)

variable {C : Crypto} {headers : Set Header} {heightOf : BlockHash → Nat} {dbs : Dbs} {s t u : Store}
  {source : HeaderSource} {mainTip blockHash parent : BlockHash} {mainTipHeight count n : Nat}
  {chain : List RestHeader} {active : Nat → List RestHeader} {start current next : BlockHash × Nat}

/-! ## The node -/

/-- The answer of a node with this active chain: its headers from the block on, if it is one of them. -/
def restAnswer (activeChain : List RestHeader) (blockHash : BlockHash) (descendants : Nat) :
    Except SyncError (List RestHeader) :=
  .ok ((activeChain.dropWhile fun entry => entry.hash ≠ blockHash).take descendants)

/-- The tip of an active chain. -/
def nodeTip (activeChain : List RestHeader) : Option BlockHash := activeChain.getLast?.map RestHeader.hash

/-! ## The rounds -/

/-- One round of the loop of `sync_headers`: the block to go on from, or none at the main tip. -/
def fetchHeaderBatch (C : Crypto) (mainTip : BlockHash) (mainTipHeight : Nat)
    (answer : BlockHash → Nat → Except SyncError (List RestHeader)) (current : BlockHash × Nat) :
    Db SyncError (Option (BlockHash × Nat)) := do
  let headersNeeded := mainTipHeight - current.2 + 1
  let headers ← Program.ofExcept (answer current.1 (min headerFetchBatchSize headersNeeded))
  match headers.getLast? with
  | none => Program.fail (.blockNotInActiveChain current.1)
  | some last => do
      Validator.storeHeaders C (headers.map fun entry => (entry.header, entry.height))
      if last.hash = mainTip then pure none
      else if last.height = mainTipHeight then Program.fail (.blockNotInActiveChain mainTip)
      else pure (some (last.hash, last.height))

/-- The loop takes one round after the other. -/
theorem fetchHeaders_cons {answer : BlockHash → Nat → Except SyncError (List RestHeader)}
    {answers : List (BlockHash → Nat → Except SyncError (List RestHeader))} :
    fetchHeaders C mainTip mainTipHeight (answer :: answers) current.1 current.2 =
      fetchHeaderBatch C mainTip mainTipHeight answer current >>= fun
        | none => pure ()
        | some next => fetchHeaders C mainTip mainTipHeight answers next.1 next.2 := by
  rw [fetchHeaders, fetchHeaderBatch, bind_assoc]
  refine bind_congr fun headers => ?_
  cases headers.getLast? with
  | none => rfl
  | some last =>
      simp only
      rw [bind_assoc]
      refine bind_congr fun _ => ?_
      split
      · rfl
      · split
        · rfl
        · rfl

/-- What the search for the best known ancestor has found, the main tip not being stored. -/
inductive SyncStart (source : HeaderSource) (mainTip : BlockHash) (mainTipHeight : Nat) (s : Store) :
    BlockHash × Nat → Store → Prop where
  | ancestor {t : Store} {start : BlockHash × Nat}
      (run : fetchBestAncestor source mainTip mainTipHeight s = (.ok (some start), t))
      (missing : start.1 ≠ mainTip) : SyncStart source mainTip mainTipHeight s start t
  | genesis {t : Store} {genesisBlockHash : BlockHash}
      (run : fetchBestAncestor source mainTip mainTipHeight s = (.ok none, t))
      (first : source.getblockhash (mainTipHeight + 1) 0 = .ok genesisBlockHash) :
      SyncStart source mainTip mainTipHeight s (genesisBlockHash, 0) t

/-- The loop stands before its n-th round, the node having the chain `active i` in the i-th one. -/
inductive Round (C : Crypto) (mainTip : BlockHash) (mainTipHeight : Nat)
    (active : Nat → List RestHeader) (start : BlockHash × Nat) (s : Store) :
    Nat → BlockHash × Nat → Store → Prop where
  | first : Round C mainTip mainTipHeight active start s 0 start s
  | next {n : Nat} {current next : BlockHash × Nat} {t u : Store}
      (before : Round C mainTip mainTipHeight active start s n current t)
      (run : fetchHeaderBatch C mainTip mainTipHeight (restAnswer (active n)) current t =
        (.ok (some next), u)) :
      Round C mainTip mainTipHeight active start s (n + 1) next u

/-- Each stored header has its parent stored, one block lower, or it is a first one. -/
def ParentsBelow (dbs : Dbs) : Prop :=
  ∀ blockHash header, dbs.header.lookup blockHash = some header → header.prevBlockhash ≠ .allZeros →
    (dbs.header.lookup header.prevBlockhash).isSome ∧ ∃ height,
      dbs.height.lookup header.prevBlockhash = some height ∧
      dbs.height.lookup blockHash = some (height + 1)

/-- Every round ends the loop or comes closer to the main tip. -/
structure Progresses (C : Crypto) (mainTip : BlockHash) (mainTipHeight : Nat)
    (active : Nat → List RestHeader) (start : BlockHash × Nat) (s : Store) : Prop where
  increases : ∀ n current t next u, Round C mainTip mainTipHeight active start s n current t →
    fetchHeaderBatch C mainTip mainTipHeight (restAnswer (active n)) current t = (.ok (some next), u) →
    current.2 < next.2
  /-- None of the differences of heights is negative. -/
  heights : ∀ n current t, Round C mainTip mainTipHeight active start s n current t →
    current.2 ≤ mainTipHeight ∧ ∀ entries,
      restAnswer (active n) current.1 (min headerFetchBatchSize (mainTipHeight - current.2 + 1)) =
        .ok entries →
      ∀ entry ∈ entries, entry.header.prevBlockhash ≠ .allZeros → 0 < entry.height
  rounds : ∀ n current t, Round C mainTip mainTipHeight active start s n current t →
    n < mainTipHeight - start.2 + 1
  ends : ∀ rounds, mainTipHeight - start.2 + 1 ≤ rounds →
    (fetchHeaders C mainTip mainTipHeight ((List.range rounds).map fun i => restAnswer (active i)) start.1
      start.2 s).1 ≠ .error .shutdown
  stored : ∀ n current t outcome u, Round C mainTip mainTipHeight active start s n current t →
    fetchHeaderBatch C mainTip mainTipHeight (restAnswer (active n)) current t = (outcome, u) →
    ParentsBelow u.dbs

/-! ## Answers -/

namespace Ascends

theorem split {below : List RestHeader} {first : RestHeader} {rest : List RestHeader}
    (h : Ascends C headers heightOf parent (below ++ first :: rest)) :
    first.Honest C headers heightOf ∧ Ascends C headers heightOf first.hash rest := by
  induction below generalizing parent with
  | nil => exact ⟨h.1, h.2.2⟩
  | cons entry below ih => exact ih h.2.2

theorem take {entries : List RestHeader} (h : Ascends C headers heightOf parent entries) :
    Ascends C headers heightOf parent (entries.take n) := by
  induction entries generalizing parent n with
  | nil => rwa [List.take_nil]
  | cons entry entries ih =>
      cases n with
      | zero => exact trivial
      | succ n => exact ⟨h.1, h.2.1, ih h.2.2⟩

/-- Heights count the entries. -/
theorem last {first : RestHeader} {rest : List RestHeader} (hhashes : HonestHashes C headers)
    (hheights : BlockHeights C headers heightOf) (hfirst : first.Honest C headers heightOf)
    (h : Ascends C headers heightOf first.hash rest) :
    (rest.getLast?.getD first).Honest C headers heightOf ∧
      (rest.getLast?.getD first).height = first.height + rest.length := by
  induction rest generalizing first with
  | nil => exact ⟨hfirst, rfl⟩
  | cons entry rest ih =>
      obtain ⟨hentry, hprev, hrest⟩ := h
      have hzero : entry.header.prevBlockhash ≠ .allZeros := by
        rw [hprev, hfirst.hash]
        exact hhashes.nonzero _ hfirst.known
      have hnext := hheights.next _ hentry.known hzero
      rw [← hentry.hash, ← hentry.height, hprev, ← hfirst.height] at hnext
      obtain ⟨hlast, hheight⟩ := ih hentry hrest
      rw [List.getLast?_cons, Option.getD_some, List.length_cons]
      exact ⟨hlast, by omega⟩

/-- A header that is not a first one is above height 0. -/
theorem height_pos (hheights : BlockHeights C headers heightOf) {entries : List RestHeader}
    (h : Ascends C headers heightOf parent entries) {entry : RestHeader} (hentry : entry ∈ entries)
    (hzero : entry.header.prevBlockhash ≠ .allZeros) : 0 < entry.height := by
  obtain ⟨below, above, rfl⟩ := List.append_of_mem hentry
  have hhonest := h.split.1
  rw [hhonest.height, hhonest.hash, hheights.next _ hhonest.known hzero]
  exact Nat.succ_pos _

end Ascends

/-- An answer that starts at the block asked for. -/
structure AnswerFrom (C : Crypto) (headers : Set Header) (heightOf : BlockHash → Nat)
    (chain : List RestHeader) (blockHash : BlockHash) (count : Nat) (first : RestHeader)
    (rest : List RestHeader) : Prop where
  hash : first.hash = blockHash
  honest : first.Honest C headers heightOf
  ascends : Ascends C headers heightOf first.hash rest
  atMost : rest.length + 1 ≤ count
  single : rest = [] → count = 1 ∨ nodeTip chain = some blockHash

/-- The node's chain from the block on, if it is on the chain. -/
theorem dropWhile_cases (blockHash : BlockHash)
    (hchain : Ascends C headers heightOf .allZeros chain) :
    chain.dropWhile (fun entry => entry.hash ≠ blockHash) = [] ∨
    ∃ below first rest, chain = below ++ first :: rest ∧ first.hash = blockHash ∧
      chain.dropWhile (fun entry => entry.hash ≠ blockHash) = first :: rest ∧
      first.Honest C headers heightOf ∧ Ascends C headers heightOf first.hash rest := by
  cases hdrop : chain.dropWhile (fun entry => entry.hash ≠ blockHash) with
  | nil => exact .inl rfl
  | cons first rest =>
      have hsplit := (List.takeWhile_append_dropWhile
        (p := fun entry : RestHeader => decide (entry.hash ≠ blockHash)) (l := chain)).symm
      rw [hdrop] at hsplit
      have hfirst : ¬ decide (first.hash ≠ blockHash) = true := by
        have hhead := List.head_dropWhile_not (fun entry : RestHeader => decide (entry.hash ≠ blockHash))
          (l := chain) (by rw [hdrop]; exact List.cons_ne_nil _ _)
        simp only [hdrop, List.head_cons] at hhead
        rw [hhead]
        exact Bool.false_ne_true
      have hhash : first.hash = blockHash := by simpa using hfirst
      obtain ⟨hhonest, hrest⟩ := Ascends.split (hsplit ▸ hchain)
      exact .inr ⟨_, first, rest, hsplit, hhash, rfl, hhonest, hrest⟩

theorem restAnswer_cases (blockHash : BlockHash)
    (hchain : Ascends C headers heightOf .allZeros chain) (hcount : 0 < count) :
    restAnswer chain blockHash count = .ok [] ∨
    ∃ first rest, restAnswer chain blockHash count = .ok (first :: rest) ∧
      AnswerFrom C headers heightOf chain blockHash count first rest := by
  unfold restAnswer
  rcases dropWhile_cases blockHash hchain with hdrop | ⟨below, first, rest, hsplit, hhash,
    hdrop, hhonest, hrest⟩
  · left
    rw [hdrop, List.take_nil]
  · right
    obtain ⟨count, rfl⟩ := Nat.exists_eq_succ_of_ne_zero (Nat.ne_of_gt hcount)
    refine ⟨first, rest.take count, by rw [hdrop, List.take_succ_cons], hhash, hhonest, hrest.take, ?_, ?_⟩
    · exact Nat.succ_le_succ (List.length_take_le _ _)
    · intro hnil
      rcases List.take_eq_nil_iff.mp hnil with hzero | hnil
      · exact .inl (congrArg Nat.succ hzero)
      · right
        subst hnil
        rw [nodeTip, hsplit, List.getLast?_append, List.getLast?_singleton, Option.some_or,
          Option.map_some, hhash]

theorem restAnswer_honest (hchain : Ascends C headers heightOf .allZeros chain) {first : RestHeader}
    {rest : List RestHeader} (h : restAnswer chain blockHash count = .ok (first :: rest)) :
    first.hash = blockHash ∧ first.Honest C headers heightOf ∧
      Ascends C headers heightOf blockHash rest := by
  have hcount : 0 < count := by
    rcases Nat.eq_zero_or_pos count with rfl | hpos
    · cases h
    · exact hpos
  rcases restAnswer_cases blockHash hchain hcount with hnone | ⟨first', rest', hsome, hfrom⟩
  · rw [hnone] at h
    cases h
  · rw [hsome] at h
    cases h
    exact ⟨hfrom.hash, hfrom.honest, hfrom.hash ▸ hfrom.ascends⟩

/-! ## One round -/

/-- Storing headers fails only if an operation does. -/
theorem storeHeaders_later {stored : List (Header × Nat)} (hhashes : HonestHashes C headers)
    (hkeyed : Keyed C headers s.dbs) (hstored : ∀ entry ∈ stored, entry.1 ∈ headers) :
    wp (Validator.storeHeaders C stored) (fun _ t => Later s t)
      (fun e _ => e = .db .io ∧ ∃ n sent, s.faults n sent = true) s := by
  have hput : Spec (putHeaders C stored : Db SyncError Unit) s.dbs _ (fun _ _ => False) (· = .db .io) :=
    putHeaders_spec hhashes hkeyed hstored rfl
  unfold Validator.storeHeaders
  refine wp_transaction (fun hfails => ⟨rfl, 0, _, hfails⟩) ?_
  rw [Program.wp_bind]
  refine (hput s.next.begin rfl).mono ?_ ?_
  · rintro - t ⟨hquiet, -⟩
    have hlater : Later s t := .of_begin hquiet
    refine wp_access.mpr ⟨fun hfails => ⟨rfl, hlater.fault ⟨0, _, hfails⟩⟩, fun _ => ?_⟩
    obtain ⟨k, hk⟩ := hlater
    exact ⟨k + 1, fun n => by rw [← Nat.add_assoc, Nat.add_right_comm, ← hk]; rfl⟩
  · rintro e t ⟨-, hfalse | ⟨⟨n, hn⟩, rfl⟩⟩
    · exact hfalse.elim
    · exact ⟨rfl, n + 1, _, hn⟩

/-- The loop may stand before a round at this block. -/
structure Stands (C : Crypto) (headers : Set Header) (heightOf : BlockHash → Nat) (mainTipHeight : Nat)
    (dbs : Dbs) (current : BlockHash × Nat) : Prop where
  index : ChainIndex C headers heightOf dbs
  anchored : Anchored heightOf dbs current.1
  height : heightOf current.1 = current.2
  atMost : current.2 ≤ mainTipHeight

theorem ChainIndex.parentsBelow (h : ChainIndex C headers heightOf dbs)
    (hheights : BlockHeights C headers heightOf) : ParentsBelow dbs := by
  intro blockHash header hlookup hzero
  have hparent := h.parent _ _ hlookup hzero
  obtain ⟨parentHeader, hparentHeader⟩ := Option.isSome_iff_exists.mp hparent
  obtain ⟨hmem, rfl⟩ := h.keyed _ _ hlookup
  refine ⟨hparent, heightOf header.prevBlockhash, ?_, ?_⟩
  · rw [h.height, hparentHeader]
    rfl
  · rw [h.height, hlookup, ← hheights.next header hmem hzero]
    rfl

/-- A round ends the loop, or gets further, or stays at the tip of the node's chain. -/
theorem fetchHeaderBatch_wp (hhashes : HonestHashes C headers) (hheights : BlockHeights C headers heightOf)
    (hchain : Ascends C headers heightOf .allZeros chain)
    (h : Stands C headers heightOf mainTipHeight s.dbs current) (mainTip : BlockHash) :
    wp (fetchHeaderBatch C mainTip mainTipHeight (restAnswer chain) current)
      (fun outcome t => ChainIndex C headers heightOf t.dbs ∧ Later s t ∧ ∀ next, outcome = some next →
        Stands C headers heightOf mainTipHeight t.dbs next ∧
        (current.2 < next.2 ∨ nodeTip chain = some current.1 ∧ current.2 < mainTipHeight))
      (fun e t => ChainIndex C headers heightOf t.dbs ∧ e ≠ .shutdown) s := by
  unfold fetchHeaderBatch
  have hcount : 0 < min headerFetchBatchSize (mainTipHeight - current.2 + 1) :=
    Nat.lt_min.mpr ⟨by decide, Nat.succ_pos _⟩
  rw [Program.wp_bind, Program.wp_ofExcept]
  rcases restAnswer_cases current.1 hchain hcount with hnone | ⟨first, rest, hsome, hfrom⟩
  · rw [hnone]
    refine ⟨fun entries hentries => ?_, fun e he => by cases he⟩
    obtain rfl := Except.ok.inj hentries
    exact ⟨h.index, by nofun⟩
  · rw [hsome]
    refine ⟨fun entries hentries => ?_, fun e he => by cases he⟩
    obtain rfl := Except.ok.inj hentries
    obtain ⟨hlast, hlastHeight⟩ := hfrom.ascends.last hhashes hheights hfrom.honest
    have hfirstHeight : first.height = current.2 := by
      rw [hfrom.honest.height, hfrom.hash, h.height]
    have hatMost : rest.length + 1 ≤ mainTipHeight - current.2 + 1 :=
      Nat.le_trans hfrom.atMost (Nat.min_le_right _ _)
    have hcurrent := h.atMost
    rw [List.getLast?_cons]
    simp only
    rw [Program.wp_bind]
    have hknown : ∀ entry ∈ storedEntries (first :: rest), entry.1 ∈ headers := by
      intro entry hentry
      obtain ⟨rest', hrest', rfl⟩ := List.mem_map.mp hentry
      rcases List.mem_cons.mp hrest' with rfl | hmem
      · exact hfrom.honest.known
      · obtain ⟨below, above, rfl⟩ := List.append_of_mem hmem
        exact hfrom.ascends.split.1.known
    have hanchored : Anchored heightOf s.dbs first.hash := hfrom.hash ▸ h.anchored
    refine ((storeHeaders_chainIndex hhashes hheights h.index hanchored hfrom.honest hfrom.ascends).and
      (storeHeaders_later hhashes h.index.keyed hknown)).mono ?_ ?_
    · rintro - t ⟨⟨hindex, hstored⟩, hlater⟩
      refine Program.wp_ite.mpr ⟨fun _ => ⟨hindex, hlater, by nofun⟩, fun _ => ?_⟩
      refine Program.wp_ite.mpr ⟨fun _ => ⟨hindex, by nofun⟩, fun hbelow => ?_⟩
      refine ⟨hindex, hlater, fun next hnext => ?_⟩
      obtain rfl := Option.some.inj hnext
      have hlastHash : (rest.map RestHeader.hash).getLast?.getD first.hash =
          (rest.getLast?.getD first).hash := by
        rw [List.getLast?_map]
        cases rest.getLast? <;> rfl
      rw [hlastHash] at hstored
      refine ⟨⟨hindex, .inl hstored, hlast.height.symm, by change (rest.getLast?.getD first).height ≤ _; omega⟩,
        ?_⟩
      change current.2 < (rest.getLast?.getD first).height ∨ _
      cases rest with
      | nil =>
          right
          have hne : current.2 ≠ mainTipHeight := fun heq => hbelow (hfirstHeight.trans heq)
          have hlt : current.2 < mainTipHeight := by omega
          rcases hfrom.single rfl with hone | htip
          · have htwo : 2 ≤ min headerFetchBatchSize (mainTipHeight - current.2 + 1) :=
              Nat.le_min.mpr ⟨by decide, by omega⟩
            omega
          · exact ⟨htip, hlt⟩
      | cons entry rest =>
          left
          rw [hlastHeight, List.length_cons]
          omega
    · rintro e t ⟨hindex, rfl, -⟩
      exact ⟨hindex, by nofun⟩

/-- At the tip of the node's chain, below the main tip, a round leads back to itself. -/
theorem fetchHeaderBatch_stuck (hhashes : HonestHashes C headers)
    (hheights : BlockHeights C headers heightOf)
    (hchain : Ascends C headers heightOf .allZeros chain)
    (h : Stands C headers heightOf mainTipHeight s.dbs current) (htip : nodeTip chain = some current.1)
    (hmainTip : heightOf mainTip = mainTipHeight) (hlt : current.2 < mainTipHeight)
    (hfaults : ∀ n sent, s.faults n sent = false) :
    ∃ t, fetchHeaderBatch C mainTip mainTipHeight (restAnswer chain) current s = (.ok (some current), t) := by
  obtain ⟨last, hlast, hlastHash⟩ := Option.map_eq_some_iff.mp htip
  rcases dropWhile_cases current.1 hchain with hdrop | ⟨below, first, rest, hsplit, hhash,
    hdrop, hhonest, hrest⟩
  · have hall := List.dropWhile_eq_nil_iff.mp hdrop last (List.mem_of_getLast? hlast)
    simp [hlastHash] at hall
  · obtain ⟨hlastHonest, hlastHeight⟩ := hrest.last hhashes hheights hhonest
    have heq : last = rest.getLast?.getD first := by
      rw [hsplit, List.getLast?_append, List.getLast?_cons, Option.some_or] at hlast
      exact (Option.some.inj hlast).symm
    have hrestLength : rest.length = 0 := by
      rw [← heq] at hlastHonest hlastHeight
      rw [hlastHonest.height, hlastHash, hhonest.height, hhash] at hlastHeight
      omega
    obtain rfl := List.length_eq_zero_iff.mp hrestLength
    have hfirstHeight : first.height = current.2 := by rw [hhonest.height, hhash, h.height]
    have hanswer : restAnswer chain current.1 (min headerFetchBatchSize (mainTipHeight - current.2 + 1)) =
        .ok [first] := by
      have hcount : 0 < min headerFetchBatchSize (mainTipHeight - current.2 + 1) :=
        Nat.lt_min.mpr ⟨by decide, Nat.succ_pos _⟩
      rw [restAnswer, hdrop, List.take_of_length_le (by rw [List.length_singleton]; exact hcount)]
    have hround : wp (fetchHeaderBatch C mainTip mainTipHeight (restAnswer chain) current)
        (fun outcome _ => outcome = some current) (fun _ _ => False) s := by
      unfold fetchHeaderBatch
      rw [Program.wp_bind, Program.wp_ofExcept, hanswer]
      refine ⟨fun entries hentries => ?_, fun _ he => by cases he⟩
      obtain rfl := Except.ok.inj hentries
      rw [List.getLast?_singleton]
      simp only
      rw [Program.wp_bind]
      have hknown : ∀ entry ∈ storedEntries [first], entry.1 ∈ headers := by
        intro entry hentry
        obtain rfl := List.mem_singleton.mp hentry
        exact hhonest.known
      refine (storeHeaders_later hhashes h.index.keyed hknown).mono ?_ ?_
      · intro _ t _
        refine Program.wp_ite.mpr ⟨fun hmain => ?_, fun _ => ?_⟩
        · rw [← hmain, ← hhonest.height] at hmainTip
          omega
        · refine Program.wp_ite.mpr ⟨fun hmain => by omega, fun _ => ?_⟩
          exact congrArg some (Prod.ext hhash hfirstHeight)
      · rintro e t ⟨-, n, sent, hn⟩
        rw [hfaults] at hn
        cases hn
    cases hrun : fetchHeaderBatch C mainTip mainTipHeight (restAnswer chain) current s with
    | mk outcome t =>
        cases outcome with
        | ok outcome => exact ⟨t, by rw [hround.ok hrun]⟩
        | error e => exact (hround.error hrun).elim

/-! ## The start -/

/-- The search finds true heights below that of the missing block. -/
theorem searchBestAncestor_height {fuel asked missing : Nat} {best : Option (BlockHash × Nat)}
    (hsource : ∀ n height hash, source.getblockhash n height = .ok hash → heightOf hash = height)
    (hbest : ∀ known, best = some known → heightOf known.1 = known.2 ∧ known.2 < missing) :
    wp (searchBestAncestor source fuel asked best missing)
      (fun found _ => ∀ known, found = some known → heightOf known.1 = known.2 ∧ known.2 < missing)
      (fun _ _ => True) s := by
  induction fuel generalizing s asked missing best with
  | zero => exact trivial
  | succ fuel ih =>
      rw [searchBestAncestor]
      refine Program.wp_ite.mpr ⟨fun _ => hbest, fun hgo => ?_⟩
      obtain ⟨hne, hne'⟩ := not_or.mp hgo
      have hle : (best.map Prod.snd).getD 0 ≤ missing := by
        cases best with
        | none => exact Nat.zero_le _
        | some known => exact Nat.le_of_lt (hbest known rfl).2
      rw [Program.wp_bind, Program.wp_ofExcept]
      refine ⟨fun midpoint hmidpoint => ?_, fun _ _ => trivial⟩
      rw [Program.wp_bind, wp_access]
      refine ⟨fun _ => trivial, fun _ => ?_⟩
      rw [Program.wp_bind, containsHeader, wp_read]
      refine ⟨fun _ => trivial, fun _ => Program.wp_ite.mpr ⟨fun _ => ?_, fun _ => ?_⟩⟩
      · refine ih fun known hknown => ?_
        obtain rfl := Option.some.inj hknown
        exact ⟨hsource _ _ _ hmidpoint, by omega⟩
      · refine (ih fun known hknown => ?_).mono (fun found _ hfound known hknown => ?_) fun _ _ _ => trivial
        · obtain ⟨hheight, hlt⟩ := hbest known hknown
          subst hknown
          have hne'' : known.2 ≠ (missing + known.2) / 2 := fun heq => hne (congrArg some heq)
          refine ⟨hheight, ?_⟩
          change known.2 < (missing + known.2) / 2
          omega
        · obtain ⟨hheight, hlt⟩ := hfound known hknown
          exact ⟨hheight, by omega⟩

/-- The loop starts at a stored block or a first one, at or below the main tip. -/
theorem SyncStart.stands (hhashes : HonestHashes C headers) (hheights : BlockHeights C headers heightOf)
    (hreached : IndexRun C headers heightOf s)
    (hsource : ∀ n height hash, source.getblockhash n height = .ok hash → heightOf hash = height)
    (h : SyncStart source mainTip mainTipHeight s start t) :
    Stands C headers heightOf mainTipHeight t.dbs start := by
  have hindex := hreached.chainIndex hhashes hheights
  cases h with
  | ancestor run missing =>
      obtain ⟨hdbs, hstored⟩ := fetchBestAncestor_wp.ok run
      have hsearch : wp (fetchBestAncestor source mainTip mainTipHeight)
          (fun found _ => ∀ known, found = some known → known.1 ≠ mainTip →
            heightOf known.1 = known.2 ∧ known.2 < mainTipHeight) (fun _ _ => True) s := by
        unfold fetchBestAncestor
        refine Program.wp_ite.mpr ⟨fun _ known hnone => (by cases hnone), fun _ => ?_⟩
        rw [Program.wp_bind, wp_access]
        refine ⟨fun _ => trivial, fun _ => ?_⟩
        rw [Program.wp_bind, containsHeader, wp_read]
        refine ⟨fun _ => trivial, fun _ => Program.wp_ite.mpr ⟨fun _ known hknown hne => ?_, fun _ => ?_⟩⟩
        · obtain rfl := Option.some.inj hknown
          exact absurd rfl hne
        · refine (searchBestAncestor_height hsource ?_).mono (fun _ _ hfound known hknown _ =>
            hfound known hknown) fun _ _ _ => trivial
          intro _ hnone
          cases hnone
      obtain ⟨hheight, hlt⟩ := hsearch.ok run start rfl missing
      exact ⟨hdbs ▸ hindex, .inl (hdbs ▸ hstored start.1 start.2 rfl), hheight, Nat.le_of_lt hlt⟩
  | genesis run first =>
      have hdbs := (fetchBestAncestor_wp.ok run).1
      have hheight := hsource _ _ _ first
      exact ⟨hdbs ▸ hindex, .inr hheight, hheight, Nat.zero_le _⟩

/-! ## All rounds -/

section

variable (hhashes : HonestHashes C headers) (hheights : BlockHeights C headers heightOf)
  (hactive : ∀ n, Ascends C headers heightOf .allZeros (active n))

include hhashes hheights hactive

theorem Round.stands (hstart : Stands C headers heightOf mainTipHeight s.dbs start)
    (h : Round C mainTip mainTipHeight active start s n current t) :
    Stands C headers heightOf mainTipHeight t.dbs current ∧ Later s t := by
  induction h with
  | first => exact ⟨hstart, 0, fun _ => rfl⟩
  | next _ run ih =>
      obtain ⟨hstands, hlater⟩ := ih
      obtain ⟨-, hlater', hnext⟩ :=
        (fetchHeaderBatch_wp hhashes hheights (hactive _) hstands mainTip).ok run
      exact ⟨(hnext _ rfl).1, hlater.trans hlater'⟩

/-- A sync that is cancelled before a round has come to that round. -/
theorem Round.of_shutdown (hstart : Stands C headers heightOf mainTipHeight s.dbs start) {rounds : Nat}
    (h : Round C mainTip mainTipHeight active start s n current t)
    (hrun : (fetchHeaders C mainTip mainTipHeight
      ((List.range' n rounds).map fun i => restAnswer (active i)) current.1 current.2 t).1 =
        .error .shutdown) :
    ∃ current u, Round C mainTip mainTipHeight active start s (n + rounds) current u := by
  induction rounds generalizing n current t with
  | zero => exact ⟨current, t, h⟩
  | succ rounds ih =>
      have hstands := (h.stands hhashes hheights hactive hstart).1
      have hwp := fetchHeaderBatch_wp hhashes hheights (hactive n) hstands mainTip
      rw [List.range'_succ, List.map_cons, fetchHeaders_cons, Program.bind_apply] at hrun
      cases hround : fetchHeaderBatch C mainTip mainTipHeight (restAnswer (active n)) current t with
      | mk outcome u =>
          rw [hround] at hrun
          cases outcome with
          | error e => exact absurd (Except.error.inj hrun) (hwp.error hround).2
          | ok outcome =>
              cases outcome with
              | none => cases hrun
              | some next =>
                  have hlater := ih (h.next hround) hrun
                  rwa [Nat.add_right_comm] at hlater

/-- Where no round starts at the tip of the node's chain, every round comes closer to the main tip. -/
theorem Progresses.of_stands (hstart : Stands C headers heightOf mainTipHeight s.dbs start)
    (hcondition : ∀ n current t, Round C mainTip mainTipHeight active start s n current t →
      current.2 < mainTipHeight → nodeTip (active n) ≠ some current.1) :
    Progresses C mainTip mainTipHeight active start s := by
  have hincreases : ∀ n current t next u, Round C mainTip mainTipHeight active start s n current t →
      fetchHeaderBatch C mainTip mainTipHeight (restAnswer (active n)) current t = (.ok (some next), u) →
      current.2 < next.2 := by
    intro n current t next u hround hrun
    have hstands := (hround.stands hhashes hheights hactive hstart).1
    obtain ⟨-, -, hnext⟩ := (fetchHeaderBatch_wp hhashes hheights (hactive n) hstands mainTip).ok hrun
    rcases (hnext next rfl).2 with hlt | ⟨htip, hlt⟩
    · exact hlt
    · exact absurd htip (hcondition n current t hround hlt)
  have hrounds : ∀ n current t, Round C mainTip mainTipHeight active start s n current t →
      n < mainTipHeight - start.2 + 1 := by
    intro n current t hround
    have hatMost := (hround.stands hhashes hheights hactive hstart).1.atMost
    have hcount : start.2 + n ≤ current.2 := by
      clear hatMost
      induction hround with
      | first => exact Nat.le_refl _
      | next before run ih =>
          have hlt := hincreases _ _ _ _ _ before run
          omega
    omega
  refine ⟨hincreases, fun n current t hround => ?_, hrounds, fun rounds hle hrun => ?_,
    fun n current t outcome u hround hrun => ?_⟩
  · refine ⟨(hround.stands hhashes hheights hactive hstart).1.atMost, fun entries hentries entry hentry => ?_⟩
    have hcount : 0 < min headerFetchBatchSize (mainTipHeight - current.2 + 1) :=
      Nat.lt_min.mpr ⟨by decide, Nat.succ_pos _⟩
    obtain rfl := Except.ok.inj hentries
    have hsplit := List.takeWhile_append_dropWhile
      (p := fun entry : RestHeader => decide (entry.hash ≠ current.1)) (l := active n)
    have hmem : entry ∈ active n := by
      rw [← hsplit]
      exact List.mem_append_right _ (List.mem_of_mem_take hentry)
    exact (hactive n).height_pos hheights hmem
  · rw [List.range_eq_range'] at hrun
    obtain ⟨current, u, hround⟩ :=
      Round.of_shutdown hhashes hheights hactive hstart .first hrun
    have hlt := hrounds _ _ _ hround
    omega
  · have hstands := (hround.stands hhashes hheights hactive hstart).1
    have hwp := fetchHeaderBatch_wp hhashes hheights (hactive n) hstands mainTip
    cases outcome with
    | ok outcome => exact (hwp.ok hrun).1.parentsBelow hheights
    | error e => exact (hwp.error hrun).1.parentsBelow hheights

end

/-- A header sync makes progress where no round asks for the headers from the tip of the node's chain,
that tip being below the main tip; where operations do not fail, only there. -/
theorem headerSync_progresses (hhashes : HonestHashes C headers) (hheights : BlockHeights C headers heightOf)
    (hreached : IndexRun C headers heightOf s)
    (hsource : ∀ n height hash, source.getblockhash n height = .ok hash → heightOf hash = height)
    (hmainTip : heightOf mainTip = mainTipHeight)
    (hactive : ∀ n, Ascends C headers heightOf .allZeros (active n))
    (hstart : SyncStart source mainTip mainTipHeight s start t) :
    ((∀ n current u, Round C mainTip mainTipHeight active start t n current u →
          current.2 < mainTipHeight → nodeTip (active n) ≠ some current.1) →
        Progresses C mainTip mainTipHeight active start t) ∧
      ((∀ n sent, t.faults n sent = false) → Progresses C mainTip mainTipHeight active start t →
        ∀ n current u, Round C mainTip mainTipHeight active start t n current u →
          current.2 < mainTipHeight → nodeTip (active n) ≠ some current.1) := by
  have hstands := hstart.stands hhashes hheights hreached hsource
  refine ⟨Progresses.of_stands hhashes hheights hactive hstands, fun hfaults hprogress n current u hround
    hlt htip => ?_⟩
  obtain ⟨hcurrent, k, hk⟩ := hround.stands hhashes hheights hactive hstands
  have hfaults' : ∀ n sent, u.faults n sent = false := fun n sent => by rw [hk, hfaults]
  obtain ⟨v, hrun⟩ := fetchHeaderBatch_stuck hhashes hheights (hactive n) hcurrent htip hmainTip hlt hfaults'
  exact absurd (hprogress.increases n current u current v hround hrun) (Nat.lt_irrefl _)

/-! The second of two blocks is the main tip, of which the node may or may not still have the header in
its active chain. -/

def genesisEntry : RestHeader := ⟨genesis.header, genesisHash, 0⟩

def childEntry : RestHeader := ⟨child.header, childHash, 1⟩

/-- The databases after the sync of the first header. -/
def genesisSource : HeaderSource :=
  { sampleSource with
    getblockheader := fun _ => .ok 0
    getBlockHeaders := [restAnswer [genesisEntry]] }

def firstStore : Store := (syncHeaders genesisSource .sample genesisHash (freshStore .empty)).2

theorem genesisEntry_ascends : Ascends .sample sampleHeaders sampleHeightOf .allZeros [genesisEntry] :=
  ⟨⟨.inl rfl, rfl, by decide⟩, rfl, trivial⟩

theorem childEntry_ascends :
    Ascends .sample sampleHeaders sampleHeightOf .allZeros [genesisEntry, childEntry] :=
  ⟨⟨.inl rfl, rfl, by decide⟩, rfl, ⟨.inr rfl, rfl, by decide⟩, rfl, trivial⟩

theorem genesisSource_honest : HonestHeaders .sample sampleHeaders sampleHeightOf genesisSource where
  blockHash := sampleSource_honest.blockHash
  answers := by
    intro answer hanswer hash count first rest h
    obtain rfl := List.mem_singleton.mp hanswer
    exact restAnswer_honest genesisEntry_ascends h

theorem firstStore_run : IndexRun .sample sampleHeaders sampleHeightOf firstStore := by
  have hsync : syncHeaders genesisSource .sample genesisHash (freshStore .empty) =
      (.ok (), firstStore) := by
    unfold firstStore
    exact Program.eq_of_fst (by decide)
  have hstart : IndexRun .sample sampleHeaders sampleHeightOf (freshStore .empty) := .start
  exact .syncHeaders hstart genesisSource_honest hsync

def searchedStore : Store := (fetchBestAncestor sampleSource childHash 1 firstStore).2

theorem searchedStore_start :
    SyncStart sampleSource childHash 1 firstStore (genesisHash, 0) searchedStore := by
  refine .ancestor ?_ (by decide)
  unfold searchedStore
  exact Program.eq_of_fst (by decide)

theorem searchedStore_faults (n : Nat) (sent : Bool) : searchedStore.faults n sent = false := rfl

theorem childEntry_progresses :
    Progresses .sample childHash 1 (fun _ => [genesisEntry, childEntry]) (genesisHash, 0) searchedStore := by
  have hstands := searchedStore_start.stands sampleHeaders_honest sampleHeights firstStore_run
    sampleSource_honest.blockHash
  refine (headerSync_progresses sampleHeaders_honest sampleHeights firstStore_run
    sampleSource_honest.blockHash (by decide) (fun _ => childEntry_ascends)
    searchedStore_start).1 ?_
  intro n current u hround hlt htip
  have hcurrent := (hround.stands sampleHeaders_honest sampleHeights (fun _ => childEntry_ascends) hstands).1
  have hone : sampleHeightOf current.1 = 1 := by
    rw [← Option.some.inj htip]
    decide
  rw [hcurrent.height] at hone
  omega

/-- The second block has been invalidated: round after round starts at the first one. -/
theorem genesisEntry_diverges :
    HonestHashes .sample sampleHeaders ∧ BlockHeights .sample sampleHeaders sampleHeightOf ∧
    IndexRun .sample sampleHeaders sampleHeightOf firstStore ∧
    HonestHeaders .sample sampleHeaders sampleHeightOf sampleSource ∧ sampleHeightOf childHash = 1 ∧
    Ascends .sample sampleHeaders sampleHeightOf .allZeros [genesisEntry] ∧
    SyncStart sampleSource childHash 1 firstStore (genesisHash, 0) searchedStore ∧
    (∀ n, ∃ u, Round .sample childHash 1 (fun _ => [genesisEntry]) (genesisHash, 0) searchedStore n
      (genesisHash, 0) u) ∧
    ¬ Progresses .sample childHash 1 (fun _ => [genesisEntry]) (genesisHash, 0) searchedStore := by
  have hstands := searchedStore_start.stands sampleHeaders_honest sampleHeights firstStore_run
    sampleSource_honest.blockHash
  have hstuck : ∀ n u, Round .sample childHash 1 (fun _ => [genesisEntry]) (genesisHash, 0) searchedStore n
      (genesisHash, 0) u → ∃ v, fetchHeaderBatch .sample childHash 1 (restAnswer [genesisEntry])
        (genesisHash, 0) u = (.ok (some (genesisHash, 0)), v) := by
    intro n u hround
    obtain ⟨hcurrent, k, hk⟩ :=
      hround.stands sampleHeaders_honest sampleHeights (fun _ => genesisEntry_ascends) hstands
    exact fetchHeaderBatch_stuck sampleHeaders_honest sampleHeights genesisEntry_ascends hcurrent rfl
      (by decide) Nat.one_pos fun n sent => by rw [hk, searchedStore_faults]
  have hrounds : ∀ n, ∃ u, Round .sample childHash 1 (fun _ => [genesisEntry]) (genesisHash, 0)
      searchedStore n (genesisHash, 0) u := by
    intro n
    induction n with
    | zero => exact ⟨_, .first⟩
    | succ n ih =>
        obtain ⟨u, hround⟩ := ih
        obtain ⟨v, hrun⟩ := hstuck n u hround
        exact ⟨v, hround.next hrun⟩
  refine ⟨sampleHeaders_honest, sampleHeights, firstStore_run, sampleSource_honest, by decide,
    genesisEntry_ascends, searchedStore_start, hrounds, fun hprogress => ?_⟩
  obtain ⟨v, hrun⟩ := hstuck 0 searchedStore .first
  exact absurd (hprogress.increases 0 _ _ _ v .first hrun) (Nat.lt_irrefl _)

end Bip360Enforcer.Validator
